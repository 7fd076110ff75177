import XxAgent.Ecma.IndexOf
import XxAgent.Ecma.StringMethods

/-!
# The string-replacement editor

The model-facing `str_replace` and `insert` commands over the filesystem seam. A command resolves
its path, asks which version an edit may replace, looks at the target, reads it, and writes the
edited text under a version. Between any two of these steps another writer may come.
-/

namespace XxAgent.Editor

open Ecma

/-! ## The filesystem seam -/

/-- Opaque freshness token of a target. -/
abbrev FsVersion := ℕ

/-- What stands at a target. -/
inductive FsNode where
  | file (text : JsString)
  | directory
  | other
deriving DecidableEq

inductive FsErrorCode where
  | notFound
  | notRegularFile
  | editNotFound
  | ambiguousEdit
  | staleVersion
  | notObserved
  | sandboxDenied
  | other (code : JsString)
deriving DecidableEq

/-- The state of a target. A write gives it a version that it never had before. -/
structure FsState where
  entry : Option (FsNode × FsVersion)
  /-- The version of the next write. -/
  next : FsVersion
  entry_lt : ∀ found ∈ entry, found.2 < next

namespace FsState

theorem put_lt (node : Option FsNode) (next : FsVersion) :
    ∀ found ∈ node.map fun node ↦ (node, next), found.2 < next + 1 := by
  intro found hfound
  obtain ⟨node, -, rfl⟩ := Option.map_eq_some_iff.mp hfound
  exact Nat.lt_succ_self next

/-- Whatever a writer leaves at the target, or its removal. -/
def put (state : FsState) (node : Option FsNode) : FsState where
  entry := node.map fun node ↦ (node, state.next)
  next := state.next + 1
  entry_lt := put_lt node state.next

/-- The text of a regular file. -/
def readText (state : FsState) : Except FsErrorCode JsString :=
  match state.entry with
  | some (.file text, _) => .ok text
  | some _ => .error .notRegularFile
  | none => .error .notFound

/-- `writeText` under `replaceIfVersion`: one comparison with the version that is there. -/
def replaceIfVersion (state : FsState) (version : FsVersion) (text : JsString) :
    Except FsErrorCode FsState :=
  match state.entry with
  | some (.file _, current) =>
    if current = version then .ok (state.put (some (.file text))) else .error .staleVersion
  | some _ => .error .notRegularFile
  | none => .error .staleVersion

end FsState

/-! ## Errors -/

/-- Why a command fails. -/
inductive EditorError where
  | required (parameter command : JsString)
  | empty (parameter command : JsString)
  | insertLineRequired
  | emptyPath
  | relativePath (path : JsString)
  | missing (displayPath : JsString)
  | directory (displayPath : JsString)
  | notRegular (verb displayPath : JsString)
  | absent (oldStr displayPath : JsString)
  | ambiguous (oldStr : JsString) (lines : List ℕ)
  | badLine (insertLine : Number) (lines : ℕ)
  /-- Raised by the file system, or by whoever decides the edit intent. -/
  | fs (code : FsErrorCode)
deriving DecidableEq

private def natTexts (ns : List ℕ) : JsString :=
  [0x2C, 0x20].intercalate (ns.map natText)

/-- The message, where the editor words it. -/
def EditorError.message : EditorError → Option JsString
  | required parameter command =>
    some (js "Parameter `" ++ parameter ++ js "` is required for command: " ++ command)
  | empty parameter command =>
    some (js "Parameter `" ++ parameter ++ js "` is empty for command: " ++ command)
  | insertLineRequired => some (js "Parameter `insert_line` is required for command: insert")
  | emptyPath => some (js "path must be a non-empty string")
  | relativePath path =>
    some (js "The path " ++ path ++ js " is not an absolute path, it should start with `/`. " ++
      js "Maybe you meant /" ++ path ++ js "?")
  | missing displayPath =>
    some (js "The path " ++ displayPath ++ js " does not exist. Please provide a valid path.")
  | directory displayPath =>
    some (js "The path " ++ displayPath ++
      js " is a directory and only the `view` command can be used on directories")
  | notRegular verb displayPath =>
    some (js "cannot " ++ verb ++ js " \"" ++ displayPath ++ js "\": not a regular file")
  | absent oldStr displayPath =>
    some (js "No replacement was performed, old_str `" ++ oldStr ++
      js "` did not appear verbatim in " ++ displayPath ++ js ".")
  | ambiguous oldStr lines =>
    some (js "No replacement was performed. Multiple occurrences of old_str `" ++ oldStr ++
      js "` in lines [" ++ natTexts lines ++ js "]. Please ensure it is unique")
  | badLine insertLine lines =>
    some (js "Invalid `insert_line` parameter: " ++ insertLine.text ++
      js ". It should be within the range of lines of the file: [0, " ++ natText lines ++ js "]")
  | fs _ => none

def EditorError.code : EditorError → Option FsErrorCode
  | missing _ => some .notFound
  | directory _ => some .notRegularFile
  | notRegular _ _ => some .notRegularFile
  | absent _ _ => some .editNotFound
  | ambiguous _ _ => some .ambiguousEdit
  | fs code => some code
  | _ => none

/-! ## Texts -/

/-- The unit that ends a line. -/
def newline : UInt16 := 0x0A

/-- `content.split('\n')` -/
def textLines (content : JsString) : List JsString := content.splitOn newline

/-- `lines.join('\n')` -/
def joinText (lines : List JsString) : JsString := [newline].intercalate lines

/-- `content.indexOf(search, offset)` -/
def indexOfFrom (content search : JsString) (offset : ℕ) : Option ℕ :=
  (indexOf search (content.drop offset)).map (· + min offset content.length)

/-- The loop of `matchOffsets`: the search goes on behind the match. -/
def matchOffsetsFrom (content search : JsString) : ℕ → ℕ → List ℕ
  | 0, _ => []
  | fuel + 1, offset =>
    match indexOfFrom content search offset with
    | none => []
    | some found => found :: matchOffsetsFrom content search fuel (found + search.length)

/-- The offsets of the matches. A search for an empty text would not end. -/
def matchOffsets (content search : JsString) : List ℕ :=
  matchOffsetsFrom content search (content.length + 1) 0

/-- The loop of `lineNumbersAt`: a line, and the position up to which line breaks are counted. -/
def lineNumbersFrom (content : JsString) : ℕ → ℕ → List ℕ → List ℕ
  | _, _, [] => []
  | line, cursor, offset :: rest =>
    let reached := line + ((content.take offset).drop cursor).count newline
    reached :: lineNumbersFrom content reached (max cursor offset) rest

/-- The lines on which the offsets are. -/
def lineNumbersAt (content : JsString) (offsets : List ℕ) : List ℕ :=
  lineNumbersFrom content 1 0 offsets

/-! ## Commands -/

def requiredForCommand (value : Option JsString) (parameter command : JsString)
    (allowEmpty : Bool) : Except EditorError JsString :=
  match value with
  | none => .error (.required parameter command)
  | some value =>
    if !allowEmpty && value.isEmpty then .error (.empty parameter command) else .ok value

def isAbsolute (path : JsString) : Bool := path.head? = some 0x2F

/-- What is asked of a path before it is resolved. -/
def checkPath (path : JsString) : Except EditorError Unit :=
  if (trim path).isEmpty then .error .emptyPath
  else if isAbsolute path then .ok ()
  else .error (.relativePath path)

/-- What the two editing commands differ in. -/
structure FileEdit where
  /-- How a target is called that cannot be edited. -/
  verb : JsString
  /-- The parameters that are looked at before the path is resolved. -/
  checkFirst : Except EditorError Unit
  /-- The parameters that are looked at once the edit intent is known. -/
  checkDecided : Except EditorError Unit
  /-- The text to be written. -/
  edited : (displayPath before : JsString) → Except EditorError JsString

/-- The text of a replacement. -/
def replaced (oldValue newValue displayPath before : JsString) : Except EditorError JsString :=
  match matchOffsets before oldValue with
  | [] => .error (.absent oldValue displayPath)
  | [offset] =>
    .ok (before.take offset ++ newValue ++ before.drop (offset + oldValue.length))
  | offsets => .error (.ambiguous oldValue (lineNumbersAt before offsets))

def replaceInFile (oldStr newStr : Option JsString) : FileEdit where
  verb := js "edit"
  checkFirst := .ok ()
  checkDecided := (requiredForCommand oldStr (js "old_str") (js "str_replace") false).map fun _ ↦ ()
  edited := fun displayPath before ↦
    match requiredForCommand oldStr (js "old_str") (js "str_replace") false with
    | .error e => .error e
    | .ok oldValue => replaced oldValue (newStr.getD []) displayPath before

/-- The text of an insertion. -/
def inserted (insertLine : Number) (value before : JsString) : Except EditorError JsString :=
  let lines := textLines before
  match insertLine with
  | .int n =>
    if n < 0 ∨ (lines.length : ℤ) < n then .error (.badLine insertLine lines.length)
    else .ok (joinText (lines.take n.toNat ++ textLines value ++ lines.drop n.toNat))
  | .dec .. => .error (.badLine insertLine lines.length)

def insertInFile (insertLine : Option Number) (newStr : Option JsString) : FileEdit where
  verb := js "insert into"
  checkFirst :=
    match insertLine with
    | none => .error .insertLineRequired
    | some _ => (requiredForCommand newStr (js "new_str") (js "insert") true).map fun _ ↦ ()
  checkDecided := .ok ()
  edited := fun _ before ↦
    match insertLine with
    | none => .error .insertLineRequired
    | some line =>
      match requiredForCommand newStr (js "new_str") (js "insert") true with
      | .error e => .error e
      | .ok value => inserted line value before

/-! ## A call -/

/-- A call of an editing command. -/
structure EditCall where
  path : JsString
  /-- How the resolved target is shown. -/
  displayPath : JsString
  edit : FileEdit

/-- How far a call has come. -/
inductive Phase where
  | called
  /-- The path is resolved; the edit intent is asked for. -/
  | resolved
  /-- The edit intent is known: a version, or none. -/
  | decided (intent : Option FsVersion)
  /-- The target is a regular file, to be replaced at this version. -/
  | checked (expected : FsVersion)
  /-- The edited text is known. -/
  | edited (expected : FsVersion) (after : JsString)
  | succeeded (version : FsVersion)
  | failed (e : EditorError)

def Phase.running : Phase → Bool
  | succeeded _ => false
  | failed _ => false
  | _ => true

/-- Whether the target can be edited, and its version. -/
def statExisting (call : EditCall) (state : FsState) : Except EditorError FsVersion :=
  match state.entry with
  | none => .error (.missing call.displayPath)
  | some (.directory, _) => .error (.directory call.displayPath)
  | some (.other, _) => .error (.notRegular call.edit.verb call.displayPath)
  | some (.file _, version) => .ok version

/-- The next step of a call, on the state of the target at that moment. -/
def EditCall.perform (call : EditCall) (intent : Option FsVersion) (state : FsState) :
    Phase → Phase × FsState
  | .called =>
    match call.edit.checkFirst with
    | .error e => (.failed e, state)
    | .ok () =>
      match checkPath call.path with
      | .error e => (.failed e, state)
      | .ok () => (.resolved, state)
  | .resolved =>
    match call.edit.checkDecided with
    | .error e => (.failed e, state)
    | .ok () => (.decided intent, state)
  | .decided intent =>
    match statExisting call state with
    | .error e => (.failed e, state)
    | .ok version => (.checked (intent.getD version), state)
  | .checked expected =>
    match state.readText with
    | .error code => (.failed (.fs code), state)
    | .ok before =>
      match call.edit.edited call.displayPath before with
      | .error e => (.failed e, state)
      | .ok after => (.edited expected after, state)
  | .edited expected after =>
    match state.replaceIfVersion expected after with
    | .error code => (.failed (.fs code), state)
    | .ok written => (.succeeded state.next, written)
  | .succeeded version => (.succeeded version, state)
  | .failed e => (.failed e, state)

/-- A call that nobody disturbs. -/
def EditCall.alone (call : EditCall) (intent : Option FsVersion) (state : FsState) :
    Phase × FsState :=
  let (phase, state) := call.perform intent state .called
  let (phase, state) := call.perform intent state phase
  let (phase, state) := call.perform intent state phase
  let (phase, state) := call.perform intent state phase
  call.perform intent state phase

/-- A step of the call itself. What it awaits may also fail. -/
inductive EditCall.Moves (call : EditCall) : FsState × Phase → FsState × Phase → Prop
  /-- The edit intent is no version, or one that the target had when it was observed. -/
  | performs (state : FsState) (phase : Phase) (intent : Option FsVersion)
    (hobserved : ∀ version ∈ intent, version < state.next) :
    Moves call (state, phase)
      ((call.perform intent state phase).2, (call.perform intent state phase).1)
  | fails (state : FsState) (phase : Phase) (code : FsErrorCode) (hrunning : phase.running) :
    Moves call (state, phase) (state, .failed (.fs code))

/-- A step of the call, or of another writer. -/
inductive EditCall.Step (call : EditCall) : FsState × Phase → FsState × Phase → Prop
  | moves {s t : FsState × Phase} (h : call.Moves s t) : Step call s t
  | writes (state : FsState) (phase : Phase) (node : Option FsNode) :
    Step call (state, phase) (state.put node, phase)

/-!
## Edits are exact

What the editing commands write, and when they write at all. A replacement is refused where the old
text is not found or found again behind its first occurrence; an occurrence that overlaps the first
one is not seen. Whatever happens between the steps of a call, the text it writes is computed from
the text that it replaces: a version that is still there when the call writes was there when the
call read.
-/

/-! ## Matches -/

section Matches

variable {content search : JsString} {offset found : ℕ}

theorem indexOfFrom_eq_some_iff (hoffset : offset ≤ content.length) :
    indexOfFrom content search offset = some found ↔
      offset ≤ found ∧ OccursAt search content found ∧
        ∀ j, offset ≤ j → j < found → ¬ OccursAt search content j := by
  rw [indexOfFrom, Nat.min_eq_left hoffset, Option.map_eq_some_iff]
  constructor
  · rintro ⟨i, hi, rfl⟩
    obtain ⟨hocc, hfirst⟩ := indexOf_eq_some_iff.mp hi
    rw [occursAt_drop hoffset, Nat.add_comm] at hocc
    refine ⟨Nat.le_add_left offset i, hocc, fun j hj hlt hj' ↦ ?_⟩
    obtain ⟨k, rfl⟩ := Nat.exists_eq_add_of_le hj
    exact hfirst k (by omega) ((occursAt_drop hoffset).mpr hj')
  · rintro ⟨hle, hocc, hfirst⟩
    obtain ⟨i, rfl⟩ := Nat.exists_eq_add_of_le hle
    refine ⟨i, indexOf_eq_some_iff.mpr ⟨(occursAt_drop hoffset).mpr hocc, fun k hk hk' ↦ ?_⟩,
      Nat.add_comm i offset⟩
    exact hfirst (offset + k) (Nat.le_add_right _ _) (by omega) ((occursAt_drop hoffset).mp hk')

theorem indexOfFrom_eq_none_iff (hoffset : offset ≤ content.length) :
    indexOfFrom content search offset = none ↔ ∀ j, offset ≤ j → ¬ OccursAt search content j := by
  rw [indexOfFrom, Option.map_eq_none_iff, indexOf_eq_none_iff]
  constructor
  · intro h j hj hocc
    obtain ⟨k, rfl⟩ := Nat.exists_eq_add_of_le hj
    exact h k ((occursAt_drop hoffset).mpr hocc)
  · intro h k hocc
    exact h (offset + k) (Nat.le_add_right _ _) ((occursAt_drop hoffset).mp hocc)

/-- With enough fuel the loop does not see it. -/
theorem matchOffsetsFrom_succ (hsearch : search ≠ []) {fuel : ℕ} (hoffset : offset ≤ content.length)
    (hfuel : content.length - offset < fuel) :
    matchOffsetsFrom content search (fuel + 1) offset
      = matchOffsetsFrom content search fuel offset := by
  induction fuel generalizing offset with
  | zero => exact absurd hfuel (Nat.not_lt_zero _)
  | succ fuel ih =>
    rw [matchOffsetsFrom, matchOffsetsFrom]
    cases hfound : indexOfFrom content search offset with
    | none => rfl
    | some found =>
      obtain ⟨hle, hocc, -⟩ := (indexOfFrom_eq_some_iff hoffset).mp hfound
      have hlength := hocc.length_le
      have hpos := List.length_pos_of_ne_nil hsearch
      exact congrArg (found :: ·) (ih hlength (by omega))

/-- One round of the loop. -/
theorem matchOffsetsFrom_eq (hsearch : search ≠ []) {fuel : ℕ} (hoffset : offset ≤ content.length)
    (hfuel : content.length - offset < fuel) :
    matchOffsetsFrom content search fuel offset =
      match indexOfFrom content search offset with
      | none => []
      | some found => found :: matchOffsetsFrom content search fuel (found + search.length) := by
  rw [← matchOffsetsFrom_succ hsearch hoffset hfuel]
  rfl

/-- Every occurrence begins within the one at `i`. -/
def Within (search content : JsString) (i : ℕ) : Prop :=
  OccursAt search content i ∧ ∀ j, OccursAt search content j → i ≤ j ∧ j < i + search.length

theorem Within.eq {i : ℕ} (h : Within search content i) {j : ℕ} (h' : Within search content j) :
    i = j :=
  Nat.le_antisymm (h.2 j h'.1).1 (h'.2 i h.1).1

/-- There is no match where nothing occurs. -/
theorem matchOffsets_eq_nil_iff :
    matchOffsets content search = [] ↔ ∀ i, ¬ OccursAt search content i := by
  rw [matchOffsets, matchOffsetsFrom]
  have hnone : indexOfFrom content search 0 = none ↔ ∀ j, 0 ≤ j → ¬ OccursAt search content j :=
    indexOfFrom_eq_none_iff (Nat.zero_le content.length)
  constructor
  · intro h i
    cases hfound : indexOfFrom content search 0 with
    | none => exact hnone.mp hfound i (Nat.zero_le i)
    | some found => simp [hfound] at h
  · intro h
    rw [hnone.mpr fun j _ ↦ h j]

/-- There is one match where every occurrence begins within the first. -/
theorem matchOffsets_eq_singleton_iff (hsearch : search ≠ []) {i : ℕ} :
    matchOffsets content search = [i] ↔ Within search content i := by
  have hstart : 0 ≤ content.length := Nat.zero_le _
  rw [matchOffsets, matchOffsetsFrom_eq hsearch hstart (by omega)]
  cases hfound : indexOfFrom content search 0 with
  | none =>
    refine ⟨fun h ↦ absurd h (by simp), fun h ↦ ?_⟩
    exact absurd h.1 ((indexOfFrom_eq_none_iff hstart).mp hfound i (Nat.zero_le i))
  | some found =>
    obtain ⟨-, hocc, hfirst⟩ := (indexOfFrom_eq_some_iff hstart).mp hfound
    have hlength := hocc.length_le
    have hfirst' (j : ℕ) (hj : OccursAt search content j) : found ≤ j :=
      Nat.le_of_not_lt fun hlt ↦ hfirst j (Nat.zero_le j) hlt hj
    dsimp only
    rw [matchOffsetsFrom_eq hsearch hlength (by omega), List.cons.injEq]
    constructor
    · rintro ⟨rfl, hrest⟩
      refine ⟨hocc, fun j hj ↦ ⟨hfirst' j hj, Nat.lt_of_not_le fun hle ↦ ?_⟩⟩
      cases hnext : indexOfFrom content search (found + search.length) with
      | none => exact (indexOfFrom_eq_none_iff hlength).mp hnext j hle hj
      | some next => simp [hnext] at hrest
    · rintro ⟨hi, hwithin⟩
      obtain rfl : found = i := Nat.le_antisymm (hfirst' i hi) (hwithin found hocc).1
      refine ⟨rfl, ?_⟩
      rw [(indexOfFrom_eq_none_iff hlength).mpr fun j hle hj ↦ ?_]
      exact Nat.not_lt_of_le hle (hwithin j hj).2

end Matches

/-! ## Texts -/

theorem not_mem_of_mem_textLines {content line : JsString} (h : line ∈ textLines content) :
    newline ∉ line := by
  induction content generalizing line with
  | nil =>
    rw [textLines, List.splitOn_nil, List.mem_singleton] at h
    simp [h]
  | cons unit rest ih =>
    rw [textLines, List.splitOn_cons_eq_if_modifyHead, ← textLines] at h
    split_ifs at h with hunit
    · rcases List.mem_cons.mp h with rfl | h
      · exact List.not_mem_nil
      · exact ih h
    · rcases hlines : textLines rest with _ | ⟨first, lines⟩
      · simp [hlines] at h
      · rw [hlines] at h ih
        rcases List.mem_cons.mp h with rfl | h
        · rw [List.mem_cons, not_or]
          exact ⟨fun heq ↦ hunit (by simp [heq]), ih List.mem_cons_self⟩
        · exact ih (List.mem_cons_of_mem first h)

/-- Lines that were joined are split again. -/
theorem textLines_joinText {lines : List JsString} (h : ∀ line ∈ lines, newline ∉ line)
    (hlines : lines ≠ []) : textLines (joinText lines) = lines :=
  List.splitOn_intercalate newline h hlines

theorem requiredForCommand_some {value parameter command : JsString} (hvalue : value ≠ []) :
    requiredForCommand (some value) parameter command false = .ok value := by
  simp [requiredForCommand, hvalue]

/-- A replacement writes a text where every occurrence begins within the first. -/
theorem replaced_eq_ok_iff {oldValue newValue displayPath before after : JsString}
    (hold : oldValue ≠ []) : replaced oldValue newValue displayPath before = .ok after ↔
      ∃ i, Within oldValue before i ∧
        after = before.take i ++ newValue ++ before.drop (i + oldValue.length) := by
  rw [replaced]
  rcases hmatch : matchOffsets before oldValue with _ | ⟨i, _ | ⟨j, rest⟩⟩
  · refine ⟨fun h ↦ absurd h (by simp), ?_⟩
    rintro ⟨i, hi, -⟩
    exact absurd hi.1 (matchOffsets_eq_nil_iff.mp hmatch i)
  · have hwithin := (matchOffsets_eq_singleton_iff hold).mp hmatch
    constructor
    · intro h
      exact ⟨i, hwithin, (Except.ok.inj h).symm⟩
    · rintro ⟨j, hj, rfl⟩
      rw [hwithin.eq hj]
  · refine ⟨fun h ↦ absurd h (by simp), ?_⟩
    rintro ⟨i, hi, -⟩
    rw [(matchOffsets_eq_singleton_iff hold).mpr hi] at hmatch
    simp at hmatch

/-- An insertion writes a text where its line is one of the file. -/
theorem inserted_eq_ok_iff {insertLine : Number} {value before after : JsString} :
    inserted insertLine value before = .ok after ↔
      ∃ n : ℕ, insertLine = .int n ∧ n ≤ (textLines before).length ∧
        after = joinText
          ((textLines before).take n ++ textLines value ++ (textLines before).drop n) := by
  cases insertLine with
  | int n =>
    rw [inserted]
    split_ifs with hrange
    · refine ⟨fun h ↦ absurd h (by simp), ?_⟩
      rintro ⟨m, hm, hle, -⟩
      obtain rfl := Number.int.inj hm
      omega
    · rw [not_or, not_lt, not_lt] at hrange
      obtain ⟨m, rfl⟩ := Int.eq_ofNat_of_zero_le hrange.1
      rw [Int.toNat_natCast]
      constructor
      · intro h
        exact ⟨m, rfl, Int.ofNat_le.mp hrange.2, (Except.ok.inj h).symm⟩
      · rintro ⟨k, hk, -, rfl⟩
        obtain rfl : m = k := Int.ofNat_inj.mp (Number.int.inj hk)
        rfl
  | dec m e lowest =>
    rw [inserted]
    refine ⟨fun h ↦ absurd h (by simp), ?_⟩
    rintro ⟨n, hn, -⟩
    simp at hn

/-! ## A call that nobody disturbs -/

section Alone

variable {call : EditCall} {state : FsState} {intent : Option FsVersion} {content : JsString}
  {version : FsVersion}

/-- A call on a regular file, whose version the edit intent names if it names any. -/
theorem alone_of_checked (hfirst : call.edit.checkFirst = .ok ())
    (hpath : checkPath call.path = .ok ()) (hdecided : call.edit.checkDecided = .ok ())
    (hentry : state.entry = some (.file content, version))
    (hintent : ∀ observed ∈ intent, observed = version) :
    call.alone intent state =
      match call.edit.edited call.displayPath content with
      | .error e => (.failed e, state)
      | .ok after => (.succeeded state.next, state.put (some (.file after))) := by
  have hexpected : intent.getD version = version := by
    rcases intent with _ | observed
    · rfl
    · exact hintent observed rfl
  simp only [EditCall.alone, EditCall.perform, hfirst, hpath, hdecided, statExisting, hentry,
    hexpected, FsState.readText]
  cases call.edit.edited call.displayPath content with
  | error e => rfl
  | ok after => simp only [FsState.replaceIfVersion, hentry, if_true]

/-- A call whose parameters are refused before the target is looked at. -/
theorem alone_of_undecided {e : EditorError} (hfirst : call.edit.checkFirst = .ok ())
    (hpath : checkPath call.path = .ok ()) (hdecided : call.edit.checkDecided = .error e) :
    call.alone intent state = (.failed e, state) := by
  simp only [EditCall.alone, EditCall.perform, hfirst, hpath, hdecided]

end Alone

/-- A text occurs at exactly one position, overlapping occurrences counted. -/
def OccursOnce (search content : JsString) : Prop := ∃! i, OccursAt search content i

/-- What a replacement promises about a file of this content. -/
structure ReplacesExactly (content oldStr : JsString) (newStr : Option JsString) (call : EditCall)
    (intent : Option FsVersion) (state : FsState) : Prop where
  succeeds : (∃ version, (call.alone intent state).1 = .succeeded version) ↔
    oldStr ≠ [] ∧ OccursOnce oldStr content
  writes : ∀ version i, (call.alone intent state).1 = .succeeded version →
    OccursAt oldStr content i →
      (call.alone intent state).2.entry = some (.file (content.take i ++ newStr.getD [] ++
        content.drop (i + oldStr.length)), version)
  unchanged : ∀ e, (call.alone intent state).1 = .failed e → (call.alone intent state).2 = state

/-- What an insertion promises about a file of this content. -/
structure InsertsExactly (content : JsString) (insertLine : Number) (newStr : JsString)
    (call : EditCall) (intent : Option FsVersion) (state : FsState) : Prop where
  succeeds : (∃ version, (call.alone intent state).1 = .succeeded version) ↔
    ∃ n : ℕ, insertLine = .int n ∧ n ≤ (textLines content).length
  writes : ∀ version (n : ℕ), (call.alone intent state).1 = .succeeded version →
    insertLine = .int n → ∃ after, (call.alone intent state).2.entry = some (.file after, version) ∧
      textLines after
        = (textLines content).take n ++ textLines newStr ++ (textLines content).drop n
  unchanged : ∀ e, (call.alone intent state).1 = .failed e → (call.alone intent state).2 = state

/-- A call on a regular file of this content, whose version the edit intent names if any. -/
structure CalledOn (content : JsString) (edit : FileEdit) (call : EditCall)
    (intent : Option FsVersion) (state : FsState) : Prop where
  edit_eq : call.edit = edit
  path : checkPath call.path = .ok ()
  entry : ∃ version, state.entry = some (.file content, version) ∧
    ∀ observed ∈ intent, observed = version

/-- The occurrences of a text are several, and all begin within the first. -/
def OnlyOverlaps (search content : JsString) : Prop :=
  ∃ i, Within search content i ∧ ∃ j, j ≠ i ∧ OccursAt search content j

theorem occursOnce_of_within {search content : JsString} {i : ℕ} (h : Within search content i)
    (hoverlaps : ¬ OnlyOverlaps search content) : OccursOnce search content := by
  refine ⟨i, h.1, fun j hj ↦ ?_⟩
  by_contra hne
  exact hoverlaps ⟨i, h, j, hne, hj⟩

theorem OccursOnce.within {search content : JsString} (hsearch : search ≠ [])
    (h : OccursOnce search content) : ∃ i, Within search content i := by
  obtain ⟨i, hi, honly⟩ := h
  have hpos := List.length_pos_of_ne_nil hsearch
  refine ⟨i, hi, fun j hj ↦ ?_⟩
  rw [honly j hj]
  exact ⟨le_rfl, Nat.lt_add_of_pos_right hpos⟩

section Alone

variable {content oldStr : JsString} {newStr : Option JsString} {call : EditCall}
  {intent : Option FsVersion} {state : FsState}

theorem alone_replace_nil
    (h : CalledOn content (replaceInFile (some []) newStr) call intent state) :
    ∃ e, call.alone intent state = (.failed e, state) := by
  have hedit := h.edit_eq
  refine ⟨.empty (js "old_str") (js "str_replace"), alone_of_undecided ?_ h.path ?_⟩
  · rw [hedit]
    rfl
  · rw [hedit, replaceInFile]
    rfl

theorem alone_replace (h : CalledOn content (replaceInFile (some oldStr) newStr) call intent state)
    (hold : oldStr ≠ []) : call.alone intent state =
      match replaced oldStr (newStr.getD []) call.displayPath content with
      | .error e => (.failed e, state)
      | .ok after => (.succeeded state.next, state.put (some (.file after))) := by
  obtain ⟨version, hentry, hintent⟩ := h.entry
  have hedit := h.edit_eq
  have hrequired : requiredForCommand (some oldStr) (js "old_str") (js "str_replace") false
      = .ok oldStr := requiredForCommand_some hold
  rw [alone_of_checked ?_ h.path ?_ hentry hintent, hedit, replaceInFile]
  · simp only [hrequired]
  · rw [hedit]
    rfl
  · rw [hedit, replaceInFile]
    simp only [hrequired]
    rfl

theorem alone_insert {insertLine : Number} {value : JsString}
    (h : CalledOn content (insertInFile (some insertLine) (some value)) call intent state) :
    call.alone intent state =
      match inserted insertLine value content with
      | .error e => (.failed e, state)
      | .ok after => (.succeeded state.next, state.put (some (.file after))) := by
  obtain ⟨version, hentry, hintent⟩ := h.entry
  have hedit := h.edit_eq
  rw [alone_of_checked ?_ h.path ?_ hentry hintent, hedit, insertInFile]
  · rfl
  · rw [hedit]
    rfl
  · rw [hedit]
    rfl

/-- A replacement is exact unless the occurrences of the old text only overlap. -/
theorem replacesExactly
    (h : CalledOn content (replaceInFile (some oldStr) newStr) call intent state)
    (hoverlaps : ¬ OnlyOverlaps oldStr content) :
    ReplacesExactly content oldStr newStr call intent state := by
  by_cases hold : oldStr = []
  · subst hold
    obtain ⟨e, hfailed⟩ := alone_replace_nil h
    refine ⟨?_, ?_, ?_⟩ <;> simp [hfailed]
  · have halone := alone_replace h hold
    cases hreplaced : replaced oldStr (newStr.getD []) call.displayPath content with
    | error e =>
      rw [hreplaced] at halone
      refine ⟨?_, ?_, ?_⟩
      · simp only [halone]
        refine ⟨fun h ↦ absurd h (by simp), fun honce ↦ ?_⟩
        obtain ⟨i, hi⟩ := honce.2.within hold
        rw [(replaced_eq_ok_iff hold).mpr ⟨i, hi, rfl⟩] at hreplaced
        simp at hreplaced
      · simp [halone]
      · simp [halone]
    | ok after =>
      rw [hreplaced] at halone
      obtain ⟨i, hi, rfl⟩ := (replaced_eq_ok_iff hold).mp hreplaced
      refine ⟨?_, fun version j hversion hj ↦ ?_, ?_⟩
      · simp only [halone]
        exact ⟨fun _ ↦ ⟨hold, occursOnce_of_within hi hoverlaps⟩, fun _ ↦ ⟨_, rfl⟩⟩
      · obtain rfl : i = j := (occursOnce_of_within hi hoverlaps).unique hi.1 hj
        simp only [halone] at hversion ⊢
        cases hversion
        rfl
      · simp [halone]

/-- An insertion is exact. -/
theorem insertsExactly {insertLine : Number} {value : JsString}
    (h : CalledOn content (insertInFile (some insertLine) (some value)) call intent state) :
    InsertsExactly content insertLine value call intent state := by
  have halone := alone_insert h
  cases hinserted : inserted insertLine value content with
  | error e =>
    rw [hinserted] at halone
    refine ⟨?_, ?_, ?_⟩
    · simp only [halone]
      refine ⟨fun h ↦ absurd h (by simp), ?_⟩
      rintro ⟨n, hn, hle⟩
      rw [inserted_eq_ok_iff.mpr ⟨n, hn, hle, rfl⟩] at hinserted
      simp at hinserted
    · simp [halone]
    · simp [halone]
  | ok after =>
    rw [hinserted] at halone
    obtain ⟨n, hn, hle, rfl⟩ := inserted_eq_ok_iff.mp hinserted
    refine ⟨?_, fun version m hversion hm ↦ ?_, ?_⟩
    · simp only [halone]
      exact ⟨fun _ ↦ ⟨n, hn, hle⟩, fun _ ↦ ⟨_, rfl⟩⟩
    · obtain rfl : n = m := Int.ofNat_inj.mp (Number.int.inj (hn.symm.trans hm))
      simp only [halone] at hversion ⊢
      cases hversion
      refine ⟨_, rfl, textLines_joinText (fun line hline ↦ ?_) (by simp [textLines])⟩
      rcases List.mem_append.mp hline with hline | hline
      · rcases List.mem_append.mp hline with hline | hline
        · exact not_mem_of_mem_textLines (List.mem_of_mem_take hline)
        · exact not_mem_of_mem_textLines hline
      · exact not_mem_of_mem_textLines (List.mem_of_mem_drop hline)
    · simp [halone]

end Alone

/-! ## Every interleaving -/

section Runs

variable {call : EditCall} {s t : FsState × Phase} {state : FsState} {phase : Phase}

/-- What a call knows of the target. -/
def Grounded (call : EditCall) (state : FsState) : Phase → Prop
  | .decided intent => ∀ observed ∈ intent, observed < state.next
  | .checked expected => expected < state.next
  | .edited expected after => expected < state.next ∧
      -- Where the version is still there, so is the text that was read.
      ∀ node, state.entry = some (node, expected) →
        ∃ before, node = .file before ∧ call.edit.edited call.displayPath before = .ok after
  | _ => True

theorem FsState.readText_eq_ok {before : JsString} (h : state.readText = .ok before) :
    ∃ version, state.entry = some (.file before, version) := by
  rw [FsState.readText] at h
  split at h
  · rename_i text version hentry
    exact ⟨version, by rw [hentry, Except.ok.inj h]⟩
  · simp at h
  · simp at h

theorem statExisting_lt {version : FsVersion} (h : statExisting call state = .ok version) :
    version < state.next := by
  rw [statExisting] at h
  split at h
  case h_4 text current hentry =>
    exact Except.ok.inj h ▸ state.entry_lt _ hentry
  all_goals simp at h

theorem FsState.replaceIfVersion_eq_ok {version : FsVersion} {text : JsString} {written : FsState}
    (h : state.replaceIfVersion version text = .ok written) :
    ∃ before, state.entry = some (.file before, version) ∧
      written = state.put (some (.file text)) := by
  rw [FsState.replaceIfVersion] at h
  split at h
  · rename_i before current hentry
    split_ifs at h with hversion
    exact ⟨before, by rw [hentry, hversion], (Except.ok.inj h).symm⟩
  · simp at h
  · simp at h

/-- The call knows more with each step. -/
theorem Grounded.perform (h : Grounded call state phase) {intent : Option FsVersion}
    (hobserved : ∀ observed ∈ intent, observed < state.next) :
    Grounded call (call.perform intent state phase).2 (call.perform intent state phase).1 := by
  cases phase with
  | called =>
    rw [EditCall.perform]
    cases call.edit.checkFirst with
    | error e => trivial
    | ok =>
      dsimp only
      cases checkPath call.path <;> trivial
  | resolved =>
    rw [EditCall.perform]
    cases call.edit.checkDecided with
    | error e => trivial
    | ok => exact hobserved
  | decided decided =>
    rw [EditCall.perform]
    cases hstat : statExisting call state with
    | error e => trivial
    | ok version =>
      rcases decided with _ | observed
      · exact statExisting_lt hstat
      · exact h observed rfl
  | checked expected =>
    rw [EditCall.perform]
    cases hread : state.readText with
    | error code => trivial
    | ok before =>
      dsimp only
      cases hedited : call.edit.edited call.displayPath before with
      | error e => trivial
      | ok after =>
        obtain ⟨version, hentry⟩ := FsState.readText_eq_ok hread
        refine ⟨h, fun node hnode ↦ ⟨before, ?_, hedited⟩⟩
        rw [hentry] at hnode
        exact (Prod.mk.inj (Option.some.inj hnode)).1.symm
  | edited expected after =>
    rw [EditCall.perform]
    cases state.replaceIfVersion expected after <;> trivial
  | succeeded version => trivial
  | failed e => trivial

/-- What another writer leaves has a version that no call knows. -/
theorem Grounded.put (h : Grounded call state phase) (node : Option FsNode) :
    Grounded call (state.put node) phase := by
  cases phase with
  | decided intent => exact fun observed hmem ↦ (h observed hmem).trans (Nat.lt_succ_self _)
  | checked expected => exact Nat.lt_trans h (Nat.lt_succ_self _)
  | edited expected after =>
    refine ⟨h.1.trans (Nat.lt_succ_self _), fun found hfound ↦ ?_⟩
    obtain ⟨found', -, heq⟩ := Option.map_eq_some_iff.mp hfound
    exact absurd (Prod.mk.inj heq).2.symm h.1.ne
  | called => trivial
  | resolved => trivial
  | succeeded version => trivial
  | failed e => trivial

theorem Grounded.step (h : Grounded call s.1 s.2) (hstep : call.Step s t) :
    Grounded call t.1 t.2 := by
  cases hstep with
  | moves hmoves =>
    cases hmoves with
    | performs state phase intent hobserved => exact h.perform hobserved
    | fails state phase code hrunning => trivial
  | writes state phase node => exact h.put node

theorem grounded_of_reaches {start : FsState}
    (h : Relation.ReflTransGen call.Step (start, .called) s) : Grounded call s.1 s.2 := by
  induction h with
  | refl => trivial
  | tail _ hstep ih => exact ih.step hstep

/-- What a call promises in every interleaving with other writers. -/
structure EditsGuarded (call : EditCall) : Prop where
  /-- A successful edit is computed from the content that it replaces. -/
  computed : ∀ start state phase written version,
    Relation.ReflTransGen call.Step (start, .called) (state, phase) → phase.running →
      call.Moves (state, phase) (written, .succeeded version) →
        ∃ before after current, state.entry = some (.file before, current) ∧
          call.edit.edited call.displayPath before = .ok after ∧
          written.entry = some (.file after, version)
  /-- Short of success the call writes nothing. -/
  unchanged : ∀ s t, call.Moves s t → (∀ version, t.2 ≠ .succeeded version) → t.1 = s.1

/-- Only a step that succeeds writes, and it writes the text it has computed. -/
theorem perform_cases (call : EditCall) (intent : Option FsVersion) (state : FsState)
    (phase : Phase) :
    (call.perform intent state phase).2 = state ∧
        (∀ version, (call.perform intent state phase).1 = .succeeded version →
          phase = .succeeded version) ∨
      ∃ expected after before, phase = .edited expected after ∧
        state.entry = some (.file before, expected) ∧
        call.perform intent state phase
          = (.succeeded state.next, state.put (some (.file after))) := by
  cases phase with
  | edited expected after =>
    cases hwrite : state.replaceIfVersion expected after with
    | error code =>
      rw [EditCall.perform, hwrite]
      exact Or.inl ⟨rfl, fun version h ↦ absurd h (by simp)⟩
    | ok written =>
      obtain ⟨before, hentry, rfl⟩ := FsState.replaceIfVersion_eq_ok hwrite
      exact Or.inr ⟨expected, after, before, rfl, hentry, by rw [EditCall.perform, hwrite]⟩
  | succeeded version => exact Or.inl ⟨rfl, fun _ h ↦ h⟩
  | failed e => exact Or.inl ⟨rfl, fun _ h ↦ h⟩
  | called =>
    rw [EditCall.perform]
    cases call.edit.checkFirst with
    | error e => exact Or.inl ⟨rfl, by simp⟩
    | ok =>
      dsimp only
      cases checkPath call.path <;> exact Or.inl ⟨rfl, by simp⟩
  | resolved =>
    rw [EditCall.perform]
    cases call.edit.checkDecided <;> exact Or.inl ⟨rfl, by simp⟩
  | decided decided =>
    rw [EditCall.perform]
    cases statExisting call state <;> exact Or.inl ⟨rfl, by simp⟩
  | checked expected =>
    rw [EditCall.perform]
    cases state.readText with
    | error code => exact Or.inl ⟨rfl, by simp⟩
    | ok before =>
      dsimp only
      cases call.edit.edited call.displayPath before <;> exact Or.inl ⟨rfl, by simp⟩

theorem editsGuarded (call : EditCall) : EditsGuarded call := by
  refine ⟨fun start state phase written version hreaches hrunning hmoves ↦ ?_,
    fun s t hmoves hfailed ↦ ?_⟩
  · have hgrounded := grounded_of_reaches hreaches
    generalize ht : (written, Phase.succeeded version) = t at hmoves
    cases hmoves with
    | fails _ _ code hrunning => cases ht
    | performs _ _ intent hobserved =>
      obtain ⟨rfl, hphase⟩ := Prod.mk.inj ht
      rcases perform_cases call intent state phase with ⟨-, hkept⟩ |
        ⟨expected, after, before, rfl, hentry, hperform⟩
      · rw [hkept version hphase.symm] at hrunning
        exact absurd hrunning (by simp [Phase.running])
      · rw [hperform] at hphase ⊢
        obtain ⟨before', hbefore, hedited⟩ := hgrounded.2 _ hentry
        cases hbefore
        cases hphase
        exact ⟨before, after, expected, hentry, hedited, rfl⟩
  · cases hmoves with
    | fails state phase code hrunning => rfl
    | performs state phase intent hobserved =>
      rcases perform_cases call intent state phase with ⟨hsame, -⟩ |
        ⟨expected, after, before, -, -, hperform⟩
      · exact hsame
      · exact absurd (by rw [hperform]) (hfailed state.next)

end Runs

/-! ## Exact edits -/

/-- What the editing commands promise, where a replacement is called with these parameters on a file
of this content. -/
structure EditsExact (content oldStr : JsString) (newStr : Option JsString) : Prop where
  replaces : ∀ call intent state,
    CalledOn content (replaceInFile (some oldStr) newStr) call intent state →
      ReplacesExactly content oldStr newStr call intent state
  inserts : ∀ content insertLine value call intent state,
    CalledOn content (insertInFile (some insertLine) (some value)) call intent state →
      InsertsExactly content insertLine value call intent state
  guarded : ∀ call, EditsGuarded call

theorem file_lt (content : JsString) :
    ∀ found ∈ some (FsNode.file content, 0), found.2 < 1 := by
  rintro found hfound
  obtain rfl := Option.some.inj hfound
  exact Nat.zero_lt_one

/-- A file that was written once. -/
def FsState.ofText (content : JsString) : FsState where
  entry := some (.file content, 0)
  next := 1
  entry_lt := file_lt content

theorem checkPath_root : checkPath [0x2F] = .ok () := by decide +kernel

/-- Where the occurrences only overlap, a replacement is made all the same. -/
theorem not_editsExact {content oldStr : JsString} {newStr : Option JsString}
    (h : OnlyOverlaps oldStr content) : ¬ EditsExact content oldStr newStr := by
  intro hexact
  obtain ⟨i, hi, j, hne, hj⟩ := h
  have hold : oldStr ≠ [] := by
    rintro rfl
    have hlt := (hi.2 i hi.1).2
    simp at hlt
  have hcalled : CalledOn content (replaceInFile (some oldStr) newStr)
      ⟨[0x2F], [], replaceInFile (some oldStr) newStr⟩ none (.ofText content) :=
    ⟨rfl, checkPath_root, 0, rfl, by simp⟩
  have halone := alone_replace hcalled hold
  rw [(replaced_eq_ok_iff hold).mpr ⟨i, hi, rfl⟩] at halone
  obtain ⟨-, honce⟩ := (hexact.replaces _ _ _ hcalled).succeeds.mp ⟨_, by rw [halone]⟩
  exact hne (honce.unique hj hi.1)

/-- **Edits are exact but for overlaps**: a replacement succeeds exactly where the old text occurs
once, unless all its occurrences begin within the first; an insertion writes its lines between those
of the file; and whatever other writers do, an edit replaces the content it was computed from. -/
theorem editsExact_iff (content oldStr : JsString) (newStr : Option JsString) :
    EditsExact content oldStr newStr ↔ ¬ OnlyOverlaps oldStr content :=
  ⟨fun h hoverlaps ↦ not_editsExact hoverlaps h, fun h ↦
    ⟨fun _ _ _ hcalled ↦ replacesExactly hcalled h, fun _ _ _ _ _ _ ↦ insertsExactly, editsGuarded⟩⟩

/-- Two overlapping occurrences are taken for one. -/
theorem not_editsExact_overlap :
    ¬ EditsExact (js "aaa") (js "aa") (some (js "b")) := by
  refine not_editsExact ⟨0, ⟨by decide +kernel, fun j hj ↦ ⟨Nat.zero_le j, ?_⟩⟩, 1,
    Nat.one_ne_zero, by decide +kernel⟩
  have hle : j + 2 ≤ 3 := hj.length_le
  have hlength : (js "aa").length = 2 := by decide +kernel
  omega

end XxAgent.Editor
