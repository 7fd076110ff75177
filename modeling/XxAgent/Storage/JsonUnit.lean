import XxAgent.Ecma.Entries
import XxAgent.Ecma.IndentedText
import XxAgent.Ecma.Value
import XxAgent.Files.Faulty

/-!
# The file of a JSON storage unit

A unit is kept in one file, the indented text of its whole state. The tables are maps that
enumerate in insertion order; the objects they are written as put array indices first, so a state
that is read back has the same records, not always in the same order.
-/

namespace XxAgent.Storage

open Ecma

/-! ## Descriptors -/

def isLower (u : UInt16) : Bool := decide (0x61 ≤ u.toNat ∧ u.toNat ≤ 0x7A)

/-- `UNIT_NAME_RE` -/
def isUnitName : JsString → Bool
  | [] => false
  | u :: rest => isLower u && rest.all fun u ↦ isLower u || isDigit u || u == 0x5F

/-- A descriptor that passes `validateDescriptor`. -/
structure KvUnitDescriptor where
  name : JsString
  version : ℕ
  tables : List JsString
  hasGlobal : Bool
  validName : isUnitName name = true
  validTables : ∀ table ∈ tables, isUnitName table = true

/-! ## States -/

/-- The records of a table. -/
abbrev Records := OrderedMap JsString Json

/-- The in-memory state of a unit. -/
structure UnitState where
  version : Number
  /-- `null` until first written. -/
  global : Json
  tables : OrderedMap JsString Records

namespace UnitState

/-- `state.tables.get(table)` with its records changed. -/
def setTable (s : UnitState) (table : JsString) (records : Records) : UnitState :=
  { s with tables := s.tables.set table records }

/-- What a table holds, if the unit has it. -/
def look (s : UnitState) (table : JsString) : Option (JsString → Option Json) :=
  (s.tables.get? table).map (·.get?)

/-- The same content: whatever the order of the tables and of their records. -/
structure Same (s t : UnitState) : Prop where
  version : s.version = t.version
  global : s.global = t.global
  look : s.look = t.look

@[refl] theorem Same.refl (s : UnitState) : s.Same s := ⟨rfl, rfl, rfl⟩

theorem Same.symm {s t : UnitState} (h : s.Same t) : t.Same s :=
  ⟨h.version.symm, h.global.symm, h.look.symm⟩

theorem Same.trans {r s t : UnitState} (h : r.Same s) (h' : s.Same t) : r.Same t :=
  ⟨h.version.trans h'.version, h.global.trans h'.global, h.look.trans h'.look⟩

theorem setTable_setTable (s : UnitState) (table : JsString) (before after : Records) :
    (s.setTable table before).setTable table after = s.setTable table after := by
  rw [setTable, setTable, setTable, OrderedMap.set_set]

theorem setTable_of_get? {s : UnitState} {table : JsString} {records : Records}
    (h : s.tables.get? table = some records) : s.setTable table records = s := by
  rw [setTable, OrderedMap.set_of_get? h]

theorem look_setTable (s : UnitState) (table : JsString) (records : Records) :
    (s.setTable table records).look = Function.update s.look table (some records.get?) := by
  funext other
  rw [look, setTable, OrderedMap.get?_set, Function.update_apply]
  split_ifs <;> rfl

/-- The state of a unit of this shape: an object enumerates its keys in order. -/
structure Sound (descriptor : KvUnitDescriptor) (s : UnitState) : Prop where
  version : s.version = .int descriptor.version
  tables : ∀ table, (s.tables.get? table).isSome ↔ table ∈ descriptor.tables
  global : s.global.WF
  records : ∀ table records, (table, records) ∈ s.tables.entries → ∀ p ∈ records.entries, p.2.WF

end UnitState

/-! ## Writing -/

/-- The tables as an object of objects: `loadAll` and `serialize` build it alike. -/
def tablesObject (s : UnitState) : Fields :=
  fromEntries (s.tables.map fun records ↦ .obj (fromEntries records))

/-- The document of a unit. -/
def document (name : JsString) (s : UnitState) : Json :=
  .obj [prop "unit" (.obj [prop "name" (.str name), prop "version" (.num s.version)]),
    prop "global" s.global, prop "tables" (.obj (tablesObject s))]

def serialize (name : JsString) (s : UnitState) : JsString :=
  stringifyIndented (document name s) ++ [0x0A]

/-! ## Reading -/

inductive StorageError where
  /-- `file is not valid JSON` -/
  | notJson
  /-- `file is not a JSON object` -/
  | notObject
  /-- `missing or foreign unit header` -/
  | header
  /-- `stored version … != expected …` -/
  | versionMismatch (stored : Number) (expected : ℕ)
  /-- `tables is not an object` -/
  | tables
  /-- `table '…' is not an object` -/
  | table (name : JsString)
deriving DecidableEq

/-- The members of `Object.prototype` that are unit names. -/
def objectMembers : List String := ["constructor"]

/-- The members of `Array.prototype` that are unit names, and `length`. -/
def arrayMembers : List String :=
  ["at", "concat", "constructor", "entries", "every", "fill", "filter", "find", "flat", "includes",
    "join", "keys", "length", "map", "pop", "push", "reduce", "reverse", "shift", "slice", "some",
    "sort", "splice", "unshift", "values", "with"]

/-- What `tables[table]` is for a unit name. -/
inductive TableMember where
  | undefined
  /-- A member of the prototype, or the length of an array. -/
  | builtin
  | own (value : Json)

def tableMember (table : JsString) : Json → TableMember
  | .obj fs =>
    match fieldOf table fs with
    | some value => .own value
    | none => if table ∈ objectMembers.map js then .builtin else .undefined
  | .arr _ => if table ∈ arrayMembers.map js then .builtin else .undefined
  | _ => .undefined

/-- The loop of `parse` over the declared tables. -/
def parseTables (tables : Json) : List JsString → OrderedMap JsString Records →
    Except StorageError (OrderedMap JsString Records)
  | [], parsed => .ok parsed
  | table :: rest, parsed =>
    match tableMember table tables with
    | .undefined => parseTables tables rest (parsed.set table .empty)
    | .own (.obj records) => parseTables tables rest (parsed.set table (.ofList records))
    | _ => .error (.table table)

/-- `parse` behind its header. -/
def parseContent (descriptor : KvUnitDescriptor) (version : Number) (file : Value) :
    Except StorageError UnitState :=
  match file.get "tables" with
  | none => .error .tables
  | some tables =>
    if Value.isRecord (some tables) then
      (parseTables tables descriptor.tables .empty).map
        (⟨version, (file.get "global").getD .null, ·⟩)
    else .error .tables

def parseUnit (text : JsString) (descriptor : KvUnitDescriptor) : Except StorageError UnitState :=
  match parse text with
  | none => .error .notJson
  | some file =>
    if Value.isRecord (some file) then
      let header := Value.get "unit" (some file)
      if header.isRecord ∧ header.get "name" = some (.str descriptor.name) then
        match header.get "version" with
        | some (.num version) =>
          if version = .int descriptor.version then parseContent descriptor version (some file)
          else .error (.versionMismatch version descriptor.version)
        | _ => .error .header
      else .error .header
    else .error .notObject

/-- The state of a unit without a file. -/
def emptyState (descriptor : KvUnitDescriptor) : UnitState where
  version := .int descriptor.version
  global := .null
  tables := .ofList (descriptor.tables.map fun table ↦ (table, .empty))

/-- `openJsonUnit`, for what is at the path. -/
def openJsonUnit (descriptor : KvUnitDescriptor) :
    Option JsString → Except StorageError UnitState
  | none => .ok (emptyState descriptor)
  | some text => parseUnit text descriptor

/-! ## The round trip -/

/-- The records that `parse` gives a table. -/
def recordsOf (tables : Json) (table : JsString) : Records :=
  match tableMember table tables with
  | .own (.obj records) => .ofList records
  | _ => .empty

variable {descriptor : KvUnitDescriptor} {s t : UnitState} {tables : Json} {names : List JsString}
  {parsed m : OrderedMap JsString Records}

theorem parseTables_of_records (h : ∀ table ∈ names, ∃ records,
    tableMember table tables = .own (.obj records)) (parsed : OrderedMap JsString Records) :
    parseTables tables names parsed
      = .ok (names.foldl (fun m table ↦ m.set table (recordsOf tables table)) parsed) := by
  induction names generalizing parsed with
  | nil => rfl
  | cons table names ih =>
    obtain ⟨records, hrecords⟩ := h table List.mem_cons_self
    rw [parseTables, hrecords]
    dsimp only
    rw [ih fun other hother ↦ h other (List.mem_cons_of_mem _ hother), List.foldl_cons, recordsOf,
      hrecords]

theorem eq_of_parseTables (h : parseTables tables names parsed = .ok m) :
    m = names.foldl (fun m table ↦ m.set table (recordsOf tables table)) parsed := by
  induction names generalizing parsed with
  | nil => exact (Except.ok.inj h).symm
  | cons table names ih =>
    rw [parseTables] at h
    rw [List.foldl_cons, recordsOf]
    split at h
    case h_1 hmember => rw [hmember]; exact ih h
    case h_2 records hmember => rw [hmember]; exact ih h
    case h_3 => cases h

theorem get?_foldl_set_of (f : JsString → Records) (names : List JsString) (table : JsString)
    (m : OrderedMap JsString Records) :
    (names.foldl (fun m name ↦ m.set name (f name)) m).get? table
      = if table ∈ names then some (f table) else m.get? table := by
  induction names generalizing m with
  | nil => rw [List.foldl_nil, if_neg List.not_mem_nil]
  | cons name names ih =>
    rw [List.foldl_cons, ih, OrderedMap.get?_set]
    by_cases hname : table = name
    · subst hname
      simp
    · simp [hname]

theorem fieldOf_tablesObject (s : UnitState) (table : JsString) :
    fieldOf table (tablesObject s) = (s.tables.get? table).map (.obj <| fromEntries ·) := by
  rw [tablesObject, fieldOf_fromEntries, OrderedMap.get?_map]

theorem get?_ofList_fromEntries (records : Records) (key : JsString) :
    (OrderedMap.ofList (fromEntries records)).get? key = records.get? key := by
  rw [← fieldOf_eq_get?, OrderedMap.entries_ofList (orderedKeys_fromEntries records).nodup,
    fieldOf_fromEntries]

namespace UnitState

theorem Sound.wf_tablesObject (h : s.Sound descriptor) : (Json.obj (tablesObject s)).WF := by
  refine wf_fromEntries fun p hp ↦ ?_
  obtain ⟨⟨table, records⟩, hmem, rfl⟩ := List.mem_map.mp hp
  exact wf_fromEntries (h.records table records hmem)

theorem Sound.wf_document (h : s.Sound descriptor) (name : JsString) : (document name s).WF := by
  have houter : OrderedKeys [js "unit", js "global", js "tables"] := by decide +kernel
  have hinner : OrderedKeys [js "name", js "version"] := by decide +kernel
  rw [document, Json.WF]
  exact ⟨houter, ⟨hinner, trivial, trivial, trivial⟩, h.global, h.wf_tablesObject, trivial⟩

theorem Sound.parse_serialize (h : s.Sound descriptor) (name : JsString) :
    parse (serialize name s) = some (document name s) :=
  parse_stringifyIndented (h.wf_document name)

end UnitState

section document

variable (name : JsString) (s : UnitState)

theorem get_document_unit : Value.get "unit" (some (document name s))
    = some (.obj [prop "name" (.str name), prop "version" (.num s.version)]) := by
  simp [document]

theorem get_document_global : Value.get "global" (some (document name s)) = some s.global := by
  simp [document, js_inj]

theorem get_document_tables :
    Value.get "tables" (some (document name s)) = some (.obj (tablesObject s)) := by
  simp [document, js_inj]

end document

/-- The state that the text of a state is read as. -/
def reread (descriptor : KvUnitDescriptor) (s : UnitState) : UnitState where
  version := s.version
  global := s.global
  tables := descriptor.tables.foldl
    (fun m table ↦ m.set table (recordsOf (.obj (tablesObject s)) table)) .empty

theorem same_reread (h : s.Sound descriptor) : (reread descriptor s).Same s := by
  refine ⟨rfl, rfl, ?_⟩
  funext table
  rw [UnitState.look, UnitState.look, reread, get?_foldl_set_of]
  have hdeclared := h.tables table
  cases hrecords : s.tables.get? table with
  | none =>
    rw [hrecords] at hdeclared
    rw [if_neg fun hmem ↦ absurd (hdeclared.mpr hmem) (by simp)]
    rfl
  | some records =>
    rw [hrecords] at hdeclared
    rw [if_pos (hdeclared.mp rfl), Option.map_some, Option.map_some, recordsOf, tableMember,
      fieldOf_tablesObject, hrecords]
    exact congrArg some (funext (get?_ofList_fromEntries records))

/-- **What is published is read back**, up to the order of the records. -/
theorem openJsonUnit_serialize (h : s.Sound descriptor) :
    openJsonUnit descriptor (some (serialize descriptor.name s)) = .ok (reread descriptor s) := by
  have hmembers : ∀ table ∈ descriptor.tables, ∃ records,
      tableMember table (.obj (tablesObject s)) = .own (.obj records) := by
    intro table htable
    obtain ⟨records, hrecords⟩ := Option.isSome_iff_exists.mp ((h.tables table).mpr htable)
    refine ⟨fromEntries records, ?_⟩
    rw [tableMember, fieldOf_tablesObject, hrecords]
    rfl
  have hname : Value.get "name"
      (some (.obj [prop "name" (.str descriptor.name), prop "version" (.num s.version)]))
      = some (.str descriptor.name) := by simp
  have hversion : Value.get "version"
      (some (.obj [prop "name" (.str descriptor.name), prop "version" (.num s.version)]))
      = some (.num s.version) := by simp [js_inj]
  rw [openJsonUnit, parseUnit, h.parse_serialize]
  dsimp only
  rw [get_document_unit, if_pos (show Value.isRecord _ = true from rfl), if_pos ⟨rfl, hname⟩,
    hversion]
  dsimp only
  rw [if_pos h.version, parseContent, get_document_tables]
  dsimp only
  rw [if_pos (show Value.isRecord _ = true from rfl), parseTables_of_records hmembers,
    get_document_global]
  rfl

/-! ## The shape of what is opened -/

theorem sound_emptyState (descriptor : KvUnitDescriptor) :
    (emptyState descriptor).Sound descriptor where
  version := rfl
  tables table := by
    rw [emptyState, OrderedMap.ofList, List.foldl_map, get?_foldl_set_of fun _ ↦ .empty]
    split_ifs with hmem
    · exact iff_of_true rfl hmem
    · exact iff_of_false (by simp [OrderedMap.get?]) hmem
  global := trivial
  records table records hmem := by
    obtain ⟨name, -, hempty⟩ := List.mem_map.mp (OrderedMap.mem_ofList hmem)
    obtain rfl := (Prod.mk.inj hempty).2
    simp

theorem wf_of_mem_recordsOf (h : tables.WF) {table : JsString} {p : JsString × Json}
    (hp : p ∈ (recordsOf tables table).entries) : p.2.WF := by
  rw [recordsOf] at hp
  split at hp
  case h_2 => simp at hp
  case h_1 records hmember =>
    have hrecords : (Json.obj records).WF := by
      cases tables with
      | obj fs =>
        rw [tableMember] at hmember
        split at hmember
        case h_1 value hvalue =>
          exact TableMember.own.inj hmember ▸ h.of_mem (mem_of_fieldOf hvalue)
        case h_2 => split_ifs at hmember
      | arr xs =>
        rw [tableMember] at hmember
        split_ifs at hmember
      | _ => cases hmember
    exact hrecords.of_mem (OrderedMap.mem_ofList hp)

theorem sound_of_parseTables (hglobal : Json.WF t.global)
    (hversion : t.version = .int descriptor.version) (htables : tables.WF) (h : parseTables tables descriptor.tables .empty = .ok t.tables) :
    t.Sound descriptor where
  version := hversion
  tables table := by
    rw [eq_of_parseTables h, get?_foldl_set_of]
    split_ifs with hmem
    · exact iff_of_true rfl hmem
    · exact iff_of_false (by simp [OrderedMap.get?]) hmem
  global := hglobal
  records table records hmem := by
    have hget := OrderedMap.get?_eq_some_iff.mpr hmem
    rw [eq_of_parseTables h, get?_foldl_set_of] at hget
    split_ifs at hget
    · obtain rfl := Option.some.inj hget
      exact fun p hp ↦ wf_of_mem_recordsOf htables hp
    · simp [OrderedMap.get?] at hget

/-- **Whatever is opened has the shape of the unit.** -/
theorem sound_openJsonUnit {file : Option JsString} (h : openJsonUnit descriptor file = .ok s) :
    s.Sound descriptor := by
  cases file with
  | none => exact Except.ok.inj h ▸ sound_emptyState descriptor
  | some text =>
    rw [openJsonUnit, parseUnit] at h
    split at h
    case h_1 => cases h
    case h_2 file hparse =>
      have hfile : file.WF := wf_of_parse hparse
      dsimp only at h
      split_ifs at h with hrecord hheader
      split at h
      case h_2 => cases h
      case h_1 version =>
        split_ifs at h with hversion
        rw [parseContent] at h
        split at h
        case h_1 => cases h
        case h_2 tables htables =>
          split_ifs at h
          cases hparsed : parseTables tables descriptor.tables .empty with
          | error e => rw [hparsed] at h; cases h
          | ok m =>
            rw [hparsed] at h
            obtain rfl := Except.ok.inj h
            refine sound_of_parseTables ?_ hversion (hfile.of_get? htables) hparsed
            cases hglobal : Value.get "global" (some file) with
            | none => exact trivial
            | some global => exact hfile.of_get? hglobal

/-!
## A JSON storage unit

Every write of a unit changes the state in memory and republishes the whole file: the text goes to
a temporary file that is renamed over the unit file, and on POSIX the directory is synced behind
it. A publish that fails rolls the change in memory back.

The file is replaced by the rename. So a publish that fails later leaves the new text on the
medium, under a memory that has the old state.
-/

open Files

/-! ## The file-system calls of a publish -/

inductive Platform where
  | posix
  | win32
deriving DecidableEq

inductive FileCall where
  | openTemporary
  | write
  | sync
  | close
  | rename
  | openDirectory
  | syncDirectory
  | closeDirectory
  | removeTemporary
deriving DecidableEq

inductive UnitError where
  /-- `closed` -/
  | closed
  /-- `unit '…' does not declare table '…'` -/
  | undeclared (table : JsString)
  /-- `unit '…' does not declare a global slot` -/
  | noGlobal
  /-- A call of the file system has failed. -/
  | io (call : FileCall)
deriving DecidableEq

/-- The calls that fail during one write of the unit. -/
structure Faults where
  fails : FileCall → Bool
  /-- What a failing write leaves of the text. -/
  written : ℕ

/-- The unit file, and the temporary file of the publish that is under way. -/
structure Disk where
  file : Option JsString
  temporary : Option JsString

/-- An opened unit over its medium. -/
structure UnitCell where
  state : UnitState
  closed : Bool
  disk : Disk

/-- A method of the unit. -/
abbrev UnitM := Faulty Faults UnitError UnitCell

/-- A call of the file system: what it does to the disk, and what it leaves where it fails. -/
def fileCall (call : FileCall) (effect : Disk → Disk) (failed : ℕ → Disk → Disk) : UnitM Unit :=
  fun faults cell ↦
    if faults.fails call then
      (.error (.io call), { cell with disk := failed faults.written cell.disk })
    else (.ok (), { cell with disk := effect cell.disk })

/-- A call that fails without a trace. -/
def cleanCall (call : FileCall) (effect : Disk → Disk) : UnitM Unit :=
  fileCall call effect fun _ disk ↦ disk

def fsyncDirectory : Platform → UnitM Unit
  | .win32 => pure ()
  | .posix => do
    cleanCall .openDirectory id
    (cleanCall .syncDirectory id).tryFinally (cleanCall .closeDirectory id)

def writeSynced (data : JsString) : UnitM Unit := do
  fileCall .write (fun disk ↦ { disk with temporary := some data })
    fun written disk ↦ { disk with temporary := some (data.take written) }
  cleanCall .sync id

/-- The text in the temporary file, synced and closed. -/
def writeTemporary (data : JsString) : UnitM Unit := do
  cleanCall .openTemporary fun disk ↦ { disk with temporary := some [] }
  (writeSynced data).tryFinally (cleanCall .close id)

/-- The `catch` of `writeAtomic`. -/
def discardTemporary (error : UnitError) : UnitM Unit := do
  cleanCall .removeTemporary fun disk ↦ { disk with temporary := none }
  Faulty.throw error

/-- The `try` of `writeAtomic`. -/
def replaceFile (platform : Platform) (data : JsString) : UnitM Unit := do
  writeTemporary data
  cleanCall .rename fun disk ↦ ⟨disk.temporary, none⟩
  fsyncDirectory platform

def writeAtomic (platform : Platform) (data : JsString) : UnitM Unit :=
  (replaceFile platform data).tryCatch discardTemporary

/-! ## The methods of the unit -/

section methods

variable (descriptor : KvUnitDescriptor) (platform : Platform)

def assertOpen : UnitM Unit := do
  let cell ← Faulty.get
  if cell.closed then Faulty.throw .closed else pure ()

def records (table : JsString) : UnitM Records := do
  let cell ← Faulty.get
  match cell.state.tables.get? table with
  | none => Faulty.throw (.undeclared table)
  | some records => pure records

def setRecords (table : JsString) (records : Records) : UnitM Unit :=
  Faulty.modify fun cell ↦ { cell with state := cell.state.setTable table records }

def publish : UnitM Unit := do
  let cell ← Faulty.get
  writeAtomic platform (serialize descriptor.name cell.state)

/-- `publish().catch(…)`, which rolls back and throws on. -/
def publishOr (rollback : UnitM Unit) : UnitM Unit :=
  (publish descriptor platform).tryCatch fun error ↦ do
    rollback
    Faulty.throw error

/-- `loadAll`: the tables and the global value. -/
def loadAll : UnitM (Fields × Json) := do
  assertOpen
  let cell ← Faulty.get
  pure (tablesObject cell.state, cell.state.global)

/-- A JSON value: an object enumerates its keys in order. -/
abbrev JsonValue := { value : Json // value.WF }

def putRecord (table key : JsString) (value : JsonValue) : UnitM Unit := do
  assertOpen
  let entries ← records table
  let changed := entries.set key value.1
  setRecords table changed
  publishOr descriptor platform <|
    match entries.get? key with
    | some previous => setRecords table (changed.set key previous)
    | none => setRecords table (changed.delete key)

def deleteRecord (table key : JsString) : UnitM Unit := do
  assertOpen
  let entries ← records table
  match entries.get? key with
  | none => pure ()
  | some previous =>
    setRecords table (entries.delete key)
    publishOr descriptor platform (setRecords table ((entries.delete key).set key previous))

def setGlobal (value : JsonValue) : UnitM Unit := do
  assertOpen
  if descriptor.hasGlobal then
    let cell ← Faulty.get
    Faulty.modify fun cell ↦ { cell with state.global := value.1 }
    publishOr descriptor platform
      (Faulty.modify fun now ↦ { now with state.global := cell.state.global })
  else Faulty.throw .noGlobal

/-- A write of the unit. -/
inductive UnitWrite where
  | putRecord (table key : JsString) (value : JsonValue)
  | deleteRecord (table key : JsString)
  | setGlobal (value : JsonValue)

def UnitWrite.call : UnitWrite → UnitM Unit
  | putRecord table key value => Storage.putRecord descriptor platform table key value
  | deleteRecord table key => Storage.deleteRecord descriptor platform table key
  | setGlobal value => Storage.setGlobal descriptor platform value

end methods

/-!
## Publishing a JSON unit

A publish is at an end in one of three ways: it fails in front of the rename and leaves the unit
file, it fails behind the rename and leaves the new text, or it succeeds. The memory of the unit
has the new state only where it succeeds.
-/

variable {platform : Platform} {faults : Faults}
  {cell now : UnitCell} {data : JsString}

/-! ## The publish protocol -/

/-- Nothing but the temporary file is touched. -/
structure SameFile (before after : UnitCell) : Prop where
  state : after.state = before.state
  closed : after.closed = before.closed
  file : after.disk.file = before.disk.file

instance : Std.Refl SameFile := ⟨fun _ ↦ ⟨rfl, rfl, rfl⟩⟩

instance : IsTrans UnitCell SameFile :=
  ⟨fun _ _ _ h h' ↦ ⟨h'.state.trans h.state, h'.closed.trans h.closed, h'.file.trans h.file⟩⟩

/-- A failing call, in the sense of `Faulty.Makes`. -/
def Failing (faults : Faults) (call : FileCall) : Prop := faults.fails call = true

/-- The calls up to the rename. -/
def FileCall.untilRename : List FileCall := [.openTemporary, .write, .sync, .close, .rename]

/-- The calls behind the rename. -/
def Platform.directoryCalls : Platform → List FileCall
  | .posix => [.openDirectory, .syncDirectory, .closeDirectory]
  | .win32 => []

namespace Faults

/-- The publish does not come past the rename. -/
def FailsFirst (faults : Faults) : Prop := ∃ call ∈ FileCall.untilRename, Failing faults call

/-- A call behind the rename fails. -/
def FailsLast (faults : Faults) (platform : Platform) : Prop :=
  ∃ call ∈ platform.directoryCalls, Failing faults call

instance (faults : Faults) : Decidable faults.FailsFirst :=
  inferInstanceAs (Decidable (∃ call ∈ _, faults.fails call = true))

instance (faults : Faults) (platform : Platform) : Decidable (faults.FailsLast platform) :=
  inferInstanceAs (Decidable (∃ call ∈ _, faults.fails call = true))

end Faults

theorem makes_fileCall (call : FileCall) (effect : Disk → Disk) (failed : ℕ → Disk → Disk)
    (cell : UnitCell) : Faulty.Makes Failing [call] (fileCall call effect failed) cell ()
      { cell with disk := effect cell.disk } := by
  intro faults
  constructor
  · intro hnone
    have hcall : faults.fails call ≠ true := hnone call List.mem_cons_self
    rw [fileCall, if_neg hcall]
  · rintro ⟨other, hother, hfail⟩
    obtain rfl := List.mem_singleton.mp hother
    exact ⟨_, _, if_pos hfail⟩

theorem keeps_fileCall {call : FileCall} {effect : Disk → Disk} {failed : ℕ → Disk → Disk}
    (heffect : ∀ disk, (effect disk).file = disk.file)
    (hfailed : ∀ n disk, (failed n disk).file = disk.file) :
    Faulty.Keeps SameFile (fileCall call effect failed) := by
  intro faults cell
  rw [fileCall]
  split_ifs
  · exact ⟨rfl, rfl, hfailed _ _⟩
  · exact ⟨rfl, rfl, heffect _⟩

theorem keeps_cleanCall {call : FileCall} {effect : Disk → Disk}
    (heffect : ∀ disk, (effect disk).file = disk.file) :
    Faulty.Keeps SameFile (cleanCall call effect) :=
  keeps_fileCall heffect fun _ _ ↦ rfl

theorem makes_cleanCall (call : FileCall) (effect : Disk → Disk) (cell : UnitCell) :
    Faulty.Makes Failing [call] (cleanCall call effect) cell ()
      { cell with disk := effect cell.disk } :=
  makes_fileCall call effect _ cell

theorem keeps_fsyncDirectory (platform : Platform) :
    Faulty.Keeps SameFile (fsyncDirectory platform) := by
  cases platform with
  | win32 => exact Faulty.keeps_pure _
  | posix =>
    have hclean (call : FileCall) : Faulty.Keeps SameFile (cleanCall call id) :=
      keeps_cleanCall fun _ ↦ rfl
    exact (hclean _).bind fun _ ↦ (hclean _).tryFinally (hclean _)

theorem makes_fsyncDirectory (platform : Platform) (cell : UnitCell) :
    Faulty.Makes Failing platform.directoryCalls (fsyncDirectory platform) cell () cell := by
  cases platform with
  | win32 => exact Faulty.makes_pure _
  | posix =>
    have hclean (call : FileCall) :
        Faulty.Makes Failing [call] (cleanCall call id) cell () cell := makes_cleanCall call id cell
    exact (hclean _).bind ((hclean _).tryFinally (hclean _))

theorem keeps_writeTemporary (data : JsString) : Faulty.Keeps SameFile (writeTemporary data) := by
  have hclean (call : FileCall) : Faulty.Keeps SameFile (cleanCall call id) :=
    keeps_cleanCall fun _ ↦ rfl
  have hwritten : Faulty.Keeps SameFile (writeSynced data) :=
    Faulty.Keeps.bind (keeps_fileCall (fun _ ↦ rfl) fun _ _ ↦ rfl) fun _ ↦ hclean _
  exact Faulty.Keeps.bind (keeps_cleanCall fun _ ↦ rfl) fun _ ↦ hwritten.tryFinally (hclean _)

theorem makes_writeTemporary (data : JsString) (cell : UnitCell) :
    Faulty.Makes Failing [.openTemporary, .write, .sync, .close] (writeTemporary data) cell ()
      { cell with disk.temporary := some data } := by
  have hwritten (opened : UnitCell) : Faulty.Makes Failing [.write, .sync] (writeSynced data)
      opened () { opened with disk.temporary := some data } :=
    Faulty.Makes.bind (makes_fileCall _ _ _ opened) (makes_cleanCall _ id _)
  exact Faulty.Makes.bind (makes_cleanCall _ _ cell)
    ((hwritten _).tryFinally (makes_cleanCall _ id _))

theorem keeps_discardTemporary (error : UnitError) :
    Faulty.Keeps SameFile (discardTemporary error) := by
  have hremove : Faulty.Keeps SameFile
      (cleanCall .removeTemporary fun disk ↦ { disk with temporary := none }) :=
    keeps_cleanCall fun _ ↦ rfl
  exact hremove.bind fun _ ↦ Faulty.keeps_throw error

/-- The cleanup of a failed publish throws. -/
theorem discardTemporary_error (error : UnitError) (faults : Faults) (cell : UnitCell) :
    ∃ e, (discardTemporary error faults cell).1 = .error e := by
  cases hremove :
      cleanCall .removeTemporary (fun disk ↦ { disk with temporary := none }) faults cell with
  | mk result after =>
    cases result with
    | error e =>
      refine ⟨e, ?_⟩
      rw [discardTemporary, Faulty.run_bind_error hremove]
    | ok u =>
      refine ⟨error, ?_⟩
      rw [discardTemporary, Faulty.run_bind_ok hremove]
      rfl

/-- How a publish ends. -/
structure Publishes (platform : Platform) (data : JsString) (faults : Faults) (before : UnitCell)
    (run : Except UnitError Unit × UnitCell) : Prop where
  state : run.2.state = before.state
  closed : run.2.closed = before.closed
  ok_iff : run.1 = .ok () ↔ ¬ faults.FailsFirst ∧ ¬ faults.FailsLast platform
  kept : faults.FailsFirst → run.2.disk.file = before.disk.file
  replaced : ¬ faults.FailsFirst → run.2.disk.file = some data

theorem writeAtomic_of_error {error : UnitError}
    (h : replaceFile platform data faults cell = (.error error, now)) :
    SameFile now (writeAtomic platform data faults cell).2 ∧
      ∃ e, (writeAtomic platform data faults cell).1 = .error e := by
  have hcatch : writeAtomic platform data faults cell = discardTemporary error faults now := by
    rw [writeAtomic, Faulty.tryCatch, h]
  rw [hcatch]
  exact ⟨keeps_discardTemporary error faults now, discardTemporary_error error faults now⟩

/-- **How the protocol ends**: the rename decides which text is on the medium. -/
theorem publishes_writeAtomic (platform : Platform) (data : JsString) (faults : Faults)
    (cell : UnitCell) :
    Publishes platform data faults cell (writeAtomic platform data faults cell) := by
  have hrejected {after : UnitCell} {error : UnitError} (hsame : SameFile cell after)
      (hfirst : faults.FailsFirst)
      (h : replaceFile platform data faults cell = (.error error, after)) :
      Publishes platform data faults cell (writeAtomic platform data faults cell) := by
    obtain ⟨hkept, e, he⟩ := writeAtomic_of_error h
    have hall : SameFile cell (writeAtomic platform data faults cell).2 :=
      IsTrans.trans _ _ _ hsame hkept
    exact
      { state := hall.state
        closed := hall.closed
        ok_iff := by
          rw [he]
          exact iff_of_false (by simp) fun hnone ↦ hnone.1 hfirst
        kept := fun _ ↦ hall.file
        replaced := fun hnone ↦ absurd hfirst hnone }
  by_cases hwrite : ∃ call ∈ [FileCall.openTemporary, .write, .sync, .close], Failing faults call
  · obtain ⟨e, after, hrun⟩ := (makes_writeTemporary data cell faults).2 hwrite
    have hsame : SameFile cell after := by
      have hkept := keeps_writeTemporary data faults cell
      rwa [hrun] at hkept
    obtain ⟨call, hcall, hfail⟩ := hwrite
    refine hrejected hsame ⟨call, ?_, hfail⟩ (Faulty.run_bind_error hrun)
    simp only [FileCall.untilRename, List.mem_cons] at hcall ⊢
    tauto
  · have hwritten := (makes_writeTemporary data cell faults).1 (by simpa using hwrite)
    let written : UnitCell := { cell with disk.temporary := some data }
    by_cases hrename : Failing faults .rename
    · have hrun : cleanCall .rename (fun disk ↦ ⟨disk.temporary, none⟩) faults written
          = (.error (.io .rename), written) := if_pos hrename
      have hbody : replaceFile platform data faults cell = (.error (.io .rename), written) := by
        rw [replaceFile, Faulty.run_bind_ok hwritten, Faulty.run_bind_error hrun]
      have hsame : SameFile cell written := ⟨rfl, rfl, rfl⟩
      exact hrejected hsame ⟨.rename, by decide, hrename⟩ hbody
    · -- The new text is on the medium from here on.
      have hfirst : ¬ faults.FailsFirst := by
        rintro ⟨call, hcall, hfail⟩
        simp only [FileCall.untilRename, List.mem_cons, List.not_mem_nil, or_false] at hcall
        rcases hcall with rfl | rfl | rfl | rfl | rfl
        all_goals first
          | exact hrename hfail
          | exact hwrite ⟨_, by decide, hfail⟩
      let renamed : UnitCell := { cell with disk := ⟨some data, none⟩ }
      have hrun : cleanCall .rename (fun disk ↦ ⟨disk.temporary, none⟩) faults written
          = (.ok (), renamed) := if_neg hrename
      have hbody : replaceFile platform data faults cell
          = fsyncDirectory platform faults renamed := by
        rw [replaceFile, Faulty.run_bind_ok hwritten, Faulty.run_bind_ok hrun]
      by_cases hlast : faults.FailsLast platform
      · obtain ⟨error, after, hfsync⟩ := (makes_fsyncDirectory platform renamed faults).2 hlast
        have hsame : SameFile renamed after := by
          have hkept := keeps_fsyncDirectory platform faults renamed
          rwa [hfsync] at hkept
        obtain ⟨hkept, e, he⟩ := writeAtomic_of_error (hbody.trans hfsync)
        have hall : SameFile renamed (writeAtomic platform data faults cell).2 :=
          IsTrans.trans _ _ _ hsame hkept
        exact
          { state := hall.state
            closed := hall.closed
            ok_iff := by
              rw [he]
              exact iff_of_false (by simp) fun hnone ↦ hnone.2 hlast
            kept := fun hfails ↦ absurd hfails hfirst
            replaced := fun _ ↦ hall.file }
      · have hfsync := (makes_fsyncDirectory platform renamed faults).1 (by
          intro call hcall hfail
          exact hlast ⟨call, hcall, hfail⟩)
        have hok : writeAtomic platform data faults cell = (.ok (), renamed) := by
          rw [writeAtomic, Faulty.tryCatch, hbody, hfsync]
        rw [hok]
        exact
          { state := rfl
            closed := rfl
            ok_iff := iff_of_true rfl ⟨hfirst, hlast⟩
            kept := fun hfails ↦ absurd hfails hfirst
            replaced := fun _ ↦ rfl }

/-! ## The writes -/

/-- How a write ends that publishes: the state that it writes, and the one it rolls back to. -/
structure Settles (descriptor : KvUnitDescriptor) (platform : Platform) (faults : Faults)
    (before : UnitCell) (written restored : UnitState)
    (run : Except UnitError Unit × UnitCell) : Prop where
  closed : run.2.closed = before.closed
  ok_iff : run.1 = .ok () ↔ ¬ faults.FailsFirst ∧ ¬ faults.FailsLast platform
  state_ok : run.1 = .ok () → run.2.state = written
  state_error : run.1 ≠ .ok () → run.2.state = restored
  kept : faults.FailsFirst → run.2.disk.file = before.disk.file
  replaced : ¬ faults.FailsFirst → run.2.disk.file = some (serialize descriptor.name written)

/-- A change in memory that is published, or rolled back. -/
theorem settles_publishOr (descriptor : KvUnitDescriptor) (platform : Platform) (faults : Faults)
    (before : UnitCell) (changed : UnitState) (restore : UnitState → UnitState)
    {rollback : UnitM Unit}
    (hrollback : rollback = Faulty.modify fun now ↦ { now with state := restore now.state }) :
    Settles descriptor platform faults before changed (restore changed)
      (publishOr descriptor platform rollback faults { before with state := changed }) := by
  let cell : UnitCell := { before with state := changed }
  have hpublish : publish descriptor platform faults cell
      = writeAtomic platform (serialize descriptor.name changed) faults cell := rfl
  have hends := publishes_writeAtomic platform (serialize descriptor.name changed) faults cell
  rw [← hpublish] at hends
  have hcatch : publishOr descriptor platform rollback faults cell
      = match publish descriptor platform faults cell with
        | (.error e, after) => (.error e, { after with state := restore after.state })
        | (.ok (), after) => (.ok (), after) := by
    rw [publishOr, Faulty.tryCatch, hrollback]
    rcases publish descriptor platform faults cell with ⟨_ | _, after⟩ <;> rfl
  rw [hcatch]
  rcases hrun : publish descriptor platform faults cell with ⟨e | u, after⟩
  · rw [hrun] at hends
    exact
      { closed := hends.closed
        ok_iff :=
          iff_of_false (by simp) fun hnone ↦ absurd (hends.ok_iff.mpr hnone) (by simp)
        state_ok := fun hok ↦ absurd hok (by simp)
        state_error := fun _ ↦ congrArg restore hends.state
        kept := hends.kept
        replaced := hends.replaced }
  · rw [hrun] at hends
    exact
      { closed := hends.closed
        ok_iff := hends.ok_iff
        state_ok := fun _ ↦ hends.state
        state_error := fun hne ↦ absurd rfl hne
        kept := hends.kept
        replaced := hends.replaced }

namespace UnitWrite

/-- The write comes to a publish: the unit is open, the slot is declared, and a record that is
deleted is there. -/
def Publishing (descriptor : KvUnitDescriptor) (cell : UnitCell) : UnitWrite → Prop
  | putRecord table _ _ => cell.closed = false ∧ (cell.state.tables.get? table).isSome
  | deleteRecord table key =>
    cell.closed = false ∧ ((cell.state.tables.get? table).bind (·.get? key)).isSome
  | setGlobal _ => cell.closed = false ∧ descriptor.hasGlobal = true

/-- What the write makes of a state. -/
def applied (s : UnitState) : UnitWrite → UnitState
  | putRecord table key value =>
    match s.tables.get? table with
    | some records => s.setTable table (records.set key value.1)
    | none => s
  | deleteRecord table key =>
    match s.tables.get? table with
    | some records => s.setTable table (records.delete key)
    | none => s
  | setGlobal value => { s with global := value.1 }

/-- What the rollback makes of it: a record that was deleted comes last. -/
def restored (s : UnitState) : UnitWrite → UnitState
  | deleteRecord table key =>
    match (s.tables.get? table).bind fun records ↦ (records.get? key).map (records, ·) with
    | some (records, previous) => s.setTable table ((records.delete key).set key previous)
    | none => s
  | _ => s

variable {write : UnitWrite}

theorem call_of_closed (h : cell.closed = true) :
    write.call descriptor platform faults cell = (.error .closed, cell) := by
  have hopen : assertOpen faults cell = (.error .closed, cell) := by
    rw [assertOpen, Faulty.run_get_bind, if_pos h]
    rfl
  cases write with
  | putRecord table key value => exact Faulty.run_bind_error hopen
  | deleteRecord table key => exact Faulty.run_bind_error hopen
  | setGlobal value => exact Faulty.run_bind_error hopen

theorem assertOpen_ok (h : cell.closed = false) : assertOpen faults cell = (.ok (), cell) := by
  rw [assertOpen, Faulty.run_get_bind, if_neg (by simp [h])]
  rfl

theorem records_of_some {table : JsString} {entries : Records}
    (h : cell.state.tables.get? table = some entries) :
    records table faults cell = (.ok entries, cell) := by
  rw [records, Faulty.run_get_bind, h]
  rfl

theorem records_of_none {table : JsString} (h : cell.state.tables.get? table = none) :
    records table faults cell = (.error (.undeclared table), cell) := by
  rw [records, Faulty.run_get_bind, h]
  rfl

/-- A write that does not come to a publish does nothing. -/
theorem call_of_not_publishing (h : ¬ write.Publishing descriptor cell) :
    (write.call descriptor platform faults cell).2 = cell := by
  cases hclosed : cell.closed with
  | true => rw [call_of_closed hclosed]
  | false =>
    have hopen : assertOpen faults cell = (.ok (), cell) := assertOpen_ok hclosed
    cases write with
    | putRecord table key value =>
      cases hentries : cell.state.tables.get? table with
      | some entries => exact absurd ⟨hclosed, by rw [hentries]; rfl⟩ h
      | none =>
        rw [call, Storage.putRecord, Faulty.run_bind_ok hopen,
          Faulty.run_bind_error (records_of_none hentries)]
    | deleteRecord table key =>
      cases hentries : cell.state.tables.get? table with
      | none =>
        rw [call, Storage.deleteRecord, Faulty.run_bind_ok hopen,
          Faulty.run_bind_error (records_of_none hentries)]
      | some entries =>
        rw [call, Storage.deleteRecord, Faulty.run_bind_ok hopen,
          Faulty.run_bind_ok (records_of_some hentries)]
        cases hprevious : entries.get? key with
        | none => rfl
        | some previous =>
          refine absurd ⟨hclosed, ?_⟩ h
          rw [hentries, Option.bind_some, hprevious]
          rfl
    | setGlobal value =>
      have hglobal : ¬ descriptor.hasGlobal = true := fun hglobal ↦ h ⟨hclosed, hglobal⟩
      rw [call, Storage.setGlobal, Faulty.run_bind_ok hopen, if_neg hglobal]
      rfl

/-- **A write that publishes settles in one of the three ways.** -/
theorem call_settles (platform : Platform) (faults : Faults)
    (h : write.Publishing descriptor cell) :
    Settles descriptor platform faults cell (write.applied cell.state) (write.restored cell.state)
      (write.call descriptor platform faults cell) := by
  have hopen (hclosed : cell.closed = false) : assertOpen faults cell = (.ok (), cell) :=
    assertOpen_ok hclosed
  cases write with
  | putRecord table key value =>
    obtain ⟨hclosed, htable⟩ := h
    obtain ⟨entries, hentries⟩ := Option.isSome_iff_exists.mp htable
    have happlied : applied cell.state (putRecord table key value)
        = cell.state.setTable table (entries.set key value.1) := by
      rw [applied, hentries]
    rw [call, Storage.putRecord, Faulty.run_bind_ok (hopen hclosed),
      Faulty.run_bind_ok (records_of_some hentries), happlied, setRecords,
      Faulty.run_modify_bind]
    -- The rollback restores the very map that the table had.
    have hrollback (back : Records) (hback : back = entries) :
        (cell.state.setTable table (entries.set key value.1)).setTable table back = cell.state := by
      rw [UnitState.setTable_setTable, hback, UnitState.setTable_of_get? hentries]
    cases hprevious : entries.get? key with
    | some previous =>
      have hback := hrollback ((entries.set key value.1).set key previous)
        (by rw [OrderedMap.set_set, OrderedMap.set_of_get? hprevious])
      have hsettles := settles_publishOr descriptor platform faults cell
        (cell.state.setTable table (entries.set key value.1))
        (·.setTable table ((entries.set key value.1).set key previous)) rfl
      rwa [hback] at hsettles
    | none =>
      have hback := hrollback ((entries.set key value.1).delete key)
        (OrderedMap.delete_set hprevious value.1)
      have hsettles := settles_publishOr descriptor platform faults cell
        (cell.state.setTable table (entries.set key value.1))
        (·.setTable table ((entries.set key value.1).delete key)) rfl
      rwa [hback] at hsettles
  | deleteRecord table key =>
    obtain ⟨hclosed, hrecord⟩ := h
    cases hentries : cell.state.tables.get? table with
    | none =>
      rw [hentries] at hrecord
      cases hrecord
    | some entries =>
      rw [hentries, Option.bind_some] at hrecord
      obtain ⟨previous, hprevious⟩ := Option.isSome_iff_exists.mp hrecord
      have happlied : applied cell.state (deleteRecord table key)
          = cell.state.setTable table (entries.delete key) := by
        rw [applied, hentries]
      have hrestored : restored cell.state (deleteRecord table key)
          = cell.state.setTable table ((entries.delete key).set key previous) := by
        rw [restored, hentries, Option.bind_some, hprevious]
        rfl
      rw [call, Storage.deleteRecord, Faulty.run_bind_ok (hopen hclosed),
        Faulty.run_bind_ok (records_of_some hentries), happlied, hrestored, hprevious]
      dsimp only
      rw [setRecords, Faulty.run_modify_bind]
      have hsettles := settles_publishOr descriptor platform faults cell
        (cell.state.setTable table (entries.delete key))
        (·.setTable table ((entries.delete key).set key previous)) rfl
      rwa [UnitState.setTable_setTable] at hsettles
  | setGlobal value =>
    obtain ⟨hclosed, hglobal⟩ := h
    rw [call, Storage.setGlobal, Faulty.run_bind_ok (hopen hclosed), if_pos hglobal,
      Faulty.run_get_bind, Faulty.run_modify_bind]
    exact settles_publishOr descriptor platform faults cell
      { cell.state with global := value.1 } (fun s ↦ { s with global := cell.state.global }) rfl

end UnitWrite

end XxAgent.Storage
