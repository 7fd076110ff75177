import Mathlib.Data.List.Basic
import Mathlib.Data.List.Induction

/-!
# Storage domains

An open domain serves its records from memory. Every write is a job on one promise chain: it awaits
the backend first, then changes memory, then tells the observers. Closing rejects new writes, awaits
the chain, releases the backend unit, and only then frees the name.
-/

namespace XxAgent.Storage

/-! ## Contents -/

/-- What a domain holds: its tables, and its global singleton. -/
structure Contents (Table Key Value : Type) where
  records : Table → Key → Option Value
  global : Value

/-- What the backend holds; a global that was never written is missing. -/
structure Medium (Table Key Value : Type) where
  records : Table → Key → Option Value
  global : Option Value

/-- What `open` makes of a medium. -/
def Medium.served {Table Key Value : Type} (medium : Medium Table Key Value) (initial : Value) :
    Contents Table Key Value :=
  ⟨medium.records, medium.global.getD initial⟩

/-- A call to the backend. -/
inductive Write (Table Key Value : Type) where
  | putRecord (table : Table) (key : Key) (value : Value)
  | deleteRecord (table : Table) (key : Key)
  | setGlobal (value : Value)

/-- A call to a table or to the global handle. The transform of `update` may throw. -/
inductive Op (Table Key Value : Type) where
  | put (table : Table) (key : Key) (value : Value)
  | delete (table : Table) (key : Key)
  | update (table : Table) (key : Key) (fn : Value → Option Value)
  | set (value : Value)

/-- How a promise is settled. -/
inductive Outcome (Value : Type) where
  | done
  | deleted (existed : Bool)
  | updated (next : Value)
  /-- `missing-key` -/
  | missingKey
  /-- The transform has thrown. -/
  | transform
  /-- The backend has rejected the write. -/
  | backend
  /-- `closed` -/
  | closed

/-- `DomainChanged` -/
inductive DomainChanged (Table Key Value : Type) where
  | put (table : Table) (key : Key) (value : Value)
  | deleted (table : Table) (key : Key)
  | global (value : Value)

/-- The value that a change carries. -/
def DomainChanged.value {Table Key Value : Type} : DomainChanged Table Key Value → Option Value
  | put _ _ value => some value
  | deleted _ _ => none
  | global value => some value

variable {Table Key Value : Type} [DecidableEq Table] [DecidableEq Key]

/-- Set or remove one record. -/
def setRecord (records : Table → Key → Option Value) (table : Table) (key : Key)
    (value : Option Value) : Table → Key → Option Value :=
  Function.update records table (Function.update (records table) key value)

namespace Write

/-- What a committed write does to the medium. -/
def onMedium (medium : Medium Table Key Value) : Write Table Key Value → Medium Table Key Value
  | putRecord table key value =>
    { medium with records := setRecord medium.records table key (some value) }
  | deleteRecord table key => { medium with records := setRecord medium.records table key none }
  | setGlobal value => { medium with global := some value }

/-- What its job does to memory afterwards. -/
def onMemory (memory : Contents Table Key Value) :
    Write Table Key Value → Contents Table Key Value
  | putRecord table key value =>
    { memory with records := setRecord memory.records table key (some value) }
  | deleteRecord table key => { memory with records := setRecord memory.records table key none }
  | setGlobal value => { memory with global := value }

/-- The change that is announced. -/
def changed : Write Table Key Value → DomainChanged Table Key Value
  | putRecord table key value => .put table key value
  | deleteRecord table key => .deleted table key
  | setGlobal value => .global value

end Write

/-- What the body of a job comes to before it awaits anything. -/
inductive JobStart (Table Key Value : Type) where
  | settle (outcome : Outcome Value)
  /-- A backend write is awaited, and the outcome that it leads to. -/
  | write (write : Write Table Key Value) (outcome : Outcome Value)

/-- The body of a job up to its first `await`, in its slot of the chain. -/
def Op.start (memory : Contents Table Key Value) : Op Table Key Value → JobStart Table Key Value
  | put table key value => .write (.putRecord table key value) .done
  | delete table key =>
    if (memory.records table key).isNone then .settle (.deleted false)
    else .write (.deleteRecord table key) (.deleted true)
  | update table key fn =>
    match memory.records table key with
    | none => .settle .missingKey
    | some current =>
      match fn current with
      | none => .settle .transform
      | some next => .write (.putRecord table key next) (.updated next)
  | set value => .write (.setGlobal value) .done

/-! ## The chain -/

inductive LinkStage (Table Key Value : Type) where
  /-- The link before has not settled. -/
  | waiting
  /-- The backend has the write. -/
  | writing (write : Write Table Key Value) (outcome : Outcome Value)
  /-- The backend has committed; the job has not resumed. -/
  | landed (write : Write Table Key Value) (outcome : Outcome Value)
  | settled (outcome : Outcome Value)

/-- One link of the promise chain. -/
structure Link (Table Key Value : Type) where
  op : Op Table Key Value
  stage : LinkStage Table Key Value

def LinkStage.isSettled : LinkStage Table Key Value → Bool
  | settled _ => true
  | _ => false

/-- `runClose` -/
inductive Closing where
  | notAsked
  /-- The chain is awaited, as it was when `close` was called. -/
  | draining (tail : ℕ)
  /-- `unit.close()` is awaited. -/
  | releasing
  /-- The unit is released, and the name is free. -/
  | released
  /-- The unit has refused to close. -/
  | failed
deriving DecidableEq

/-- An announced change, with what memory held in its place. -/
structure Emission (Table Key Value : Type) where
  change : DomainChanged Table Key Value
  inMemory : Option Value

/-- What memory holds where a change has happened. -/
def Contents.at (memory : Contents Table Key Value) :
    DomainChanged Table Key Value → Option Value
  | .put table key _ => memory.records table key
  | .deleted table key => memory.records table key
  | .global _ => some memory.global

/-- An open domain and its unit. -/
structure DomainState (Table Key Value : Type) where
  /-- The `initial` of the spec's global. -/
  initial : Value
  memory : Contents Table Key Value
  medium : Medium Table Key Value
  /-- The links of the chain, in the order in which they were chained. -/
  links : List (Link Table Key Value)
  /-- The changes that were announced. -/
  emitted : List (Emission Table Key Value)
  disposing : Bool
  closing : Closing
  /-- Whether the facility holds the name. -/
  reserved : Bool

namespace DomainState

/-- The promise that link `i` is chained to has settled. -/
def isNext (s : DomainState Table Key Value) : ℕ → Bool
  | 0 => true
  | i + 1 => (s.links[i]?).any (·.stage.isSettled)

/-- Set the stage of a link. -/
def setStage (s : DomainState Table Key Value) (i : ℕ) (stage : LinkStage Table Key Value) :
    DomainState Table Key Value :=
  { s with links := s.links.modify i fun link ↦ { link with stage := stage } }

/-- `enqueue`: the link, or the rejection. -/
def enqueue (s : DomainState Table Key Value) (op : Op Table Key Value) :
    DomainState Table Key Value × Option (Outcome Value) :=
  if s.disposing then (s, some .closed)
  else ({ s with links := s.links ++ [⟨op, .waiting⟩] }, none)

/-- The job of a link begins. -/
def begin (s : DomainState Table Key Value) (i : ℕ) : DomainState Table Key Value :=
  match s.links[i]? with
  | some ⟨op, .waiting⟩ =>
    if s.isNext i then
      match op.start s.memory with
      | .settle outcome => s.setStage i (.settled outcome)
      | .write write outcome => s.setStage i (.writing write outcome)
    else s
  | _ => s

/-- The backend commits a write. -/
def commit (s : DomainState Table Key Value) (i : ℕ) : DomainState Table Key Value :=
  match s.links[i]? with
  | some ⟨_, .writing write outcome⟩ =>
    { s.setStage i (.landed write outcome) with medium := write.onMedium s.medium }
  | _ => s

/-- The backend rejects a write, and leaves the medium as it was. -/
def reject (s : DomainState Table Key Value) (i : ℕ) : DomainState Table Key Value :=
  match s.links[i]? with
  | some ⟨_, .writing _ _⟩ => s.setStage i (.settled .backend)
  | _ => s

/-- The job resumes: memory changes, the change is announced, and the promise settles. What a
listener throws is contained. -/
def resume (s : DomainState Table Key Value) (i : ℕ) : DomainState Table Key Value :=
  match s.links[i]? with
  | some ⟨_, .landed write outcome⟩ =>
    let memory := write.onMemory s.memory
    { s.setStage i (.settled outcome) with
      memory := memory
      emitted := s.emitted ++ [⟨write.changed, memory.at write.changed⟩] }
  | _ => s

/-- `close`; repeated calls share one teardown. -/
def close (s : DomainState Table Key Value) : DomainState Table Key Value :=
  if s.closing = .notAsked then
    { s with disposing := true, closing := .draining s.links.length }
  else s

/-- The awaited chain has settled: the unit is asked to close. -/
def drained (s : DomainState Table Key Value) : DomainState Table Key Value :=
  match s.closing with
  | .draining tail => if s.isNext tail then { s with closing := .releasing } else s
  | _ => s

/-- The unit has closed, or has refused to. -/
def unitClosed (s : DomainState Table Key Value) (ok : Bool) : DomainState Table Key Value :=
  match s.closing with
  | .releasing =>
    if ok then { s with closing := .released, reserved := false } else { s with closing := .failed }
  | _ => s

end DomainState

/-- What happens next. -/
inductive DomainAction (Table Key Value : Type) where
  | call (op : Op Table Key Value)
  | begin (i : ℕ)
  | commit (i : ℕ)
  | reject (i : ℕ)
  | resume (i : ℕ)
  | close
  | drained
  | unitClosed (ok : Bool)

namespace DomainState

def step (s : DomainState Table Key Value) :
    DomainAction Table Key Value → DomainState Table Key Value
  | .call op => (s.enqueue op).1
  | .begin i => s.begin i
  | .commit i => s.commit i
  | .reject i => s.reject i
  | .resume i => s.resume i
  | .close => s.close
  | .drained => s.drained
  | .unitClosed ok => s.unitClosed ok

def run (s : DomainState Table Key Value) (actions : List (DomainAction Table Key Value)) :
    DomainState Table Key Value :=
  actions.foldl step s

/-- A domain that has just been opened. -/
structure Opened (s : DomainState Table Key Value) : Prop where
  memory : s.memory = s.medium.served s.initial
  links : s.links = []
  emitted : s.emitted = []
  disposing : s.disposing = false
  closing : s.closing = .notAsked
  reserved : s.reserved = true

/-- A job awaits the backend, or has yet to act on its answer. -/
def InFlight (s : DomainState Table Key Value) : Prop :=
  ∃ link ∈ s.links, ∃ write outcome,
    link.stage = .writing write outcome ∨ link.stage = .landed write outcome

end DomainState

/-!
## Runs of a storage domain

A domain is a serial store: its settled links are the calls in order, each carried out on what the
one before it has left, with the backend's verdicts. At most one link is in progress behind them, and
everything behind that one waits.
-/

/-! ## The serial store -/

/-- What a serial store has come to. -/
structure SerialState (Table Key Value : Type) where
  memory : Contents Table Key Value
  /-- The calls that were carried out, settled. -/
  links : List (Link Table Key Value)
  emitted : List (Emission Table Key Value)

/-- One call at a time, with the verdict that the backend gives on its write. -/
def SerialState.call (state : SerialState Table Key Value) (op : Op Table Key Value)
    (commits : Bool) : SerialState Table Key Value :=
  match op.start state.memory with
  | .settle outcome => { state with links := state.links ++ [⟨op, .settled outcome⟩] }
  | .write write outcome =>
    if commits then
      let memory := write.onMemory state.memory
      { memory := memory
        links := state.links ++ [⟨op, .settled outcome⟩]
        emitted := state.emitted ++ [⟨write.changed, memory.at write.changed⟩] }
    else { state with links := state.links ++ [⟨op, .settled .backend⟩] }

/-- Several calls, one after the other. -/
def serialRun (start : Contents Table Key Value) (calls : List (Op Table Key Value × Bool)) :
    SerialState Table Key Value :=
  calls.foldl (fun state call ↦ state.call call.1 call.2) ⟨start, [], []⟩

theorem serialRun_concat (start : Contents Table Key Value)
    (calls : List (Op Table Key Value × Bool)) (op : Op Table Key Value) (commits : Bool) :
    serialRun start (calls ++ [(op, commits)]) = (serialRun start calls).call op commits := by
  rw [serialRun, List.foldl_concat]
  rfl

theorem SerialState.links_call (state : SerialState Table Key Value) (op : Op Table Key Value)
    (commits : Bool) :
    ∃ outcome, (state.call op commits).links = state.links ++ [⟨op, .settled outcome⟩] := by
  rw [call]
  split
  · exact ⟨_, rfl⟩
  · split_ifs
    · exact ⟨_, rfl⟩
    · exact ⟨_, rfl⟩

/-- A serial store settles the calls in their order. -/
theorem links_serialRun (start : Contents Table Key Value)
    (calls : List (Op Table Key Value × Bool)) :
    (serialRun start calls).links.map (·.op) = calls.map Prod.fst ∧
      ∀ link ∈ (serialRun start calls).links, link.stage.isSettled = true := by
  induction calls using List.reverseRecOn with
  | nil => exact ⟨rfl, by simp [serialRun]⟩
  | append_singleton calls call ih =>
    obtain ⟨op, commits⟩ := call
    obtain ⟨outcome, hlinks⟩ := (serialRun start calls).links_call op commits
    rw [serialRun_concat, hlinks]
    constructor
    · rw [List.map_append, List.map_append, ih.1]
      rfl
    · intro link hlink
      rcases List.mem_append.mp hlink with hold | hnew
      · exact ih.2 link hold
      · rw [List.mem_singleton.mp hnew]
        rfl

theorem length_links_serialRun (start : Contents Table Key Value)
    (calls : List (Op Table Key Value × Bool)) :
    (serialRun start calls).links.length = calls.length := by
  have hlength := congrArg List.length (links_serialRun start calls).1
  rwa [List.length_map, List.length_map] at hlength

/-! ## Memory and medium -/

/-- A committed write changes the medium as its job changes memory. -/
theorem served_onMedium (medium : Medium Table Key Value) (initial : Value)
    (write : Write Table Key Value) :
    (write.onMedium medium).served initial = write.onMemory (medium.served initial) := by
  rcases write with ⟨table, key, value⟩ | ⟨table, key⟩ | value
  · rfl
  · rfl
  · rfl

theorem modify_append_cons {α : Type*} (front : List α) (a : α) (back : List α) (f : α → α) :
    (front ++ a :: back).modify front.length f = front ++ f a :: back := by
  induction front with
  | nil => rfl
  | cons b front ih =>
    rw [List.cons_append, List.length_cons, List.modify_succ_cons, ih]
    rfl

/-! ## The invariant -/

/-- The first link that has not settled: where its job stands against memory and medium. -/
def Progress (s : DomainState Table Key Value) (link : Link Table Key Value) : Prop :=
  match link.stage with
  | .waiting => s.medium.served s.initial = s.memory
  | .writing write outcome =>
    link.op.start s.memory = .write write outcome ∧ s.medium.served s.initial = s.memory
  | .landed write outcome =>
    link.op.start s.memory = .write write outcome ∧
      s.medium.served s.initial = write.onMemory s.memory
  | .settled _ => False

/-- What holds in every state of a run: a serial store has carried out some calls, and `rest` are the
links behind them. -/
structure Serial (start : Contents Table Key Value) (s : DomainState Table Key Value)
    (calls : List (Op Table Key Value × Bool)) (rest : List (Link Table Key Value)) : Prop where
  links : s.links = (serialRun start calls).links ++ rest
  memory : s.memory = (serialRun start calls).memory
  emitted : s.emitted = (serialRun start calls).emitted
  idle : rest = [] → s.medium.served s.initial = s.memory
  head : ∀ link ∈ rest.head?, Progress s link
  tail : ∀ link ∈ rest.tail, link.stage = .waiting

section Steps

variable {start : Contents Table Key Value} {s : DomainState Table Key Value}
  {calls : List (Op Table Key Value × Bool)} {rest : List (Link Table Key Value)}

theorem Serial.not_settled (h : Serial start s calls rest) {link : Link Table Key Value}
    (hmem : link ∈ rest) : link.stage.isSettled = false := by
  rcases rest with _ | ⟨first, others⟩
  · simp at hmem
  · rcases List.mem_cons.mp hmem with rfl | hmem
    · have hprogress := h.head _ rfl
      rw [Progress] at hprogress
      rcases hstage : link.stage with _ | _ | _ | _
      · rfl
      · rfl
      · rfl
      · rw [hstage] at hprogress
        exact hprogress.elim
    · rw [h.tail link hmem]
      rfl

/-- A link that has not settled and whose turn it is, is the first behind the settled ones. -/
theorem Serial.current (h : Serial start s calls rest) {i : ℕ} {link : Link Table Key Value}
    (hlink : s.links[i]? = some link) (hstage : link.stage.isSettled = false)
    (hturn : s.isNext i = true ∨ link.stage ≠ .waiting) :
    i = calls.length ∧ ∃ others, rest = link :: others := by
  have hlength := length_links_serialRun start calls
  rcases Nat.lt_or_ge i calls.length with hlt | hge
  · -- The settled links are settled.
    rw [h.links, List.getElem?_append_left (by omega)] at hlink
    have hsettled := (links_serialRun start calls).2 link (List.mem_of_getElem? hlink)
    rw [hstage] at hsettled
    simp at hsettled
  · rw [h.links, List.getElem?_append_right (by omega), hlength] at hlink
    rcases Nat.eq_or_lt_of_le hge with heq | hgt
    · rw [← heq, Nat.sub_self] at hlink
      rcases rest with _ | ⟨first, others⟩
      · simp at hlink
      · obtain rfl := Option.some.inj hlink
        exact ⟨heq.symm, others, rfl⟩
    · -- Behind it every link waits for one that has not settled.
      obtain ⟨k, hk⟩ : ∃ k, i - calls.length = k + 1 := ⟨i - calls.length - 1, by omega⟩
      rw [hk] at hlink
      have hwaiting : link.stage = .waiting := by
        apply h.tail
        rw [← List.drop_one]
        have hdrop : (rest.drop 1)[k]? = some link := by
          rw [List.getElem?_drop, Nat.add_comm]
          exact hlink
        exact List.mem_of_getElem? hdrop
      rcases hturn with hturn | hne
      · obtain ⟨j, rfl⟩ : ∃ j, i = j + 1 := ⟨i - 1, by omega⟩
        rw [DomainState.isNext, h.links, List.getElem?_append_right (by omega), hlength] at hturn
        obtain ⟨before, hbefore, hsettled⟩ := (Option.any_eq_true _ _).mp hturn
        rw [h.not_settled (List.mem_of_getElem? hbefore)] at hsettled
        simp at hsettled
      · exact absurd hwaiting hne

/-- The stage of the first unsettled link. -/
theorem Serial.setStage (h : Serial start s calls rest) {link : Link Table Key Value}
    {others : List (Link Table Key Value)} (hrest : rest = link :: others)
    (stage : LinkStage Table Key Value) :
    (s.setStage calls.length stage).links
      = (serialRun start calls).links ++ ⟨link.op, stage⟩ :: others := by
  rw [DomainState.setStage]
  simp only
  rw [h.links, hrest, ← length_links_serialRun start calls, modify_append_cons]

/-- The current link settles: a serial store has carried out one more call. -/
theorem Serial.settle (h : Serial start s calls rest) {link : Link Table Key Value}
    {others : List (Link Table Key Value)} (hrest : rest = link :: others)
    {s' : DomainState Table Key Value} {outcome : Outcome Value} (commits : Bool)
    (hcall : (serialRun start calls).call link.op commits
      = ⟨s'.memory, (serialRun start calls).links ++ [⟨link.op, .settled outcome⟩], s'.emitted⟩)
    (hlinks : s'.links = (s.setStage calls.length (.settled outcome)).links)
    (hmedium : s'.medium.served s'.initial = s'.memory) :
    Serial start s' (calls ++ [(link.op, commits)]) others := by
  have hwaiting : ∀ other ∈ others, other.stage = .waiting := by
    intro other hother
    apply h.tail
    rw [hrest]
    exact hother
  refine ⟨?_, ?_, ?_, fun _ ↦ hmedium, ?_, ?_⟩
  · rw [hlinks, h.setStage hrest, serialRun_concat, hcall]
    simp
  · rw [serialRun_concat, hcall]
  · rw [serialRun_concat, hcall]
  · intro other hother
    rw [Progress, hwaiting other (List.mem_of_mem_head? hother)]
    exact hmedium
  · exact fun other hother ↦ hwaiting other (List.mem_of_mem_tail hother)

/-- The current link moves on. -/
theorem Serial.move (h : Serial start s calls rest) {link : Link Table Key Value}
    {others : List (Link Table Key Value)} (hrest : rest = link :: others)
    {s' : DomainState Table Key Value} {stage : LinkStage Table Key Value}
    (hmemory : s'.memory = s.memory) (hemitted : s'.emitted = s.emitted)
    (hlinks : s'.links = (s.setStage calls.length stage).links)
    (hprogress : Progress s' ⟨link.op, stage⟩) :
    Serial start s' calls (⟨link.op, stage⟩ :: others) := by
  refine ⟨by rw [hlinks, h.setStage hrest], by rw [hmemory, h.memory], by rw [hemitted, h.emitted],
    by simp, ?_, ?_⟩
  · intro other hother
    obtain rfl := Option.some.inj hother
    exact hprogress
  · intro other hother
    apply h.tail
    rw [hrest]
    exact hother

/-- Nothing of the chain, the memory or the medium has changed. -/
theorem Serial.same (h : Serial start s calls rest) {s' : DomainState Table Key Value}
    (hlinks : s'.links = s.links) (hmemory : s'.memory = s.memory) (hmedium : s'.medium = s.medium)
    (hinitial : s'.initial = s.initial) (hemitted : s'.emitted = s.emitted) :
    Serial start s' calls rest := by
  refine ⟨by rw [hlinks, h.links], by rw [hmemory, h.memory], by rw [hemitted, h.emitted], ?_, ?_,
    h.tail⟩
  · rw [hmemory, hmedium, hinitial]
    exact h.idle
  · intro link hlink
    have hprogress := h.head link hlink
    rw [Progress] at hprogress ⊢
    rw [hmemory, hmedium, hinitial]
    exact hprogress

theorem Serial.enqueue (h : Serial start s calls rest) (op : Op Table Key Value) :
    ∃ rest', Serial start (s.enqueue op).1 calls rest' := by
  rw [DomainState.enqueue]
  split_ifs
  · exact ⟨rest, h⟩
  · refine ⟨rest ++ [⟨op, .waiting⟩], ?_, h.memory, h.emitted, by simp, ?_, ?_⟩
    · simp only [h.links, List.append_assoc]
    · rcases hrest : rest with _ | ⟨first, others⟩
      · intro link hlink
        obtain rfl := Option.some.inj hlink
        exact h.idle hrest
      · intro link hlink
        obtain rfl := Option.some.inj hlink
        have hprogress := h.head first (by rw [hrest]; rfl)
        rw [Progress] at hprogress ⊢
        exact hprogress
    · rcases hrest : rest with _ | ⟨first, others⟩
      · simp
      · intro link hlink
        rw [List.cons_append, List.tail_cons, List.mem_append, List.mem_singleton] at hlink
        rcases hlink with hold | rfl
        · apply h.tail
          rw [hrest]
          exact hold
        · rfl

theorem Serial.begin (h : Serial start s calls rest) (i : ℕ) :
    ∃ calls' rest', Serial start (s.begin i) calls' rest' := by
  unfold DomainState.begin
  split
  case h_1 op hlink =>
    split_ifs with hturn
    · obtain ⟨rfl, others, hrest⟩ := h.current hlink rfl (Or.inl hturn)
      have hprogress : s.medium.served s.initial = s.memory := by
        have hhead := h.head ⟨op, .waiting⟩ (by rw [hrest]; rfl)
        rwa [Progress] at hhead
      split
      case h_1 outcome hstart =>
        refine ⟨_, _, h.settle hrest true ?_ rfl hprogress⟩
        rw [SerialState.call, ← h.memory, hstart, ← h.emitted]
        rfl
      case h_2 write outcome hstart =>
        exact ⟨_, _, h.move hrest rfl rfl rfl ⟨hstart, hprogress⟩⟩
    · exact ⟨calls, rest, h⟩
  case h_2 => exact ⟨calls, rest, h⟩

theorem Serial.commit (h : Serial start s calls rest) (i : ℕ) :
    ∃ calls' rest', Serial start (s.commit i) calls' rest' := by
  unfold DomainState.commit
  split
  case h_1 op write outcome hlink =>
    obtain ⟨rfl, others, hrest⟩ := h.current hlink rfl (Or.inr (by simp))
    have hhead := h.head _ (by rw [hrest]; rfl)
    rw [Progress] at hhead
    obtain ⟨hstart, hmedium⟩ := hhead
    refine ⟨calls, _, h.move hrest rfl rfl rfl ⟨hstart, ?_⟩⟩
    have hserved := served_onMedium s.medium s.initial write
    rw [hmedium] at hserved
    exact hserved
  case h_2 => exact ⟨calls, rest, h⟩

theorem Serial.reject (h : Serial start s calls rest) (i : ℕ) :
    ∃ calls' rest', Serial start (s.reject i) calls' rest' := by
  unfold DomainState.reject
  split
  case h_1 op write outcome hlink =>
    obtain ⟨rfl, others, hrest⟩ := h.current hlink rfl (Or.inr (by simp))
    have hhead := h.head _ (by rw [hrest]; rfl)
    rw [Progress] at hhead
    obtain ⟨hstart, hmedium⟩ := hhead
    refine ⟨_, _, h.settle hrest false ?_ rfl hmedium⟩
    rw [SerialState.call, ← h.memory, hstart, ← h.emitted]
    rfl
  case h_2 => exact ⟨calls, rest, h⟩

theorem Serial.resume (h : Serial start s calls rest) (i : ℕ) :
    ∃ calls' rest', Serial start (s.resume i) calls' rest' := by
  unfold DomainState.resume
  split
  case h_1 op write outcome hlink =>
    obtain ⟨rfl, others, hrest⟩ := h.current hlink rfl (Or.inr (by simp))
    have hhead := h.head _ (by rw [hrest]; rfl)
    rw [Progress] at hhead
    obtain ⟨hstart, hmedium⟩ := hhead
    refine ⟨_, _, h.settle hrest true ?_ rfl hmedium⟩
    rw [SerialState.call, ← h.memory, hstart, ← h.emitted]
    rfl
  case h_2 => exact ⟨calls, rest, h⟩

end Steps

/-! ## Closing -/

namespace DomainState

/-- The steps of a job keep the calls, and what closing looks at. -/
structure Keeps (s s' : DomainState Table Key Value) : Prop where
  ops : s'.links.map (·.op) = s.links.map (·.op)
  disposing : s'.disposing = s.disposing
  closing : s'.closing = s.closing
  reserved : s'.reserved = s.reserved
  settled : (∀ link ∈ s.links, link.stage.isSettled = true) →
    ∀ link ∈ s'.links, link.stage.isSettled = true

/-- The calls that are accepted: those before `close`. -/
def accepted : List (DomainAction Table Key Value) → List (Op Table Key Value)
  | [] => []
  | .call op :: actions => op :: accepted actions
  | .close :: _ => []
  | _ :: actions => accepted actions

/-- What holds of closing in every state of a run. -/
structure ClosingInv (s : DomainState Table Key Value) : Prop where
  disposing : s.disposing = true ↔ s.closing ≠ .notAsked
  draining : ∀ tail, s.closing = .draining tail → tail = s.links.length
  settled : (s.closing = .releasing ∨ s.closing = .released ∨ s.closing = .failed) →
    ∀ link ∈ s.links, link.stage.isSettled = true
  reserved : s.reserved = false → s.closing = .released

theorem ClosingInv.keeps {s s' : DomainState Table Key Value} (h : s.ClosingInv)
    (hkeeps : Keeps s s') : s'.ClosingInv where
  disposing := by rw [hkeeps.disposing, hkeeps.closing, h.disposing]
  draining tail htail := by
    rw [hkeeps.closing] at htail
    have hlength := congrArg List.length hkeeps.ops
    rw [List.length_map, List.length_map] at hlength
    rw [hlength, h.draining tail htail]
  settled hclosing := by
    rw [hkeeps.closing] at hclosing
    exact hkeeps.settled (h.settled hclosing)
  reserved hreserved := by
    rw [hkeeps.reserved] at hreserved
    rw [hkeeps.closing, h.reserved hreserved]

theorem ClosingInv.enqueue {s : DomainState Table Key Value} (h : s.ClosingInv)
    (op : Op Table Key Value) : (s.enqueue op).1.ClosingInv := by
  rw [DomainState.enqueue]
  split_ifs with hdisposing
  · exact h
  · have hnot : s.closing = .notAsked := by
      by_contra hasked
      exact hdisposing (h.disposing.mpr hasked)
    refine ⟨h.disposing, ?_, ?_, h.reserved⟩
    · intro tail htail
      rw [hnot] at htail
      simp at htail
    · intro hclosing
      rw [hnot] at hclosing
      simp at hclosing

theorem ClosingInv.close {s : DomainState Table Key Value} (h : s.ClosingInv) :
    s.close.ClosingInv := by
  rw [DomainState.close]
  split_ifs with hnot
  · refine ⟨by simp, ?_, by simp, ?_⟩
    · intro tail htail
      simpa using htail.symm
    · intro hreserved
      have hreleased := h.reserved hreserved
      rw [hnot] at hreleased
      simp at hreleased
  · exact h

/-- When the last link of the chain has settled, all have. -/
theorem settled_of_isNext {start : Contents Table Key Value} {s : DomainState Table Key Value}
    {calls : List (Op Table Key Value × Bool)} {rest : List (Link Table Key Value)}
    (h : Serial start s calls rest) (hnext : s.isNext s.links.length = true) :
    ∀ link ∈ s.links, link.stage.isSettled = true := by
  rcases List.eq_nil_or_concat' rest with rfl | ⟨others, last, rfl⟩
  · rw [h.links, List.append_nil]
    exact (links_serialRun start calls).2
  · have hlast := h.not_settled (List.mem_append_right others (List.mem_singleton_self last))
    rw [h.links, ← List.append_assoc, List.length_append, List.length_singleton, isNext, h.links,
      ← List.append_assoc, List.getElem?_concat_length, Option.any_some, hlast] at hnext
    simp at hnext

theorem ClosingInv.drained {start : Contents Table Key Value} {s : DomainState Table Key Value}
    {calls : List (Op Table Key Value × Bool)} {rest : List (Link Table Key Value)}
    (h : s.ClosingInv) (hserial : Serial start s calls rest) : s.drained.ClosingInv := by
  unfold DomainState.drained
  split
  case h_1 tail hclosing =>
    split_ifs with hnext
    · obtain rfl := h.draining tail hclosing
      have hsettled := settled_of_isNext hserial hnext
      refine ⟨?_, by simp, fun _ ↦ hsettled, ?_⟩
      · simp only [ne_eq, reduceCtorEq, not_false_eq_true, iff_true]
        exact h.disposing.mpr (by simp [hclosing])
      · intro hreserved
        have hreleased := h.reserved hreserved
        rw [hclosing] at hreleased
        simp at hreleased
    · exact h
  case h_2 => exact h

theorem ClosingInv.unitClosed {s : DomainState Table Key Value} (h : s.ClosingInv) (ok : Bool) :
    (s.unitClosed ok).ClosingInv := by
  unfold DomainState.unitClosed
  split
  case h_1 hclosing =>
    have hdisposing : s.disposing = true := h.disposing.mpr (by simp [hclosing])
    have hsettled := h.settled (Or.inl hclosing)
    split_ifs
    · exact ⟨by simp [hdisposing], by simp, fun _ ↦ hsettled, by simp⟩
    · refine ⟨by simp [hdisposing], by simp, fun _ ↦ hsettled, fun hreserved ↦ ?_⟩
      have hreleased := h.reserved hreserved
      rw [hclosing] at hreleased
      simp at hreleased
  case h_2 => exact h

/-! ## Runs -/

/-- **A domain is a serial store over its medium**, and closes behind its calls. -/
structure Faithful (start : Contents Table Key Value) (calls : List (Op Table Key Value))
    (s : DomainState Table Key Value) : Prop where
  /-- The calls that were accepted are chained in their order. -/
  ops : s.links.map (·.op) = calls
  serial : ∃ done rest, s.links = (serialRun start done).links ++ rest ∧
    s.memory = (serialRun start done).memory ∧ s.emitted = (serialRun start done).emitted ∧
    (∀ link ∈ rest, link.stage.isSettled = false) ∧ ∀ link ∈ rest.tail, link.stage = .waiting
  medium : ¬ s.InFlight → s.medium.served s.initial = s.memory
  inMemory : ∀ emission ∈ s.emitted, emission.inMemory = emission.change.value
  settled : s.closing = .releasing ∨ s.closing = .released ∨ s.closing = .failed →
    ∀ link ∈ s.links, link.stage.isSettled = true
  refuses : s.closing ≠ .notAsked → ∀ op, s.enqueue op = (s, some .closed)
  reserved : s.reserved = false → s.closing = .released

theorem Opened.serial {s : DomainState Table Key Value} (h : s.Opened) :
    Serial s.memory s [] [] := by
  refine ⟨by rw [h.links]; rfl, rfl, by rw [h.emitted]; rfl, fun _ ↦ h.memory.symm, ?_, ?_⟩
  · simp
  · simp

end DomainState

end XxAgent.Storage
