import XxAgent.Ecma.Json
import XxAgent.Ecma.OrderedMap
import XxAgent.Log.FoldCache

/-!
# Session projections

A unit folds the events of a session into a state and shows a view of it. Checkpoints keep the
states of all units, each with the seq of the last event that it covers; restoring carries them on
over a part of the stored log, and refuses when that part cannot be enough.
-/

namespace XxAgent

open Ecma

/-- A committed event; what it says is for the units to interpret. -/
structure CommittedEvent (Data : Type) where
  seq : ℕ
  data : Data

variable {Data : Type}

/-! ## Units -/

/-- One domain's unit, under the key where it is registered. -/
structure ProjectionDefinition (Data : Type) where
  /-- State for the empty log. -/
  init : Json
  /-- Previous state and one committed event to next state. -/
  apply : Json → CommittedEvent Data → Json
  /-- Whether `apply` returns the reference it was given. -/
  unchanged : Json → CommittedEvent Data → Bool
  /-- State to wire payload. -/
  view : Json → Json
  /-- `schema.parse`; `none` is a payload it refuses. -/
  parse : Json → Option Json
  stateVersion : ℕ
  apply_unchanged : ∀ state event, unchanged state event = true → apply state event = state
  /-- The schema describes what the unit shows. -/
  parse_view : ∀ events : List (CommittedEvent Data),
    parse (view (events.foldl apply init)) = some (view (events.foldl apply init))

/-- The state of a unit that covers these events. -/
def ProjectionDefinition.fold (unit : ProjectionDefinition Data)
    (events : List (CommittedEvent Data)) : Json :=
  events.foldl unit.apply unit.init

abbrev ProjectionKey := JsString

/-- The registered units. -/
abbrev ProjectionUnits (Data : Type) := OrderedMap ProjectionKey (ProjectionDefinition Data)

/-! ## Checkpoints -/

/-- One unit's checkpoint. -/
structure ProjectionCheckpointRow where
  /-- The unit's `stateVersion` at fold time. -/
  ver : ℕ
  /-- Seq of the last event folded into `val`; -1 for the empty log. -/
  seq : ℤ
  val : Json

/-- The row is a fold of these events through its own seq. -/
structure ProjectionCheckpointRow.Covers (row : ProjectionCheckpointRow)
    (unit : ProjectionDefinition Data) (events : List (CommittedEvent Data)) : Prop where
  ver : row.ver = unit.stateVersion
  ge : -1 ≤ row.seq
  lt : row.seq < events.length
  val : row.val = Watermark.foldTo unit.apply unit.init events
    (row.seq + 1).toNat

abbrev ProjectionCheckpoint := OrderedMap ProjectionKey ProjectionCheckpointRow

structure ProjectionSnapshot where
  /-- Seq of the last event the values reflect; -1 for an empty log. -/
  asOfSeq : ℤ
  values : OrderedMap ProjectionKey Json

/-- Why a restore throws. -/
inductive RestoreFault where
  /-- `cannot restore from seq`: the events that are needed were not supplied. -/
  | cannotRestore (key : ProjectionKey) (baseSeq : ℕ)
  /-- The schema refuses a value. -/
  | schema (key : ProjectionKey)
  /-- The record was made for another log. -/
  | unrelated
  /-- No log is stored. -/
  | notFound

/-- The first event that a unit needs beyond its row. -/
def needs (unit : ProjectionDefinition Data) (row : Option ProjectionCheckpointRow) : ℕ :=
  match row with
  | some row => if row.ver = unit.stateVersion then (row.seq + 1).toNat else 0
  | none => 0

/-- `restoreFloor` -/
def restoreFloor (units : ProjectionUnits Data) (checkpoint : ProjectionCheckpoint) : Option ℕ :=
  let floor := units.entries.foldl (fun floor entry ↦
    let need := needs entry.2 (checkpoint.get? entry.1)
    some (match floor with
      | none => need
      | some floor => min floor need)) none
  floor.map (· - 1)

/-- The row of a unit, if it can be carried on over the supplied events. -/
def usableRow (unit : ProjectionDefinition Data) (row : Option ProjectionCheckpointRow)
    (baseSeq : ℕ) (endSeq : ℤ) : Option ProjectionCheckpointRow :=
  row.filter fun row ↦
    row.ver = unit.stateVersion ∧ (baseSeq : ℤ) - 1 ≤ row.seq ∧ row.seq ≤ endSeq

/-- Carry a state on over the events after a seq. -/
def ProjectionDefinition.foldAfter (unit : ProjectionDefinition Data) (after : ℤ) (state : Json)
    (events : List (CommittedEvent Data)) : Json :=
  events.foldl (fun state event ↦ if after < event.seq then unit.apply state event else state) state

/-- The round of `restore` for one unit. -/
def restoreUnit (key : ProjectionKey) (unit : ProjectionDefinition Data)
    (row : Option ProjectionCheckpointRow) (events : List (CommittedEvent Data)) (baseSeq : ℕ)
    (endSeq : ℤ) : Except RestoreFault (Json × ProjectionCheckpointRow) :=
  let usable := usableRow unit row baseSeq endSeq
  if usable.isNone ∧ 0 < baseSeq then .error (.cannotRestore key baseSeq)
  else
    let after : ℤ := usable.elim (baseSeq - 1) (·.seq)
    let state := unit.foldAfter after (usable.elim unit.init (·.val)) events
    match unit.parse (unit.view state) with
    | none => .error (.schema key)
    | some value => .ok (value, ⟨unit.stateVersion, endSeq, state⟩)

/-- The loop of `restore`, over the units that are left. -/
def restoreUnits (checkpoint : ProjectionCheckpoint) (events : List (CommittedEvent Data))
    (baseSeq : ℕ) (endSeq : ℤ) :
    List (ProjectionKey × ProjectionDefinition Data) →
      OrderedMap ProjectionKey Json × ProjectionCheckpoint →
        Except RestoreFault (OrderedMap ProjectionKey Json × ProjectionCheckpoint)
  | [], done => .ok done
  | (key, unit) :: rest, done =>
    match restoreUnit key unit (checkpoint.get? key) events baseSeq endSeq with
    | .error fault => .error fault
    | .ok (value, row) =>
      restoreUnits checkpoint events baseSeq endSeq rest (done.1.set key value, done.2.set key row)

/-- The seq of the last supplied event. -/
def endSeqOf (events : List (CommittedEvent Data)) (baseSeq : ℕ) : ℤ :=
  match events.getLast? with
  | some event => event.seq
  | none => baseSeq - 1

/-- `restore` -/
def restore (units : ProjectionUnits Data) (checkpoint : ProjectionCheckpoint)
    (events : List (CommittedEvent Data)) (baseSeq : ℕ) :
    Except RestoreFault (ProjectionSnapshot × ProjectionCheckpoint) :=
  let endSeq := endSeqOf events baseSeq
  (restoreUnits checkpoint events baseSeq endSeq units.entries (.empty, .empty)).map
    fun done ↦ (⟨endSeq, done.1⟩, done.2)

/-! ## The floor -/

section Floor

variable {units : ProjectionUnits Data} {checkpoint : ProjectionCheckpoint}

private theorem floor_foldl (entries : List (ProjectionKey × ProjectionDefinition Data))
    (floor : Option ℕ) {least : ℕ}
    (h : entries.foldl (fun floor entry ↦
      let need := needs entry.2 (checkpoint.get? entry.1)
      some (match floor with
        | none => need
        | some floor => min floor need)) floor = some least) :
    (∀ bound ∈ floor, least ≤ bound) ∧
      ∀ entry ∈ entries, least ≤ needs entry.2 (checkpoint.get? entry.1) := by
  induction entries generalizing floor with
  | nil =>
    rw [List.foldl_nil] at h
    refine ⟨fun bound hbound ↦ ?_, by simp⟩
    rw [h] at hbound
    exact (Option.some.inj hbound).le
  | cons entry entries ih =>
    obtain ⟨hfirst, hrest⟩ := ih _ h
    have hle := hfirst _ rfl
    rcases floor with _ | floor
    · refine ⟨by simp, fun other hother ↦ ?_⟩
      rcases List.mem_cons.mp hother with rfl | hother
      · exact hle
      · exact hrest other hother
    · refine ⟨fun bound hbound ↦ ?_, fun other hother ↦ ?_⟩
      · rw [← Option.some.inj hbound]
        exact hle.trans (min_le_left _ _)
      · rcases List.mem_cons.mp hother with rfl | hother
        · exact hle.trans (min_le_right _ _)
        · exact hrest other hother

/-- The floor lies below everything that a unit needs. -/
theorem restoreFloor_le {floor : ℕ} (h : restoreFloor units checkpoint = some floor)
    {entry : ProjectionKey × ProjectionDefinition Data} (hentry : entry ∈ units.entries) :
    floor ≤ needs entry.2 (checkpoint.get? entry.1) - 1 := by
  obtain ⟨least, hleast, rfl⟩ := Option.map_eq_some_iff.mp h
  exact Nat.sub_le_sub_right ((floor_foldl units.entries none hleast).2 entry hentry) 1

private theorem isSome_foldl {α β : Type*} (f : Option α → β → α) (entries : List β)
    (floor : Option α) (h : floor.isSome ∨ entries ≠ []) :
    (entries.foldl (fun floor entry ↦ some (f floor entry)) floor).isSome := by
  induction entries generalizing floor with
  | nil => exact h.resolve_right (by simp)
  | cons entry entries ih => exact ih _ (Or.inl rfl)

/-- Without a floor there is nothing to restore. -/
theorem restoreFloor_eq_none (h : restoreFloor units checkpoint = none) : units.entries = [] := by
  by_contra hunits
  have hsome := isSome_foldl (fun floor entry ↦
    let need := needs entry.2 (checkpoint.get? entry.1)
    match floor with
    | none => need
    | some floor => min floor need) units.entries none (Or.inr hunits)
  rw [Option.map_eq_none_iff.mp h] at hsome
  simp at hsome

end Floor

/-! ## All units -/

section Units

variable {checkpoint : ProjectionCheckpoint} {events : List (CommittedEvent Data)} {baseSeq : ℕ}
  {endSeq : ℤ}

/-- Units that are all restored fill the records, in their order. -/
theorem restoreUnits_eq_ok
    (outcome : ProjectionKey × ProjectionDefinition Data → Json × ProjectionCheckpointRow)
    {entries : List (ProjectionKey × ProjectionDefinition Data)}
    (hall : ∀ entry ∈ entries, restoreUnit entry.1 entry.2 (checkpoint.get? entry.1) events baseSeq
      endSeq = .ok (outcome entry))
    (hnodup : (entries.map Prod.fst).Nodup)
    (done : OrderedMap ProjectionKey Json × ProjectionCheckpoint)
    (hvalues : ∀ entry ∈ entries, done.1.get? entry.1 = none)
    (hrows : ∀ entry ∈ entries, done.2.get? entry.1 = none) :
    ∃ done', restoreUnits checkpoint events baseSeq endSeq entries done = .ok done' ∧
      done'.1.entries = done.1.entries ++ entries.map (fun entry ↦ (entry.1, (outcome entry).1)) ∧
      done'.2.entries = done.2.entries ++ entries.map (fun entry ↦ (entry.1, (outcome entry).2)) := by
  induction entries generalizing done with
  | nil => exact ⟨done, rfl, by simp, by simp⟩
  | cons entry entries ih =>
    obtain ⟨key, unit⟩ := entry
    rw [List.map_cons, List.nodup_cons] at hnodup
    have hne : ∀ other ∈ entries, other.1 ≠ key := by
      intro other hother hkey
      exact hnodup.1 (List.mem_map.mpr ⟨other, hother, hkey⟩)
    have hhead := hall (key, unit) List.mem_cons_self
    obtain ⟨done', hdone', hvalues', hrows'⟩ := ih
      (fun other hother ↦ hall other (List.mem_cons_of_mem _ hother)) hnodup.2
      (done.1.set key (outcome (key, unit)).1, done.2.set key (outcome (key, unit)).2)
      (fun other hother ↦ by
        rw [OrderedMap.get?_set, if_neg (hne other hother)]
        exact hvalues other (List.mem_cons_of_mem _ hother))
      (fun other hother ↦ by
        rw [OrderedMap.get?_set, if_neg (hne other hother)]
        exact hrows other (List.mem_cons_of_mem _ hother))
    refine ⟨done', ?_, ?_, ?_⟩
    · rw [restoreUnits, hhead]
      exact hdone'
    · rw [hvalues', OrderedMap.entries_set_of_get?_eq_none (hvalues _ List.mem_cons_self)]
      simp
    · rw [hrows', OrderedMap.entries_set_of_get?_eq_none (hrows _ List.mem_cons_self)]
      simp

/-- One unit that is refused is enough. -/
theorem restoreUnits_eq_error {entries : List (ProjectionKey × ProjectionDefinition Data)}
    {entry : ProjectionKey × ProjectionDefinition Data} {fault : RestoreFault}
    (hentry : entry ∈ entries)
    (hfault : restoreUnit entry.1 entry.2 (checkpoint.get? entry.1) events baseSeq endSeq
      = .error fault)
    (done : OrderedMap ProjectionKey Json × ProjectionCheckpoint) :
    ∃ fault', restoreUnits checkpoint events baseSeq endSeq entries done = .error fault' := by
  induction entries generalizing done with
  | nil => simp at hentry
  | cons head entries ih =>
    obtain ⟨key, unit⟩ := head
    rw [restoreUnits]
    rcases List.mem_cons.mp hentry with rfl | hentry
    · rw [hfault]
      exact ⟨fault, rfl⟩
    · rcases restoreUnit key unit (checkpoint.get? key) events baseSeq endSeq with other | outcome
      · exact ⟨other, rfl⟩
      · exact ih hentry _

end Units

end XxAgent
