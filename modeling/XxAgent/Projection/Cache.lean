import XxAgent.Projection.Registry
import XxAgent.Session.Event

/-!
# The projection cache

A session that is not live is read through its checkpoint: the rows are carried on over the end of
the stored log, and written back. A record that was made for another session, or that covers events
which a crash took from the log, is given up for a fold of the whole log.
-/

namespace XxAgent

open Ecma Watermark

variable {Data : Type}

/-! ## Records -/

/-- The header fields that distinguish one session from another under the same id. -/
structure CheckpointIdentity where
  createdAt : ℕ
  cwd : Option JsString
deriving DecidableEq

structure CheckpointRecord where
  identity : CheckpointIdentity
  rows : ProjectionCheckpoint

/-- `identityOf` -/
def identityOf (header : SessionHeader) : CheckpointIdentity := ⟨header.createdAt.val, header.cwd⟩

/-- A stored session: its header, and its events numbered from zero. -/
structure PersistedLog (Data : Type) where
  header : SessionHeader
  events : List (CommittedEvent Data)
  numbered : events.map (·.seq) = List.range events.length

/-- What persistence returns from `readFrom`. -/
def PersistedLog.readFrom (log : PersistedLog Data) (fromSeq : ℕ) : List (CommittedEvent Data) :=
  log.events.filter fun event ↦ fromSeq ≤ event.seq

/-! ## Cold reads -/

/-- A cold read: what it returns, what it hands to the table, and the seqs it has read from. -/
structure ColdRead where
  snapshot : ProjectionSnapshot
  writeBack : Option CheckpointRecord
  reads : List ℕ

/-- The end of `coldSnapshot` behind the read from the floor. -/
def coldRestore (units : ProjectionUnits Data) (record : Option CheckpointRecord)
    (log : PersistedLog Data) (floor : ℕ) : Except RestoreFault ColdRead :=
  let cached := record.elim .empty (·.rows)
  let related := record.all fun record ↦ record.identity = identityOf log.header
  let first := if related then restore units cached (log.readFrom floor) floor
    else .error .unrelated
  match first with
  | .ok (snapshot, checkpoint) =>
    .ok ⟨snapshot, some ⟨identityOf log.header, checkpoint⟩, [floor]⟩
  | .error _ =>
    -- The full log is a fresh read, and no row seeds the fold.
    (restore units .empty (log.readFrom 0) 0).map fun (snapshot, checkpoint) ↦
      ⟨snapshot, some ⟨identityOf log.header, checkpoint⟩, [floor, 0]⟩

/-- `coldSnapshot`, over the record of a session and its stored log. -/
def coldSnapshot (units : ProjectionUnits Data) (record : Option CheckpointRecord)
    (log : Option (PersistedLog Data)) : Except RestoreFault ColdRead :=
  match log with
  | none => .error .notFound
  | some log =>
    match restoreFloor units (record.elim .empty (·.rows)) with
    | none => .ok ⟨⟨endSeqOf (log.readFrom 0) 0, .empty⟩, none, [0]⟩
    | some floor => coldRestore units record log floor

/-! ## Reading a numbered log -/

theorem filter_seq_ge {events : List (CommittedEvent Data)} {first : ℕ}
    (h : events.map (·.seq) = List.range' first events.length) (skip : ℕ) :
    events.filter (fun event ↦ decide (first + skip ≤ event.seq)) = events.drop skip := by
  induction events generalizing first skip with
  | nil => simp
  | cons event events ih =>
    rw [List.map_cons, List.length_cons, List.range'_succ] at h
    obtain ⟨hseq, hrest⟩ := List.cons.inj h
    rcases skip with _ | skip
    · rw [List.drop_zero, List.filter_eq_self]
      intro other hother
      have hmem : other.seq ∈ (event :: events).map (·.seq) := List.mem_map_of_mem hother
      rw [List.map_cons, hseq, hrest, ← List.range'_succ, List.mem_range'_1] at hmem
      exact decide_eq_true hmem.1
    · have hsmall : ¬ first + (skip + 1) ≤ event.seq := by omega
      rw [List.filter_cons, if_neg (by simpa only [decide_eq_true_eq] using hsmall),
        List.drop_succ_cons, ← ih hrest skip]
      exact List.filter_congr fun other _ ↦ by rw [Nat.add_right_comm, Nat.add_assoc]

namespace PersistedLog

variable (log : PersistedLog Data)

theorem readFrom_eq_drop (fromSeq : ℕ) : log.readFrom fromSeq = log.events.drop fromSeq := by
  have hnumbered : log.events.map (·.seq) = List.range' 0 log.events.length := by
    rw [log.numbered, List.range_eq_range']
  have h := filter_seq_ge hnumbered fromSeq
  rwa [Nat.zero_add] at h

/-- A read shows how far the log extends, as long as the log reaches it. -/
theorem endSeqOf_readFrom {fromSeq : ℕ} (h : fromSeq ≤ log.events.length) :
    endSeqOf (log.readFrom fromSeq) fromSeq = (log.events.length : ℤ) - 1 := by
  have hmap : ((log.readFrom fromSeq).getLast?).map (·.seq)
      = (List.range' fromSeq (log.events.length - fromSeq)).getLast? := by
    rw [readFrom_eq_drop, ← List.getLast?_map, List.map_drop, log.numbered, List.range_eq_range',
      List.drop_range', Nat.zero_add, Nat.mul_one]
  rw [List.getLast?_range'] at hmap
  rw [endSeqOf]
  rcases hlast : (log.readFrom fromSeq).getLast? with _ | event
  · rw [hlast] at hmap
    split_ifs at hmap with hzero
    · simp only
      omega
    · simp at hmap
  · rw [hlast] at hmap
    split_ifs at hmap with hzero
    · simp at hmap
    · have hseq : event.seq = fromSeq + (log.events.length - fromSeq) - 1 :=
        Option.some.inj hmap
      simp only [hseq]
      omega

/-- A log that does not reach the read looks as if it ended just before. -/
theorem endSeqOf_readFrom_of_le {fromSeq : ℕ} (h : log.events.length ≤ fromSeq) :
    endSeqOf (log.readFrom fromSeq) fromSeq = (fromSeq : ℤ) - 1 := by
  rw [readFrom_eq_drop, List.drop_eq_nil_of_le h]
  rfl

/-- What is folded behind a row: the events after its seq. -/
theorem foldAfter_readFrom {fromSeq covered : ℕ} (h : fromSeq ≤ covered)
    (unit : ProjectionDefinition Data) (state : Json) :
    unit.foldAfter ((covered : ℤ) - 1) state (log.readFrom fromSeq)
      = (log.events.drop covered).foldl unit.apply state := by
  have hfilter : (log.readFrom fromSeq).filter (fun event ↦ (covered : ℤ) - 1 < event.seq)
      = log.events.drop covered := by
    rw [← readFrom_eq_drop, readFrom, List.filter_filter, readFrom]
    refine List.filter_congr fun event _ ↦ ?_
    rw [← Bool.decide_and, decide_eq_decide]
    omega
  rw [← hfilter, List.foldl_filter, ProjectionDefinition.foldAfter]
  simp only [decide_eq_true_eq]

end PersistedLog

/-! ## Rows that are folds -/

/-- How many of the stored events a row may cover. -/
def PersistedLog.covered (log : PersistedLog Data) (row : ProjectionCheckpointRow) : ℕ :=
  min (row.seq + 1).toNat log.events.length

/-- The rows that a unit may use were folded from logs that begin like the stored one, as far as
that one reaches. -/
def FoldedRows (units : ProjectionUnits Data) (log : PersistedLog Data)
    (rows : ProjectionCheckpoint) : Prop :=
  ∀ key unit row, units.get? key = some unit → rows.get? key = some row →
    row.ver = unit.stateVersion → ∃ events, row.Covers unit events ∧
      events.take (log.covered row) = log.events.take (log.covered row)

/-- What a restore makes of a unit. -/
def ProjectionDefinition.whole (unit : ProjectionDefinition Data)
    (events : List (CommittedEvent Data)) : Json × ProjectionCheckpointRow :=
  (unit.view (unit.fold events), ⟨unit.stateVersion, (events.length : ℤ) - 1, unit.fold events⟩)

theorem covers_whole (unit : ProjectionDefinition Data) (events : List (CommittedEvent Data)) :
    (unit.whole events).2.Covers unit events := by
  refine ⟨rfl, ?_, ?_, ?_⟩
  · simp only [ProjectionDefinition.whole]
    omega
  · simp only [ProjectionDefinition.whole]
    omega
  · rw [foldTo_of_length_le]
    · rfl
    · simp [ProjectionDefinition.whole]

section Restore

variable {units : ProjectionUnits Data} {log : PersistedLog Data} {rows : ProjectionCheckpoint}
  {key : ProjectionKey} {unit : ProjectionDefinition Data} {row : Option ProjectionCheckpointRow}
  {floor : ℕ}

/-- The unit can be restored from this floor: either it is the whole log, or its row lies at or
above the floor and within the log. -/
def Fits (unit : ProjectionDefinition Data) (row : Option ProjectionCheckpointRow) (floor : ℕ)
    (events : List (CommittedEvent Data)) : Prop :=
  floor = 0 ∨ ∃ found, row = some found ∧ found.ver = unit.stateVersion ∧
    (floor : ℤ) ≤ found.seq ∧ found.seq < events.length

/-- A row that is used is a fold of the stored log. -/
theorem FoldedRows.val_eq (h : FoldedRows units log rows) (hunit : units.get? key = some unit)
    {found : ProjectionCheckpointRow} (hrow : rows.get? key = some found)
    (hver : found.ver = unit.stateVersion) (hlt : found.seq < log.events.length) :
    -1 ≤ found.seq ∧
      found.val = foldTo unit.apply unit.init log.events (found.seq + 1).toNat := by
  obtain ⟨events, hcovers, htake⟩ := h key unit found hunit hrow hver
  refine ⟨hcovers.ge, ?_⟩
  have hcovered : log.covered found = (found.seq + 1).toNat := by
    rw [PersistedLog.covered]
    have hge := hcovers.ge
    omega
  rw [hcovered] at htake
  rw [hcovers.val]
  exact foldTo_congr _ _ htake

/-- **A unit that fits is restored to the fold of the whole log.** -/
theorem restoreUnit_eq_ok (h : FoldedRows units log rows) (hunit : units.get? key = some unit)
    (hfits : Fits unit (rows.get? key) floor log.events) (hfloor : floor ≤ log.events.length) :
    restoreUnit key unit (rows.get? key) (log.readFrom floor) floor
        (endSeqOf (log.readFrom floor) floor)
      = .ok (unit.whole log.events) := by
  rw [log.endSeqOf_readFrom hfloor, restoreUnit]
  rcases husable : usableRow unit (rows.get? key) floor ((log.events.length : ℤ) - 1) with
    _ | found
  · -- Without a row the fold starts at the first event.
    have hzero : floor = 0 := by
      rcases hfits with hzero | ⟨found, hrow, hver, hge, hlt⟩
      · exact hzero
      · rw [hrow, usableRow, Option.filter_some, if_pos] at husable
        · simp at husable
        · simp only [decide_eq_true_eq]
          omega
    subst hzero
    have hfold := log.foldAfter_readFrom (Nat.le_refl 0) unit unit.init
    simp only [Nat.cast_zero, List.drop_zero] at hfold
    simp only [Option.isNone_none, Nat.lt_irrefl, and_false, if_false, Option.elim_none,
      Nat.cast_zero, hfold]
    rw [unit.parse_view]
    rfl
  · obtain ⟨hrow, hused⟩ := Option.filter_eq_some_iff.mp husable
    simp only [decide_eq_true_eq] at hused
    obtain ⟨hver, hbase, hend⟩ := hused
    obtain ⟨hge, hval⟩ := h.val_eq hunit hrow hver (by omega)
    have hcovered : floor ≤ (found.seq + 1).toNat := by omega
    have hfold := log.foldAfter_readFrom hcovered unit found.val
    have hafter : ((found.seq + 1).toNat : ℤ) - 1 = found.seq := by omega
    rw [hafter, hval, foldl_drop_foldTo] at hfold
    simp only [Option.isNone_some, Bool.false_eq_true, false_and, if_false, Option.elim_some,
      hval, hfold]
    rw [unit.parse_view]
    rfl

/-- A row above the end of the log is refused, unless the whole log has been read. -/
theorem restoreUnit_eq_error (hfloor : floor ≤ needs unit row - 1)
    (hfits : ¬ Fits unit row floor log.events) :
    restoreUnit key unit row (log.readFrom floor) floor (endSeqOf (log.readFrom floor) floor)
      = .error (.cannotRestore key floor) := by
  rw [Fits, not_or] at hfits
  obtain ⟨hzero, hfits⟩ := hfits
  have hend : endSeqOf (log.readFrom floor) floor
      = max ((log.events.length : ℤ) - 1) (floor - 1) := by
    rcases Nat.le_total floor log.events.length with hle | hle
    · rw [log.endSeqOf_readFrom hle]
      omega
    · rw [log.endSeqOf_readFrom_of_le hle]
      omega
  have hnone : usableRow unit row floor (endSeqOf (log.readFrom floor) floor) = none := by
    rw [usableRow, Option.filter_eq_none_iff]
    rintro found rfl
    simp only [decide_eq_true_eq]
    rintro ⟨hver, -, hle⟩
    rw [needs, if_pos hver] at hfloor
    refine hfits ⟨found, rfl, hver, ?_, ?_⟩
    · omega
    · rw [hend] at hle
      omega
  rw [restoreUnit, hnone]
  exact if_pos ⟨rfl, Nat.pos_of_ne_zero hzero⟩

/-- What a restore of the whole log yields. -/
structure Restored (units : ProjectionUnits Data) (events : List (CommittedEvent Data))
    (snapshot : ProjectionSnapshot) (checkpoint : ProjectionCheckpoint) : Prop where
  asOfSeq : snapshot.asOfSeq = (events.length : ℤ) - 1
  values : snapshot.values.entries
    = units.entries.map fun entry ↦ (entry.1, (entry.2.whole events).1)
  rows : checkpoint.entries = units.entries.map fun entry ↦ (entry.1, (entry.2.whole events).2)

theorem restore_eq_ok (h : FoldedRows units log rows)
    (hfits : ∀ entry ∈ units.entries, Fits entry.2 (rows.get? entry.1) floor log.events)
    (hfloor : floor ≤ log.events.length) :
    ∃ snapshot checkpoint, restore units rows (log.readFrom floor) floor
        = .ok (snapshot, checkpoint) ∧ Restored units log.events snapshot checkpoint := by
  obtain ⟨done, hdone, hvalues, hrows⟩ := restoreUnits_eq_ok
    (fun entry : ProjectionKey × ProjectionDefinition Data ↦ entry.2.whole log.events)
    (fun entry hentry ↦ restoreUnit_eq_ok h (OrderedMap.get?_eq_some_iff.mpr hentry)
      (hfits entry hentry) hfloor)
    units.nodup (.empty, .empty) (fun _ _ ↦ rfl) (fun _ _ ↦ rfl)
  refine ⟨_, _, by rw [restore, hdone]; rfl, log.endSeqOf_readFrom hfloor, ?_, ?_⟩
  · rw [hvalues]
    rfl
  · rw [hrows]
    rfl

end Restore

/-! ## Cold reads -/

section ColdRead

variable {units : ProjectionUnits Data} {log : PersistedLog Data}
  {record : Option CheckpointRecord}

/-- The record agrees with the stored log: it was made for it, and no usable row covers more. -/
def Agrees (units : ProjectionUnits Data) (log : PersistedLog Data) (record : CheckpointRecord) :
    Prop :=
  record.identity = identityOf log.header ∧
    ∀ key unit row, units.get? key = some unit → record.rows.get? key = some row →
      row.ver = unit.stateVersion → row.seq < log.events.length

/-- What a cold read must be: the values of the whole log, rows that cover it, and no more reading
than the floor asks for when the record agrees with the log. -/
structure ReadsWhole (units : ProjectionUnits Data) (log : PersistedLog Data)
    (record : Option CheckpointRecord) (read : ColdRead) : Prop where
  asOfSeq : read.snapshot.asOfSeq = (log.events.length : ℤ) - 1
  values : read.snapshot.values.entries
    = units.entries.map fun entry ↦ (entry.1, entry.2.view (entry.2.fold log.events))
  identity : ∀ written ∈ read.writeBack, written.identity = identityOf log.header
  keys : ∀ written ∈ read.writeBack, written.rows.entries.map Prod.fst
    = units.entries.map Prod.fst
  covers : ∀ written ∈ read.writeBack, ∀ key unit row, units.get? key = some unit →
    written.rows.get? key = some row →
      row.Covers unit log.events ∧ row.seq = (log.events.length : ℤ) - 1
  reads : ∀ floor, restoreFloor units (record.elim .empty (·.rows)) = some floor →
    (∀ found ∈ record, Agrees units log found) → read.reads = [floor]

/-- A restore of the whole log, as the read that returns it and writes it back. -/
theorem Restored.readsWhole {snapshot : ProjectionSnapshot} {checkpoint : ProjectionCheckpoint}
    (h : Restored units log.events snapshot checkpoint) {reads : List ℕ}
    (hreads : ∀ floor, restoreFloor units (record.elim .empty (·.rows)) = some floor →
      (∀ found ∈ record, Agrees units log found) → reads = [floor]) :
    ReadsWhole units log record
      ⟨snapshot, some ⟨identityOf log.header, checkpoint⟩, reads⟩ := by
  refine ⟨h.asOfSeq, h.values, ?_, ?_, ?_, hreads⟩
  · rintro written hwritten
    rw [← Option.some.inj hwritten]
  · rintro written hwritten
    rw [← Option.some.inj hwritten, h.rows, List.map_map]
    rfl
  · rintro written hwritten key unit row hunit hrow
    rw [← Option.some.inj hwritten, OrderedMap.get?_eq_some_iff, h.rows] at hrow
    obtain ⟨entry, hentry, heq⟩ := List.mem_map.mp hrow
    obtain ⟨hkey, hrow⟩ := Prod.mk.inj heq
    have hsame : entry.2 = unit := by
      have hget := OrderedMap.get?_eq_some_iff.mpr hentry
      rw [hkey, hunit] at hget
      exact (Option.some.inj hget).symm
    rw [← hrow, hsame]
    exact ⟨covers_whole unit log.events, rfl⟩

/-- Reading the whole log needs no rows. -/
theorem restore_empty (units : ProjectionUnits Data) (log : PersistedLog Data) :
    ∃ snapshot checkpoint, restore units .empty (log.readFrom 0) 0 = .ok (snapshot, checkpoint) ∧
      Restored units log.events snapshot checkpoint := by
  apply restore_eq_ok
  · intro key unit row _ hrow
    exact absurd hrow (by simp [OrderedMap.get?])
  · exact fun _ _ ↦ Or.inl rfl
  · exact Nat.zero_le _

/-- A unit whose row lies within the log fits the floor. -/
theorem fits_of_floor {unit : ProjectionDefinition Data} {row : Option ProjectionCheckpointRow}
    {floor : ℕ} (hfloor : floor ≤ needs unit row - 1)
    (hlt : ∀ found ∈ row, found.ver = unit.stateVersion → found.seq < log.events.length) :
    Fits unit row floor log.events := by
  rcases Nat.eq_zero_or_pos floor with hzero | hpos
  · exact Or.inl hzero
  · rcases row with _ | found
    · simp only [needs] at hfloor
      omega
    · rw [needs] at hfloor
      split_ifs at hfloor with hver
      · exact Or.inr ⟨found, rfl, hver, by omega, hlt found rfl hver⟩
      · omega

/-- The read from the floor, when the record was made for this log. -/
theorem coldRestore_related {floor : ℕ} {rows : ProjectionCheckpoint}
    (hrows : rows = record.elim .empty (·.rows))
    (hfloor : restoreFloor units rows = some floor)
    (hrelated : ∀ found ∈ record, found.identity = identityOf log.header)
    (h : FoldedRows units log rows) :
    ∃ read, coldRestore units record log floor = .ok read ∧ ReadsWhole units log record read := by
  have hall : (record.all fun found ↦ found.identity = identityOf log.header) = true :=
    Option.all_eq_true _ _ |>.mpr fun found hfound ↦ decide_eq_true (hrelated found hfound)
  obtain ⟨whole, checkpoint, hwhole, hrestored⟩ := restore_empty units log
  by_cases hfits : ∀ entry ∈ units.entries, Fits entry.2 (rows.get? entry.1) floor log.events
  · -- Every unit carries its row on.
    have hlength : floor ≤ log.events.length := by
      rcases hentries : units.entries with _ | ⟨entry, rest⟩
      · rw [restoreFloor, hentries] at hfloor
        simp at hfloor
      · rcases hfits entry (by simp [hentries]) with hzero | ⟨found, -, -, hge, hlt⟩
        · omega
        · omega
    obtain ⟨snapshot, refreshed, hrestore, hresult⟩ := restore_eq_ok h hfits hlength
    refine ⟨⟨snapshot, some ⟨identityOf log.header, refreshed⟩, [floor]⟩, ?_, ?_⟩
    · rw [coldRestore]
      simp only [hall, if_true, ← hrows, hrestore]
    · apply hresult.readsWhole
      intro floor' hfloor' _
      rw [← hrows, hfloor] at hfloor'
      rw [Option.some.inj hfloor']
  · -- A row lies above the end of the log.
    obtain ⟨entry, hentry, hover⟩ := not_forall₂.mp hfits
    have hle := restoreFloor_le hfloor hentry
    obtain ⟨fault, hfault⟩ := restoreUnits_eq_error hentry
      (restoreUnit_eq_error hle hover) (.empty, .empty)
    refine ⟨⟨whole, some ⟨identityOf log.header, checkpoint⟩, [floor, 0]⟩, ?_, ?_⟩
    · rw [coldRestore]
      simp only [hall, if_true, ← hrows]
      rw [restore, hfault]
      simp only [Except.map]
      rw [hwhole]
    · apply hrestored.readsWhole
      intro floor' _ hagrees
      refine absurd (fits_of_floor hle fun found hfound hver ↦ ?_) hover
      rcases record with _ | kept
      · rw [hrows] at hfound
        simp [OrderedMap.get?] at hfound
      · rw [hrows] at hfound
        exact (hagrees kept rfl).2 _ _ _ (OrderedMap.get?_eq_some_iff.mpr hentry) hfound hver

/-- The fold of the whole log, when the record was made for another one. -/
theorem coldRestore_unrelated {floor : ℕ} {found : CheckpointRecord}
    (hunrelated : found.identity ≠ identityOf log.header) :
    ∃ read, coldRestore units (some found) log floor = .ok read ∧
      ReadsWhole units log (some found) read := by
  obtain ⟨whole, checkpoint, hwhole, hrestored⟩ := restore_empty units log
  refine ⟨⟨whole, some ⟨identityOf log.header, checkpoint⟩, [floor, 0]⟩, ?_, ?_⟩
  · rw [coldRestore]
    simp [hunrelated, hwhole, Except.map]
  · exact hrestored.readsWhole fun _ _ hagrees ↦ absurd (hagrees found rfl).1 hunrelated

end ColdRead

/-! ## A truncated log -/

end XxAgent
