import XxAgent.Projection.Cache
import XxAgent.Projection.LiveCells

/-!
# The projection cache over the life of a session

The record of a session is replaced while the session is live, when it leaves the store, and behind
every cold read. A write takes its cut of the registry first, awaits a flush of the log, and puts
the record last; the write of a session that leaves the store awaits no flush. In the meantime the
log grows, others write, or the process ends.

A record may be stale at any time. What every step keeps is that it covers events of the log: of the
durable one behind a flush, of the one in memory without it.
-/

namespace XxAgent

open Ecma Watermark

variable {Data : Type} (units : ProjectionUnits Data)

/-! ## Listing reads -/

/-- The row of a unit, if its version matches. -/
def unitRow (rows : ProjectionCheckpoint) (entry : ProjectionKey × ProjectionDefinition Data) :
    Option ProjectionCheckpointRow :=
  (rows.get? entry.1).filter fun row ↦ row.ver = entry.2.stateVersion

/-- The rows that are used are folds of this log through their own seqs. -/
def RowsCover (rows : ProjectionCheckpoint) (log : List (CommittedEvent Data)) : Prop :=
  ∀ entry ∈ units.entries, ∀ row ∈ unitRow rows entry, row.Covers entry.2 log

section Rows

variable {units} {rows : ProjectionCheckpoint} {log : List (CommittedEvent Data)}

theorem mem_unitRow {entry : ProjectionKey × ProjectionDefinition Data}
    {row : ProjectionCheckpointRow} :
    row ∈ unitRow rows entry ↔ rows.get? entry.1 = some row ∧ row.ver = entry.2.stateVersion := by
  rw [unitRow, Option.mem_def, Option.filter_eq_some_iff, decide_eq_true_iff]

theorem RowsCover.append (h : RowsCover units rows log) (rest : List (CommittedEvent Data)) :
    RowsCover units rows (log ++ rest) := by
  intro entry hentry row hrow
  obtain ⟨hver, hge, hlt, hval⟩ := h entry hentry row hrow
  refine ⟨hver, hge, by rw [List.length_append]; omega, ?_⟩
  rw [hval, foldTo_append_of_le _ _ (by omega)]

/-- Rows do not notice the loss of events that they do not cover. -/
theorem RowsCover.restrict {stored : List (CommittedEvent Data)} (h : RowsCover units rows log)
    (hstored : stored <+: log)
    (hlt : ∀ entry ∈ units.entries, ∀ row ∈ unitRow rows entry, row.seq < stored.length) :
    RowsCover units rows stored := by
  intro entry hentry row hrow
  obtain ⟨hver, hge, -, hval⟩ := h entry hentry row hrow
  have hlt := hlt entry hentry row hrow
  obtain ⟨lost, rfl⟩ := hstored
  exact ⟨hver, hge, hlt, by rw [hval, foldTo_append_of_le _ _ (by omega)]⟩

/-- Rows of the log in memory may be carried on over the durable one. -/
theorem RowsCover.foldedRows {persisted : PersistedLog Data} (h : RowsCover units rows log)
    (hstored : persisted.events <+: log) : FoldedRows units persisted rows := by
  intro key unit row hunit hrow hver
  refine ⟨log, h (key, unit) (OrderedMap.get?_eq_some_iff.mp hunit) row
    (mem_unitRow.mpr ⟨hrow, hver⟩), ?_⟩
  obtain ⟨rest, rfl⟩ := hstored
  exact List.take_append_of_le_length (Nat.min_le_right _ _)

end Rows

/-! ## Steps -/

/-- A `write` or a write-back whose cut is taken. -/
structure CacheWrite where
  record : CheckpointRecord
  /-- How many events are durable once the flush that it awaits has resolved. -/
  awaits : ℕ

/-- One session id: what persistence and the table hold of it, and what the process does. -/
structure CachedSession (Data : Type) where
  header : SessionHeader
  /-- The log in memory, while the session is in the store or its retirement drains. -/
  live : Option (List (CommittedEvent Data))
  /-- The durable log. -/
  stored : List (CommittedEvent Data)
  record : Option CheckpointRecord
  writes : List CacheWrite

/-- What a step may take from the log, or leave to chance. -/
inductive CacheStepKind where
  /-- The session leaves the store: its checkpoint awaits no flush. -/
  | detach
  /-- The process ends. -/
  | crash
  | other
deriving DecidableEq

/-- The registry of a live session, at a moment when a checkpoint disturbs no unit. -/
structure LiveProjections.Observes (registry : LiveProjections Data)
    (log : List (CommittedEvent Data)) : Prop where
  inv : registry.Inv
  log : registry.log = log
  units : registry.registrations.map (fun r ↦ (r.key, r.unit)) = units.entries
  undisturbing : registry.Undisturbing .checkpoint

namespace CachedSession

/-- The log that the session has come to. -/
def log (s : CachedSession Data) : List (CommittedEvent Data) := s.live.getD s.stored

/-- The record and the records that are being written. -/
def records (s : CachedSession Data) : List CheckpointRecord :=
  s.record.toList ++ s.writes.map (·.record)

inductive Step : CacheStepKind → CachedSession Data → CachedSession Data → Prop
  | append {s log} (data : Data) (hlive : s.live = some log) :
      Step .other s { s with live := some (log ++ [⟨log.length, data⟩]) }
  /-- Persistence has written some more of the log. -/
  | persist {s log} (n : ℕ) (hlive : s.live = some log) (hgrows : s.stored.length ≤ n) :
      Step .other s { s with stored := log.take n }
  /-- `write` has taken its cut. -/
  | write {s log} (registry : LiveProjections Data) (hlive : s.live = some log)
      (hcut : registry.Observes units log) :
      Step .other s
        { s with
          writes := s.writes ++ [⟨⟨identityOf s.header, registry.checkpoint.2⟩, log.length⟩] }
  | detach {s log} (registry : LiveProjections Data) (hlive : s.live = some log)
      (hcut : registry.Observes units log) :
      Step .detach s
        { s with writes := s.writes ++ [⟨⟨identityOf s.header, registry.checkpoint.2⟩, 0⟩] }
  /-- The retirement has drained. -/
  | retire {s} (hlive : s.live = some s.stored) : Step .other s { s with live := none }
  /-- `coldSnapshot` has returned, up to its write-back. -/
  | cold {s} {persisted : PersistedLog Data} {read : ColdRead} {back : CheckpointRecord}
      (hheader : persisted.header = s.header) (hstored : persisted.events = s.stored)
      (hread : coldSnapshot units s.record (some persisted) = .ok read)
      (hback : read.writeBack = some back) :
      Step .other s { s with writes := s.writes ++ [⟨back, 0⟩] }
  | flushed {s front write back} (hwrites : s.writes = front ++ write :: back)
      (hdurable : write.awaits ≤ s.stored.length) :
      Step .other s { s with writes := front ++ { write with awaits := 0 } :: back }
  /-- The table replaces the record. -/
  | put {s front write back} (hwrites : s.writes = front ++ write :: back)
      (hflushed : write.awaits = 0) :
      Step .other s { s with record := some write.record, writes := front ++ back }
  /-- A flush or the table rejects. -/
  | fail {s front write back} (hwrites : s.writes = front ++ write :: back) :
      Step .other s { s with writes := front ++ back }
  /-- Crash repair appends to the durable log. -/
  | repair {s} (closers : List (CommittedEvent Data)) (hlive : s.live = none)
      (hseq : closers.map (·.seq) = List.range' s.stored.length closers.length) :
      Step .other s { s with stored := s.stored ++ closers }
  /-- The session is resumed. -/
  | resume {s} (hlive : s.live = none) : Step .other s { s with live := some s.stored }
  /-- The id names another session; its header was never seen. -/
  | recreate {s} (header : SessionHeader) (hlive : s.live = none)
      (hfresh : ∀ record ∈ s.records, record.identity ≠ identityOf header) :
      Step .other s { s with header := header, live := some [], stored := [] }
  | crash {s} : Step .crash s { s with live := none, writes := [] }

/-- Runs whose steps are allowed. -/
inductive Reaches (allowed : CachedSession Data → CacheStepKind → Prop)
    (start : CachedSession Data) : CachedSession Data → Prop
  | start : Reaches allowed start start
  | step {s t kind} (hs : Reaches allowed start s) (hallowed : allowed s kind)
      (hstep : Step units kind s t) : Reaches allowed start t

/-! ## The invariant -/

/-- The log begins with what is durable, and the rows that were recorded of it are folds. -/
structure Sound (s : CachedSession Data) : Prop where
  stored : s.stored <+: s.log
  covers : ∀ record ∈ s.records, record.identity = identityOf s.header →
    RowsCover units record.rows s.log

/-- The rows of a record of this session lie within the first events. -/
def Within (header : SessionHeader) (record : CheckpointRecord) (n : ℕ) : Prop :=
  record.identity = identityOf header →
    ∀ entry ∈ units.entries, ∀ row ∈ unitRow record.rows entry, row.seq < n

/-- No row of the record is ahead of the durable log. -/
def Durable (s : CachedSession Data) : Prop :=
  ∀ record ∈ s.record, Within units s.header record s.stored.length

/-- A record lands only when its rows are durable. -/
structure Flushes (s : CachedSession Data) : Prop where
  durable : s.Durable units
  awaits : ∀ write ∈ s.writes,
    Within units s.header write.record (max write.awaits s.stored.length)

variable {units} {s t : CachedSession Data} {registry : LiveProjections Data}
  {log : List (CommittedEvent Data)}

theorem mem_records {record : CheckpointRecord} (h : record ∈ s.record) : record ∈ s.records :=
  List.mem_append_left _ (Option.mem_toList.mpr h)

/-- The cut of a registry covers its log. -/
theorem rowsCover_checkpoint (h : registry.Observes units log) :
    RowsCover units registry.checkpoint.2 log := by
  obtain ⟨hinv, rfl, hunits, hok⟩ := h
  intro entry hentry row hrow
  rw [← hunits] at hentry
  obtain ⟨registration, hmem, rfl⟩ := List.mem_map.mp hentry
  obtain ⟨found, hfound, hcovers⟩ := (hinv.checkpoint hok).2 registration hmem
  rw [(mem_unitRow.mp hrow).1] at hfound
  rwa [Option.some.inj hfound]

/-- A cold read is of the whole durable log. -/
theorem readsWhole_of_coldSnapshot (h : s.Sound units) {persisted : PersistedLog Data}
    (hheader : persisted.header = s.header) (hstored : persisted.events = s.stored) :
    ∃ read, coldSnapshot units s.record (some persisted) = .ok read ∧
      ReadsWhole units persisted s.record read := by
  have hprefix : persisted.events <+: s.log := hstored ▸ h.stored
  rw [coldSnapshot]
  rcases hfloor : restoreFloor units (s.record.elim .empty (·.rows)) with _ | floor
  · -- No unit is registered.
    have hnone := restoreFloor_eq_none hfloor
    exact ⟨_, rfl, persisted.endSeqOf_readFrom (Nat.zero_le _), by rw [hnone]; rfl, by simp,
      by simp, by simp, fun floor hsome ↦ by simp [hfloor] at hsome⟩
  · rcases hrecord : s.record with _ | found
    · rw [hrecord] at hfloor
      refine coldRestore_related rfl hfloor (by simp) fun key unit row _ hrow ↦ ?_
      exact absurd hrow (by simp [OrderedMap.get?])
    · rw [hrecord] at hfloor
      by_cases hrelated : found.identity = identityOf persisted.header
      · have hcovers := h.covers found (mem_records hrecord) (hheader ▸ hrelated)
        refine coldRestore_related rfl hfloor (fun other hother ↦ ?_) (hcovers.foldedRows hprefix)
        rwa [← Option.some.inj hother]
      · exact coldRestore_unrelated hrelated

/-- A cold read writes back rows of the durable log. -/
theorem Sound.cold (h : s.Sound units) {persisted : PersistedLog Data} {read : ColdRead}
    {back : CheckpointRecord} (hheader : persisted.header = s.header)
    (hstored : persisted.events = s.stored)
    (hread : coldSnapshot units s.record (some persisted) = .ok read)
    (hback : read.writeBack = some back) : RowsCover units back.rows s.stored := by
  obtain ⟨whole, hwhole, hreads⟩ := readsWhole_of_coldSnapshot h hheader hstored
  obtain rfl : whole = read := Except.ok.inj (hwhole.symm.trans hread)
  intro entry hentry row hrow
  rw [← hstored]
  exact (hreads.covers back hback _ _ row (OrderedMap.get?_eq_some_iff.mpr hentry)
    (mem_unitRow.mp hrow).1).1

theorem log_of_live (hlive : s.live = some log) : s.log = log := by
  rw [CachedSession.log, hlive, Option.getD_some]

theorem log_of_none (hlive : s.live = none) : s.log = s.stored := by
  rw [CachedSession.log, hlive, Option.getD_none]

/-- One more write. -/
theorem Sound.write (h : s.Sound units) {record : CheckpointRecord} (awaits : ℕ)
    (hcovers : RowsCover units record.rows s.log) :
    Sound units { s with writes := s.writes ++ [⟨record, awaits⟩] } where
  stored := h.stored
  covers found hfound hidentity := by
    simp only [records, List.map_append, List.map_singleton, ← List.append_assoc, List.mem_append,
      List.mem_singleton] at hfound
    rcases hfound with hfound | rfl
    · exact h.covers found (List.mem_append.mpr hfound) hidentity
    · exact hcovers

/-- The log goes on, and no record is new. -/
theorem Sound.grown (h : s.Sound units) (rest : List (CommittedEvent Data))
    (hheader : t.header = s.header) (hlog : t.log = s.log ++ rest) (hstored : t.stored <+: t.log)
    (hrecords : ∀ found ∈ t.records, found ∈ s.records) : t.Sound units where
  stored := hstored
  covers found hfound hidentity := by
    rw [hlog]
    exact (h.covers found (hrecords found hfound) (hheader ▸ hidentity)).append rest

/-- The log is the same, and no record is new. -/
theorem Sound.moved (h : s.Sound units) (hheader : t.header = s.header) (hlog : t.log = s.log)
    (hstored : t.stored <+: t.log) (hrecords : ∀ found ∈ t.records, found ∈ s.records) :
    t.Sound units :=
  h.grown [] hheader (by rw [hlog, List.append_nil]) hstored hrecords

/-- **Every step keeps the cache sound**, and a crash does if the record is durable. -/
theorem Sound.step (h : s.Sound units) {kind : CacheStepKind} (hstep : Step units kind s t)
    (hcrash : kind = .crash → s.Durable units) : t.Sound units := by
  cases hstep with
  | @append _ log data hlive =>
    have hlog := log_of_live hlive
    refine h.grown [⟨log.length, data⟩] rfl (by rw [hlog]; rfl) ?_ fun _ hfound ↦ hfound
    exact (hlog ▸ h.stored).trans (List.prefix_append _ _)
  | @persist _ log n hlive hgrows =>
    have hlog : CachedSession.log { s with stored := log.take n } = log := log_of_live hlive
    refine h.moved rfl (hlog.trans (log_of_live hlive).symm) ?_ fun _ hfound ↦ hfound
    rw [hlog]
    exact List.take_prefix n log
  | write registry hlive hcut => exact h.write _ (log_of_live hlive ▸ rowsCover_checkpoint hcut)
  | detach registry hlive hcut => exact h.write _ (log_of_live hlive ▸ rowsCover_checkpoint hcut)
  | retire hlive =>
    exact h.moved rfl (log_of_live hlive).symm (List.prefix_refl _) fun _ hfound ↦ hfound
  | cold hheader hstored hread hback =>
    obtain ⟨rest, hrest⟩ := h.stored
    exact h.write 0 (hrest ▸ (h.cold hheader hstored hread hback).append rest)
  | flushed hwrites =>
    refine h.moved rfl rfl h.stored fun found hfound ↦ ?_
    simpa [records, hwrites] using hfound
  | put hwrites =>
    refine h.moved rfl rfl h.stored fun found hfound ↦ ?_
    simp only [records, hwrites, Option.toList_some, List.map_append, List.map_cons,
      List.mem_append, List.mem_cons, List.not_mem_nil, or_false] at hfound ⊢
    tauto
  | fail hwrites =>
    refine h.moved rfl rfl h.stored fun found hfound ↦ ?_
    simp only [records, hwrites, List.map_append, List.map_cons, List.mem_append,
      List.mem_cons] at hfound ⊢
    tauto
  | repair closers hlive hseq =>
    have hlog : CachedSession.log { s with stored := s.stored ++ closers } = s.log ++ closers := by
      rw [log_of_none hlive]
      exact log_of_none hlive
    refine h.grown closers rfl hlog ?_ fun _ hfound ↦ hfound
    rw [hlog, log_of_none hlive]
  | resume hlive =>
    exact h.moved rfl (log_of_none hlive).symm (List.prefix_refl _) fun _ hfound ↦ hfound
  | recreate header hlive hfresh =>
    exact ⟨List.prefix_refl _, fun found hfound hidentity ↦ absurd hidentity (hfresh found hfound)⟩
  | crash =>
    refine ⟨List.prefix_refl _, fun found hfound hidentity ↦ ?_⟩
    have hrecord : found ∈ s.record := by simpa [records] using hfound
    exact (h.covers found (mem_records hrecord) hidentity).restrict h.stored
      (hcrash rfl found hrecord hidentity)

theorem Within.mono {header : SessionHeader} {record : CheckpointRecord} {m n : ℕ}
    (h : Within units header record m) (hle : m ≤ n) : Within units header record n := by
  intro hidentity entry hentry row hrow
  have := h hidentity entry hentry row hrow
  omega

/-- The durable log has not shrunk, and no record is new. -/
theorem Flushes.moved (h : s.Flushes units) (hheader : t.header = s.header)
    (hstored : s.stored.length ≤ t.stored.length) (hrecord : t.record = s.record)
    (hwrites : ∀ write ∈ t.writes, write ∈ s.writes) : t.Flushes units where
  durable found hfound := by
    rw [hheader]
    exact (h.durable found (hrecord ▸ hfound)).mono hstored
  awaits write hwrite := by
    rw [hheader]
    exact (h.awaits write (hwrites write hwrite)).mono (by omega)

theorem Flushes.write (h : s.Flushes units) {record : CheckpointRecord} {awaits : ℕ}
    (hcovers : RowsCover units record.rows log) (hle : log.length ≤ max awaits s.stored.length) :
    Flushes units { s with writes := s.writes ++ [⟨record, awaits⟩] } where
  durable := h.durable
  awaits write hwrite := by
    rcases List.mem_append.mp hwrite with hwrite | hwrite
    · exact h.awaits write hwrite
    · obtain rfl := List.mem_singleton.mp hwrite
      intro _ entry hentry row hrow
      have hlt := (hcovers entry hentry row hrow).lt
      dsimp only
      omega

/-- **A flush comes before its record**: without a detach no record is ahead of the durable log. -/
theorem Flushes.step (h : s.Flushes units) (hsound : s.Sound units) {kind : CacheStepKind}
    (hstep : Step units kind s t) (hkind : kind ≠ .detach) : t.Flushes units := by
  cases hstep with
  | append data hlive => exact ⟨h.durable, h.awaits⟩
  | @persist _ log n hlive hgrows =>
    have hle := hsound.stored.length_le
    rw [CachedSession.log, hlive, Option.getD_some] at hle
    refine h.moved rfl ?_ rfl fun write hwrite ↦ hwrite
    rw [List.length_take]
    omega
  | write registry hlive hcut => exact h.write (rowsCover_checkpoint hcut) (le_max_left _ _)
  | detach => exact absurd rfl hkind
  | retire hlive => exact ⟨h.durable, h.awaits⟩
  | cold hheader hstored hread hback =>
    exact h.write (hsound.cold hheader hstored hread hback) (le_max_right _ _)
  | @flushed _ front write back hwrites hdurable =>
    refine ⟨h.durable, fun other hother ↦ ?_⟩
    rcases List.mem_append.mp hother with hother | hother
    · exact h.awaits other (by simp [hwrites, hother])
    · rcases List.mem_cons.mp hother with rfl | hother
      · exact (h.awaits write (by simp [hwrites])).mono (by dsimp only; omega)
      · exact h.awaits other (by simp [hwrites, hother])
  | @put _ front write back hwrites hflushed =>
    refine ⟨fun found hfound ↦ ?_, fun other hother ↦ h.awaits other ?_⟩
    · obtain rfl := Option.some.inj hfound
      exact (h.awaits write (by simp [hwrites])).mono (by dsimp only; omega)
    · rw [hwrites]
      exact List.mem_append.mpr ((List.mem_append.mp hother).imp_right (List.mem_cons_of_mem _))
  | @fail _ front write back hwrites =>
    refine h.moved rfl le_rfl rfl fun other hother ↦ ?_
    rw [hwrites]
    exact List.mem_append.mpr ((List.mem_append.mp hother).imp_right (List.mem_cons_of_mem _))
  | repair closers hlive hseq =>
    exact h.moved rfl (by simp) rfl fun write hwrite ↦ hwrite
  | resume hlive => exact ⟨h.durable, h.awaits⟩
  | recreate header hlive hfresh =>
    refine ⟨fun found hfound hidentity ↦ absurd hidentity (hfresh found ?_),
      fun write hwrite hidentity ↦ absurd hidentity (hfresh _ ?_)⟩
    · exact mem_records hfound
    · exact List.mem_append_right _ (List.mem_map_of_mem hwrite)
  | crash => exact h.moved rfl le_rfl rfl fun write hwrite ↦ absurd hwrite (by simp)

/-! ## Runs -/

/-- A crash takes nothing from the log that the record covers. -/
def SparesRecord (units : ProjectionUnits Data) (s : CachedSession Data) (kind : CacheStepKind) :
    Prop :=
  kind = .crash → s.Durable units

theorem Sound.reaches {start : CachedSession Data} (h : start.Sound units)
    (hs : Reaches units (SparesRecord units) start s) : s.Sound units := by
  induction hs with
  | start => exact h
  | step _ hallowed hstep ih => exact ih.step hstep hallowed

end CachedSession

end XxAgent
