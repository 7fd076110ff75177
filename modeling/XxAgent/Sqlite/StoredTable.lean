import XxAgent.Sqlite.RowScan

/-!
# Reading a stored table

A session is its row and its event rows. The events are selected in the order of their primary key,
the whole log or its rows from some `seq` on; a suffix is scanned as if the log started there.
-/

namespace XxAgent.Sqlite

open Ecma

/-- A row of the sessions table, but for its revision. -/
structure SessionRow where
  /-- `id`. -/
  id : JsString
  /-- `version`. -/
  version : ℤ
  /-- `created_at`. -/
  createdAt : ℤ
  /-- `cwd`, or null. -/
  cwd : Option JsString
  /-- `parent_session`, or null. -/
  parentSession : Option JsString
  /-- `seed_length`, or null. -/
  seedLength : Option ℤ
  /-- `origin`, or null. -/
  origin : Option JsString
  /-- `delegation_depth`, or null. -/
  delegationDepth : Option ℤ
  /-- `agent_preset`, or null. -/
  agentPreset : Option JsString

/-- The row a session is written as. -/
def sessionRow (header : SessionHeader) : SessionRow where
  id := sqlText header.id
  version := header.version
  createdAt := header.createdAt.val
  cwd := header.cwd.map sqlText
  parentSession := header.parentSession.map sqlText
  seedLength := header.seedLength.map fun n ↦ (n.val : ℤ)
  origin := if header.subagent then some (js "subagent") else none
  delegationDepth := header.delegationDepth.map fun n ↦ (n.val : ℤ)
  agentPreset := header.agentPreset.map sqlText

/-- What a session's rows are. -/
structure StoredSession where
  /-- The row of the session. -/
  row : SessionRow
  /-- Its event rows. -/
  rows : List EventRow
  /-- They are ordered by their primary key. -/
  sorted : rows.Pairwise fun a b ↦ a.seq < b.seq
  /-- A `seq` is the position of an event in its log. -/
  nonneg : ∀ r ∈ rows, 0 ≤ r.seq

/-- Why a session cannot be read. -/
inductive TableError where
  /-- The row holds no creation time. -/
  | createdAt
  /-- The event rows are no log. -/
  | rows (e : RowsError)

/-- The message of an error. -/
def TableError.message : TableError → JsString
  | createdAt => js "stored session createdAt must be a non-negative safe integer"
  | rows e => e.message

/-- Reconstruct a header from its row, null columns omitted. -/
def rowToMeta (row : SessionRow) : Except TableError Json :=
  if ¬ Number.IsSafe row.createdAt ∨ row.createdAt < 0 then .error .createdAt
  else
    .ok (.obj (definedFields [
      ("version", some (integer row.version)),
      ("id", some (.str row.id)),
      ("createdAt", some (integer row.createdAt)),
      ("cwd", row.cwd.map .str),
      ("parentSession", row.parentSession.map .str),
      ("seedLength", row.seedLength.map integer),
      ("origin", row.origin.map .str),
      ("delegationDepth", row.delegationDepth.map integer),
      ("agentPreset", row.agentPreset.map .str)]))

/-- The event rows with `seq >= fromSeq`. -/
def StoredSession.rowsFrom (s : StoredSession) (fromSeq : ℕ) : List EventRow :=
  s.rows.filter fun r ↦ decide ((fromSeq : ℤ) ≤ r.seq)

/-- Read a session's row and its ordered events. -/
def readPrefix (s : StoredSession) : Except TableError (Json × List Json) :=
  match scanRows s.rows 0 with
  | .error e => .error (.rows e)
  | .ok found =>
    match rowToMeta s.row with
    | .error e => .error e
    | .ok header => .ok (header, found.preserved)

/-- Seek-capable suffix read. -/
def loadStoredFrom (s : StoredSession) (fromSeq : ℕ) : Except TableError (Json × List Json) :=
  match rowToMeta s.row with
  | .error e => .error e
  | .ok header =>
    match scanRows (s.rowsFrom fromSeq) fromSeq with
    | .error e => .error (.rows e)
    | .ok found => .ok (header, found.preserved)

theorem readPrefix_eq_ok {s : StoredSession} {header : Json} {events : List Json} :
    readPrefix s = .ok (header, events) ↔
      rowToMeta s.row = .ok header ∧ recoverPrefix 0 (cellsOf s.rows) = some events := by
  rw [readPrefix, ← scanRows_toOption]
  cases scanRows s.rows 0 <;> cases rowToMeta s.row <;> simp [Except.toOption]

theorem loadStoredFrom_eq_ok {s : StoredSession} {fromSeq : ℕ} {header : Json}
    {events : List Json} : loadStoredFrom s fromSeq = .ok (header, events) ↔
      rowToMeta s.row = .ok header ∧
        recoverPrefix fromSeq (cellsOf (s.rowsFrom fromSeq)) = some events := by
  rw [loadStoredFrom, ← scanRows_toOption]
  cases scanRows (s.rowsFrom fromSeq) fromSeq <;> cases rowToMeta s.row <;> simp [Except.toOption]

/-! ## Which events a prefix holds -/

/-- Some row holds the event at position `n`. -/
def EventAt (rows : List EventRow) (n : ℕ) : Prop := ∃ r ∈ rows, r.seq = n ∧ (rowToEvent r).isSome

private theorem eventAt_tail {row : EventRow} {rows : List EventRow} {n m : ℕ}
    (hseq : row.seq = n) (hne : n ≠ m) : EventAt (row :: rows) m ↔ EventAt rows m := by
  constructor
  · rintro ⟨r, hr, hrm, hsome⟩
    rcases List.mem_cons.mp hr with rfl | hr
    · exact absurd (Int.ofNat_inj.mp (hseq.symm.trans hrm)) hne
    · exact ⟨r, hr, hrm, hsome⟩
  · rintro ⟨r, hr, h⟩
    exact ⟨r, List.mem_cons_of_mem row hr, h⟩

/-- **The entry at index `k` of the prefix**: the events up to there are held by rows, and it is the
one of the last of these. -/
theorem getElem?_preserved {rows : List EventRow} : ∀ {n k : ℕ} {event : Json},
    rows.Pairwise (fun a b ↦ a.seq < b.seq) → (∀ r ∈ rows, (n : ℤ) ≤ r.seq) →
      ((PrefixScan.preserved continuesAt n (cellsOf rows))[k]? = some event ↔
        (∀ j < k, EventAt rows (n + j)) ∧
          ∃ r ∈ rows, r.seq = (n + k : ℕ) ∧ rowToEvent r = some event) := by
  induction rows with
  | nil => intro n k event _ _; simp [cellsOf, PrefixScan.preserved]
  | cons row rows ih =>
    intro n k event hsorted hlow
    obtain ⟨hhead, htail⟩ := List.pairwise_cons.mp hsorted
    have hrow := hlow row List.mem_cons_self
    have hnext : ∀ r ∈ rows, ((n + 1 : ℕ) : ℤ) ≤ r.seq := by
      intro r hr
      have h2 := hhead r hr
      push_cast
      omega
    have hcells : cellsOf (row :: rows) = rowToEvent row :: cellsOf rows := rfl
    by_cases hat : row.seq = n ∧ (rowToEvent row).isSome
    · -- The first row continues the log; the index moves on into the other rows.
      obtain ⟨hseq, hsome⟩ := hat
      obtain ⟨first, hfirst⟩ := Option.isSome_iff_exists.mp hsome
      have hok : continuesAt n first = true := by
        rw [continuesAt, (rowToEvent_get hfirst).1, hseq]
        exact decide_eq_true rfl
      rw [hcells, hfirst, PrefixScan.preserved, if_pos hok]
      cases k with
      | zero =>
        rw [List.getElem?_cons_zero]
        constructor
        · rintro h
          obtain rfl := Option.some.inj h
          exact ⟨fun j hj ↦ absurd hj (Nat.not_lt_zero j), row, List.mem_cons_self, hseq, hfirst⟩
        · rintro ⟨-, r, hr, hrn, hre⟩
          rcases List.mem_cons.mp hr with rfl | hr
          · rw [← hfirst, hre]
          · have h3 := hnext r hr
            push_cast at h3 hrn
            omega
      | succ k =>
        rw [List.getElem?_cons_succ, ih htail hnext]
        have hshift (j : ℕ) : EventAt (row :: rows) (n + (j + 1)) ↔ EventAt rows (n + 1 + j) := by
          rw [show n + (j + 1) = n + 1 + j from by ring]
          exact eventAt_tail hseq (by omega)
        constructor
        · rintro ⟨hall, r, hr, hrn, hre⟩
          refine ⟨fun j hj ↦ ?_, r, List.mem_cons_of_mem row hr, ?_, hre⟩
          · cases j with
            | zero => exact ⟨row, List.mem_cons_self, hseq, hsome⟩
            | succ j => exact (hshift j).mpr (hall j (Nat.lt_of_succ_lt_succ hj))
          · rw [hrn, show n + (k + 1) = n + 1 + k from by ring]
        · rintro ⟨hall, r, hr, hrn, hre⟩
          refine ⟨fun j hj ↦ (hshift j).mp (hall (j + 1) (Nat.succ_lt_succ hj)), ?_⟩
          rcases List.mem_cons.mp hr with rfl | hr
          · push_cast at hrn
            omega
          · exact ⟨r, hr, by rw [hrn, show n + (k + 1) = n + 1 + k from by ring], hre⟩
    · -- The first row is a hole or a gap: nothing is preserved, and no row holds index `n`.
      have hnone : PrefixScan.preserved continuesAt n (cellsOf (row :: rows)) = [] := by
        rw [hcells]
        cases he : rowToEvent row with
        | none => rfl
        | some e =>
          have hnot : continuesAt n e = false := by
            rw [continuesAt, (rowToEvent_get he).1, decide_eq_false_iff_not]
            intro hc
            exact hat ⟨integer_inj.mp (Option.some.inj hc), by rw [he]; rfl⟩
          rw [PrefixScan.preserved, hnot]
          rfl
      have habsent : ¬ EventAt (row :: rows) n := by
        rintro ⟨r, hr, hrn, hsome⟩
        rcases List.mem_cons.mp hr with rfl | hr
        · exact hat ⟨hrn, hsome⟩
        · have h3 := hnext r hr
          push_cast at h3
          omega
      rw [hnone]
      refine iff_of_false (by simp) ?_
      rintro ⟨hall, r, hr, hrn, hre⟩
      cases k with
      | zero => exact habsent ⟨r, hr, hrn, by rw [hre]; rfl⟩
      | succ k => exact habsent (hall 0 (Nat.zero_lt_succ k))

/-- The prefix is as long as rows hold its events. -/
theorem le_length_preserved_iff {rows : List EventRow} {n k : ℕ}
    (hsorted : rows.Pairwise fun a b ↦ a.seq < b.seq) (hlow : ∀ r ∈ rows, (n : ℤ) ≤ r.seq) :
    k ≤ (PrefixScan.preserved continuesAt n (cellsOf rows)).length ↔
      ∀ j < k, EventAt rows (n + j) := by
  cases k with
  | zero => simp
  | succ k =>
    constructor
    · intro hk j hj
      obtain ⟨event, he⟩ : ∃ event,
          (PrefixScan.preserved continuesAt n (cellsOf rows))[k]? = some event :=
        ⟨_, List.getElem?_eq_getElem hk⟩
      obtain ⟨hall, r, hr, hrn, hre⟩ := (getElem?_preserved hsorted hlow).mp he
      rcases Nat.lt_succ_iff_lt_or_eq.mp hj with hj | rfl
      · exact hall j hj
      · exact ⟨r, hr, hrn, by rw [hre]; rfl⟩
    · intro hall
      obtain ⟨r, hr, hrn, hsome⟩ := hall k (Nat.lt_succ_self k)
      obtain ⟨event, he⟩ := Option.isSome_iff_exists.mp hsome
      have hget := (getElem?_preserved hsorted hlow).mpr
        ⟨fun j hj ↦ hall j (Nat.lt_succ_of_lt hj), r, hr, hrn, he⟩
      exact (List.getElem?_eq_some_iff.mp hget).1

/-! ## Cutting a table -/

/-- Within the prefix, selecting by `seq` is dropping by position. -/
theorem filter_eq_drop {rows : List EventRow} : ∀ {n k : ℕ},
    rows.Pairwise (fun a b ↦ a.seq < b.seq) → (∀ r ∈ rows, (n : ℤ) ≤ r.seq) →
      k ≤ (PrefixScan.preserved continuesAt n (cellsOf rows)).length →
        rows.filter (fun r ↦ decide (((n + k : ℕ) : ℤ) ≤ r.seq)) = rows.drop k := by
  induction rows with
  | nil => intro n k _ _ _; simp
  | cons row rows ih =>
    intro n k hsorted hlow hk
    obtain ⟨hhead, htail⟩ := List.pairwise_cons.mp hsorted
    cases k with
    | zero =>
      rw [List.drop_zero, List.filter_eq_self]
      exact fun r hr ↦ decide_eq_true (hlow r hr)
    | succ k =>
      obtain ⟨r, hr, hrn, hsome⟩ := (le_length_preserved_iff hsorted hlow).mp hk 0 (Nat.succ_pos k)
      have hrow := hlow row List.mem_cons_self
      have hseq : row.seq = n := by
        rcases List.mem_cons.mp hr with rfl | hr
        · exact hrn
        · have h2 := hhead r hr
          push_cast at hrn
          omega
      have hnext : ∀ r ∈ rows, ((n + 1 : ℕ) : ℤ) ≤ r.seq := by
        intro r hr
        have h2 := hhead r hr
        push_cast
        omega
      have hrest : k ≤ (PrefixScan.preserved continuesAt (n + 1) (cellsOf rows)).length := by
        rw [le_length_preserved_iff htail hnext]
        intro j hj
        have hj' := (le_length_preserved_iff hsorted hlow).mp hk (j + 1) (Nat.succ_lt_succ hj)
        rw [show n + (j + 1) = n + 1 + j from by ring] at hj'
        exact (eventAt_tail hseq (by omega)).mp hj'
      have hout : ¬ (((n + (k + 1) : ℕ) : ℤ) ≤ row.seq) := by
        push_cast
        omega
      rw [List.filter_cons_of_neg (by simpa using hout), List.drop_succ_cons,
        ← ih htail hnext hrest, show n + 1 + k = n + (k + 1) from by ring]

namespace StoredSession

private theorem nonneg_zero (s : StoredSession) : ∀ r ∈ s.rows, ((0 : ℕ) : ℤ) ≤ r.seq := s.nonneg

theorem sorted_rowsFrom (s : StoredSession) (fromSeq : ℕ) :
    (s.rowsFrom fromSeq).Pairwise fun a b ↦ a.seq < b.seq :=
  s.sorted.sublist List.filter_sublist

theorem le_seq_rowsFrom (s : StoredSession) (fromSeq : ℕ) :
    ∀ r ∈ s.rowsFrom fromSeq, (fromSeq : ℤ) ≤ r.seq :=
  fun _ hr ↦ of_decide_eq_true (List.mem_filter.mp hr).2

/-- Selecting rows loses none of the events selected. -/
theorem eventAt_rowsFrom (s : StoredSession) {fromSeq n : ℕ} (h : fromSeq ≤ n) :
    EventAt (s.rowsFrom fromSeq) n ↔ EventAt s.rows n := by
  constructor
  · rintro ⟨r, hr, hrest⟩
    exact ⟨r, (List.mem_filter.mp hr).1, hrest⟩
  · rintro ⟨r, hr, hrn, hsome⟩
    refine ⟨r, List.mem_filter.mpr ⟨hr, decide_eq_true ?_⟩, hrn, hsome⟩
    rw [hrn]
    exact_mod_cast h

variable {s : StoredSession} {whole : List Json} {fromSeq : ℕ}

/-- The whole read is as long as rows hold its events. -/
theorem le_length_iff (h : recoverPrefix 0 (cellsOf s.rows) = some whole) :
    fromSeq ≤ whole.length ↔ ∀ n < fromSeq, EventAt s.rows n := by
  obtain ⟨rfl, -⟩ := (PrefixScan.scan_eq_some continuesAt isTurnEnd).mp h
  rw [le_length_preserved_iff s.sorted s.nonneg_zero]
  simp only [Nat.zero_add]

/-- A suffix that starts within the prefix, or right behind it, is the rest of the prefix. -/
theorem recoverPrefix_rowsFrom_of_le (h : recoverPrefix 0 (cellsOf s.rows) = some whole)
    (hle : fromSeq ≤ whole.length) :
    recoverPrefix fromSeq (cellsOf (s.rowsFrom fromSeq)) = some (whole.drop fromSeq) := by
  obtain ⟨rfl, -⟩ := (PrefixScan.scan_eq_some continuesAt isTurnEnd).mp h
  have hdrop := filter_eq_drop s.sorted s.nonneg_zero hle
  rw [Nat.zero_add] at hdrop
  have hscan := PrefixScan.scan_drop continuesAt isTurnEnd h hle
  rw [Nat.zero_add] at hscan
  rw [rowsFrom, hdrop, cellsOf, List.map_drop]
  exact hscan

/-- A suffix that starts past the prefix holds no completed turn, and is scanned by itself. -/
theorem recoverPrefix_rowsFrom_of_lt (h : recoverPrefix 0 (cellsOf s.rows) = some whole)
    (hlt : whole.length < fromSeq) :
    recoverPrefix fromSeq (cellsOf (s.rowsFrom fromSeq))
      = some (PrefixScan.preserved continuesAt fromSeq (cellsOf (s.rowsFrom fromSeq))) := by
  obtain ⟨rfl, hcommits⟩ := (PrefixScan.scan_eq_some continuesAt isTurnEnd).mp h
  refine PrefixScan.scan_of_not_commits continuesAt isTurnEnd
    (PrefixScan.commits_eq_false_of_sublist isTurnEnd ?_ hcommits)
  have hdrop := filter_eq_drop s.sorted s.nonneg_zero (le_refl _)
  rw [Nat.zero_add] at hdrop
  rw [cellsOf, cellsOf, ← List.map_drop]
  refine List.Sublist.map _ ?_
  rw [← cellsOf, ← hdrop, rowsFrom]
  refine List.monotone_filter_right _ fun r hr ↦ ?_
  have hr' := of_decide_eq_true hr
  refine decide_eq_true ?_
  omega

end StoredSession

end XxAgent.Sqlite
