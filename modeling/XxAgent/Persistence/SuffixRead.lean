import XxAgent.Persistence.LiveSession
import XxAgent.Persistence.StoredReads

/-!
# Suffix reads

A suffix read should be the suffix of the whole read. Where the backend reads the log from its start
that is so by construction. A backend that seeks never sees the rows before the suffix, and takes the
first row it finds as the continuation of a log; that is right when the log reaches that row, and it
hands over events behind a hole when it does not.
-/

namespace XxAgent

open Ecma Jsonl Sqlite

/-! ## Positions -/

private theorem seqFrom_of_mem {events : List Json} : ∀ {m n : ℕ}, ContiguousFrom n events →
    m ≤ n → ∀ event ∈ events, seqFrom m event = true := by
  induction events with
  | nil => simp
  | cons first rest ih =>
    intro m n h hmn event hevent
    rcases List.mem_cons.mp hevent with rfl | hevent
    · rw [seqFrom, h.1]
      exact decide_eq_true (by simpa using hmn)
    · exact ih h.2 (Nat.le_succ_of_le hmn) event hevent

/-- In a numbered log, selecting by `seq` is dropping by position. -/
theorem filter_seqFrom {events : List Json} : ∀ {n k : ℕ}, ContiguousFrom n events →
    events.filter (seqFrom (n + k)) = events.drop k := by
  induction events with
  | nil => intro n k _; simp
  | cons event rest ih =>
    intro n k h
    cases k with
    | zero => exact List.filter_eq_self.mpr (seqFrom_of_mem h (le_refl n))
    | succ k =>
      have hout : seqFrom (n + (k + 1)) event = false := by
        rw [seqFrom, h.1]
        refine decide_eq_false ?_
        rw [Number.val_int, not_le]
        exact_mod_cast Nat.lt_add_of_pos_right (Nat.succ_pos k)
      rw [List.filter_cons_of_neg (by simp [hout]), List.drop_succ_cons, ← ih h.2,
        show n + 1 + k = n + (k + 1) from by ring]

theorem contiguous_preserved {cells : List (Option Json)} : ∀ {n : ℕ},
    ContiguousFrom n (PrefixScan.preserved continuesAt n cells) := by
  induction cells with
  | nil => exact fun {n} ↦ trivial
  | cons cell cells ih =>
    intro n
    cases cell with
    | none => trivial
    | some event =>
      rw [PrefixScan.preserved]
      split_ifs with hok
      · exact ⟨of_decide_eq_true hok, ih⟩
      · trivial

/-! ## What a read has checked -/

theorem acceptStored_eq_ok {backend : Backend} {id : JsString} {stored result : Stored} :
    acceptStored backend id stored = .ok result ↔ result.1 = stored.1 ∧
      snapshotStoredEvents stored.2 id = .ok result.2 ∧
        ∀ event ∈ result.2, isSupportedEvent event = true := by
  obtain ⟨header, events⟩ := result
  rw [acceptStored]
  cases hs : snapshotStoredEvents stored.2 id with
  | error e => simp
  | ok snapshots =>
    dsimp only
    cases ha : assertEventsSupported backend stored.1 snapshots with
    | error e =>
      simp only [reduceCtorEq, false_iff]
      rintro ⟨-, hok, hall⟩
      rw [Except.ok.inj hok, (assertEventsSupported_eq_ok _).mpr hall] at ha
      cases ha
    | ok u =>
      have hall := (assertEventsSupported_eq_ok _).mp ha
      constructor
      · intro h
        obtain ⟨rfl, rfl⟩ := Prod.mk.inj (Except.ok.inj h)
        exact ⟨rfl, rfl, hall⟩
      · rintro ⟨rfl, hok, -⟩
        rw [Except.ok.inj hok]

theorem readStoredPrefix_eq_ok {backend : Backend} {id : JsString} {whole : Stored}
    (h : readStoredPrefix backend id = .ok whole) : ∃ stored,
      backend.loadStored id = .ok (some stored) ∧ acceptHeader backend id stored.1 = .ok () ∧
        acceptStored backend id stored = .ok whole := by
  rw [readStoredPrefix] at h
  cases hl : backend.loadStored id with
  | error e => simp [hl] at h
  | ok found =>
    cases found with
    | none => simp [hl] at h
    | some stored =>
      cases ha : acceptHeader backend id stored.1 with
      | error e => simp [hl, ha] at h
      | ok u =>
        simp only [hl, ha] at h
        exact ⟨stored, rfl, ha, h⟩

theorem length_snapshotStoredFrom {id : JsString} {events : List Json} :
    ∀ {ids : MessageIds} {snapshots : List Json},
      snapshotStoredFrom id ids events = .ok snapshots → snapshots.length = events.length := by
  induction events with
  | nil => exact fun h ↦ Except.ok.inj h ▸ rfl
  | cons event rest ih =>
    intro ids snapshots h
    rw [snapshotStoredFrom] at h
    cases h1 : snapshotStoredEvent id ids event with
    | error e => simp [h1] at h
    | ok snapshot =>
      cases h2 : snapshotStoredFrom id (ids.record snapshot) rest with
      | error e => simp [h1, h2] at h
      | ok others =>
        simp only [h1, h2] at h
        obtain rfl := Except.ok.inj h
        rw [List.length_cons, List.length_cons, ih h2]

/-- A whole read has as many events as are stored, and their numbering. -/
theorem whole_of_acceptStored {backend : Backend} {id : JsString} {stored whole : Stored}
    (h : acceptStored backend id stored = .ok whole) (hcontig : ContiguousFrom 0 stored.2) :
    whole.2.length = stored.2.length ∧ ContiguousFrom 0 whole.2 := by
  obtain ⟨-, hsnap, -⟩ := acceptStored_eq_ok.mp h
  rw [snapshotStoredEvents] at hsnap
  cases ha : assertSupportedEvents stored.2 id with
  | error e => simp [ha] at hsnap
  | ok u =>
    simp only [ha] at hsnap
    exact ⟨length_snapshotStoredFrom hsnap, contiguous_snapshotStoredFrom hsnap hcontig⟩

/-! ## A backend that reads from the start -/

theorem readFromCore_sequential {backend : Backend} {id : JsString} {whole : Stored} {fromSeq : ℕ}
    (hseek : backend.loadStoredFrom = none)
    (hcontig : ∀ stored, backend.loadStored id = .ok (some stored) → ContiguousFrom 0 stored.2)
    (h : readStoredPrefix backend id = .ok whole) :
    readFromCore backend id fromSeq = .ok (whole.1, whole.2.filter (seqFrom fromSeq)) := by
  obtain ⟨stored, hl, -, haccept⟩ := readStoredPrefix_eq_ok h
  have hfilter := filter_seqFrom (k := fromSeq)
    (whole_of_acceptStored haccept (hcontig stored hl)).2
  rw [Nat.zero_add] at hfilter
  rw [readFromCore, hseek]
  dsimp only
  rw [h, hfilter]

/-! ## A backend that seeks -/

/-- Behind the start, before the first hole, some row holds an event that needs the log before it. -/
def LegacyRowFrom (rows : List EventRow) (fromSeq : ℕ) : Prop :=
  ∃ n ≥ fromSeq, (∀ m, fromSeq ≤ m → m < n → EventAt rows m) ∧
    ∃ r ∈ rows, r.seq = n ∧ ∃ event, rowToEvent r = some event ∧ needsLegacyPrefix event = true

/-- The stored rows for which a seeking read returns the suffix of the whole read: they hold every
event before the start, or they do not hold the event at the start, or a legacy event behind it makes
the coordinator read the whole log. -/
def SuffixReadable (rows : List EventRow) (fromSeq : ℕ) : Prop :=
  (∀ n < fromSeq, EventAt rows n) ∨ ¬ EventAt rows fromSeq ∨ LegacyRowFrom rows fromSeq

/-- What is scanned from the start on, seen in the rows. -/
private theorem getElem?_suffix {s : StoredSession} {fromSeq k : ℕ} {event : Json} :
    (PrefixScan.preserved continuesAt fromSeq (cellsOf (s.rowsFrom fromSeq)))[k]? = some event ↔
      (∀ j < k, EventAt s.rows (fromSeq + j)) ∧
        ∃ r ∈ s.rows, r.seq = (fromSeq + k : ℕ) ∧ rowToEvent r = some event := by
  rw [getElem?_preserved (s.sorted_rowsFrom fromSeq) (s.le_seq_rowsFrom fromSeq)]
  refine and_congr (forall₂_congr fun j _ ↦ s.eventAt_rowsFrom (Nat.le_add_right fromSeq j)) ?_
  constructor
  · rintro ⟨r, hr, h⟩
    exact ⟨r, (List.mem_filter.mp hr).1, h⟩
  · rintro ⟨r, hr, hseq, hevent⟩
    refine ⟨r, List.mem_filter.mpr ⟨hr, decide_eq_true ?_⟩, hseq, hevent⟩
    rw [hseq]
    exact_mod_cast Nat.le_add_right fromSeq k

private theorem any_needs_iff {s : StoredSession} {fromSeq : ℕ} :
    (PrefixScan.preserved continuesAt fromSeq (cellsOf (s.rowsFrom fromSeq))).any
      needsLegacyPrefix = true ↔ LegacyRowFrom s.rows fromSeq := by
  rw [List.any_eq_true]
  constructor
  · rintro ⟨event, hmem, hneeds⟩
    obtain ⟨k, hk⟩ := List.mem_iff_getElem?.mp hmem
    obtain ⟨hall, r, hr, hseq, hevent⟩ := getElem?_suffix.mp hk
    refine ⟨fromSeq + k, Nat.le_add_right fromSeq k, fun m hm hlt ↦ ?_, r, hr, hseq, event, hevent,
      hneeds⟩
    have hm' := hall (m - fromSeq) (by omega)
    rwa [Nat.add_sub_cancel' hm] at hm'
  · rintro ⟨n, hn, hall, r, hr, hseq, event, hevent, hneeds⟩
    refine ⟨event, List.mem_of_getElem? (i := n - fromSeq) (getElem?_suffix.mpr ⟨fun j hj ↦ ?_, r,
      hr, ?_, hevent⟩), hneeds⟩
    · exact hall (fromSeq + j) (Nat.le_add_right fromSeq j) (by omega)
    · rw [hseq, Nat.add_sub_cancel' hn]

private theorem suffix_eq_nil_iff {s : StoredSession} {fromSeq : ℕ} :
    PrefixScan.preserved continuesAt fromSeq (cellsOf (s.rowsFrom fromSeq)) = []
      ↔ ¬ EventAt s.rows fromSeq := by
  have hlength := le_length_preserved_iff (k := 1) (s.sorted_rowsFrom fromSeq)
    (s.le_seq_rowsFrom fromSeq)
  have hone : (∀ j < 1, EventAt (s.rowsFrom fromSeq) (fromSeq + j)) ↔ EventAt s.rows fromSeq := by
    rw [← s.eventAt_rowsFrom (le_refl fromSeq)]
    exact ⟨fun h ↦ h 0 Nat.one_pos, fun h j hj ↦ by rwa [Nat.lt_one_iff.mp hj]⟩
  rw [← hone, ← hlength, ← List.length_eq_zero_iff]
  omega

/-- What the seeking read does with the suffix it finds. -/
private theorem readFromCore_seek {database : List StoredSession} {id : JsString}
    {s : StoredSession} {header : Json} {fromSeq : ℕ} {suffix : List Json} {whole : Stored}
    (hrow : rowFor database id = some s)
    (hsuffix : loadStoredFrom s fromSeq = .ok (header, suffix))
    (hheader : acceptHeader (sqliteBackend database) id header = .ok ())
    (hwhole : readStoredPrefix (sqliteBackend database) id = .ok whole) :
    readFromCore (sqliteBackend database) id fromSeq
      = if suffix.any needsLegacyPrefix then .ok (whole.1, whole.2.filter (seqFrom fromSeq))
        else acceptStored (sqliteBackend database) id (header, suffix) := by
  have hover : handOver .sqlite (loadStoredFrom s fromSeq) = .ok (some (header, suffix)) :=
    handOver_eq_ok.mpr hsuffix
  rw [readFromCore, sqliteBackend]
  dsimp only
  rw [hrow]
  dsimp only
  rw [hover]
  dsimp only
  rw [← sqliteBackend, hheader]
  dsimp only
  rw [hwhole]

/-- **A seeking read, exactly.** -/
theorem readFromCore_seek_iff {database : List StoredSession} {id : JsString} {s : StoredSession}
    {fromSeq : ℕ} {whole : Stored} (hrow : rowFor database id = some s)
    (hwhole : readStoredPrefix (sqliteBackend database) id = .ok whole) :
    readFromCore (sqliteBackend database) id fromSeq
        = .ok (whole.1, whole.2.filter (seqFrom fromSeq))
      ↔ SuffixReadable s.rows fromSeq := by
  obtain ⟨⟨header, stored⟩, hload, hheader, haccept⟩ := readStoredPrefix_eq_ok hwhole
  obtain ⟨t, ht, hread⟩ := loadStored_sqlite.mp hload
  obtain rfl : s = t := Option.some.inj (hrow.symm.trans ht)
  obtain ⟨hmeta, hscan⟩ := readPrefix_eq_ok.mp hread
  have hstored : ContiguousFrom 0 stored := by
    obtain ⟨rfl, -⟩ := (PrefixScan.scan_eq_some continuesAt isTurnEnd).mp hscan
    exact contiguous_preserved
  obtain ⟨hlength, hcontig⟩ : whole.2.length = stored.length ∧ ContiguousFrom 0 whole.2 := whole_of_acceptStored haccept hstored
  obtain ⟨hwholeheader, hsnap, hsupported⟩ := acceptStored_eq_ok.mp haccept
  have hfilter := filter_seqFrom (k := fromSeq) hcontig
  rw [Nat.zero_add] at hfilter
  by_cases hle : fromSeq ≤ stored.length
  · -- The log reaches the start: the suffix found is the rest of the stored prefix.
    have hfound := loadStoredFrom_eq_ok.mpr
      ⟨hmeta, StoredSession.recoverPrefix_rowsFrom_of_le hscan hle⟩
    refine iff_of_true ?_ (.inl ((StoredSession.le_length_iff hscan).mp hle))
    rw [readFromCore_seek hrow hfound hheader hwhole]
    split_ifs with hneeds
    · rfl
    · rw [Bool.not_eq_true, List.any_eq_false] at hneeds
      rw [hfilter]
      refine acceptStored_eq_ok.mpr ⟨hwholeheader, ?_, fun event he ↦
        hsupported event (List.mem_of_mem_drop he)⟩
      exact snapshotStoredEvents_drop hsnap fun event he ↦ by simpa using hneeds event he
  · -- It does not: whatever is found lies behind a hole, where the whole read has nothing.
    have hlt := Nat.lt_of_not_le hle
    have hfound := loadStoredFrom_eq_ok.mpr
      ⟨hmeta, StoredSession.recoverPrefix_rowsFrom_of_lt hscan hlt⟩
    have hempty : whole.2.drop fromSeq = [] := List.drop_eq_nil_of_le (by omega)
    have hbefore : ¬ ∀ n < fromSeq, EventAt s.rows n := fun hc ↦
      hle ((StoredSession.le_length_iff hscan).mpr hc)
    rw [readFromCore_seek hrow hfound hheader hwhole, SuffixReadable, or_iff_right hbefore]
    split_ifs with hneeds
    · exact iff_of_true rfl (.inr (any_needs_iff.mp hneeds))
    · rw [or_iff_left fun hc ↦ hneeds (any_needs_iff.mpr hc), hfilter, hempty, acceptStored_eq_ok,
        ← suffix_eq_nil_iff]
      constructor
      · rintro ⟨-, hsuffix, -⟩
        rw [snapshotStoredEvents] at hsuffix
        split at hsuffix
        · cases hsuffix
        · exact List.length_eq_zero_iff.mp (length_snapshotStoredFrom hsuffix).symm
      · intro hnil
        dsimp only
        rw [hnil]
        exact ⟨hwholeheader, rfl, by simp⟩

/-! ## Both backends -/

/-- The sessions whose suffix from a position on reads as the suffix of the whole log. -/
def Store.SuffixReadable (id : JsString) (fromSeq : ℕ) : Store → Prop
  | jsonl _ _ => True
  | sqlite database => ∀ s, rowFor database id = some s → XxAgent.SuffixReadable s.rows fromSeq

theorem readFrom_eq_core (backend : Backend) (id : JsString) (fromSeq : SafeNat) :
    readFrom backend id (.int fromSeq.val) = readFromCore backend id fromSeq.val := by
  have hsafe : (Number.int fromSeq.val).isSafeInteger = true :=
    Number.isSafeInteger_iff.mpr ⟨fromSeq.val, rfl, fromSeq.safe⟩
  rw [readFrom, hsafe, if_neg (by simp)]
  rfl

/-- **When a suffix read is the suffix of the whole read.** Through a backend that reads from the
start always; through one that seeks, exactly for the sessions that are `SuffixReadable`. -/
theorem readFrom_eq_suffix_iff (store : Store) (id : JsString) (fromSeq : SafeNat) (whole : Stored)
    (h : readStoredPrefix store.backend id = .ok whole) :
    readFrom store.backend id (.int fromSeq.val)
        = .ok (whole.1, whole.2.filter (seqFrom fromSeq.val))
      ↔ store.SuffixReadable id fromSeq.val := by
  rw [readFrom_eq_core]
  cases store with
  | jsonl findLog logPath =>
    refine iff_of_true (readFromCore_sequential rfl (fun stored hl ↦ ?_) h) trivial
    obtain ⟨file, scan, -, hread, rfl⟩ := loadStored_jsonl.mp hl
    exact contiguous_readPrefix hread
  | sqlite database =>
    obtain ⟨stored, hload, -, -⟩ := readStoredPrefix_eq_ok h
    obtain ⟨s, hrow, -⟩ := loadStored_sqlite.mp hload
    refine (readFromCore_seek_iff hrow h).trans ⟨fun hs t ht ↦ ?_, fun hs ↦ hs s hrow⟩
    exact Option.some.inj (hrow.symm.trans ht) ▸ hs

/-! ## A hole before the start -/

/-- A session whose rows hold the events at 0 and 2. -/
def gappedSession : StoredSession where
  row := ⟨js "s", 0, 0, none, none, none, none, none, none⟩
  rows := [insertEvent (.textDelta 0 0 "a"), insertEvent (.textDelta 2 0 "c")]
  sorted := by
    rw [List.pairwise_pair]
    exact show (0 : ℤ) < 2 by decide
  nonneg := by
    rw [List.forall_mem_cons, List.forall_mem_singleton]
    exact show (0 : ℤ) ≤ 0 ∧ (0 : ℤ) ≤ 2 by decide

private theorem storable_textDelta (seq : ℕ) (h : Number.IsSafe seq) (fragment : String) :
    Storable (.textDelta seq 0 fragment) where
  envelope :=
    { keys_subset := by
        have hkeys : keys (SessionEvent.textDelta seq 0 fragment).fields
            = [js "type", js "seq", js "time", js "data"] := rfl
        rw [hkeys]
        decide
      type := ⟨_, rfl⟩
      seq := ⟨seq, rfl, h⟩
      time := ⟨0, rfl, by decide⟩
      data := ⟨_, rfl⟩
      ignorable := .inl rfl }
  type_wellFormed s hs := by
    have htype : (SessionEvent.textDelta seq 0 fragment).get "type"
        = some (text "assistant/chunk") := rfl
    rw [htype] at hs
    exact Json.str.inj (Option.some.inj hs) ▸ wellFormed_js _
  sources := .inl rfl

private theorem rowToEvent_textDelta (seq : ℕ) (h : Number.IsSafe seq) (fragment : String) :
    rowToEvent (insertEvent (.textDelta seq 0 fragment))
      = some (SessionEvent.textDelta seq 0 fragment).json :=
  rowToEvent_insertEvent (storable_textDelta seq h fragment)

private theorem acceptStored_textDelta (backend : Backend) (id : JsString) (header : Json) (seq : ℤ)
    (fragment : String) :
    acceptStored backend id (header, [(SessionEvent.textDelta seq 0 fragment).json])
      = .ok (header, [(SessionEvent.textDelta seq 0 fragment).json]) := by
  have hcurrent : IsCurrent (SessionEvent.textDelta seq 0 fragment).json := isCurrent_chunk rfl
  have hsupported : isSupportedEvent (SessionEvent.textDelta seq 0 fragment).json = true :=
    isSupportedEvent_of_hasType "assistant/chunk" (by decide +kernel) rfl
  rw [acceptStored, snapshotStoredEvents_of_current (List.forall_mem_singleton.mpr hcurrent)]
  dsimp only
  rw [(assertEventsSupported_eq_ok backend).mpr (List.forall_mem_singleton.mpr hsupported)]

private theorem readStoredPrefix_gapped : ∃ header, rowToMeta gappedSession.row = .ok header ∧
    acceptHeader (sqliteBackend [gappedSession]) (js "s") header = .ok () ∧
    readStoredPrefix (sqliteBackend [gappedSession]) (js "s")
      = .ok (header, [(SessionEvent.textDelta 0 0 "a").json]) := by
  have h0 : rowToEvent (insertEvent (.textDelta 0 0 "a"))
      = some (SessionEvent.textDelta 0 0 "a").json := rowToEvent_textDelta 0 (by decide) "a"
  have h2 : rowToEvent (insertEvent (.textDelta 2 0 "c"))
      = some (SessionEvent.textDelta 2 0 "c").json := rowToEvent_textDelta 2 (by decide) "c"
  obtain ⟨header, hmeta, hheader⟩ : ∃ header, rowToMeta gappedSession.row = .ok header ∧
      acceptHeader (sqliteBackend [gappedSession]) (js "s") header = .ok () := ⟨_, rfl, rfl⟩
  have hwhole : recoverPrefix 0 (cellsOf gappedSession.rows)
      = some [(SessionEvent.textDelta 0 0 "a").json] := by
    rw [gappedSession, cellsOf, List.map_cons, List.map_singleton, h0, h2]
    rfl
  have hload := loadStored_sqlite.mpr
    ⟨gappedSession, (rfl : rowFor [gappedSession] (js "s") = some gappedSession),
      readPrefix_eq_ok.mpr ⟨hmeta, hwhole⟩⟩
  refine ⟨header, hmeta, hheader, ?_⟩
  rw [readStoredPrefix, hload]
  dsimp only
  rw [hheader]
  exact acceptStored_textDelta _ _ _ 0 "a"

/-- The event at 2 is behind a hole: the whole read stops before it, the suffix read returns it. -/
theorem readFrom_gapped : ∃ whole,
    readStoredPrefix (Store.sqlite [gappedSession]).backend (js "s") = .ok whole ∧
      whole.2.filter (seqFrom 2) = [] ∧
      readFrom (Store.sqlite [gappedSession]).backend (js "s") (.int 2)
        = .ok (whole.1, [(SessionEvent.textDelta 2 0 "c").json]) := by
  obtain ⟨header, hmeta, hheader, hread⟩ := readStoredPrefix_gapped
  have h2 : rowToEvent (insertEvent (.textDelta 2 0 "c"))
      = some (SessionEvent.textDelta 2 0 "c").json := rowToEvent_textDelta 2 (by decide) "c"
  have hsuffix : recoverPrefix 2 (cellsOf (gappedSession.rowsFrom 2))
      = some [(SessionEvent.textDelta 2 0 "c").json] := by
    have hrows : gappedSession.rowsFrom 2 = [insertEvent (.textDelta 2 0 "c")] := rfl
    rw [hrows, cellsOf, List.map_singleton, h2]
    rfl
  have hseek := readFromCore_seek rfl (loadStoredFrom_eq_ok.mpr ⟨hmeta, hsuffix⟩) hheader hread
  have hlegacy : needsLegacyPrefix (SessionEvent.textDelta 2 0 "c").json = false :=
    (isCurrent_chunk rfl).not_legacy
  rw [List.any_cons, hlegacy, List.any_nil, Bool.or_false, if_neg Bool.false_ne_true,
    acceptStored_textDelta] at hseek
  have hbackend : (Store.sqlite [gappedSession]).backend = sqliteBackend [gappedSession] := rfl
  have hfrom : readFrom (sqliteBackend [gappedSession]) (js "s") (.int 2)
      = readFromCore (sqliteBackend [gappedSession]) (js "s") 2 :=
    readFrom_eq_core _ _ ⟨2, by decide⟩
  rw [hbackend, hfrom]
  exact ⟨_, hread, rfl, hseek⟩

/-- The start is the hole itself: nothing is read from there on. -/
theorem readFrom_eq_suffix_gapped : ∃ whole,
    readStoredPrefix (Store.sqlite [gappedSession]).backend (js "s") = .ok whole ∧
      readFrom (Store.sqlite [gappedSession]).backend (js "s") (.int 1)
        = .ok (whole.1, whole.2.filter (seqFrom 1)) := by
  obtain ⟨header, -, -, hread⟩ := readStoredPrefix_gapped
  refine ⟨_, hread, (readFrom_eq_suffix_iff (.sqlite [gappedSession]) (js "s") ⟨1, by decide⟩ _
    hread).mpr fun s hs ↦ .inl fun n hn ↦ ?_⟩
  have hrow : rowFor [gappedSession] (js "s") = some gappedSession := rfl
  obtain rfl := Option.some.inj (hrow.symm.trans hs)
  obtain rfl := Nat.lt_one_iff.mp hn
  refine ⟨_, List.mem_cons_self, rfl, ?_⟩
  have h0 : rowToEvent (insertEvent (.textDelta 0 0 "a"))
      = some (SessionEvent.textDelta 0 0 "a").json := rowToEvent_textDelta 0 (by decide) "a"
  rw [h0]
  rfl

end XxAgent
