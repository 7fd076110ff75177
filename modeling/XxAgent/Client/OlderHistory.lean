import XxAgent.Client.WindowRuns

/-!
# Paging back to older history

A page of older events is asked for by the first number of the window. While it is under way a
repair or a rebuild may replace the window, and the page then ends at another number than the one
in front of the new window: the session takes the good page for a corrupt host and stops paging
until another page of the tail is installed. The other way to lose the older events is a window
that opens on an empty log and takes its first frame from further on.

A run that does neither keeps the older events in reach: the window is rooted at the first number
that it shows, and in front of a number other than zero there is more to ask for.
-/

namespace XxAgent.Client

variable {Data View : Type} {log : HostLog Data}

/-! ## Correct pages -/

/-- A page of the first `n` events of the log: all of them, or those from a cut on. -/
structure IsPage (log : HostLog Data) (n cut : ℕ) (entries : List (HistoryEntry Data View))
    (hasMore : Bool) : Prop where
  within : n ≤ log.events.length
  proper : cut = 0 ∨ cut < n
  events : entries.map (·.event) = (log.events.take n).drop cut
  more : hasMore = decide (0 < cut)

namespace IsPage

variable {n cut : ℕ} {entries : List (HistoryEntry Data View)} {hasMore : Bool}
  {entry : HistoryEntry Data View}

theorem append (h : IsPage log n cut entries hasMore) (data : Data) :
    IsPage (log.append data) n cut entries hasMore where
  within := by
    simp only [HostLog.append, List.length_append]
    exact h.within.trans (Nat.le_add_right _ _)
  proper := h.proper
  events := by
    rw [HostLog.append, List.take_append_of_le_length h.within]
    exact h.events
  more := h.more

theorem mem_log (h : IsPage log n cut entries hasMore) (hentry : entry ∈ entries) :
    entry.event ∈ log.events := by
  have hmem : entry.event ∈ (log.events.take n).drop cut :=
    h.events ▸ List.mem_map_of_mem hentry
  exact List.mem_of_mem_take (List.mem_of_mem_drop hmem)

/-- Only a page of nothing is empty. -/
theorem bound_eq_zero (h : IsPage log n cut ([] : List (HistoryEntry Data View)) hasMore) :
    n = 0 ∧ cut = 0 := by
  have hlength := congrArg List.length h.events
  simp only [List.map_nil, List.length_nil, List.length_drop, List.length_take] at hlength
  have hwithin := h.within
  rcases h.proper with hcut | hcut <;> omega

theorem proper_of_pos (h : IsPage log n cut entries hasMore) (hpos : 0 < n) : cut < n := by
  rcases h.proper with rfl | hcut
  · exact hpos
  · exact hcut

theorem seq_head (h : IsPage log n cut entries hasMore) (hhead : entries.head? = some entry) :
    entry.seq = cut := by
  have hfirst : ((log.events.take n).drop cut).head? = some entry.event := by
    rw [← h.events, List.head?_map, hhead]
    rfl
  rw [List.head?_drop, List.getElem?_take] at hfirst
  split_ifs at hfirst with hlt
  obtain ⟨hbound, hget⟩ := List.getElem?_eq_some_iff.mp hfirst
  rw [HistoryEntry.seq, ← hget]
  exact log.numbered cut hbound

theorem seq_getLast (h : IsPage log n cut entries hasMore)
    (hlast : entries.getLast? = some entry) : entry.seq + 1 = n := by
  have hend : ((log.events.take n).drop cut).getLast? = some entry.event := by
    rw [← h.events, List.getLast?_map, hlast]
    rfl
  have hsplit : log.events
      = (log.events.take n).take cut ++ (log.events.take n).drop cut ++ log.events.drop n := by
    rw [List.take_append_drop, List.take_append_drop]
  have hnumbered := log.numbered
  rw [hsplit] at hnumbered
  have hseq := hnumbered.seq_getLast hend
  rwa [← List.length_append, List.take_append_drop, List.length_take, Nat.min_eq_left h.within]
    at hseq

end IsPage

theorem isPage_pageOf {use : HistoryUse} {cut : ℕ} {views : ℕ → Option View}
    {entries : List (HistoryEntry Data View)} {hasMore : Bool}
    (h : ClientHost.pageOf (log.window use) cut views = some (.page entries hasMore)) :
    IsPage log (log.window use).length cut entries hasMore := by
  have hprefix := ClientHost.window_initial log use
  rw [ClientHost.pageOf] at h
  split_ifs at h with hproper
  obtain ⟨rfl, rfl⟩ := HistoryResponse.page.inj (Option.some.inj h)
  exact
    { within := hprefix.length_le
      proper := hproper
      events := by
        rw [List.map_map, ← List.prefix_iff_eq_take.mp hprefix]
        exact List.map_id _
      more := rfl }

/-! ## The root of a window -/

namespace Session

/-- The window starts at its base, and there is more in front of any base but zero. -/
structure Rooted (log : HostLog Data) (s : Session Data View) : Prop where
  base : s.baseSeq = (s.events.head?.map (·.seq)).getD 0
  more : 0 < s.baseSeq → s.hasMore = true
  loaded : ∀ event ∈ s.events, event ∈ log.events
  buffered : ∀ frame ∈ s.liveBuffer, frame.event ∈ log.events

variable {s : Session Data View} {entry : HistoryEntry Data View} {first : HostEvent Data}
  {entries frames : List (HistoryEntry Data View)} {n cut before : ℕ} {hasMore : Bool}

theorem Rooted.baseSeq_eq (h : s.Rooted log) (hfirst : first ∈ s.events.head?) :
    s.baseSeq = first.seq := by
  rw [h.base, Option.mem_def.mp hfirst]
  rfl

theorem Rooted.exists_first (h : s.Rooted log) (hbase : 0 < s.baseSeq) :
    ∃ first ∈ s.events.head?, first.seq = s.baseSeq := by
  cases hhead : s.events.head? with
  | none =>
    rw [h.base, hhead] at hbase
    simp at hbase
  | some first => exact ⟨first, rfl, (h.baseSeq_eq hhead).symm⟩

theorem Rooted.baseSeq_le (h : s.Rooted log) : s.baseSeq ≤ log.events.length := by
  rcases Nat.eq_zero_or_pos s.baseSeq with hzero | hpos
  · omega
  · obtain ⟨first, hfirst, hseq⟩ := h.exists_first hpos
    have hlt := log.numbered.seq_lt (h.loaded first (List.mem_of_mem_head? hfirst))
    omega

/-- A session that differs elsewhere. -/
theorem Rooted.of_eq {t : Session Data View} (h : s.Rooted log) (hevents : t.events = s.events)
    (hbase : t.baseSeq = s.baseSeq) (hmore : t.hasMore = s.hasMore)
    (hbuffer : ∀ frame ∈ t.liveBuffer, frame.event ∈ log.events) : t.Rooted log where
  base := by rw [hbase, hevents, h.base]
  more := by
    rw [hbase, hmore]
    exact h.more
  loaded := by
    rw [hevents]
    exact h.loaded
  buffered := hbuffer

theorem Rooted.append (h : s.Rooted log) (data : Data) : s.Rooted (log.append data) :=
  ⟨h.base, h.more, fun event hevent ↦ List.mem_append_left _ (h.loaded event hevent),
    fun frame hframe ↦ List.mem_append_left _ (h.buffered frame hframe)⟩

/-- An empty window has to be started from the start of the log. -/
theorem Rooted.push (h : s.Rooted log) (hlog : entry.event ∈ log.events)
    (hstart : s.events = [] → entry.seq = 0) : (s.push entry).Rooted log where
  base := by
    change s.baseSeq = ((s.events ++ [entry.event]).head?.map (·.seq)).getD 0
    rw [h.base]
    cases hevents : s.events with
    | nil => exact (hstart hevents).symm
    | cons first rest => rfl
  more := h.more
  loaded := by
    intro event hevent
    rcases List.mem_append.mp hevent with hold | hnew
    · exact h.loaded event hold
    · rwa [List.mem_singleton.mp hnew]
  buffered := h.buffered

theorem Rooted.appendLive (h : s.Rooted log) (hlog : entry.event ∈ log.events)
    (hstart : s.events = [] → entry.seq = 0) : (s.appendLive entry).Rooted log := by
  rw [Session.appendLive]
  split
  case h_1 =>
    split_ifs
    · exact h
    · exact h.push hlog hstart
  case h_2 => exact h.push hlog hstart

theorem events_appendLive_ne_nil : (s.appendLive entry).events ≠ [] := by
  rw [appendLive]
  split
  case h_1 tail htail =>
    split_ifs
    · intro hnil
      simp [windowTailSeq, hnil] at htail
    · simp [push]
  case h_2 => simp [push]

/-- Behind the first frame the window has a start. -/
theorem Rooted.foldl_appendLive (h : s.Rooted log)
    (hlog : ∀ frame ∈ frames, frame.event ∈ log.events)
    (hstart : s.events = [] → ∀ frame ∈ frames.head?, frame.seq = 0) :
    (frames.foldl Session.appendLive s).Rooted log := by
  induction frames generalizing s with
  | nil => exact h
  | cons frame frames ih =>
    have hfirst : (s.appendLive frame).Rooted log :=
      h.appendLive (hlog frame List.mem_cons_self) fun hnil ↦ hstart hnil frame rfl
    exact ih hfirst (fun other hother ↦ hlog other (List.mem_cons_of_mem _ hother))
      fun hnil ↦ absurd hnil events_appendLive_ne_nil

theorem rooted_installWindow (hpage : IsPage log n cut entries hasMore)
    (hbuffer : ∀ frame ∈ s.liveBuffer, frame.event ∈ log.events)
    (hstart : entries = [] → ∀ frame ∈ s.liveBuffer.head?, frame.seq = 0) :
    (s.installWindow entries hasMore).Rooted log := by
  have hbase : (entries.head?.map (·.seq)).getD 0 = cut := by
    cases hhead : entries.head? with
    | none =>
      obtain rfl := List.head?_eq_none_iff.mp hhead
      exact hpage.bound_eq_zero.2.symm
    | some entry => exact hpage.seq_head hhead
  have hinstalled : (s.installPage entries hasMore).Rooted log :=
    { base := by
        rw [installPage, List.head?_map, Option.map_map]
        rfl
      more := by
        intro hpos
        rw [show (s.installPage entries hasMore).baseSeq = cut from hbase] at hpos
        exact hpage.more.trans (decide_eq_true hpos)
      loaded := by
        intro event hevent
        obtain ⟨entry, hentry, rfl⟩ := List.mem_map.mp hevent
        exact hpage.mem_log hentry
      buffered := by simp [installPage] }
  exact hinstalled.foldl_appendLive hbuffer fun hnil ↦ hstart (List.map_eq_nil_iff.mp hnil)

/-! ### A page of older events -/

/-- The page of the events in front of the window joins it. -/
theorem settleOlder_eq (hpage : IsPage log s.baseSeq cut entries hasMore) (hbase : 0 < s.baseSeq) :
    s.settleOlder (.page entries hasMore) =
      { s with
        loadingOlder := false
        events := (log.events.take s.baseSeq).drop cut ++ s.events
        views := entries.map (·.view) ++ s.views
        baseSeq := cut
        hasMore := decide (0 < cut)
        conversation := s.conversation.prepend entries (decide (0 < cut)) } := by
  cases entries with
  | nil => exact absurd hpage.bound_eq_zero.1 hbase.ne'
  | cons head rest =>
    obtain ⟨last, hlast⟩ : ∃ last, (head :: rest).getLast? = some last :=
      ⟨_, List.getLast?_eq_some_getLast (List.cons_ne_nil head rest)⟩
    have hseq : last.seq + 1 = s.baseSeq := hpage.seq_getLast hlast
    rw [settleOlder]
    simp only [List.head?_cons, hlast, hseq, ne_eq, not_true_eq_false, if_false]
    rw [hpage.events, hpage.seq_head rfl, hpage.more]

/-- The window behind a page that joined it. -/
theorem Rooted.prependOlder (h : s.Rooted log) (hcut : cut < s.baseSeq)
    (views : List (Option View)) (conversation : Conversation Data View) :
    Rooted log { s with
      loadingOlder := false
      events := (log.events.take s.baseSeq).drop cut ++ s.events
      views
      baseSeq := cut
      hasMore := decide (0 < cut)
      conversation } where
  base := by
    have hlt : cut < log.events.length := hcut.trans_le h.baseSeq_le
    have hhead : ((log.events.take s.baseSeq).drop cut ++ s.events).head?
        = some log.events[cut] := by
      rw [List.head?_append, List.head?_drop, List.getElem?_take_of_lt hcut,
        List.getElem?_eq_getElem hlt]
      rfl
    change cut = _
    rw [hhead, Option.map_some, Option.getD_some, log.numbered cut hlt]
  more hpos := decide_eq_true hpos
  loaded event hevent := by
    rcases List.mem_append.mp hevent with hevent | hevent
    · exact List.mem_of_mem_take (List.mem_of_mem_drop hevent)
    · exact h.loaded event hevent
  buffered := h.buffered

theorem settleOlder_of_baseSeq_eq_zero (s : Session Data View) (hzero : s.baseSeq = 0)
    (entries : List (HistoryEntry Data View)) (hasMore : Bool) :
    (s.settleOlder (.page entries hasMore)).events = s.events ∧
      (s.settleOlder (.page entries hasMore)).baseSeq = 0 ∧
      (s.settleOlder (.page entries hasMore)).liveBuffer = s.liveBuffer := by
  rw [settleOlder]
  split
  case h_1 =>
    rw [if_pos (by simp [hzero])]
    exact ⟨rfl, hzero, rfl⟩
  case h_2 => exact ⟨rfl, hzero, rfl⟩

theorem Rooted.settleOlder (h : s.Rooted log) {response : HistoryResponse Data View}
    (hpage : ∀ entries hasMore, response = .page entries hasMore →
      ∃ cut, IsPage log before cut entries hasMore)
    (hcurrent : ∀ entries hasMore, response = .page entries hasMore →
      ∀ first ∈ s.events.head?, 0 < first.seq → before = first.seq) :
    (s.settleOlder response).Rooted log := by
  cases response with
  | refused => exact h.of_eq rfl rfl rfl h.buffered
  | thrown => exact h.of_eq rfl rfl rfl h.buffered
  | page entries hasMore =>
    obtain ⟨cut, hpage⟩ := hpage entries hasMore rfl
    rcases Nat.eq_zero_or_pos s.baseSeq with hzero | hpos
    · -- No page joins a window that starts at zero, and nothing is in front of it.
      obtain ⟨hevents, hbase, hbuffer⟩ := s.settleOlder_of_baseSeq_eq_zero hzero entries hasMore
      exact ⟨by rw [hbase, hevents, ← h.base, hzero], by omega, hevents ▸ h.loaded,
        hbuffer ▸ h.buffered⟩
    · obtain ⟨first, hfirst, hseq⟩ := h.exists_first hpos
      obtain rfl := (hcurrent entries hasMore rfl first hfirst (hseq ▸ hpos)).trans hseq
      rw [settleOlder_eq hpage hpos]
      exact h.prependOlder (hpage.proper_of_pos hpos) _ _

theorem loadingOlder_settleOlder (response : HistoryResponse Data View) :
    (s.settleOlder response).loadingOlder = false := by
  cases response with
  | page entries hasMore =>
    rw [Session.settleOlder]
    split
    case h_1 => split_ifs <;> rfl
    case h_2 => rfl
  | refused => rfl
  | thrown => rfl

end Session

/-! ## The requests in flight -/

namespace HistoryRequest

/-- The request asks within the log, and its answer is a page of what it asks for. -/
structure Honest (log : HostLog Data) (r : HistoryRequest Data View) : Prop where
  asked : ∀ before, r.use = .loadOlder before → before ≤ log.events.length
  page : ∀ entries hasMore, r.response = some (.page entries hasMore) →
    ∃ n cut, IsPage log n cut entries hasMore ∧ ∀ before, r.use = .loadOlder before → n = before

theorem Honest.append {r : HistoryRequest Data View} (h : r.Honest log) (data : Data) :
    r.Honest (log.append data) where
  asked before huse := by
    rw [HostLog.append, List.length_append]
    exact (h.asked before huse).trans (Nat.le_add_right _ _)
  page entries hasMore hresponse := by
    obtain ⟨n, cut, hpage, hbound⟩ := h.page entries hasMore hresponse
    exact ⟨n, cut, hpage.append data, hbound⟩

end HistoryRequest

namespace ClientHost

/-- The window is rooted, and the page that a session loads is under way. -/
structure Paging (h : ClientHost Data View) : Prop where
  rooted : h.session.Rooted h.log
  honest : ∀ r ∈ h.requests, r.Honest h.log
  waiting : h.session.loadingOlder = true → ∃ r ∈ h.requests, ∃ before, r.use = .loadOlder before

theorem paging_start (log : HostLog Data) : (start log : ClientHost Data View).Paging where
  rooted := ⟨rfl, by simp [start, Session.new], by simp [start, Session.new],
    by simp [start, Session.new]⟩
  honest := by simp [start]
  waiting := by simp [start, Session.new]

variable {h : ClientHost Data View}

/-! ### The conditions of a step -/

/-- A page of older events ends in front of the window that it meets. -/
def Current (s : Session Data View) (use : HistoryUse) (response : HistoryResponse Data View) :
    Prop :=
  ∀ before, use = .loadOlder before → ∀ entries hasMore, response = .page entries hasMore →
    ∀ first ∈ s.events.head?, 0 < first.seq → before = first.seq

/-- The frames behind an empty page start the log. -/
def FromStart (s : Session Data View) (use : HistoryUse) (response : HistoryResponse Data View) :
    Prop :=
  ∀ hasMore, response = .page [] hasMore → installs s use response = true →
    ∀ frame ∈ s.liveBuffer.head?, frame.seq = 0

/-- A step that keeps the events in front of the window in reach. -/
def KeepsOlder (h : ClientHost Data View) : ClientAction Data View → Prop
  | .deliver i => ∀ use response, h.requests[i]? = some ⟨use, some response⟩ →
      Current h.session use response ∧ FromStart h.session use response
  | .frame seq _ => seq < h.log.events.length → h.session.openState = .opened →
      h.session.stitching = false → h.session.events = [] → seq = 0
  | _ => True

def KeepsOlderRun (h : ClientHost Data View) : List (ClientAction Data View) → Prop
  | [] => True
  | action :: actions => h.KeepsOlder action ∧ KeepsOlderRun (h.step action) actions

theorem keepsOlder_deliver_older {i before : ℕ} {response : HistoryResponse Data View}
    (hi : h.requests[i]? = some ⟨.loadOlder before, some response⟩)
    (hfirst : h.session.events.head?.map (·.seq) = some before) : h.KeepsOlder (.deliver i) := by
  intro use response' hi'
  obtain ⟨rfl, hresponse⟩ := HistoryRequest.mk.inj (Option.some.inj (hi.symm.trans hi'))
  refine ⟨fun before' huse _ _ _ first hhead _ ↦ ?_, fun _ hpage hinstalls ↦ ?_⟩
  · obtain rfl := HistoryUse.loadOlder.inj huse
    rw [Option.mem_def.mp hhead] at hfirst
    exact (Option.some.inj hfirst).symm
  · rw [hpage] at hinstalls
    simp [installs] at hinstalls

theorem keepsOlder_deliver_pull {i : ℕ} {use : HistoryUse} {entry : HistoryEntry Data View}
    {entries : List (HistoryEntry Data View)} {hasMore : Bool}
    (hi : h.requests[i]? = some ⟨use, some (.page (entry :: entries) hasMore)⟩)
    (huse : ∀ before, use ≠ .loadOlder before) : h.KeepsOlder (.deliver i) := by
  intro use' response hi'
  obtain ⟨rfl, hresponse⟩ := HistoryRequest.mk.inj (Option.some.inj (hi.symm.trans hi'))
  obtain rfl := Option.some.inj hresponse
  exact ⟨fun before hbefore ↦ absurd hbefore (huse before),
    fun _ hpage ↦ absurd (HistoryResponse.page.inj hpage).1 (List.cons_ne_nil _ _)⟩

/-! ### One step -/

/-- A call that leaves the window rooted. -/
theorem paging_launched {launch : Session.Launch Data View} (hrooted : launch.1.Rooted h.log)
    (hhonest : ∀ r ∈ h.requests, r.Honest h.log)
    (hasked : ∀ before, launch.2 = some (.loadOlder before) → before ≤ h.log.events.length)
    (hwaiting : launch.1.loadingOlder = true →
      (∃ r ∈ h.requests, ∃ before, r.use = .loadOlder before) ∨
        ∃ before, launch.2 = some (.loadOlder before)) : (h.launched launch).Paging where
  rooted := hrooted
  honest r hr := by
    rcases List.mem_append.mp hr with hr | hr
    · exact hhonest r hr
    · obtain ⟨use, huse, rfl⟩ := by simpa using hr
      exact ⟨fun before hbefore ↦ hasked before (huse.trans (congrArg some hbefore)),
        fun entries hasMore hresponse ↦ by cases hresponse⟩
  waiting hloading := by
    rcases hwaiting hloading with ⟨r, hr, huse⟩ | ⟨before, huse⟩
    · exact ⟨r, List.mem_append_left _ hr, huse⟩
    · exact ⟨⟨.loadOlder before, none⟩, List.mem_append_right _ (by simp [huse]), before, rfl⟩

/-- A call that does not load older events. -/
theorem Paging.launched_of_loadingOlder (hinv : h.Paging) {launch : Session.Launch Data View}
    (hrooted : launch.1.Rooted h.log) (hasked : ∀ before, launch.2 ≠ some (.loadOlder before))
    (hloading : launch.1.loadingOlder = h.session.loadingOlder) : (h.launched launch).Paging :=
  paging_launched hrooted hinv.honest (fun before huse ↦ absurd huse (hasked before))
    fun hwaits ↦ .inl (hinv.waiting (hloading ▸ hwaits))

theorem Paging.openSession (hinv : h.Paging) : (h.step .openSession).Paging := by
  rw [step, Session.openSession]
  split_ifs
  all_goals
    refine hinv.launched_of_loadingOlder ?_ (by simp) rfl
    exact hinv.rooted.of_eq rfl rfl rfl hinv.rooted.buffered

theorem Paging.loadOlder (hinv : h.Paging) : (h.step .loadOlder).Paging := by
  rw [step, Session.loadOlder]
  split_ifs
  · exact hinv.launched_of_loadingOlder hinv.rooted (by simp) rfl
  · refine paging_launched (hinv.rooted.of_eq rfl rfl rfl hinv.rooted.buffered) hinv.honest
      (fun before huse ↦ ?_) fun _ ↦ .inr ⟨_, rfl⟩
    obtain rfl := HistoryUse.loadOlder.inj (Option.some.inj huse)
    exact hinv.rooted.baseSeq_le

theorem Paging.resync (hinv : h.Paging) : (h.step .resync).Paging := by
  have hlaunched : (h.launched h.session.resync).Paging := by
    rw [Session.resync]
    split_ifs
    · exact hinv.launched_of_loadingOlder hinv.rooted (by simp) rfl
    · -- The dropped window starts nowhere.
      rw [Session.openSession]
      split_ifs
      all_goals
        refine hinv.launched_of_loadingOlder ?_ (by simp) rfl
        exact ⟨rfl, by simp, by simp, by simp⟩
  exact ⟨hlaunched.rooted, hlaunched.honest, hlaunched.waiting⟩

theorem Paging.frame (hinv : h.Paging) {seq : ℕ} {view : Option View}
    (hok : h.KeepsOlder (.frame seq view)) : (h.step (.frame seq view)).Paging := by
  rw [step]
  split
  case h_1 => exact hinv
  case h_2 event hget =>
    obtain ⟨hlt, rfl⟩ := List.getElem?_eq_some_iff.mp hget
    have hmem : h.log.events[seq] ∈ h.log.events := List.getElem_mem hlt
    have hbuffer : ∀ frame ∈ (h.session.buffer ⟨h.log.events[seq], view⟩).liveBuffer,
        frame.event ∈ h.log.events := by
      intro frame hframe
      rcases List.mem_append.mp hframe with hframe | hframe
      · exact hinv.rooted.buffered frame hframe
      · rwa [List.mem_singleton.mp hframe]
    have hlaunched : (h.launched
        (h.session.acceptLiveEvent ⟨h.log.events[seq], view⟩)).Paging := by
      rw [Session.acceptLiveEvent]
      split_ifs with hbuffers hopened hskips
      · exact hinv.launched_of_loadingOlder (hinv.rooted.of_eq rfl rfl rfl hbuffer) (by simp) rfl
      · exact hinv.launched_of_loadingOlder hinv.rooted (by simp) rfl
      · rw [Session.repairGap]
        split_ifs
        all_goals
          refine hinv.launched_of_loadingOlder ?_ (by simp) rfl
          exact hinv.rooted.of_eq rfl rfl rfl hbuffer
      · rw [not_or, Bool.not_eq_true] at hbuffers
        refine hinv.launched_of_loadingOlder (hinv.rooted.appendLive hmem fun hnil ↦ ?_) (by simp)
          (Session.appendLive_of_push (·.loadingOlder) fun _ _ ↦ rfl)
        rw [HistoryEntry.seq, h.log.numbered seq hlt]
        exact hok hlt (not_not.mp hopened) hbuffers.2 hnil
    exact ⟨hlaunched.rooted, hlaunched.honest, hlaunched.waiting⟩

theorem length_window_loadOlder {before : ℕ} (hbefore : before ≤ log.events.length) :
    (log.window (.loadOlder before)).length = before := by
  rw [HostLog.window, log.numbered.filter_lt, List.length_take, Nat.min_eq_left hbefore]

theorem Paging.answer (hinv : h.Paging) {i : ℕ}
    {response : HistoryUse → Option (HistoryResponse Data View)}
    (hpage : ∀ use entries hasMore, response use = some (.page entries hasMore) →
      ∃ cut, IsPage h.log (h.log.window use).length cut entries hasMore) :
    (h.answer i response).Paging := by
  rw [ClientHost.answer]
  split
  case h_2 => exact hinv
  case h_1 use hi =>
    have hmem := List.mem_of_getElem? hi
    have hasked := (hinv.honest _ hmem).asked
    refine ⟨hinv.rooted, fun r hr ↦ ?_, fun hloading ↦ ?_⟩
    · rcases List.mem_or_eq_of_mem_set hr with hr | rfl
      · exact hinv.honest r hr
      · refine ⟨hasked, fun entries hasMore hresponse ↦ ?_⟩
        obtain ⟨cut, hpage⟩ := hpage use entries hasMore hresponse
        refine ⟨_, cut, hpage, fun before huse ↦ ?_⟩
        obtain rfl : use = .loadOlder before := huse
        exact length_window_loadOlder (hasked before rfl)
    · obtain ⟨r, hr, before, huse⟩ := hinv.waiting hloading
      obtain ⟨j, hj⟩ := List.getElem?_of_mem hr
      by_cases hij : i = j
      · subst hij
        obtain rfl := Option.some.inj (hi.symm.trans hj)
        exact ⟨_, List.mem_set (List.getElem?_eq_some_iff.mp hi).1 _, before, huse⟩
      · refine ⟨r, List.mem_of_getElem? (i := j) ?_, before, huse⟩
        rw [List.getElem?_set_ne hij, hj]

theorem Paging.serve (hinv : h.Paging) (i cut : ℕ) (views : ℕ → Option View) :
    (h.step (.serve i cut views)).Paging :=
  hinv.answer fun _ _ _ hpage ↦ ⟨cut, isPage_pageOf hpage⟩

theorem Paging.fail (hinv : h.Paging) (i : ℕ) (thrown : Bool) : (h.step (.fail i thrown)).Paging :=
  hinv.answer fun use entries hasMore hpage ↦ by
    cases thrown <;> cases hpage

/-- A pull of the tail is settled. -/
theorem rooted_settle_tail {s : Session Data View} {use : HistoryUse}
    {response : HistoryResponse Data View} (h : s.Rooted log)
    (hpage : ∀ entries hasMore, response = .page entries hasMore →
      ∃ n cut, IsPage log n cut entries hasMore)
    (hstart : FromStart s use response) (huse : ∀ before, use ≠ .loadOlder before) :
    (s.settle response use).1.Rooted log ∧
      (s.settle response use).1.loadingOlder = s.loadingOlder ∧
      ∀ before, (s.settle response use).2 ≠ some (.loadOlder before) := by
  have hkept {openState : OpenState} {openPromise : Option ℕ} {stitching : Bool} :
      Session.Rooted log { s with openState, openPromise, stitching } :=
    h.of_eq rfl rfl rfl h.buffered
  cases response with
  | page entries hasMore =>
    obtain ⟨n, cut, hpage⟩ := hpage entries hasMore rfl
    have hrooted (hinstalls : installs s use (.page entries hasMore) = true) :
        (s.installWindow entries hasMore).Rooted log := by
      refine Session.rooted_installWindow hpage h.buffered fun hnil ↦ ?_
      subst hnil
      exact hstart hasMore rfl hinstalls
    have hloading : (s.installWindow entries hasMore).loadingOlder = s.loadingOlder :=
      Session.foldl_appendLive_of_push (·.loadingOlder) fun _ _ ↦ rfl
    have hinstalled (hinstalls : installs s use (.page entries hasMore) = true)
        {openState : OpenState} {openPromise : Option ℕ} {stitching : Bool} :
        Session.Rooted log
          { s.installWindow entries hasMore with openState, openPromise, stitching } :=
      (hrooted hinstalls).of_eq rfl rfl rfl (hrooted hinstalls).buffered
    cases use with
    | loadOlder before => exact absurd rfl (huse before)
    | openTail generation =>
      rw [Session.settle, Session.settleOpenTail]
      dsimp only
      split_ifs with hstale
      · exact ⟨h, rfl, by simp⟩
      · exact ⟨hrooted (by simpa [installs] using hstale), hloading, by simp⟩
      · exact ⟨hinstalled (by simpa [installs] using hstale), hloading, by simp⟩
    | openStitch generation =>
      rw [Session.settle, Session.settleOpenStitch]
      split_ifs with hstale
      · exact ⟨h, rfl, by simp⟩
      · exact ⟨hinstalled (by simpa [installs] using hstale), hloading, by simp⟩
    | repairGap generation =>
      rw [Session.settle, Session.settleRepair]
      dsimp only
      split_ifs with hcurrent
      · exact ⟨hinstalled (by simpa [installs] using hcurrent), hloading, by simp⟩
      · exact ⟨hkept, rfl, by simp⟩
  | refused =>
    cases use with
    | loadOlder before => exact absurd rfl (huse before)
    | openTail generation =>
      rw [Session.settle, Session.settleOpenTail]
      split_ifs
      · exact ⟨h, rfl, by simp⟩
      · exact ⟨hkept, rfl, by simp⟩
    | openStitch generation =>
      rw [Session.settle, Session.settleOpenStitch]
      split_ifs
      · exact ⟨h, rfl, by simp⟩
      · exact ⟨hkept, rfl, by simp⟩
    | repairGap generation => exact ⟨hkept, rfl, by simp [Session.settle]⟩
  | thrown =>
    cases use with
    | loadOlder before => exact absurd rfl (huse before)
    | openTail generation =>
      rw [Session.settle, Session.settleOpenTail]
      split_ifs
      · exact ⟨h, rfl, by simp⟩
      · exact ⟨hkept, rfl, by simp⟩
    | openStitch generation =>
      rw [Session.settle, Session.settleOpenStitch]
      split_ifs
      · exact ⟨h, rfl, by simp⟩
      · exact ⟨hkept, rfl, by simp⟩
    | repairGap generation => exact ⟨hkept, rfl, by simp [Session.settle]⟩

theorem Paging.deliver (hinv : h.Paging) {i : ℕ} (hok : h.KeepsOlder (.deliver i)) :
    (h.step (.deliver i)).Paging := by
  rw [step]
  split
  case h_2 => exact hinv
  case h_1 use response hi =>
    obtain ⟨hcurrent, hstart⟩ := hok use response hi
    have hhonest := hinv.honest _ (List.mem_of_getElem? hi)
    have hrest : ∀ r ∈ h.requests.eraseIdx i, r.Honest h.log := fun r hr ↦
      hinv.honest r (List.mem_of_mem_eraseIdx hr)
    have hlaunched : (ClientHost.launched { h with requests := h.requests.eraseIdx i }
        (h.session.settle response use)).Paging := by
      by_cases holder : ∃ before, use = .loadOlder before
      · obtain ⟨before, rfl⟩ := holder
        have hrooted : (h.session.settleOlder response).Rooted h.log := by
          refine hinv.rooted.settleOlder ?_ (hcurrent before rfl)
          intro entries hasMore hresponse
          obtain ⟨n, cut, hpage, hbound⟩ := hhonest.page entries hasMore (congrArg some hresponse)
          obtain rfl := hbound before rfl
          exact ⟨cut, hpage⟩
        refine paging_launched hrooted hrest (by simp [Session.settle]) fun hloading ↦ ?_
        exact absurd hloading (by simp [Session.settle, Session.loadingOlder_settleOlder])
      · rw [not_exists] at holder
        have hpage (entries : List (HistoryEntry Data View)) (hasMore : Bool)
            (hresponse : response = .page entries hasMore) :
            ∃ n cut, IsPage h.log n cut entries hasMore := by
          obtain ⟨n, cut, hpage, -⟩ := hhonest.page entries hasMore (congrArg some hresponse)
          exact ⟨n, cut, hpage⟩
        obtain ⟨hrooted, hloading, hasked⟩ := rooted_settle_tail hinv.rooted hpage hstart holder
        refine paging_launched hrooted hrest (fun before huse ↦ absurd huse (hasked before))
          fun hwaits ↦ .inl ?_
        obtain ⟨r, hr, before, huse⟩ := hinv.waiting (hloading ▸ hwaits)
        obtain ⟨j, hj⟩ := List.getElem?_of_mem hr
        refine ⟨r, List.mem_eraseIdx_iff_getElem?.mpr ⟨j, ?_, hj⟩, before, huse⟩
        rintro rfl
        obtain rfl := Option.some.inj (hi.symm.trans hj)
        exact holder before huse
    exact ⟨hlaunched.rooted, hlaunched.honest, hlaunched.waiting⟩

theorem Paging.step (hinv : h.Paging) {action : ClientAction Data View}
    (hok : h.KeepsOlder action) : (h.step action).Paging := by
  cases action with
  | grow data =>
    exact ⟨hinv.rooted.append data, fun r hr ↦ (hinv.honest r hr).append data, hinv.waiting⟩
  | openSession => exact hinv.openSession
  | loadOlder => exact hinv.loadOlder
  | resync => exact hinv.resync
  | frame seq view => exact hinv.frame hok
  | subscribed lastSeq =>
    exact ⟨hinv.rooted.of_eq rfl rfl rfl hinv.rooted.buffered, hinv.honest, hinv.waiting⟩
  | serve i cut views => exact hinv.serve i cut views
  | fail i thrown => exact hinv.fail i thrown
  | deliver i => exact hinv.deliver hok

theorem Paging.run (hinv : h.Paging) {actions : List (ClientAction Data View)}
    (hok : h.KeepsOlderRun actions) : (h.run actions).Paging := by
  induction actions generalizing h with
  | nil => exact hinv
  | cons action actions ih => exact ih (hinv.step hok.1) hok.2

/-! ## Runs -/

/-- There is more in front of a window that does not start the log, and what the host serves of it
joins the window at its front. -/
structure OlderReachable (h : ClientHost Data View) : Prop where
  hasMore : ∀ first ∈ h.session.events.head?, 0 < first.seq → h.session.hasMore = true
  /-- The page that is current joins the window. -/
  joins : ∀ i before entries hasMore,
    h.requests[i]? = some ⟨.loadOlder before, some (.page entries hasMore)⟩ →
    h.KeepsOlder (.deliver i) → ∀ first ∈ h.session.events.head?, 0 < first.seq →
      ∃ cut < first.seq, (h.step (.deliver i)).session.events
        = (h.log.events.take first.seq).drop cut ++ h.session.events
  /-- With no request in flight the older events can be asked for, and any page of them joins. -/
  loads : h.session.openState = .opened → h.requests = [] →
    ∀ first ∈ h.session.events.head?, 0 < first.seq → ∀ cut < first.seq, ∀ views,
      (h.run [.loadOlder, .serve 0 cut views, .deliver 0]).session.events
        = (h.log.events.take first.seq).drop cut ++ h.session.events

theorem Paging.loads (hinv : h.Paging) (hopened : h.session.openState = .opened)
    (hidle : h.requests = []) {first : HostEvent Data} (hfirst : first ∈ h.session.events.head?)
    (hseq : 0 < first.seq) {cut : ℕ} (hcut : cut < first.seq) (views : ℕ → Option View) :
    (h.run [.loadOlder, .serve 0 cut views, .deliver 0]).session.events
      = (h.log.events.take first.seq).drop cut ++ h.session.events := by
  have hbase := hinv.rooted.baseSeq_eq hfirst
  rw [← hbase] at hseq hcut ⊢
  have hlength : (h.log.window (.loadOlder h.session.baseSeq)).length = h.session.baseSeq :=
    length_window_loadOlder hinv.rooted.baseSeq_le
  have hloading : h.session.loadingOlder ≠ true := by
    intro hloading
    obtain ⟨r, hr, -⟩ := hinv.waiting hloading
    rw [hidle] at hr
    cases hr
  -- The host answers the one request that the session launches.
  let waiting : Session Data View := { h.session with loadingOlder := true }
  obtain ⟨entries, hpage⟩ :
      ∃ entries, pageOf (h.log.window (.loadOlder h.session.baseSeq)) cut views
        = some (.page entries (decide (0 < cut))) :=
    ⟨_, if_pos (.inr (by rwa [hlength]))⟩
  have hcalled : h.step .loadOlder = { h with
      session := waiting
      requests := [⟨.loadOlder h.session.baseSeq, none⟩] } := by
    rw [ClientHost.step, Session.loadOlder,
      if_neg (by simp [hopened, hinv.rooted.more hseq, hloading]), launched, hidle]
    rfl
  have hserved : h.run [.loadOlder, .serve 0 cut views] = { h with
      session := waiting
      requests := [⟨.loadOlder h.session.baseSeq, some (.page entries (decide (0 < cut)))⟩] } := by
    rw [ClientHost.run, List.foldl_cons, hcalled, List.foldl_cons, List.foldl_nil, ClientHost.step,
      ClientHost.answer]
    simp [hpage]
  have hjoined : (h.run [.loadOlder, .serve 0 cut views, .deliver 0]).session
      = waiting.settleOlder (.page entries (decide (0 < cut))) := by
    change ((h.run [.loadOlder, .serve 0 cut views]).step (.deliver 0)).session = _
    rw [hserved]
    rfl
  have hcorrect : IsPage h.log waiting.baseSeq cut entries (decide (0 < cut)) := by
    have hcorrect := isPage_pageOf hpage
    rwa [hlength] at hcorrect
  rw [hjoined, Session.settleOlder_eq hcorrect hseq]

theorem Paging.joins (hinv : h.Paging) {i before : ℕ} {entries : List (HistoryEntry Data View)}
    {hasMore : Bool}
    (hi : h.requests[i]? = some ⟨.loadOlder before, some (.page entries hasMore)⟩)
    (hok : h.KeepsOlder (.deliver i)) {first : HostEvent Data}
    (hfirst : first ∈ h.session.events.head?) (hseq : 0 < first.seq) :
    ∃ cut < first.seq, (h.step (.deliver i)).session.events
      = (h.log.events.take first.seq).drop cut ++ h.session.events := by
  obtain ⟨n, cut, hpage, hbound⟩ :=
    (hinv.honest _ (List.mem_of_getElem? hi)).page entries hasMore rfl
  obtain rfl := hbound before rfl
  obtain rfl := (hok _ _ hi).1 n rfl entries hasMore rfl first hfirst hseq
  have hbase := hinv.rooted.baseSeq_eq hfirst
  refine ⟨cut, hpage.proper_of_pos hseq, ?_⟩
  have hstep : (h.step (.deliver i)).session = h.session.settleOlder (.page entries hasMore) := by
    rw [ClientHost.step, hi]
    rfl
  rw [← hbase] at hpage
  rw [hstep, Session.settleOlder_eq hpage (hbase ▸ hseq), ← hbase]

theorem Paging.olderReachable (hinv : h.Paging) : h.OlderReachable where
  hasMore _ hfirst hseq := hinv.rooted.more (hinv.rooted.baseSeq_eq hfirst ▸ hseq)
  joins _ _ _ _ hi hok _ hfirst hseq := hinv.joins hi hok hfirst hseq
  loads hopened hidle _ hfirst hseq _ hcut views :=
    hinv.loads hopened hidle hfirst hseq hcut views

/-- **Older history stays reachable.** -/
theorem olderReachable_run (log : HostLog Data) (actions : List (ClientAction Data View))
    (hok : (start log).KeepsOlderRun actions) : ((start log).run actions).OlderReachable :=
  ((paging_start log).run hok).olderReachable

/-- A log of five events. -/
def fiveEvents : HostLog Unit := (List.replicate 5 ()).foldl HostLog.append emptyLog

/-- A tail, an older page, a repair, and another older page. -/
theorem olderReachable_run_repaired :
    ((start fiveEvents : ClientHost Unit Unit).run
      [.openSession, .serve 0 3 (fun _ ↦ none), .deliver 0, .loadOlder,
        .serve 0 1 (fun _ ↦ none), .deliver 0, .grow (), .grow (), .frame 6 none,
        .serve 0 5 (fun _ ↦ none), .deliver 0, .loadOlder, .serve 0 2 (fun _ ↦ none),
        .deliver 0]).OlderReachable := by
  apply olderReachable_run
  refine ⟨trivial, trivial, ?_, trivial, trivial, ?_, trivial, trivial, ?_, trivial, ?_, trivial,
    trivial, ?_, trivial⟩
  · exact keepsOlder_deliver_pull rfl (by simp)
  · exact keepsOlder_deliver_older rfl rfl
  · exact fun _ _ _ hnil ↦ absurd hnil (by decide)
  · exact keepsOlder_deliver_pull rfl (by simp)
  · exact keepsOlder_deliver_older rfl rfl

/-- A page of older events that a repair overtakes. -/
def overtaken : ClientHost Unit Unit :=
  (start fiveEvents).run
    [.openSession, .serve 0 3 (fun _ ↦ none), .deliver 0, .loadOlder, .serve 0 1 (fun _ ↦ none),
      .grow (), .grow (), .frame 6 none, .serve 1 6 (fun _ ↦ none), .deliver 1, .deliver 0]

/-- The page was good: the session is open and idle, and pages no further back than its event 6. -/
theorem not_olderReachable_overtaken :
    overtaken.session.openState = .opened ∧ overtaken.requests = [] ∧
      overtaken.session.events = [⟨6, ()⟩] ∧ overtaken.session.hasMore = false ∧
      ¬ overtaken.OlderReachable := by
  refine ⟨rfl, rfl, rfl, rfl, fun h ↦ ?_⟩
  exact absurd (h.hasMore ⟨6, ()⟩ rfl (by decide)) (by decide)

end ClientHost

end XxAgent.Client
