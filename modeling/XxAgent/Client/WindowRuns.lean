import XxAgent.Client.SessionWindow

/-!
# Runs of a client session

The window of a session over every run: its calls, its frames, and the answers of the host in every
order. A run is undisturbed when no page is stitched to frames that skip a number, and when no
repair that a resync has superseded ends while frames past the window wait in the buffer: nothing
drains the buffer then. Along an undisturbed run the window is a contiguous copy of the host log,
and it reaches the last frame unless the repair has failed. The assembler holds the window, except
between a resync and the page that rebuilds it: it then still holds the window that was dropped.
-/

namespace XxAgent.Client

open Ecma

variable {Data View : Type}

/-! ## Requests in flight -/

namespace HistoryUse

def generation? : HistoryUse → Option ℕ
  | openTail generation | openStitch generation | repairGap generation => some generation
  | loadOlder _ => none

/-- A pull of the open of a generation. -/
def opens (generation : ℕ) : HistoryUse → Bool
  | openTail g | openStitch g => g = generation
  | _ => false

def repairs : HistoryUse → Bool
  | repairGap _ => true
  | _ => false

/-- A pull of the tail page, for the open of a generation or for a repair of its window. -/
def pulls (generation : ℕ) (use : HistoryUse) : Bool :=
  use.opens generation || decide (use = .repairGap generation)

theorem generation?_of_pulls {generation : ℕ} {use : HistoryUse}
    (h : use.pulls generation = true) : use.generation? = some generation := by
  cases use <;> simp_all [pulls, opens, generation?]

theorem repairs_of_opens {generation : ℕ} {use : HistoryUse} (h : use.opens generation = true) :
    use.repairs = false := by
  cases use <;> simp_all [opens, repairs]

theorem pulls_of_opens {generation : ℕ} {use : HistoryUse} (h : use.opens generation = true) :
    use.pulls generation = true := by simp [pulls, h]

end HistoryUse

namespace HistoryRequest

/-- A page of the log. -/
def Truthful (r : HistoryRequest Data View) (log : HostLog Data) : Prop :=
  ∀ entries more, r.response = some (.page entries more) →
    entries.map (·.event) <:+: log.events

/-- A page that the request was answered by reaches a number, or a buffered frame carries it. -/
def Covers (r : HistoryRequest Data View) (s : Session Data View) (n : ℕ) : Prop :=
  ∀ entries more, r.response = some (.page entries more) →
    (∃ last ∈ entries.getLast?, n ≤ last.seq) ∨ ∃ frame ∈ s.liveBuffer, frame.seq = n

end HistoryRequest

namespace ClientHost

variable {h : ClientHost Data View}

/-- The invariant of a client session and its host. -/
structure Inv (h : ClientHost Data View) : Prop where
  window : h.session.WindowInv h.log h.rebuilding
  truthful : ∀ r ∈ h.requests, r.Truthful h.log
  generations : ∀ r ∈ h.requests, ∀ g ∈ r.use.generation?, g ≤ h.session.openGeneration
  single : h.requests.countP (·.use.opens h.session.openGeneration) ≤ 1
  opening : ∀ r ∈ h.requests, r.use.opens h.session.openGeneration = true →
    h.session.openState = .loading ∧ h.session.openPromise = some h.session.openGeneration
  /-- The second pull of an open follows an installed page. -/
  rebuilt : ∀ r ∈ h.requests, r.use = .openStitch h.session.openGeneration → h.rebuilding = false
  repairing : h.requests.countP (·.use.repairs) = h.session.stitching.toNat
  /-- Only a resync leaves the open state. -/
  repaired : ∀ r ∈ h.requests, r.use = .repairGap h.session.openGeneration →
    h.session.openState = .opened
  lastFrame : ∀ n ∈ h.lastFrame, n < h.log.events.length
  covered : ∀ n ∈ h.lastFrame, ∀ r ∈ h.requests,
    r.use.pulls h.session.openGeneration = true → r.Covers h.session n
  opened : h.session.openState = .opened → ∀ n ∈ h.lastFrame, h.session.Reaches n ∨
    h.repairFailed = true ∨
    h.session.stitching = true ∧ ∃ frame ∈ h.session.liveBuffer, frame.seq = n

theorem inv_start (log : HostLog Data) : (start log : ClientHost Data View).Inv where
  window := by
    refine ⟨⟨[], ⟨rfl, rfl, List.nil_infix, fun hbase ↦ absurd rfl hbase⟩, fun _ ↦ ?_⟩,
      by simp [start], fun _ ↦ rfl, by simp [start, Session.new]⟩
    exact ⟨by simp [start, Session.new, Conversation.new],
      by simp [start, Session.new, Conversation.new]⟩
  truthful := by simp [start]
  generations := by simp [start]
  single := by simp [start]
  opening := by simp [start]
  rebuilt := by simp [start]
  repairing := by simp [start, Session.new]
  repaired := by simp [start]
  lastFrame := by simp [start]
  covered := by simp [start]
  opened := by simp [start, Session.new]

theorem Inv.grow (hinv : h.Inv) (data : Data) : (h.step (.grow data)).Inv :=
  { window := hinv.window.grow data
    truthful := fun r hr entries more hpage ↦
      (hinv.truthful r hr entries more hpage).trans (List.prefix_append _ _).isInfix
    generations := hinv.generations
    single := hinv.single
    opening := hinv.opening
    rebuilt := hinv.rebuilt
    repairing := hinv.repairing
    repaired := hinv.repaired
    lastFrame := fun n hn ↦ by
      have hlt := hinv.lastFrame n hn
      simp only [step, HostLog.append, List.length_append, List.length_singleton]
      omega
    covered := hinv.covered
    opened := hinv.opened }

theorem Inv.subscribed (hinv : h.Inv) (lastSeq : ℤ) : (h.step (.subscribed lastSeq)).Inv :=
  { hinv with window := hinv.window.of_eq rfl rfl rfl rfl rfl (.inl rfl) }

/-! ### Answers -/

theorem countP_set_answer {requests : List (HistoryRequest Data View)} {i : ℕ} {use : HistoryUse}
    (hi : requests[i]? = some ⟨use, none⟩) (response : Option (HistoryResponse Data View))
    (p : HistoryUse → Bool) :
    (requests.set i ⟨use, response⟩).countP (p ·.use) = requests.countP (p ·.use) := by
  obtain ⟨hlt, hget⟩ := List.getElem?_eq_some_iff.mp hi
  have hbound : (if p use = true then 1 else 0) ≤ requests.countP (p ·.use) := by
    split_ifs with hp
    · exact List.countP_pos_iff.mpr ⟨_, List.mem_of_getElem? hi, hp⟩
    · exact Nat.zero_le _
  rw [List.countP_set hlt, hget]
  dsimp only
  omega

/-- A request is answered by a page of the log, or it fails. -/
theorem Inv.answer (hinv : h.Inv) {i : ℕ}
    {response : HistoryUse → Option (HistoryResponse Data View)}
    (htruthful : ∀ use entries more, response use = some (.page entries more) →
      entries.map (·.event) <:+: h.log.events)
    (hcovers : ∀ use generation, use.pulls generation = true → ∀ entries more,
      response use = some (.page entries more) → ∀ n < h.log.events.length,
      ∃ last ∈ entries.getLast?, n ≤ last.seq) : (h.answer i response).Inv := by
  rw [ClientHost.answer]
  split
  case h_2 => exact hinv
  case h_1 use hi =>
    have hmem (r : HistoryRequest Data View) (hr : r ∈ h.requests.set i ⟨use, response use⟩) :
        r ∈ h.requests ∨ r = ⟨use, response use⟩ := List.mem_or_eq_of_mem_set hr
    have huse : ⟨use, none⟩ ∈ h.requests := List.mem_of_getElem? hi
    refine { hinv with
      truthful := fun r hr ↦ ?_
      generations := fun r hr ↦ ?_
      single := ?_
      opening := fun r hr ↦ ?_
      rebuilt := fun r hr ↦ ?_
      repairing := ?_
      repaired := fun r hr ↦ ?_
      covered := fun n hn r hr hpulls ↦ ?_ }
    · obtain hold | rfl := hmem r hr
      · exact hinv.truthful r hold
      · exact htruthful use
    · obtain hold | rfl := hmem r hr
      · exact hinv.generations r hold
      · exact hinv.generations ⟨use, none⟩ huse
    · dsimp only
      rw [countP_set_answer hi _ (·.opens h.session.openGeneration)]
      exact hinv.single
    · obtain hold | rfl := hmem r hr
      · exact hinv.opening r hold
      · exact hinv.opening ⟨use, none⟩ huse
    · obtain hold | rfl := hmem r hr
      · exact hinv.rebuilt r hold
      · exact hinv.rebuilt ⟨use, none⟩ huse
    · dsimp only
      rw [countP_set_answer hi _ (·.repairs)]
      exact hinv.repairing
    · obtain hold | rfl := hmem r hr
      · exact hinv.repaired r hold
      · exact hinv.repaired ⟨use, none⟩ huse
    · obtain hold | rfl := hmem r hr
      · exact hinv.covered n hn r hold hpulls
      · exact fun entries more hpage ↦
          .inl (hcovers use _ hpulls entries more hpage n (hinv.lastFrame n hn))

theorem events_pageOf {window : List (HostEvent Data)} {cut : ℕ} {views : ℕ → Option View}
    {entries : List (HistoryEntry Data View)} {more : Bool}
    (hpage : pageOf window cut views = some (.page entries more)) :
    entries.map (·.event) = window.drop cut ∧ (cut = 0 ∨ cut < window.length) := by
  rw [pageOf] at hpage
  split_ifs at hpage with hcut
  obtain ⟨rfl, -⟩ := HistoryResponse.page.inj (Option.some.inj hpage)
  refine ⟨?_, hcut⟩
  rw [List.map_map]
  exact List.map_id'' (fun _ ↦ rfl) _

theorem window_initial (log : HostLog Data) (use : HistoryUse) :
    log.window use <+: log.events := by
  cases use with
  | loadOlder beforeSeq =>
    rw [HostLog.window, log.numbered.filter_lt]
    exact List.take_prefix _ _
  | _ => exact List.prefix_refl _

theorem window_of_pulls {log : HostLog Data} {use : HistoryUse} {generation : ℕ}
    (h : use.pulls generation = true) : log.window use = log.events := by
  cases use <;> simp_all [HostLog.window, HistoryUse.pulls, HistoryUse.opens]

theorem Inv.serve (hinv : h.Inv) (i cut : ℕ) (views : ℕ → Option View) :
    (h.step (.serve i cut views)).Inv := by
  apply hinv.answer
  · intro use entries more hpage
    rw [(events_pageOf hpage).1]
    exact (List.drop_suffix _ _).isInfix.trans (window_initial h.log use).isInfix
  · intro use generation hpulls entries more hpage n hn
    obtain ⟨hentries, hcut⟩ := events_pageOf hpage
    rw [window_of_pulls hpulls] at hentries hcut
    -- The page ends with the log.
    have hlast : (entries.map (·.event)).getLast? = h.log.events.getLast? := by
      rw [hentries, List.getLast?_drop, if_neg (by omega)]
    obtain ⟨last, hlog⟩ : ∃ last, h.log.events.getLast? = some last := by
      cases hlog : h.log.events.getLast? with
      | none => simp [List.getLast?_eq_none_iff.mp hlog] at hn
      | some last => exact ⟨last, rfl⟩
    rw [hlog, List.getLast?_map, Option.map_eq_some_iff] at hlast
    obtain ⟨entry, hentry, rfl⟩ := hlast
    refine ⟨entry, hentry, ?_⟩
    have hseq := h.log.numbered.seq_getLast_self hlog
    change n ≤ entry.event.seq
    omega

theorem Inv.fail (hinv : h.Inv) (i : ℕ) (thrown : Bool) : (h.step (.fail i thrown)).Inv := by
  apply hinv.answer <;> cases thrown <;> simp

/-! ### Launching a request -/

theorem launched_none (s : Session Data View) : h.launched (s, none) = { h with session := s } := by
  simp [launched]

/-- A pull of an open that no other one is in flight with. -/
theorem Inv.launched_open (hinv : h.Inv) {s : Session Data View} {rebuilding : Bool}
    {use : HistoryUse} (huse : use.opens s.openGeneration = true)
    (hwindow : s.WindowInv h.log rebuilding) (hstate : s.openState = .loading)
    (hpromise : s.openPromise = some s.openGeneration)
    (hgeneration : h.session.openGeneration ≤ s.openGeneration)
    (hstitching : s.stitching = h.session.stitching)
    (hidle : ∀ r ∈ h.requests, ¬ r.use.pulls s.openGeneration = true)
    (hrebuilt : use = .openStitch s.openGeneration → rebuilding = false) :
    Inv { h.launched (s, some use) with rebuilding } := by
  have hmem (r : HistoryRequest Data View)
      (hr : r ∈ h.requests ++ [⟨use, none⟩]) : r ∈ h.requests ∨ r = ⟨use, none⟩ := by
    simpa using hr
  refine { window := hwindow, truthful := fun r hr ↦ ?_, generations := fun r hr g hg ↦ ?_,
           single := ?_, opening := fun r hr hopens ↦ ⟨hstate, hpromise⟩,
           rebuilt := fun r hr hstitch ↦ ?_, repairing := ?_, repaired := fun r hr hrepair ↦ ?_,
           lastFrame := hinv.lastFrame, covered := fun n hn r hr hpulls ↦ ?_,
           opened := fun hopened ↦ ?_ }
  · obtain hold | rfl := hmem r hr
    · exact hinv.truthful r hold
    · simp [HistoryRequest.Truthful]
  · obtain hold | rfl := hmem r hr
    · exact (hinv.generations r hold g hg).trans hgeneration
    · rw [HistoryUse.generation?_of_pulls (HistoryUse.pulls_of_opens huse),
        Option.mem_some_iff] at hg
      exact hg.ge
  · have hcount : h.requests.countP (·.use.opens s.openGeneration) = 0 :=
      List.countP_eq_zero.mpr fun r hr hopens ↦ hidle r hr (HistoryUse.pulls_of_opens hopens)
    simp only [launched, Option.map_some, Option.toList_some, List.countP_append, hcount]
    simp [huse]
  · obtain hold | rfl := hmem r hr
    · have huse' : r.use = .openStitch s.openGeneration := hstitch
      exact absurd (by simp [huse', HistoryUse.pulls, HistoryUse.opens]) (hidle r hold)
    · exact hrebuilt hstitch
  · simp only [launched, Option.map_some, Option.toList_some, List.countP_append, hinv.repairing]
    simp [HistoryUse.repairs_of_opens huse, hstitching]
  · have huse' : r.use = .repairGap s.openGeneration := hrepair
    obtain hold | rfl := hmem r hr
    · exact absurd (by simp [huse', HistoryUse.pulls]) (hidle r hold)
    · rw [show use = .repairGap s.openGeneration from huse'] at huse
      simp [HistoryUse.opens] at huse
  · obtain hold | rfl := hmem r hr
    · exact absurd hpulls (hidle r hold)
    · simp [HistoryRequest.Covers]
  · exact absurd (hopened.symm.trans hstate) (by simp)

theorem Inv.openSession (hinv : h.Inv) : (h.launched h.session.openSession).Inv := by
  have hwindow := hinv.window.openSession
  rw [Session.openSession] at hwindow ⊢
  split_ifs at hwindow ⊢ with hopened hpromise
  · rwa [launched_none]
  · rwa [launched_none]
  · refine hinv.launched_open (by simp [HistoryUse.opens]) hwindow rfl rfl le_rfl rfl
      (fun r hr hpulls ↦ ?_) (by simp)
    rw [HistoryUse.pulls, Bool.or_eq_true, decide_eq_true_iff] at hpulls
    rcases hpulls with hopens | hrepair
    · exact hpromise (by simp [(hinv.opening r hr hopens).2])
    · exact hopened (hinv.repaired r hr hrepair)

/-- A request that opens nothing is launched by a session that only marks it. -/
theorem Inv.launched_of_eq (hinv : h.Inv) {s : Session Data View} {use : HistoryUse}
    {lastFrame : Option ℕ} {repairFailed : Bool}
    (hwindow : s.WindowInv h.log h.rebuilding) (hopens : ∀ g, use.opens g = false)
    (huse : ∀ g ∈ use.generation?, g ≤ h.session.openGeneration)
    (hgeneration : s.openGeneration = h.session.openGeneration)
    (hopen : h.session.openState = .opened)
    (hstate : s.openState = h.session.openState) (hpromise : s.openPromise = h.session.openPromise)
    (hstitching : s.stitching.toNat = h.session.stitching.toNat + use.repairs.toNat)
    (hlast : ∀ n ∈ lastFrame, n < h.log.events.length)
    (hcovers : ∀ n ∈ lastFrame, ∀ r ∈ h.requests, r.use.pulls h.session.openGeneration = true →
      r.Covers s n)
    (hopened : s.openState = .opened → ∀ n ∈ lastFrame, s.Reaches n ∨ repairFailed = true ∨
      s.stitching = true ∧ ∃ frame ∈ s.liveBuffer, frame.seq = n) :
    Inv { h.launched (s, some use) with lastFrame, repairFailed } := by
  have hmem (r : HistoryRequest Data View) (hr : r ∈ h.requests ++ [⟨use, none⟩]) :
      r ∈ h.requests ∨ r = ⟨use, none⟩ := by simpa using hr
  refine { window := hwindow, truthful := fun r hr ↦ ?_, generations := fun r hr ↦ ?_, single := ?_,
           opening := fun r hr hr' ↦ ?_, rebuilt := fun r hr hr' ↦ ?_,
           repairing := ?_, repaired := fun r hr hr' ↦ hstate.trans hopen, lastFrame := hlast,
           covered := fun n hn r hr hr' ↦ ?_, opened := hopened }
  · obtain hold | rfl := hmem r hr
    · exact hinv.truthful r hold
    · simp [HistoryRequest.Truthful]
  · rw [launched]
    dsimp only
    rw [hgeneration]
    obtain hold | rfl := hmem r hr
    · exact hinv.generations r hold
    · exact huse
  · simp only [launched, hgeneration, Option.map_some, Option.toList_some, List.countP_append]
    simpa [hopens] using hinv.single
  · simp only [launched, hgeneration, hstate, hpromise] at hr' ⊢
    obtain hold | rfl := hmem r hr
    · exact hinv.opening r hold hr'
    · simp [hopens] at hr'
  · simp only [launched, hgeneration] at hr'
    obtain hold | rfl := hmem r hr
    · exact hinv.rebuilt r hold hr'
    · have hno := hopens h.session.openGeneration
      rw [show use = .openStitch h.session.openGeneration from hr'] at hno
      simp [HistoryUse.opens] at hno
  · simp only [launched, Option.map_some, Option.toList_some, List.countP_append, hinv.repairing,
      hstitching, List.countP_singleton]
    cases use.repairs <;> simp
  · simp only [launched, hgeneration] at hr'
    obtain hold | rfl := hmem r hr
    · exact hcovers n hn r hold hr'
    · simp [HistoryRequest.Covers]

theorem Inv.loadOlder (hinv : h.Inv) : (h.launched h.session.loadOlder).Inv := by
  have hwindow := hinv.window.loadOlder
  rw [Session.loadOlder] at hwindow ⊢
  split_ifs at hwindow ⊢ with hno
  · rwa [launched_none]
  · have hopen : h.session.openState = .opened := not_not.mp fun hstate ↦ hno (.inl hstate)
    exact hinv.launched_of_eq hwindow (fun _ ↦ rfl) (by simp [HistoryUse.generation?]) rfl hopen rfl
      rfl (by simp [HistoryUse.repairs]) hinv.lastFrame hinv.covered hinv.opened

/-- A resync supersedes every request in flight. -/
theorem Inv.resync (hinv : h.Inv) : (h.step .resync).Inv := by
  have hwindow := hinv.window.resync
  rw [step]
  rw [Session.resync] at hwindow ⊢
  split_ifs at hwindow ⊢ with hcold
  · rw [launched_none]
    refine { hinv with window := hwindow, rebuilt := fun r hr hstitch ↦ ?_ }
    have hnil : h.session.events = [] := hinv.window.cold hcold
    simp [hinv.rebuilt r hr hstitch, hnil]
  · rw [Session.openSession, if_neg (by simp), if_neg (by simp)] at hwindow ⊢
    refine hinv.launched_open (by simp [HistoryUse.opens]) hwindow rfl rfl (Nat.le_succ _) rfl
      (fun r hr hpulls ↦ ?_) (by simp)
    have hle := hinv.generations r hr _ (HistoryUse.generation?_of_pulls hpulls)
    exact absurd hle (Nat.not_succ_le_self _)

/-! ### Frames -/

theorem Inv.stitching_of_repairs (hinv : h.Inv) {r : HistoryRequest Data View} (hr : r ∈ h.requests)
    (hrepairs : r.use.repairs = true) : h.session.stitching = true := by
  have hpos : 0 < h.requests.countP (·.use.repairs) := List.countP_pos_iff.mpr ⟨r, hr, hrepairs⟩
  rw [hinv.repairing] at hpos
  cases hs : h.session.stitching with
  | false => simp [hs] at hpos
  | true => rfl

theorem Inv.frame (hinv : h.Inv) (seq : ℕ) (view : Option View) :
    (h.step (.frame seq view)).Inv := by
  rw [step]
  split
  case h_1 => exact hinv
  case h_2 event hevent =>
    have hlog : event ∈ h.log.events := List.mem_of_getElem? hevent
    have hlt : event.seq < h.log.events.length := h.log.numbered.seq_lt hlog
    have hwindow := hinv.window.acceptLiveEvent ⟨event, view⟩ hlog
    -- The frame is the last one from here on, and it waits in the buffer or the window reaches it.
    have hreceived (n : ℕ) (hn : n ∈ some event.seq) : event.seq = n := by simpa using hn
    have hidle (hno : ¬ (h.session.openState = .loading ∨ h.session.stitching = true)) :
        ∀ r ∈ h.requests, ¬ r.use.pulls h.session.openGeneration = true := by
      intro r hr hpulls
      rw [HistoryUse.pulls, Bool.or_eq_true, decide_eq_true_iff] at hpulls
      rcases hpulls with hopens | hrepair
      · exact hno (.inl (hinv.opening r hr hopens).1)
      · exact hno (.inr (hinv.stitching_of_repairs hr (by simp [hrepair, HistoryUse.repairs])))
    rw [Session.acceptLiveEvent] at hwindow ⊢
    split_ifs at hwindow ⊢ with hdetour hstate hskips
    · rw [launched_none]
      have hwaits : ∃ frame ∈ (h.session.buffer ⟨event, view⟩).liveBuffer, frame.seq = event.seq :=
        ⟨⟨event, view⟩, by simp [Session.buffer], rfl⟩
      refine { hinv with window := hwindow, lastFrame := fun n hn ↦ hreceived n hn ▸ hlt,
                         covered := fun n hn r hr hpulls entries more hpage ↦ ?_,
                         opened := fun hopened n hn ↦ ?_ }
      · exact .inr (hreceived n hn ▸ hwaits)
      · have hstitching : h.session.stitching = true := by
          refine hdetour.resolve_left fun hloading ↦ ?_
          exact absurd (hloading.symm.trans hopened) (by simp)
        exact .inr (.inr ⟨hstitching, hreceived n hn ▸ hwaits⟩)
    · rw [launched_none]
      exact { hinv with window := hwindow, lastFrame := fun n hn ↦ hreceived n hn ▸ hlt,
                        covered := fun n hn r hr hpulls ↦ absurd hpulls (hidle hdetour r hr),
                        opened := fun hopened ↦ absurd hopened hstate }
    · have hfree : ¬ (h.session.buffer ⟨event, view⟩).stitching = true := fun hstitching ↦
        hdetour (.inr hstitching)
      rw [Session.repairGap, if_neg hfree] at hwindow ⊢
      refine hinv.launched_of_eq hwindow (fun _ ↦ rfl) ?_ rfl (not_not.mp hstate) rfl rfl ?_
        (fun n hn ↦ hreceived n hn ▸ hlt)
        (fun n hn r hr hpulls ↦ absurd hpulls (hidle hdetour r hr))
        fun hopened n hn ↦
          .inr (.inr ⟨rfl, ⟨event, view⟩, by simp [Session.buffer], hreceived n hn⟩)
      · intro g hg
        simp only [HistoryUse.generation?, Option.mem_some_iff] at hg
        exact hg.ge
      · have hfalse : h.session.stitching = false := Bool.eq_false_iff.mpr hfree
        simp [hfalse, HistoryUse.repairs]
    · rw [launched_none]
      have hgeneration : (h.session.appendLive ⟨event, view⟩).openGeneration
          = h.session.openGeneration := Session.openGeneration_appendLive
      refine { window := hwindow, truthful := hinv.truthful,
               generations := hgeneration ▸ hinv.generations, single := hgeneration ▸ hinv.single,
               opening := fun r hr hopens ↦ absurd
                 (hgeneration ▸ HistoryUse.pulls_of_opens hopens) (hidle hdetour r hr),
               rebuilt := hgeneration ▸ hinv.rebuilt,
               repairing := ?_,
               repaired := fun r hr hrepair ↦
                 Session.openState_appendLive.trans (not_not.mp hstate),
               lastFrame := fun n hn ↦ hreceived n hn ▸ hlt,
               covered := fun n hn r hr hpulls ↦ absurd (hgeneration ▸ hpulls) (hidle hdetour r hr),
               opened := fun hopened n hn ↦
                 .inl (hreceived n hn ▸ Session.reaches_appendLive_self) }
      dsimp only
      rw [Session.stitching_appendLive]
      exact hinv.repairing

/-! ### Settling a request -/

section settle

variable {i : ℕ} {use : HistoryUse} {response : HistoryResponse Data View}

theorem perm_cons_eraseIdx (hi : h.requests[i]? = some ⟨use, some response⟩) :
    h.requests.Perm (⟨use, some response⟩ :: h.requests.eraseIdx i) := by
  obtain ⟨hlt, hget⟩ := List.getElem?_eq_some_iff.mp hi
  rw [← hget]
  exact (List.getElem_cons_eraseIdx_perm hlt).symm

/-- The open of a generation has one pull in flight, and no repair. -/
theorem Inv.not_pulls (hinv : h.Inv) (hi : h.requests[i]? = some ⟨use, some response⟩)
    (huse : use.opens h.session.openGeneration = true) :
    ∀ r ∈ h.requests.eraseIdx i, ¬ r.use.pulls h.session.openGeneration = true := by
  have hsingle := hinv.single
  rw [(perm_cons_eraseIdx hi).countP_eq, List.countP_cons_of_pos (by exact huse)] at hsingle
  intro r hr hpulls
  rw [HistoryUse.pulls, Bool.or_eq_true, decide_eq_true_iff] at hpulls
  rcases hpulls with hopens | hrepair
  · have hnone : (h.requests.eraseIdx i).countP (·.use.opens h.session.openGeneration) = 0 := by
      omega
    exact List.countP_eq_zero.mp hnone r hr hopens
  · have hopened := hinv.repaired r (List.mem_of_mem_eraseIdx hr) hrepair
    have hloading := (hinv.opening _ (List.mem_of_getElem? hi) huse).1
    exact absurd (hopened.symm.trans hloading) (by simp)

/-- A request that launches no other one is settled. -/
theorem Inv.settled_of_eq (hinv : h.Inv) (hi : h.requests[i]? = some ⟨use, some response⟩)
    {s : Session Data View} {repairFailed rebuilding : Bool}
    (hwindow : s.WindowInv h.log rebuilding)
    (hrebuilding : h.rebuilding = false → rebuilding = false)
    (hgeneration : s.openGeneration = h.session.openGeneration)
    (hstitching : s.stitching = (h.session.stitching && !use.repairs))
    (hpulling : ∀ r ∈ h.requests.eraseIdx i, r.use.pulls h.session.openGeneration = true →
      s.openState = h.session.openState ∧ s.openPromise = h.session.openPromise ∧
        s.liveBuffer = h.session.liveBuffer)
    (hopened : s.openState = .opened → ∀ n ∈ h.lastFrame, s.Reaches n ∨ repairFailed = true ∨
      s.stitching = true ∧ ∃ frame ∈ s.liveBuffer, frame.seq = n) :
    Inv { h with session := s, requests := h.requests.eraseIdx i, repairFailed, rebuilding } := by
  have hsub (r : HistoryRequest Data View) (hr : r ∈ h.requests.eraseIdx i) : r ∈ h.requests :=
    List.mem_of_mem_eraseIdx hr
  refine { window := hwindow, truthful := fun r hr ↦ hinv.truthful r (hsub r hr),
           generations := fun r hr ↦ ?_, single := ?_, opening := fun r hr hopens ↦ ?_,
           rebuilt := fun r hr hstitch ↦
             hrebuilding (hinv.rebuilt r (hsub r hr) (hgeneration ▸ hstitch)),
           repairing := ?_, repaired := fun r hr hrepair ↦ ?_, lastFrame := hinv.lastFrame,
           covered := fun n hn r hr hpulls ↦ ?_, opened := hopened }
  · dsimp only
    rw [hgeneration]
    exact hinv.generations r (hsub r hr)
  · dsimp only
    rw [hgeneration]
    exact ((List.eraseIdx_sublist _ _).countP_le).trans hinv.single
  · dsimp only at hr hopens ⊢
    rw [hgeneration] at hopens ⊢
    obtain ⟨hstate, hpromise, -⟩ := hpulling r hr (HistoryUse.pulls_of_opens hopens)
    rw [hstate, hpromise]
    exact hinv.opening r (hsub r hr) hopens
  · have hcount := hinv.repairing
    rw [(perm_cons_eraseIdx hi).countP_eq, List.countP_cons] at hcount
    dsimp only at hcount ⊢
    rw [hstitching]
    cases hold : h.session.stitching <;> cases hrepairs : use.repairs <;>
      simp_all
  · have huse : r.use = .repairGap h.session.openGeneration := hgeneration ▸ hrepair
    have hstate := (hpulling r hr (by simp [huse, HistoryUse.pulls])).1
    exact hstate.trans (hinv.repaired r (hsub r hr) huse)
  · dsimp only at hr hpulls ⊢
    rw [hgeneration] at hpulls
    have hcovers := hinv.covered n hn r (hsub r hr) hpulls
    rwa [HistoryRequest.Covers, (hpulling r hr hpulls).2.2]

theorem settled_none {s : Session Data View} (hsettle : h.session.settle response use = (s, none)) :
    h.settled i use response =
      { h with
        session := s
        requests := h.requests.eraseIdx i
        repairFailed := h.repairFailed || failsRepair h.session use response
        rebuilding := h.rebuilding && !installs h.session use response } := by
  rw [settled, hsettle, launched_none]

/-- The answer of an open that a resync has superseded is dropped. -/
theorem Inv.settled_superseded (hinv : h.Inv) (hi : h.requests[i]? = some ⟨use, some response⟩)
    (hsettle : h.session.settle response use = (h.session, none)) (hrepairs : use.repairs = false)
    (hinstalls : installs h.session use response = false) : (h.settled i use response).Inv := by
  rw [settled_none hsettle, hinstalls]
  refine hinv.settled_of_eq hi (by simpa using hinv.window) (by simp) rfl (by simp [hrepairs])
    (fun r hr hopens ↦ ⟨rfl, rfl, rfl⟩) fun hopened n hn ↦ ?_
  rcases hinv.opened hopened n hn with hreaches | hfailed | hwaits
  · exact .inl hreaches
  · exact .inr (.inl (by simp [hfailed]))
  · exact .inr (.inr hwaits)

/-- A page that is installed joins the frames that wait for it. -/
def Gapless (s : Session Data View) (use : HistoryUse) (response : HistoryResponse Data View) :
    Prop :=
  ∀ entries more, response = .page entries more → installs s use response = true →
    Joins (entries.getLast?.map (·.seq)) s.liveBuffer

/-- No frame past the window waits when a superseded repair ends. -/
def Drained (s : Session Data View) (use : HistoryUse) : Prop :=
  ∀ generation, use = .repairGap generation → generation ≠ s.openGeneration →
    s.openState = .opened → ∀ frame ∈ s.liveBuffer, s.Reaches frame.seq

/-- A page of the open that is current, or of a repair of it, is installed. -/
theorem Inv.installed (hinv : h.Inv) (hi : h.requests[i]? = some ⟨use, some response⟩)
    (hgapless : Gapless h.session use response) (hstate : h.session.openState ≠ .cold)
    {entries : List (HistoryEntry Data View)} {more : Bool} (hpage : response = .page entries more)
    (hinstalls : installs h.session use response = true) :
    (h.session.installWindow entries more).WindowInv h.log false := by
  have htruthful := hinv.truthful _ (List.mem_of_getElem? hi) entries more (by rw [hpage])
  exact hinv.window.installWindow hstate htruthful (hgapless entries more hpage hinstalls)

theorem Inv.settled_openTail (hinv : h.Inv) {generation : ℕ}
    (hi : h.requests[i]? = some ⟨.openTail generation, some response⟩)
    (hgapless : Gapless h.session (.openTail generation) response) :
    (h.settled i (.openTail generation) response).Inv := by
  by_cases hgeneration : generation = h.session.openGeneration
  · subst hgeneration
    have hopens : (HistoryUse.openTail h.session.openGeneration).opens h.session.openGeneration
        = true := by simp [HistoryUse.opens]
    have hmem := List.mem_of_getElem? hi
    obtain ⟨hloading, hpromise⟩ := hinv.opening _ hmem hopens
    have hidle := hinv.not_pulls hi hopens
    cases response with
    | page entries more =>
      have hwindow := hinv.installed hi hgapless (by simp [hloading]) rfl (by simp [installs])
      have hreaches (n : ℕ) (hn : n ∈ h.lastFrame) :
          (h.session.installWindow entries more).Reaches n :=
        Session.reaches_installWindow
          (hinv.covered n hn _ hmem (HistoryUse.pulls_of_opens hopens) entries more rfl)
      have hrebuilt : (h.rebuilding && !installs h.session
          (.openTail h.session.openGeneration) (.page entries more)) = false := by
        simp [installs]
      by_cases hbehind : (h.session.installWindow entries more).behindBaseline = true
      · have hinstalled : Inv { h with
            session := h.session.installWindow entries more
            requests := h.requests.eraseIdx i
            rebuilding := false } := by
          refine hinv.settled_of_eq hi hwindow (fun _ ↦ rfl) Session.openGeneration_installWindow
            (by simp [HistoryUse.repairs])
            (fun r hr hr' ↦ absurd hr' (hidle r hr)) fun hopened ↦ ?_
          rw [Session.openState_installWindow, hloading] at hopened
          simp at hopened
        have hopens' : (HistoryUse.openStitch h.session.openGeneration).opens
            (h.session.installWindow entries more).openGeneration = true := by
          simp [HistoryUse.opens]
        have hlaunched := hinstalled.launched_open hopens' hwindow (by simpa using hloading)
          (by simpa using hpromise) le_rfl rfl (by simpa using hidle) (fun _ ↦ rfl)
        have hsettle : h.session.settle (.page entries more) (.openTail h.session.openGeneration)
            = (h.session.installWindow entries more,
              some (.openStitch h.session.openGeneration)) := by
          simp [Session.settle, Session.settleOpenTail, hbehind]
        have hfailed : (h.repairFailed || failsRepair h.session
            (.openTail h.session.openGeneration) (.page entries more)) = h.repairFailed := by
          simp [failsRepair]
        rw [settled, hsettle, hrebuilt, hfailed]
        exact hlaunched
      · have hsettle : h.session.settle (.page entries more) (.openTail h.session.openGeneration)
            = ((h.session.installWindow entries more).openSettled h.session.openGeneration .opened,
              none) := by
          simp [Session.settle, Session.settleOpenTail, hbehind]
        rw [settled_none hsettle]
        refine hinv.settled_of_eq hi ?_ (by simp [installs]) Session.openGeneration_installWindow
          (by simp [Session.openSettled, HistoryUse.repairs])
          (fun r hr hr' ↦ absurd hr' (hidle r hr)) fun hopened n hn ↦ .inl (hreaches n hn)
        rw [hrebuilt]
        exact hwindow.openSettled (.inl ⟨rfl, rfl⟩)
    | _ =>
      rw [settled_none (s := h.session.openSettled h.session.openGeneration .error)
        (by simp [Session.settle, Session.settleOpenTail])]
      refine hinv.settled_of_eq hi ?_ (by simp [installs]) rfl
        (by simp [Session.openSettled, HistoryUse.repairs])
        (fun r hr hr' ↦ absurd hr' (hidle r hr)) fun hopened ↦ ?_
      · simpa [installs] using hinv.window.openSettled (.inr rfl)
      · simp [Session.openSettled] at hopened
  · refine hinv.settled_superseded hi ?_ rfl ?_
    · cases response <;> simp [Session.settle, Session.settleOpenTail, hgeneration]
    · cases response <;> simp [installs, hgeneration]

theorem Inv.settled_openStitch (hinv : h.Inv) {generation : ℕ}
    (hi : h.requests[i]? = some ⟨.openStitch generation, some response⟩)
    (hgapless : Gapless h.session (.openStitch generation) response) :
    (h.settled i (.openStitch generation) response).Inv := by
  by_cases hgeneration : generation = h.session.openGeneration
  · subst hgeneration
    have hopens : (HistoryUse.openStitch h.session.openGeneration).opens h.session.openGeneration
        = true := by simp [HistoryUse.opens]
    have hmem := List.mem_of_getElem? hi
    obtain ⟨hloading, hpromise⟩ := hinv.opening _ hmem hopens
    have hidle := hinv.not_pulls hi hopens
    cases response with
    | page entries more =>
      have hwindow := hinv.installed hi hgapless (by simp [hloading]) rfl (by simp [installs])
      rw [settled_none (s := (h.session.installWindow entries more).openSettled
        h.session.openGeneration .opened) (by simp [Session.settle, Session.settleOpenStitch])]
      refine hinv.settled_of_eq hi ?_ (by simp [installs]) Session.openGeneration_installWindow
        (by simp [Session.openSettled, HistoryUse.repairs])
        (fun r hr hr' ↦ absurd hr' (hidle r hr)) fun hopened n hn ↦ .inl ?_
      · simpa [installs] using hwindow.openSettled (.inl ⟨rfl, rfl⟩)
      · exact Session.reaches_installWindow
          (hinv.covered n hn _ hmem (HistoryUse.pulls_of_opens hopens) entries more rfl)
    | refused =>
      rw [settled_none (s := h.session.openSettled h.session.openGeneration .opened)
        (by simp [Session.settle, Session.settleOpenStitch])]
      have hrebuilt := hinv.rebuilt _ hmem rfl
      refine hinv.settled_of_eq hi ?_ (by simp [installs]) rfl
        (by simp [Session.openSettled, HistoryUse.repairs])
        (fun r hr hr' ↦ absurd hr' (hidle r hr)) fun hopened n hn ↦ .inr (.inl ?_)
      · simpa [installs] using hinv.window.openSettled (.inl ⟨rfl, hrebuilt⟩)
      · simp [failsRepair]
    | thrown =>
      rw [settled_none (s := h.session.openSettled h.session.openGeneration .error)
        (by simp [Session.settle, Session.settleOpenStitch])]
      refine hinv.settled_of_eq hi ?_ (by simp [installs]) rfl
        (by simp [Session.openSettled, HistoryUse.repairs])
        (fun r hr hr' ↦ absurd hr' (hidle r hr)) fun hopened ↦ ?_
      · simpa [installs] using hinv.window.openSettled (.inr rfl)
      · simp [Session.openSettled] at hopened
  · refine hinv.settled_superseded hi ?_ rfl ?_
    · cases response <;> simp [Session.settle, Session.settleOpenStitch, hgeneration]
    · cases response <;> simp [installs, hgeneration]

theorem Inv.settled_loadOlder (hinv : h.Inv) {beforeSeq : ℕ}
    (hi : h.requests[i]? = some ⟨.loadOlder beforeSeq, some response⟩) :
    (h.settled i (.loadOlder beforeSeq) response).Inv := by
  have hwindow : (h.session.settleOlder response).WindowInv h.log h.rebuilding := by
    refine hinv.window.settleOlder fun entries more hpage ↦ ?_
    exact hinv.truthful _ (List.mem_of_getElem? hi) entries more (by rw [hpage])
  obtain ⟨hstate, hpromise, hgeneration, hstitching, hbuffer⟩ :=
    h.session.settleOlder_keeps response
  have hinstalls : installs h.session (.loadOlder beforeSeq) response = false := by
    cases response <;> rfl
  have hfails : failsRepair h.session (.loadOlder beforeSeq) response = false := by
    cases response <;> rfl
  rw [settled_none rfl, hinstalls, hfails]
  refine hinv.settled_of_eq hi (by simpa using hwindow) (by simp) hgeneration
    (by simp [hstitching, HistoryUse.repairs]) (fun r hr hpulls ↦ ⟨hstate, hpromise, hbuffer⟩)
    fun hopened n hn ↦ ?_
  obtain ⟨run, hshows, -⟩ := hinv.window.shows
  rcases hinv.opened (hstate ▸ hopened) n hn with hreaches | hfailed | ⟨hs, hwaits⟩
  · exact .inl (hshows.reaches_settleOlder hreaches)
  · exact .inr (.inl (by simp [hfailed]))
  · exact .inr (.inr ⟨hstitching.trans hs, by rwa [hbuffer]⟩)

theorem Inv.settled_repairGap (hinv : h.Inv) {generation : ℕ}
    (hi : h.requests[i]? = some ⟨.repairGap generation, some response⟩)
    (hgapless : Gapless h.session (.repairGap generation) response)
    (hdrained : Drained h.session (.repairGap generation)) :
    (h.settled i (.repairGap generation) response).Inv := by
  have hmem := List.mem_of_getElem? hi
  have hrepairs : (HistoryUse.repairGap generation).repairs = true := rfl
  have hpulls : generation = h.session.openGeneration →
      (HistoryUse.repairGap generation).pulls h.session.openGeneration = true := by
    rintro rfl
    simp [HistoryUse.pulls]
  -- The one repair in flight is this one.
  have hother (r : HistoryRequest Data View) (hr : r ∈ h.requests.eraseIdx i) :
      ¬ r.use.repairs = true := by
    have hcount := hinv.repairing
    rw [hinv.stitching_of_repairs hmem hrepairs, (perm_cons_eraseIdx hi).countP_eq,
      List.countP_cons_of_pos (by exact hrepairs)] at hcount
    have hnone : (h.requests.eraseIdx i).countP (·.use.repairs) = 0 := by simpa using hcount
    exact List.countP_eq_zero.mp hnone r hr
  by_cases hinstalls : installs h.session (.repairGap generation) response = true
  · cases response with
    | page entries more =>
      have hcurrent : generation = h.session.openGeneration ∧ h.session.openState = .opened := by
        simpa [installs] using hinstalls
      have hwindow := hinv.installed hi hgapless (by simp [hcurrent.2]) rfl hinstalls
      have hkept : Session.WindowInv h.log
          { h.session.installWindow entries more with stitching := false } false :=
        hwindow.of_eq rfl rfl rfl rfl rfl (.inl rfl)
      rw [settled_none (s := { h.session.installWindow entries more with stitching := false })
        (by simp [Session.settle, Session.settleRepair, hcurrent]), hinstalls]
      refine hinv.settled_of_eq hi (by rwa [Bool.not_true, Bool.and_false]) (by simp)
        Session.openGeneration_installWindow (by simp [HistoryUse.repairs])
        (fun r hr hr' ↦ ?_) fun hopened n hn ↦ .inl ?_
      · rw [HistoryUse.pulls, Bool.or_eq_true, decide_eq_true_iff] at hr'
        rcases hr' with hopens | hrepair
        · have hloading := (hinv.opening r (List.mem_of_mem_eraseIdx hr) hopens).1
          exact absurd (hcurrent.2.symm.trans hloading) (by simp)
        · exact absurd (by simp [hrepair, HistoryUse.repairs]) (hother r hr)
      · exact Session.reaches_installWindow
          (hinv.covered n hn _ hmem (hpulls hcurrent.1) entries more rfl)
    | _ => simp [installs] at hinstalls
  · have hsettle : h.session.settle response (.repairGap generation)
        = ({ h.session with stitching := false }, none) := by
      cases response <;> simp_all [Session.settle, Session.settleRepair, installs]
    rw [settled_none hsettle, Bool.eq_false_iff.mpr hinstalls]
    have hkept : Session.WindowInv h.log { h.session with stitching := false } h.rebuilding :=
      hinv.window.of_eq rfl rfl rfl rfl rfl (.inl rfl)
    refine hinv.settled_of_eq hi (by rwa [Bool.not_false, Bool.and_true]) (by simp) rfl
      (by simp [HistoryUse.repairs]) (fun r hr hr' ↦ ⟨rfl, rfl, rfl⟩) fun hopened n hn ↦ ?_
    · rcases hinv.opened hopened n hn with hreaches | hfailed | ⟨-, frame, hframe, rfl⟩
      · exact .inl hreaches
      · exact .inr (.inl (by simp [hfailed]))
      · by_cases hcurrent : generation = h.session.openGeneration
        · refine .inr (.inl ?_)
          have hopened' : h.session.openState = .opened := hopened
          cases response <;> simp_all [installs, failsRepair]
        · exact .inl (hdrained generation rfl hcurrent hopened frame hframe)

end settle

/-- A step that neither stitches a gap nor strands a frame. -/
def Undisturbing (h : ClientHost Data View) : ClientAction Data View → Prop
  | .deliver i => ∀ use response, h.requests[i]? = some ⟨use, some response⟩ →
      Gapless h.session use response ∧ Drained h.session use
  | _ => True

theorem Inv.deliver (hinv : h.Inv) {i : ℕ} (hok : h.Undisturbing (.deliver i)) :
    (h.step (.deliver i)).Inv := by
  rw [step]
  split
  case h_2 => exact hinv
  case h_1 use response hi =>
    obtain ⟨hgapless, hdrained⟩ := hok use response hi
    cases use with
    | openTail generation => exact hinv.settled_openTail hi hgapless
    | openStitch generation => exact hinv.settled_openStitch hi hgapless
    | loadOlder beforeSeq => exact hinv.settled_loadOlder hi
    | repairGap generation => exact hinv.settled_repairGap hi hgapless hdrained

theorem Inv.step (hinv : h.Inv) {action : ClientAction Data View} (hok : h.Undisturbing action) :
    (h.step action).Inv := by
  cases action with
  | grow data => exact hinv.grow data
  | openSession => exact hinv.openSession
  | loadOlder => exact hinv.loadOlder
  | resync => exact hinv.resync
  | frame seq view => exact hinv.frame seq view
  | subscribed lastSeq => exact hinv.subscribed lastSeq
  | serve i cut views => exact hinv.serve i cut views
  | fail i thrown => exact hinv.fail i thrown
  | deliver i => exact hinv.deliver hok

/-! ## Runs -/

def UndisturbedRun (h : ClientHost Data View) : List (ClientAction Data View) → Prop
  | [] => True
  | action :: actions => h.Undisturbing action ∧ UndisturbedRun (h.step action) actions

/-- The window is a contiguous copy of the host log that the assembler has been fed, and with no
request in flight it reaches the last frame unless a repair has failed. -/
structure Faithful (h : ClientHost Data View) : Prop where
  contiguous : h.session.events <:+: h.log.events
  fed : h.session.conversation.sortedInputs.map (·.event) = h.session.events ∧
    h.session.conversation.sortedInputs.map (·.view) = h.session.views
  reaches : h.session.openState = .opened → h.requests = [] → ∀ n ∈ h.lastFrame,
    h.session.Reaches n ∨ h.repairFailed = true

theorem Inv.run (hinv : h.Inv) {actions : List (ClientAction Data View)}
    (hok : h.UndisturbedRun actions) : (h.run actions).Inv := by
  induction actions generalizing h with
  | nil => exact hinv
  | cons action actions ih => exact ih (hinv.step hok.1) hok.2

theorem Inv.faithful_iff (hinv : h.Inv) : h.Faithful ↔ h.rebuilding = false := by
  obtain ⟨run, hshows, hfed⟩ := hinv.window.shows
  constructor
  · intro hfaithful
    cases hre : h.rebuilding with
    | false => rfl
    | true =>
      obtain ⟨hnil, -, hinputs⟩ := hinv.window.rebuilding hre
      have hnone := hfaithful.fed.1
      rw [hnil, List.map_eq_nil_iff] at hnone
      have hlength := congrArg List.length hnone
      rw [Conversation.sortedInputs, Conversation.sorted, List.length_mergeSort] at hlength
      exact absurd (List.map_eq_nil_iff.mp (List.length_eq_zero_iff.mp hlength)) hinputs
  · intro hre
    have hinputs := (hfed hre).sortedInputs hshows.increasing
    refine ⟨hshows.events ▸ hshows.contiguous, ?_, fun hopened hidle n hn ↦ ?_⟩
    · rw [hinputs]
      exact ⟨hshows.events.symm, hshows.views.symm⟩
    · rcases hinv.opened hopened n hn with hreaches | hfailed | ⟨hstitching, -⟩
      · exact .inl hreaches
      · exact .inr hfailed
      · have hcount := hinv.repairing
        rw [hidle, hstitching] at hcount
        simp at hcount

/-- **The window of a client.** -/
theorem faithful_run_iff (log : HostLog Data) (actions : List (ClientAction Data View))
    (hok : (start log).UndisturbedRun actions) :
    ((start log).run actions).Faithful ↔ ((start log).run actions).rebuilding = false :=
  ((inv_start log).run hok).faithful_iff

/-- A host log without events. -/
def emptyLog : HostLog Unit := ⟨[], nofun⟩

/-- A frame behind a gap, the repair that fills it, and a resync. -/
theorem faithful_run_iff_repaired :
    ((start emptyLog : ClientHost Unit Unit).run
      [.grow (), .openSession, .serve 0 0 (fun _ ↦ none), .deliver 0, .grow (), .grow (),
        .frame 2 none, .serve 0 0 (fun _ ↦ none), .deliver 0, .resync]).Faithful ↔
    ((start emptyLog : ClientHost Unit Unit).run
      [.grow (), .openSession, .serve 0 0 (fun _ ↦ none), .deliver 0, .grow (), .grow (),
        .frame 2 none, .serve 0 0 (fun _ ↦ none), .deliver 0, .resync]).rebuilding = false := by
  apply faithful_run_iff
  refine ⟨trivial, trivial, trivial, ?_, trivial, trivial, trivial, trivial, ?_, trivial, trivial⟩
  · intro use response hi
    obtain ⟨rfl, hresponse⟩ := HistoryRequest.mk.inj (Option.some.inj hi)
    obtain rfl := Option.some.inj hresponse
    refine ⟨fun entries more hpage hinstalls ↦ ?_, fun generation huse ↦ by simp at huse⟩
    obtain ⟨rfl, rfl⟩ := HistoryResponse.page.inj hpage
    exact trivial
  · intro use response hi
    obtain ⟨rfl, hresponse⟩ := HistoryRequest.mk.inj (Option.some.inj hi)
    obtain rfl := Option.some.inj hresponse
    refine ⟨fun entries more hpage hinstalls ↦ ?_, fun generation huse hstale ↦ ?_⟩
    · obtain ⟨rfl, rfl⟩ := HistoryResponse.page.inj hpage
      exact trivial
    · obtain rfl := HistoryUse.repairGap.inj huse
      exact absurd rfl hstale

/-- A frame that arrives while the window is loading, behind one that was lost. -/
theorem not_faithful_stitched :
    ¬ ((start emptyLog : ClientHost Unit Unit).run
      [.grow (), .openSession, .serve 0 0 (fun _ ↦ none), .grow (), .grow (), .frame 2 none,
        .deliver 0]).Faithful := fun h ↦ absurd h.contiguous (by decide)

end ClientHost

end XxAgent.Client
