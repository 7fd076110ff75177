import XxAgent.Ecma.OrderedMap
import XxAgent.Log.Numbered
import Mathlib.Data.List.Sort

/-!
# The event window of a client session

A client holds a part of the host log: it opens on the tail page, pages backwards, appends the live
frames and pulls the tail page again where a frame is missing. Every history request is answered
later, and the steps of a session are its calls, its frames and the answers.
-/

namespace XxAgent.Client

open Ecma

/-- A session event: its sequence number, and what the window does not look at. -/
structure HostEvent (Data : Type) where
  seq : ℕ
  data : Data
deriving DecidableEq

/-- `HistoryEntry`: an event and its wire view. -/
structure HistoryEntry (Data View : Type) where
  event : HostEvent Data
  view : Option View
deriving DecidableEq

variable {Data View : Type}

namespace HistoryEntry

def seq (entry : HistoryEntry Data View) : ℕ := entry.event.seq

end HistoryEntry

/-! ## The inputs of the assembler -/

/-- What the conversation assembler has been fed. -/
structure Conversation (Data View : Type) where
  inputs : OrderedMap ℕ (HistoryEntry Data View)
  hasMore : Bool

namespace Conversation

def new : Conversation Data View := ⟨.empty, false⟩

/-- `[...entries].sort((left, right) => left.event.seq - right.event.seq)` -/
def sorted (entries : List (HistoryEntry Data View)) : List (HistoryEntry Data View) :=
  entries.mergeSort fun left right ↦ left.seq ≤ right.seq

def sortedInputs (c : Conversation Data View) : List (HistoryEntry Data View) :=
  sorted (c.inputs.entries.map Prod.snd)

def setInputs (inputs : OrderedMap ℕ (HistoryEntry Data View))
    (entries : List (HistoryEntry Data View)) : OrderedMap ℕ (HistoryEntry Data View) :=
  entries.foldl (fun inputs entry ↦ inputs.set entry.seq entry) inputs

def replaceWindow (entries : List (HistoryEntry Data View)) (hasMore : Bool) :
    Conversation Data View := ⟨setInputs .empty (sorted entries), hasMore⟩

def append (c : Conversation Data View) (entry : HistoryEntry Data View) :
    Conversation Data View :=
  match c.inputs.get? entry.seq with
  | some _ => c
  | none => { c with inputs := c.inputs.set entry.seq entry }

def prepend (c : Conversation Data View) (entries : List (HistoryEntry Data View))
    (hasMore : Bool) : Conversation Data View :=
  ⟨setInputs c.inputs (sorted (entries.filter fun entry ↦ (c.inputs.get? entry.seq).isNone)),
    hasMore⟩

end Conversation

/-! ## The session -/

inductive OpenState where
  | cold
  | loading
  | opened
  | error
deriving DecidableEq

/-- The window, the state of the open, and the live frames that wait for a page. -/
structure Session (Data View : Type) where
  events : List (HostEvent Data)
  /-- Aligned with `events`. -/
  views : List (Option View)
  baseSeq : ℕ
  hasMore : Bool
  openState : OpenState
  /-- The open in flight, by its generation: a generation has one open in flight at a time. -/
  openPromise : Option ℕ
  openGeneration : ℕ
  loadingOlder : Bool
  liveBuffer : List (HistoryEntry Data View)
  stitching : Bool
  subscribedLastSeq : Option ℤ
  conversation : Conversation Data View

/-- A history request, by the place that awaits it. -/
inductive HistoryUse where
  /-- The first pull of `doOpen`. -/
  | openTail (generation : ℕ)
  /-- Its second pull, past a window that ends before the subscribed baseline. -/
  | openStitch (generation : ℕ)
  | loadOlder (beforeSeq : ℕ)
  | repairGap (generation : ℕ)
deriving DecidableEq

inductive HistoryResponse (Data View : Type) where
  | page (entries : List (HistoryEntry Data View)) (hasMore : Bool)
  /-- `!result.ok` -/
  | refused
  /-- The call throws. -/
  | thrown

namespace Session

def new : Session Data View where
  events := []
  views := []
  baseSeq := 0
  hasMore := false
  openState := .cold
  openPromise := none
  openGeneration := 0
  loadingOlder := false
  liveBuffer := []
  stitching := false
  subscribedLastSeq := none
  conversation := .new

def windowTailSeq (s : Session Data View) : Option ℕ := s.events.getLast?.map (·.seq)

def push (s : Session Data View) (entry : HistoryEntry Data View) : Session Data View :=
  { s with
    events := s.events ++ [entry.event]
    views := s.views ++ [entry.view]
    conversation := s.conversation.append entry }

/-- A replayed frame is dropped. -/
def appendLive (s : Session Data View) (entry : HistoryEntry Data View) : Session Data View :=
  match s.windowTailSeq with
  | some tail => if entry.seq ≤ tail then s else s.push entry
  | none => s.push entry

/-- The window of a page, before the buffered frames are stitched. -/
def installPage (s : Session Data View) (entries : List (HistoryEntry Data View))
    (hasMore : Bool) : Session Data View :=
  { s with
    events := entries.map (·.event)
    views := entries.map (·.view)
    baseSeq := (entries.head?.map (·.seq)).getD 0
    hasMore
    conversation := .replaceWindow entries hasMore
    liveBuffer := [] }

def installWindow (s : Session Data View) (entries : List (HistoryEntry Data View))
    (hasMore : Bool) : Session Data View :=
  s.liveBuffer.foldl appendLive (s.installPage entries hasMore)

/-- A session, and the history request it has launched. -/
abbrev Launch (Data View : Type) := Session Data View × Option HistoryUse

def openSession (s : Session Data View) : Launch Data View :=
  if s.openState = .opened then (s, none)
  else if s.openPromise ≠ none then (s, none)
  else ({ s with openState := .loading, openPromise := some s.openGeneration },
    some (.openTail s.openGeneration))

def loadOlder (s : Session Data View) : Launch Data View :=
  if s.openState ≠ .opened ∨ s.hasMore = false ∨ s.loadingOlder = true then (s, none)
  else ({ s with loadingOlder := true }, some (.loadOlder s.baseSeq))

def resync (s : Session Data View) : Launch Data View :=
  if s.openState = .cold then (s, none)
  else openSession
    { s with
      openGeneration := s.openGeneration + 1
      openPromise := none
      openState := .cold
      events := []
      views := []
      baseSeq := 0
      subscribedLastSeq := none
      liveBuffer := [] }

def repairGap (s : Session Data View) : Launch Data View :=
  if s.stitching then (s, none)
  else ({ s with stitching := true }, some (.repairGap s.openGeneration))

def buffer (s : Session Data View) (entry : HistoryEntry Data View) : Session Data View :=
  { s with liveBuffer := s.liveBuffer ++ [entry] }

/-- A frame that skips a sequence number. An empty window takes any. -/
def skips (tail : Option ℕ) (seq : ℕ) : Bool :=
  match tail with
  | some tail => decide (tail + 1 < seq)
  | none => false

def acceptLiveEvent (s : Session Data View) (entry : HistoryEntry Data View) :
    Launch Data View :=
  if s.openState = .loading ∨ s.stitching = true then (s.buffer entry, none)
  else if s.openState ≠ .opened then (s, none)
  else if skips s.windowTailSeq entry.seq then (s.buffer entry).repairGap
  else (s.appendLive entry, none)

/-- The end of `doOpen`: its promise is not the one of a later open. -/
def openSettled (s : Session Data View) (generation : ℕ) (openState : OpenState) :
    Session Data View :=
  { s with
    openState
    openPromise := if s.openPromise = some generation then none else s.openPromise }

/-- The baseline of the subscription is past the window. -/
def behindBaseline (s : Session Data View) : Bool :=
  match s.subscribedLastSeq, s.windowTailSeq with
  | some lastSeq, some tail => decide ((tail : ℤ) < lastSeq)
  | _, _ => false

/-- `doOpen` behind its first pull. -/
def settleOpenTail (s : Session Data View) (generation : ℕ) :
    HistoryResponse Data View → Launch Data View
  | .page entries hasMore =>
    if generation ≠ s.openGeneration then (s, none)
    else
      let s := s.installWindow entries hasMore
      if s.behindBaseline then (s, some (.openStitch generation))
      else (s.openSettled generation .opened, none)
  | .refused | .thrown =>
    if generation ≠ s.openGeneration then (s, none)
    else (s.openSettled generation .error, none)

/-- `doOpen` behind its second pull. -/
def settleOpenStitch (s : Session Data View) (generation : ℕ) :
    HistoryResponse Data View → Session Data View
  | .page entries hasMore =>
    if generation ≠ s.openGeneration then s
    else (s.installWindow entries hasMore).openSettled generation .opened
  | .refused =>
    if generation ≠ s.openGeneration then s else s.openSettled generation .opened
  | .thrown =>
    if generation ≠ s.openGeneration then s else s.openSettled generation .error

/-- `loadOlder` behind its pull. A page that does not end right before the window is dropped. -/
def settleOlder (s : Session Data View) (response : HistoryResponse Data View) :
    Session Data View :=
  let s := { s with loadingOlder := false }
  match response with
  | .page older hasMore =>
    match older.head?, older.getLast? with
    | some head, some tail =>
      if tail.seq + 1 ≠ s.baseSeq then
        { s with hasMore := false, conversation := s.conversation.prepend [] false }
      else
        { s with
          events := older.map (·.event) ++ s.events
          views := older.map (·.view) ++ s.views
          baseSeq := head.seq
          hasMore
          conversation := s.conversation.prepend older hasMore }
    | _, _ => { s with hasMore, conversation := s.conversation.prepend [] hasMore }
  | .refused | .thrown => s

/-- `repairGap` behind its pull. -/
def settleRepair (s : Session Data View) (generation : ℕ) (response : HistoryResponse Data View) :
    Session Data View :=
  match response with
  | .page entries hasMore =>
    if generation = s.openGeneration ∧ s.openState = .opened then
      { s.installWindow entries hasMore with stitching := false }
    else { s with stitching := false }
  | .refused | .thrown => { s with stitching := false }

/-- The continuation of a request that is answered. -/
def settle (s : Session Data View) (response : HistoryResponse Data View) :
    HistoryUse → Launch Data View
  | .openTail generation => s.settleOpenTail generation response
  | .openStitch generation => (s.settleOpenStitch generation response, none)
  | .loadOlder _ => (s.settleOlder response, none)
  | .repairGap generation => (s.settleRepair generation response, none)

end Session

/-! ## The host and the wire -/

/-- A request in flight: the host answers it before it settles. -/
structure HistoryRequest (Data View : Type) where
  use : HistoryUse
  response : Option (HistoryResponse Data View)

/-- The log of the host: an event carries its position. -/
structure HostLog (Data : Type) where
  events : List (HostEvent Data)
  numbered : Log.Numbered HostEvent.seq events

namespace HostLog

def append (log : HostLog Data) (data : Data) : HostLog Data where
  events := log.events ++ [⟨log.events.length, data⟩]
  numbered := log.numbered.concat rfl

/-- The events a request asks for. -/
def window (log : HostLog Data) : HistoryUse → List (HostEvent Data)
  | .loadOlder beforeSeq => log.events.filter fun event ↦ event.seq < beforeSeq
  | _ => log.events

end HostLog

/-- One client session and its host. -/
structure ClientHost (Data View : Type) where
  log : HostLog Data
  session : Session Data View
  requests : List (HistoryRequest Data View)
  /-- The last frame that the session received. -/
  lastFrame : Option ℕ
  /-- A pull that was to bring the window past its tail has failed since that frame. -/
  repairFailed : Bool
  /-- A resync has dropped the window, and no page has been installed since. -/
  rebuilding : Bool

inductive ClientAction (Data View : Type) where
  /-- The host logs an event. -/
  | grow (data : Data)
  | openSession
  | loadOlder
  | resync
  /-- `session/event`: the event at a sequence number, with the view the host presents it by. -/
  | frame (seq : ℕ) (view : Option View)
  /-- `session/subscribed` -/
  | subscribed (lastSeq : ℤ)
  /-- The host answers a request with the page from `cut`. -/
  | serve (request cut : ℕ) (views : ℕ → Option View)
  /-- A request fails. -/
  | fail (request : ℕ) (thrown : Bool)
  /-- The answer of a request reaches the session. -/
  | deliver (request : ℕ)

namespace ClientHost

def start (log : HostLog Data) : ClientHost Data View := ⟨log, .new, [], none, false, false⟩

/-- The session after a call, and the request it launched. -/
def launched (h : ClientHost Data View) (launch : Session.Launch Data View) :
    ClientHost Data View :=
  { h with
    session := launch.1
    requests := h.requests ++ (launch.2.map fun use ↦ ⟨use, none⟩).toList }

/-- The page of a window, from `cut` on. Only an empty window has an empty page. -/
def pageOf (window : List (HostEvent Data)) (cut : ℕ) (views : ℕ → Option View) :
    Option (HistoryResponse Data View) :=
  if cut = 0 ∨ cut < window.length then
    some (.page ((window.drop cut).map fun event ↦ ⟨event, views event.seq⟩) (0 < cut))
  else none

/-- An unanswered request is answered. -/
def answer (h : ClientHost Data View) (i : ℕ)
    (response : HistoryUse → Option (HistoryResponse Data View)) : ClientHost Data View :=
  match h.requests[i]? with
  | some ⟨use, none⟩ => { h with requests := h.requests.set i ⟨use, response use⟩ }
  | _ => h

/-- The answer replaces the window. -/
def installs (s : Session Data View) (use : HistoryUse) : HistoryResponse Data View → Bool
  | .page _ _ =>
    match use with
    | .openTail generation | .openStitch generation => generation = s.openGeneration
    | .loadOlder _ => false
    | .repairGap generation => generation = s.openGeneration ∧ s.openState = .opened
  | _ => false

/-- The answer is the failure of a pull that was to bring the window past its tail. -/
def failsRepair (s : Session Data View) (use : HistoryUse) : HistoryResponse Data View → Bool
  | .page _ _ => false
  | _ =>
    match use with
    | .openStitch generation | .repairGap generation => generation = s.openGeneration
    | _ => false

def settled (h : ClientHost Data View) (i : ℕ) (use : HistoryUse)
    (response : HistoryResponse Data View) : ClientHost Data View :=
  { launched { h with requests := h.requests.eraseIdx i } (h.session.settle response use) with
    repairFailed := h.repairFailed || failsRepair h.session use response
    rebuilding := h.rebuilding && !installs h.session use response }

def step (h : ClientHost Data View) : ClientAction Data View → ClientHost Data View
  | .grow data => { h with log := h.log.append data }
  | .openSession => h.launched h.session.openSession
  | .loadOlder => h.launched h.session.loadOlder
  | .resync =>
    { h.launched h.session.resync with
      rebuilding := h.rebuilding || !h.session.events.isEmpty }
  | .frame seq view =>
    match h.log.events[seq]? with
    | none => h
    | some event =>
      { h.launched (h.session.acceptLiveEvent ⟨event, view⟩) with
        lastFrame := some event.seq
        repairFailed := false }
  | .subscribed lastSeq => { h with session.subscribedLastSeq := some lastSeq }
  | .serve i cut views => h.answer i fun use ↦ pageOf (h.log.window use) cut views
  | .fail i thrown => h.answer i fun _ ↦ some (if thrown then .thrown else .refused)
  | .deliver i =>
    match h.requests[i]? with
    | some ⟨use, some response⟩ => h.settled i use response
    | _ => h

def run (h : ClientHost Data View) (actions : List (ClientAction Data View)) :
    ClientHost Data View := actions.foldl step h

end ClientHost

/-!
## What the assembler holds

The assembler keeps its inputs by sequence number, and reads them back in order. Along a contiguous
window every input is new, so that what it reads back is the window.
-/

variable {c : Conversation Data View} {run older : List (HistoryEntry Data View)}
  {entry : HistoryEntry Data View}

/-- Entries in strictly increasing order. -/
def Increasing (run : List (HistoryEntry Data View)) : Prop :=
  run.Pairwise fun a b ↦ a.seq < b.seq

theorem Increasing.nodup (h : Increasing run) : (run.map HistoryEntry.seq).Nodup := by
  rw [List.nodup_iff_pairwise_ne, List.pairwise_map]
  exact h.imp Nat.ne_of_lt

namespace Conversation

theorem sorted_of_increasing (h : Increasing run) : sorted run = run := by
  apply List.mergeSort_of_pairwise
  exact h.imp fun hlt ↦ by simpa using hlt.le

/-- The inputs are the entries of a run, each under its own number. -/
structure Holds (c : Conversation Data View) (run : List (HistoryEntry Data View)) : Prop where
  perm : (c.inputs.entries.map Prod.snd).Perm run
  keyed : ∀ p ∈ c.inputs.entries, p.1 = p.2.seq

theorem Holds.sortedInputs (h : c.Holds run) (hrun : Increasing run) : c.sortedInputs = run := by
  have hsorted : (c.sortedInputs).Pairwise fun a b ↦ a.seq ≤ b.seq := by
    have hpairwise : c.sortedInputs.Pairwise fun a b ↦ decide (a.seq ≤ b.seq) = true :=
      List.pairwise_mergeSort (by simpa using fun a b c ↦ Nat.le_trans)
        (by simpa using fun a b ↦ Nat.le_total _ _) _
    exact hpairwise.imp fun hle ↦ of_decide_eq_true hle
  have hperm : c.sortedInputs.Perm run := (List.mergeSort_perm _ _).trans h.perm
  -- Two entries of the run that stand both ways round are one.
  have hone (a b : HistoryEntry Data View) (ha : a ∈ run) (hb : b ∈ run) (hab : a.seq = b.seq) :
      a = b := by
    have hinj := List.pairwise_iff_getElem.mp hrun
    obtain ⟨i, hi, rfl⟩ := List.getElem_of_mem ha
    obtain ⟨j, hj, rfl⟩ := List.getElem_of_mem hb
    rcases Nat.lt_trichotomy i j with hij | rfl | hij
    · exact absurd hab (hinj i j hi hj hij).ne
    · rfl
    · exact absurd hab.symm (hinj j i hj hi hij).ne
  refine hperm.eq_of_pairwise ?_ hsorted (hrun.imp Nat.le_of_lt)
  intro a b ha hb hab hba
  exact hone a b (hperm.mem_iff.mp ha) hb (Nat.le_antisymm hab hba)

theorem Holds.get?_eq_none (h : c.Holds run) (hnew : ∀ e ∈ run, e.seq ≠ entry.seq) :
    c.inputs.get? entry.seq = none := by
  cases hfound : c.inputs.get? entry.seq with
  | none => rfl
  | some found =>
    have hmem := OrderedMap.mem_of_get? hfound
    have hrun : found ∈ run := h.perm.mem_iff.mp (List.mem_map.mpr ⟨_, hmem, rfl⟩)
    exact absurd (h.keyed _ hmem).symm (hnew _ hrun)

theorem Holds.set (h : c.Holds run) (hnew : ∀ e ∈ run, e.seq ≠ entry.seq) (hasMore : Bool) :
    Holds ⟨c.inputs.set entry.seq entry, hasMore⟩ (run ++ [entry]) := by
  have hentries := OrderedMap.entries_set_of_get?_eq_none (h.get?_eq_none hnew) entry
  constructor
  · rw [hentries, List.map_append]
    exact h.perm.append_right _
  · intro p hp
    rw [hentries, List.mem_append, List.mem_singleton] at hp
    obtain hold | rfl := hp
    · exact h.keyed p hold
    · rfl

theorem Holds.append (h : c.Holds run) (hnew : ∀ e ∈ run, e.seq ≠ entry.seq) :
    (c.append entry).Holds (run ++ [entry]) := by
  rw [Conversation.append, h.get?_eq_none hnew]
  exact h.set hnew c.hasMore

theorem Holds.setInputs (h : c.Holds run) (hasMore : Bool)
    (hnew : ((run ++ older).map HistoryEntry.seq).Nodup) :
    Holds ⟨setInputs c.inputs older, hasMore⟩ (run ++ older) := by
  induction older generalizing c run with
  | nil => exact ⟨by simpa [Conversation.setInputs] using h.perm, h.keyed⟩
  | cons entry older ih =>
    have hentry : ∀ e ∈ run, e.seq ≠ entry.seq := by
      intro e he heq
      rw [List.map_append, List.nodup_append] at hnew
      exact hnew.2.2 e.seq (List.mem_map_of_mem he) entry.seq (by simp) heq
    have hrest := ih (h.set hentry hasMore) (by simpa using hnew)
    rwa [List.append_assoc, List.singleton_append] at hrest

theorem holds_replaceWindow (h : Increasing run) (hasMore : Bool) :
    (replaceWindow run hasMore).Holds run := by
  have hempty : Holds (⟨.empty, hasMore⟩ : Conversation Data View) [] := ⟨by simp, by simp⟩
  rw [replaceWindow, sorted_of_increasing h]
  exact hempty.setInputs hasMore (by simpa using h.nodup)

theorem Holds.prepend (h : c.Holds run) (hrun : Increasing (older ++ run)) (hasMore : Bool) :
    (c.prepend older hasMore).Holds (older ++ run) := by
  have holder : Increasing older := (List.pairwise_append.mp hrun).1
  have hfresh : (older.filter fun entry ↦ (c.inputs.get? entry.seq).isNone) = older := by
    rw [List.filter_eq_self]
    intro entry hentry
    rw [h.get?_eq_none fun e he ↦ ((List.pairwise_append.mp hrun).2.2 entry hentry e he).ne']
    rfl
  rw [Conversation.prepend, hfresh, sorted_of_increasing holder]
  have hnodup : ((run ++ older).map HistoryEntry.seq).Nodup :=
    (List.perm_append_comm.map _).nodup_iff.mp hrun.nodup
  have hset := h.setInputs hasMore hnodup
  exact ⟨hset.perm.trans List.perm_append_comm, hset.keyed⟩

@[simp] theorem inputs_prepend_nil (hasMore : Bool) :
    (c.prepend [] hasMore).inputs = c.inputs := by
  simp [Conversation.prepend, sorted, setInputs]

end Conversation

/-!
## The invariant of the window

What each step of a session keeps: the window is a contiguous run of the host log, and the assembler
holds that run. The one place that can break it is the stitch, which appends every buffered frame
past the tail of the page. `Joins` says that no buffered frame skips a number.
-/

variable {log : HostLog Data} {s : Session Data View}
  {run entries frames : List (HistoryEntry Data View)} {entry : HistoryEntry Data View}

/-- The frames join a window that ends at `tail`. An empty window takes any frame. -/
def Joins : Option ℕ → List (HistoryEntry Data View) → Prop
  | _, [] => True
  | none, entry :: frames => Joins (some entry.seq) frames
  | some tail, entry :: frames =>
    if entry.seq ≤ tail then Joins (some tail) frames
    else entry.seq = tail + 1 ∧ Joins (some entry.seq) frames

namespace Session

/-- The window reaches a sequence number. -/
def Reaches (s : Session Data View) (n : ℕ) : Prop := ∃ tail, s.windowTailSeq = some tail ∧ n ≤ tail

/-- The window shows a run of the log. -/
structure Shows (s : Session Data View) (log : HostLog Data)
    (run : List (HistoryEntry Data View)) : Prop where
  events : s.events = run.map (·.event)
  views : s.views = run.map (·.view)
  contiguous : run.map (·.event) <:+: log.events
  /-- The base of a window that filled up from nothing stays at zero. -/
  base : s.baseSeq ≠ 0 → ∃ entry ∈ run.head?, entry.seq = s.baseSeq

theorem Shows.increasing (h : s.Shows log run) : Increasing run := by
  have hpairwise := log.numbered.pairwise_run h.contiguous
  rwa [List.pairwise_map] at hpairwise

theorem Shows.windowTailSeq (h : s.Shows log run) :
    s.windowTailSeq = run.getLast?.map (·.seq) := by
  rw [Session.windowTailSeq, h.events, List.getLast?_map, Option.map_map]
  rfl

/-! ## Appending a frame -/

@[simp] theorem windowTailSeq_push : (s.push entry).windowTailSeq = some entry.seq := by
  simp [Session.windowTailSeq, push, HistoryEntry.seq]

theorem reaches_appendLive_self : (s.appendLive entry).Reaches entry.seq := by
  rw [appendLive]
  split
  case h_1 tail htail =>
    split_ifs with hle
    · exact ⟨tail, htail, hle⟩
    · exact ⟨_, windowTailSeq_push, le_rfl⟩
  case h_2 => exact ⟨_, windowTailSeq_push, le_rfl⟩

theorem Reaches.appendLive {n : ℕ} (h : s.Reaches n) : (s.appendLive entry).Reaches n := by
  obtain ⟨tail, htail, hn⟩ := h
  rw [Session.appendLive, htail]
  dsimp only
  split_ifs with hle
  · exact ⟨tail, htail, hn⟩
  · exact ⟨_, windowTailSeq_push, by omega⟩

theorem Reaches.foldl_appendLive {n : ℕ} (h : s.Reaches n) :
    (frames.foldl Session.appendLive s).Reaches n := by
  induction frames generalizing s with
  | nil => exact h
  | cons frame frames ih => exact ih h.appendLive

/-- Every stitched frame is reached. -/
theorem reaches_foldl_appendLive (hentry : entry ∈ frames) :
    (frames.foldl Session.appendLive s).Reaches entry.seq := by
  induction frames generalizing s with
  | nil => simp at hentry
  | cons frame frames ih =>
    rw [List.foldl_cons]
    obtain rfl | hrest := List.mem_cons.mp hentry
    · exact reaches_appendLive_self.foldl_appendLive
    · exact ih hrest

theorem Shows.push (h : s.Shows log run) (hfed : s.conversation.Holds run)
    (hlog : entry.event ∈ log.events)
    (hnext : ∀ tail, s.windowTailSeq = some tail → entry.seq = tail + 1) :
    (s.push entry).Shows log (run ++ [entry]) ∧
      (s.push entry).conversation.Holds (run ++ [entry]) := by
  rw [h.windowTailSeq] at hnext
  have hcontiguous : (run ++ [entry]).map (·.event) <:+: log.events := by
    rw [List.map_append, List.map_singleton]
    rcases List.eq_nil_or_concat' run with rfl | ⟨init, last, rfl⟩
    · exact Log.singleton_infix hlog
    · have hlast : ((init ++ [last]).map (·.event)).getLast? = some last.event := by simp
      exact log.numbered.infix_concat h.contiguous hlast hlog (hnext last.seq (by simp))
  have hshows : (s.push entry).Shows log (run ++ [entry]) :=
    { events := by simp [Session.push, h.events]
      views := by simp [Session.push, h.views]
      contiguous := hcontiguous
      base := by
        intro hbase
        obtain ⟨first, hfirst, hseq⟩ := h.base hbase
        exact ⟨first, by simp [Option.mem_def.mp hfirst], hseq⟩ }
  refine ⟨hshows, hfed.append fun other hother ↦ ?_⟩
  exact ((List.pairwise_append.mp hshows.increasing).2.2 other hother entry (by simp)).ne

theorem Shows.appendLive (h : s.Shows log run) (hfed : s.conversation.Holds run)
    (hlog : entry.event ∈ log.events)
    (hnext : ∀ tail, s.windowTailSeq = some tail → entry.seq ≤ tail + 1) :
    ∃ run', (s.appendLive entry).Shows log run' ∧
      (s.appendLive entry).conversation.Holds run' := by
  rw [Session.appendLive]
  split
  case h_1 tail htail =>
    split_ifs with hle
    · exact ⟨run, h, hfed⟩
    · refine ⟨_, h.push hfed hlog fun tail' htail' ↦ ?_⟩
      have hle' := hnext tail' htail'
      obtain rfl := Option.some.inj (htail.symm.trans htail')
      omega
  case h_2 hnone =>
    refine ⟨_, h.push hfed hlog fun tail' htail' ↦ ?_⟩
    rw [hnone] at htail'
    simp at htail'

/-! ## The stitch -/

/-- What appending leaves alone. -/
theorem appendLive_of_push {β : Type} (field : Session Data View → β)
    (hpush : ∀ s entry, field (Session.push s entry) = field s) :
    field (s.appendLive entry) = field s := by
  rw [Session.appendLive]
  split
  case h_1 =>
    split_ifs
    · rfl
    · exact hpush s entry
  case h_2 => exact hpush s entry

theorem foldl_appendLive_of_push {β : Type} (field : Session Data View → β)
    (hpush : ∀ s entry, field (Session.push s entry) = field s) :
    field (frames.foldl Session.appendLive s) = field s := by
  induction frames generalizing s with
  | nil => rfl
  | cons frame frames ih => rw [List.foldl_cons, ih, appendLive_of_push field hpush]

variable {hasMore : Bool}

@[simp] theorem openState_installWindow :
    (s.installWindow entries hasMore).openState = s.openState :=
  foldl_appendLive_of_push (·.openState) fun _ _ ↦ rfl

@[simp] theorem openGeneration_installWindow :
    (s.installWindow entries hasMore).openGeneration = s.openGeneration :=
  foldl_appendLive_of_push (·.openGeneration) fun _ _ ↦ rfl

@[simp] theorem openPromise_installWindow :
    (s.installWindow entries hasMore).openPromise = s.openPromise :=
  foldl_appendLive_of_push (·.openPromise) fun _ _ ↦ rfl

@[simp] theorem stitching_installWindow :
    (s.installWindow entries hasMore).stitching = s.stitching :=
  foldl_appendLive_of_push (·.stitching) fun _ _ ↦ rfl

@[simp] theorem liveBuffer_installWindow : (s.installWindow entries hasMore).liveBuffer = [] :=
  foldl_appendLive_of_push (·.liveBuffer) fun _ _ ↦ rfl

/-- Frames that join the window are stitched to it. -/
theorem Shows.foldl_appendLive (h : s.Shows log run) (hfed : s.conversation.Holds run)
    (hlog : ∀ frame ∈ frames, frame.event ∈ log.events) (hjoins : Joins s.windowTailSeq frames) :
    ∃ run', (frames.foldl Session.appendLive s).Shows log run' ∧
      (frames.foldl Session.appendLive s).conversation.Holds run' := by
  induction frames generalizing s run with
  | nil => exact ⟨run, h, hfed⟩
  | cons frame frames ih =>
    have hnext : (∀ tail, s.windowTailSeq = some tail → frame.seq ≤ tail + 1) ∧
        Joins (s.appendLive frame).windowTailSeq frames := by
      rw [Session.appendLive]
      generalize htail : s.windowTailSeq = windowTail at hjoins
      cases windowTail with
      | none => exact ⟨by simp, by simpa [Joins] using hjoins⟩
      | some tail =>
        rw [Joins] at hjoins
        dsimp only
        split_ifs at hjoins ⊢ with hle
        · exact ⟨by simpa using Nat.le_succ_of_le hle, by rwa [htail]⟩
        · exact ⟨by simpa using hjoins.1.le, by simpa using hjoins.2⟩
    obtain ⟨run', h', hfed'⟩ := h.appendLive hfed (hlog frame List.mem_cons_self) hnext.1
    exact ih h' hfed' (fun other hother ↦ hlog other (List.mem_cons_of_mem _ hother)) hnext.2

/-- A page of the log is installed. -/
theorem shows_installWindow (hpage : entries.map (·.event) <:+: log.events)
    (hlog : ∀ frame ∈ s.liveBuffer, frame.event ∈ log.events)
    (hjoins : Joins (entries.getLast?.map (·.seq)) s.liveBuffer) :
    ∃ run, (s.installWindow entries hasMore).Shows log run ∧
      (s.installWindow entries hasMore).conversation.Holds run := by
  have hshows : (s.installPage entries hasMore).Shows log entries :=
    { events := rfl
      views := rfl
      contiguous := hpage
      base := by
        cases entries with
        | nil => exact fun hbase ↦ absurd rfl hbase
        | cons entry entries => exact fun _ ↦ ⟨entry, rfl, rfl⟩ }
  have hfed : (s.installPage entries hasMore).conversation.Holds entries :=
    Conversation.holds_replaceWindow hshows.increasing hasMore
  exact hshows.foldl_appendLive hfed hlog (by rwa [hshows.windowTailSeq])

/-- What a page or a buffered frame carries is reached once the page is installed. -/
theorem reaches_installWindow {n : ℕ}
    (h : (∃ last ∈ entries.getLast?, n ≤ last.seq) ∨ ∃ frame ∈ s.liveBuffer, frame.seq = n) :
    (s.installWindow entries hasMore).Reaches n := by
  rcases h with ⟨last, hlast, hn⟩ | ⟨frame, hframe, rfl⟩
  · refine Reaches.foldl_appendLive ⟨last.seq, ?_, hn⟩
    rw [Session.windowTailSeq, installPage, List.getLast?_map, Option.mem_def.mp hlast]
    rfl
  · exact reaches_foldl_appendLive hframe

/-! ## Paging backwards -/

theorem Shows.prepend {older : List (HistoryEntry Data View)} {first last : HistoryEntry Data View}
    (h : s.Shows log run) (hfed : s.conversation.Holds run)
    (hpage : older.map (·.event) <:+: log.events) (hfirst : older.head? = some first)
    (hlast : older.getLast? = some last) (hbase : last.seq + 1 = s.baseSeq) (hasMore : Bool) :
    Shows { s with
        events := older.map (·.event) ++ s.events
        views := older.map (·.view) ++ s.views
        baseSeq := first.seq
        hasMore
        conversation := s.conversation.prepend older hasMore } log (older ++ run) ∧
      (s.conversation.prepend older hasMore).Holds (older ++ run) := by
  obtain ⟨head, hhead, hseq⟩ := h.base (by omega)
  obtain ⟨rest, rfl⟩ : ∃ rest, run = head :: rest := by
    cases run with
    | nil => simp at hhead
    | cons other rest =>
      rw [List.head?_cons, Option.mem_some_iff] at hhead
      exact ⟨rest, by rw [hhead]⟩
  have hcontiguous : (older ++ head :: rest).map (·.event) <:+: log.events := by
    rw [List.map_append, List.map_cons]
    have hend : (older.map (·.event)).getLast? = some last.event := by
      rw [List.getLast?_map, hlast]
      rfl
    exact log.numbered.infix_append hpage hend h.contiguous (hbase.trans hseq.symm)
  have hshows : Shows { s with
      events := older.map (·.event) ++ s.events
      views := older.map (·.view) ++ s.views
      baseSeq := first.seq
      hasMore
      conversation := s.conversation.prepend older hasMore } log (older ++ head :: rest) :=
    { events := by simp [h.events]
      views := by simp [h.views]
      contiguous := hcontiguous
      base := fun _ ↦ ⟨first, by simp [hfirst], rfl⟩ }
  exact ⟨hshows, hfed.prepend hshows.increasing hasMore⟩

/-! ## The steps of a session -/

variable {rebuilding : Bool}

/-- The window, the assembler and the buffer of a session. -/
structure WindowInv (log : HostLog Data) (s : Session Data View) (rebuilding : Bool) : Prop where
  shows : ∃ run, s.Shows log run ∧ (rebuilding = false → s.conversation.Holds run)
  rebuilding : rebuilding = true →
    s.events = [] ∧ s.openState ≠ .opened ∧ s.conversation.inputs.entries ≠ []
  cold : s.openState = .cold → s.events = []
  buffered : ∀ frame ∈ s.liveBuffer, frame.event ∈ log.events

theorem WindowInv.not_rebuilding (h : s.WindowInv log rebuilding)
    (hopened : s.openState = .opened) : rebuilding = false := by
  cases rebuilding with
  | false => rfl
  | true => exact absurd hopened (h.rebuilding rfl).2.1

/-- A field that the window does not depend on. -/
theorem WindowInv.of_eq {t : Session Data View} (h : s.WindowInv log rebuilding)
    (hevents : t.events = s.events) (hviews : t.views = s.views) (hbase : t.baseSeq = s.baseSeq)
    (hfeed : t.conversation.inputs = s.conversation.inputs) (hbuffer : t.liveBuffer = s.liveBuffer)
    (hstate : t.openState = s.openState ∨ t.openState ≠ .cold ∧ rebuilding = false ∨
      t.openState ≠ .cold ∧ t.openState ≠ .opened) :
    t.WindowInv log rebuilding := by
  obtain ⟨run, hshows, hfed⟩ := h.shows
  refine ⟨⟨run, ?_, fun hre ↦ ?_⟩, fun hre ↦ ?_, fun hcold ↦ ?_, ?_⟩
  · exact ⟨hevents.trans hshows.events, hviews.trans hshows.views, hshows.contiguous, by
      rw [hbase]
      exact hshows.base⟩
  · obtain ⟨hperm, hkeyed⟩ := hfed hre
    exact ⟨by rwa [hfeed], by rwa [hfeed]⟩
  · obtain ⟨hnil, hstate', hinputs⟩ := h.rebuilding hre
    rw [hevents, hfeed]
    refine ⟨hnil, ?_, hinputs⟩
    rcases hstate with heq | ⟨-, hno⟩ | ⟨-, hno⟩
    · rwa [heq]
    · rw [hre] at hno
      simp at hno
    · exact hno
  · rw [hevents]
    rcases hstate with heq | ⟨hno, -⟩ | ⟨hno, -⟩
    · exact h.cold (heq ▸ hcold)
    · exact absurd hcold hno
    · exact absurd hcold hno
  · rw [hbuffer]
    exact h.buffered

theorem WindowInv.grow (h : s.WindowInv log rebuilding) (data : Data) :
    s.WindowInv (log.append data) rebuilding := by
  obtain ⟨run, hshows, hfed⟩ := h.shows
  refine ⟨⟨run, ⟨hshows.events, hshows.views, ?_, hshows.base⟩, hfed⟩, h.rebuilding, h.cold, ?_⟩
  · exact hshows.contiguous.trans (List.prefix_append _ _).isInfix
  · exact fun frame hframe ↦ List.mem_append_left _ (h.buffered frame hframe)

theorem WindowInv.openSession (h : s.WindowInv log rebuilding) :
    s.openSession.1.WindowInv log rebuilding := by
  rw [Session.openSession]
  split_ifs with hopened hpromise
  · exact h
  · exact h
  · exact h.of_eq rfl rfl rfl rfl rfl (.inr (.inr ⟨by simp, by simp⟩))

theorem WindowInv.loadOlder (h : s.WindowInv log rebuilding) :
    s.loadOlder.1.WindowInv log rebuilding := by
  rw [Session.loadOlder]
  split_ifs
  · exact h
  · exact h.of_eq rfl rfl rfl rfl rfl (.inl rfl)

theorem WindowInv.resync (h : s.WindowInv log rebuilding) :
    s.resync.1.WindowInv log (rebuilding || !s.events.isEmpty) := by
  rw [Session.resync]
  split_ifs with hcold
  · rw [h.cold hcold]
    simpa using h
  · apply WindowInv.openSession
    obtain ⟨run, hshows, hfed⟩ := h.shows
    refine ⟨⟨[], ⟨rfl, rfl, List.nil_infix, fun hbase ↦ absurd rfl hbase⟩, fun hre ↦ ?_⟩,
      fun hre ↦ ⟨rfl, by simp, ?_⟩, fun _ ↦ rfl, by simp⟩
    · obtain ⟨hfalse, hempty⟩ := Bool.or_eq_false_iff.mp hre
      have hrun : run = [] := by
        have hmap := hshows.events
        have hnil : s.events = [] := List.isEmpty_iff.mp (by simpa using hempty)
        rw [hnil] at hmap
        exact List.map_eq_nil_iff.mp hmap.symm
      exact hrun ▸ hfed hfalse
    · cases hold : rebuilding with
      | true => exact (h.rebuilding hold).2.2
      | false =>
        have hne : s.events ≠ [] := by simpa [hold] using hre
        intro hinputs
        have hperm := (hfed hold).perm
        rw [hinputs, List.map_nil, List.nil_perm] at hperm
        rw [hshows.events, hperm] at hne
        exact hne rfl

theorem WindowInv.buffer (h : s.WindowInv log rebuilding) (hentry : entry.event ∈ log.events) :
    (s.buffer entry).WindowInv log rebuilding := by
  refine ⟨h.shows.imp fun run hrun ↦ ⟨⟨hrun.1.events, hrun.1.views, hrun.1.contiguous,
    hrun.1.base⟩, hrun.2⟩, h.rebuilding, h.cold, fun frame hframe ↦ ?_⟩
  rw [Session.buffer, List.mem_append, List.mem_singleton] at hframe
  obtain hold | rfl := hframe
  · exact h.buffered frame hold
  · exact hentry

theorem WindowInv.repairGap (h : s.WindowInv log rebuilding) :
    s.repairGap.1.WindowInv log rebuilding := by
  rw [Session.repairGap]
  split_ifs
  · exact h
  · exact h.of_eq rfl rfl rfl rfl rfl (.inl rfl)

theorem openState_appendLive : (s.appendLive entry).openState = s.openState :=
  appendLive_of_push (·.openState) fun _ _ ↦ rfl

theorem openGeneration_appendLive : (s.appendLive entry).openGeneration = s.openGeneration :=
  appendLive_of_push (·.openGeneration) fun _ _ ↦ rfl

theorem stitching_appendLive : (s.appendLive entry).stitching = s.stitching :=
  appendLive_of_push (·.stitching) fun _ _ ↦ rfl

theorem liveBuffer_appendLive : (s.appendLive entry).liveBuffer = s.liveBuffer :=
  appendLive_of_push (·.liveBuffer) fun _ _ ↦ rfl

theorem WindowInv.acceptLiveEvent (h : s.WindowInv log rebuilding)
    (entry : HistoryEntry Data View) (hentry : entry.event ∈ log.events) :
    (s.acceptLiveEvent entry).1.WindowInv log rebuilding := by
  rw [Session.acceptLiveEvent]
  split_ifs with hdetour hstate hskips
  · exact h.buffer hentry
  · exact h
  · exact (h.buffer hentry).repairGap
  · have hopened : s.openState = .opened := by simpa using hstate
    have hre := h.not_rebuilding hopened
    obtain ⟨run, hshows, hfed⟩ := h.shows
    have hnext (tail : ℕ) (htail : s.windowTailSeq = some tail) : entry.seq ≤ tail + 1 := by
      rw [htail, skips] at hskips
      simpa using hskips
    obtain ⟨run', hshows', hfed'⟩ := hshows.appendLive (hfed hre) hentry hnext
    refine ⟨⟨run', hshows', fun _ ↦ hfed'⟩, fun htrue ↦ ?_, fun hcold ↦ ?_, ?_⟩
    · rw [hre] at htrue
      simp at htrue
    · rw [openState_appendLive, hopened] at hcold
      simp at hcold
    · rw [liveBuffer_appendLive]
      exact h.buffered

theorem WindowInv.installWindow (h : s.WindowInv log rebuilding) (hstate : s.openState ≠ .cold)
    (hpage : entries.map (·.event) <:+: log.events)
    (hjoins : Joins (entries.getLast?.map (·.seq)) s.liveBuffer) :
    (s.installWindow entries hasMore).WindowInv log false := by
  obtain ⟨run, hshows, hfed⟩ := shows_installWindow hpage h.buffered hjoins
  refine ⟨⟨run, hshows, fun _ ↦ hfed⟩, by simp, fun hcold ↦ ?_, by simp⟩
  exact absurd (openState_installWindow.symm.trans hcold) hstate

theorem WindowInv.openSettled (h : s.WindowInv log rebuilding) {generation : ℕ}
    {openState : OpenState}
    (hstate : openState = .opened ∧ rebuilding = false ∨ openState = .error) :
    (s.openSettled generation openState).WindowInv log rebuilding := by
  refine h.of_eq rfl rfl rfl rfl rfl (.inr ?_)
  rcases hstate with ⟨rfl, hre⟩ | rfl
  · exact .inl ⟨by simp [Session.openSettled], hre⟩
  · exact .inr ⟨by simp [Session.openSettled], by simp [Session.openSettled]⟩

theorem WindowInv.settleOlder (h : s.WindowInv log rebuilding)
    {response : HistoryResponse Data View}
    (hpage : ∀ entries more, response = .page entries more →
      entries.map (·.event) <:+: log.events) :
    (s.settleOlder response).WindowInv log rebuilding := by
  have hkeep : WindowInv log { s with loadingOlder := false } rebuilding :=
    h.of_eq rfl rfl rfl rfl rfl (.inl rfl)
  rw [Session.settleOlder.eq_def]
  dsimp only
  split
  case h_1 older more =>
    split
    case h_1 first last hfirst hlast =>
      split_ifs with hbase
      · exact hkeep.of_eq rfl rfl rfl (Conversation.inputs_prepend_nil _) rfl (.inl rfl)
      · have hbase' : last.seq + 1 = s.baseSeq := not_not.mp hbase
        obtain ⟨run, hshows, hfed⟩ := h.shows
        have hre : rebuilding = false := by
          cases hold : rebuilding with
          | false => rfl
          | true =>
            obtain ⟨e, he, -⟩ := hshows.base (by omega)
            have hnil := hshows.events
            rw [(h.rebuilding hold).1] at hnil
            rw [List.map_eq_nil_iff.mp hnil.symm] at he
            simp at he
        obtain ⟨hshows', hfed'⟩ := hshows.prepend (hfed hre)
          (hpage older more rfl) hfirst hlast hbase' more
        refine ⟨⟨older ++ run, ⟨hshows'.events, hshows'.views, hshows'.contiguous, hshows'.base⟩,
          fun _ ↦ hfed'⟩, fun htrue ↦ ?_, fun hcold ↦ ?_, h.buffered⟩
        · rw [hre] at htrue
          simp at htrue
        · obtain ⟨e, he, -⟩ := hshows.base (by omega)
          have hnil := hshows.events
          rw [h.cold hcold] at hnil
          rw [List.map_eq_nil_iff.mp hnil.symm] at he
          simp at he
    case h_2 =>
      exact hkeep.of_eq rfl rfl rfl (Conversation.inputs_prepend_nil _) rfl (.inl rfl)
  all_goals exact hkeep

/-- Paging backwards only touches the window. -/
theorem settleOlder_keeps (s : Session Data View) (response : HistoryResponse Data View) :
    (s.settleOlder response).openState = s.openState ∧
      (s.settleOlder response).openPromise = s.openPromise ∧
      (s.settleOlder response).openGeneration = s.openGeneration ∧
      (s.settleOlder response).stitching = s.stitching ∧
      (s.settleOlder response).liveBuffer = s.liveBuffer := by
  rw [Session.settleOlder.eq_def]
  dsimp only
  split
  case h_1 =>
    split
    case h_1 => split_ifs <;> exact ⟨rfl, rfl, rfl, rfl, rfl⟩
    case h_2 => exact ⟨rfl, rfl, rfl, rfl, rfl⟩
  all_goals exact ⟨rfl, rfl, rfl, rfl, rfl⟩

theorem Shows.reaches_settleOlder {run : List (HistoryEntry Data View)} (h : s.Shows log run)
    {response : HistoryResponse Data View} {n : ℕ} (hreaches : s.Reaches n) :
    (s.settleOlder response).Reaches n := by
  obtain ⟨tail, htail, hn⟩ := hreaches
  refine ⟨tail, ?_, hn⟩
  rw [Session.settleOlder.eq_def]
  dsimp only
  split
  case h_1 older more =>
    split
    case h_1 first last hfirst hlast =>
      split_ifs with hbase
      · exact htail
      · obtain ⟨last, hend, rfl⟩ := Option.map_eq_some_iff.mp htail
        rw [Session.windowTailSeq, List.getLast?_append, hend]
        rfl
    case h_2 => exact htail
  all_goals exact htail

end Session

end XxAgent.Client
