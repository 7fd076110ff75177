import XxAgent.Log.FoldCache
import XxAgent.Session.SurfaceManager

/-!
# What a session keeps of its log

The request header, the route metadata and the message history are read all the time and computed
from the log, so a session keeps them and catches up. The first two advance by position. The history
advances along the surface, whose nodes may be replaced behind its back: it is thrown away when the
surface has counted a replacement since. Projecting an event can fail where its payload is not what
its type promises; a failed read has kept messages of nodes it does not count as projected, and they
stay unseen, for every later read fails as well until the surface is rewritten.

Reads are compared with recomputation from the whole log, after every run of appends and reads.
-/

namespace XxAgent

open Ecma

/-! ## Reading payloads -/

/-- `value.k`, where `value` may be nullish. -/
def readProperty (value : Value) (k : String) : Except SurfaceFault Value :=
  match value with
  | none | some .null => .error .typeError
  | some x => .ok (x.get? k)

/-- `value.length`; what is no string and no array has one only as a property. -/
def lengthOf : Value → Except SurfaceFault Value
  | none | some .null => .error .typeError
  | some (.str s) => .ok (some (integer s.length))
  | some (.arr xs) => .ok (some (integer xs.length))
  | some x => .ok (x.get? "length")

/-- `value > 0`, of a length. -/
def isPositive : Value → Bool
  | some (.num x) => decide (0 < x.val)
  | _ => false

/-- `value !== undefined && value.length > 0`. -/
def isNonempty (value : Value) : Except SurfaceFault Bool :=
  if value = none then .ok false else (lengthOf value).map isPositive

/-- `if (msg)`: a message is an object, what is missing or null is falsy. -/
def isMessage : Value → Bool
  | none | some .null => false
  | some (.bool b) => b
  | some (.num x) => decide (x ≠ .int 0)
  | some (.str s) => !s.isEmpty
  | some (.arr _) | some (.obj _) => true

/-- The message that is pushed, if any is. -/
def pushedMessage (msg : Value) : Option Json := if isMessage msg then msg else none

/-- Project a single event into the message it derives to. -/
def deriveEventMessage (event : Json) : Except SurfaceFault Value :=
  let type := event.get? "type"
  let data := event.get? "data"
  if type = some (text "user/message") then .ok data
  else if type = some (text "assistant/message") then do
    let message ← readProperty data "message"
    let content ← readProperty message "content"
    let length ← lengthOf content
    -- An empty message hosts a step's usage and is no part of the transcript.
    if length = some (integer 0) then .ok (some .null) else readProperty data "message"
  else if type = some (text "tool/result") then readProperty data "message"
  else .ok (some .null)

/-- Normalize a header: an empty prompt and an empty tool list become absent. -/
def canonicalHeader (header : Value) : Except SurfaceFault Json := do
  let adapterDefaults ← readProperty header "adapterDefaults"
  let config ← readProperty header "config"
  let system ← readProperty header "system"
  let tools ← readProperty header "tools"
  let hasSystem ← isNonempty system
  let hasTools ← isNonempty tools
  let marked := adapterDefaults.get "reasoningEffort" = some (.bool true) ∨
    adapterDefaults.get "maxTokens" = some (.bool true)
  .ok (.obj (definedFields [("config", config),
    ("adapterDefaults", if marked then adapterDefaults else none),
    ("system", if hasSystem then system else none),
    ("tools", if hasTools then tools else none)]))

/-- One event of `foldRequestHeader`. -/
def foldHeaderEvent (state : Value) (event : Json) : Except SurfaceFault Value :=
  if event.get? "type" = some (text "request/header") then
    (readProperty (event.get? "data") "header").bind fun header ↦
      (canonicalHeader header).map some
  else .ok state

/-- Fold the header events of a log, or of what follows a folded state. -/
def foldRequestHeader (events : List Json) (state : Value) : Except SurfaceFault Value :=
  events.foldlM foldHeaderEvent state

/-- One event of the loop of `requestContext`: `{ ...event.data }`. -/
def foldContextEvent (state : Value) (event : Json) : Except SurfaceFault Value :=
  .ok (if event.get? "type" = some (text "request/context") then
    some (.obj (spread (event.get? "data"))) else state)

/-! ## The session -/

/-- The derived messages that are kept. -/
structure MessageCache where
  /-- Frozen projections, extended per unseen node. -/
  derived : List Json
  /-- Surface position the projections have reached. -/
  derivedNodes : ℕ
  /-- The `replaceGeneration` they were built under. -/
  derivedGeneration : ℕ

variable {Ref : Type*} (deref : Ref → Json)

/-- A session log with what is kept of it. -/
structure DerivingSession (Ref : Type*) where
  surface : SurfaceLog Ref
  headerFold : FoldCache Value
  contextFold : FoldCache Value
  messages : MessageCache

/-- What is done to a session. -/
inductive DerivingOp (Ref : Type*) where
  | log (op : LogOp Ref)
  | requestHeader
  | requestContext
  | deriveMessages

/-- `deriveEventMessage(this.log[seq]!)`. -/
def projectNode (events : List Json) (seq : ℕ) : Except SurfaceFault Value :=
  match events[seq]? with
  | none => .error .typeError
  | some event => deriveEventMessage event

/-- The loop of `deriveMessages`; what was pushed before a fault stays. -/
def pushMessages (events : List Json) :
    List Json → List ℕ → List Json × Option SurfaceFault
  | derived, [] => (derived, none)
  | derived, seq :: rest =>
    match projectNode events seq with
    | .error fault => (derived, some fault)
    | .ok msg => pushMessages events (derived ++ (pushedMessage msg).toList) rest

namespace MessageCache

/-- Drop the projections when the surface was rewritten since they were made. -/
def refresh (c : MessageCache) (generation : ℕ) : MessageCache :=
  if generation ≠ c.derivedGeneration then
    ⟨[], 0, generation⟩
  else c

/-- Project the nodes that are new. -/
def extend (c : MessageCache) (events : List Json) (nodes : List ℕ) :
    MessageCache × Except SurfaceFault (List Json) :=
  match pushMessages events c.derived (nodes.drop c.derivedNodes) with
  | (derived, some fault) => ({ c with derived := derived }, .error fault)
  | (derived, none) => ({ c with derived := derived, derivedNodes := nodes.length }, .ok derived)

end MessageCache

namespace DerivingSession

def new : DerivingSession Ref := ⟨SurfaceLog.new, ⟨none, 0⟩, ⟨none, 0⟩, [], 0, 0⟩

def events (s : DerivingSession Ref) : List Json := s.surface.events deref

/-- The header in force after the log's last header event. -/
def requestHeader (s : DerivingSession Ref) :
    DerivingSession Ref × Except SurfaceFault Value :=
  match s.headerFold.read foldHeaderEvent (s.events deref) with
  | (c, answer) => ({ s with headerFold := c }, answer)

/-- The latest resolved route metadata. -/
def requestContext (s : DerivingSession Ref) :
    DerivingSession Ref × Except SurfaceFault Value :=
  match s.contextFold.read foldContextEvent (s.events deref) with
  | (c, answer) => ({ s with contextFold := c }, answer)

/-- Derive the message history. -/
def deriveMessages [DecidableEq Ref] (s : DerivingSession Ref) :
    DerivingSession Ref × Except SurfaceFault (List Json) :=
  match s.surface.surfaceManager.catchUp deref s.surface.log with
  | (m, some fault) => ({ s with surface.surfaceManager := m }, .error fault)
  | (m, none) =>
    -- The second accessor finds nothing left to fold.
    match (s.messages.refresh m.state.replaceGeneration).extend (s.events deref)
        m.state.nodes with
    | (messages, answer) => ({ s with surface.surfaceManager := m, messages := messages }, answer)

/-- One operation. -/
def step [DecidableEq Ref] (s : DerivingSession Ref) : DerivingOp Ref → DerivingSession Ref
  | .log op => { s with surface := s.surface.step deref op }
  | .requestHeader => (s.requestHeader deref).1
  | .requestContext => (s.requestContext deref).1
  | .deriveMessages => (s.deriveMessages deref).1

/-- A run from a new session. -/
def run [DecidableEq Ref] (ops : List (DerivingOp Ref)) : DerivingSession Ref :=
  ops.foldl (step deref) new

end DerivingSession

/-! ## Recomputation -/

/-- The messages of some nodes, in order. -/
def nodeMessages (events : List Json) (nodes : List ℕ) : Except SurfaceFault (List Json) :=
  (nodes.mapM (projectNode events)).map (List.filterMap pushedMessage)

theorem nodeMessages_append (events : List Json) (front back : List ℕ) :
    nodeMessages events (front ++ back) = (nodeMessages events front).bind fun messages ↦
      (nodeMessages events back).map (messages ++ ·) := by
  rw [nodeMessages, nodeMessages, nodeMessages, List.mapM_append]
  cases front.mapM (projectNode events) with
  | error fault => rfl
  | ok values =>
    cases back.mapM (projectNode events) with
    | error fault => rfl
    | ok others => exact congrArg Except.ok List.filterMap_append

theorem nodeMessages_congr {events events' : List Json} {nodes : List ℕ}
    (h : ∀ seq ∈ nodes, events[seq]? = events'[seq]?) :
    nodeMessages events nodes = nodeMessages events' nodes := by
  have hmap : nodes.mapM (projectNode events) = nodes.mapM (projectNode events') := by
    induction nodes with
    | nil => rfl
    | cons seq nodes ih =>
      rw [List.mapM_cons, List.mapM_cons, ih fun n hn ↦ h n (List.mem_cons_of_mem seq hn),
        projectNode, projectNode, h seq List.mem_cons_self]
  rw [nodeMessages, nodeMessages, hmap]

/-- The loop pushes the messages of its nodes. -/
theorem pushMessages_eq (events : List Json) (derived : List Json) (nodes : List ℕ) :
    (∀ messages, nodeMessages events nodes = .ok messages →
      pushMessages events derived nodes = (derived ++ messages, none)) ∧
    ∀ fault, nodeMessages events nodes = .error fault →
      (pushMessages events derived nodes).2 = some fault := by
  induction nodes generalizing derived with
  | nil =>
    refine ⟨fun messages h ↦ ?_, fun fault h ↦ (nomatch h)⟩
    cases h
    change (derived, none) = (derived ++ [], none)
    rw [List.append_nil]
  | cons seq nodes ih =>
    have hcons := nodeMessages_append events [seq] nodes
    rw [List.singleton_append] at hcons
    rw [hcons, pushMessages]
    cases hseq : projectNode events seq with
    | error fault =>
      have hfirst : nodeMessages events [seq] = .error fault := by
        rw [nodeMessages, List.mapM_cons, hseq]
        rfl
      rw [hfirst]
      exact ⟨fun messages h ↦ (nomatch h), fun fault' h ↦ by cases h; rfl⟩
    | ok msg =>
      have hfirst : nodeMessages events [seq] = .ok (pushedMessage msg).toList := by
        rw [nodeMessages, List.mapM_cons, hseq, List.mapM_nil]
        change Except.ok (List.filterMap pushedMessage [msg]) = _
        rw [List.filterMap_cons]
        cases pushedMessage msg <;> rfl
      rw [hfirst]
      obtain ⟨hok, herror⟩ := ih (derived ++ (pushedMessage msg).toList)
      constructor
      · intro messages h
        obtain ⟨rest, hrest, rfl⟩ := Replay.map_eq_ok.mp h
        rw [← List.append_assoc]
        exact hok rest hrest
      · intro fault h
        refine herror fault ?_
        change (nodeMessages events nodes).map _ = _ at h
        cases hrest : nodeMessages events nodes with
        | error e =>
          rw [hrest] at h
          exact congrArg Except.error (Except.error.inj h)
        | ok rest =>
          rw [hrest] at h
          exact nomatch h

/-! ## The invariant -/

namespace MessageCache

/-- What is kept of the history, under the surface of the log: the messages of the nodes counted,
or more than them where a later node cannot be projected. -/
structure Current (events : List Json) (state : SurfaceFoldState) (c : MessageCache) : Prop where
  generation_le : c.derivedGeneration ≤ state.replaceGeneration
  nodes_le : c.derivedGeneration = state.replaceGeneration → c.derivedNodes ≤ state.nodes.length
  messages : c.derivedGeneration = state.replaceGeneration →
    ∃ messages, nodeMessages events (state.nodes.take c.derivedNodes) = .ok messages ∧
      (c.derived = messages ∨
        ∃ fault, nodeMessages events (state.nodes.drop c.derivedNodes) = .error fault)

/-- Later events do not change the messages of what is on the surface. -/
theorem Current.log_append {log : List Json} {state : SurfaceFoldState} {c : MessageCache}
    (h : c.Current log state) (hbelow : state.Below log.length) (rest : List Json) :
    c.Current (log ++ rest) state where
  generation_le := h.generation_le
  nodes_le := h.nodes_le
  messages hgeneration := by
    have hsame (nodes : List ℕ) (hsub : nodes ⊆ state.nodes) :
        nodeMessages (log ++ rest) nodes = nodeMessages log nodes :=
      nodeMessages_congr fun seq hseq ↦ List.getElem?_append_left (hbelow seq (hsub hseq))
    obtain ⟨messages, htaken, hderived⟩ := h.messages hgeneration
    rw [hsame _ (List.take_subset _ _), hsame _ (List.drop_subset _ _)]
    exact ⟨messages, htaken, hderived⟩

/-- One more event: it joins behind the nodes that were counted, or the count of replacements goes
on. -/
theorem Current.commit {log : List Json} {state : SurfaceFoldState} {c : MessageCache}
    (h : c.Current log state) (hbelow : state.Below log.length) {event : Json}
    {plan : Option SurfacePlan} (hplan : planNext state log event = .ok plan) :
    c.Current (log ++ [event]) (commitPlan state plan) := by
  have hlog := h.log_append hbelow [event]
  rcases planSurfaceEvent_eq_ok hplan with rfl | rfl | ⟨replacement, i, j, -, rfl⟩
  · exact hlog
  · refine ⟨h.generation_le, fun hgeneration ↦ ?_, fun hgeneration ↦ ?_⟩
    · have hle := h.nodes_le hgeneration
      change c.derivedNodes ≤ (state.nodes ++ [log.length]).length
      rw [List.length_append]
      exact Nat.le_add_right_of_le hle
    · have hle := h.nodes_le hgeneration
      obtain ⟨messages, htaken, hderived⟩ := hlog.messages hgeneration
      change ∃ messages, nodeMessages _ ((state.nodes ++ [log.length]).take c.derivedNodes) = _ ∧
        (_ ∨ ∃ fault, nodeMessages _ ((state.nodes ++ [log.length]).drop c.derivedNodes) = _)
      rw [List.take_append_of_le_length hle, List.drop_append_of_le_length hle,
        nodeMessages_append]
      refine ⟨messages, htaken, hderived.imp id ?_⟩
      rintro ⟨fault, hfault⟩
      rw [hfault]
      exact ⟨fault, rfl⟩
  · have hlt : c.derivedGeneration < state.replaceGeneration + 1 :=
      Nat.lt_succ_of_le h.generation_le
    have hne (heq : c.derivedGeneration = state.replaceGeneration + 1) : False :=
      absurd heq hlt.ne
    exact ⟨hlt.le, fun heq ↦ (hne heq).elim, fun heq ↦ (hne heq).elim⟩

theorem current_new : Current [] createFoldState ⟨[], 0, 0⟩ where
  generation_le := Nat.le_refl 0
  nodes_le _ := Nat.le_refl 0
  messages _ := ⟨[], rfl, .inl rfl⟩

theorem Current.refresh {log : List Json} {state : SurfaceFoldState} {c : MessageCache}
    (h : c.Current log state) : (c.refresh state.replaceGeneration).Current log state ∧
      (c.refresh state.replaceGeneration).derivedGeneration = state.replaceGeneration := by
  rw [MessageCache.refresh]
  split_ifs with hne
  · refine ⟨⟨Nat.le_refl _, fun _ ↦ Nat.zero_le _, fun _ ↦ ⟨[], ?_, .inl rfl⟩⟩, rfl⟩
    rfl
  · exact ⟨h, (not_not.mp hne).symm⟩

/-- **Projecting the new nodes gives the messages of all nodes.** -/
theorem Current.extend {events : List Json} {state : SurfaceFoldState} {c : MessageCache}
    (h : c.Current events state)
    (hgeneration : c.derivedGeneration = state.replaceGeneration) :
    (c.extend events state.nodes).2 = nodeMessages events state.nodes ∧
      (c.extend events state.nodes).1.Current events state := by
  obtain ⟨messages, htaken, hderived⟩ := h.messages hgeneration
  have hall : nodeMessages events state.nodes =
      (nodeMessages events (state.nodes.drop c.derivedNodes)).map (messages ++ ·) := by
    conv_lhs => rw [← List.take_append_drop c.derivedNodes state.nodes, nodeMessages_append, htaken]
    rfl
  obtain ⟨hok, herror⟩ :=
    pushMessages_eq events c.derived (state.nodes.drop c.derivedNodes)
  rw [hall, MessageCache.extend]
  cases hrest : nodeMessages events (state.nodes.drop c.derivedNodes) with
  | error fault =>
    have hfault := herror fault hrest
    generalize pushMessages events c.derived (state.nodes.drop c.derivedNodes) = pushed
      at hfault
    obtain ⟨derived, fault?⟩ := pushed
    cases hfault
    exact ⟨rfl, h.generation_le, h.nodes_le, fun _ ↦ ⟨messages, htaken, .inr ⟨fault, hrest⟩⟩⟩
  | ok rest =>
    have hsame : c.derived = messages := by
      refine hderived.resolve_right ?_
      rintro ⟨fault, hfault⟩
      rw [hrest] at hfault
      exact nomatch hfault
    rw [hok rest hrest, hsame]
    refine ⟨rfl, h.generation_le, fun _ ↦ Nat.le_refl _, fun _ ↦ ⟨messages ++ rest, ?_, .inl rfl⟩⟩
    change nodeMessages _ (state.nodes.take state.nodes.length) = _
    rw [List.take_length, hall, hrest]
    rfl

end MessageCache

namespace DerivingSession

/-- What holds of a session after every operation. -/
structure Valid (s : DerivingSession Ref) : Prop where
  surface : s.surface.Valid deref
  header : s.headerFold.Exact foldHeaderEvent none (s.events deref)
  context : s.contextFold.Exact foldContextEvent none (s.events deref)
  messages : ∀ state, surfaceAfter (s.events deref) = .ok state →
    s.messages.Current (s.events deref) state

variable {deref}

/-! ## Runs -/

theorem valid_new : (new : DerivingSession Ref).Valid deref where
  surface := SurfaceLog.valid_new
  header := FoldCache.exact_init _ _
  context := FoldCache.exact_init _ _
  messages state h := by
    cases h
    exact MessageCache.current_new

variable [DecidableEq Ref]

variable (deref) in
theorem log_step (s : SurfaceLog Ref) (op : LogOp Ref) :
    (s.step deref op).log = s.log ∨ ∃ event, (s.step deref op).log = s.log ++ [event] := by
  cases op with
  | read => exact .inl rfl
  | append event vetoed =>
    rw [SurfaceLog.step]
    split
    case h_1 => exact .inl rfl
    case h_2 =>
      cases vetoed with
      | true => exact .inl rfl
      | false => exact .inr ⟨event, rfl⟩

/-- Reading the history gives the messages of the surface of the whole log. -/
theorem Valid.deriveMessages {s : DerivingSession Ref} (h : s.Valid deref) :
    (∃ state, surfaceAfter (s.events deref) = .ok state ∧
      (s.deriveMessages deref).2 = nodeMessages (s.events deref) state.nodes) ∧
      (s.deriveMessages deref).1.Valid deref := by
  obtain ⟨state, hstate⟩ := h.surface.accepted
  obtain ⟨m, hcatch, hfollows, -, hm⟩ := SurfaceManager.catchUp_eq hstate h.surface.follows
  obtain ⟨hrefreshed, hgeneration⟩ := (h.messages state hstate).refresh
  obtain ⟨hanswer, hcurrent⟩ := hrefreshed.extend hgeneration
  rw [DerivingSession.deriveMessages, hcatch]
  simp only [hm]
  refine ⟨⟨state, hstate, hanswer⟩, ⟨h.surface.accepted, hfollows⟩, h.header, h.context, ?_⟩
  intro state' hstate'
  obtain rfl : state = state' := Except.ok.inj (hstate.symm.trans hstate')
  exact hcurrent

/-- One operation keeps everything in step with the log. -/
theorem valid_step {s : DerivingSession Ref} (h : s.Valid deref) (op : DerivingOp Ref) :
    (s.step deref op).Valid deref := by
  cases op with
  | log op =>
    have hsurface : (s.surface.step deref op).Valid deref := SurfaceLog.valid_step h.surface op
    obtain ⟨state, hstate⟩ := h.surface.accepted
    rcases log_step deref s.surface op with hlog | ⟨event, hlog⟩
    · have hevents : (s.step deref (.log op)).events deref = s.events deref :=
        congrArg (List.map deref) hlog
      exact ⟨hsurface, hevents ▸ h.header, hevents ▸ h.context, hevents ▸ h.messages⟩
    · have hevents : (s.step deref (.log op)).events deref = s.events deref ++ [deref event] := by
        refine (congrArg (List.map deref) hlog).trans ?_
        rw [List.map_append]
        rfl
      refine ⟨hsurface, hevents ▸ h.header.append _, hevents ▸ h.context.append _, ?_⟩
      rw [hevents]
      intro next hnext
      have hconcat : surfaceAfter (s.events deref ++ [deref event]) = _ :=
        Replay.replay_concat_of_ok hstate (deref event)
      rw [hconcat] at hnext
      obtain ⟨plan, hplan, rfl⟩ := Replay.map_eq_ok.mp hnext
      exact (h.messages state hstate).commit (below_surfaceAfter hstate) hplan
  | requestHeader => exact ⟨h.surface, h.header.read.2, h.context, h.messages⟩
  | requestContext => exact ⟨h.surface, h.header, h.context.read.2, h.messages⟩
  | deriveMessages => exact h.deriveMessages.2

theorem valid_run (ops : List (DerivingOp Ref)) : (run deref ops).Valid deref :=
  List.foldlRecOn ops _ valid_new fun _ h op _ ↦ valid_step h op

end DerivingSession

/-- The last route metadata of a log. -/
def lastRequestContext (events : List Json) : Value :=
  ((events.filter fun event ↦ event.get? "type" = some (text "request/context")).getLast?).map
    fun event ↦ .obj (spread (event.get? "data"))

theorem lastRequestContext_concat (events : List Json) (event : Json) :
    lastRequestContext (events ++ [event]) =
      if event.get? "type" = some (text "request/context") then
        some (.obj (spread (event.get? "data")))
      else lastRequestContext events := by
  rw [lastRequestContext, List.filter_append, List.filter_singleton]
  by_cases htype : event.get? "type" = some (text "request/context")
  · rw [if_pos htype, decide_eq_true htype, cond_true, List.getLast?_concat]
    rfl
  · rw [if_neg htype, decide_eq_false htype, cond_false, List.append_nil]
    rfl

theorem foldContext_eq (events : List Json) :
    events.foldlM foldContextEvent none = .ok (lastRequestContext events) := by
  induction events using List.reverseRecOn with
  | nil => rfl
  | append_singleton events event ih =>
    rw [List.foldlM_append, ih, lastRequestContext_concat]
    rfl

/-- **What a session keeps is what the log says.** After every run of appends and reads, each read
gives what recomputation from the whole log gives. -/
theorem derivedCaches_eq [DecidableEq Ref] (ops : List (DerivingOp Ref)) :
    let s := DerivingSession.run deref ops
    (s.requestHeader deref).2 = foldRequestHeader (s.events deref) none ∧
      (s.requestContext deref).2 = .ok (lastRequestContext (s.events deref)) ∧
      ∃ fold, foldSurface (s.events deref) = .ok fold ∧
        (s.deriveMessages deref).2 = nodeMessages (s.events deref) fold.nodes := by
  intro s
  have hs : s.Valid deref := DerivingSession.valid_run ops
  obtain ⟨state, hstate, hmessages⟩ := hs.deriveMessages.1
  obtain ⟨fold, hfold, rfl⟩ := foldSurface_ok_iff.mp hstate
  refine ⟨hs.header.read.1, ?_, fold, hfold, hmessages⟩
  exact hs.context.read.1.trans (foldContext_eq _)

end XxAgent
