import Mathlib.Data.List.Count

/-!
# The session store

`SessionStore` attaches sessions, announces them, publishes what is appended to them and detaches
them again. Every publication runs listeners, and a listener may call the store back, so the calls
nest to any depth. The stack of open publications is part of the state here: whatever runs is the
callback on top of it, or the outermost caller, and may call the store, return or throw.

A publication first resolves its listeners, which runs code of its own and may be vetoed, and then
calls them one by one. A listener of `session/created` that throws ends the publication; what the
listeners of the other two throw is contained.
-/

namespace XxAgent

/-- The lifecycle publications of a session. -/
inductive SessionTopic where
  | created
  | event
  | disposed
deriving DecidableEq

/-- All mutable lifecycle state for one exact store entry. -/
structure SessionEntry (Id Session : Type*) where
  id : Id
  session : Session
  announced : Bool := false
  announcing : Bool := false
  appending : Bool := false
  detachRequested : Bool := false
  /-- Its detach capability has not been used. -/
  entered : Bool := true

/-- A publication that has not ended. -/
structure Publication (Event : Type*) where
  topic : SessionTopic
  entry : ℕ
  /-- What is published, besides the session. -/
  payload : Option Event
  /-- The number of listeners, once they are resolved. -/
  listeners : Option ℕ
  /-- The number of listeners called so far. -/
  called : ℕ

/-- What can be seen of a run. -/
inductive Observation where
  | dispatched (topic : SessionTopic) (entry : ℕ)
  | ended (topic : SessionTopic) (entry : ℕ) (listeners : Option ℕ) (called : ℕ) (threw : Bool)
  | detached (entry : ℕ)
deriving DecidableEq

/-- In-memory session store, with the publications it has under way. Entries are numbered in the
order in which they are entered. -/
structure SessionStore (Id Session Event : Type*) where
  entries : ℕ → Option (SessionEntry Id Session)
  /-- The number of the next entry. -/
  next : ℕ
  store : Id → Option ℕ
  attachments : Session → Option ℕ
  log : Session → List Event
  stack : List (Publication Event)
  trace : List Observation

/-- What the code on top of the stack does next. -/
inductive StoreAction (Session Event : Type*) where
  | enter (session : Session)
  | announce (session : Session)
  /-- Use the detach capability of an entry. -/
  | detach (entry : ℕ)
  | append (session : Session) (event : Event)
  /-- The dispatch has resolved so many listeners. -/
  | resolved (listeners : ℕ)
  | returns
  | throws

namespace SessionStore

variable {Id Session Event : Type*} [DecidableEq Id] [DecidableEq Session]

/-- An empty store. -/
def new : SessionStore Id Session Event where
  entries _ := none
  next := 0
  store _ := none
  attachments _ := none
  log _ := []
  stack := []
  trace := []

/-- Change the state of an entry. -/
def modify (s : SessionStore Id Session Event) (e : ℕ)
    (f : SessionEntry Id Session → SessionEntry Id Session) : SessionStore Id Session Event :=
  { s with entries := Function.update s.entries e ((s.entries e).map f) }

/-- Begin a publication. -/
def publish (s : SessionStore Id Session Event) (topic : SessionTopic) (e : ℕ)
    (payload : Option Event) : SessionStore Id Session Event :=
  { s with
    stack := ⟨topic, e, payload, none, 0⟩ :: s.stack
    trace := s.trace ++ [.dispatched topic e] }

/-- Emit the paired teardown notification. -/
def emitDisposed (s : SessionStore Id Session Event) (e : ℕ) : SessionStore Id Session Event :=
  s.publish .disposed e none

/-- Remove one exact entered session and emit its paired disposal when announced. -/
def detachEntered (s : SessionStore Id Session Event) (e : ℕ) : SessionStore Id Session Event :=
  match s.entries e with
  | none => s
  | some entry =>
    let s := s.modify e fun entry ↦ { entry with detachRequested := false }
    -- A stale capability cannot remove what belongs to a later same-id lifecycle.
    if s.store entry.id ≠ some e then s
    else
      let s := { s with
        store := Function.update s.store entry.id none
        attachments := Function.update s.attachments entry.session none
        trace := s.trace ++ [.detached e] }
      if entry.announced then s.emitDisposed e else s

variable (id : Session → Id)

/-- Enter a prepared session into the store. -/
def enter (s : SessionStore Id Session Event) (session : Session) : SessionStore Id Session Event :=
  if (s.store (id session)).isSome ∨ (s.attachments session).isSome then s
  else { s with
    entries := Function.update s.entries s.next (some { id := id session, session := session })
    next := s.next + 1
    store := Function.update s.store (id session) (some s.next)
    attachments := Function.update s.attachments session (some s.next) }

/-- The exact live entry; detached and prepared sessions have none. -/
def liveEntryFor (s : SessionStore Id Session Event) (session : Session) :
    Option (ℕ × SessionEntry Id Session) :=
  match s.attachments session with
  | none => none
  | some e =>
    match s.entries e with
    | none => none
    | some entry => if s.store entry.id = some e then some (e, entry) else none

/-- Emit `session/created` for an entered session. -/
def announce (s : SessionStore Id Session Event) (session : Session) :
    SessionStore Id Session Event :=
  match s.liveEntryFor session with
  | none => s
  | some (e, entry) =>
    if entry.announced || entry.announcing then s
    else
      (s.modify e fun entry ↦ { entry with announced := true, announcing := true }).publish
        .created e none

/-- The detach capability of an entry, usable once. -/
def detach (s : SessionStore Id Session Event) (e : ℕ) : SessionStore Id Session Event :=
  match s.entries e with
  | none => s
  | some entry =>
    if entry.entered = false then s
    else if entry.announcing || entry.appending then
      s.modify e fun entry ↦ { entry with entered := false, detachRequested := true }
    else (s.modify e fun entry ↦ { entry with entered := false }).detachEntered e

variable (admits : List Event → Event → Bool)

/-- Put an event into the log of a session. -/
def pushEvent (s : SessionStore Id Session Event) (session : Session) (event : Event) :
    SessionStore Id Session Event :=
  { s with log := Function.update s.log session (s.log session ++ [event]) }

/-- `Session.append`; `admits` is the validation of the candidate against the log. -/
def append (s : SessionStore Id Session Event) (session : Session) (event : Event) :
    SessionStore Id Session Event :=
  match (s.attachments session).bind fun e ↦ (s.entries e).map fun entry ↦ (e, entry) with
  | none => if admits (s.log session) event then s.pushEvent session event else s
  | some (e, entry) =>
    if entry.appending || !admits (s.log session) event then s
    else
      (s.modify e fun entry ↦ { entry with appending := true }).publish .event e (some event)

/-- The `finally` block of a publication that has left the stack. -/
def unwound (s : SessionStore Id Session Event) (topic : SessionTopic) (e : ℕ) :
    SessionStore Id Session Event :=
  match topic with
  | .created =>
    let s := s.modify e fun entry ↦ { entry with announcing := false }
    match s.entries e with
    | none => s
    | some entry => if entry.detachRequested && !entry.appending then s.detachEntered e else s
  | .event =>
    let s := s.modify e fun entry ↦ { entry with appending := false }
    match s.entries e with
    | none => s
    | some entry => if entry.detachRequested && !entry.announcing then s.detachEntered e else s
  | .disposed => s

/-- End the publication on top of the stack. -/
def finish (s : SessionStore Id Session Event) (p : Publication Event)
    (rest : List (Publication Event)) (threw : Bool) : SessionStore Id Session Event :=
  ({ s with
    stack := rest
    trace := s.trace ++ [Observation.ended p.topic p.entry p.listeners p.called threw] }).unwound
    p.topic p.entry

/-- Call the next listener, or end the publication. -/
def callNext (s : SessionStore Id Session Event) (p : Publication Event)
    (rest : List (Publication Event)) : SessionStore Id Session Event :=
  if p.called < p.listeners.getD 0 then
    { s with stack := { p with called := p.called + 1 } :: rest }
  else s.finish p rest false

/-- The listeners of a dispatch are resolved; an appended event enters the log now. -/
def resolve (s : SessionStore Id Session Event) (p : Publication Event)
    (rest : List (Publication Event)) (listeners : ℕ) : SessionStore Id Session Event :=
  let s := match p.payload, s.entries p.entry with
    | some event, some entry => s.pushEvent entry.session event
    | _, _ => s
  s.callNext { p with listeners := some listeners } rest

/-- One step of the code on top of the stack. -/
def step (s : SessionStore Id Session Event) : StoreAction Session Event →
    SessionStore Id Session Event
  | .enter session => s.enter id session
  | .announce session => s.announce session
  | .detach e => s.detach e
  | .append session event => s.append admits session event
  | .resolved listeners =>
    match s.stack with
    | [] => s
    | p :: rest => if p.listeners.isNone then s.resolve p rest listeners else s
  | .returns =>
    match s.stack with
    | [] => s
    | p :: rest => if p.listeners.isNone then s else s.callNext p rest
  | .throws =>
    match s.stack with
    | [] => s
    | p :: rest =>
      -- A veto and a throwing creation listener end the publication; the rest is contained.
      if p.listeners.isNone || p.topic = .created then s.finish p rest true
      else s.callNext p rest

/-- A run from an empty store. -/
def run (actions : List (StoreAction Session Event)) : SessionStore Id Session Event :=
  actions.foldl (step id admits) new

end SessionStore

/-!
## Lifecycle pairing

Detaching is deferred while an entry is being announced or appended to, and two flags remember that,
each looked at where the other publication ends. `Lifecycle` is what concerns one entry: its flags,
its open publications and what has been observed of it. A step of the store moves the lifecycle of
one entry at most, by one of few moves, and `Lifecycle.Ok` survives all of them in every order in
which publications nest.
-/

/-- An observation that a publication of an entry has ended. -/
def Observation.ends (topic : SessionTopic) (e : ℕ) : Observation → Bool
  | .ended topic' e' _ _ _ => topic' = topic ∧ e' = e
  | _ => false

/-- How many publications of an entry have begun. -/
def begun (trace : List Observation) (topic : SessionTopic) (e : ℕ) : ℕ :=
  trace.count (.dispatched topic e)

/-- How many publications of an entry have ended. -/
def ended (trace : List Observation) (topic : SessionTopic) (e : ℕ) : ℕ :=
  trace.countP (Observation.ends topic e)

/-! ## One entry -/

/-- What concerns one entry. -/
@[ext]
structure Lifecycle where
  present : Bool
  live : Bool
  entered : Bool
  announced : Bool
  announcing : Bool
  appending : Bool
  detachRequested : Bool
  publishing : SessionTopic → ℕ
  begun : SessionTopic → ℕ
  ended : SessionTopic → ℕ
  detached : ℕ

namespace Lifecycle

/-- No entry. -/
def absent : Lifecycle where
  present := false
  live := false
  entered := false
  announced := false
  announcing := false
  appending := false
  detachRequested := false
  publishing _ := 0
  begun _ := 0
  ended _ := 0
  detached := 0

/-- A publication begins. -/
def publish (l : Lifecycle) (topic : SessionTopic) : Lifecycle :=
  { l with
    publishing := Function.update l.publishing topic (l.publishing topic + 1)
    begun := Function.update l.begun topic (l.begun topic + 1) }

/-- The entry leaves the store; an announced one begins its disposal. -/
def remove (l : Lifecycle) : Lifecycle :=
  { l with
    detachRequested := false
    live := false
    detached := l.detached + 1
    publishing := Function.update l.publishing .disposed
      (l.publishing .disposed + l.announced.toNat)
    begun := Function.update l.begun .disposed (l.begun .disposed + l.announced.toNat) }

/-- A publication ends. -/
def unpublish (l : Lifecycle) (topic : SessionTopic) : Lifecycle :=
  { l with
    publishing := Function.update l.publishing topic (l.publishing topic - 1)
    ended := Function.update l.ended topic (l.ended topic + 1) }

/-- What a step of the store can do to an entry. -/
inductive Move : Lifecycle → Lifecycle → Prop
  | enter {l : Lifecycle} : l.present = false →
      Move l { l with present := true, live := true, entered := true }
  | announce {l : Lifecycle} : l.live = true → l.announced = false →
      Move l (publish { l with announced := true, announcing := true } .created)
  | append {l : Lifecycle} : l.live = true → l.appending = false →
      Move l (publish { l with appending := true } .event)
  | defer {l : Lifecycle} : l.entered = true → (l.announcing || l.appending) = true →
      Move l { l with entered := false, detachRequested := true }
  | detach {l : Lifecycle} : l.entered = true → (l.announcing || l.appending) = false →
      Move l (remove { l with entered := false })
  | created {l : Lifecycle} : 0 < l.publishing .created →
      (l.detachRequested && !l.appending) = false →
      Move l { l.unpublish .created with announcing := false }
  | createdLast {l : Lifecycle} : 0 < l.publishing .created →
      (l.detachRequested && !l.appending) = true →
      Move l (remove { l.unpublish .created with announcing := false })
  | event {l : Lifecycle} : 0 < l.publishing .event →
      (l.detachRequested && !l.announcing) = false →
      Move l { l.unpublish .event with appending := false }
  | eventLast {l : Lifecycle} : 0 < l.publishing .event →
      (l.detachRequested && !l.announcing) = true →
      Move l (remove { l.unpublish .event with appending := false })
  | disposed {l : Lifecycle} : 0 < l.publishing .disposed → Move l (l.unpublish .disposed)

/-- What holds of every entry. -/
structure Ok (l : Lifecycle) : Prop where
  created : l.publishing .created = l.announcing.toNat
  event : l.publishing .event = l.appending.toNat
  balanced : ∀ topic, l.begun topic = l.ended topic + l.publishing topic
  once : l.begun .created = l.announced.toNat
  announcing : l.announcing = true → l.announced = true
  busy : l.announcing = true ∨ l.appending = true → l.live = true
  requested : l.detachRequested = true →
    l.entered = false ∧ (l.announcing = true ∨ l.appending = true)
  capability : l.live = true ↔ l.entered = true ∨ l.detachRequested = true
  detached : l.detached = (l.present && !l.live).toNat
  disposed : l.begun .disposed = (l.present && !l.live && l.announced).toNat
  present : l.live = true → l.present = true

theorem ok_absent : absent.Ok where
  created := rfl
  event := rfl
  balanced _ := rfl
  once := rfl
  announcing := nofun
  busy := nofun
  requested := nofun
  capability := ⟨nofun, nofun⟩
  detached := rfl
  disposed := rfl
  present := nofun

/-- A flag that is counted is set. -/
private theorem toNat_pos {b : Bool} (h : 0 < b.toNat) : b = true ∧ b.toNat = 1 := by
  rcases b with _ | _
  · exact absurd h (Nat.lt_irrefl 0)
  · exact ⟨rfl, rfl⟩

section Moves

variable {l : Lifecycle}

private theorem Ok.enter (h : l.Ok) (hnew : l.present = false) :
    Ok { l with present := true, live := true, entered := true } := by
  obtain ⟨h1, h2, h3, h4, h5, h6, h7, h8, h9, h10, h11⟩ := h
  constructor <;> simp <;> grind

private theorem Ok.announce (h : l.Ok) (hlive : l.live = true) (hann : l.announced = false) :
    Ok (publish { l with announced := true, announcing := true } .created) := by
  obtain ⟨h1, h2, h3, h4, h5, h6, h7, h8, h9, h10, h11⟩ := h
  constructor <;> simp [publish, Function.update_apply] <;> grind

private theorem Ok.append (h : l.Ok) (hlive : l.live = true) (happ : l.appending = false) :
    Ok (publish { l with appending := true } .event) := by
  obtain ⟨h1, h2, h3, h4, h5, h6, h7, h8, h9, h10, h11⟩ := h
  constructor <;> simp [publish, Function.update_apply] <;> grind

private theorem Ok.defer (h : l.Ok) (hent : l.entered = true)
    (hbusy : (l.announcing || l.appending) = true) :
    Ok { l with entered := false, detachRequested := true } := by
  obtain ⟨h1, h2, h3, h4, h5, h6, h7, h8, h9, h10, h11⟩ := h
  constructor <;> simp <;> grind

private theorem Ok.detach (h : l.Ok) (hent : l.entered = true)
    (hidle : (l.announcing || l.appending) = false) : Ok (remove { l with entered := false }) := by
  obtain ⟨h1, h2, h3, h4, h5, h6, h7, h8, h9, h10, h11⟩ := h
  constructor <;> simp [remove, Function.update_apply] <;> grind

private theorem Ok.endCreated (h : l.Ok) (hpub : 0 < l.publishing .created)
    (hstay : (l.detachRequested && !l.appending) = false) :
    Ok { l.unpublish .created with announcing := false } := by
  obtain ⟨h1, h2, h3, h4, h5, h6, h7, h8, h9, h10, h11⟩ := h
  obtain ⟨hann, hone⟩ := toNat_pos (h1 ▸ hpub)
  constructor <;> simp [unpublish, Function.update_apply] <;> grind

private theorem Ok.endCreatedLast (h : l.Ok) (hpub : 0 < l.publishing .created)
    (hlast : (l.detachRequested && !l.appending) = true) :
    Ok (remove { l.unpublish .created with announcing := false }) := by
  obtain ⟨h1, h2, h3, h4, h5, h6, h7, h8, h9, h10, h11⟩ := h
  obtain ⟨hann, hone⟩ := toNat_pos (h1 ▸ hpub)
  constructor <;> simp [unpublish, remove, Function.update_apply] <;> grind

private theorem Ok.endEvent (h : l.Ok) (hpub : 0 < l.publishing .event)
    (hstay : (l.detachRequested && !l.announcing) = false) :
    Ok { l.unpublish .event with appending := false } := by
  obtain ⟨h1, h2, h3, h4, h5, h6, h7, h8, h9, h10, h11⟩ := h
  obtain ⟨happ, hone⟩ := toNat_pos (h2 ▸ hpub)
  constructor <;> simp [unpublish, Function.update_apply] <;> grind

private theorem Ok.endEventLast (h : l.Ok) (hpub : 0 < l.publishing .event)
    (hlast : (l.detachRequested && !l.announcing) = true) :
    Ok (remove { l.unpublish .event with appending := false }) := by
  obtain ⟨h1, h2, h3, h4, h5, h6, h7, h8, h9, h10, h11⟩ := h
  obtain ⟨happ, hone⟩ := toNat_pos (h2 ▸ hpub)
  constructor <;> simp [unpublish, remove, Function.update_apply] <;> grind

private theorem Ok.endDisposed (h : l.Ok) (hpub : 0 < l.publishing .disposed) :
    Ok (l.unpublish .disposed) := by
  obtain ⟨h1, h2, h3, h4, h5, h6, h7, h8, h9, h10, h11⟩ := h
  constructor <;> simp [unpublish, Function.update_apply] <;> grind

/-- **No move breaks the lifecycle of an entry.** -/
theorem Ok.move {l' : Lifecycle} (h : l.Ok) (hm : Move l l') : l'.Ok := by
  cases hm with
  | enter hnew => exact h.enter hnew
  | announce hlive hann => exact h.announce hlive hann
  | append hlive happ => exact h.append hlive happ
  | «defer» hent hbusy => exact h.defer hent hbusy
  | detach hent hidle => exact h.detach hent hidle
  | created hpub hstay => exact h.endCreated hpub hstay
  | createdLast hpub hlast => exact h.endCreatedLast hpub hlast
  | event hpub hstay => exact h.endEvent hpub hstay
  | eventLast hpub hlast => exact h.endEventLast hpub hlast
  | disposed hpub => exact h.endDisposed hpub

end Moves

end Lifecycle

/-! ## The lifecycle of an entry of the store -/

namespace SessionStore

variable {Id Session Event : Type*} [DecidableEq Id] [DecidableEq Session]

/-- The open publications of an entry. -/
def publishing (stack : List (Publication Event)) (topic : SessionTopic) (e : ℕ) : ℕ :=
  stack.countP fun p ↦ p.topic = topic ∧ p.entry = e

/-- What concerns one entry, read off the store. -/
def lifecycle (s : SessionStore Id Session Event) (e : ℕ) : Lifecycle where
  present := (s.entries e).isSome
  live := (s.entries e).any fun entry ↦ s.store entry.id = some e
  entered := (s.entries e).any SessionEntry.entered
  announced := (s.entries e).any SessionEntry.announced
  announcing := (s.entries e).any SessionEntry.announcing
  appending := (s.entries e).any SessionEntry.appending
  detachRequested := (s.entries e).any SessionEntry.detachRequested
  publishing topic := publishing s.stack topic e
  begun topic := begun s.trace topic e
  ended topic := ended s.trace topic e
  detached := s.trace.count (.detached e)

/-- The indices of the store agree with its entries. -/
structure Wf (s : SessionStore Id Session Event) : Prop where
  fresh : ∀ e, s.next ≤ e → s.entries e = none
  store : ∀ id e, s.store id = some e → ∃ entry, s.entries e = some entry ∧ entry.id = id
  attached : ∀ session e, s.attachments session = some e ↔
    ∃ entry, s.entries e = some entry ∧ entry.session = session ∧ s.store entry.id = some e

theorem begun_append (trace : List Observation) (o : Observation) (topic : SessionTopic) (e : ℕ) :
    begun (trace ++ [o]) topic e
      = begun trace topic e + if o = .dispatched topic e then 1 else 0 := by
  rw [begun, List.count_append, List.count_singleton]
  simp only [beq_iff_eq]
  rfl

theorem ended_append (trace : List Observation) (o : Observation) (topic : SessionTopic) (e : ℕ) :
    ended (trace ++ [o]) topic e = ended trace topic e + if o.ends topic e then 1 else 0 := by
  rw [ended, List.countP_append, List.countP_singleton]
  rfl

theorem publishing_cons (p : Publication Event) (stack : List (Publication Event))
    (topic : SessionTopic) (e : ℕ) : publishing (p :: stack) topic e
      = publishing stack topic e + if p.topic = topic ∧ p.entry = e then 1 else 0 := by
  rw [publishing, List.countP_cons]
  simp only [decide_eq_true_eq]
  rfl

/-- Changing the flags of an entry changes the flags of its lifecycle. -/
theorem lifecycle_modify_of_ne {s : SessionStore Id Session Event} {e e' : ℕ} (h : e' ≠ e)
    (f : SessionEntry Id Session → SessionEntry Id Session) :
    (s.modify e f).lifecycle e' = s.lifecycle e' := by
  simp only [lifecycle, modify, Function.update_of_ne h]
  rfl

theorem lifecycle_publish (s : SessionStore Id Session Event) (topic : SessionTopic) (e e' : ℕ)
    (payload : Option Event) : (s.publish topic e payload).lifecycle e'
      = if e' = e then (s.lifecycle e').publish topic else s.lifecycle e' := by
  split_ifs with h
  · subst h
    ext1
    case publishing =>
      funext t
      simp only [lifecycle, publish, Lifecycle.publish, publishing_cons, Function.update_apply]
      by_cases ht : topic = t
      · subst ht; simp
      · simp [ht, Ne.symm ht]
    case begun =>
      funext t
      simp only [lifecycle, publish, Lifecycle.publish, begun_append, Function.update_apply]
      by_cases ht : topic = t
      · subst ht; simp
      · simp [ht, Ne.symm ht]
    case ended =>
      funext t
      simp [lifecycle, publish, Lifecycle.publish, ended_append, Observation.ends]
    case detached => simp [lifecycle, publish, Lifecycle.publish, List.count_append]
    all_goals rfl
  · ext1
    case begun =>
      funext t
      simp [lifecycle, publish, begun_append, Ne.symm h]
    case publishing =>
      funext t
      simp [lifecycle, publish, publishing_cons, Ne.symm h]
    case ended =>
      funext t
      simp [lifecycle, publish, ended_append, Observation.ends]
    case detached => simp [lifecycle, publish, List.count_append]
    all_goals rfl

/-- A publication that leaves the stack has ended. -/
theorem lifecycle_pop {s : SessionStore Id Session Event} {p : Publication Event}
    {rest : List (Publication Event)} (hstack : s.stack = p :: rest) (listeners : Option ℕ)
    (called : ℕ) (threw : Bool) (e : ℕ) :
    lifecycle { s with
        stack := rest
        trace := s.trace ++ [.ended p.topic p.entry listeners called threw] } e
      = if e = p.entry then (s.lifecycle e).unpublish p.topic else s.lifecycle e := by
  split_ifs with h
  · subst h
    ext1
    case publishing =>
      funext t
      simp only [lifecycle, Lifecycle.unpublish, hstack, publishing_cons, Function.update_apply]
      by_cases ht : p.topic = t
      · subst ht; simp
      · simp [ht, Ne.symm ht]
    case begun =>
      funext t
      simp [lifecycle, Lifecycle.unpublish, begun_append]
    case ended =>
      funext t
      simp only [lifecycle, Lifecycle.unpublish, ended_append, Function.update_apply]
      by_cases ht : p.topic = t
      · subst ht; simp [Observation.ends]
      · simp [Observation.ends, ht, Ne.symm ht]
    case detached => simp [lifecycle, Lifecycle.unpublish, List.count_append]
    all_goals rfl
  · ext1
    case publishing =>
      funext t
      simp [lifecycle, hstack, publishing_cons, Ne.symm h]
    case begun =>
      funext t
      simp [lifecycle, begun_append]
    case ended =>
      funext t
      simp [lifecycle, ended_append, Observation.ends, Ne.symm h]
    case detached => simp [lifecycle, List.count_append]
    all_goals rfl

/-- The store without one live entry. -/
private def without (s : SessionStore Id Session Event) (e : ℕ) (entry : SessionEntry Id Session) :
    SessionStore Id Session Event :=
  { s.modify e fun entry ↦ { entry with detachRequested := false } with
    store := Function.update s.store entry.id none
    attachments := Function.update s.attachments entry.session none
    trace := s.trace ++ [.detached e] }

private theorem detachEntered_eq {s : SessionStore Id Session Event} {e : ℕ}
    {entry : SessionEntry Id Session} (hentry : s.entries e = some entry)
    (hlive : s.store entry.id = some e) : s.detachEntered e
      = if entry.announced then (without s e entry).emitDisposed e else without s e entry := by
  have hstore : (s.modify e fun entry ↦ { entry with detachRequested := false }).store = s.store :=
    rfl
  rw [detachEntered]
  simp only [hentry, hstore, hlive]
  rw [if_neg (not_not.mpr rfl)]
  rfl

private theorem lifecycle_without {s : SessionStore Id Session Event} {e : ℕ}
    {entry : SessionEntry Id Session} (hentry : s.entries e = some entry)
    (hlive : s.store entry.id = some e) (e' : ℕ) : (without s e entry).lifecycle e'
      = if e' = e then { s.lifecycle e' with
          detachRequested := false, live := false, detached := (s.lifecycle e').detached + 1 }
        else s.lifecycle e' := by
  split_ifs with h
  · subst h
    ext1
    case live => simp [lifecycle, without, modify, hentry]
    case detached => simp [lifecycle, without, modify, List.count_append]
    case begun => funext t; simp [lifecycle, without, modify, begun_append]
    case ended => funext t; simp [lifecycle, without, modify, ended_append, Observation.ends]
    all_goals simp [lifecycle, without, modify, hentry]
  · ext1
    case live =>
      -- Its id is not the id of the entry that leaves: the store maps that one elsewhere.
      simp only [lifecycle, without, modify, Function.update_of_ne h]
      rcases hx : s.entries e' with _ | x
      · rfl
      · by_cases hid : x.id = entry.id
        · simp [hid, hlive, Ne.symm h]
        · simp [Function.update_of_ne hid]
    case detached => simp [lifecycle, without, modify, List.count_append, Ne.symm h]
    case begun => funext t; simp [lifecycle, without, modify, begun_append]
    case ended => funext t; simp [lifecycle, without, modify, ended_append, Observation.ends]
    all_goals simp [lifecycle, without, modify, Function.update_of_ne h]

/-- A live entry that is detached is removed, and nothing else is touched. -/
theorem lifecycle_detachEntered {s : SessionStore Id Session Event} {e : ℕ}
    {entry : SessionEntry Id Session} (hentry : s.entries e = some entry)
    (hlive : s.store entry.id = some e) (e' : ℕ) :
    (s.detachEntered e).lifecycle e'
      = if e' = e then (s.lifecycle e').remove else s.lifecycle e' := by
  have hann : e' = e → (s.lifecycle e').announced = entry.announced := by
    rintro rfl
    simp [lifecycle, hentry]
  rw [detachEntered_eq hentry hlive]
  rcases ha : entry.announced with _ | _
  · rw [if_neg Bool.false_ne_true, lifecycle_without hentry hlive]
    split_ifs with h
    · ext1 <;> simp [Lifecycle.remove, hann h, ha]
    · rfl
  · rw [if_pos rfl, emitDisposed, lifecycle_publish, lifecycle_without hentry hlive]
    split_ifs with h
    · ext1 <;> simp [Lifecycle.remove, Lifecycle.publish, hann h, ha]
    · rfl

theorem wf_new : (new : SessionStore Id Session Event).Wf where
  fresh _ _ := rfl
  store := nofun
  attached session e := ⟨nofun, nofun⟩

/-- Changing the flags of an entry keeps the indices. -/
theorem Wf.modify {s : SessionStore Id Session Event} (h : s.Wf) (e : ℕ)
    {f : SessionEntry Id Session → SessionEntry Id Session}
    (hf : ∀ entry, (f entry).id = entry.id ∧ (f entry).session = entry.session) :
    (s.modify e f).Wf := by
  have hentries (e' : ℕ) : (s.modify e f).entries e'
      = if e' = e then (s.entries e').map f else s.entries e' := by
    simp only [SessionStore.modify, Function.update_apply]
    split_ifs with he
    · rw [he]
    · rfl
  -- What `f` leaves alone is all that the indices look at.
  have hlook (e' : ℕ) (P : Id → Session → Prop) :
      (∃ entry, (s.modify e f).entries e' = some entry ∧ P entry.id entry.session) ↔
        ∃ entry, s.entries e' = some entry ∧ P entry.id entry.session := by
    rw [hentries]
    split_ifs with he
    · rcases s.entries e' with _ | entry
      · simp
      · simp [hf entry]
    · exact Iff.rfl
  constructor
  · intro e' he'
    rw [hentries, h.fresh e' he']
    simp
  · intro id e' hstore
    exact (hlook e' fun id' _ ↦ id' = id).mpr (h.store id e' hstore)
  · intro session e'
    exact (h.attached session e').trans
      (hlook e' fun id' session' ↦ session' = session ∧ s.store id' = some e').symm

theorem Wf.without {s : SessionStore Id Session Event} (h : s.Wf) {e : ℕ}
    {entry : SessionEntry Id Session} (hentry : s.entries e = some entry)
    (hlive : s.store entry.id = some e) : (without s e entry).Wf := by
  have hm := h.modify e (f := fun entry ↦ { entry with detachRequested := false })
    fun _ ↦ ⟨rfl, rfl⟩
  have hentries : (SessionStore.without s e entry).entries e
      = some { entry with detachRequested := false } := by
    simp [SessionStore.without, SessionStore.modify, hentry]
  have hkeep (id : Id) (e' : ℕ) (hstore : (SessionStore.without s e entry).store id = some e') :
      id ≠ entry.id ∧ s.store id = some e' := by
    by_cases hid : id = entry.id
    · simp [SessionStore.without, hid] at hstore
    · exact ⟨hid, by simpa [SessionStore.without, Function.update_of_ne hid] using hstore⟩
  constructor
  · exact hm.fresh
  · exact fun id e' hstore ↦ hm.store id e' (hkeep id e' hstore).2
  · intro session e'
    by_cases hsession : session = entry.session
    · subst hsession
      refine ⟨fun hnone ↦ by simp [SessionStore.without] at hnone, ?_⟩
      rintro ⟨x, hx, hxs, hstore⟩
      obtain ⟨hne, hstore⟩ := hkeep x.id e' hstore
      have hboth := ((h.attached entry.session e).mpr ⟨entry, hentry, rfl, hlive⟩).symm.trans
        ((hm.attached entry.session e').mpr ⟨x, hx, hxs, hstore⟩)
      rw [← Option.some.inj hboth, hentries] at hx
      exact absurd (Option.some.inj hx ▸ rfl) hne
    · have hatt : (SessionStore.without s e entry).attachments session = s.attachments session :=
        Function.update_of_ne hsession _ _
      rw [hatt]
      refine (hm.attached session e').trans ⟨?_, ?_⟩
      · rintro ⟨x, hx, hxs, hstore⟩
        refine ⟨x, hx, hxs, ?_⟩
        have hne : x.id ≠ entry.id := by
          intro hid
          have he : e = e' := Option.some.inj (hlive.symm.trans (hid ▸ hstore))
          subst he
          have hself := hentries.symm.trans hx
          rw [← Option.some.inj hself] at hxs
          exact hsession hxs.symm
        exact (Function.update_of_ne hne _ _).trans hstore
      · rintro ⟨x, hx, hxs, hstore⟩
        exact ⟨x, hx, hxs, (hkeep x.id e' hstore).2⟩

theorem Wf.detachEntered {s : SessionStore Id Session Event} (h : s.Wf) {e : ℕ}
    {entry : SessionEntry Id Session} (hentry : s.entries e = some entry)
    (hlive : s.store entry.id = some e) : (s.detachEntered e).Wf := by
  have hw := h.without hentry hlive
  rw [detachEntered_eq hentry hlive]
  split_ifs
  · exact ⟨hw.fresh, hw.store, hw.attached⟩
  · exact hw

/-! ## One step -/

/-- What every step does: the indices stay in agreement, and each entry moves at most once. -/
structure Moves (s s' : SessionStore Id Session Event) : Prop where
  wf : s'.Wf
  lifecycle : ∀ e, s'.lifecycle e = s.lifecycle e ∨ Lifecycle.Move (s.lifecycle e) (s'.lifecycle e)

theorem Moves.refl {s : SessionStore Id Session Event} (h : s.Wf) : Moves s s :=
  ⟨h, fun _ ↦ .inl rfl⟩

/-- The entry of the store is an entry that is alive. -/
theorem live_of_store {s : SessionStore Id Session Event} {e : ℕ} {entry : SessionEntry Id Session}
    (hentry : s.entries e = some entry) :
    (s.lifecycle e).live = true ↔ s.store entry.id = some e := by
  simp [SessionStore.lifecycle, hentry]

theorem Wf.enter {s : SessionStore Id Session Event} (h : s.Wf) (id : Session → Id)
    (session : Session) : (s.enter id session).Wf := by
  have hnew : s.entries s.next = none := h.fresh _ (Nat.le_refl _)
  obtain ⟨h1, h2, h3⟩ := h
  rw [SessionStore.enter]
  split_ifs with hbusy
  · exact ⟨h1, h2, h3⟩
  · rw [not_or, Option.not_isSome_iff_eq_none, Option.not_isSome_iff_eq_none] at hbusy
    obtain ⟨hstore, hatt⟩ := hbusy
    constructor
    · exact fun e he ↦
        (Function.update_of_ne (Nat.ne_of_gt he) _ _).trans (h1 e (Nat.le_of_succ_le he))
    · intro id' e
      simp only [Function.update_apply]
      by_cases he : e = s.next
      · subst he
        rw [if_pos rfl]
        split_ifs with hid
        · exact fun _ ↦ ⟨_, rfl, hid.symm⟩
        · intro hold
          obtain ⟨x, hx, -⟩ := h2 id' _ hold
          exact absurd (hnew.symm.trans hx) nofun
      · rw [if_neg he]
        split_ifs with hid
        · exact fun hold ↦ absurd (Option.some.inj hold).symm he
        · exact h2 id' e
    · intro session' e
      simp only [Function.update_apply]
      by_cases he : e = s.next
      · subst he
        rw [if_pos rfl]
        split_ifs with hsession
        · simp [hsession]
        · constructor
          · intro hold
            obtain ⟨x, hx, -⟩ := (h3 session' _).mp hold
            exact absurd (hnew.symm.trans hx) nofun
          · simp [Ne.symm hsession]
      · rw [if_neg he]
        have hlive (x : SessionEntry Id Session) :
            (if x.id = id session then some s.next else s.store x.id) = some e ↔
              s.store x.id = some e := by
          split_ifs with hid
          · simp [hid, hstore, Ne.symm he]
          · exact Iff.rfl
        simp only [hlive, ← h3 session' e]
        split_ifs with hsession
        · simp [hsession, hatt, Ne.symm he]
        · exact Iff.rfl

theorem moves_enter {s : SessionStore Id Session Event} (h : s.Wf) (id : Session → Id)
    (session : Session) : Moves s (s.enter id session) := by
  refine ⟨h.enter id session, fun e ↦ ?_⟩
  have hnew : s.entries s.next = none := h.fresh _ (Nat.le_refl _)
  rw [SessionStore.enter]
  split_ifs with hbusy
  · exact .inl rfl
  rw [not_or, Option.not_isSome_iff_eq_none, Option.not_isSome_iff_eq_none] at hbusy
  by_cases he : e = s.next
  · subst he
    have habsent : (s.lifecycle s.next).present = false := by simp [lifecycle, hnew]
    convert Or.inr (Lifecycle.Move.enter habsent) using 2
    ext1 <;> simp [lifecycle, hnew]
  · refine .inl ?_
    ext1
    case live =>
      simp only [lifecycle, Function.update_of_ne he]
      rcases hx : s.entries e with _ | x
      · rfl
      · by_cases hid : x.id = id session
        · simp [hid, hbusy.1, Ne.symm he]
        · simp [Function.update_of_ne hid]
    all_goals simp [lifecycle, Function.update_of_ne he]

theorem liveEntryFor_eq_some {s : SessionStore Id Session Event} {session : Session} {e : ℕ}
    {entry : SessionEntry Id Session} (h : s.liveEntryFor session = some (e, entry)) :
    s.entries e = some entry ∧ s.store entry.id = some e := by
  rw [liveEntryFor] at h
  rcases ha : s.attachments session with _ | e'
  · simp [ha] at h
  · rcases hx : s.entries e' with _ | x
    · simp [ha, hx] at h
    · simp only [ha, hx] at h
      split_ifs at h with hlive
      obtain ⟨rfl, rfl⟩ := Prod.mk.inj (Option.some.inj h)
      exact ⟨hx, hlive⟩

/-- A step that publishes on behalf of one entry, whose flags it changes first. -/
private theorem moves_publish {s : SessionStore Id Session Event} (h : s.Wf) {e : ℕ}
    {entry : SessionEntry Id Session} (hentry : s.entries e = some entry) (topic : SessionTopic)
    (payload : Option Event) {f : SessionEntry Id Session → SessionEntry Id Session}
    (hf : ∀ entry, (f entry).id = entry.id ∧ (f entry).session = entry.session)
    (hmove : Lifecycle.Move (s.lifecycle e) (((s.modify e f).lifecycle e).publish topic)) :
    Moves s ((s.modify e f).publish topic e payload) := by
  have hw := h.modify e hf
  refine ⟨⟨hw.fresh, hw.store, hw.attached⟩, fun e' ↦ ?_⟩
  rw [lifecycle_publish]
  split_ifs with he
  · rw [he]
    exact .inr hmove
  · exact .inl (lifecycle_modify_of_ne he f)

theorem moves_announce {s : SessionStore Id Session Event} (h : s.Wf) (session : Session) :
    Moves s (s.announce session) := by
  rw [announce]
  rcases hl : s.liveEntryFor session with _ | ⟨e, entry⟩
  · exact Moves.refl h
  obtain ⟨hentry, hlive⟩ := liveEntryFor_eq_some hl
  simp only
  split_ifs with hbusy
  · exact Moves.refl h
  rw [Bool.or_eq_true, not_or, Bool.not_eq_true, Bool.not_eq_true] at hbusy
  refine moves_publish h hentry .created none (fun _ ↦ ⟨rfl, rfl⟩) ?_
  have hann : (s.lifecycle e).announced = false := by simp [lifecycle, hentry, hbusy.1]
  convert Lifecycle.Move.announce ((live_of_store hentry).mpr hlive) hann using 2
  ext1 <;> simp [lifecycle, modify, hentry]

theorem moves_append {s : SessionStore Id Session Event} (h : s.Wf)
    (admits : List Event → Event → Bool) (session : Session) (event : Event) :
    Moves s (s.append admits session event) := by
  rw [append]
  rcases ha : s.attachments session with _ | e
  · simp only [ha, Option.bind_none]
    split_ifs
    · exact ⟨⟨h.fresh, h.store, h.attached⟩, fun _ ↦ .inl rfl⟩
    · exact Moves.refl h
  · obtain ⟨entry, hentry, -, hlive⟩ := (h.attached session e).mp ha
    simp only [ha, hentry, Option.bind_some, Option.map_some]
    split_ifs with hbusy
    · exact Moves.refl h
    rw [Bool.or_eq_true, not_or, Bool.not_eq_true] at hbusy
    refine moves_publish h hentry .event (some event) (fun _ ↦ ⟨rfl, rfl⟩) ?_
    have happ : (s.lifecycle e).appending = false := by simp [lifecycle, hentry, hbusy.1]
    convert Lifecycle.Move.append ((live_of_store hentry).mpr hlive) happ using 2
    ext1 <;> simp [lifecycle, modify, hentry]

/-- A step that changes the flags of one entry and removes it. -/
private theorem moves_detachEntered {s : SessionStore Id Session Event} (h : s.Wf) {e : ℕ}
    {entry : SessionEntry Id Session} (hentry : s.entries e = some entry)
    (hlive : s.store entry.id = some e) {f : SessionEntry Id Session → SessionEntry Id Session}
    (hf : ∀ entry, (f entry).id = entry.id ∧ (f entry).session = entry.session)
    (hmove : Lifecycle.Move (s.lifecycle e) ((s.modify e f).lifecycle e).remove) :
    Moves s ((s.modify e f).detachEntered e) := by
  have hentry' : (s.modify e f).entries e = some (f entry) := by simp [modify, hentry]
  have hlive' : (s.modify e f).store (f entry).id = some e := by rw [(hf entry).1]; exact hlive
  refine ⟨(h.modify e hf).detachEntered hentry' hlive', fun e' ↦ ?_⟩
  rw [lifecycle_detachEntered hentry' hlive']
  split_ifs with he
  · rw [he]
    exact .inr hmove
  · exact .inl (lifecycle_modify_of_ne he f)

theorem moves_detach {s : SessionStore Id Session Event} (h : s.Wf)
    (hok : ∀ e, (s.lifecycle e).Ok) (e : ℕ) : Moves s (s.detach e) := by
  rw [detach]
  rcases hentry : s.entries e with _ | entry
  · exact Moves.refl h
  simp only [hentry]
  split_ifs with hused hbusy
  · exact Moves.refl h
  all_goals
    rw [Bool.not_eq_false] at hused
    have hent : (s.lifecycle e).entered = true := by simp [lifecycle, hentry, hused]
    have hflags : ((s.lifecycle e).announcing || (s.lifecycle e).appending)
        = (entry.announcing || entry.appending) := by simp [lifecycle, hentry]
  · refine ⟨h.modify e fun _ ↦ ⟨rfl, rfl⟩, fun e' ↦ ?_⟩
    by_cases he : e' = e
    · subst he
      convert Or.inr (Lifecycle.Move.defer hent (hflags.trans hbusy)) using 2
      ext1 <;> simp [lifecycle, modify, hentry]
    · exact .inl (lifecycle_modify_of_ne he _)
  · rw [Bool.not_eq_true] at hbusy
    have hlive := (live_of_store hentry).mp ((hok e).capability.mpr (.inl hent))
    refine moves_detachEntered h hentry hlive (fun _ ↦ ⟨rfl, rfl⟩) ?_
    convert Lifecycle.Move.detach hent (hflags.trans hbusy) using 2
    ext1 <;> simp [lifecycle, modify, hentry]

/-- The end of a publication whose flag is cleared behind it. -/
private theorem moves_unwound {s s₁ : SessionStore Id Session Event} (h : s₁.Wf) {e : ℕ}
    {topic : SessionTopic} {entry : SessionEntry Id Session} (hentry : s₁.entries e = some entry)
    (hlive : s₁.store entry.id = some e)
    (hpop : ∀ e', s₁.lifecycle e'
      = if e' = e then (s.lifecycle e').unpublish topic else s.lifecycle e')
    {f : SessionEntry Id Session → SessionEntry Id Session}
    (hf : ∀ entry, (f entry).id = entry.id ∧ (f entry).session = entry.session) {last : Bool}
    (hstay : last = false → Lifecycle.Move (s.lifecycle e) ((s₁.modify e f).lifecycle e))
    (hlast : last = true → Lifecycle.Move (s.lifecycle e) ((s₁.modify e f).lifecycle e).remove) :
    Moves s (if last then (s₁.modify e f).detachEntered e else s₁.modify e f) := by
  have hentry' : (s₁.modify e f).entries e = some (f entry) := by simp [modify, hentry]
  have hlive' : (s₁.modify e f).store (f entry).id = some e := by rw [(hf entry).1]; exact hlive
  have hother (e' : ℕ) (he : e' ≠ e) : (s₁.modify e f).lifecycle e' = s.lifecycle e' := by
    rw [lifecycle_modify_of_ne he, hpop, if_neg he]
  rcases last with _ | _
  · refine ⟨h.modify e hf, fun e' ↦ ?_⟩
    by_cases he : e' = e
    · rw [he]
      exact .inr (hstay rfl)
    · exact .inl (hother e' he)
  · refine ⟨(h.modify e hf).detachEntered hentry' hlive', fun e' ↦ ?_⟩
    rw [if_pos rfl, lifecycle_detachEntered hentry' hlive']
    split_ifs with he
    · rw [he]
      exact .inr (hlast rfl)
    · exact .inl (hother e' he)

theorem exists_live_entry {s : SessionStore Id Session Event} {e : ℕ}
    (hlive : (s.lifecycle e).live = true) :
    ∃ entry, s.entries e = some entry ∧ s.store entry.id = some e := by
  rcases hentry : s.entries e with _ | entry
  · simp [lifecycle, hentry] at hlive
  · exact ⟨entry, rfl, (live_of_store hentry).mp hlive⟩

theorem moves_finish {s : SessionStore Id Session Event} (h : s.Wf) (hok : ∀ e, (s.lifecycle e).Ok)
    {p q : Publication Event} {rest : List (Publication Event)} (hstack : s.stack = p :: rest)
    (hq : p.topic = q.topic ∧ p.entry = q.entry) (threw : Bool) :
    Moves s (s.finish q rest threw) := by
  have hpos : 0 < (s.lifecycle q.entry).publishing q.topic := by
    simp [lifecycle, hstack, publishing_cons, hq.1, hq.2]
  have hpop := lifecycle_pop hstack q.listeners q.called threw
  rw [hq.1, hq.2] at hpop
  have hok' := hok q.entry
  rw [finish]
  generalize hs₁ : ({ s with stack := rest, trace := _ } : SessionStore Id Session Event) = s₁
    at hpop ⊢
  have hwf : s₁.Wf := by
    rw [← hs₁]
    exact ⟨h.fresh, h.store, h.attached⟩
  have hentries : s₁.entries = s.entries := by rw [← hs₁]
  have hstore : s₁.store = s.store := by rw [← hs₁]
  rcases htopic : q.topic with _ | _ | _
  · rw [htopic] at hpos hpop
    have hbusy := (Lifecycle.toNat_pos (hok'.created ▸ hpos)).1
    obtain ⟨entry, hentry, hlive⟩ := exists_live_entry (hok'.busy (.inl hbusy))
    have hentry₁ : s₁.entries q.entry = some entry := hentries ▸ hentry
    have hflag : ((s.lifecycle q.entry).detachRequested && !(s.lifecycle q.entry).appending)
        = (entry.detachRequested && !entry.appending) := by simp [lifecycle, hentry]
    have hafter : (s₁.modify q.entry fun entry ↦ { entry with announcing := false }).lifecycle
        q.entry = { (s.lifecycle q.entry).unpublish .created with announcing := false } := by
      have hself := hpop q.entry
      rw [if_pos rfl] at hself
      rw [← hself]
      ext1 <;> simp [lifecycle, modify, hentry₁]
    have hun := @moves_unwound Id Session Event _ _ s s₁ hwf _ _ entry hentry₁ (hstore ▸ hlive) hpop
      (fun entry ↦ { entry with announcing := false }) (fun _ ↦ ⟨rfl, rfl⟩)
      (entry.detachRequested && !entry.appending)
      (fun hl ↦ by rw [hafter]; exact .created hpos (hflag.trans hl))
      (fun hl ↦ by rw [hafter]; exact .createdLast hpos (hflag.trans hl))
    rw [unwound]
    simpa [modify, hentry₁] using hun
  · rw [htopic] at hpos hpop
    have hbusy := (Lifecycle.toNat_pos (hok'.event ▸ hpos)).1
    obtain ⟨entry, hentry, hlive⟩ := exists_live_entry (hok'.busy (.inr hbusy))
    have hentry₁ : s₁.entries q.entry = some entry := hentries ▸ hentry
    have hflag : ((s.lifecycle q.entry).detachRequested && !(s.lifecycle q.entry).announcing)
        = (entry.detachRequested && !entry.announcing) := by simp [lifecycle, hentry]
    have hafter : (s₁.modify q.entry fun entry ↦ { entry with appending := false }).lifecycle
        q.entry = { (s.lifecycle q.entry).unpublish .event with appending := false } := by
      have hself := hpop q.entry
      rw [if_pos rfl] at hself
      rw [← hself]
      ext1 <;> simp [lifecycle, modify, hentry₁]
    have hun := @moves_unwound Id Session Event _ _ s s₁ hwf _ _ entry hentry₁ (hstore ▸ hlive) hpop
      (fun entry ↦ { entry with appending := false }) (fun _ ↦ ⟨rfl, rfl⟩)
      (entry.detachRequested && !entry.announcing)
      (fun hl ↦ by rw [hafter]; exact .event hpos (hflag.trans hl))
      (fun hl ↦ by rw [hafter]; exact .eventLast hpos (hflag.trans hl))
    rw [unwound]
    simpa [modify, hentry₁] using hun
  · rw [htopic] at hpos hpop
    rw [unwound]
    refine ⟨hwf, fun e ↦ ?_⟩
    rw [hpop]
    split_ifs with he
    · rw [he]
      exact .inr (.disposed hpos)
    · exact .inl rfl

theorem moves_callNext {s : SessionStore Id Session Event} (h : s.Wf)
    (hok : ∀ e, (s.lifecycle e).Ok) {p q : Publication Event} {rest : List (Publication Event)}
    (hstack : s.stack = p :: rest) (hq : p.topic = q.topic ∧ p.entry = q.entry) :
    Moves s (s.callNext q rest) := by
  rw [callNext]
  split_ifs
  · refine ⟨⟨h.fresh, h.store, h.attached⟩, fun e ↦ .inl ?_⟩
    ext1
    case publishing =>
      funext t
      simp [lifecycle, hstack, publishing_cons, hq.1, hq.2]
    all_goals rfl
  · exact moves_finish h hok hstack hq false

/-- **A step moves the lifecycle of one entry at most.** -/
theorem moves_step {s : SessionStore Id Session Event} (h : s.Wf) (hok : ∀ e, (s.lifecycle e).Ok)
    (id : Session → Id) (admits : List Event → Event → Bool) (a : StoreAction Session Event) :
    Moves s (s.step id admits a) := by
  rcases a with session | session | e | ⟨session, event⟩ | listeners | _ | _
  · exact moves_enter h id session
  · exact moves_announce h session
  · exact moves_detach h hok e
  · exact moves_append h admits session event
  all_goals
    rw [step]
    rcases hstack : s.stack with _ | ⟨p, rest⟩
  all_goals simp only
  · exact Moves.refl h
  · split_ifs
    · rw [resolve]
      -- Pushing the event into its log changes no entry and no publication.
      rcases hp : p.payload with _ | event
      · exact moves_callNext h hok hstack ⟨rfl, rfl⟩
      · rcases hentry : s.entries p.entry with _ | entry
        · exact moves_callNext h hok hstack ⟨rfl, rfl⟩
        · have hpushed : (s.pushEvent entry.session event).Wf := ⟨h.fresh, h.store, h.attached⟩
          have hnext := @moves_callNext Id Session Event _ _ (s.pushEvent entry.session event) hpushed
            hok p ⟨p.topic, p.entry, some event, some listeners, p.called⟩ rest hstack ⟨rfl, rfl⟩
          exact ⟨hnext.wf, hnext.lifecycle⟩
    · exact Moves.refl h
  · exact Moves.refl h
  · split_ifs
    · exact Moves.refl h
    · exact moves_callNext h hok hstack ⟨rfl, rfl⟩
  · exact Moves.refl h
  · split_ifs
    · exact moves_finish h hok hstack ⟨rfl, rfl⟩ true
    · exact moves_callNext h hok hstack ⟨rfl, rfl⟩

end SessionStore

end XxAgent
