import XxAgent.Projection.Registry

/-!
# Live projection cells

The registry is one of the callbacks that a committed event is handed to. It carries the cell of
every unit on over the event, in the order of registration, and tells the change feed where a state
has changed. What listens, before it, behind it or in between, may read, register and append at
will; an append is refused while an event is being published.
-/

namespace XxAgent

open Ecma Watermark

variable {Data : Type}

/-! ## Cells -/

/-- Per-session per-unit watermark cache row. -/
structure UnitCell where
  state : Json
  /-- Seq of the last event passed through `apply`. -/
  observedSeq : ℤ
deriving DecidableEq

/-- One live registration, with the cell of the session. -/
structure Registration (Data : Type) where
  /-- Its place in the enumeration of the map: later registrations are visited later. -/
  entry : ℕ
  key : ProjectionKey
  unit : ProjectionDefinition Data
  cell : Option UnitCell
  /-- Live registrants sharing this unit. -/
  refs : ℕ

/-- How far the publication of an event has got. -/
inductive PublicationPoint where
  /-- Callbacks that come before the registry. -/
  | announced
  /-- `drive`: registrations from this entry on are still to be visited. -/
  | driving (next : ℕ)
  /-- The change feed is told of a unit's new state, before the entry that `drive` visits next. -/
  | notifying (next : ℕ)
  /-- Callbacks that come behind the registry. -/
  | driven
deriving DecidableEq

/-- A session in the store, and the registry that observes it. -/
structure LiveProjections (Data : Type) where
  log : List (CommittedEvent Data)
  /-- In enumeration order. -/
  registrations : List (Registration Data)
  nextEntry : ℕ
  /-- How many listeners the change feed has. -/
  listeners : ℕ
  /-- The event that is being published. -/
  publication : Option (CommittedEvent Data × PublicationPoint)

/-- `buildCell` -/
def buildCell (unit : ProjectionDefinition Data) (events : List (CommittedEvent Data)) : UnitCell :=
  ⟨unit.fold events, endSeqOf events 0⟩

/-- `cellFor` -/
def Registration.cellFor (registration : Registration Data) (log : List (CommittedEvent Data)) :
    UnitCell :=
  registration.cell.getD (buildCell registration.unit log)

/-- A registration whose cell has been read. -/
def Registration.touched (registration : Registration Data) (log : List (CommittedEvent Data)) :
    Registration Data :=
  { registration with cell := some (registration.cellFor log) }

namespace LiveProjections

/-! ## Reads -/

/-- The loop of `snapshot`: a value that the schema refuses ends it. -/
def snapshotLoop (log : List (CommittedEvent Data)) :
    List (Registration Data) → OrderedMap ProjectionKey Json →
      List (Registration Data) × Option (OrderedMap ProjectionKey Json)
  | [], values => ([], some values)
  | registration :: rest, values =>
    let unit := registration.unit
    match unit.parse (unit.view (registration.cellFor log).state) with
    | none => (registration.touched log :: rest, none)
    | some value =>
      let (rest, values) := snapshotLoop log rest (values.set registration.key value)
      (registration.touched log :: rest, values)

/-- `snapshot`, and the cells it leaves behind. -/
def snapshot (s : LiveProjections Data) : LiveProjections Data × Option ProjectionSnapshot :=
  let (registrations, values) := snapshotLoop s.log s.registrations .empty
  ({ s with registrations := registrations },
    values.map fun values ↦ ⟨(s.log.length : ℤ) - 1, values⟩)

/-- `checkpoint`, and the cells it leaves behind. -/
def checkpoint (s : LiveProjections Data) : LiveProjections Data × ProjectionCheckpoint :=
  ({ s with registrations := s.registrations.map (·.touched s.log) },
    s.registrations.foldl (fun rows registration ↦
      let cell := registration.cellFor s.log
      rows.set registration.key ⟨registration.unit.stateVersion, cell.observedSeq, cell.state⟩)
      .empty)

/-! ## Registration -/

/-- One more registrant of a key. -/
def retain (key : ProjectionKey) (registration : Registration Data) : Registration Data :=
  if registration.key = key then { registration with refs := registration.refs + 1 }
  else registration

/-- One registrant of a key less; the last one out removes it. -/
def release (key : ProjectionKey) (registration : Registration Data) :
    Option (Registration Data) :=
  if registration.key ≠ key then some registration
  else if registration.refs - 1 = 0 then none
  else some { registration with refs := registration.refs - 1 }

/-- The effect of `register`; units of different versions cannot share a key. -/
def register (s : LiveProjections Data) (key : ProjectionKey) (unit : ProjectionDefinition Data) :
    LiveProjections Data :=
  match s.registrations.find? (·.key = key) with
  | none => { s with
      registrations := s.registrations ++ [⟨s.nextEntry, key, unit, none, 1⟩]
      nextEntry := s.nextEntry + 1 }
  | some existing =>
    if existing.unit.stateVersion ≠ unit.stateVersion then s
    else { s with registrations := s.registrations.map (retain key) }

/-- The disposer that `register` returns. -/
def unregister (s : LiveProjections Data) (key : ProjectionKey) : LiveProjections Data :=
  { s with registrations := s.registrations.filterMap (release key) }

/-! ## Publication -/

/-- `append`: the event is pushed, and the callbacks are about to run. -/
def append (s : LiveProjections Data) (data : Data) : LiveProjections Data :=
  match s.publication with
  | some _ => s
  | none =>
    let event : CommittedEvent Data := ⟨s.log.length, data⟩
    { s with log := s.log ++ [event], publication := some (event, .announced) }

/-- The round of `drive` for one registration: its new cell, and whether the state has changed. -/
def driveUnit (log : List (CommittedEvent Data)) (event : CommittedEvent Data)
    (registration : Registration Data) : UnitCell × Bool :=
  let cell := registration.cellFor (log.take event.seq)
  (⟨registration.unit.apply cell.state event, event.seq⟩,
    !registration.unit.unchanged cell.state event)

/-- The registration that `drive` visits next. -/
def nextVisit (s : LiveProjections Data) (next : ℕ) : Option (Registration Data) :=
  s.registrations.find? (next ≤ ·.entry)

/-- Set the cell of one registration. -/
def setCell (s : LiveProjections Data) (entry : ℕ) (cell : UnitCell) : LiveProjections Data :=
  { s with
    registrations := s.registrations.map fun registration ↦
      if registration.entry = entry then { registration with cell := some cell }
      else registration }

/-- One round of `drive`. -/
def drive (s : LiveProjections Data) (event : CommittedEvent Data) (next : ℕ) :
    LiveProjections Data :=
  match s.nextVisit next with
  | none => { s with publication := some (event, .driven) }
  | some registration =>
    let (cell, changed) := driveUnit s.log event registration
    let s := s.setCell registration.entry cell
    if changed ∧ 0 < s.listeners then
      match registration.unit.parse (registration.unit.view cell.state) with
      -- The throw is contained, and ends the callback.
      | none => { s with publication := some (event, .driven) }
      | some _ => { s with publication := some (event, .notifying (registration.entry + 1)) }
    else { s with publication := some (event, .driving (registration.entry + 1)) }

/-- The running callbacks return, or `drive` makes its next round. -/
def proceed (s : LiveProjections Data) : LiveProjections Data :=
  match s.publication with
  | none => s
  | some (event, .announced) => { s with publication := some (event, .driving 0) }
  | some (event, .driving next) => s.drive event next
  | some (event, .notifying next) => { s with publication := some (event, .driving next) }
  | some (_, .driven) => { s with publication := none }

/-- A listener throws. From the change feed that ends `drive`; other callbacks are contained. -/
def listenerThrows (s : LiveProjections Data) : LiveProjections Data :=
  match s.publication with
  | some (event, .notifying _) => { s with publication := some (event, .driven) }
  | _ => s

end LiveProjections

/-! ## Runs -/

/-- What happens next, as whoever runs decides. -/
inductive ProjectionAction (Data : Type) where
  | append (data : Data)
  | register (key : ProjectionKey) (unit : ProjectionDefinition Data)
  | unregister (key : ProjectionKey)
  | subscribe
  | unsubscribe
  | snapshot
  | checkpoint
  | proceed
  | listenerThrows

namespace LiveProjections

def step (s : LiveProjections Data) : ProjectionAction Data → LiveProjections Data
  | .append data => s.append data
  | .register key unit => s.register key unit
  | .unregister key => s.unregister key
  | .subscribe => { s with listeners := s.listeners + 1 }
  | .unsubscribe => { s with listeners := s.listeners - 1 }
  | .snapshot => s.snapshot.1
  | .checkpoint => s.checkpoint.1
  | .proceed => s.proceed
  | .listenerThrows => s.listenerThrows

/-- A registry that has just been created, over a session of any age. -/
structure Initial (s : LiveProjections Data) : Prop where
  numbered : s.log.map (·.seq) = List.range s.log.length
  registrations : s.registrations = []
  publication : ∀ p ∈ s.publication, p.2 = .driven

/-- Once publication has unwound, the cells cover the whole log. -/
def CellsWhole (s : LiveProjections Data) : Prop :=
  s.publication = none → ∀ registration ∈ s.registrations, ∀ cell ∈ registration.cell,
    cell = ⟨registration.unit.fold s.log, (s.log.length : ℤ) - 1⟩

/-- What is read is, for every unit, the fold of the log through the seq that is reported. -/
def ReadFaithful (s : LiveProjections Data) : ProjectionAction Data → Prop
  | .snapshot => ∃ cut, s.snapshot.2 = some cut ∧ ∀ registration ∈ s.registrations,
      cut.values.get? registration.key = some (registration.unit.view
        (foldTo registration.unit.apply registration.unit.init s.log (cut.asOfSeq + 1).toNat))
  | .checkpoint => ∀ registration ∈ s.registrations, ∃ row,
      s.checkpoint.2.get? registration.key = some row ∧
        row.Covers registration.unit s.log
  | _ => True

/-- The property of a whole run. -/
def RunFaithful : LiveProjections Data → List (ProjectionAction Data) → Prop
  | s, [] => s.CellsWhole
  | s, action :: actions => s.CellsWhole ∧ s.ReadFaithful action ∧ RunFaithful (s.step action) actions

/-- `drive` has yet to visit the registration for the event that is being published. -/
def Awaits (s : LiveProjections Data) (registration : Registration Data) : Prop :=
  match s.publication with
  | some (_, .announced) => True
  | some (_, .driving next) => next ≤ registration.entry
  | some (_, .notifying next) => next ≤ registration.entry
  | _ => False

/-- The step disturbs no cell that awaits an event: no snapshot is taken while a unit awaits one, no
checkpoint while a unit without a cell does, and the change feed does not throw. -/
def Undisturbing (s : LiveProjections Data) : ProjectionAction Data → Prop
  | .snapshot => ∀ registration ∈ s.registrations, ¬ s.Awaits registration
  | .checkpoint => ∀ registration ∈ s.registrations, s.Awaits registration →
      registration.cell.isSome
  | .listenerThrows => ∀ p ∈ s.publication, ∀ next, p.2 ≠ .notifying next
  | _ => True

/-- Every step of the run is undisturbing. -/
def Undisturbed : LiveProjections Data → List (ProjectionAction Data) → Prop
  | _, [] => True
  | s, action :: actions => s.Undisturbing action ∧ Undisturbed (s.step action) actions

end LiveProjections

/-! ## The invariant -/

/-- A cell that covers these events. -/
theorem buildCell_concat (unit : ProjectionDefinition Data) (events : List (CommittedEvent Data))
    (event : CommittedEvent Data) :
    buildCell unit (events ++ [event])
      = ⟨unit.apply (buildCell unit events).state event, event.seq⟩ := by
  rw [buildCell, buildCell, ProjectionDefinition.fold, List.foldl_concat, endSeqOf,
    List.getLast?_concat]
  rfl

theorem buildCell_of_numbered (unit : ProjectionDefinition Data)
    {events : List (CommittedEvent Data)}
    (h : events.map (·.seq) = List.range events.length) :
    buildCell unit events = ⟨unit.fold events, (events.length : ℤ) - 1⟩ := by
  rcases List.eq_nil_or_concat' events with rfl | ⟨front, event, rfl⟩
  · rfl
  · have hseq := congrArg List.getLast? h
    rw [List.getLast?_map, List.getLast?_concat, List.length_append, List.length_singleton,
      List.getLast?_range, if_neg (Nat.succ_ne_zero _)] at hseq
    have hlast : event.seq = front.length := by simpa using hseq
    rw [buildCell, endSeqOf, List.getLast?_concat, List.length_append, List.length_singleton]
    simp [hlast]

namespace LiveProjections

/-- What holds in every state of an undisturbed run: a cell that awaits the event being published
covers everything before it, any other cell covers the log. -/
structure Inv (s : LiveProjections Data) : Prop where
  numbered : s.log.map (·.seq) = List.range s.log.length
  keys : (s.registrations.map (·.key)).Nodup
  entries : (s.registrations.map (·.entry)).Pairwise (· < ·)
  below : ∀ registration ∈ s.registrations, registration.entry < s.nextEntry
  event : ∀ p ∈ s.publication, p.2 ≠ .driven → ∃ front, s.log = front ++ [p.1]
  behind : ∀ registration ∈ s.registrations, ∀ cell ∈ registration.cell,
    s.Awaits registration → cell = buildCell registration.unit s.log.dropLast
  current : ∀ registration ∈ s.registrations, ∀ cell ∈ registration.cell,
    ¬ s.Awaits registration → cell = buildCell registration.unit s.log

variable {s : LiveProjections Data}

theorem Initial.inv (h : Initial s) : s.Inv where
  numbered := h.numbered
  keys := by simp [h.registrations]
  entries := by simp [h.registrations]
  below := by simp [h.registrations]
  event p hp hne := absurd (h.publication p hp) hne
  behind := by simp [h.registrations]
  current := by simp [h.registrations]

theorem Inv.cellsWhole (h : s.Inv) : s.CellsWhole := by
  intro hnone registration hmem cell hcell
  rw [h.current registration hmem cell hcell (by simp [Awaits, hnone]),
    buildCell_of_numbered _ h.numbered]

/-- The registrations are exchanged for some that carry the same cells, or none. -/
theorem Inv.exchange (h : s.Inv) {registrations : List (Registration Data)} {nextEntry : ℕ}
    (hkeys : (registrations.map (·.key)).Nodup)
    (hentries : (registrations.map (·.entry)).Pairwise (· < ·))
    (hbelow : ∀ registration ∈ registrations, registration.entry < nextEntry)
    (hcells : ∀ registration ∈ registrations, registration.cell = none ∨
      ∃ old ∈ s.registrations, old.entry = registration.entry ∧ old.unit = registration.unit ∧
        old.cell = registration.cell) :
    Inv { s with registrations := registrations, nextEntry := nextEntry } where
  numbered := h.numbered
  keys := hkeys
  entries := hentries
  below := hbelow
  event := h.event
  behind registration hmem cell hcell hawaits := by
    rcases hcells registration hmem with hnone | ⟨old, hold, hentry, hunit, hsame⟩
    · simp [hnone] at hcell
    · rw [← hunit]
      apply h.behind old hold cell (by rwa [hsame])
      unfold Awaits at hawaits ⊢
      rwa [hentry]
  current registration hmem cell hcell hawaits := by
    rcases hcells registration hmem with hnone | ⟨old, hold, hentry, hunit, hsame⟩
    · simp [hnone] at hcell
    · rw [← hunit]
      apply h.current old hold cell (by rwa [hsame])
      unfold Awaits at hawaits ⊢
      rwa [hentry]

/-! ## Registering -/

/-- Everything but the count of registrants is kept. -/
theorem retain_same (key : ProjectionKey) (registration : Registration Data) :
    (retain key registration).key = registration.key ∧
      (retain key registration).entry = registration.entry ∧
      (retain key registration).unit = registration.unit ∧
      (retain key registration).cell = registration.cell := by
  unfold retain
  split_ifs with hkey
  · exact ⟨rfl, rfl, rfl, rfl⟩
  · exact ⟨rfl, rfl, rfl, rfl⟩

theorem map_map_retain {β : Type*} (f : Registration Data → β) (key : ProjectionKey)
    (hf : ∀ registration, f (retain key registration) = f registration)
    (registrations : List (Registration Data)) :
    (registrations.map (retain key)).map f = registrations.map f := by
  rw [List.map_map]
  exact List.map_congr_left fun registration _ ↦ hf registration

theorem release_same {key : ProjectionKey} {registration released : Registration Data}
    (h : release key registration = some released) :
    registration.key = released.key ∧ registration.entry = released.entry ∧
      registration.unit = released.unit ∧ registration.cell = released.cell := by
  unfold release at h
  split_ifs at h with hkey hlast
  · rw [← Option.some.inj h]
    exact ⟨rfl, rfl, rfl, rfl⟩
  · rw [← Option.some.inj h]
    exact ⟨rfl, rfl, rfl, rfl⟩

/-- Releasing keeps the order of what is left. -/
theorem map_release_sublist {β : Type*} (f : Registration Data → β) (key : ProjectionKey)
    (hf : ∀ registration released, release key registration = some released →
      f registration = f released) (registrations : List (Registration Data)) :
    ((registrations.filterMap (release key)).map f).Sublist (registrations.map f) := by
  induction registrations with
  | nil => exact List.Sublist.refl _
  | cons registration rest ih =>
    rw [List.filterMap_cons, List.map_cons]
    rcases hrelease : release key registration with _ | released
    · exact ih.cons _
    · rw [List.map_cons, hf registration released hrelease]
      exact ih.cons_cons _

theorem Inv.register (h : s.Inv) (key : ProjectionKey) (unit : ProjectionDefinition Data) :
    (s.register key unit).Inv := by
  unfold LiveProjections.register
  split
  case h_1 hfind =>
    have hfresh : ∀ registration ∈ s.registrations, registration.key ≠ key := by
      intro registration hmem
      simpa using List.find?_eq_none.mp hfind registration hmem
    apply h.exchange
    · rw [List.map_append, List.map_singleton]
      refine List.nodup_append.mpr ⟨h.keys, List.nodup_singleton _, ?_⟩
      rintro other hother _ hsingle rfl
      obtain ⟨registration, hmem, rfl⟩ := List.mem_map.mp hother
      exact hfresh registration hmem (List.mem_singleton.mp hsingle)
    · rw [List.map_append, List.map_singleton]
      refine List.pairwise_append.mpr ⟨h.entries, List.pairwise_singleton _ _, ?_⟩
      intro entry hentry other hother
      obtain ⟨registration, hmem, rfl⟩ := List.mem_map.mp hentry
      rw [List.mem_singleton.mp hother]
      exact h.below registration hmem
    · intro registration hmem
      rcases List.mem_append.mp hmem with hold | hnew
      · exact Nat.lt_succ_of_lt (h.below registration hold)
      · rw [List.mem_singleton.mp hnew]
        exact Nat.lt_succ_self _
    · intro registration hmem
      rcases List.mem_append.mp hmem with hold | hnew
      · exact Or.inr ⟨registration, hold, rfl, rfl, rfl⟩
      · rw [List.mem_singleton.mp hnew]
        exact Or.inl rfl
  case h_2 existing hfind =>
    split_ifs with hversion
    · exact h
    · apply h.exchange
      · rw [map_map_retain _ key fun registration ↦ (retain_same key registration).1]
        exact h.keys
      · rw [map_map_retain _ key fun registration ↦ (retain_same key registration).2.1]
        exact h.entries
      · intro registration hmem
        obtain ⟨old, hold, rfl⟩ := List.mem_map.mp hmem
        rw [(retain_same key old).2.1]
        exact h.below old hold
      · intro registration hmem
        obtain ⟨old, hold, rfl⟩ := List.mem_map.mp hmem
        obtain ⟨-, hentry, hunit, hcell⟩ := retain_same key old
        exact Or.inr ⟨old, hold, hentry.symm, hunit.symm, hcell.symm⟩

theorem Inv.unregister (h : s.Inv) (key : ProjectionKey) : (s.unregister key).Inv := by
  apply h.exchange
  · exact h.keys.sublist (map_release_sublist _ key (fun _ _ hsame ↦ (release_same hsame).1) _)
  · exact h.entries.sublist
      (map_release_sublist _ key (fun _ _ hsame ↦ (release_same hsame).2.1) _)
  · intro released hmem
    obtain ⟨old, hold, hsame⟩ := List.mem_filterMap.mp hmem
    rw [← (release_same hsame).2.1]
    exact h.below old hold
  · intro released hmem
    obtain ⟨old, hold, hsame⟩ := List.mem_filterMap.mp hmem
    exact Or.inr ⟨old, hold, (release_same hsame).2⟩

/-! ## Publishing -/

theorem Inv.append (h : s.Inv) (data : Data) : (s.append data).Inv := by
  unfold LiveProjections.append
  split
  case h_1 => exact h
  case h_2 hnone =>
    refine ⟨?_, h.keys, h.entries, h.below, ?_, ?_, ?_⟩
    · rw [List.map_append, h.numbered, List.map_singleton, List.length_append,
        List.length_singleton, List.range_succ]
    · intro p hp _
      rw [← Option.some.inj hp]
      exact ⟨s.log, rfl⟩
    · intro registration hmem cell hcell _
      rw [List.dropLast_concat]
      exact h.current registration hmem cell hcell (by simp [Awaits, hnone])
    · intro registration hmem cell hcell hawaits
      exact absurd trivial hawaits

/-- The publication moves on, and no cell changes sides. -/
theorem Inv.moved (h : s.Inv) {event : CommittedEvent Data} {point : PublicationPoint}
    (hevent : point ≠ .driven → ∃ front, s.log = front ++ [event])
    (hawaits : ∀ registration ∈ s.registrations, s.Awaits registration ↔
      Awaits { s with publication := some (event, point) } registration) :
    Inv { s with publication := some (event, point) } where
  numbered := h.numbered
  keys := h.keys
  entries := h.entries
  below := h.below
  event p hp hne := by
    obtain rfl := Option.some.inj hp
    exact hevent hne
  behind registration hmem cell hcell hmoved :=
    h.behind registration hmem cell hcell ((hawaits registration hmem).mpr hmoved)
  current registration hmem cell hcell hmoved :=
    h.current registration hmem cell hcell (mt (hawaits registration hmem).mp hmoved)

/-! ## Driving -/

/-- The registration that is visited next awaits the event, and none before it does. -/
theorem Inv.nextVisit (h : s.Inv) {next : ℕ} {registration : Registration Data}
    (hvisit : s.nextVisit next = some registration) :
    registration ∈ s.registrations ∧ next ≤ registration.entry ∧
      ∀ other ∈ s.registrations, next ≤ other.entry → registration.entry ≤ other.entry := by
  obtain ⟨hnext, front, back, hsplit, hfront⟩ := List.find?_eq_some_iff_append.mp hvisit
  have hentries := h.entries
  rw [hsplit, List.map_append, List.map_cons, List.pairwise_append, List.pairwise_cons] at hentries
  refine ⟨by simp [hsplit], of_decide_eq_true hnext, fun other hother hle ↦ ?_⟩
  rw [hsplit] at hother
  rcases List.mem_append.mp hother with hmem | hmem
  · have hnot := hfront other hmem
    simp [hle] at hnot
  · rcases List.mem_cons.mp hmem with rfl | hmem
    · exact Nat.le_refl _
    · exact (hentries.2.1.1 other.entry (List.mem_map_of_mem hmem)).le

theorem Inv.eq_of_entry (h : s.Inv) {registration other : Registration Data}
    (hmem : registration ∈ s.registrations) (hother : other ∈ s.registrations)
    (hentry : other.entry = registration.entry) : other = registration :=
  List.inj_on_of_nodup_map (h.entries.imp Nat.ne_of_lt) hother hmem hentry

/-- What `drive` makes of a registration that awaits the event: a cell that covers the log. -/
theorem Inv.driveUnit (h : s.Inv) {event : CommittedEvent Data} {front : List (CommittedEvent Data)}
    (hlog : s.log = front ++ [event]) {registration : Registration Data}
    (hmem : registration ∈ s.registrations) (hawaits : s.Awaits registration) :
    (driveUnit s.log event registration).1 = buildCell registration.unit s.log := by
  have hseq : event.seq = front.length := by
    have hlast := congrArg List.getLast? h.numbered
    rw [hlog, List.getLast?_map, List.getLast?_concat, List.length_append, List.length_singleton,
      List.getLast?_range, if_neg (Nat.succ_ne_zero _)] at hlast
    simpa using hlast
  have hfront : s.log.take event.seq = front := by rw [hlog, hseq, List.take_left]
  have hcell : registration.cellFor (s.log.take event.seq) = buildCell registration.unit front := by
    rw [Registration.cellFor, hfront]
    rcases hcell : registration.cell with _ | cell
    · rfl
    · have hbehind := h.behind registration hmem cell hcell hawaits
      rwa [hlog, List.dropLast_concat] at hbehind
  rw [LiveProjections.driveUnit, hcell, hlog, buildCell_concat]

/-- A round of `drive`: the visited registration has caught up with the log. -/
theorem Inv.visited (h : s.Inv) {event : CommittedEvent Data} {next : ℕ}
    (hawaits : ∀ registration ∈ s.registrations,
      s.Awaits registration ↔ next ≤ registration.entry)
    (hlog : ∃ front, s.log = front ++ [event]) {registration : Registration Data}
    (hvisit : s.nextVisit next = some registration) {point : PublicationPoint}
    (hpoint : point = .driving (registration.entry + 1) ∨
      point = .notifying (registration.entry + 1)) :
    Inv { s.setCell registration.entry (LiveProjections.driveUnit s.log event registration).1 with
      publication := some (event, point) } := by
  obtain ⟨hmem, hnext, hfirst⟩ := h.nextVisit hvisit
  obtain ⟨front, hfront⟩ := hlog
  have hcell := h.driveUnit hfront hmem ((hawaits registration hmem).mpr hnext)
  have hpoint' : ∀ other : Registration Data,
      Awaits { s.setCell registration.entry (LiveProjections.driveUnit s.log event registration).1 with
        publication := some (event, point) } other ↔ registration.entry + 1 ≤ other.entry := by
    intro other
    rcases hpoint with rfl | rfl
    · exact Iff.rfl
    · exact Iff.rfl
  have hsource : ∀ other ∈ (s.setCell registration.entry
      (LiveProjections.driveUnit s.log event registration).1).registrations, ∃ old ∈ s.registrations,
      old.key = other.key ∧ old.entry = other.entry ∧ old.unit = other.unit ∧
        (old = registration ∧ other.cell = some (LiveProjections.driveUnit s.log event registration).1 ∨
          old ≠ registration ∧ old.cell = other.cell) := by
    intro other hother
    obtain ⟨old, hold, rfl⟩ := List.mem_map.mp hother
    refine ⟨old, hold, ?_⟩
    by_cases hentry : old.entry = registration.entry
    · rw [if_pos hentry]
      exact ⟨rfl, rfl, rfl, Or.inl ⟨h.eq_of_entry hmem hold hentry, rfl⟩⟩
    · rw [if_neg hentry]
      exact ⟨rfl, rfl, rfl, Or.inr ⟨fun hsame ↦ hentry (congrArg _ hsame), rfl⟩⟩
  have hmap {β : Type} (f : Registration Data → β)
      (hf : ∀ (old : Registration Data) (cell : Option UnitCell), f { old with cell := cell } = f old) :
      (s.setCell registration.entry (LiveProjections.driveUnit s.log event registration).1).registrations.map f
        = s.registrations.map f := by
    rw [setCell, List.map_map]
    refine List.map_congr_left fun old _ ↦ ?_
    rw [Function.comp_apply]
    split_ifs
    · exact hf old _
    · rfl
  refine ⟨h.numbered, ?_, ?_, ?_, ?_, ?_, ?_⟩
  · exact (hmap (·.key) fun _ _ ↦ rfl).symm ▸ h.keys
  · exact (hmap (·.entry) fun _ _ ↦ rfl).symm ▸ h.entries
  · intro other hother
    obtain ⟨old, hold, -, hentry, -⟩ := hsource other hother
    rw [← hentry]
    exact h.below old hold
  · intro p hp _
    obtain rfl := Option.some.inj hp
    exact ⟨front, hfront⟩
  · intro other hother cell hothercell hbehind
    rw [hpoint'] at hbehind
    obtain ⟨old, hold, -, hentry, hunit, hcase⟩ := hsource other hother
    rcases hcase with ⟨rfl, -⟩ | ⟨-, hsame⟩
    · omega
    · rw [← hunit]
      exact h.behind old hold cell (by rwa [hsame]) ((hawaits old hold).mpr (by omega))
  · intro other hother cell hothercell hcurrent
    rw [hpoint'] at hcurrent
    obtain ⟨old, hold, -, hentry, hunit, hcase⟩ := hsource other hother
    rcases hcase with ⟨rfl, hnew⟩ | ⟨hne, hsame⟩
    · rw [← hunit]
      exact (Option.some.inj (hothercell.symm.trans hnew)).trans hcell
    · rw [← hunit]
      apply h.current old hold cell (by rwa [hsame])
      rw [hawaits old hold]
      intro hle
      have hfirst' := hfirst old hold hle
      have heq : old.entry = registration.entry := by omega
      exact hne (h.eq_of_entry hmem hold heq)

theorem Inv.drive (h : s.Inv) {event : CommittedEvent Data} {next : ℕ}
    (hpublication : s.publication = some (event, .driving next)) : (s.drive event next).Inv := by
  have hawaits : ∀ registration ∈ s.registrations,
      s.Awaits registration ↔ next ≤ registration.entry := by
    intro registration _
    simp [Awaits, hpublication]
  have hlog : ∃ front, s.log = front ++ [event] :=
    h.event _ hpublication (by simp)
  unfold LiveProjections.drive
  split
  case h_1 hvisit =>
    apply h.moved
    · exact fun hne ↦ absurd rfl hne
    · intro registration hmem
      rw [hawaits registration hmem]
      have hnot := List.find?_eq_none.mp hvisit registration hmem
      simpa [Awaits] using hnot
  case h_2 registration hvisit =>
    obtain ⟨hmem, hnext, -⟩ := h.nextVisit hvisit
    obtain ⟨front, hfront⟩ := hlog
    have hcell := h.driveUnit hfront hmem ((hawaits registration hmem).mpr hnext)
    have hparse : registration.unit.parse
        (registration.unit.view (LiveProjections.driveUnit s.log event registration).1.state)
          = some (registration.unit.view (registration.unit.fold s.log)) := by
      rw [hcell]
      exact registration.unit.parse_view s.log
    simp only [hparse]
    split_ifs
    · exact h.visited hawaits ⟨front, hfront⟩ hvisit (Or.inr rfl)
    · exact h.visited hawaits ⟨front, hfront⟩ hvisit (Or.inl rfl)

theorem Inv.proceed (h : s.Inv) : s.proceed.Inv := by
  unfold LiveProjections.proceed
  split
  case h_1 => exact h
  case h_2 event hpublication =>
    apply h.moved
    · exact fun _ ↦ h.event _ hpublication (by simp)
    · simp [Awaits, hpublication]
  case h_3 event next hpublication => exact h.drive hpublication
  case h_4 event next hpublication =>
    apply h.moved
    · exact fun _ ↦ h.event _ hpublication (by simp)
    · simp [Awaits, hpublication]
  case h_5 event hpublication =>
    refine ⟨h.numbered, h.keys, h.entries, h.below, by simp, ?_, ?_⟩
    · intro registration _ cell _ hawaits
      exact absurd hawaits (by simp [Awaits])
    · intro registration hmem cell hcell _
      exact h.current registration hmem cell hcell (by simp [Awaits, hpublication])

/-! ## Reading -/

/-- A registration that has been read carries the cell that was read. -/
theorem Inv.touched (h : s.Inv)
    (hcells : ∀ registration ∈ s.registrations, registration.cell = none →
      ¬ s.Awaits registration) :
    Inv { s with registrations := s.registrations.map (·.touched s.log) } := by
  have hsource : ∀ registration ∈ s.registrations.map (·.touched s.log),
      ∃ old ∈ s.registrations, old.entry = registration.entry ∧ old.unit = registration.unit ∧
        registration.cell = some (old.cellFor s.log) := by
    intro registration hmem
    obtain ⟨old, hold, rfl⟩ := List.mem_map.mp hmem
    exact ⟨old, hold, rfl, rfl, rfl⟩
  have hawaits (old registration : Registration Data) (hentry : old.entry = registration.entry) :
      Awaits { s with registrations := s.registrations.map (·.touched s.log) } registration
        ↔ s.Awaits old := by
    unfold Awaits
    rw [hentry]
  refine ⟨h.numbered, ?_, ?_, ?_, h.event, ?_, ?_⟩
  · rw [List.map_map]
    exact h.keys
  · rw [List.map_map]
    exact h.entries
  · intro registration hmem
    obtain ⟨old, hold, hentry, -, -⟩ := hsource registration hmem
    rw [← hentry]
    exact h.below old hold
  · intro registration hmem cell hcell hbehind
    obtain ⟨old, hold, hentry, hunit, hnew⟩ := hsource registration hmem
    rw [hawaits old registration hentry] at hbehind
    rw [hnew, Option.mem_some_iff, Registration.cellFor] at hcell
    rcases hold' : old.cell with _ | kept
    · exact absurd hbehind (hcells old hold hold')
    · rw [hold', Option.getD_some] at hcell
      rw [← hcell, ← hunit]
      exact h.behind old hold kept hold' hbehind
  · intro registration hmem cell hcell hcurrent
    obtain ⟨old, hold, hentry, hunit, hnew⟩ := hsource registration hmem
    rw [hawaits old registration hentry] at hcurrent
    rw [hnew, Option.mem_some_iff, Registration.cellFor] at hcell
    rw [← hcell, ← hunit]
    rcases hold' : old.cell with _ | kept
    · rfl
    · exact h.current old hold kept hold' hcurrent

/-- A snapshot of cells that cover the log: no value is refused. -/
theorem snapshotLoop_eq {log : List (CommittedEvent Data)}
    {registrations : List (Registration Data)}
    (hcells : ∀ registration ∈ registrations,
      registration.cellFor log = buildCell registration.unit log)
    (hkeys : (registrations.map (·.key)).Nodup) (values : OrderedMap ProjectionKey Json)
    (hfresh : ∀ registration ∈ registrations, values.get? registration.key = none) :
    ∃ values', snapshotLoop log registrations values
        = (registrations.map (·.touched log), some values') ∧
      values'.entries = values.entries ++ registrations.map fun registration ↦
        (registration.key, registration.unit.view (registration.unit.fold log)) := by
  induction registrations generalizing values with
  | nil => exact ⟨values, rfl, by simp⟩
  | cons registration rest ih =>
    rw [List.map_cons, List.nodup_cons] at hkeys
    have hparse : registration.unit.parse
        (registration.unit.view (registration.cellFor log).state)
          = some (registration.unit.view (registration.unit.fold log)) := by
      rw [hcells registration List.mem_cons_self]
      exact registration.unit.parse_view log
    have hrest : ∀ other ∈ rest, (values.set registration.key
        (registration.unit.view (registration.unit.fold log))).get? other.key = none := by
      intro other hother
      rw [OrderedMap.get?_set, if_neg]
      · exact hfresh other (List.mem_cons_of_mem _ hother)
      · intro hsame
        exact hkeys.1 (List.mem_map.mpr ⟨other, hother, hsame⟩)
    obtain ⟨values', hloop, hentries⟩ := ih
      (fun other hother ↦ hcells other (List.mem_cons_of_mem _ hother)) hkeys.2 _ hrest
    refine ⟨values', ?_, ?_⟩
    · rw [snapshotLoop, hparse]
      simp only [hloop]
      rfl
    · rw [hentries, OrderedMap.entries_set_of_get?_eq_none (hfresh _ List.mem_cons_self)]
      simp

/-- The rows of a checkpoint, one for each registration. -/
theorem checkpointRows_eq {log : List (CommittedEvent Data)}
    {registrations : List (Registration Data)} (hkeys : (registrations.map (·.key)).Nodup)
    {rows : ProjectionCheckpoint}
    (hfresh : ∀ registration ∈ registrations, rows.get? registration.key = none) :
    (registrations.foldl (fun rows registration ↦
      let cell := registration.cellFor log
      rows.set registration.key ⟨registration.unit.stateVersion, cell.observedSeq, cell.state⟩)
      rows).entries = rows.entries ++ registrations.map fun registration ↦
        (registration.key, ⟨registration.unit.stateVersion,
          (registration.cellFor log).observedSeq, (registration.cellFor log).state⟩) := by
  induction registrations generalizing rows with
  | nil => simp
  | cons registration rest ih =>
    rw [List.map_cons, List.nodup_cons] at hkeys
    rw [List.foldl_cons, ih hkeys.2]
    · rw [OrderedMap.entries_set_of_get?_eq_none (hfresh _ List.mem_cons_self)]
      simp
    · intro other hother
      rw [OrderedMap.get?_set, if_neg]
      · exact hfresh other (List.mem_cons_of_mem _ hother)
      · intro hsame
        exact hkeys.1 (List.mem_map.mpr ⟨other, hother, hsame⟩)

/-- A cell that is read while its unit awaits no event covers the log. -/
theorem Inv.cellFor (h : s.Inv) {registration : Registration Data}
    (hmem : registration ∈ s.registrations) (hawaits : ¬ s.Awaits registration) :
    registration.cellFor s.log = buildCell registration.unit s.log := by
  rw [Registration.cellFor]
  rcases hcell : registration.cell with _ | cell
  · rfl
  · exact h.current registration hmem cell hcell hawaits

theorem Inv.snapshot (h : s.Inv)
    (hquiet : ∀ registration ∈ s.registrations, ¬ s.Awaits registration) :
    s.snapshot.1.Inv ∧ s.ReadFaithful .snapshot := by
  obtain ⟨values, hloop, hentries⟩ := snapshotLoop_eq
    (fun registration hmem ↦ h.cellFor hmem (hquiet registration hmem)) h.keys .empty
    (fun _ _ ↦ rfl)
  constructor
  · rw [LiveProjections.snapshot, hloop]
    exact h.touched fun registration hmem _ ↦ hquiet registration hmem
  · refine ⟨⟨(s.log.length : ℤ) - 1, values⟩, by rw [LiveProjections.snapshot, hloop]; rfl, ?_⟩
    intro registration hmem
    rw [OrderedMap.get?_eq_some_iff, hentries]
    apply List.mem_append_right
    refine List.mem_map.mpr ⟨registration, hmem, ?_⟩
    rw [foldTo_of_length_le _ _ (by simp)]
    rfl

/-- A row is taken from a cell that covers the log, or all of it but the last event. -/
theorem covers_buildCell (unit : ProjectionDefinition Data) {log front : List (CommittedEvent Data)}
    (hnumbered : log.map (·.seq) = List.range log.length) (hfront : front <+: log) :
    (ProjectionCheckpointRow.mk unit.stateVersion (buildCell unit front).observedSeq
      (buildCell unit front).state).Covers unit log := by
  obtain ⟨back, rfl⟩ := hfront
  have hfront : front.map (·.seq) = List.range front.length := by
    have htake := congrArg (List.take front.length) hnumbered
    rw [List.map_append, List.take_left' (by simp), List.take_range] at htake
    rw [htake, List.length_append]
    congr 1
    omega
  rw [buildCell_of_numbered unit hfront]
  refine ⟨rfl, ?_, ?_, ?_⟩
  · simp only
    omega
  · rw [List.length_append]
    simp only
    omega
  · simp only [Int.sub_add_cancel, Int.toNat_natCast]
    rw [foldTo_append_of_le _ _ (Nat.le_refl _), foldTo_of_length_le _ _ (Nat.le_refl _)]
    rfl

theorem Inv.checkpoint (h : s.Inv)
    (hcells : ∀ registration ∈ s.registrations, s.Awaits registration →
      registration.cell.isSome) :
    s.checkpoint.1.Inv ∧ s.ReadFaithful .checkpoint := by
  constructor
  · apply h.touched
    intro registration hmem hnone hawaits
    have hsome := hcells registration hmem hawaits
    rw [hnone] at hsome
    simp at hsome
  · intro registration hmem
    refine ⟨⟨registration.unit.stateVersion, (registration.cellFor s.log).observedSeq,
      (registration.cellFor s.log).state⟩, ?_, ?_⟩
    · rw [OrderedMap.get?_eq_some_iff, LiveProjections.checkpoint,
        checkpointRows_eq h.keys fun _ _ ↦ rfl]
      apply List.mem_append_right
      exact List.mem_map.mpr ⟨registration, hmem, rfl⟩
    · by_cases hawaits : s.Awaits registration
      · obtain ⟨cell, hcell⟩ := Option.isSome_iff_exists.mp (hcells registration hmem hawaits)
        have hbehind := h.behind registration hmem cell hcell hawaits
        rw [Registration.cellFor, hcell, Option.getD_some, hbehind]
        exact covers_buildCell _ h.numbered (List.dropLast_prefix _)
      · rw [h.cellFor hmem hawaits]
        exact covers_buildCell _ h.numbered (List.prefix_refl _)

/-! ## Runs that disturb nothing -/

/-- A step that disturbs nothing keeps the invariant, and reads what is there. -/
theorem Inv.step (h : s.Inv) {action : ProjectionAction Data} (hok : s.Undisturbing action) :
    (s.step action).Inv ∧ s.ReadFaithful action := by
  rcases action with data | ⟨key, unit⟩ | key | _ | _ | _ | _ | _ | _
  · exact ⟨h.append data, trivial⟩
  · exact ⟨h.register key unit, trivial⟩
  · exact ⟨h.unregister key, trivial⟩
  · exact ⟨⟨h.numbered, h.keys, h.entries, h.below, h.event, h.behind, h.current⟩, trivial⟩
  · exact ⟨⟨h.numbered, h.keys, h.entries, h.below, h.event, h.behind, h.current⟩, trivial⟩
  · exact h.snapshot hok
  · exact h.checkpoint hok
  · exact ⟨h.proceed, trivial⟩
  · refine ⟨?_, trivial⟩
    rw [LiveProjections.step, LiveProjections.listenerThrows]
    split
    case h_1 event next hpublication => exact absurd rfl (hok _ hpublication next)
    case h_2 => exact h

theorem Inv.run (h : s.Inv) {actions : List (ProjectionAction Data)}
    (hok : s.Undisturbed actions) : s.RunFaithful actions := by
  induction actions generalizing s with
  | nil => exact h.cellsWhole
  | cons action actions ih =>
    obtain ⟨hfirst, hrest⟩ := hok
    obtain ⟨hinv, hread⟩ := h.step hfirst
    exact ⟨h.cellsWhole, hread, ih hinv hrest⟩

/-- A session without events, and a registry without units. -/
def fresh : LiveProjections Unit := ⟨[], [], 0, 0, none⟩

theorem RunFaithful.last {actions : List (ProjectionAction Data)} (h : s.RunFaithful actions) :
    (actions.foldl LiveProjections.step s).CellsWhole := by
  induction actions generalizing s with
  | nil => exact h
  | cons action actions ih => exact ih h.2.2

end LiveProjections

end XxAgent
