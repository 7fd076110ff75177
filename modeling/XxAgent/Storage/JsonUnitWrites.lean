import XxAgent.Storage.JsonUnit

/-!
# Which writes are all or nothing

A rejected write leaves everything as it was exactly if it fails in front of the rename, or writes
what the medium has already. And what a later write publishes is the state of the successful writes
alone, whatever failed before it and wherever.
-/

namespace XxAgent.Storage

open Ecma Files

variable {descriptor : KvUnitDescriptor} {platform : Platform} {faults : Faults}
  {cell : UnitCell}

namespace UnitWrite

/-! ## What a write makes of a state -/

variable {write : UnitWrite} {s t : UnitState}

theorem look_applied (write : UnitWrite) (s : UnitState) : (write.applied s).look =
    match write with
    | putRecord table key value =>
      Function.update s.look table ((s.look table).map (Function.update · key (some value.1)))
    | deleteRecord table key =>
      Function.update s.look table ((s.look table).map (Function.update · key none))
    | setGlobal _ => s.look := by
  have hset (records : Records) (key : JsString) (value : Json) :
      (records.set key value).get? = Function.update records.get? key (some value) := by
    funext other
    rw [OrderedMap.get?_set, Function.update_apply]
  have hdelete (records : Records) (key : JsString) :
      (records.delete key).get? = Function.update records.get? key none := by
    funext other
    rw [OrderedMap.get?_delete, Function.update_apply]
  have hlook (table : JsString) : s.look table = (s.tables.get? table).map (·.get?) := rfl
  cases write with
  | setGlobal value => rfl
  | putRecord table key value =>
    dsimp only
    rw [applied, hlook]
    cases hentries : s.tables.get? table with
    | none =>
      dsimp only [Option.map_none]
      rw [Function.update_eq_self_iff.mpr (by rw [hlook, hentries]; rfl)]
    | some entries =>
      dsimp only [Option.map_some]
      rw [UnitState.look_setTable, hset]
  | deleteRecord table key =>
    dsimp only
    rw [applied, hlook]
    cases hentries : s.tables.get? table with
    | none =>
      dsimp only [Option.map_none]
      rw [Function.update_eq_self_iff.mpr (by rw [hlook, hentries]; rfl)]
    | some entries =>
      dsimp only [Option.map_some]
      rw [UnitState.look_setTable, hdelete]

theorem version_applied (write : UnitWrite) (s : UnitState) :
    (write.applied s).version = s.version := by
  cases write with
  | setGlobal value => rfl
  | putRecord table key value =>
    rw [applied]
    split <;> rfl
  | deleteRecord table key =>
    rw [applied]
    split <;> rfl

theorem global_applied (write : UnitWrite) (s : UnitState) : (write.applied s).global =
    match write with
    | setGlobal value => value.1
    | _ => s.global := by
  cases write with
  | setGlobal value => rfl
  | putRecord table key value =>
    rw [applied]
    split <;> rfl
  | deleteRecord table key =>
    rw [applied]
    split <;> rfl

theorem same_applied (write : UnitWrite) (h : s.Same t) :
    (write.applied s).Same (write.applied t) where
  version := by rw [version_applied, version_applied, h.version]
  global := by rw [global_applied, global_applied, h.global]
  look := by rw [look_applied, look_applied, h.look]

theorem same_restored (write : UnitWrite) (s : UnitState) : (write.restored s).Same s := by
  cases write with
  | putRecord table key value => rfl
  | setGlobal value => rfl
  | deleteRecord table key =>
    rw [restored]
    split
    case h_2 => rfl
    case h_1 entries previous hrecord =>
      obtain ⟨records, hentries, hprevious⟩ := Option.bind_eq_some_iff.mp hrecord
      obtain ⟨value, hvalue, hpair⟩ := Option.map_eq_some_iff.mp hprevious
      obtain ⟨rfl, rfl⟩ := Prod.mk.inj hpair
      refine ⟨rfl, rfl, ?_⟩
      rw [UnitState.look_setTable]
      refine Function.update_eq_self_iff.mpr ?_
      rw [UnitState.look, hentries, Option.map_some]
      refine congrArg some (funext fun other ↦ ?_)
      rw [OrderedMap.get?_set, OrderedMap.get?_delete]
      split_ifs with hother
      · rw [hother, hvalue]
      · rfl

/-- The rollback puts a record back where it was: a deleted one was the last of its table. -/
def KeepsPlace (s : UnitState) : UnitWrite → Prop
  | deleteRecord table key =>
    ((s.tables.get? table).bind (·.entries.getLast?)).map Prod.fst = some key
  | _ => True

theorem restored_eq_iff (h : write.Publishing descriptor cell) :
    write.restored cell.state = cell.state ↔ write.KeepsPlace cell.state := by
  cases write with
  | putRecord table key value => exact iff_of_true rfl trivial
  | setGlobal value => exact iff_of_true rfl trivial
  | deleteRecord table key =>
    obtain ⟨-, hrecord⟩ := h
    obtain ⟨previous, hprevious⟩ := Option.isSome_iff_exists.mp hrecord
    obtain ⟨entries, hentries, hvalue⟩ := Option.bind_eq_some_iff.mp hprevious
    have hrestored : restored cell.state (deleteRecord table key)
        = cell.state.setTable table ((entries.delete key).set key previous) := by
      rw [restored, hentries, Option.bind_some, hvalue]
      rfl
    have hset : cell.state.setTable table ((entries.delete key).set key previous) = cell.state ↔
        (entries.delete key).set key previous = entries := by
      constructor
      · intro h
        have hget := congrArg (fun s ↦ s.tables.get? table) h
        dsimp only [UnitState.setTable] at hget
        rw [OrderedMap.get?_set, if_pos rfl, hentries] at hget
        exact Option.some.inj hget
      · intro h
        rw [h, UnitState.setTable_of_get? hentries]
    rw [hrestored, hset, OrderedMap.set_delete_eq_iff, KeepsPlace, hentries, Option.bind_some]
    constructor
    · intro hlast
      rw [hlast]
      rfl
    · intro hlast
      obtain ⟨⟨other, value⟩, hpair, rfl⟩ := Option.map_eq_some_iff.mp hlast
      have hsame := OrderedMap.get?_eq_some_iff.mpr (List.mem_of_getLast? hpair)
      rw [hpair, Option.some.inj (hvalue.symm.trans hsame)]

theorem sound_setTable (h : s.Sound descriptor) {table : JsString} {entries records : Records}
    (hentries : s.tables.get? table = some entries) (hwf : ∀ p ∈ records.entries, p.2.WF) :
    (s.setTable table records).Sound descriptor where
  version := h.version
  tables other := by
    rw [UnitState.setTable, OrderedMap.get?_set]
    split_ifs with hother
    · rw [hother, ← h.tables table, hentries]
      exact iff_of_true rfl rfl
    · exact h.tables other
  global := h.global
  records other found hmem := by
    rcases OrderedMap.mem_set.mp hmem with ⟨-, rfl⟩ | ⟨-, hmem⟩
    · exact hwf
    · exact h.records other found hmem

theorem sound_applied (write : UnitWrite) (h : s.Sound descriptor) :
    (write.applied s).Sound descriptor := by
  cases write with
  | putRecord table key value =>
    rw [applied]
    split
    case h_2 => exact h
    case h_1 entries hentries =>
      refine sound_setTable h hentries fun p hp ↦ ?_
      have hold := h.records table entries (OrderedMap.get?_eq_some_iff.mp hentries)
      rcases OrderedMap.mem_set.mp (show (p.1, p.2) ∈ _ from hp) with ⟨-, hvalue⟩ | ⟨-, hmem⟩
      · exact hvalue ▸ value.2
      · exact hold p hmem
  | deleteRecord table key =>
    rw [applied]
    split
    case h_2 => exact h
    case h_1 entries hentries =>
      refine sound_setTable h hentries fun p hp ↦ ?_
      have hold := h.records table entries (OrderedMap.get?_eq_some_iff.mp hentries)
      exact hold p (OrderedMap.mem_delete.mp (show (p.1, p.2) ∈ _ from hp)).2
  | setGlobal value => exact ⟨h.version, h.tables, value.2, h.records⟩

/-- A write that succeeds without a publish deletes a record that is not there. -/
theorem same_of_ok_of_not_publishing (h : ¬ write.Publishing descriptor cell)
    (hok : (write.call descriptor platform faults cell).1 = .ok ()) :
    (write.applied cell.state).Same cell.state := by
  cases hclosed : cell.closed with
  | true =>
    rw [call_of_closed hclosed] at hok
    cases hok
  | false =>
    have hopen : assertOpen faults cell = (.ok (), cell) := assertOpen_ok hclosed
    cases write with
    | putRecord table key value =>
      cases hentries : cell.state.tables.get? table with
      | some entries => exact absurd ⟨hclosed, by rw [hentries]; rfl⟩ h
      | none =>
        rw [call, Storage.putRecord, Faulty.run_bind_ok hopen,
          Faulty.run_bind_error (records_of_none hentries)] at hok
        cases hok
    | deleteRecord table key =>
      refine ⟨version_applied _ _, global_applied _ _, ?_⟩
      rw [look_applied]
      refine Function.update_eq_self_iff.mpr ?_
      rw [UnitState.look]
      cases hentries : cell.state.tables.get? table with
      | none => rfl
      | some entries =>
        refine congrArg some (Function.update_eq_self_iff.mpr ?_)
        cases hprevious : entries.get? key with
        | none => exact hprevious.symm
        | some previous =>
          refine absurd ⟨hclosed, ?_⟩ h
          rw [hentries, Option.bind_some, hprevious]
          rfl
    | setGlobal value =>
      have hglobal : ¬ descriptor.hasGlobal = true := fun hglobal ↦ h ⟨hclosed, hglobal⟩
      rw [call, Storage.setGlobal, Faulty.run_bind_ok hopen, if_neg hglobal] at hok
      cases hok

end UnitWrite

/-! ## All or nothing -/

/-- The same outcome, for what is the same value. -/
inductive SameResult {ε α : Type} (same : α → α → Prop) : Except ε α → Except ε α → Prop
  | ok {a b : α} : same a b → SameResult same (.ok a) (.ok b)
  | error (e : ε) : SameResult same (.error e) (.error e)

/-- What an object of tables holds, if it has the table. -/
def lookLoaded (tables : Fields) (table : JsString) : Option (JsString → Option Json) :=
  (fieldOf table tables).map fun records key ↦
    match records with
    | .obj fs => fieldOf key fs
    | _ => none

/-- The same snapshot, whatever the order of its properties. -/
def SameLoaded (a b : Fields × Json) : Prop := lookLoaded a.1 = lookLoaded b.1 ∧ a.2 = b.2

/-- Memory, snapshot and medium are as before. -/
structure AsBefore (descriptor : KvUnitDescriptor) (before after : UnitCell) : Prop where
  state : after.state.Same before.state
  loaded : ∀ faults, SameResult SameLoaded (loadAll faults after).1 (loadAll faults before).1
  reopened : SameResult UnitState.Same (openJsonUnit descriptor after.disk.file)
    (openJsonUnit descriptor before.disk.file)

theorem SameResult.refl {ε α : Type} {same : α → α → Prop} (h : ∀ a, same a a) (r : Except ε α) :
    SameResult same r r := by
  cases r with
  | ok a => exact .ok (h a)
  | error e => exact .error e

theorem lookLoaded_tablesObject (s : UnitState) : lookLoaded (tablesObject s) = s.look := by
  funext table
  rw [lookLoaded, fieldOf_tablesObject, UnitState.look]
  cases s.tables.get? table with
  | none => rfl
  | some records => exact congrArg some (funext fun key ↦ fieldOf_fromEntries records key)

/-- The snapshot is read off the memory. -/
theorem sameResult_loadAll {before after : UnitCell} (hstate : after.state.Same before.state)
    (hclosed : after.closed = before.closed) (faults : Faults) :
    SameResult SameLoaded (loadAll faults after).1 (loadAll faults before).1 := by
  have hloaded (cell : UnitCell) : (loadAll faults cell).1 =
      if cell.closed then .error .closed else .ok (tablesObject cell.state, cell.state.global) := by
    cases hcell : cell.closed with
    | true =>
      have hopen : assertOpen faults cell = (.error .closed, cell) := by
        rw [assertOpen, Faulty.run_get_bind, if_pos hcell]
        rfl
      rw [loadAll, Faulty.run_bind_error hopen]
      rfl
    | false =>
      rw [loadAll, Faulty.run_bind_ok (UnitWrite.assertOpen_ok hcell)]
      rfl
  rw [hloaded, hloaded, hclosed]
  split_ifs
  · exact .error _
  · refine .ok ⟨?_, hstate.global⟩
    rw [lookLoaded_tablesObject, lookLoaded_tablesObject, hstate.look]

variable {write : UnitWrite}

/-- A publish that fails once the file is replaced. -/
def FailsLate (descriptor : KvUnitDescriptor) (platform : Platform) (faults : Faults)
    (cell : UnitCell) (write : UnitWrite) : Prop :=
  write.Publishing descriptor cell ∧ ¬ faults.FailsFirst ∧ faults.FailsLast platform

/-- A write that is rejected leaves everything as it was. -/
def AllOrNothing (descriptor : KvUnitDescriptor) (platform : Platform) (faults : Faults)
    (cell : UnitCell) (write : UnitWrite) : Prop :=
  (write.call descriptor platform faults cell).1 ≠ .ok () →
    AsBefore descriptor cell (write.call descriptor platform faults cell).2

/-- What a reopening finds where the file has been replaced. -/
theorem reopened_of_replaced {after : UnitCell} (hsound : cell.state.Sound descriptor)
    (hfile : after.disk.file
      = some (serialize descriptor.name (write.applied cell.state))) :
    ∃ t, openJsonUnit descriptor after.disk.file = .ok t ∧ t.Same (write.applied cell.state) := by
  have hwritten := UnitWrite.sound_applied write hsound
  exact ⟨_, hfile ▸ openJsonUnit_serialize hwritten, same_reread hwritten⟩

theorem allOrNothing_write_iff (hsound : cell.state.Sound descriptor) :
    AllOrNothing descriptor platform faults cell write ↔
      ¬ FailsLate descriptor platform faults cell write ∨
        SameResult UnitState.Same (openJsonUnit descriptor cell.disk.file)
          (.ok (write.applied cell.state)) := by
  by_cases hpublishing : write.Publishing descriptor cell
  · have hsettles := UnitWrite.call_settles platform faults hpublishing
    constructor
    · intro hall
      by_cases hlate : FailsLate descriptor platform faults cell write
      · refine .inr ?_
        obtain ⟨-, hfirst, hlast⟩ := hlate
        have hbefore := hall fun hok ↦ (hsettles.ok_iff.mp hok).2 hlast
        obtain ⟨t, ht, hsame⟩ := reopened_of_replaced hsound (hsettles.replaced hfirst)
        have hreopened := hbefore.reopened
        rw [ht] at hreopened
        generalize openJsonUnit descriptor cell.disk.file = found at hreopened ⊢
        cases hreopened with
        | ok hold => exact .ok (hold.symm.trans hsame)
      · exact .inl hlate
    · intro hok hrejected
      have hstate : (write.call descriptor platform faults cell).2.state.Same cell.state :=
        hsettles.state_error hrejected ▸ UnitWrite.same_restored write cell.state
      refine ⟨hstate, sameResult_loadAll hstate hsettles.closed, ?_⟩
      by_cases hfirst : faults.FailsFirst
      · rw [hsettles.kept hfirst]
        exact .refl UnitState.Same.refl _
      · have hlast : faults.FailsLast platform := by
          by_contra hlast
          exact hrejected (hsettles.ok_iff.mpr ⟨hfirst, hlast⟩)
        rcases hok with hnot | hthere
        · exact absurd ⟨hpublishing, hfirst, hlast⟩ hnot
        · obtain ⟨t, ht, hsame⟩ := reopened_of_replaced hsound (hsettles.replaced hfirst)
          rw [ht]
          generalize openJsonUnit descriptor cell.disk.file = found at hthere ⊢
          cases hthere with
          | ok hold => exact .ok (hsame.trans hold.symm)
  · refine iff_of_true (fun _ ↦ ?_) (.inl fun hlate ↦ hpublishing hlate.1)
    rw [UnitWrite.call_of_not_publishing hpublishing]
    exact ⟨.refl _, fun faults ↦ sameResult_loadAll (.refl _) rfl faults,
      .refl UnitState.Same.refl _⟩

/-- The rollback also restores the order of the records, unless it reinserts a deleted one. -/
theorem state_eq_of_rejected_iff :
    ((write.call descriptor platform faults cell).1 ≠ .ok () →
      (write.call descriptor platform faults cell).2.state = cell.state) ↔
    ¬ (write.Publishing descriptor cell ∧ (faults.FailsFirst ∨ faults.FailsLast platform)) ∨
      write.KeepsPlace cell.state := by
  by_cases hpublishing : write.Publishing descriptor cell
  · have hsettles := UnitWrite.call_settles platform faults hpublishing
    have hrejected_iff : (write.call descriptor platform faults cell).1 ≠ .ok () ↔
        faults.FailsFirst ∨ faults.FailsLast platform := by
      rw [ne_eq, hsettles.ok_iff]
      tauto
    rw [hrejected_iff]
    by_cases hfails : faults.FailsFirst ∨ faults.FailsLast platform
    · have hstate := hsettles.state_error (hrejected_iff.mpr hfails)
      rw [hstate, UnitWrite.restored_eq_iff hpublishing]
      tauto
    · tauto
  · refine iff_of_true (fun _ ↦ ?_) (.inl fun h ↦ hpublishing h.1)
    rw [UnitWrite.call_of_not_publishing hpublishing]

/-! ## Runs -/

section runs

variable (descriptor : KvUnitDescriptor) (platform : Platform)

/-- One write after another, each under its own failures. -/
def runWrites (cell : UnitCell) (writes : List (UnitWrite × Faults)) : UnitCell :=
  writes.foldl (fun cell p ↦ (p.1.call descriptor platform p.2 cell).2) cell

/-- The writes that succeed. -/
def succeeded (cell : UnitCell) : List (UnitWrite × Faults) → List UnitWrite
  | [] => []
  | (write, faults) :: rest =>
    let run := write.call descriptor platform faults cell
    if run.1 = .ok () then write :: succeeded run.2 rest else succeeded run.2 rest

/-- The state of some writes alone. -/
def stateOf (s : UnitState) (writes : List UnitWrite) : UnitState :=
  writes.foldl (fun s write ↦ write.applied s) s

/-- No write of the run fails once it has replaced the file. -/
def NoneLate (cell : UnitCell) : List (UnitWrite × Faults) → Prop
  | [] => True
  | (write, faults) :: rest =>
    ¬ FailsLate descriptor platform faults cell write ∧
      NoneLate (write.call descriptor platform faults cell).2 rest

end runs

theorem same_stateOf {s t : UnitState} (h : s.Same t) (writes : List UnitWrite) :
    (stateOf s writes).Same (stateOf t writes) := by
  induction writes generalizing s t with
  | nil => exact h
  | cons write writes ih => exact ih (UnitWrite.same_applied write h)

/-- A write changes memory only where it succeeds. -/
theorem same_call (descriptor : KvUnitDescriptor) (platform : Platform) (write : UnitWrite)
    (faults : Faults) (cell : UnitCell) :
    (write.call descriptor platform faults cell).2.state.Same
      (if (write.call descriptor platform faults cell).1 = .ok () then write.applied cell.state
        else cell.state) := by
  by_cases hpublishing : write.Publishing descriptor cell
  · have hsettles := UnitWrite.call_settles platform faults hpublishing
    split_ifs with hok
    · rw [hsettles.state_ok hok]
    · rw [hsettles.state_error hok]
      exact UnitWrite.same_restored write cell.state
  · rw [UnitWrite.call_of_not_publishing hpublishing]
    split_ifs with hok
    · exact (UnitWrite.same_of_ok_of_not_publishing hpublishing hok).symm
    · rfl

theorem same_runWrites (descriptor : KvUnitDescriptor) (platform : Platform) (cell : UnitCell)
    (writes : List (UnitWrite × Faults)) :
    (runWrites descriptor platform cell writes).state.Same
      (stateOf cell.state (succeeded descriptor platform cell writes)) := by
  induction writes generalizing cell with
  | nil => rfl
  | cons first writes ih =>
    obtain ⟨write, faults⟩ := first
    have hcall := same_call descriptor platform write faults cell
    refine (ih _).trans ?_
    rw [succeeded]
    dsimp only
    split_ifs with hok
    · rw [if_pos hok] at hcall
      exact same_stateOf hcall _
    · rw [if_neg hok] at hcall
      exact same_stateOf hcall _

theorem sound_of_same {s t : UnitState} (hsound : s.Sound descriptor) (h : t.Same s) :
    t.Sound descriptor where
  version := h.version.trans hsound.version
  tables table := by
    have hlook := congrArg Option.isSome (congrFun h.look table)
    rw [UnitState.look, UnitState.look, Option.isSome_map, Option.isSome_map] at hlook
    rw [hlook]
    exact hsound.tables table
  global := h.global ▸ hsound.global
  records table records hmem p hp := by
    have hlook := congrFun h.look table
    rw [UnitState.look, UnitState.look, OrderedMap.get?_eq_some_iff.mpr hmem, Option.map_some]
      at hlook
    obtain ⟨entries, hentries, hsame⟩ := Option.map_eq_some_iff.mp hlook.symm
    have hvalue : entries.get? p.1 = some p.2 := by
      rw [hsame]
      exact OrderedMap.get?_eq_some_iff.mpr hp
    exact hsound.records table entries (OrderedMap.get?_eq_some_iff.mp hentries) (p.1, p.2)
      (OrderedMap.get?_eq_some_iff.mp hvalue)

theorem sound_call (write : UnitWrite) (faults : Faults) (hsound : cell.state.Sound descriptor) :
    (write.call descriptor platform faults cell).2.state.Sound descriptor := by
  refine sound_of_same ?_ (same_call descriptor platform write faults cell)
  split_ifs
  · exact UnitWrite.sound_applied write hsound
  · exact hsound

/-- The medium reads as the memory. -/
def InSync (descriptor : KvUnitDescriptor) (cell : UnitCell) : Prop :=
  SameResult UnitState.Same (openJsonUnit descriptor cell.disk.file) (.ok cell.state)

theorem InSync.of_same {after : UnitCell} (h : InSync descriptor cell)
    (hfile : after.disk.file = cell.disk.file) (hstate : after.state.Same cell.state) :
    InSync descriptor after := by
  rw [InSync, hfile]
  rw [InSync] at h
  generalize openJsonUnit descriptor cell.disk.file = found at h ⊢
  cases h with
  | ok hold => exact .ok (hold.trans hstate.symm)

theorem InSync.call (h : InSync descriptor cell) (hsound : cell.state.Sound descriptor)
    {faults : Faults} (hlate : ¬ FailsLate descriptor platform faults cell write) :
    InSync descriptor (write.call descriptor platform faults cell).2 := by
  by_cases hpublishing : write.Publishing descriptor cell
  · have hsettles := UnitWrite.call_settles platform faults hpublishing
    by_cases hfirst : faults.FailsFirst
    · have hrejected : (write.call descriptor platform faults cell).1 ≠ .ok () :=
        fun hok ↦ (hsettles.ok_iff.mp hok).1 hfirst
      refine h.of_same (hsettles.kept hfirst) ?_
      rw [hsettles.state_error hrejected]
      exact UnitWrite.same_restored write cell.state
    · have hok : (write.call descriptor platform faults cell).1 = .ok () :=
        hsettles.ok_iff.mpr ⟨hfirst, fun hlast ↦ hlate ⟨hpublishing, hfirst, hlast⟩⟩
      obtain ⟨t, ht, hsame⟩ := reopened_of_replaced hsound (hsettles.replaced hfirst)
      rw [InSync, ht, hsettles.state_ok hok]
      exact .ok hsame
  · rwa [UnitWrite.call_of_not_publishing hpublishing]

theorem InSync.runWrites (h : InSync descriptor cell) (hsound : cell.state.Sound descriptor)
    {writes : List (UnitWrite × Faults)} (hlate : NoneLate descriptor platform cell writes) :
    InSync descriptor (runWrites descriptor platform cell writes) := by
  induction writes generalizing cell with
  | nil => exact h
  | cons first writes ih =>
    exact ih (h.call hsound hlate.1) (sound_call first.1 first.2 hsound) hlate.2

/-- What a write publishes that succeeds after others. -/
theorem published_of_ok (writes : List (UnitWrite × Faults)) {faults : Faults}
    (hpublishing : write.Publishing descriptor (runWrites descriptor platform cell writes))
    (hok : (write.call descriptor platform faults
      (runWrites descriptor platform cell writes)).1 = .ok ()) :
    ∃ s, s.Same (stateOf cell.state (succeeded descriptor platform cell writes ++ [write])) ∧
      (write.call descriptor platform faults
        (runWrites descriptor platform cell writes)).2.disk.file
          = some (serialize descriptor.name s) := by
  have hsettles := UnitWrite.call_settles platform faults hpublishing
  refine ⟨_, ?_, hsettles.replaced (hsettles.ok_iff.mp hok).1⟩
  rw [stateOf, List.foldl_append]
  exact UnitWrite.same_applied write (same_runWrites descriptor platform cell writes)

/-! ## The contract of the unit -/

/-- An opened unit: its state has the shape of the descriptor. -/
structure JsonUnit (descriptor : KvUnitDescriptor) where
  cell : UnitCell
  sound : cell.state.Sound descriptor

/-- The unit that `openJsonUnit` gives. -/
def JsonUnit.opened {file : Option JsString} {state : UnitState}
    (h : openJsonUnit descriptor file = .ok state) : JsonUnit descriptor :=
  ⟨⟨state, false, ⟨file, none⟩⟩, sound_openJsonUnit h⟩

theorem JsonUnit.inSync_opened {file : Option JsString} {state : UnitState}
    (h : openJsonUnit descriptor file = .ok state) :
    InSync descriptor (JsonUnit.opened h).cell := by
  change SameResult UnitState.Same (openJsonUnit descriptor file) (.ok state)
  rw [h]
  exact .ok (.refl state)

/-- **A write of a JSON unit is all or nothing** exactly if it does not fail behind the rename, or
the medium has what it writes already; the order of the records is rolled back too, but where a
record is deleted that is not the last; and whatever fails, the writes that succeed later publish
the state of the successful writes alone. -/
theorem allOrNothing_iff (unit : JsonUnit descriptor) (platform : Platform) :
    (∀ (faults : Faults) (write : UnitWrite),
      AllOrNothing descriptor platform faults unit.cell write ↔
      ¬ FailsLate descriptor platform faults unit.cell write ∨
        SameResult UnitState.Same (openJsonUnit descriptor unit.cell.disk.file)
          (.ok (write.applied unit.cell.state))) ∧
    (∀ (faults : Faults) (write : UnitWrite),
      ((write.call descriptor platform faults unit.cell).1 ≠ .ok () →
        (write.call descriptor platform faults unit.cell).2.state = unit.cell.state) ↔
      ¬ (write.Publishing descriptor unit.cell ∧
          (faults.FailsFirst ∨ faults.FailsLast platform)) ∨
        write.KeepsPlace unit.cell.state) ∧
    ∀ (writes : List (UnitWrite × Faults)) (faults : Faults) (write : UnitWrite),
      write.Publishing descriptor (runWrites descriptor platform unit.cell writes) →
      (write.call descriptor platform faults
        (runWrites descriptor platform unit.cell writes)).1 = .ok () →
      ∃ s, s.Same (stateOf unit.cell.state
          (succeeded descriptor platform unit.cell writes ++ [write])) ∧
        (write.call descriptor platform faults
          (runWrites descriptor platform unit.cell writes)).2.disk.file
            = some (serialize descriptor.name s) :=
  ⟨fun _ _ ↦ allOrNothing_write_iff unit.sound, fun _ _ ↦ state_eq_of_rejected_iff,
    fun writes _ _ hpublishing hok ↦ published_of_ok writes hpublishing hok⟩

private theorem isUnitName_notes : isUnitName (js "notes") = true := by decide +kernel

private theorem isUnitName_entries :
    ∀ table ∈ [js "entries"], isUnitName table = true := by decide +kernel

/-- A unit with one table. -/
def notes : KvUnitDescriptor where
  name := js "notes"
  version := 1
  tables := [js "entries"]
  hasGlobal := false
  validName := isUnitName_notes
  validTables := isUnitName_entries

/-- The sync of the directory fails. -/
def unsynced : Faults := ⟨fun call ↦ decide (call = .syncDirectory), 0⟩

/-- The first record of a new unit: the write is rejected, and a reopening finds the record. -/
theorem not_allOrNothing_unsynced :
    ¬ AllOrNothing notes .posix unsynced ⟨emptyState notes, false, ⟨none, none⟩⟩
      (.putRecord (js "entries") (js "first") ⟨.null, trivial⟩) := by
  rw [allOrNothing_write_iff (sound_emptyState notes), not_or, not_not]
  have htable : ((emptyState notes).tables.get? (js "entries")).isSome = true := by decide +kernel
  refine ⟨⟨⟨rfl, htable⟩, by decide, by decide⟩, fun hsame ↦ ?_⟩
  cases hsame with
  | ok h =>
    have hlook := congrArg (·.bind (· (js "first"))) (congrFun h.look (js "entries"))
    exact absurd hlook (by decide +kernel)

/-- **With no failure behind a rename** the medium of an opened unit reads at any time as the state
of the writes that have succeeded. -/
theorem reopened_runWrites {file : Option JsString} {state : UnitState}
    (h : openJsonUnit descriptor file = .ok state) {writes : List (UnitWrite × Faults)}
    (hlate : NoneLate descriptor platform (JsonUnit.opened h).cell writes) :
    SameResult UnitState.Same
      (openJsonUnit descriptor
        (runWrites descriptor platform (JsonUnit.opened h).cell writes).disk.file)
      (.ok (stateOf state
        (succeeded descriptor platform (JsonUnit.opened h).cell writes))) := by
  have hsync := (JsonUnit.inSync_opened h).runWrites (sound_openJsonUnit h) hlate
  have hsame := same_runWrites descriptor platform
    (JsonUnit.opened h).cell writes
  rw [InSync] at hsync
  generalize openJsonUnit descriptor
    (runWrites descriptor platform (JsonUnit.opened h).cell writes).disk.file = found at hsync ⊢
  cases hsync with
  | ok hold => exact .ok (hold.trans hsame)

/-- A write that fails at the rename, and one that goes through. -/
theorem reopened_runWrites_renamed :
    let writes : List (UnitWrite × Faults) :=
      [(.putRecord (js "entries") (js "first") ⟨.null, trivial⟩, ⟨(· = .rename), 0⟩),
        (.putRecord (js "entries") (js "second") ⟨.null, trivial⟩, ⟨fun _ ↦ false, 0⟩)]
    let cell : UnitCell := ⟨emptyState notes, false, ⟨none, none⟩⟩
    SameResult UnitState.Same
      (openJsonUnit notes (runWrites notes .posix cell writes).disk.file)
      (.ok (stateOf (emptyState notes) (succeeded notes .posix cell writes))) :=
  have hopened : openJsonUnit notes none = .ok (emptyState notes) := rfl
  reopened_runWrites hopened
    ⟨fun h ↦ absurd h.2.2 (by decide), fun h ↦ absurd h.2.2 (by decide), trivial⟩

end XxAgent.Storage
