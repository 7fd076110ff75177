import XxAgent.Artifacts.LeaseRuns

/-!
# The copy of a processor

A processor copies first and publishes then; what it does not publish it removes, or leaves to a
cleanup job. A step of it removes, and gives away, nothing but its own copy.
-/

namespace XxAgent.Artifacts

open Sql Database

/-! ## What a step leaves alone -/

/-- A step removes, and gives to cleanup jobs, only what is doomed; no version becomes clean but one
that it publishes. -/
structure Leaves (doomed : Uuid → Prop) (published : Option ArtifactVersion → Prop)
    (w w' : World) : Prop where
  kept : ∀ object ∈ w.store.versions, ¬ doomed object.versionId → object ∈ w'.store.versions
  created : ∀ object ∈ w'.store.versions,
    object ∈ w.store.versions ∨ w.store.nextVersionId ≤ object.versionId
  next : w.store.nextVersionId ≤ w'.store.nextVersionId
  staged : ∀ upload bytes, w'.store.current (.staging upload) = some bytes →
    w.store.current (.staging upload) = some bytes
  owned : ∀ row ∈ w.db.cleanups, ∃ row' ∈ w'.db.cleanups,
    row'.objectKey = row.objectKey ∧ row'.versionId = row.versionId
  enqueued : ∀ row' ∈ w'.db.cleanups,
    (∃ row ∈ w.db.cleanups, row.versionId = row'.versionId) ∨ doomed row'.versionId
  loose : ∀ key target, .removeVersion key target ∈ w'.loose →
    .removeVersion key target ∈ w.loose ∨ doomed target
  clean : ∀ version ∈ w'.db.versions, version.scanStatus = .clean →
    version ∈ w.db.versions ∨ published (some version)

section

variable {doomed : Uuid → Prop} {published : Option ArtifactVersion → Prop} {w w' : World}

/-- Only rows of jobs and versions change. -/
theorem Leaves.of_rows (hstore : w'.store = w.store) (hcleanups : w'.db.cleanups = w.db.cleanups)
    (hloose : w'.loose = w.loose)
    (hclean : ∀ version ∈ w'.db.versions, version.scanStatus = .clean →
      version ∈ w.db.versions ∨ published (some version)) : Leaves doomed published w w' where
  kept _ hobject _ := hstore ▸ hobject
  created _ hobject := .inl (hstore ▸ hobject)
  next := (congrArg ObjectStore.nextVersionId hstore).ge
  staged _ _ h := hstore ▸ h
  owned row hrow := ⟨row, hcleanups ▸ hrow, rfl, rfl⟩
  enqueued row hrow := .inl ⟨row, hcleanups ▸ hrow, rfl⟩
  loose _ _ h := .inl (hloose ▸ h)
  clean := hclean

theorem Leaves.refl (w : World) : Leaves doomed published w w :=
  .of_rows rfl rfl rfl fun _ hversion _ ↦ .inl hversion

/-- Only rows of cleanup jobs change. -/
theorem Leaves.of_cleanups (hstore : w'.store = w.store) (hloose : w'.loose = w.loose)
    (hversions : w'.db.versions = w.db.versions)
    (howned : ∀ row ∈ w.db.cleanups, ∃ row' ∈ w'.db.cleanups,
      row'.objectKey = row.objectKey ∧ row'.versionId = row.versionId)
    (henqueued : ∀ row' ∈ w'.db.cleanups,
      (∃ row ∈ w.db.cleanups, row.versionId = row'.versionId) ∨ doomed row'.versionId) :
    Leaves doomed published w w' where
  kept _ hobject _ := hstore ▸ hobject
  created _ hobject := .inl (hstore ▸ hobject)
  next := (congrArg ObjectStore.nextVersionId hstore).ge
  staged _ _ h := hstore ▸ h
  owned := howned
  enqueued := henqueued
  loose _ _ h := .inl (hloose ▸ h)
  clean _ hversion _ := .inl (hversions ▸ hversion)

/-- A call is left to its thread. -/
theorem Leaves.leave (w : World) (call : GatewayCall)
    (h : ∀ key target, call = .removeVersion key target → doomed target) :
    Leaves doomed published w (w.leave call) :=
  { Leaves.refl w with
    loose := fun key target hmem ↦ by
      rcases List.mem_append.mp hmem with hold | hnew
      · exact .inl hold
      · exact .inr (h key target (List.mem_singleton.mp hnew).symm) }

/-- An object is copied, or a staged object gets its delete marker. -/
theorem Leaves.put (w : World) (key : ObjectKey) (body : Option Bytes)
    (h : ∀ upload bytes, (w.store.put key body).current (.staging upload) = some bytes →
      w.store.current (.staging upload) = some bytes) :
    Leaves doomed published w (w.setStore (w.store.put key body)) :=
  { Leaves.refl w with
    kept := fun object hobject _ ↦ List.mem_append_left _ hobject
    created := fun object hobject ↦ by
      rcases List.mem_append.mp hobject with hold | hnew
      · exact .inl hold
      · exact .inr (List.mem_singleton.mp hnew ▸ le_rfl)
    next := Nat.le_succ _
    staged := h }

theorem Leaves.copied (w : World) (target : ArtifactKey) (bytes : Bytes) :
    Leaves doomed published w (w.setStore (w.store.put (.artifact target) (some bytes))) := by
  refine .put w _ _ fun upload bytes h ↦ ?_
  rwa [ObjectStore.current_put_of_ne _ (by simp)] at h

theorem Leaves.unstaged (w : World) (upload : Uuid) :
    Leaves doomed published w (w.setStore (w.store.remove (.staging upload))) := by
  refine .put w _ _ fun other bytes h ↦ ?_
  by_cases hsame : upload = other
  · rw [hsame] at h
    exact absurd (ObjectStore.current_remove_self.symm.trans h) (by simp)
  · rwa [ObjectStore.current_put_of_ne _ (by simpa using hsame)] at h

theorem Leaves.removed (w : World) (key : ArtifactKey) {target : Uuid} (h : doomed target) :
    Leaves doomed published w (w.setStore (w.store.removeVersion (.artifact key) target)) :=
  { Leaves.refl w with
    kept := fun object hobject hkept ↦ by
      refine List.mem_filter.mpr ⟨hobject, ?_⟩
      rw [decide_eq_true_iff]
      rintro ⟨-, rfl⟩
      exact hkept h
    created := fun object hobject ↦ .inl (List.mem_of_mem_filter hobject)
    next := le_rfl
    staged := fun upload bytes hcurrent ↦ by
      rwa [World.setStore, ObjectStore.current_removeVersion_of_ne _ (by simp)] at hcurrent }

/-- A removal, however it ends. -/
theorem Leaves.remove (w : World) (call : GatewayCall) (answer : GatewayAnswer)
    (h : ∀ key target, call = .removeVersion key target → doomed target) :
    Leaves doomed published w (w.remove call answer) := by
  have heffect : Leaves doomed published w (w.setStore (w.removed call)) := by
    cases call with
    | copy leaseToken source target etag => exact .refl w
    | unstage upload => exact .unstaged w upload
    | removeVersion key target => exact .removed w key (h key target rfl)
  cases answer with
  | ok => exact heffect
  | failed error tookEffect =>
    cases tookEffect with
    | false => exact .refl w
    | true => exact heffect
  | cancelled => exact .leave w call h

/-! ## Transactions -/

/-- A transaction that changes no cleanup job. -/
def Frames {α : Type} (db : Database) (transaction : Transaction α) : Prop :=
  ∀ result db', transaction = .ok (result, db') → db'.cleanups = db.cleanups

theorem endScan_cleanups {db db' : Database} {versionId requestId : Uuid}
    {f : ArtifactVersion → ArtifactVersion} {message action : String}
    (h : db.endScan versionId requestId f message action = .ok db') :
    db'.cleanups = db.cleanups := by
  rw [endScan] at h
  split_ifs at h
  rw [auditScanTransition] at h
  split at h
  case h_1 => simp at h
  case h_2 => exact (Except.ok.inj h).symm ▸ rfl

theorem frames_settleJob (db : Database) (lease : ArtifactJobLease) (now : Instant)
    (f : ArtifactProcessingJob → ArtifactProcessingJob)
    {version : Database → Except JobError Database}
    (h : ∀ db db', version db = .ok db' → db'.cleanups = db.cleanups) :
    Frames db (settleJob db lease now f version) := by
  intro result db' heq
  rw [settleJob] at heq
  split_ifs at heq
  · rw [← (Prod.mk.inj (Except.ok.inj heq)).2]
    rfl
  · cases hversion : version (db.updateJobs (ownedLiveLease lease now) f) with
    | error error =>
      rw [hversion] at heq
      simp [Except.map] at heq
    | ok db'' =>
      rw [hversion] at heq
      rw [← (Prod.mk.inj (Except.ok.inj heq)).2, h _ _ hversion]
      rfl

theorem frames_retryJob (db : Database) (lease : ArtifactJobLease) (now : Instant)
    (failureCode : String) : Frames db (retryJob db lease now failureCode) := by
  rw [retryJob]
  split_ifs
  · exact frames_settleJob db lease now _ fun _ _ h ↦ endScan_cleanups h
  · refine frames_settleJob db lease now _ fun db db' h ↦ ?_
    rw [Except.ok.inj h]

theorem frames_publishCleanJob (db : Database) (lease : ArtifactJobLease) (now : Instant)
    (objectKey : ArtifactKey) (actualSize : ℕ) (sha256 contentType : String)
    (indexError : Option String) : Frames db
      (publishCleanJob db lease now objectKey actualSize sha256 contentType indexError) := by
  refine frames_settleJob db lease now _ fun db db' h ↦ ?_
  rw [Except.bind.eq_def] at h
  split at h
  case h_1 => simp at h
  case h_2 db'' hend =>
    rw [← endScan_cleanups hend]
    split at h
    case h_1 | h_2 => simp at h
    case h_3 => rw [Except.ok.inj h]

theorem frames_leaseJob (db : Database) (job : ArtifactProcessingJob) (now duration : Instant)
    (leaseToken : Uuid) : Frames db (leaseJob db job now duration leaseToken) := by
  intro lease db' h
  rw [leaseJob] at h
  dsimp only at h
  split_ifs at h
  · rw [auditScanTransition] at h
    split at h
    case h_1 => simp [Except.map] at h
    case h_2 =>
      rw [← (Prod.mk.inj (Except.ok.inj h)).2]
      rfl
  · split at h
    case h_1 =>
      split_ifs at h
      rw [← (Prod.mk.inj (Except.ok.inj h)).2]
      rfl
    case h_2 => simp at h

theorem frames_claimLoop (locked : List Uuid) (now duration : Instant) (leaseToken : Uuid)
    (rounds : ℕ) (db : Database) :
    Frames db (claimLoop locked now duration leaseToken rounds db) := by
  intro lease db' h
  induction rounds generalizing db with
  | zero => rw [← (Prod.mk.inj (Except.ok.inj h)).2]
  | succ rounds ih =>
    rw [claimLoop] at h
    split at h
    case h_1 => rw [← (Prod.mk.inj (Except.ok.inj h)).2]
    case h_2 job _ =>
      split_ifs at h
      · cases hlease : leaseJob db job now duration leaseToken with
        | error error =>
          rw [hlease] at h
          simp [Except.map] at h
        | ok result =>
          rw [hlease] at h
          rw [← (Prod.mk.inj (Except.ok.inj h)).2]
          exact frames_leaseJob db job now duration leaseToken _ _ hlease
      · cases hexhaust : exhaust db job with
        | error error =>
          rw [hexhaust] at h
          simp [Except.bind] at h
        | ok db'' =>
          rw [hexhaust] at h
          rw [exhaust] at hexhaust
          have hcleanups := endScan_cleanups hexhaust
          exact (ih db'' h).trans hcleanups

/-- A transaction on jobs, however it ends. -/
theorem Leaves.transact {α : Type} {transaction : Transaction α}
    (hframes : Frames w.db transaction)
    (hclean : ∀ result db', transaction = .ok (result, db') → ∀ version ∈ db'.versions,
      version.scanStatus = .clean → version ∈ w.db.versions ∨ published (some version))
    (ending : TransactionEnd) : Leaves doomed published w (w.transact transaction ending).1 := by
  have hcommitted {result : α} {db' : Database} (heq : transaction = .ok (result, db')) :
      Leaves doomed published w { w with db := db' } :=
    .of_rows rfl (hframes result db' heq) rfl (hclean result db' heq)
  have hkept (guards : List String) : Leaves doomed published w { w with guards := guards } :=
    .of_rows rfl rfl rfl fun _ hversion _ ↦ .inl hversion
  rw [World.transact.eq_def]
  split
  case h_1 => exact .refl w
  case h_2 | h_3 =>
    split
    case h_1 => exact hkept _
    case h_2 => exact .refl w
    case h_3 => exact hcommitted rfl

/-- What the holder of a lease does to the clean versions. -/
theorem Database.Answers.clean {db : Database} {lease : ArtifactJobLease} {now : Instant}
    {transaction : Transaction Bool} (h : db.Answers lease now published transaction) :
    ∀ result db', transaction = .ok (result, db') → ∀ version ∈ db'.versions,
      version.scanStatus = .clean → version ∈ db.versions ∨ published (some version) := by
  intro result db' heq version hversion hclean
  cases h with
  | lost hlost => exact .inl ((Prod.mk.inj (Except.ok.inj heq)).2 ▸ hversion)
  | done hlive hmoves hpublished hlost =>
    rw [← (Prod.mk.inj (Except.ok.inj heq)).2] at hversion
    refine (hmoves.clean version hversion hclean).imp id fun hsame ↦ ?_
    rw [← hsame]
    exact hpublished
  | index message => simp at heq

end

/-! ## The copy of a processor -/

namespace ProcessorPoint

/-- The object version that a processor is about to publish. -/
def offers? : ProcessorPoint → Option Uuid
  | publishing _ _ target => some target
  | _ => none

/-- The object version that a processor is about to give up. -/
def disposes? : ProcessorPoint → Option Uuid
  | removing _ target _ | enqueuing _ target _ => some target
  | _ => none

/-- Nothing has to be known of a processor that is here without a copy. -/
def Plain : ProcessorPoint → Prop
  | loading | failing | retrying | versioning _ | statting _ | scanning _ | quarantining _ _
  | unstaging _ _ | ended _ => True
  | _ => False

theorem Plain.offers? {point : ProcessorPoint} (h : point.Plain) : point.offers? = none := by
  cases point <;> first | rfl | exact h.elim

theorem Plain.disposes? {point : ProcessorPoint} (h : point.Plain) : point.disposes? = none := by
  cases point <;> first | rfl | exact h.elim

end ProcessorPoint

/-- An object version that is gone, or is owned by a cleanup job. -/
def Disposed (world : World) (target : Uuid) : Prop :=
  ∀ object ∈ world.store.versions, object.versionId = target →
    ∃ row ∈ world.db.cleanups, .artifact row.objectKey = object.key ∧ row.versionId = target

/-- A version is nowhere but under this key. -/
def ObjectStore.Under (store : ObjectStore) (key : ArtifactKey) (target : Uuid) : Prop :=
  ∀ object ∈ store.versions, object.versionId = target → object.key = .artifact key

/-- The store has this version, with bytes of this hash. -/
def ObjectStore.Backs (store : ObjectStore) (content : Content) (key : ArtifactKey)
    (sha256 : String) (target : Uuid) : Prop :=
  ∃ bytes, ⟨.artifact key, target, some bytes⟩ ∈ store.versions ∧ content.sha256 bytes = sha256

section

variable (content : Content) (origin : ObjectStore)

/-- The bytes that have been inspected are those of the upload. -/
def Inspected (work : ArtifactWork) (inspection : ArtifactInspection) : Prop :=
  ∃ bytes, origin.current (.staging work.stagingKey) = some bytes ∧
    content.sha256 bytes = inspection.sha256

/-- What a processor has copied, wherever it is. -/
def PointInv (world : World) (lease : ArtifactJobLease) (processor : Processor) :
    ProcessorPoint → Prop
  | .loading | .failing | .retrying | .versioning _ | .statting _ | .scanning _
  | .quarantining _ _ => processor.copied = []
  | .restatting work bytes _ =>
    processor.copied = [] ∧ origin.current (.staging work.stagingKey) = some bytes
  | .promoting work inspection | .copying work inspection =>
    processor.copied = [] ∧ Inspected content origin work inspection
  | .publishing work inspection target =>
    processor.copied = [target] ∧ world.store.Under (finalKey work lease) target ∧
      world.store.Backs content (finalKey work lease) inspection.sha256 target
  | .removing key target _ | .enqueuing key target _ =>
    processor.copied = [target] ∧ world.store.Under key target
  | .unstaging _ _ => processor.copied = [] ∨ processor.published = true
  | .ended _ => processor.published = true ∨ processor.abandoned = true ∨
    ∀ target ∈ processor.copied, Disposed world target

structure CopyInv (world : World) (lease : ArtifactJobLease) (processor : Processor) : Prop where
  bounded : ∀ target ∈ processor.copied, target < world.store.nextVersionId
  point : PointInv content origin world lease processor processor.point

end

section

variable {content : Content} {origin : ObjectStore} {doomed : Uuid → Prop}
  {published : Option ArtifactVersion → Prop} {w w' : World} {lease : ArtifactJobLease}
  {processor : Processor}

theorem Leaves.old (h : Leaves doomed published w w') {object : ObjectVersion}
    (hobject : object ∈ w'.store.versions) (hlt : object.versionId < w.store.nextVersionId) :
    object ∈ w.store.versions :=
  (h.created object hobject).resolve_right (Nat.not_le_of_lt hlt)

theorem Leaves.under (h : Leaves doomed published w w') {key : ArtifactKey} {target : Uuid}
    (hlt : target < w.store.nextVersionId) (hunder : w.store.Under key target) :
    w'.store.Under key target :=
  fun object hobject hid ↦ hunder object (h.old hobject (hid ▸ hlt)) hid

theorem Leaves.disposed (h : Leaves doomed published w w') {target : Uuid}
    (hlt : target < w.store.nextVersionId) (hdisposed : Disposed w target) :
    Disposed w' target := by
  intro object hobject hid
  obtain ⟨row, hrow, hkey, hrowid⟩ := hdisposed object (h.old hobject (hid ▸ hlt)) hid
  obtain ⟨row', hrow', hkey', hrowid'⟩ := h.owned row hrow
  exact ⟨row', hrow', hkey' ▸ hkey, hrowid'.trans hrowid⟩

theorem Leaves.backs (h : Leaves doomed published w w') {key : ArtifactKey} {sha256 : String}
    {target : Uuid} (hkept : ¬ doomed target) (hbacks : w.store.Backs content key sha256 target) :
    w'.store.Backs content key sha256 target := by
  obtain ⟨bytes, hobject, hsha⟩ := hbacks
  exact ⟨bytes, h.kept _ hobject hkept, hsha⟩

/-- What others do leaves the copy of a processor as it is. -/
theorem CopyInv.of_leaves (h : CopyInv content origin w lease processor)
    (hleaves : Leaves doomed published w w')
    (hoffers : ∀ target, processor.point.offers? = some target → ¬ doomed target) :
    CopyInv content origin w' lease processor := by
  refine ⟨fun target htarget ↦ lt_of_lt_of_le (h.bounded target htarget) hleaves.next, ?_⟩
  have hpoint := h.point
  cases heq : processor.point with
  | publishing work inspection target =>
    rw [heq] at hpoint hoffers
    obtain ⟨hcopied, hunder, hbacks⟩ := hpoint
    have hlt : target < w.store.nextVersionId := h.bounded target (by simp [hcopied])
    exact ⟨hcopied, hleaves.under hlt hunder, hleaves.backs (hoffers target rfl) hbacks⟩
  | removing key target error | enqueuing key target error =>
    rw [heq] at hpoint
    have hlt : target < w.store.nextVersionId := h.bounded target (by simp [hpoint.1])
    exact ⟨hpoint.1, hleaves.under hlt hpoint.2⟩
  | ended error =>
    rw [heq] at hpoint
    exact hpoint.imp id (Or.imp id fun hdisposed target htarget ↦
      hleaves.disposed (h.bounded target htarget) (hdisposed target htarget))
  | _ =>
    rw [heq] at hpoint
    exact hpoint

/-- What a step of a processor publishes it has offered, and keeps. -/
def Publication (content : Content) (world : World) (before after : Processor)
    (version : Option ArtifactVersion) : Prop :=
  ∃ clean ∈ version, ∃ key ∈ clean.objectKey, ∃ target, before.point.offers? = some target ∧
    after.point.Plain ∧ world.store.Backs content key clean.sha256 target

/-- What a step of a processor does with its copy. -/
structure Copies (content : Content) (origin : ObjectStore) (doomed : Uuid → Prop) (world : World)
    (lease : ArtifactJobLease) (processor : Processor) (result : World × Processor) : Prop where
  leaves : Leaves doomed (Publication content world processor result.2) world result.1
  inv : CopyInv content origin result.1 lease result.2
  offers : ∀ target, result.2.point.offers? = some target →
    processor.point.offers? = some target ∨ target = world.store.nextVersionId
  disposes : ∀ target, result.2.point.disposes? = some target →
    processor.point.disposes? = some target ∨ processor.point.offers? = some target

theorem Leaves.weaken (h : Leaves doomed (· = none) w w')
    (published : Option ArtifactVersion → Prop) : Leaves doomed published w w' :=
  { h with
    clean := fun version hversion hclean ↦
      (h.clean version hversion hclean).imp id fun hnone ↦ absurd hnone (by simp) }

/-- A step of a processor that has no copy. -/
theorem Copies.bare (hleaves : Leaves doomed (· = none) w w') {processor' : Processor}
    (hcopied : processor'.copied = [])
    (hpoint : PointInv content origin w' lease processor' processor'.point)
    (hoffers : processor'.point.offers? = none) (hdisposes : processor'.point.disposes? = none) :
    Copies content origin doomed w lease processor (w', processor') where
  leaves := hleaves.weaken _
  inv := ⟨fun target htarget ↦ by simp [hcopied] at htarget, hpoint⟩
  offers target htarget := by simp [hoffers] at htarget
  disposes target htarget := by simp [hdisposes] at htarget

theorem Copies.plain (hleaves : Leaves doomed (· = none) w w') {processor' : Processor}
    (hcopied : processor'.copied = []) (hplain : processor'.point.Plain) :
    Copies content origin doomed w lease processor (w', processor') := by
  refine .bare hleaves hcopied ?_ hplain.offers? hplain.disposes?
  cases heq : processor'.point with
  | restatting work bytes verdict | promoting work inspection | copying work inspection
  | publishing work inspection target | removing key target error
  | enqueuing key target error =>
    rw [heq] at hplain
    exact hplain.elim
  | unstaging key logged => exact .inl hcopied
  | ended error => exact .inr (.inr fun target htarget ↦ by simp [hcopied] at htarget)
  | _ => exact hcopied

theorem plain_inspectionRaised (processor : Processor) (error : Raised) :
    (processor.inspectionRaised error).point.Plain := by
  rw [Processor.inspectionRaised]
  dsimp only [Processor.at]
  split_ifs <;> trivial

theorem plain_promotionRaised (processor : Processor) (error : Raised) :
    (processor.promotionRaised error).point.Plain := by
  rw [Processor.promotionRaised]
  dsimp only [Processor.at]
  split_ifs <;> trivial

/-! ### Its steps -/

/-- The publication is not one that is committed and then raises, and the copy is not one that fails
and takes effect. -/
def ProcessClear (content : Content) (world : World) (lease : ArtifactJobLease) :
    ProcessorPoint → ProcessorAnswer → Prop
  | .publishing _ _ _, .transaction (.raisedAfter _) none => ¬ world.db.Live lease world.now
  | .copying work _, .gateway (.failed _ true) =>
    ∀ result, world.copy content work.stagingKey (finalKey work lease) work.stagingEtag ≠ .ok result
  | _, _ => True

theorem publishCleanJob_index {db : Database} {now : Instant} {objectKey : ArtifactKey}
    {actualSize : ℕ} {sha256 contentType error : String} {db' : Database} :
    publishCleanJob db lease now objectKey actualSize sha256 contentType (some error)
      ≠ .ok (true, db') := by
  intro h
  rw [publishCleanJob, settleJob] at h
  split_ifs at h
  · simp at h
  · rw [Except.bind.eq_def] at h
    split at h
    case h_1 => simp [Except.map] at h
    case h_2 =>
      split at h
      case h_1 | h_2 => simp [Except.map] at h
      case h_3 hnone => simp at hnone

/-- The copy of `_promote`. -/
theorem copies_promote (hinv : CopyInv content origin w lease processor) (work : ArtifactWork)
    (inspection : ArtifactInspection)
    (hpoint : processor.point = .copying work inspection)
    (hstaged : ∀ upload bytes, w.store.current (.staging upload) = some bytes →
      origin.current (.staging upload) = some bytes) (answer : GatewayAnswer)
    (hclear : ProcessClear content w lease processor.point (.gateway answer)) :
    Copies content origin doomed w lease processor
      (promote content w work lease processor inspection answer) := by
  have hknown := hinv.point
  rw [hpoint] at hknown
  obtain ⟨hcopied, bytes, horigin, hsha⟩ := hknown
  rw [promote.eq_def]
  split
  case h_1 =>
    refine .plain (.leave w _ ?_) hcopied trivial
    simp
  case h_2 =>
    split
    case h_1 => exact .plain (.refl w) hcopied (plain_promotionRaised _ _)
    case h_2 target world' hcopy =>
      obtain ⟨body, hcurrent, rfl, rfl⟩ := copy_eq_ok hcopy
      -- What is copied is what has been inspected.
      obtain rfl : bytes = body := Option.some.inj (horigin.symm.trans (hstaged _ _ hcurrent))
      have hnew : (⟨.artifact (finalKey work lease), w.store.nextVersionId, some bytes⟩ :
          ObjectVersion) ∈ (w.store.put (.artifact (finalKey work lease)) (some bytes)).versions :=
        List.mem_append_right _ List.mem_cons_self
      refine ⟨(Leaves.copied w _ _).weaken _, ⟨?_, ?_, ?_, bytes, hnew, hsha⟩, ?_, ?_⟩
      · intro target htarget
        rw [hcopied, List.nil_append, List.mem_singleton] at htarget
        rw [htarget]
        exact Nat.lt_succ_self _
      · rw [hcopied, List.nil_append]
      · intro object hobject hid
        rcases List.mem_append.mp hobject with hold | hlast
        · exact absurd hid (Nat.ne_of_lt (w.store.fresh object hold))
        · rw [List.mem_singleton.mp hlast]
      · intro target htarget
        exact .inr (Option.some.inj htarget).symm
      · intro target htarget
        simp [ProcessorPoint.disposes?] at htarget
  case h_3 =>
    split
    case h_1 error tookEffect target world' hcopy =>
      rw [hpoint] at hclear
      exact absurd hcopy (hclear _)
    case h_2 => exact .plain (.refl w) hcopied (plain_promotionRaised _ _)

/-- The publication: where it does not close the job, the copy is given up. -/
theorem copies_publish (hinv : CopyInv content origin w lease processor) (h : w.db.Corresponds)
    (work : ArtifactWork) (inspection : ArtifactInspection) (target : Uuid)
    (hpoint : processor.point = .publishing work inspection target) (ending : TransactionEnd)
    (indexError : Option String)
    (hclear : ProcessClear content w lease processor.point (.transaction ending indexError)) :
    Copies content origin doomed w lease processor
      (processStep content lease w processor (.transaction ending indexError)) := by
  have hknown := hinv.point
  rw [hpoint] at hknown hclear
  obtain ⟨hcopied, hunder, hbacks⟩ := hknown
  -- Where nothing is published the store is as it was.
  have hgives (error : Option Raised) (guards : List String) (done : Bool) :
      Copies content origin doomed w lease processor ({ w with guards := guards },
        { processor with
          published := done
          point := .removing (finalKey work lease) target error }) := by
    refine ⟨.of_rows rfl rfl rfl fun _ hversion _ ↦ .inl hversion, ⟨hinv.bounded, hcopied, hunder⟩,
      fun _ htarget ↦ ?_, fun _ htarget ↦ .inr ?_⟩
    · simp [ProcessorPoint.offers?] at htarget
    · rw [hpoint]
      exact htarget
  have hanswers := answers_publishCleanJob h lease w.now (finalKey work lease) inspection.size
    inspection.sha256 inspection.contentType indexError
  rw [processStep.eq_def]
  simp only [hpoint]
  generalize htransaction : publishCleanJob w.db lease w.now (finalKey work lease) inspection.size
    inspection.sha256 inspection.contentType indexError = transaction at hanswers
  cases ending with
  | raisedBefore error => exact hgives _ _ _
  | committed =>
    cases hanswers with
    | lost hlost => exact hgives _ _ _
    | index message => exact hgives _ _ _
    | @done db' version hlive hmoves hpublished hlost =>
      refine ⟨.of_rows rfl ?_ rfl ?_, ⟨hinv.bounded, .inr ?_⟩, fun _ htarget ↦ ?_,
        fun _ htarget ↦ ?_⟩
      · exact frames_publishCleanJob _ _ _ _ _ _ _ _ _ _ htransaction
      · intro clean hclean hstatus
        refine (hmoves.clean clean hclean hstatus).imp id fun hsame ↦ ?_
        obtain ⟨row, hrow, -, -, hkey, hsha⟩ := hpublished
        rw [hsame] at hrow
        obtain rfl : clean = row := Option.some.inj hrow
        refine ⟨clean, rfl, _, hkey, target, ?_, trivial, hsha ▸ hbacks⟩
        rw [hpoint]
        rfl
      · exact Bool.or_true _
      · exact absurd (show none = some _ from htarget) (by simp)
      · exact absurd (show none = some _ from htarget) (by simp)
  | raisedAfter error =>
    cases hanswers with
    | lost hlost => exact hgives _ _ _
    | index message => exact hgives _ _ _
    | done hlive hmoves hpublished hlost =>
      cases indexError with
      | none => exact absurd hlive hclear
      | some message => exact absurd htransaction publishCleanJob_index

/-- A transaction on jobs that publishes nothing, of a processor that has no copy. -/
theorem copies_transact {transaction : Transaction Bool} (hframes : Frames w.db transaction)
    (hanswers : w.db.Answers lease w.now (· = none) transaction) (ending : TransactionEnd)
    {next : Bool → Processor} {raised : Raised → Processor}
    (hnext : ∀ owned, (next owned).copied = [] ∧ (next owned).point.Plain)
    (hraised : ∀ error, (raised error).copied = [] ∧ (raised error).point.Plain) :
    Copies content origin doomed w lease processor
      (match w.transact transaction ending with
      | (world, .ok owned) => (world, next owned)
      | (world, .error error) => (world, raised error)) := by
  have hleaves : Leaves doomed (· = none) w (w.transact transaction ending).1 :=
    .transact hframes hanswers.clean ending
  cases hresult : w.transact transaction ending with
  | mk world' answer =>
    rw [hresult] at hleaves
    cases answer with
    | ok owned => exact .plain hleaves (hnext owned).1 (hnext owned).2
    | error error => exact .plain hleaves (hraised error).1 (hraised error).2

/-- What is given up is removed, or its removal is left to another. -/
theorem copies_removing (hinv : CopyInv content origin w lease processor) (key : ArtifactKey)
    (target : Uuid) (error : Option Raised)
    (hpoint : processor.point = .removing key target error) (hdoomed : doomed target)
    (answer : GatewayAnswer) : Copies content origin doomed w lease processor
      (processStep content lease w processor (.gateway answer)) := by
  have hknown := hinv.point
  rw [hpoint] at hknown
  obtain ⟨hcopied, hunder⟩ := hknown
  have hleaves (published : Option ArtifactVersion → Prop) :
      Leaves doomed published w (w.remove (.removeVersion key target) answer) := by
    refine .remove w _ answer fun _ _ hcall ↦ ?_
    obtain ⟨-, rfl⟩ := GatewayCall.removeVersion.inj hcall
    exact hdoomed
  have hlt : target < w.store.nextVersionId := hinv.bounded target (by simp [hcopied])
  have hbounded (other : Uuid) (hother : other ∈ processor.copied) :
      other < (w.remove (.removeVersion key target) answer).store.nextVersionId :=
    lt_of_lt_of_le (hinv.bounded other hother) (hleaves fun _ ↦ False).next
  -- Where it is not certain that the version is gone, it is enqueued.
  have henqueues : Copies content origin doomed w lease processor
      (w.remove (.removeVersion key target) answer,
        processor.at (.enqueuing key target error)) := by
    refine ⟨hleaves _, ⟨hbounded, hcopied, (hleaves fun _ ↦ False).under hlt hunder⟩,
      fun _ htarget ↦ ?_, fun _ htarget ↦ .inl ?_⟩
    · exact absurd (show none = some _ from htarget) (by simp)
    · rw [hpoint]
      exact htarget
  rw [processStep.eq_def]
  simp only [hpoint]
  cases answer with
  | ok =>
    refine ⟨hleaves _, ⟨hbounded, .inr (.inr fun other hother object hobject hid ↦ ?_)⟩,
      fun _ htarget ↦ ?_, fun _ htarget ↦ ?_⟩
    · obtain rfl : other = target := List.mem_singleton.mp (hcopied ▸ hother)
      obtain ⟨hold, hne⟩ := List.mem_filter.mp hobject
      rw [decide_eq_true_iff] at hne
      exact absurd ⟨hunder object hold hid, hid⟩ hne
    · exact absurd (show none = some _ from htarget) (by simp)
    · exact absurd (show none = some _ from htarget) (by simp)
  | failed raised tookEffect => exact henqueues
  | cancelled => exact henqueues

theorem mem_enqueueCleanup (db : Database) (id : Uuid) (key : ArtifactKey) (target : Uuid)
    (now : Instant) : ∃ row ∈ (enqueueCleanup db id key target now).cleanups,
      row.objectKey = key ∧ row.versionId = target := by
  rw [enqueueCleanup]
  split_ifs with hany
  · obtain ⟨row, hrow, hsame⟩ := List.any_eq_true.mp hany
    exact ⟨row, hrow, of_decide_eq_true hsame⟩
  · exact ⟨_, List.mem_append_right _ List.mem_cons_self, rfl, rfl⟩

theorem leaves_enqueueCleanup (w : World) (key : ArtifactKey) {target : Uuid}
    (hdoomed : doomed target) : Leaves doomed published w
      { w with
        db := enqueueCleanup w.db w.nextUuid key target w.now
        nextUuid := w.nextUuid + 1 } := by
  obtain ⟨-, hversions⟩ := enqueueCleanup_rows w.db w.nextUuid key target w.now
  have hrows : (enqueueCleanup w.db w.nextUuid key target w.now).cleanups = w.db.cleanups ∨
      ∃ row : ArtifactObjectCleanupJob, row.versionId = target ∧
        (enqueueCleanup w.db w.nextUuid key target w.now).cleanups = w.db.cleanups ++ [row] := by
    rw [enqueueCleanup]
    split_ifs
    · exact .inl rfl
    · exact .inr ⟨_, rfl, rfl⟩
  refine .of_cleanups rfl rfl hversions (fun row hrow ↦ ⟨row, ?_, rfl, rfl⟩) fun row hrow ↦ ?_
  · rcases hrows with hsame | ⟨last, -, hmore⟩
    · exact hsame ▸ hrow
    · exact hmore ▸ List.mem_append_left _ hrow
  · rcases hrows with hsame | ⟨last, hid, hmore⟩
    · exact .inl ⟨row, hsame ▸ hrow, rfl⟩
    · rcases List.mem_append.mp (hmore ▸ hrow) with hold | hnew
      · exact .inl ⟨row, hold, rfl⟩
      · rw [List.mem_singleton.mp hnew, hid]
        exact .inr hdoomed

/-- What is given up and not surely removed is enqueued, or abandoned. -/
theorem copies_enqueuing (hinv : CopyInv content origin w lease processor) (key : ArtifactKey)
    (target : Uuid) (error : Option Raised)
    (hpoint : processor.point = .enqueuing key target error) (hdoomed : doomed target)
    (ending : TransactionEnd) (indexError : Option String) :
    Copies content origin doomed w lease processor
      (processStep content lease w processor (.transaction ending indexError)) := by
  have hknown := hinv.point
  rw [hpoint] at hknown
  obtain ⟨hcopied, hunder⟩ := hknown
  rw [processStep.eq_def]
  simp only [hpoint]
  cases ending with
  | committed =>
    refine ⟨leaves_enqueueCleanup w key hdoomed,
      ⟨hinv.bounded, .inr (.inr fun other hother object hobject hid ↦ ?_)⟩,
      fun _ htarget ↦ ?_, fun _ htarget ↦ ?_⟩
    · obtain rfl : other = target := List.mem_singleton.mp (hcopied ▸ hother)
      obtain ⟨row, hrow, hkey, hrowid⟩ := mem_enqueueCleanup w.db w.nextUuid key other w.now
      refine ⟨row, hrow, ?_, hrowid⟩
      rw [hkey]
      exact (hunder object hobject hid).symm
    · exact absurd (show none = some _ from htarget) (by simp)
    · exact absurd (show none = some _ from htarget) (by simp)
  | raisedBefore raised =>
    refine ⟨.of_rows rfl rfl rfl fun _ hversion _ ↦ .inl hversion,
      ⟨hinv.bounded, .inr (.inl rfl)⟩, fun _ htarget ↦ ?_, fun _ htarget ↦ ?_⟩
    · exact absurd (show none = some _ from htarget) (by simp)
    · exact absurd (show none = some _ from htarget) (by simp)
  | raisedAfter raised =>
    refine ⟨leaves_enqueueCleanup w key hdoomed, ⟨hinv.bounded, .inr (.inl rfl)⟩,
      fun _ htarget ↦ ?_, fun _ htarget ↦ ?_⟩
    · exact absurd (show none = some _ from htarget) (by simp)
    · exact absurd (show none = some _ from htarget) (by simp)

/-- **A processor gives up what it does not publish.** -/
theorem copies_processStep (hinv : CopyInv content origin w lease processor)
    (h : w.db.Corresponds)
    (hattempt : ∀ job ∈ w.db.jobs, job.leaseToken = some lease.leaseToken →
      job.attempts = lease.attempt)
    (hstaged : ∀ upload bytes, w.store.current (.staging upload) = some bytes →
      origin.current (.staging upload) = some bytes)
    (hdoomed : ∀ target, processor.point.disposes? = some target → doomed target)
    (answer : ProcessorAnswer) (hclear : ProcessClear content w lease processor.point answer) :
    Copies content origin doomed w lease processor
      (processStep content lease w processor answer) := by
  have hknown := hinv.point
  rw [processStep.eq_def]
  split
  case h_1 hpoint =>
    rw [hpoint] at hknown
    split
    case h_1 => split <;> exact .plain (.refl w) hknown trivial
    case h_2 | h_3 => exact .plain (.refl w) hknown trivial
  case h_2 hpoint =>
    rw [hpoint] at hknown
    exact copies_transact (frames_settleJob _ _ _ _ fun _ _ ↦ endScan_cleanups)
      (answers_failJob h lease _ _) _ (fun _ ↦ ⟨hknown, trivial⟩) fun _ ↦ ⟨hknown, trivial⟩
  case h_3 hpoint =>
    rw [hpoint] at hknown
    exact copies_transact (frames_retryJob _ _ _ _) (answers_retryJob h hattempt _ _) _
      (fun _ ↦ ⟨hknown, trivial⟩) fun _ ↦ ⟨hknown, trivial⟩
  case h_4 hpoint =>
    rw [hpoint] at hknown
    split
    case h_2 error _ =>
      refine .plain (.refl w) hknown ?_
      dsimp only [Processor.at]
      split_ifs <;> trivial
    all_goals exact .plain (.refl w) hknown trivial
  case h_5 hpoint =>
    rw [hpoint] at hknown
    split
    case h_1 => exact .plain (.refl w) hknown trivial
    case h_2 => exact .plain (.refl w) hknown (plain_inspectionRaised _ _)
  case h_6 hpoint =>
    rw [hpoint] at hknown
    split
    case h_1 bytes hcurrent =>
      split_ifs
      · exact .bare (.refl w) hknown ⟨hknown, hstaged _ _ hcurrent⟩ rfl rfl
      · exact .plain (.refl w) hknown (plain_inspectionRaised _ _)
    case h_2 => exact .plain (.refl w) hknown (plain_inspectionRaised _ _)
  case h_7 hpoint =>
    rw [hpoint] at hknown
    split
    case h_1 => exact .plain (.refl w) hknown trivial
    case h_2 => exact .plain (.refl w) hknown (plain_inspectionRaised _ _)
  case h_8 hpoint =>
    rw [hpoint] at hknown
    split
    case h_1 => exact .plain (.refl w) hknown.1 (plain_inspectionRaised _ _)
    case h_2 =>
      dsimp only
      split_ifs
      · exact .plain (.refl w) hknown.1 (plain_inspectionRaised _ _)
      · exact .plain (.refl w) hknown.1 trivial
      · exact .bare (.refl w) hknown.1 ⟨hknown.1, _, hknown.2, rfl⟩ rfl rfl
  case h_9 work inspection ending _ hpoint =>
    rw [hpoint] at hknown
    have hframes : Frames w.db (quarantineJob w.db lease w.now inspection.size inspection.sha256
      inspection.contentType) := frames_settleJob _ _ _ _ fun _ _ ↦ endScan_cleanups
    have hleaves : Leaves doomed (· = none) w _ :=
      .transact hframes (answers_quarantineJob h lease w.now _ _ _).clean ending
    split
    all_goals
      rename_i hresult
      rw [hresult] at hleaves
      exact .plain hleaves hknown trivial
  case h_10 key logged answer hpoint =>
    rw [hpoint] at hknown
    have hleaves (published : Option ArtifactVersion → Prop) :
        Leaves doomed published w (w.remove (.unstage key) answer) :=
      .remove w _ answer fun _ _ hcall ↦ by simp at hcall
    have hended (error : Option Raised) : Copies content origin doomed w lease processor
        (w.remove (.unstage key) answer, processor.at (.ended error)) := by
      rcases hknown with hcopied | hpublished
      · exact .plain (hleaves _) hcopied trivial
      · refine ⟨hleaves _, ⟨fun target htarget ↦ ?_, .inl hpublished⟩, fun _ htarget ↦ ?_,
          fun _ htarget ↦ ?_⟩
        · exact lt_of_lt_of_le (hinv.bounded target htarget) (hleaves fun _ ↦ False).next
        · exact absurd (show none = some _ from htarget) (by simp)
        · exact absurd (show none = some _ from htarget) (by simp)
    cases answer with
    | ok | failed error tookEffect | cancelled => exact hended _
  case h_11 hpoint =>
    rw [hpoint] at hknown
    split
    case h_1 =>
      refine .plain (.leave w _ ?_) hknown.1 trivial
      simp
    case h_2 =>
      split
      case h_1 => exact .bare (.refl w) hknown.1 hknown rfl rfl
      case h_2 => exact .plain (.refl w) hknown.1 (plain_promotionRaised _ _)
  case h_12 hpoint => exact copies_promote hinv _ _ hpoint hstaged _ hclear
  case h_13 hpoint =>
    have hstep : Copies content origin doomed w lease processor _ :=
      copies_publish hinv h _ _ _ hpoint _ _ hclear
    rw [processStep.eq_def] at hstep
    simpa only [hpoint] using hstep
  case h_14 key target error answer hpoint =>
    have hstep : Copies content origin doomed w lease processor _ :=
      copies_removing hinv key target error hpoint (hdoomed target (by rw [hpoint]; rfl)) answer
    rw [processStep.eq_def] at hstep
    simpa only [hpoint] using hstep
  case h_15 key target error ending indexError hpoint =>
    have hstep : Copies content origin doomed w lease processor _ :=
      copies_enqueuing hinv key target error hpoint (hdoomed target (by rw [hpoint]; rfl)) ending
        indexError
    rw [processStep.eq_def] at hstep
    simpa only [hpoint] using hstep
  case h_16 => exact ⟨.refl w, hinv, fun _ ↦ .inl, fun _ ↦ .inl⟩

/-- A step that leaves the processor where it is. -/
theorem Copies.same (hinv : CopyInv content origin w lease processor)
    (hleaves : Leaves doomed (· = none) w w')
    (hoffers : ∀ target, processor.point.offers? = some target → ¬ doomed target) :
    Copies content origin doomed w lease processor (w', processor) :=
  ⟨hleaves.weaken _, hinv.of_leaves hleaves hoffers, fun _ ↦ .inl, fun _ ↦ .inl⟩

/-- A worker gives up what it does not publish. -/
theorem copies_leaseStep {run : LeaseRun} (hdb : w.db.Corresponds) (hlease : LeaseInv w run)
    (hinv : CopyInv content origin w run.lease run.processor)
    (hstaged : ∀ upload bytes, w.store.current (.staging upload) = some bytes →
      origin.current (.staging upload) = some bytes)
    (hoffers : ∀ target, run.processor.point.offers? = some target → ¬ doomed target)
    (hdisposes : ∀ target, run.processor.point.disposes? = some target → doomed target)
    (action : LeaseAction)
    (hclear : ∀ answer, action = .process answer → run.supervision.started = true →
      ProcessClear content w run.lease run.processor.point answer) :
    Copies content origin doomed w run.lease run.processor
      ((run.step content w action).1, (run.step content w action).2.processor) := by
  cases action with
  | supervise action => exact .same hinv (.refl w) hoffers
  | beat duration ending =>
    rw [LeaseRun.step, LeaseRun.beat]
    split_ifs
    · have hframes : Frames w.db (heartbeatJob w.db run.lease w.now duration) := by
        intro result db' heq
        rw [← (Prod.mk.inj (Except.ok.inj heq)).2]
        rfl
      have hleaves : Leaves doomed (· = none) w
          (w.transact (heartbeatJob w.db run.lease w.now duration) ending).1 := by
        refine .transact hframes (fun result db' heq version hversion hclean ↦ ?_) ending
        rw [← (Prod.mk.inj (Except.ok.inj heq)).2] at hversion
        exact .inl hversion
      exact .same hinv hleaves hoffers
    · exact .same hinv (.refl w) hoffers
  | process answer =>
    rw [LeaseRun.step]
    split_ifs with hstarted
    · exact copies_processStep hinv hdb hlease.attempt hstaged hdisposes answer
        (hclear answer rfl hstarted)
    · exact .same hinv (.refl w) hoffers
  | settle ending =>
    rw [LeaseRun.step, LeaseRun.settle.eq_def]
    split
    case h_1 failureCode _ =>
      refine .same hinv (.transact (frames_retryJob _ _ _ _) ?_ ending) hoffers
      exact (answers_retryJob hdb hlease.attempt w.now failureCode).clean
    case h_2 hpoint =>
      have hlost : ¬ w.db.Live run.lease w.now :=
        hlease.settled (hlease.finishing hpoint ▸ trivial)
      have hanswers : w.db.Answers run.lease w.now (· = none)
          (finishJob w.db run.lease w.now) := by
        rw [finishJob, settleJob_of_not_live hlost]
        exact .lost hlost
      have hframes : Frames w.db (finishJob w.db run.lease w.now) :=
        frames_settleJob _ _ _ _ fun _ _ heq ↦ by rw [Except.ok.inj heq]
      exact .same hinv (.transact hframes hanswers.clean ending) hoffers
    case h_3 => exact .same hinv (.refl w) hoffers

end

end XxAgent.Artifacts
