import XxAgent.Artifacts.ProcessorCopies

/-!
# A clean artifact keeps its bytes

An object version that has been doomed was never offered to a publication that has been committed,
unless the publication has been committed and has raised. And a copy has its owner, unless it has
taken effect and its call has not come back.
-/

namespace XxAgent.Artifacts

open Sql Database

/-! ## Cleanup jobs -/

/-- Cleanup jobs own the same object versions. -/
structure SameObjects (db db' : Database) : Prop where
  owned : ∀ row ∈ db.cleanups, ∃ row' ∈ db'.cleanups,
    row'.objectKey = row.objectKey ∧ row'.versionId = row.versionId
  owners : ∀ row' ∈ db'.cleanups, ∃ row ∈ db.cleanups, row.versionId = row'.versionId

section

variable {db : Database}

theorem SameObjects.refl (db : Database) : SameObjects db db :=
  ⟨fun row hrow ↦ ⟨row, hrow, rfl, rfl⟩, fun row hrow ↦ ⟨row, hrow, rfl⟩⟩

theorem SameObjects.trans {db' db'' : Database} (h : SameObjects db db')
    (h' : SameObjects db' db'') : SameObjects db db'' where
  owned row hrow := by
    obtain ⟨row', hrow', hkey, hid⟩ := h.owned row hrow
    obtain ⟨row'', hrow'', hkey', hid'⟩ := h'.owned row' hrow'
    exact ⟨row'', hrow'', hkey'.trans hkey, hid'.trans hid⟩
  owners row'' hrow'' := by
    obtain ⟨row', hrow', hid'⟩ := h'.owners row'' hrow''
    obtain ⟨row, hrow, hid⟩ := h.owners row' hrow'
    exact ⟨row, hrow, hid.trans hid'⟩

theorem sameObjects_updateCleanups (p : ArtifactObjectCleanupJob → Bool)
    {f : ArtifactObjectCleanupJob → ArtifactObjectCleanupJob}
    (hf : ∀ row, (f row).objectKey = row.objectKey ∧ (f row).versionId = row.versionId) :
    SameObjects db (updateCleanups db p f) where
  owned row hrow := by
    refine ⟨_, mem_update.mpr ⟨row, hrow, rfl⟩, ?_⟩
    split_ifs
    · exact hf row
    · exact ⟨rfl, rfl⟩
  owners row' hrow' := by
    obtain ⟨row, hrow, rfl⟩ := mem_update.mp hrow'
    refine ⟨row, hrow, ?_⟩
    split_ifs
    · exact (hf row).2.symm
    · rfl

theorem nextCleanup_mem {locked : List Uuid} {now : Instant} {row : ArtifactObjectCleanupJob}
    (h : nextCleanup db locked now = some row) : row ∈ db.cleanups := by
  have hmem : row ∈ db.cleanups.filter fun row ↦
      isCleanupDue now row && !locked.contains row.id := by
    rw [← List.mem_mergeSort]
    exact List.mem_of_mem_head? h
  exact List.mem_of_mem_filter hmem

/-- A cleanup that is claimed is one of the rows. -/
theorem claimCleanupLoop_objects (locked : List Uuid) (now duration : Instant) (token : Uuid)
    (rounds : ℕ) (db : Database) :
    SameObjects db (claimCleanupLoop locked now duration token rounds db).2 ∧
      ∀ lease ∈ (claimCleanupLoop locked now duration token rounds db).1,
        ∃ row ∈ db.cleanups, row.versionId = lease.versionId := by
  induction rounds generalizing db with
  | zero => exact ⟨.refl db, by simp [claimCleanupLoop]⟩
  | succ rounds ih =>
    rw [claimCleanupLoop]
    split
    case h_1 => exact ⟨.refl db, by simp⟩
    case h_2 row hnext =>
      split_ifs
      · refine ⟨sameObjects_updateCleanups _ fun _ ↦ ⟨rfl, rfl⟩, fun lease hlease ↦ ?_⟩
        exact ⟨row, nextCleanup_mem hnext, congrArg (·.versionId) (Option.some.inj hlease)⟩
      · obtain ⟨hrest, hleases⟩ := ih (updateCleanups db (·.id = row.id) fun job ↦
          { job with
            status := .dead
            leaseToken := none
            leaseExpiresAt := none
            failureCode := some "lease-expired" })
        have hfirst : SameObjects db (updateCleanups db (·.id = row.id) fun job ↦
            { job with
              status := .dead
              leaseToken := none
              leaseExpiresAt := none
              failureCode := some "lease-expired" }) :=
          sameObjects_updateCleanups _ fun _ ↦ ⟨rfl, rfl⟩
        refine ⟨hfirst.trans hrest, fun lease hlease ↦ ?_⟩
        obtain ⟨row', hrow', hid'⟩ := hleases lease hlease
        obtain ⟨row, hrow, hid⟩ := hfirst.owners row' hrow'
        exact ⟨row, hrow, hid.trans hid'⟩

variable {doomed : Uuid → Prop} {published : Option ArtifactVersion → Prop} {w : World}

theorem Leaves.transactCleanups {α : Type} (result : α) {db : Database}
    (hversions : db.versions = w.db.versions) (h : SameObjects w.db db) (ending : TransactionEnd) :
    Leaves doomed published w (w.transact (.ok (result, db)) ending).1 := by
  cases ending with
  | committed | raisedAfter error =>
    exact .of_cleanups rfl rfl hversions h.owned fun row hrow ↦ .inl (h.owners row hrow)
  | raisedBefore error => exact .refl w

theorem Leaves.of_uuid {w' : World} {nextUuid : Uuid}
    (h : Leaves doomed published { w with nextUuid := nextUuid } w') :
    Leaves doomed published w w' :=
  ⟨h.kept, h.created, h.next, h.staged, h.owned, h.enqueued, h.loose, h.clean⟩

/-- A thread no longer has its call before it. -/
theorem Leaves.of_erase {w' : World} {index : ℕ}
    (h : Leaves doomed published { w with loose := w.loose.eraseIdx index } w') :
    Leaves doomed published w w' :=
  ⟨h.kept, h.created, h.next, h.staged, h.owned, h.enqueued,
    fun key target hmem ↦ (h.loose key target hmem).imp List.mem_of_mem_eraseIdx id, h.clean⟩

/-- A cleanup removes what it has been leased for, and nothing else. -/
theorem leaves_cleanupStep (run : CleanupRun) (w : World) (hdoomed : doomed run.lease.versionId)
    (action : CleanupAction) : Leaves doomed published w (run.step w action).1 ∧
      (run.step w action).2.lease = run.lease := by
  have hlive (f : ArtifactObjectCleanupJob → ArtifactObjectCleanupJob)
      (hf : ∀ row, (f row).objectKey = row.objectKey ∧ (f row).versionId = row.versionId)
      (ending : TransactionEnd) : Leaves doomed published w
        (w.transact (.ok (updateLiveCleanup w.db run.lease w.now f)) ending).1 :=
    .transactCleanups (rowcount (ownedLiveCleanup run.lease w.now) w.db.cleanups = 1 : Bool)
      (show (updateCleanups w.db _ f).versions = _ from rfl) (sameObjects_updateCleanups _ hf)
      ending
  cases action with
  | supervise action => exact ⟨.refl w, rfl⟩
  | beat duration ending =>
    rw [CleanupRun.step, CleanupRun.beat]
    split_ifs
    · refine ⟨hlive _ ?_ ending, rfl⟩
      exact fun _ ↦ ⟨rfl, rfl⟩
    · exact ⟨.refl w, rfl⟩
  | process answer =>
    rw [CleanupRun.step]
    split_ifs
    · rw [CleanupRun.process.eq_def]
      split
      case h_2 =>
        refine ⟨.remove w _ answer fun _ _ hcall ↦ ?_, rfl⟩
        obtain ⟨-, rfl⟩ := GatewayCall.removeVersion.inj hcall
        exact hdoomed
      all_goals exact ⟨.refl w, rfl⟩
    · exact ⟨.refl w, rfl⟩
  | settle ending =>
    rw [CleanupRun.step, CleanupRun.settle.eq_def]
    split
    case h_1 | h_2 =>
      refine ⟨hlive _ ?_ ending, rfl⟩
      exact fun _ ↦ ⟨rfl, rfl⟩
    case h_3 => exact ⟨.refl w, rfl⟩

end

/-! ## Runs of all workers -/

namespace ArtifactSystem

/-- An object version that is bound to be removed. -/
inductive Doomed (s : ArtifactSystem) (target : Uuid) : Prop where
  | enqueued (row : ArtifactObjectCleanupJob) (hrow : row ∈ s.world.db.cleanups)
    (h : row.versionId = target)
  | leased (run : CleanupRun) (hrun : run ∈ s.cleanups) (h : run.lease.versionId = target)
  | loose (key : ArtifactKey) (h : .removeVersion key target ∈ s.world.loose)
  | disposed (run : LeaseRun) (hrun : run ∈ s.leases)
    (h : run.processor.point.disposes? = some target)

/-- A clean version has its bytes, and nobody is about to remove them. -/
def Backed (content : Content) (s : ArtifactSystem) (version : ArtifactVersion) : Prop :=
  ∃ key ∈ version.objectKey, ∃ target, s.world.store.Backs content key version.sha256 target ∧
    ¬ s.Doomed target ∧ ∀ run ∈ s.leases, run.processor.point.offers? ≠ some target

/-- What is offered is not doomed, and is offered once; what is clean is neither. -/
structure KeepInv (content : Content) (origin : ObjectStore) (s : ArtifactSystem) : Prop where
  inv : s.Inv
  staged : ∀ upload bytes, s.world.store.current (.staging upload) = some bytes →
    origin.current (.staging upload) = some bytes
  bounded : ∀ target, s.Doomed target → target < s.world.store.nextVersionId
  copies : ∀ run ∈ s.leases, CopyInv content origin s.world run.lease run.processor
  offered : ∀ run ∈ s.leases, ∀ target, run.processor.point.offers? = some target →
    ¬ s.Doomed target
  distinct : ∀ (i j : ℕ) (run run' : LeaseRun) target, s.leases[i]? = some run →
    s.leases[j]? = some run' → run.processor.point.offers? = some target →
    run'.processor.point.offers? = some target → i = j
  clean : ∀ version ∈ s.world.db.versions, version.scanStatus = .clean → s.Backed content version

variable {content : Content} {origin : ObjectStore} {s t : ArtifactSystem}

theorem offers?_lt {world : World} {lease : ArtifactJobLease} {processor : Processor}
    (h : CopyInv content origin world lease processor) {target : Uuid}
    (htarget : processor.point.offers? = some target) : target < world.store.nextVersionId := by
  have hpoint := h.point
  cases heq : processor.point with
  | publishing work inspection offered =>
    rw [heq] at htarget hpoint
    obtain rfl : offered = target := Option.some.inj htarget
    exact h.bounded offered (by simp [hpoint.1])
  | _ =>
    rw [heq] at htarget
    simp [ProcessorPoint.offers?] at htarget

theorem backs_lt {store : ObjectStore} {key : ArtifactKey} {sha256 : String} {target : Uuid}
    (h : store.Backs content key sha256 target) : target < store.nextVersionId := by
  obtain ⟨bytes, hobject, -⟩ := h
  exact store.fresh _ hobject

/-- A step that copies nothing, and publishes nothing. -/
theorem KeepInv.others (h : s.KeepInv content origin) (hinv : t.Inv)
    (hleaves : Leaves s.Doomed (· = none) s.world t.world)
    (hruns : ∀ (i : ℕ) run, t.leases[i]? = some run →
      s.leases[i]? = some run ∨ run.processor = {})
    (hcleanups : ∀ run ∈ t.cleanups, s.Doomed run.lease.versionId) :
    t.KeepInv content origin := by
  have hold {run : LeaseRun} (hrun : run ∈ t.leases) :
      run ∈ s.leases ∨ run.processor = {} := by
    obtain ⟨i, hi⟩ := List.mem_iff_getElem?.mp hrun
    exact (hruns i run hi).imp List.mem_of_getElem? id
  have hoffers {run : LeaseRun} {target : Uuid} (hrun : run ∈ t.leases)
      (htarget : run.processor.point.offers? = some target) : run ∈ s.leases := by
    refine (hold hrun).resolve_right fun hnew ↦ ?_
    rw [hnew] at htarget
    exact absurd (show none = some _ from htarget) (by simp)
  have hdoomed {target : Uuid} (htarget : t.Doomed target) : s.Doomed target := by
    cases htarget with
    | enqueued row hrow heq =>
      rcases hleaves.enqueued row hrow with ⟨row', hrow', heq'⟩ | hdoomed
      · exact .enqueued row' hrow' (heq'.trans heq)
      · exact heq ▸ hdoomed
    | leased run hrun heq => exact heq ▸ hcleanups run hrun
    | loose key hmem => exact (hleaves.loose key target hmem).elim (.loose key) id
    | disposed run hrun heq =>
      rcases hold hrun with hrun | hnew
      · exact .disposed run hrun heq
      · rw [hnew] at heq
        exact absurd (show none = some _ from heq) (by simp)
  refine ⟨hinv, fun upload bytes hcurrent ↦ h.staged _ _ (hleaves.staged _ _ hcurrent),
    fun target htarget ↦ lt_of_lt_of_le (h.bounded _ (hdoomed htarget)) hleaves.next,
    fun run hrun ↦ ?_, fun run hrun target htarget hd ↦ ?_,
    fun i j run run' target hi hj hr hr' ↦ ?_, fun version hversion hclean ↦ ?_⟩
  · rcases hold hrun with hrun | hnew
    · exact (h.copies run hrun).of_leaves hleaves (h.offered run hrun)
    · rw [hnew]
      exact ⟨by simp, rfl⟩
  · exact h.offered run (hoffers hrun htarget) target htarget (hdoomed hd)
  · have hnone (run : LeaseRun) (hr : run.processor.point.offers? = some target)
        (hnew : run.processor = {}) : False := by
      rw [hnew] at hr
      exact absurd (show none = some _ from hr) (by simp)
    exact h.distinct i j run run' target ((hruns i run hi).resolve_right (hnone run hr))
      ((hruns j run' hj).resolve_right (hnone run' hr')) hr hr'
  · obtain ⟨key, hkey, target, hbacks, hkept, hfree⟩ := h.clean version
      ((hleaves.clean version hversion hclean).resolve_right (by simp)) hclean
    exact ⟨key, hkey, target, hleaves.backs hkept hbacks, hkept ∘ hdoomed,
      fun run hrun htarget ↦ hfree run (hoffers hrun htarget) htarget⟩

theorem not_disposes {point : ProcessorPoint} {target : Uuid}
    (h : point.offers? = some target) (other : Uuid) : point.disposes? ≠ some other := by
  cases point with
  | publishing work inspection offered => simp [ProcessorPoint.disposes?]
  | _ => simp [ProcessorPoint.offers?] at h

/-- A step of one worker. -/
theorem KeepInv.worker (h : s.KeepInv content origin) {index : ℕ} {run run' : LeaseRun}
    (hrun : s.leases[index]? = some run) {world' : World}
    (hinv : Inv ⟨world', s.leases.set index run', s.cleanups⟩) (hlease : run'.lease = run.lease)
    (hcopies : Copies content origin s.Doomed s.world run.lease run.processor
      (world', run'.processor)) :
    KeepInv content origin ⟨world', s.leases.set index run', s.cleanups⟩ := by
  have hmem := List.mem_of_getElem? hrun
  have hleaves := hcopies.leaves
  have hold {j : ℕ} {other : LeaseRun} (hj : (s.leases.set index run')[j]? = some other) :
      j = index ∧ other = run' ∨ j ≠ index ∧ s.leases[j]? = some other := by
    rw [List.getElem?_set] at hj
    split_ifs at hj with hsame
    · exact .inl ⟨hsame.symm, (Option.some.inj hj).symm⟩
    · exact .inr ⟨fun heq ↦ hsame heq.symm, hj⟩
  -- Only what the worker has offered may be doomed now.
  have hdoomed {target : Uuid}
      (htarget : Doomed ⟨world', s.leases.set index run', s.cleanups⟩ target) :
      s.Doomed target ∨ run.processor.point.offers? = some target ∧
        run'.processor.point.disposes? = some target := by
    cases htarget with
    | enqueued row hrow heq =>
      rcases hleaves.enqueued row hrow with ⟨row', hrow', heq'⟩ | hdoomed
      · exact .inl (.enqueued row' hrow' (heq'.trans heq))
      · exact .inl (heq ▸ hdoomed)
    | leased run hrun heq => exact .inl (.leased run hrun heq)
    | loose key hmem => exact .inl ((hleaves.loose key target hmem).elim (.loose key) id)
    | disposed other hother heq =>
      rcases List.mem_or_eq_of_mem_set hother with hother | rfl
      · exact .inl (.disposed other hother heq)
      · exact (hcopies.disposes target heq).imp (.disposed run hmem) fun hoffers ↦ ⟨hoffers, heq⟩
  have hlt {target : Uuid} (htarget : run.processor.point.offers? = some target) :=
    offers?_lt (h.copies run hmem) htarget
  refine ⟨hinv, fun upload bytes hcurrent ↦ h.staged _ _ (hleaves.staged _ _ hcurrent),
    fun target htarget ↦ ?_, fun other hother ↦ ?_, fun other hother target htarget hd ↦ ?_,
    fun i j other other' target hi hj ho ho' ↦ ?_, fun version hversion hclean ↦ ?_⟩
  · refine lt_of_lt_of_le ?_ hleaves.next
    rcases hdoomed htarget with hd | ⟨hoffers, -⟩
    · exact h.bounded target hd
    · exact hlt hoffers
  · rcases List.mem_or_eq_of_mem_set hother with hother | rfl
    · exact (h.copies other hother).of_leaves hleaves (h.offered other hother)
    · exact hlease ▸ hcopies.inv
  · obtain ⟨j, hj⟩ := List.mem_iff_getElem?.mp hother
    rcases hold hj with ⟨rfl, rfl⟩ | ⟨hne, hj⟩
    · rcases hdoomed hd with hd | ⟨-, hdisposes⟩
      · rcases hcopies.offers target htarget with hoffers | rfl
        · exact h.offered run hmem target hoffers hd
        · exact absurd (h.bounded _ hd) (Nat.lt_irrefl _)
      · exact not_disposes htarget target hdisposes
    · rcases hdoomed hd with hd | ⟨hoffers, -⟩
      · exact h.offered other (List.mem_of_getElem? hj) target htarget hd
      · exact hne (h.distinct j index other run target hj hrun htarget hoffers)
  · -- A copy is fresh, and nobody else offers it.
    have hother {j : ℕ} {other : LeaseRun} (hj : s.leases[j]? = some other)
        (htarget : other.processor.point.offers? = some target)
        (hoffers : run'.processor.point.offers? = some target) : j = index := by
      rcases hcopies.offers target hoffers with hoffers | rfl
      · exact h.distinct j index other run target hj hrun htarget hoffers
      · have hlt := offers?_lt (h.copies other (List.mem_of_getElem? hj)) htarget
        exact absurd hlt (Nat.lt_irrefl _)
    rcases hold hi with ⟨rfl, rfl⟩ | ⟨hne, hiold⟩
    · rcases hold hj with ⟨rfl, -⟩ | ⟨hne, hjold⟩
      · rfl
      · exact absurd (hother hjold ho' ho) hne
    · rcases hold hj with ⟨rfl, rfl⟩ | ⟨-, hjold⟩
      · exact absurd (hother hiold ho ho') hne
      · exact h.distinct i j other other' target hiold hjold ho ho'
  · rcases hleaves.clean version hversion hclean with hversion |
      ⟨clean, hsome, key, hkey, target, hoffers, hplain, hbacks⟩
    · obtain ⟨key, hkey, target, hbacks, hkept, hfree⟩ := h.clean version hversion hclean
      refine ⟨key, hkey, target, hleaves.backs hkept hbacks, fun hd ↦ ?_, fun other hother ho ↦ ?_⟩
      · exact (hdoomed hd).elim hkept fun hgiven ↦ hfree run hmem hgiven.1
      · rcases List.mem_or_eq_of_mem_set hother with hother | rfl
        · exact hfree other hother ho
        · rcases hcopies.offers target ho with hoffers | rfl
          · exact hfree run hmem hoffers
          · exact absurd (backs_lt hbacks) (Nat.lt_irrefl _)
    · -- What is published now was offered by this worker alone.
      obtain rfl : version = clean := Option.some.inj hsome
      have hkept := h.offered run hmem target hoffers
      refine ⟨key, hkey, target, hleaves.backs hkept hbacks, fun hd ↦ ?_, fun other hother ho ↦ ?_⟩
      · rcases hdoomed hd with hd | ⟨-, hdisposes⟩
        · exact hkept hd
        · simp [hplain.disposes?] at hdisposes
      · obtain ⟨j, hj⟩ := List.mem_iff_getElem?.mp hother
        rcases hold hj with ⟨rfl, rfl⟩ | ⟨hne, hj⟩
        · simp [hplain.offers?] at ho
        · exact hne (h.distinct j index other run target hj hrun ho hoffers)

/-- No publication is committed by a transaction that raises then, and no copy takes effect whose
call has failed, or is no longer awaited. -/
def Clear (content : Content) (s : ArtifactSystem) : ArtifactAction → Prop
  | .lease index (.process answer) => ∀ run, s.leases[index]? = some run →
    run.supervision.started = true →
      ProcessClear content s.world run.lease run.processor.point answer
  | .land index => ∀ leaseToken source target etag,
    s.world.loose[index]? = some (.copy leaseToken source target etag) →
      ∀ result, s.world.copy content source target etag ≠ .ok result
  | _ => True

theorem KeepInv.claim (h : s.KeepInv content origin) (locked : List Uuid) (duration : Instant)
    (ending : TransactionEnd) (hinv : (s.claim locked duration ending).Inv) :
    (s.claim locked duration ending).KeepInv content origin := by
  have hcleanups : ∀ run ∈ s.cleanups, s.Doomed run.lease.versionId :=
    fun run hrun ↦ .leased run hrun rfl
  have hframes : Frames s.world.db
      (claimDueJob s.world.db locked s.world.now duration s.world.nextUuid) :=
    frames_claimLoop _ _ _ _ _ _
  have hclean : ∀ lease db',
      claimDueJob s.world.db locked s.world.now duration s.world.nextUuid = .ok (lease, db') →
      ∀ version ∈ db'.versions, version.scanStatus = .clean →
        version ∈ s.world.db.versions ∨ some version = none := by
    intro lease db' heq version hversion hclean
    obtain ⟨lease', db'', heq', hclaims⟩ := claimLoop_eq locked s.world.now duration
      s.world.nextUuid (s.world.db.jobs.length + 1) h.inv.corresponds h.inv.not_token
    obtain ⟨-, rfl⟩ := Prod.mk.inj (Except.ok.inj (heq'.symm.trans heq))
    exact (hclaims.moves.clean version hversion hclean).imp id Eq.symm
  have hleaves : Leaves s.Doomed (· = none) { s.world with nextUuid := s.world.nextUuid + 1 }
      ({ s.world with nextUuid := s.world.nextUuid + 1 }.transact
        (claimDueJob s.world.db locked s.world.now duration s.world.nextUuid) ending).1 :=
    .transact (w := { s.world with nextUuid := s.world.nextUuid + 1 }) hframes hclean ending
  rw [ArtifactSystem.claim] at hinv ⊢
  dsimp only at hinv ⊢
  cases hresult : { s.world with nextUuid := s.world.nextUuid + 1 }.transact
      (claimDueJob s.world.db locked s.world.now duration s.world.nextUuid) ending with
  | mk world' answer =>
    rw [hresult] at hinv hleaves
    cases answer with
    | error error => exact h.others hinv hleaves.of_uuid (fun _ _ ↦ .inl) hcleanups
    | ok lease =>
      cases lease with
      | none => exact h.others hinv hleaves.of_uuid (fun _ _ ↦ .inl) hcleanups
      | some lease =>
        refine h.others hinv hleaves.of_uuid (fun i run hi ↦ ?_) hcleanups
        dsimp only at hi
        rw [List.getElem?_append] at hi
        split_ifs at hi
        · exact .inl hi
        · rw [List.mem_singleton.mp (List.mem_of_getElem? hi)]
          exact .inr rfl

theorem KeepInv.claimCleanup (h : s.KeepInv content origin) (locked : List Uuid)
    (duration : Instant) (ending : TransactionEnd)
    (hinv : (s.claimCleanup locked duration ending).Inv) :
    (s.claimCleanup locked duration ending).KeepInv content origin := by
  have hcleanups : ∀ run ∈ s.cleanups, s.Doomed run.lease.versionId :=
    fun run hrun ↦ .leased run hrun rfl
  obtain ⟨-, hversions⟩ := claimCleanupLoop_rows locked s.world.now duration s.world.nextUuid
    (s.world.db.cleanups.length + 1) s.world.db
  obtain ⟨hobjects, hleases⟩ := claimCleanupLoop_objects locked s.world.now duration
    s.world.nextUuid (s.world.db.cleanups.length + 1) s.world.db
  have hleaves : Leaves s.Doomed (· = none) { s.world with nextUuid := s.world.nextUuid + 1 }
      ({ s.world with nextUuid := s.world.nextUuid + 1 }.transact
        (.ok (claimDueCleanup s.world.db locked s.world.now duration s.world.nextUuid)) ending).1 :=
    .transactCleanups (w := { s.world with nextUuid := s.world.nextUuid + 1 }) _ hversions hobjects
      ending
  rw [ArtifactSystem.claimCleanup] at hinv ⊢
  dsimp only at hinv ⊢
  cases hresult : { s.world with nextUuid := s.world.nextUuid + 1 }.transact
      (.ok (claimDueCleanup s.world.db locked s.world.now duration s.world.nextUuid)) ending with
  | mk world' answer =>
    rw [hresult] at hinv hleaves
    cases answer with
    | error error => exact h.others hinv hleaves.of_uuid (fun _ _ ↦ .inl) hcleanups
    | ok lease =>
      cases lease with
      | none => exact h.others hinv hleaves.of_uuid (fun _ _ ↦ .inl) hcleanups
      | some lease =>
        have hlease : lease ∈ (claimDueCleanup s.world.db locked s.world.now duration
            s.world.nextUuid).1 := by
          cases ending with
          | committed => exact Except.ok.inj (congrArg Prod.snd hresult)
          | raisedBefore error | raisedAfter error =>
            exact absurd (congrArg Prod.snd hresult) (by simp [World.transact])
        refine h.others hinv hleaves.of_uuid (fun _ _ ↦ .inl) fun run hrun ↦ ?_
        rcases List.mem_append.mp hrun with hold | hnew
        · exact hcleanups run hold
        · obtain ⟨row, hrow, hid⟩ := hleases lease hlease
          rw [List.mem_singleton.mp hnew]
          exact .enqueued row hrow hid

/-- A call that nobody awaits takes effect. -/
theorem KeepInv.land (h : s.KeepInv content origin) {index : ℕ} {call : GatewayCall}
    (hcall : s.world.loose[index]? = some call)
    (hclear : ∀ leaseToken source target etag, call = .copy leaseToken source target etag →
      ∀ result, s.world.copy content source target etag ≠ .ok result)
    (hinv : ({ s with world := { s.world with loose := s.world.loose.eraseIdx index } }.land
      content call).Inv) :
    ({ s with world := { s.world with loose := s.world.loose.eraseIdx index } }.land
      content call).KeepInv content origin := by
  have hcleanups : ∀ run ∈ s.cleanups, s.Doomed run.lease.versionId :=
    fun run hrun ↦ .leased run hrun rfl
  have hdoomed (key : ArtifactKey) (target : Uuid) (heq : call = .removeVersion key target) :
      s.Doomed target := .loose key (heq ▸ List.mem_of_getElem? hcall)
  have hremove : Leaves s.Doomed (· = none) s.world
      ({ s.world with loose := s.world.loose.eraseIdx index }.remove call .ok) :=
    (Leaves.remove _ call .ok hdoomed).of_erase
  cases call with
  | copy leaseToken source target etag =>
    rw [ArtifactSystem.land.eq_def] at hinv ⊢
    dsimp only at hinv ⊢
    split at hinv
    case h_1 => exact h.others hinv hremove (fun _ _ ↦ .inl) hcleanups
    case h_2 versionId world' hcopy =>
      -- What is before other threads makes no difference to it.
      cases hresult : s.world.copy content source target etag with
      | ok result => exact absurd hresult (hclear leaseToken source target etag rfl result)
      | error error =>
        rw [World.copy] at hresult hcopy
        split at hresult
        case h_1 hnone => simp [hnone] at hcopy
        case h_2 bytes hsome =>
          split_ifs at hresult with hetag
          simp [hsome, hetag] at hcopy
  | unstage upload => exact h.others hinv hremove (fun _ _ ↦ .inl) hcleanups
  | removeVersion key target => exact h.others hinv hremove (fun _ _ ↦ .inl) hcleanups

/-- **One step of any worker.** -/
theorem KeepInv.step (h : s.KeepInv content origin) (action : ArtifactAction)
    (hclear : s.Clear content action) : (s.step content action).KeepInv content origin := by
  have hinv := (h.inv.step content action).inv
  have hcleanups : ∀ run ∈ s.cleanups, s.Doomed run.lease.versionId :=
    fun run hrun ↦ .leased run hrun rfl
  cases action with
  | tick elapsed =>
    exact h.others hinv (.of_rows rfl rfl rfl fun _ hversion _ ↦ .inl hversion)
      (fun _ _ ↦ .inl) hcleanups
  | claim locked duration ending => exact h.claim locked duration ending hinv
  | claimCleanup locked duration ending => exact h.claimCleanup locked duration ending hinv
  | lease index action =>
    rw [ArtifactSystem.step.eq_def] at hinv ⊢
    dsimp only at hinv ⊢
    cases hrun : s.leases[index]? with
    | none => exact h
    | some run =>
      rw [hrun] at hinv
      have hmem := List.mem_of_getElem? hrun
      refine h.worker hrun hinv ?_ ?_
      · exact (leaseRun_step content h.inv.corresponds (h.inv.leases run hmem) action).2.2
      · refine copies_leaseStep h.inv.corresponds (h.inv.leases run hmem) (h.copies run hmem)
          h.staged (h.offered run hmem) (fun target ↦ .disposed run hmem) action ?_
        rintro answer rfl hstarted
        exact hclear run hrun hstarted
  | cleanup index action =>
    rw [ArtifactSystem.step.eq_def] at hinv ⊢
    dsimp only at hinv ⊢
    cases hrun : s.cleanups[index]? with
    | none => exact h
    | some run =>
      rw [hrun] at hinv
      have hdoomed := hcleanups run (List.mem_of_getElem? hrun)
      have hstep (published : Option ArtifactVersion → Prop) :
          Leaves s.Doomed published s.world (run.step s.world action).1 ∧ _ :=
        leaves_cleanupStep run s.world hdoomed action
      obtain ⟨hleaves, hlease⟩ := hstep (· = none)
      refine h.others hinv hleaves (fun _ _ ↦ .inl) fun other hother ↦ ?_
      rcases List.mem_or_eq_of_mem_set hother with hother | rfl
      · exact hcleanups other hother
      · exact hlease ▸ hdoomed
  | land index =>
    rw [ArtifactSystem.step.eq_def] at hinv ⊢
    dsimp only at hinv ⊢
    cases hcall : s.world.loose[index]? with
    | none => exact h
    | some call =>
      rw [hcall] at hinv
      refine h.land hcall ?_ hinv
      rintro leaseToken source target etag rfl
      exact hclear leaseToken source target etag hcall

/-- The steps of a run are clear. -/
def AllClear (content : Content) : ArtifactSystem → List ArtifactAction → Prop
  | _, [] => True
  | s, action :: rest => s.Clear content action ∧ AllClear content (s.step content action) rest

theorem KeepInv.run (h : s.KeepInv content origin) {actions : List ArtifactAction}
    (hclear : s.AllClear content actions) : (s.run content actions).KeepInv content origin := by
  induction actions generalizing s with
  | nil => exact h
  | cons action actions ih => exact ih (h.step action hclear.1) hclear.2

theorem keepInv_start (content : Content) (uploads : Uploads) (store : ObjectStore) (now : Instant)
    (nextUuid : Uuid) : (start uploads store now nextUuid).KeepInv content store := by
  have hdoomed (target : Uuid) (h : (start uploads store now nextUuid).Doomed target) : False := by
    cases h with
    | enqueued row hrow heq | leased row hrow heq | disposed row hrow heq => simp [start] at hrow
    | loose key hmem => simp [start] at hmem
  refine ⟨inv_start uploads store now nextUuid, fun _ _ ↦ id,
    fun target h ↦ (hdoomed target h).elim, by simp [start], by simp [start], by simp [start], fun version hversion hclean ↦ ?_⟩
  obtain ⟨upload, hupload, rfl⟩ := List.mem_map.mp hversion
  rw [upload.pending] at hclean
  simp at hclean

/-- A clean artifact keeps its bytes, and what is copied and not published is given up. -/
structure KeepsBytes (content : Content) (s : ArtifactSystem) : Prop where
  clean : ∀ version ∈ s.world.db.versions, version.scanStatus = .clean →
    ∃ key ∈ version.objectKey, ∃ object ∈ s.world.store.versions, object.key = .artifact key ∧
      ∃ bytes ∈ object.body, content.sha256 bytes = version.sha256
  disposed : ∀ run ∈ s.leases, ∀ error, run.processor.point = .ended error →
    run.processor.published = false → run.processor.abandoned = false →
    ∀ target ∈ run.processor.copied, Disposed s.world target

theorem KeepInv.keepsBytes (h : s.KeepInv content origin) : s.KeepsBytes content where
  clean version hversion hclean := by
    obtain ⟨key, hkey, target, ⟨bytes, hobject, hsha⟩, -, -⟩ := h.clean version hversion hclean
    exact ⟨key, hkey, _, hobject, rfl, bytes, rfl, hsha⟩
  disposed run hrun error hpoint hpublished habandoned := by
    have hended := (h.copies run hrun).point
    rw [hpoint] at hended
    rcases hended with heq | heq | hdisposed
    · simp [hpublished] at heq
    · simp [habandoned] at heq
    · exact hdisposed

/-- **A clean artifact keeps its bytes** in every run whose steps are clear. -/
theorem run_keepsBytes (content : Content) (uploads : Uploads) (store : ObjectStore)
    (now : Instant) (nextUuid : Uuid) (actions : List ArtifactAction)
    (hclear : (start uploads store now nextUuid).AllClear content actions) :
    ((start uploads store now nextUuid).run content actions).KeepsBytes content :=
  ((keepInv_start content uploads store now nextUuid).run hclear).keepsBytes

/-- What comes back tells what has happened. -/
def Certain : ArtifactAction → Prop
  | .lease _ (.process (.transaction (.raisedAfter _) _))
  | .lease _ (.process (.gateway (.failed _ true)))
  | .land _ => False
  | _ => True

theorem clear_of_certain {action : ArtifactAction} (h : Certain action) (s : ArtifactSystem) :
    s.Clear content action := by
  rw [Clear.eq_def]
  split
  case h_1 index answer =>
    intro run _ _
    rw [ProcessClear.eq_def]
    split
    case h_1 | h_2 => exact h.elim
    case h_3 => trivial
  case h_2 => exact h.elim
  case h_3 => trivial

theorem allClear_of_certain {actions : List ArtifactAction}
    (h : ∀ action ∈ actions, Certain action) : s.AllClear content actions := by
  induction actions generalizing s with
  | nil => trivial
  | cons action actions ih =>
    exact ⟨clear_of_certain (h action List.mem_cons_self) s,
      ih fun other hother ↦ h other (List.mem_cons_of_mem _ hother)⟩

/-! ### An upload of one worker -/

/-- All bytes have the same hash. -/
def plainContent : Content := ⟨fun _ ↦ "hash", fun _ ↦ "etag", fun _ ↦ "text/plain"⟩

def oneUpload : Uploads where
  list := [{
    job := {
      id := 1
      versionId := 2
      status := .ready
      attempts := 0
      nextAttemptAt := 0
      leaseToken := none
      leaseExpiresAt := none
      failureCode := none }
    version := {
      id := 2
      artifactId := 3
      uploadedById := 4
      actualSize := some 0
      detectedContentType := none
      scanStatus := .pending
      stagingKey := some 5
      stagingEtag := some "etag"
      objectKey := none
      sha256 := "hash" }
    owner := rfl
    status := rfl
    attempts := rfl
    token := rfl
    pending := rfl }]
  jobs := by simp
  versions := by simp

def oneObject : ObjectStore := ObjectStore.put ⟨[], 0, by simp⟩ (.staging 5) (some [])

/-- A worker, up to the copy. -/
def untilCopied (copied : GatewayAnswer) : List ArtifactAction :=
  [.claim [] (seconds 30) .committed, .lease 0 (.supervise .resolved)] ++
    [.transaction .committed none, .gateway .ok, .gateway .ok, .verdict .clean true, .gateway .ok,
      .gateway .ok, .gateway copied].map fun answer ↦ .lease 0 (.process answer)

/-- The publication raises before it is committed, and the copy is left to a cleanup job. -/
def givenUpRun : List ArtifactAction :=
  untilCopied .ok ++ [.transaction (.raisedBefore .other) none, .gateway (.failed .s3 false),
    .transaction .committed none].map fun answer ↦ .lease 0 (.process answer)

theorem run_keepsBytes_givenUpRun :
    ((start oneUpload oneObject 0 6).run plainContent givenUpRun).KeepsBytes plainContent := by
  refine run_keepsBytes plainContent oneUpload oneObject 0 6 givenUpRun ?_
  exact allClear_of_certain (by simp [givenUpRun, untilCopied, Certain])

/-- The publication is committed, and then its connection is lost. -/
def ambiguousRun : List ArtifactAction :=
  untilCopied .ok ++ [.transaction (.raisedAfter .os) none, .gateway .ok].map fun answer ↦
    .lease 0 (.process answer)

/-- The copy takes effect, and its answer is lost; the job is released. -/
def orphanRun : List ArtifactAction :=
  untilCopied (.failed .s3 true) ++ [.lease 0 (.process (.transaction .committed none))]

/-- **A clean artifact may lose its bytes**, and a copy its owner. -/
theorem not_keepsBytes :
    ¬ ((start oneUpload oneObject 0 6).run plainContent ambiguousRun).KeepsBytes plainContent ∧
      ¬ ((start oneUpload oneObject 0 6).run plainContent orphanRun).KeepsBytes plainContent := by
  refine ⟨fun h ↦ ?_, fun h ↦ ?_⟩
  · have hclean : (((start oneUpload oneObject 0 6).run plainContent
        ambiguousRun).world.db.versions.map (·.scanStatus)) = [.clean] := by decide +kernel
    have hstore : (((start oneUpload oneObject 0 6).run plainContent
        ambiguousRun).world.store.versions.map (·.key)) = [.staging 5] := by decide +kernel
    obtain ⟨version, hversion, hstatus⟩ := List.mem_map.mp (hclean ▸ List.mem_singleton_self _)
    obtain ⟨key, -, object, hobject, hkey, -⟩ := h.clean version hversion hstatus
    have hmem : object.key ∈ [ObjectKey.staging 5] := hstore ▸ List.mem_map_of_mem hobject
    simp [hkey] at hmem
  · have hended : (((start oneUpload oneObject 0 6).run plainContent
        orphanRun).leases.map fun run ↦ (run.processor.point.outcome?, run.processor.published,
          run.processor.abandoned, run.processor.copied)) = [(some none, false, false, [1])] := by
      decide +kernel
    have hstore : (((start oneUpload oneObject 0 6).run plainContent
        orphanRun).world.store.versions.map (·.versionId)) = [0, 1] := by decide +kernel
    have hcleanups : (((start oneUpload oneObject 0 6).run plainContent
        orphanRun).world.db.cleanups.map (·.id)) = [] := by decide +kernel
    obtain ⟨run, hrun, heq⟩ := List.mem_map.mp (hended ▸ List.mem_singleton_self _)
    obtain ⟨hpoint, hpublished, habandoned, hcopied⟩ : _ ∧ _ ∧ _ ∧ _ := by simpa using heq
    obtain ⟨object, hobject, hid⟩ : ∃ object ∈ ((start oneUpload oneObject 0 6).run plainContent
        orphanRun).world.store.versions, object.versionId = 1 := by
      refine List.mem_map.mp (hstore ▸ ?_)
      simp
    obtain ⟨row, hrow, -⟩ := h.disposed run hrun none (outcome?_eq_some_none hpoint) hpublished
      habandoned 1 (by simp [hcopied]) object hobject hid
    rw [List.map_eq_nil_iff.mp hcleanups] at hrow
    simp at hrow

end ArtifactSystem

end XxAgent.Artifacts
