import XxAgent.Skills.Moves

/-!
# What a revision denotes

The draft of a skill, its runs and its versions carry the revision and the digest of a content. One
revision has one digest, since a draft that is changed gets a revision that nothing names yet.
-/

namespace XxAgent.Skills

open Accounts Sql

variable {canonicalSha256 : CanonicalSha256} {db db' : SkillTables}

/-- A revision of a skill is named with a digest. -/
inductive Denotes (db : SkillTables) : Uuid → ℕ → String → Prop where
  | draft (draft : BusinessSkillDraft) (mem : draft ∈ db.drafts) :
      Denotes db draft.skillId draft.revision draft.contentDigest
  | run (run : BusinessSkillTestRun) (mem : run ∈ db.runs) :
      Denotes db run.skillId run.draftRevision run.contentDigest
  | version (version : BusinessSkillVersion) (mem : version ∈ db.versions) :
      Denotes db version.skillId version.sourceDraftRevision version.contentDigest

/-! ## Names -/

variable {skillId : Uuid} {revision : ℕ} {digest : String}

theorem Denotes.of_eq (h : Denotes db' skillId revision digest) (hdrafts : db'.drafts = db.drafts)
    (hruns : db'.runs = db.runs) (hversions : db'.versions = db.versions) :
    Denotes db skillId revision digest := by
  cases h with
  | draft draft hmem => exact .draft draft (hdrafts ▸ hmem)
  | run run hmem => exact .run run (hruns ▸ hmem)
  | version version hmem => exact .version version (hversions ▸ hmem)

/-- A run is written over by one that tests the same. -/
theorem Denotes.of_setRun {run run' : BusinessSkillTestRun}
    (h : Denotes (db.setRun run') skillId revision digest) (hmem : run ∈ db.runs)
    (hid : run'.id = run.id) (hskillId : run'.skillId = run.skillId)
    (hrevision : run'.draftRevision = run.draftRevision)
    (hdigest : run'.contentDigest = run.contentDigest) : Denotes db skillId revision digest := by
  cases h with
  | draft draft hdraft => exact .draft draft hdraft
  | run row hrow =>
    rcases of_mem_setRun hrow hmem hid with rfl | ⟨hold, -⟩
    · rw [hskillId, hrevision, hdigest]
      exact .run run hmem
    · exact .run row hold
  | version version hversion => exact .version version hversion

theorem Denotes.of_setDraft {draft draft' : BusinessSkillDraft}
    (h : Denotes (db.setDraft draft') skillId revision digest) (hmem : draft ∈ db.drafts)
    (hskillId : draft'.skillId = draft.skillId) :
    Denotes db skillId revision digest ∨ skillId = draft'.skillId ∧ revision = draft'.revision ∧
      digest = draft'.contentDigest := by
  cases h with
  | draft row hrow =>
    rcases of_mem_setDraft hrow hmem hskillId with rfl | ⟨hold, -⟩
    · exact Or.inr ⟨rfl, rfl, rfl⟩
    · exact Or.inl (.draft row hold)
  | run run hrun => exact Or.inl (.run run hrun)
  | version version hversion => exact Or.inl (.version version hversion)

theorem Denotes.of_addDraft {draft : BusinessSkillDraft} (h : Denotes db' skillId revision digest)
    (hdrafts : db'.drafts = db.drafts ++ [draft]) (hruns : db'.runs = db.runs)
    (hversions : db'.versions = db.versions) :
    Denotes db skillId revision digest ∨ skillId = draft.skillId ∧ revision = draft.revision ∧
      digest = draft.contentDigest := by
  cases h with
  | draft row hrow =>
    rw [hdrafts] at hrow
    rcases List.mem_append.mp hrow with hold | hlast
    · exact Or.inl (.draft row hold)
    · exact Or.inr (List.mem_singleton.mp hlast ▸ ⟨rfl, rfl, rfl⟩)
  | run run hrun => exact Or.inl (.run run (hruns ▸ hrun))
  | version version hversion => exact Or.inl (.version version (hversions ▸ hversion))

/-- A version that is published names what its draft names. -/
theorem Denotes.of_addVersion {skill : BusinessSkill} {draft : BusinessSkillDraft}
    {version : BusinessSkillVersion} (h : Denotes db' skillId revision digest)
    (hmem : draft ∈ db.drafts) (hof : draft.skillId = skill.id)
    (hpublishes : Publishes skill draft version) (hdrafts : db'.drafts = db.drafts)
    (hruns : db'.runs = db.runs) (hversions : db'.versions = db.versions ++ [version]) :
    Denotes db skillId revision digest := by
  cases h with
  | draft row hrow => exact .draft row (hdrafts ▸ hrow)
  | run row hrow => exact .run row (hruns ▸ hrow)
  | version row hrow =>
    rw [hversions] at hrow
    rcases List.mem_append.mp hrow with hold | hlast
    · exact .version row hold
    · rw [List.mem_singleton.mp hlast, hpublishes.contentDigest, hpublishes.sourceDraftRevision,
        hpublishes.skillId, ← hof]
      exact .draft draft hmem

/-- A run that is started names what its draft names. -/
theorem Denotes.of_addRun {skill : BusinessSkill} {draft : BusinessSkillDraft}
    {session : XAgentSession} {run : BusinessSkillTestRun}
    (h : Denotes db' skillId revision digest) (hmem : draft ∈ db.drafts)
    (hof : draft.skillId = skill.id) (htests : Tests skill draft session run)
    (hdrafts : db'.drafts = db.drafts) (hruns : db'.runs = db.runs ++ [run])
    (hversions : db'.versions = db.versions) :
    Denotes db skillId revision digest := by
  cases h with
  | draft row hrow => exact .draft row (hdrafts ▸ hrow)
  | run row hrow =>
    rw [hruns] at hrow
    rcases List.mem_append.mp hrow with hold | hlast
    · exact .run row hold
    · rw [List.mem_singleton.mp hlast, htests.contentDigest, htests.draftRevision, htests.skillId,
        ← hof]
      exact .draft draft hmem
  | version row hrow => exact .version row (hversions ▸ hrow)

/-! ## Lineage -/

structure Lineage (canonicalSha256 : CanonicalSha256) (db : SkillTables) : Prop where
  skillIds : Keyed (·.id) db.skills
  skills_lt : ∀ skill ∈ db.skills, skill.id < db.nextUuid
  draftIds : Keyed (·.skillId) db.drafts
  drafts_lt : ∀ draft ∈ db.drafts, draft.skillId < db.nextUuid
  drafts : ∀ draft ∈ db.drafts,
    draft.contentDigest = businessSkillContentDigest canonicalSha256 draft.content
  versions : ∀ version ∈ db.versions,
    version.contentDigest = businessSkillContentDigest canonicalSha256 version.content
  coherent : ∀ ⦃skillId revision digest digest'⦄, Denotes db skillId revision digest →
    Denotes db skillId revision digest' → digest = digest'
  bounded : ∀ ⦃skillId revision digest⦄, Denotes db skillId revision digest →
    ∃ draft ∈ db.drafts, draft.skillId = skillId ∧ revision ≤ draft.revision

/-- Tables whose drafts stay and that name nothing new. -/
theorem Lineage.of_denotes (h : Lineage canonicalSha256 db)
    (hskillIds : Keyed (·.id) db'.skills) (hskills : ∀ skill ∈ db'.skills, skill.id < db'.nextUuid)
    (hdrafts : db'.drafts = db.drafts) (hnext : db.nextUuid ≤ db'.nextUuid)
    (hversions : ∀ version ∈ db'.versions,
      version.contentDigest = businessSkillContentDigest canonicalSha256 version.content)
    (hdenotes : ∀ ⦃skillId revision digest⦄, Denotes db' skillId revision digest →
      Denotes db skillId revision digest) : Lineage canonicalSha256 db' where
  skillIds := hskillIds
  skills_lt := hskills
  draftIds := hdrafts ▸ h.draftIds
  drafts_lt draft hdraft := (h.drafts_lt draft (hdrafts ▸ hdraft)).trans_le hnext
  drafts := hdrafts ▸ h.drafts
  versions := hversions
  coherent _ _ _ _ hdenotes₁ hdenotes₂ := h.coherent (hdenotes hdenotes₁) (hdenotes hdenotes₂)
  bounded _ _ _ hdenotes₁ := by
    rw [hdrafts]
    exact h.bounded (hdenotes hdenotes₁)

/-- Tables whose drafts, runs and versions stay. -/
theorem Lineage.of_eq (h : Lineage canonicalSha256 db) (hskillIds : Keyed (·.id) db'.skills)
    (hskills : ∀ skill ∈ db'.skills, skill.id < db'.nextUuid) (hdrafts : db'.drafts = db.drafts)
    (hversions : db'.versions = db.versions) (hruns : db'.runs = db.runs)
    (hnext : db.nextUuid ≤ db'.nextUuid) : Lineage canonicalSha256 db' := by
  refine h.of_denotes hskillIds hskills hdrafts hnext (hversions ▸ h.versions) ?_
  exact fun _ _ _ hdenotes ↦ hdenotes.of_eq hdrafts hruns hversions

/-- A skill is written over. -/
theorem Lineage.setSkill (h : Lineage canonicalSha256 db) {skill skill' : BusinessSkill}
    (hmem : skill ∈ db.skills) (hid : skill'.id = skill.id) :
    Lineage canonicalSha256 (db.setSkill skill') := by
  refine h.of_eq (h.skillIds.update fun _ _ hrow ↦ (of_decide_eq_true hrow).symm) ?_ rfl rfl rfl
    le_rfl
  intro row hrow
  rcases of_mem_setSkill hrow hmem hid with rfl | ⟨hold, -⟩
  · exact hid ▸ h.skills_lt skill hmem
  · exact h.skills_lt row hold

theorem Lineage.setRun (h : Lineage canonicalSha256 db) {run run' : BusinessSkillTestRun}
    (hmem : run ∈ db.runs) (hid : run'.id = run.id) (hskillId : run'.skillId = run.skillId)
    (hrevision : run'.draftRevision = run.draftRevision)
    (hdigest : run'.contentDigest = run.contentDigest) :
    Lineage canonicalSha256 (db.setRun run') := by
  refine h.of_denotes h.skillIds h.skills_lt rfl le_rfl h.versions ?_
  exact fun _ _ _ hdenotes ↦ hdenotes.of_setRun hmem hid hskillId hrevision hdigest

/-- The revision behind that of a draft is named nowhere. -/
theorem Lineage.not_denotes_succ (h : Lineage canonicalSha256 db) {draft : BusinessSkillDraft}
    (hmem : draft ∈ db.drafts) (hdenotes : Denotes db draft.skillId (draft.revision + 1) digest) :
    False := by
  obtain ⟨other, hother, hof, hle⟩ := h.bounded hdenotes
  rw [h.draftIds.eq_of_mem hother hmem hof] at hle
  exact Nat.not_succ_le_self _ hle

/-- A skill that is created has no past. -/
theorem Lineage.not_denotes_next (h : Lineage canonicalSha256 db)
    (hdenotes : Denotes db db.nextUuid revision digest) : False := by
  obtain ⟨other, hother, hof, -⟩ := h.bounded hdenotes
  exact (h.drafts_lt other hother).ne hof

/-- A draft that is changed has a revision that nothing names yet. -/
theorem Lineage.reviseDraft (h : Lineage canonicalSha256 db) {draft : BusinessSkillDraft}
    (hmem : draft ∈ db.drafts) (content : SkillContent) (editedById : Uuid) :
    Lineage canonicalSha256 (db.setDraft { draft with
      revision := draft.revision + 1, content := content
      contentDigest := businessSkillContentDigest canonicalSha256 content
      editedById := editedById }) := by
  set revised : BusinessSkillDraft := { draft with
    revision := draft.revision + 1, content := content
    contentDigest := businessSkillContentDigest canonicalSha256 content
    editedById := editedById } with hrevised
  have hdrafts (row : BusinessSkillDraft) : row ∈ (db.setDraft revised).drafts ↔
      row = revised ∨ row ∈ db.drafts ∧ row.skillId ≠ draft.skillId :=
    mem_replace BusinessSkillDraft.skillId ⟨draft, hmem, rfl⟩
  have hdenotes {skillId : Uuid} {revision : ℕ} {digest : String}
      (hdenotes : Denotes (db.setDraft revised) skillId revision digest) :
      Denotes db skillId revision digest ∨
        skillId = draft.skillId ∧ revision = draft.revision + 1 ∧
          digest = businessSkillContentDigest canonicalSha256 content :=
    hdenotes.of_setDraft hmem rfl
  refine ⟨h.skillIds, h.skills_lt, h.draftIds.update fun _ _ hrow ↦ (of_decide_eq_true hrow).symm,
    ?_, ?_, h.versions, ?_, ?_⟩
  · intro row hrow
    rcases (hdrafts row).mp hrow with rfl | ⟨hold, -⟩
    · exact h.drafts_lt draft hmem
    · exact h.drafts_lt row hold
  · intro row hrow
    rcases (hdrafts row).mp hrow with rfl | ⟨hold, -⟩
    · rfl
    · exact h.drafts row hold
  · intro skillId revision digest digest' h₁ h₂
    rcases hdenotes h₁ with hold₁ | ⟨rfl, rfl, rfl⟩
    · rcases hdenotes h₂ with hold₂ | ⟨rfl, rfl, rfl⟩
      · exact h.coherent hold₁ hold₂
      · exact (h.not_denotes_succ hmem hold₁).elim
    · rcases hdenotes h₂ with hold₂ | ⟨-, -, rfl⟩
      · exact (h.not_denotes_succ hmem hold₂).elim
      · rfl
  · intro skillId revision digest h₁
    rcases hdenotes h₁ with hold | ⟨rfl, rfl, -⟩
    · obtain ⟨other, hother, rfl, hle⟩ := h.bounded hold
      by_cases hskillId : other.skillId = draft.skillId
      · rw [h.draftIds.eq_of_mem hother hmem hskillId] at hle ⊢
        exact ⟨revised, (hdrafts revised).mpr (Or.inl rfl), rfl, Nat.le_succ_of_le hle⟩
      · exact ⟨other, (hdrafts other).mpr (Or.inr ⟨hother, hskillId⟩), rfl, hle⟩
    · exact ⟨revised, (hdrafts revised).mpr (Or.inl rfl), rfl, le_rfl⟩

theorem Lineage.create (h : Lineage canonicalSha256 db) {skill : BusinessSkill}
    {draft : BusinessSkillDraft} (hid : skill.id = db.nextUuid)
    (hskillId : draft.skillId = skill.id)
    (hdigest : draft.contentDigest = businessSkillContentDigest canonicalSha256 draft.content) :
    Lineage canonicalSha256 { db with
      skills := db.skills ++ [skill], drafts := db.drafts ++ [draft]
      nextUuid := db.nextUuid + 1 } := by
  have hof : draft.skillId = db.nextUuid := hskillId.trans hid
  have hdenotes {skillId : Uuid} {revision : ℕ} {digest : String}
      (hdenotes : Denotes { db with
        skills := db.skills ++ [skill], drafts := db.drafts ++ [draft]
        nextUuid := db.nextUuid + 1 } skillId revision digest) :
      Denotes db skillId revision digest ∨
        skillId = draft.skillId ∧ revision = draft.revision ∧ digest = draft.contentDigest :=
    hdenotes.of_addDraft rfl rfl rfl
  refine ⟨h.skillIds.concat fun row hrow ↦ ?_, ?_, h.draftIds.concat fun row hrow ↦ ?_, ?_, ?_,
    h.versions, ?_, ?_⟩
  · exact hid ▸ (h.skills_lt row hrow).ne
  · intro row hrow
    rcases List.mem_append.mp hrow with hold | hlast
    · exact Nat.lt_succ_of_lt (h.skills_lt row hold)
    · rw [List.mem_singleton.mp hlast, hid]
      exact Nat.lt_succ_self _
  · rw [hof]
    exact (h.drafts_lt row hrow).ne
  · intro row hrow
    rcases List.mem_append.mp hrow with hold | hlast
    · exact Nat.lt_succ_of_lt (h.drafts_lt row hold)
    · rw [List.mem_singleton.mp hlast, hof]
      exact Nat.lt_succ_self _
  · intro row hrow
    rcases List.mem_append.mp hrow with hold | hlast
    · exact h.drafts row hold
    · exact List.mem_singleton.mp hlast ▸ hdigest
  · intro skillId revision digest digest' h₁ h₂
    rcases hdenotes h₁ with hold₁ | ⟨rfl, rfl, rfl⟩
    · rcases hdenotes h₂ with hold₂ | ⟨rfl, rfl, rfl⟩
      · exact h.coherent hold₁ hold₂
      · exact (h.not_denotes_next (hof ▸ hold₁)).elim
    · rcases hdenotes h₂ with hold₂ | ⟨-, -, rfl⟩
      · exact (h.not_denotes_next (hof ▸ hold₂)).elim
      · rfl
  · intro skillId revision digest h₁
    rcases hdenotes h₁ with hold | ⟨rfl, rfl, -⟩
    · obtain ⟨other, hother, hle⟩ := h.bounded hold
      exact ⟨other, List.mem_append_left _ hother, hle⟩
    · exact ⟨draft, List.mem_append_right _ List.mem_cons_self, rfl, le_rfl⟩

theorem Lineage.move (h : Lineage canonicalSha256 db) (hmove : Moves canonicalSha256 db db') :
    Lineage canonicalSha256 db' := by
  cases hmove with
  | converse session => exact h.of_eq h.skillIds (fun skill hskill ↦
      Nat.lt_succ_of_lt (h.skills_lt skill hskill)) rfl rfl rfl (Nat.le_succ _)
  | create skill draft id _ _ skillId digest => exact h.create id skillId digest
  | reviseDraft skill draft content editedById _ _ _ draftMem =>
    exact h.reviseDraft draftMem content editedById
  | relabel skill displayName mem => exact h.setSkill mem rfl
  | addVersion skill draft run version _ _ skillId draftMem _ _ publishes =>
    refine h.of_denotes h.skillIds (fun skill hskill ↦ Nat.lt_succ_of_lt (h.skills_lt skill hskill))
      rfl (Nat.le_succ _) ?_ ?_
    · intro row hrow
      rcases List.mem_append.mp hrow with hold | hlast
      · exact h.versions row hold
      · rw [List.mem_singleton.mp hlast, publishes.contentDigest, publishes.content]
        exact h.drafts draft draftMem
    · exact fun _ _ _ hdenotes ↦ hdenotes.of_addVersion draftMem skillId publishes rfl rfl rfl
  | select skill version mem => exact h.setSkill mem rfl
  | authorize => exact h.of_eq h.skillIds h.skills_lt rfl rfl rfl le_rfl
  | unauthorize => exact h.of_eq h.skillIds h.skills_lt rfl rfl rfl le_rfl
  | review skill run verdict verdictById _ _ _ runMem => exact h.setRun runMem rfl rfl rfl rfl
  | retire skill mem => exact h.setSkill mem rfl
  | start skill draft session run _ _ skillId draftMem _ _ _ tests =>
    refine h.of_denotes h.skillIds (fun skill hskill ↦ (h.skills_lt skill hskill).trans (by simp))
      rfl (Nat.le_add_right _ _) h.versions ?_
    exact fun _ _ _ hdenotes ↦ hdenotes.of_addRun draftMem skillId tests rfl rfl rfl
  | settle run reason runMem => exact h.setRun runMem rfl rfl rfl rfl
  | append => exact h.of_eq h.skillIds h.skills_lt rfl rfl rfl le_rfl

theorem lineage_start : Lineage canonicalSha256 {} := by
  refine ⟨List.nodup_nil, ?_, List.nodup_nil, ?_, ?_, ?_, ?_, ?_⟩
  case refine_5 =>
    intro skillId revision digest digest' hdenotes
    cases hdenotes with
    | draft _ hmem | run _ hmem | version _ hmem => cases hmem
  case refine_6 =>
    intro skillId revision digest hdenotes
    cases hdenotes with
    | draft _ hmem | run _ hmem | version _ hmem => cases hmem
  all_goals
    intro row hrow
    cases hrow

/-!
## Numbers and authorizations

The versions of a project are numbered 1, 2, 3, ..., and so are its runs. What is authorized is an
active skill whose current version is its own.
-/

variable {projectId : Uuid}

/-! ## Numbers -/

structure Numbering (db : SkillTables) : Prop where
  versions : ∀ projectId, db.versionNumbers projectId
    = List.range' 1 (db.versionNumbers projectId).length
  runs : ∀ projectId, db.runNumbers projectId = List.range' 1 (db.runNumbers projectId).length

theorem lastNumber_concat (numbers : List ℕ) (number : ℕ) :
    lastNumber (numbers ++ [number]) = max (lastNumber numbers) number := by
  induction numbers with
  | nil => simp [lastNumber]
  | cons first numbers ih =>
    rw [lastNumber] at ih ⊢
    rw [List.cons_append, List.foldr_cons, ih, lastNumber, lastNumber, List.foldr_cons,
      Nat.max_assoc]

theorem lastNumber_range' (n : ℕ) : lastNumber (List.range' 1 n) = n := by
  induction n with
  | zero => rfl
  | succ n ih =>
    rw [List.range'_concat, lastNumber_concat, ih]
    omega

/-- The number behind the last one. -/
theorem range'_concat_lastNumber {numbers : List ℕ}
    (h : numbers = List.range' 1 numbers.length) :
    numbers ++ [lastNumber numbers + 1]
      = List.range' 1 (numbers ++ [lastNumber numbers + 1]).length := by
  have hlast : lastNumber numbers = numbers.length := by
    rw [h, lastNumber_range', List.length_range']
  rw [List.length_append, List.length_singleton, List.range'_concat, ← h, hlast, Nat.one_mul,
    Nat.add_comm 1]

theorem versionNumbers_concat {version : BusinessSkillVersion}
    (h : db'.versions = db.versions ++ [version]) :
    db'.versionNumbers projectId = if version.projectId = projectId then
      db.versionNumbers projectId ++ [version.versionNumber] else db.versionNumbers projectId := by
  rw [SkillTables.versionNumbers, h, List.filter_append, List.map_append, List.filter_singleton]
  split_ifs with hof
  · rw [decide_eq_true hof]
    rfl
  · rw [decide_eq_false hof, cond_false, List.map_nil, List.append_nil]
    rfl

theorem runNumbers_concat {run : BusinessSkillTestRun} (h : db'.runs = db.runs ++ [run]) :
    db'.runNumbers projectId = if run.projectId = projectId then
      db.runNumbers projectId ++ [run.runNumber] else db.runNumbers projectId := by
  rw [SkillTables.runNumbers, h, List.filter_append, List.map_append, List.filter_singleton]
  split_ifs with hof
  · rw [decide_eq_true hof]
    rfl
  · rw [decide_eq_false hof, cond_false, List.map_nil, List.append_nil]
    rfl

theorem runNumbers_eq : db.runNumbers projectId
    = ((db.runs.map fun run ↦ (run.projectId, run.runNumber)).filter
      fun row ↦ decide (row.1 = projectId)).map Prod.snd := by
  rw [List.filter_map, List.map_map]
  rfl

theorem Numbering.of_eq (h : Numbering db) (hversions : db'.versions = db.versions)
    (hruns : (db'.runs.map fun run ↦ (run.projectId, run.runNumber))
      = db.runs.map fun run ↦ (run.projectId, run.runNumber)) : Numbering db' where
  versions projectId := by
    rw [SkillTables.versionNumbers, hversions]
    exact h.versions projectId
  runs projectId := by
    rw [runNumbers_eq, hruns, ← runNumbers_eq]
    exact h.runs projectId

/-- A run is written over by one with its number. -/
theorem Numbering.setRun (h : Numbering db) (hids : Keyed (·.id) db.runs)
    {run run' : BusinessSkillTestRun} (hmem : run ∈ db.runs) (hid : run'.id = run.id)
    (hprojectId : run'.projectId = run.projectId) (hnumber : run'.runNumber = run.runNumber) :
    Numbering (db.setRun run') := by
  refine h.of_eq rfl (map_key_update fun row hrow hkey ↦ ?_)
  rw [hids.eq_of_mem hrow hmem ((of_decide_eq_true hkey).trans hid), hprojectId, hnumber]

theorem Numbering.move (h : Numbering db) (hids : Keyed (·.id) db.runs)
    (hmove : Moves canonicalSha256 db db') : Numbering db' := by
  cases hmove with
  | addVersion skill draft run version _ _ _ _ _ _ _ _ number =>
    refine ⟨fun projectId ↦ ?_, h.runs⟩
    have hadded : { db with versions := db.versions ++ [version]
                            nextUuid := db.nextUuid + 1 }.versions = db.versions ++ [version] := rfl
    rw [versionNumbers_concat hadded]
    split_ifs with hof
    · subst hof
      rw [number]
      exact range'_concat_lastNumber (h.versions _)
    · exact h.versions projectId
  | start skill draft session run _ _ _ _ _ _ _ _ _ number =>
    refine ⟨h.versions, fun projectId ↦ ?_⟩
    have hadded : { db with sessions := db.sessions ++ [session], runs := db.runs ++ [run]
                            nextUuid := db.nextUuid + 2 }.runs = db.runs ++ [run] := rfl
    rw [runNumbers_concat hadded]
    split_ifs with hof
    · subst hof
      rw [number]
      exact range'_concat_lastNumber (h.runs _)
    · exact h.runs projectId
  | review skill run verdict verdictById _ _ _ runMem => exact h.setRun hids runMem rfl rfl rfl
  | settle run reason runMem => exact h.setRun hids runMem rfl rfl rfl
  | converse | create | reviseDraft | relabel | select | authorize | unauthorize | retire
  | append => exact h.of_eq rfl rfl

/-! ## Authorizations -/

structure Authorized (db : SkillTables) : Prop where
  current : ∀ skill ∈ db.skills, ∀ id ∈ skill.currentVersionId,
    ∃ version ∈ db.versions, version.id = id ∧ version.skillId = skill.id
  authorizations : ∀ authorization ∈ db.authorizations, ∃ skill ∈ db.skills,
    skill.id = authorization.skillId ∧ skill.status = .active ∧ skill.currentVersionId ≠ none
  once : Keyed (·.skillId) db.authorizations

theorem Authorized.of_eq (h : Authorized db) (hskills : db'.skills = db.skills)
    (hversions : db'.versions = db.versions) (hauthorizations : db'.authorizations
      = db.authorizations) : Authorized db' where
  current := by
    rw [hskills, hversions]
    exact h.current
  authorizations := by
    rw [hskills, hauthorizations]
    exact h.authorizations
  once := hauthorizations ▸ h.once

/-- A skill is written over by one that keeps its authorization. -/
theorem Authorized.setSkill (h : Authorized db) (hids : Keyed (·.id) db.skills)
    {skill skill' : BusinessSkill} (hmem : skill ∈ db.skills) (hid : skill'.id = skill.id)
    (hcurrent : ∀ id ∈ skill'.currentVersionId,
      ∃ version ∈ db.versions, version.id = id ∧ version.skillId = skill.id)
    (hauthorized : (∃ row ∈ db.authorizations, row.skillId = skill.id) →
      skill.currentVersionId ≠ none → skill'.status = .active ∧ skill'.currentVersionId ≠ none) :
    Authorized (db.setSkill skill') := by
  have hskills (row : BusinessSkill) : row ∈ (db.setSkill skill').skills ↔
      row = skill' ∨ row ∈ db.skills ∧ row.id ≠ skill'.id :=
    mem_replace BusinessSkill.id ⟨skill, hmem, hid.symm⟩
  refine ⟨?_, ?_, h.once⟩
  · intro row hrow
    rcases (hskills row).mp hrow with rfl | ⟨hold, -⟩
    · rw [hid]
      exact hcurrent
    · exact h.current row hold
  · intro authorization hauthorization
    obtain ⟨row, hrow, hof, hactive, hversion⟩ := h.authorizations authorization hauthorization
    by_cases hsame : row.id = skill'.id
    · have heq := hids.eq_of_mem hrow hmem (hsame.trans hid)
      rw [heq] at hof hversion
      exact ⟨skill', (hskills skill').mpr (Or.inl rfl), hid.trans hof,
        hauthorized ⟨authorization, hauthorization, hof.symm⟩ hversion⟩
    · exact ⟨row, (hskills row).mpr (Or.inr ⟨hrow, hsame⟩), hof, hactive, hversion⟩

theorem Authorized.move (h : Authorized db) (hids : Keyed (·.id) db.skills)
    (hmove : Moves canonicalSha256 db db') : Authorized db' := by
  cases hmove with
  | create skill draft _ active current =>
    refine ⟨?_, ?_, h.once⟩
    · intro row hrow
      rcases List.mem_append.mp hrow with hold | hlast
      · exact h.current row hold
      · rw [List.mem_singleton.mp hlast, current]
        intro id hid
        cases hid
    · intro authorization hauthorization
      obtain ⟨row, hrow, hof⟩ := h.authorizations authorization hauthorization
      exact ⟨row, List.mem_append_left _ hrow, hof⟩
  | relabel skill displayName mem active =>
    exact h.setSkill hids mem rfl (h.current skill mem) fun _ hversion ↦ ⟨active, hversion⟩
  | addVersion skill draft run version =>
    refine ⟨fun row hrow id hid ↦ ?_, h.authorizations, h.once⟩
    obtain ⟨old, hold, hof⟩ := h.current row hrow id hid
    exact ⟨old, List.mem_append_left _ hold, hof⟩
  | select skill version mem active versionMem skillId =>
    refine h.setSkill hids mem rfl ?_ fun _ _ ↦ ⟨active, by simp⟩
    rintro id ⟨⟩
    exact ⟨version, versionMem, rfl, skillId⟩
  | authorize skill authorization mem active current skillId new =>
    refine ⟨h.current, ?_, h.once.concat fun row hrow ↦ skillId ▸ new row hrow⟩
    intro row hrow
    rcases List.mem_append.mp hrow with hold | hlast
    · exact h.authorizations row hold
    · rw [List.mem_singleton.mp hlast]
      exact ⟨skill, mem, skillId.symm, active, current⟩
  | unauthorize skillId =>
    refine ⟨h.current, fun row hrow ↦ h.authorizations row (List.mem_of_mem_filter hrow), ?_⟩
    exact h.once.sublist (List.filter_sublist.map _)
  | retire skill mem active unauthorized =>
    refine h.setSkill hids mem rfl (h.current skill mem) ?_
    rintro ⟨row, hrow, hof⟩
    exact (unauthorized row hrow hof).elim
  | converse | reviseDraft | review | start | settle | append => exact h.of_eq rfl rfl rfl

/-!
## Test runs and their sessions

Each run has a session of its own. Its outcome is written once, and the events of a session carry
the sequences 0, 1, 2, ... up to the last one.
-/


def SkillTables.transcript (db : SkillTables) (sessionId : Uuid) : List XAgentSessionEvent :=
  db.events.filter fun event ↦ decide (event.sessionId = sessionId)

/-- A run is running, or has the outcome of a reason; only a completed one passes. -/
inductive Outcome (run : BusinessSkillTestRun) : Prop where
  | running (status : run.status = .running) (reason : run.terminationReason = none)
      (verdict : run.verdict = none)
  | settled (reason : TerminationReason) (terminationReason : run.terminationReason = some reason)
      (status : run.status = reason.status)
      (verdict : run.verdict = some .pass → run.status = .completed)

/-- The sequences 0, 1, 2, ... -/
def sequences (n : ℕ) : List ℤ := (List.range n).map Int.ofNat

structure TestRecords (db : SkillTables) : Prop where
  versionIds : Keyed (·.id) db.versions
  versions_lt : ∀ version ∈ db.versions, version.id < db.nextUuid
  runIds : Keyed (·.id) db.runs
  runs_lt : ∀ run ∈ db.runs, run.id < db.nextUuid
  runSessions : Keyed (·.sessionId) db.runs
  sessionIds : Keyed (·.id) db.sessions
  sessions_lt : ∀ session ∈ db.sessions, session.id < db.nextUuid
  session : ∀ run ∈ db.runs, ∃ session ∈ db.sessions, session.id = run.sessionId ∧
    session.purpose = .businessSkillTest ∧ session.ownerId = run.startedById
  outcome : ∀ run ∈ db.runs, Outcome run
  events : ∀ session ∈ db.sessions,
    (db.transcript session.id).map (·.sequence) = sequences (db.transcript session.id).length ∧
    session.lastEventSequence = (db.transcript session.id).length - 1
  events_lt : ∀ event ∈ db.events, event.sessionId < db.nextUuid

/-! ## Sequences -/

theorem sequences_add (m n : ℕ) :
    sequences (m + n) = sequences m ++ (List.range n).map fun i : ℕ ↦ (m : ℤ) + i := by
  rw [sequences, List.range_add, List.map_append, List.map_map]
  rfl

theorem sequence_numberedEvents (principal : Principal) (sessionId : Uuid) (next : ℤ)
    (events : List SessionEvent) : (numberedEvents principal sessionId next events).map (·.sequence)
      = (List.range events.length).map fun i : ℕ ↦ next + i := by
  induction events generalizing next with
  | nil => rfl
  | cons event events ih =>
    rw [numberedEvents, List.map_cons, ih, List.length_cons, List.range_succ_eq_map, List.map_cons,
      List.map_map]
    refine congrArg₂ List.cons (by simp) (List.map_congr_left fun i _ ↦ ?_)
    simp only [Function.comp_apply, Nat.cast_succ]
    ring

theorem mem_numberedEvents {principal : Principal} {sessionId : Uuid} {next : ℤ}
    {events : List SessionEvent} {event : XAgentSessionEvent}
    (h : event ∈ numberedEvents principal sessionId next events) :
    event.sessionId = sessionId ∧ event.actorId = principal.actorId := by
  induction events generalizing next with
  | nil => cases h
  | cons first events ih =>
    rcases List.mem_cons.mp h with rfl | hrest
    · exact ⟨rfl, rfl⟩
    · exact ih hrest

theorem transcript_appendEvents_self (principal : Principal) (session : XAgentSession)
    (events : List SessionEvent) :
    (db.appendEvents principal session events).transcript session.id =
      db.transcript session.id ++
        numberedEvents principal session.id (session.lastEventSequence + 1) events := by
  rw [SkillTables.transcript, SkillTables.appendEvents, List.filter_append,
    List.filter_eq_self.mpr fun event hevent ↦ decide_eq_true (mem_numberedEvents hevent).1]
  rfl

theorem transcript_appendEvents_other (principal : Principal) (session : XAgentSession)
    (events : List SessionEvent) {sessionId : Uuid} (h : sessionId ≠ session.id) :
    (db.appendEvents principal session events).transcript sessionId = db.transcript sessionId := by
  have hnone : (numberedEvents principal session.id (session.lastEventSequence + 1) events).filter
      (fun event ↦ decide (event.sessionId = sessionId)) = [] := by
    refine List.filter_eq_nil_iff.mpr fun event hevent hof ↦ ?_
    exact h ((of_decide_eq_true hof).symm.trans (mem_numberedEvents hevent).1)
  rw [SkillTables.transcript, SkillTables.appendEvents, List.filter_append, hnone,
    List.append_nil]
  rfl

theorem length_numberedEvents (principal : Principal) (sessionId : Uuid) (next : ℤ)
    (events : List SessionEvent) :
    (numberedEvents principal sessionId next events).length = events.length := by
  induction events generalizing next with
  | nil => rfl
  | cons event events ih => rw [numberedEvents, List.length_cons, ih, List.length_cons]

/-! ## Moves -/

theorem TestRecords.transcript_eq_nil (h : TestRecords db) : db.transcript db.nextUuid = [] := by
  refine List.filter_eq_nil_iff.mpr fun event hevent hof ↦ ?_
  exact (h.events_lt event hevent).ne (of_decide_eq_true hof)

/-- Tables whose sessions, runs and events stay. -/
theorem TestRecords.of_eq (h : TestRecords db) (hversionIds : Keyed (·.id) db'.versions)
    (hversions : ∀ version ∈ db'.versions, version.id < db'.nextUuid) (hruns : db'.runs = db.runs)
    (hsessions : db'.sessions = db.sessions) (hevents : db'.events = db.events)
    (hnext : db.nextUuid ≤ db'.nextUuid) : TestRecords db' where
  versionIds := hversionIds
  versions_lt := hversions
  runIds := hruns ▸ h.runIds
  runs_lt run hrun := (h.runs_lt run (hruns ▸ hrun)).trans_le hnext
  runSessions := hruns ▸ h.runSessions
  sessionIds := hsessions ▸ h.sessionIds
  sessions_lt session hsession := (h.sessions_lt session (hsessions ▸ hsession)).trans_le hnext
  session := by
    rw [hruns, hsessions]
    exact h.session
  outcome := hruns ▸ h.outcome
  events := by
    have htranscript : db'.transcript = db.transcript := by
      funext sessionId
      rw [SkillTables.transcript, hevents, SkillTables.transcript]
    rw [hsessions, htranscript]
    exact h.events
  events_lt event hevent := (h.events_lt event (hevents ▸ hevent)).trans_le hnext

/-- A run is written over by one with the same session. -/
theorem TestRecords.setRun (h : TestRecords db) {run run' : BusinessSkillTestRun}
    (hmem : run ∈ db.runs) (hid : run'.id = run.id) (hsessionId : run'.sessionId = run.sessionId)
    (hstartedById : run'.startedById = run.startedById) (houtcome : Outcome run') :
    TestRecords (db.setRun run') := by
  have hruns (row : BusinessSkillTestRun) : row ∈ (db.setRun run').runs ↔
      row = run' ∨ row ∈ db.runs ∧ row.id ≠ run'.id :=
    mem_replace BusinessSkillTestRun.id ⟨run, hmem, hid.symm⟩
  refine ⟨h.versionIds, h.versions_lt,
    h.runIds.update fun _ _ hkey ↦ (of_decide_eq_true hkey).symm, ?_,
    h.runSessions.update fun row hrow hkey ↦ ?_, h.sessionIds, h.sessions_lt, ?_, ?_, h.events,
    h.events_lt⟩
  · intro row hrow
    rcases (hruns row).mp hrow with rfl | ⟨hold, -⟩
    · exact hid ▸ h.runs_lt run hmem
    · exact h.runs_lt row hold
  · rw [h.runIds.eq_of_mem hrow hmem ((of_decide_eq_true hkey).trans hid), hsessionId]
  · intro row hrow
    rcases (hruns row).mp hrow with rfl | ⟨hold, -⟩
    · rw [hsessionId, hstartedById]
      exact h.session run hmem
    · exact h.session row hold
  · intro row hrow
    rcases (hruns row).mp hrow with rfl | ⟨hold, -⟩
    · exact houtcome
    · exact h.outcome row hold

theorem Outcome.review {run : BusinessSkillTestRun} (h : Outcome run) {verdict : Verdict}
    (verdictById : Uuid) (hsettled : run.status ≠ .running)
    (hcompleted : verdict = .pass → run.status = .completed) :
    Outcome { run with verdict := some verdict, verdictById := some verdictById } := by
  cases h with
  | running status => exact absurd status hsettled
  | settled reason terminationReason status =>
    exact .settled reason terminationReason status fun hpass ↦ hcompleted (Option.some.inj hpass)

theorem Outcome.settle {run : BusinessSkillTestRun} (h : Outcome run)
    (reason : TerminationReason) (hrunning : run.status = .running) :
    Outcome { run with terminationReason := some reason, status := reason.status } := by
  refine .settled reason rfl rfl fun hpass ↦ ?_
  cases h with
  | running _ _ verdict =>
    rw [verdict] at hpass
    cases hpass
  | settled other _ status =>
    rw [hrunning] at status
    cases other <;> cases status

/-- A session with an id that nothing names yet. -/
theorem TestRecords.newSession (h : TestRecords db) {session : XAgentSession}
    (hid : session.id = db.nextUuid) (hempty : session.lastEventSequence = -1) (row : XAgentSession)
    (hrow : row ∈ db.sessions ++ [session]) :
    (db.transcript row.id).map (·.sequence) = sequences (db.transcript row.id).length ∧
      row.lastEventSequence = (db.transcript row.id).length - 1 := by
  rcases List.mem_append.mp hrow with hold | hlast
  · exact h.events row hold
  · rw [List.mem_singleton.mp hlast, hid, h.transcript_eq_nil, hempty]
    exact ⟨rfl, rfl⟩

theorem TestRecords.converse (h : TestRecords db) {session : XAgentSession}
    (hid : session.id = db.nextUuid) (hempty : session.lastEventSequence = -1) :
    TestRecords { db with sessions := db.sessions ++ [session], nextUuid := db.nextUuid + 1 } where
  versionIds := h.versionIds
  versions_lt version hversion := Nat.lt_succ_of_lt (h.versions_lt version hversion)
  runIds := h.runIds
  runs_lt run hrun := Nat.lt_succ_of_lt (h.runs_lt run hrun)
  runSessions := h.runSessions
  sessionIds := h.sessionIds.concat fun row hrow ↦ hid ▸ (h.sessions_lt row hrow).ne
  sessions_lt row hrow := by
    rcases List.mem_append.mp hrow with hold | hlast
    · exact Nat.lt_succ_of_lt (h.sessions_lt row hold)
    · rw [List.mem_singleton.mp hlast, hid]
      exact Nat.lt_succ_self _
  session run hrun := by
    obtain ⟨row, hrow, hof⟩ := h.session run hrun
    exact ⟨row, List.mem_append_left _ hrow, hof⟩
  outcome := h.outcome
  events := h.newSession hid hempty
  events_lt event hevent := Nat.lt_succ_of_lt (h.events_lt event hevent)

theorem TestRecords.start (h : TestRecords db) {skill : BusinessSkill} {draft : BusinessSkillDraft}
    {session : XAgentSession} {run : BusinessSkillTestRun} (hsessionId : session.id = db.nextUuid)
    (hpurpose : session.purpose = .businessSkillTest) (hempty : session.lastEventSequence = -1)
    (htests : Tests skill draft session run) (hid : run.id = db.nextUuid + 1) :
    TestRecords { db with
      sessions := db.sessions ++ [session], runs := db.runs ++ [run]
      nextUuid := db.nextUuid + 2 } := by
  have hlt {n : ℕ} (hn : n < db.nextUuid) : n < db.nextUuid + 2 := Nat.lt_add_right 2 hn
  refine ⟨h.versionIds, fun version hversion ↦ hlt (h.versions_lt version hversion),
    h.runIds.concat fun row hrow ↦ ?_, ?_, h.runSessions.concat fun row hrow ↦ ?_,
    h.sessionIds.concat fun row hrow ↦ hsessionId ▸ (h.sessions_lt row hrow).ne, ?_, ?_, ?_,
    h.newSession hsessionId hempty, fun event hevent ↦ hlt (h.events_lt event hevent)⟩
  · rw [hid]
    exact (Nat.lt_succ_of_lt (h.runs_lt row hrow)).ne
  · intro row hrow
    rcases List.mem_append.mp hrow with hold | hlast
    · exact hlt (h.runs_lt row hold)
    · rw [List.mem_singleton.mp hlast, hid]
      exact Nat.lt_succ_self _
  · obtain ⟨old, hold, hof, -⟩ := h.session row hrow
    rw [← hof, htests.sessionId, hsessionId]
    exact (h.sessions_lt old hold).ne
  · intro row hrow
    rcases List.mem_append.mp hrow with hold | hlast
    · exact hlt (h.sessions_lt row hold)
    · rw [List.mem_singleton.mp hlast, hsessionId]
      exact Nat.lt_add_of_pos_right (by decide)
  · intro row hrow
    rcases List.mem_append.mp hrow with hold | hlast
    · obtain ⟨old, hold, hof⟩ := h.session row hold
      exact ⟨old, List.mem_append_left _ hold, hof⟩
    · rw [List.mem_singleton.mp hlast]
      exact ⟨session, List.mem_append_right _ List.mem_cons_self, htests.sessionId.symm, hpurpose,
        htests.startedById.symm⟩
  · intro row hrow
    rcases List.mem_append.mp hrow with hold | hlast
    · exact h.outcome row hold
    · rw [List.mem_singleton.mp hlast]
      exact .running htests.status htests.terminationReason htests.verdict

theorem TestRecords.append (h : TestRecords db) (principal : Principal) {session : XAgentSession}
    (header : Option Ecma.Json) (events : List SessionEvent) (hmem : session ∈ db.sessions) :
    TestRecords
      (db.appendEvents principal { session with runtimeHeader := header } events) := by
  set mounted : XAgentSession := { session with runtimeHeader := header } with hmounted
  set extended : XAgentSession := { mounted with
    lastEventSequence := mounted.lastEventSequence + events.length } with hextended
  have hsame : ∃ old ∈ db.sessions, old.id = extended.id := ⟨session, hmem, rfl⟩
  have hsessions (row : XAgentSession) : row ∈ (db.appendEvents principal mounted events).sessions ↔
      row = extended ∨ row ∈ db.sessions ∧ row.id ≠ session.id :=
    mem_replace XAgentSession.id hsame
  obtain ⟨hnumbered, hlast⟩ := h.events session hmem
  refine ⟨h.versionIds, h.versions_lt, h.runIds, h.runs_lt, h.runSessions,
    h.sessionIds.update fun _ _ hkey ↦ (of_decide_eq_true hkey).symm, ?_, ?_, h.outcome, ?_, ?_⟩
  · intro row hrow
    rcases (hsessions row).mp hrow with rfl | ⟨hold, -⟩
    · exact h.sessions_lt session hmem
    · exact h.sessions_lt row hold
  · intro run hrun
    obtain ⟨row, hrow, hof, hpurpose, howner⟩ := h.session run hrun
    by_cases hid : row.id = session.id
    · obtain rfl := h.sessionIds.eq_of_mem hrow hmem hid
      exact ⟨extended, (hsessions extended).mpr (Or.inl rfl), hof, hpurpose, howner⟩
    · exact ⟨row, (hsessions row).mpr (Or.inr ⟨hrow, hid⟩), hof, hpurpose, howner⟩
  · intro row hrow
    rcases (hsessions row).mp hrow with rfl | ⟨hold, hne⟩
    · have htranscript : (db.appendEvents principal mounted events).transcript extended.id = _ :=
        transcript_appendEvents_self principal mounted events
      rw [htranscript, List.map_append, List.length_append, length_numberedEvents,
        sequence_numberedEvents, sequences_add]
      have hstart : mounted.lastEventSequence = (db.transcript mounted.id).length - 1 := hlast
      refine ⟨congrArg₂ _ hnumbered ?_, ?_⟩
      · rw [hstart]
        exact List.map_congr_left fun i _ ↦ by ring
      · rw [hextended]
        push_cast
        rw [hstart]
        ring
    · rw [transcript_appendEvents_other principal mounted events hne]
      exact h.events row hold
  · intro event hevent
    rcases List.mem_append.mp hevent with hold | hnew
    · exact h.events_lt event hold
    · rw [(mem_numberedEvents hnew).1]
      exact h.sessions_lt session hmem

theorem TestRecords.move (h : TestRecords db) (hmove : Moves canonicalSha256 db db') :
    TestRecords db' := by
  have hversions (n : ℕ) : ∀ version ∈ db.versions, version.id < db.nextUuid + n :=
    fun version hversion ↦ Nat.lt_add_right n (h.versions_lt version hversion)
  cases hmove with
  | converse session id _ empty => exact h.converse id empty
  | create => exact h.of_eq h.versionIds (hversions 1) rfl rfl rfl (Nat.le_succ _)
  | addVersion skill draft run version _ _ _ _ _ _ _ id =>
    refine h.of_eq (h.versionIds.concat fun row hrow ↦ id ▸ (h.versions_lt row hrow).ne) ?_ rfl rfl
      rfl (Nat.le_succ _)
    intro row hrow
    rcases List.mem_append.mp hrow with hold | hlast
    · exact hversions 1 row hold
    · rw [List.mem_singleton.mp hlast, id]
      exact Nat.lt_succ_self _
  | review skill run verdict verdictById _ _ _ runMem settled completed =>
    exact h.setRun runMem rfl rfl rfl ((h.outcome run runMem).review verdictById settled completed)
  | start skill draft session run _ _ _ _ sessionId purpose empty tests id =>
    exact h.start sessionId purpose empty tests id
  | settle run reason runMem running =>
    exact h.setRun runMem rfl rfl rfl ((h.outcome run runMem).settle reason running)
  | append principal session header events mem => exact h.append principal header events mem
  | reviseDraft | relabel | select | authorize | unauthorize | retire =>
    exact h.of_eq h.versionIds h.versions_lt rfl rfl rfl le_rfl

end XxAgent.Skills
