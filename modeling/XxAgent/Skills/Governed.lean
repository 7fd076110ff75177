import XxAgent.Skills.TestRuns

/-!
# How the tables evolve

Versions and transcripts only grow, revisions only count up, the outcome of a run is final, and a
retired skill keeps its content.
-/

namespace XxAgent.Skills

open Accounts Sql

variable {canonicalSha256 : CanonicalSha256} {db db' db'' : SkillTables}

/-- The invariants of the tables. -/
structure Inv (canonicalSha256 : CanonicalSha256) (db : SkillTables) : Prop where
  lineage : Lineage canonicalSha256 db
  numbering : Numbering db
  authorized : Authorized db
  tests : TestRecords db

theorem Inv.move (h : Inv canonicalSha256 db) (hmove : Moves canonicalSha256 db db') :
    Inv canonicalSha256 db' :=
  ⟨h.lineage.move hmove, h.numbering.move h.tests.runIds hmove,
    h.authorized.move h.lineage.skillIds hmove, h.tests.move hmove⟩

/-- What a run tests, without its outcome and its review. -/
def BusinessSkillTestRun.test (run : BusinessSkillTestRun) : BusinessSkillTestRun :=
  { run with status := .running, terminationReason := none, verdict := none, verdictById := none }

/-- Nothing of a skill is changed but the outcomes of its runs. -/
structure Closed (skill : BusinessSkill) (db db' : SkillTables) : Prop where
  stays : skill ∈ db'.skills
  drafts : ∀ draft ∈ db'.drafts, draft.skillId = skill.id → draft ∈ db.drafts
  versions : ∀ version ∈ db'.versions, version.skillId = skill.id → version ∈ db.versions
  authorizations : ∀ row ∈ db'.authorizations, row.skillId = skill.id → row ∈ db.authorizations
  runs : ∀ run' ∈ db'.runs, run'.skillId = skill.id → ∃ run ∈ db.runs,
    run'.test = run.test ∧ run'.verdict = run.verdict ∧ run'.verdictById = run.verdictById

structure Evolves (db db' : SkillTables) : Prop where
  versions : db.versions <+: db'.versions
  skills : ∀ skill ∈ db.skills, ∃ skill' ∈ db'.skills, skill'.id = skill.id ∧
    skill'.projectId = skill.projectId ∧ skill'.slug = skill.slug
  drafts : ∀ draft ∈ db.drafts, ∃ draft' ∈ db'.drafts, draft'.skillId = draft.skillId ∧
    draft.revision ≤ draft'.revision
  /-- What is named anew has a revision of its own. -/
  names : ∀ ⦃skillId revision digest⦄, Denotes db' skillId revision digest →
    Denotes db skillId revision digest ∨
      ∀ draft ∈ db.drafts, draft.skillId = skillId → draft.revision < revision
  runs : ∀ run ∈ db.runs, ∃ run' ∈ db'.runs, run'.test = run.test ∧
    (run.status ≠ .running →
      run'.status = run.status ∧ run'.terminationReason = run.terminationReason)
  retired : ∀ skill ∈ db.skills, skill.status = .retired → Closed skill db db'
  transcripts : ∀ sessionId, db.transcript sessionId <+: db'.transcript sessionId
  /-- Only its actor appends to a test, while it is running. -/
  appended : ∀ run ∈ db.runs, ∀ event ∈ db'.transcript run.sessionId,
    event ∈ db.transcript run.sessionId ∨
      run.status = .running ∧ event.actorId = run.startedById
  mounted : ∀ session ∈ db.sessions, ∃ session' ∈ db'.sessions, session'.id = session.id ∧
    session'.purpose = session.purpose ∧ session'.ownerId = session.ownerId ∧
    (session.runtimeHeader ≠ none → session'.runtimeHeader = session.runtimeHeader)

theorem Evolves.refl (db : SkillTables) : Evolves db db where
  versions := List.prefix_refl _
  skills skill hskill := ⟨skill, hskill, rfl, rfl, rfl⟩
  drafts draft hdraft := ⟨draft, hdraft, rfl, le_rfl⟩
  names _ _ _ hdenotes := Or.inl hdenotes
  runs run hrun := ⟨run, hrun, rfl, fun _ ↦ ⟨rfl, rfl⟩⟩
  retired _ hskill _ := ⟨hskill, fun _ hdraft _ ↦ hdraft, fun _ hversion _ ↦ hversion,
    fun _ hrow _ ↦ hrow, fun run hrun _ ↦ ⟨run, hrun, rfl, rfl, rfl⟩⟩
  transcripts _ := List.prefix_refl _
  appended _ _ _ hevent := Or.inl hevent
  mounted session hsession := ⟨session, hsession, rfl, rfl, rfl, fun _ ↦ rfl⟩

theorem Evolves.trans (h : Evolves db db') (h' : Evolves db' db'') : Evolves db db'' where
  versions := h.versions.trans h'.versions
  skills skill hskill := by
    obtain ⟨skill', hskill', hid, hproject, hslug⟩ := h.skills skill hskill
    obtain ⟨skill'', hskill'', hid', hproject', hslug'⟩ := h'.skills skill' hskill'
    exact ⟨skill'', hskill'', hid'.trans hid, hproject'.trans hproject, hslug'.trans hslug⟩
  drafts draft hdraft := by
    obtain ⟨draft', hdraft', hof, hle⟩ := h.drafts draft hdraft
    obtain ⟨draft'', hdraft'', hof', hle'⟩ := h'.drafts draft' hdraft'
    exact ⟨draft'', hdraft'', hof'.trans hof, hle.trans hle'⟩
  names skillId revision digest hdenotes := by
    rcases h'.names hdenotes with hold | hnew
    · exact h.names hold
    · right
      intro draft hdraft hof
      obtain ⟨draft', hdraft', hof', hle⟩ := h.drafts draft hdraft
      exact hle.trans_lt (hnew draft' hdraft' (hof'.trans hof))
  runs run hrun := by
    obtain ⟨run', hrun', htest, hfinal⟩ := h.runs run hrun
    obtain ⟨run'', hrun'', htest', hfinal'⟩ := h'.runs run' hrun'
    refine ⟨run'', hrun'', htest'.trans htest, fun hsettled ↦ ?_⟩
    obtain ⟨hstatus, hreason⟩ := hfinal hsettled
    obtain ⟨hstatus', hreason'⟩ := hfinal' (hstatus ▸ hsettled)
    exact ⟨hstatus'.trans hstatus, hreason'.trans hreason⟩
  retired skill hskill hretired := by
    have hclosed := h.retired skill hskill hretired
    have hclosed' := h'.retired skill hclosed.stays hretired
    refine ⟨hclosed'.stays, fun draft hdraft hof ↦ ?_, fun version hversion hof ↦ ?_,
      fun row hrow hof ↦ ?_, fun run'' hrun'' hof ↦ ?_⟩
    · exact hclosed.drafts draft (hclosed'.drafts draft hdraft hof) hof
    · exact hclosed.versions version (hclosed'.versions version hversion hof) hof
    · exact hclosed.authorizations row (hclosed'.authorizations row hrow hof) hof
    · obtain ⟨run', hrun', htest', hverdict', hby'⟩ := hclosed'.runs run'' hrun'' hof
      have hof' : run'.skillId = skill.id := by
        rw [← hof]
        exact (congrArg BusinessSkillTestRun.skillId htest').symm
      obtain ⟨run, hrun, htest, hverdict, hby⟩ := hclosed.runs run' hrun' hof'
      exact ⟨run, hrun, htest'.trans htest, hverdict'.trans hverdict, hby'.trans hby⟩
  transcripts sessionId := (h.transcripts sessionId).trans (h'.transcripts sessionId)
  appended run hrun event hevent := by
    obtain ⟨run', hrun', htest, hfinal⟩ := h.runs run hrun
    have hsession : run'.test.sessionId = run.test.sessionId := congrArg _ htest
    have hstarted : run'.test.startedById = run.test.startedById := congrArg _ htest
    change run'.sessionId = run.sessionId at hsession
    have happended := h'.appended run' hrun' event (hsession ▸ hevent)
    rw [hsession] at happended
    rcases happended with hold | ⟨hrunning, hactor⟩
    · exact h.appended run hrun event hold
    · refine Or.inr ⟨?_, hactor.trans hstarted⟩
      by_contra hsettled
      exact hsettled ((hfinal hsettled).1 ▸ hrunning)
  mounted session hsession := by
    obtain ⟨session', hsession', hid, hpurpose, howner, hheader⟩ := h.mounted session hsession
    obtain ⟨session'', hsession'', hid', hpurpose', howner', hheader'⟩ :=
      h'.mounted session' hsession'
    refine ⟨session'', hsession'', hid'.trans hid, hpurpose'.trans hpurpose, howner'.trans howner,
      fun hmounted ↦ ?_⟩
    have hsame := hheader hmounted
    exact (hheader' (hsame ▸ hmounted)).trans hsame

/-! ## Moves -/

theorem Moves.versions_prefix (h : Moves canonicalSha256 db db') :
    db.versions <+: db'.versions := by
  cases h with
  | addVersion => exact List.prefix_append _ _
  | _ => exact List.prefix_refl _

theorem exists_setSkill {skill skill' : BusinessSkill} (hmem : skill ∈ db.skills)
    (hids : Keyed (·.id) db.skills) (hid : skill'.id = skill.id)
    (hprojectId : skill'.projectId = skill.projectId) (hslug : skill'.slug = skill.slug) :
    ∀ row ∈ db.skills, ∃ row' ∈ (db.setSkill skill').skills, row'.id = row.id ∧
      row'.projectId = row.projectId ∧ row'.slug = row.slug := by
  intro row hrow
  have hskills (row : BusinessSkill) : row ∈ (db.setSkill skill').skills ↔
      row = skill' ∨ row ∈ db.skills ∧ row.id ≠ skill'.id :=
    mem_replace BusinessSkill.id ⟨skill, hmem, hid.symm⟩
  by_cases hsame : row.id = skill'.id
  · obtain rfl := hids.eq_of_mem hrow hmem (hsame.trans hid)
    exact ⟨skill', (hskills skill').mpr (Or.inl rfl), hid, hprojectId, hslug⟩
  · exact ⟨row, (hskills row).mpr (Or.inr ⟨hrow, hsame⟩), rfl, rfl, rfl⟩

theorem Moves.skills (h : Moves canonicalSha256 db db') (hids : Keyed (·.id) db.skills) :
    ∀ skill ∈ db.skills, ∃ skill' ∈ db'.skills, skill'.id = skill.id ∧
      skill'.projectId = skill.projectId ∧ skill'.slug = skill.slug := by
  cases h with
  | create => exact fun skill hskill ↦ ⟨skill, List.mem_append_left _ hskill, rfl, rfl, rfl⟩
  | relabel skill displayName mem => exact exists_setSkill mem hids rfl rfl rfl
  | select skill version mem => exact exists_setSkill mem hids rfl rfl rfl
  | retire skill mem => exact exists_setSkill mem hids rfl rfl rfl
  | _ => exact fun skill hskill ↦ ⟨skill, hskill, rfl, rfl, rfl⟩

theorem Moves.drafts (h : Moves canonicalSha256 db db') (hids : Keyed (·.skillId) db.drafts) :
    ∀ draft ∈ db.drafts, ∃ draft' ∈ db'.drafts, draft'.skillId = draft.skillId ∧
      draft.revision ≤ draft'.revision := by
  cases h with
  | create => exact fun draft hdraft ↦ ⟨draft, List.mem_append_left _ hdraft, rfl, le_rfl⟩
  | reviseDraft skill draft content editedById _ _ _ draftMem =>
    intro row hrow
    set revised : BusinessSkillDraft := { draft with
      revision := draft.revision + 1, content := content
      contentDigest := businessSkillContentDigest canonicalSha256 content
      editedById := editedById } with hrevised
    have hdrafts (row : BusinessSkillDraft) : row ∈ (db.setDraft revised).drafts ↔
        row = revised ∨ row ∈ db.drafts ∧ row.skillId ≠ draft.skillId :=
      mem_replace BusinessSkillDraft.skillId ⟨draft, draftMem, rfl⟩
    by_cases hsame : row.skillId = draft.skillId
    · obtain rfl := hids.eq_of_mem hrow draftMem hsame
      exact ⟨revised, (hdrafts revised).mpr (Or.inl rfl), rfl, Nat.le_succ _⟩
    · exact ⟨row, (hdrafts row).mpr (Or.inr ⟨hrow, hsame⟩), rfl, le_rfl⟩
  | _ => exact fun draft hdraft ↦ ⟨draft, hdraft, rfl, le_rfl⟩

theorem Moves.names (h : Moves canonicalSha256 db db') (hlineage : Lineage canonicalSha256 db)
    {skillId : Uuid} {revision : ℕ} {digest : String}
    (hdenotes : Denotes db' skillId revision digest) :
    Denotes db skillId revision digest ∨
      ∀ draft ∈ db.drafts, draft.skillId = skillId → draft.revision < revision := by
  cases h with
  | create skill draft id _ _ of =>
    rcases hdenotes.of_addDraft rfl rfl rfl with hold | ⟨rfl, rfl, -⟩
    · exact Or.inl hold
    · refine Or.inr fun row hrow hof ↦ ?_
      exact absurd (hof.trans (of.trans id)) (hlineage.drafts_lt row hrow).ne
  | reviseDraft skill draft content editedById _ _ _ draftMem =>
    rcases hdenotes.of_setDraft draftMem rfl with hold | ⟨rfl, rfl, -⟩
    · exact Or.inl hold
    · refine Or.inr fun row hrow hof ↦ ?_
      rw [hlineage.draftIds.eq_of_mem hrow draftMem hof]
      exact Nat.lt_succ_self _
  | addVersion skill draft run version _ _ of draftMem _ _ publishes =>
    exact Or.inl (hdenotes.of_addVersion draftMem of publishes rfl rfl rfl)
  | start skill draft session run _ _ of draftMem _ _ _ tests =>
    exact Or.inl (hdenotes.of_addRun draftMem of tests rfl rfl rfl)
  | review skill run verdict verdictById _ _ _ runMem =>
    exact Or.inl (hdenotes.of_setRun runMem rfl rfl rfl rfl)
  | settle run reason runMem => exact Or.inl (hdenotes.of_setRun runMem rfl rfl rfl rfl)
  | _ => exact Or.inl (hdenotes.of_eq rfl rfl rfl)

/-- A run that is reviewed or settled keeps its test, and its outcome where it had one. -/
theorem exists_setRun {run run' : BusinessSkillTestRun} (hmem : run ∈ db.runs)
    (hids : Keyed (·.id) db.runs) (htest : run'.test = run.test)
    (hfinal : run.status ≠ .running →
      run'.status = run.status ∧ run'.terminationReason = run.terminationReason) :
    ∀ row ∈ db.runs, ∃ row' ∈ (db.setRun run').runs, row'.test = row.test ∧
      (row.status ≠ .running →
        row'.status = row.status ∧ row'.terminationReason = row.terminationReason) := by
  intro row hrow
  have hid : run'.test.id = run.test.id := congrArg _ htest
  have hruns (row : BusinessSkillTestRun) : row ∈ (db.setRun run').runs ↔
      row = run' ∨ row ∈ db.runs ∧ row.id ≠ run'.id :=
    mem_replace BusinessSkillTestRun.id ⟨run, hmem, hid.symm⟩
  by_cases hsame : row.id = run'.id
  · obtain rfl := hids.eq_of_mem hrow hmem (hsame.trans hid)
    exact ⟨run', (hruns run').mpr (Or.inl rfl), htest, hfinal⟩
  · exact ⟨row, (hruns row).mpr (Or.inr ⟨hrow, hsame⟩), rfl, fun _ ↦ ⟨rfl, rfl⟩⟩

theorem Moves.runs (h : Moves canonicalSha256 db db') (hids : Keyed (·.id) db.runs) :
    ∀ run ∈ db.runs, ∃ run' ∈ db'.runs, run'.test = run.test ∧ (run.status ≠ .running →
      run'.status = run.status ∧ run'.terminationReason = run.terminationReason) := by
  cases h with
  | review skill run verdict verdictById _ _ _ runMem =>
    exact exists_setRun runMem hids rfl fun _ ↦ ⟨rfl, rfl⟩
  | settle run reason runMem running =>
    exact exists_setRun runMem hids rfl fun hsettled ↦ absurd running hsettled
  | start =>
    exact fun run hrun ↦ ⟨run, List.mem_append_left _ hrun, rfl, fun _ ↦ ⟨rfl, rfl⟩⟩
  | _ => exact fun run hrun ↦ ⟨run, hrun, rfl, fun _ ↦ ⟨rfl, rfl⟩⟩

theorem Moves.closed (h : Moves canonicalSha256 db db') (hlineage : Lineage canonicalSha256 db)
    {skill : BusinessSkill} (hskill : skill ∈ db.skills) (hretired : skill.status = .retired) :
    Closed skill db db' := by
  have hne {other : BusinessSkill} (hother : other ∈ db.skills) (hactive : other.status = .active) :
      other.id ≠ skill.id := by
    intro hid
    rw [hlineage.skillIds.eq_of_mem hother hskill hid, hretired] at hactive
    cases hactive
  -- an active skill is written over
  have hstays {other other' : BusinessSkill} (hother : other ∈ db.skills)
      (hactive : other.status = .active) (hid : other'.id = other.id) :
      skill ∈ (db.setSkill other').skills :=
    (mem_replace BusinessSkill.id ⟨other, hother, hid.symm⟩).mpr
      (Or.inr ⟨hskill, fun hsame ↦ hne hother hactive (hid.symm.trans hsame.symm)⟩)
  have hrefl : Closed skill db db := ⟨hskill, fun _ hdraft _ ↦ hdraft, fun _ hversion _ ↦ hversion,
    fun _ hrow _ ↦ hrow, fun run hrun _ ↦ ⟨run, hrun, rfl, rfl, rfl⟩⟩
  cases h with
  | create other draft id _ _ of =>
    refine ⟨List.mem_append_left _ hskill, fun row hrow hof ↦ ?_, hrefl.versions,
      hrefl.authorizations, hrefl.runs⟩
    rcases List.mem_append.mp hrow with hold | hlast
    · exact hold
    · rw [List.mem_singleton.mp hlast, of, id] at hof
      exact absurd hof.symm (hlineage.skills_lt skill hskill).ne
  | reviseDraft other draft content editedById mem active of draftMem =>
    refine ⟨hskill, fun row hrow hof ↦ ?_, hrefl.versions, hrefl.authorizations, hrefl.runs⟩
    rcases of_mem_setDraft hrow draftMem rfl with rfl | ⟨hold, -⟩
    · exact absurd (of.symm.trans hof) (hne mem active)
    · exact hold
  | relabel other displayName mem active =>
    exact ⟨hstays mem active rfl, hrefl.drafts, hrefl.versions, hrefl.authorizations, hrefl.runs⟩
  | addVersion other draft run version mem active _ _ _ _ publishes =>
    refine ⟨hskill, hrefl.drafts, fun row hrow hof ↦ ?_, hrefl.authorizations, hrefl.runs⟩
    rcases List.mem_append.mp hrow with hold | hlast
    · exact hold
    · rw [List.mem_singleton.mp hlast, publishes.skillId] at hof
      exact absurd hof (hne mem active)
  | select other version mem active =>
    exact ⟨hstays mem active rfl, hrefl.drafts, hrefl.versions, hrefl.authorizations, hrefl.runs⟩
  | authorize other authorization mem active _ of =>
    refine ⟨hskill, hrefl.drafts, hrefl.versions, fun row hrow hof ↦ ?_, hrefl.runs⟩
    rcases List.mem_append.mp hrow with hold | hlast
    · exact hold
    · rw [List.mem_singleton.mp hlast, of] at hof
      exact absurd hof (hne mem active)
  | unauthorize =>
    exact ⟨hskill, hrefl.drafts, hrefl.versions, fun row hrow _ ↦ List.mem_of_mem_filter hrow,
      hrefl.runs⟩
  | review other run verdict verdictById mem active of runMem =>
    refine ⟨hskill, hrefl.drafts, hrefl.versions, hrefl.authorizations, fun row hrow hof ↦ ?_⟩
    rcases of_mem_setRun hrow runMem rfl with rfl | ⟨hold, -⟩
    · exact absurd (of.symm.trans hof) (hne mem active)
    · exact ⟨row, hold, rfl, rfl, rfl⟩
  | retire other mem active =>
    exact ⟨hstays mem active rfl, hrefl.drafts, hrefl.versions, hrefl.authorizations, hrefl.runs⟩
  | start other draft session run mem active _ _ _ _ _ tests =>
    refine ⟨hskill, hrefl.drafts, hrefl.versions, hrefl.authorizations, fun row hrow hof ↦ ?_⟩
    rcases List.mem_append.mp hrow with hold | hlast
    · exact ⟨row, hold, rfl, rfl, rfl⟩
    · rw [List.mem_singleton.mp hlast, tests.skillId] at hof
      exact absurd hof (hne mem active)
  | settle run reason runMem =>
    refine ⟨hskill, hrefl.drafts, hrefl.versions, hrefl.authorizations, fun row hrow hof ↦ ?_⟩
    rcases of_mem_setRun hrow runMem rfl with rfl | ⟨hold, -⟩
    · exact ⟨run, runMem, rfl, rfl, rfl⟩
    · exact ⟨row, hold, rfl, rfl, rfl⟩
  | converse | append =>
    exact ⟨hskill, hrefl.drafts, hrefl.versions, hrefl.authorizations, hrefl.runs⟩

theorem transcript_of_events {sessionId : Uuid} (h : db'.events = db.events) :
    db'.transcript sessionId = db.transcript sessionId := by
  rw [SkillTables.transcript, h, SkillTables.transcript]

theorem Moves.transcripts (h : Moves canonicalSha256 db db') (sessionId : Uuid) :
    db.transcript sessionId <+: db'.transcript sessionId := by
  cases h with
  | append principal session header events =>
    exact (List.prefix_append _ _).filter _
  | _ => exact (transcript_of_events rfl).symm ▸ List.prefix_refl _

/-- An append to the session of a run is one of its actor, while it is running. -/
theorem Moves.appended (h : Moves canonicalSha256 db db') (htests : TestRecords db)
    {run : BusinessSkillTestRun} (hrun : run ∈ db.runs) {event : XAgentSessionEvent}
    (hevent : event ∈ db'.transcript run.sessionId) :
    event ∈ db.transcript run.sessionId ∨
      run.status = .running ∧ event.actorId = run.startedById := by
  cases h with
  | append principal session header events mem _ running =>
    obtain ⟨hevent, hof⟩ := List.mem_filter.mp hevent
    rcases List.mem_append.mp hevent with hold | hnew
    · exact Or.inl (List.mem_filter.mpr ⟨hold, hof⟩)
    · obtain ⟨hsession, hactor⟩ := mem_numberedEvents hnew
      have hsame : session.id = run.sessionId := hsession.symm.trans (of_decide_eq_true hof)
      obtain ⟨row, hrow, hid, hpurpose, -⟩ := htests.session run hrun
      rw [htests.sessionIds.eq_of_mem hrow mem (hid.trans hsame.symm)] at hpurpose
      obtain ⟨other, hother, hits, hrunning, hstarted⟩ := running hpurpose
      rw [htests.runSessions.eq_of_mem hother hrun (hits.trans hsame)] at hrunning hstarted
      exact Or.inr ⟨hrunning, hactor.trans hstarted.symm⟩
  | _ => exact Or.inl ((transcript_of_events rfl) ▸ hevent)

theorem Moves.mounted (h : Moves canonicalSha256 db db') (hids : Keyed (·.id) db.sessions) :
    ∀ session ∈ db.sessions, ∃ session' ∈ db'.sessions, session'.id = session.id ∧
      session'.purpose = session.purpose ∧ session'.ownerId = session.ownerId ∧
      (session.runtimeHeader ≠ none → session'.runtimeHeader = session.runtimeHeader) := by
  cases h with
  | converse | start =>
    exact fun session hsession ↦
      ⟨session, List.mem_append_left _ hsession, rfl, rfl, rfl, fun _ ↦ rfl⟩
  | append principal session header events mem mounts =>
    intro row hrow
    set extended : XAgentSession := { session with
      runtimeHeader := header
      lastEventSequence := session.lastEventSequence + events.length } with hextended
    have hsame : ∃ old ∈ db.sessions, old.id = extended.id := ⟨session, mem, rfl⟩
    have hsessions (row : XAgentSession) :
        row ∈ (db.appendEvents principal { session with runtimeHeader := header } events).sessions ↔
          row = extended ∨ row ∈ db.sessions ∧ row.id ≠ extended.id :=
      mem_replace XAgentSession.id hsame
    by_cases hid : row.id = session.id
    · obtain rfl := hids.eq_of_mem hrow mem hid
      refine ⟨extended, (hsessions extended).mpr (Or.inl rfl), rfl, rfl, rfl, fun hmounted ↦ ?_⟩
      rcases mounts with hheader | hnone
      · exact hheader
      · exact absurd hnone hmounted
    · exact ⟨row, (hsessions row).mpr (Or.inr ⟨hrow, hid⟩), rfl, rfl, rfl, fun _ ↦ rfl⟩
  | _ => exact fun session hsession ↦ ⟨session, hsession, rfl, rfl, rfl, fun _ ↦ rfl⟩

theorem Evolves.move (h : Inv canonicalSha256 db) (hmove : Moves canonicalSha256 db db') :
    Evolves db db' where
  versions := hmove.versions_prefix
  skills := hmove.skills h.lineage.skillIds
  drafts := hmove.drafts h.lineage.draftIds
  names _ _ _ hdenotes := hmove.names h.lineage hdenotes
  runs := hmove.runs h.tests.runIds
  retired _ hskill hretired := hmove.closed h.lineage hskill hretired
  transcripts := hmove.transcripts
  appended _ hrun _ hevent := hmove.appended h.tests hrun hevent
  mounted := hmove.mounted h.tests.sessionIds

/-!
## Runs of skill operations

The invariants hold after every run of operations, and the tables evolve along it. Each version goes
back to the operation that published it, each run to the one that started it.
-/

/-! ## The start -/

theorem numbering_start : Numbering {} := ⟨fun _ ↦ rfl, fun _ ↦ rfl⟩

theorem authorized_start : Authorized {} where
  current _ hskill := nomatch hskill
  authorizations _ hauthorization := nomatch hauthorization
  once := List.nodup_nil

theorem testRecords_start : TestRecords {} where
  versionIds := List.nodup_nil
  versions_lt _ hversion := nomatch hversion
  runIds := List.nodup_nil
  runs_lt _ hrun := nomatch hrun
  runSessions := List.nodup_nil
  sessionIds := List.nodup_nil
  sessions_lt _ hsession := nomatch hsession
  session _ hrun := nomatch hrun
  outcome _ hrun := nomatch hrun
  events _ hsession := nomatch hsession
  events_lt _ hevent := nomatch hevent

theorem inv_start : Inv canonicalSha256 {} :=
  ⟨lineage_start, numbering_start, authorized_start, testRecords_start⟩

/-! ## Transactions -/

theorem Commits.inv (h : Commits canonicalSha256 db db') (hinv : Inv canonicalSha256 db) :
    Inv canonicalSha256 db' := by
  cases h with
  | nothing same => exact same ▸ hinv
  | move move => exact hinv.move move
  | moves between first second => exact (hinv.move first).move second

/-- A version that a draft of an active skill becomes, while a run that tested the draft passes. -/
def Published (db : SkillTables) (version : BusinessSkillVersion) : Prop :=
  ∃ skill ∈ db.skills, ∃ draft ∈ db.drafts, ∃ run ∈ db.runs, skill.status = .active ∧
    draft.skillId = skill.id ∧ Publishes skill draft version ∧
    Passes draft version.toolPolicyDigest run

/-- A run that tests the draft of an active skill. -/
def Started (db : SkillTables) (run : BusinessSkillTestRun) : Prop :=
  ∃ skill ∈ db.skills, ∃ draft ∈ db.drafts, skill.status = .active ∧ draft.skillId = skill.id ∧
    ∃ session, Tests skill draft session run

theorem Moves.published (h : Moves canonicalSha256 db db') {version : BusinessSkillVersion}
    (hversion : version ∈ db'.versions) : version ∈ db.versions ∨ Published db version := by
  cases h with
  | addVersion skill draft run added mem active skillId draftMem runMem passes publishes =>
    rcases List.mem_append.mp hversion with hold | hlast
    · exact Or.inl hold
    · rw [List.mem_singleton.mp hlast]
      exact Or.inr ⟨skill, mem, draft, draftMem, run, runMem, active, skillId, publishes, passes⟩
  | _ => exact Or.inl hversion

theorem Moves.started (h : Moves canonicalSha256 db db') {run : BusinessSkillTestRun}
    (hrun : run ∈ db'.runs) : (∃ old ∈ db.runs, old.test = run.test) ∨ Started db run := by
  cases h with
  | start skill draft session added mem active skillId draftMem _ _ _ tests =>
    rcases List.mem_append.mp hrun with hold | hlast
    · exact Or.inl ⟨run, hold, rfl⟩
    · rw [List.mem_singleton.mp hlast]
      exact Or.inr ⟨skill, mem, draft, draftMem, active, skillId, session, tests⟩
  | review skill old verdict verdictById _ _ _ runMem =>
    rcases of_mem_setRun hrun runMem rfl with rfl | ⟨hold, -⟩
    · exact Or.inl ⟨old, runMem, rfl⟩
    · exact Or.inl ⟨run, hold, rfl⟩
  | settle old reason runMem =>
    rcases of_mem_setRun hrun runMem rfl with rfl | ⟨hold, -⟩
    · exact Or.inl ⟨old, runMem, rfl⟩
    · exact Or.inl ⟨run, hold, rfl⟩
  | _ => exact Or.inl ⟨run, hrun, rfl⟩

theorem Commits.published (h : Commits canonicalSha256 db db') {version : BusinessSkillVersion}
    (hversion : version ∈ db'.versions) : version ∈ db.versions ∨ Published db version := by
  cases h with
  | nothing same => exact Or.inl (same ▸ hversion)
  | move move => exact move.published hversion
  | moves between first second versions => exact first.published (versions ▸ hversion)

theorem Commits.started (h : Commits canonicalSha256 db db') {run : BusinessSkillTestRun}
    (hrun : run ∈ db'.runs) : (∃ old ∈ db.runs, old.test = run.test) ∨ Started db run := by
  cases h with
  | nothing same => exact Or.inl ⟨run, same ▸ hrun, rfl⟩
  | move move => exact move.started hrun
  | moves between first second _ runs => exact first.started (runs ▸ hrun)

/-! ## Runs -/

/-- The tables after a run of operations. -/
def tables (canonicalSha256 : CanonicalSha256) (actions : List SkillAction) : SkillTables :=
  (Database.runAll canonicalSha256 {} actions).toSkillTables

variable {projectId sessionId : Uuid}
  {slug : String} {versionKey : Uuid}

/-! ## Run time -/

end XxAgent.Skills
