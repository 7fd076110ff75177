import XxAgent.Retrieval.IndexWorkers

/-!
# Generations

The generations of an artifact are numbered in the order of their allocation, each one with its job.
The search head is the newest of those that are ready, and what is ready has the chunks of its
content.
-/

namespace XxAgent.Retrieval

open Sql
open Artifacts (Uuid Instant JobStatus ArtifactVersion Bytes)

/-- What a job says of its generation. -/
def Matches : JobStatus → IndexStatus → Prop
  | .ready, status | .leased, status => status = .building
  | .succeeded, status => status = .ready
  | .dead, status => status = .failed

/-- The columns of a generation that never change. -/
def ArtifactTextIndex.identity (index : ArtifactTextIndex) : ArtifactTextIndex :=
  { index with status := .building, chunkCount := 0, failureCode := none }

/-- The head that points to a generation. -/
def ArtifactTextIndex.head (index : ArtifactTextIndex) : ArtifactSearchHead :=
  ⟨index.artifactId, index.id, index.versionId⟩

/-- What makes a generation the only one of its kind. -/
def ArtifactTextIndex.kind (index : ArtifactTextIndex) : Uuid × String :=
  (index.versionId, index.configurationFingerprint)

/-- The chunks of the content of a generation. -/
def OfContent (texts : Texts) (index : ArtifactTextIndex) (chunks : List TextChunk) : Prop :=
  ∃ configuration contentType, ∃ payload ∈ texts.streamed, configuration.built index = true ∧
    texts.sha256 payload = index.contentSha256 ∧
    chunkText texts configuration payload contentType = .ok chunks

/-- The row of a chunk, with some id and some embedding. -/
def ArtifactTextChunk.Stores (texts : Texts) (index : ArtifactTextIndex) (row : ArtifactTextChunk)
    (chunk : TextChunk) : Prop :=
  row = chunkRow texts row.id index.id chunk row.embedding

/-- So many chunks are the content of a generation, and each of them is stored. -/
def Complete (texts : Texts) (db : RetrievalDatabase) (index : ArtifactTextIndex)
    (chunkCount : ℕ) : Prop :=
  ∃ chunks, OfContent texts index chunks ∧ chunks.length = chunkCount ∧
    ∀ chunk ∈ chunks, ∃ row ∈ db.chunks, row.Stores texts index chunk

section

variable {texts : Texts} {index index' : ArtifactTextIndex} {chunks chunks' : List TextChunk}

theorem built_unique {configuration configuration' : IndexConfiguration}
    (h : configuration.built index = true) (h' : configuration'.built index = true) :
    configuration = configuration' := by
  rw [IndexConfiguration.built, decide_eq_true_iff] at h h'
  obtain ⟨hparser, hmodel, hrevision, hdimensions, hfingerprint⟩ := h
  obtain ⟨hparser', hmodel', hrevision', hdimensions', hfingerprint'⟩ := h'
  cases configuration
  cases configuration'
  simp_all

theorem chunkText_eq_ok {configuration : IndexConfiguration} {payload : Bytes}
    {contentType : String} (h : chunkText texts configuration payload contentType = .ok chunks) :
    ∃ spans, texts.cut configuration payload = .ok spans ∧ chunks = numberChunks spans := by
  rw [chunkText] at h
  split_ifs at h
  obtain ⟨spans, hcut, rfl⟩ := Sql.map_eq_ok.mp h
  exact ⟨spans, hcut, rfl⟩

/-- **Every attempt cuts the same chunks.** -/
theorem OfContent.unique (h : OfContent texts index chunks) (h' : OfContent texts index chunks') :
    chunks = chunks' := by
  obtain ⟨configuration, contentType, payload, hpayload, hbuilt, hsha, hchunks⟩ := h
  obtain ⟨configuration', contentType', payload', hpayload', hbuilt', hsha', hchunks'⟩ := h'
  obtain rfl := built_unique hbuilt hbuilt'
  obtain rfl := texts.collisionFree hpayload hpayload' (hsha.trans hsha'.symm)
  obtain ⟨spans, hcut, rfl⟩ := chunkText_eq_ok hchunks
  obtain ⟨spans', hcut', rfl⟩ := chunkText_eq_ok hchunks'
  rw [Except.ok.inj (hcut.symm.trans hcut')]

/-- The chunks are numbered from `0` on. -/
theorem OfContent.ordinals (h : OfContent texts index chunks) :
    chunks.map (·.ordinal) = List.range chunks.length := by
  obtain ⟨configuration, contentType, payload, -, -, -, hchunks⟩ := h
  obtain ⟨spans, -, rfl⟩ := chunkText_eq_ok hchunks
  rw [numberChunks, List.map_map, List.length_map, List.length_zipIdx, List.range_eq_range']
  exact List.zipIdx_map_snd 0 spans

theorem built_congr (configuration : IndexConfiguration) (h : index'.identity = index.identity) :
    configuration.built index' = configuration.built index := by
  rw [ArtifactTextIndex.identity, ArtifactTextIndex.identity, ArtifactTextIndex.mk.injEq] at h
  simp only [IndexConfiguration.built, h]

theorem OfContent.congr (h : OfContent texts index chunks)
    (hidentity : index'.identity = index.identity) : OfContent texts index' chunks := by
  obtain ⟨configuration, contentType, payload, hpayload, hbuilt, hsha, hchunks⟩ := h
  refine ⟨configuration, contentType, payload, hpayload, ?_, ?_, hchunks⟩
  · rw [built_congr configuration hidentity]
    exact hbuilt
  · exact hsha.trans (congrArg (·.contentSha256) hidentity).symm

theorem Complete.congr {db db' : RetrievalDatabase} {chunkCount : ℕ}
    (h : Complete texts db index chunkCount) (hidentity : index'.identity = index.identity)
    (hchunks : ∀ row ∈ db.chunks, row ∈ db'.chunks) : Complete texts db' index' chunkCount := by
  obtain ⟨chunks, hcontent, hlength, hrows⟩ := h
  have hid : index'.id = index.id := congrArg (·.id) hidentity
  refine ⟨chunks, hcontent.congr hidentity, hlength, fun chunk hchunk ↦ ?_⟩
  obtain ⟨row, hrow, hstores⟩ := hrows chunk hchunk
  refine ⟨row, hchunks row hrow, ?_⟩
  rw [ArtifactTextChunk.Stores, hid]
  exact hstores

end

/-! ## Sound rows -/

namespace RetrievalDatabase

variable (db : RetrievalDatabase)

/-- The generations of an artifact, in the order of their allocation. -/
def generations (artifactId : Uuid) : List ArtifactTextIndex :=
  db.indexes.filter (·.artifactId = artifactId)

/-- What can be searched of an artifact. -/
def Ready (artifactId : Uuid) : Set ArtifactTextIndex :=
  {index | index ∈ db.indexes ∧ index.artifactId = artifactId ∧ index.status = .ready}

/-- Keys are unique, and what refers to a row refers to one that is there. -/
structure Linked : Prop where
  versions : Keyed (·.id) db.versions
  indexes : Keyed (·.id) db.indexes
  jobs : Keyed (·.id) db.jobs
  owners : Keyed (·.indexId) db.jobs
  referred : ∀ index ∈ db.indexes, ∃ version ∈ db.versions,
    version.id = index.versionId ∧ version.artifactId = index.artifactId
  owned : ∀ index ∈ db.indexes, ∃ job ∈ db.jobs, job.indexId = index.id
  matched : ∀ job ∈ db.jobs, ∃ index ∈ db.indexes, index.id = job.indexId ∧
    Matches job.status index.status

/-- Generations are numbered, and none is allocated twice. -/
structure Allocated : Prop where
  numbered : ∀ artifactId, Numbered ((db.generations artifactId).map (·.generation))
  kinds : Keyed ArtifactTextIndex.kind db.indexes

/-- The search heads are the newest generations that are ready. -/
structure Headed : Prop where
  heads : Keyed (·.artifactId) db.heads
  newest : ∀ artifactId, ∃ current, IsNewest (·.generation) (db.Ready artifactId) current ∧
    db.heads.find? (·.artifactId = artifactId) = current.map (·.head)

/-- What is stored is content, and all of it where the generation is ready. -/
structure Stocked (texts : Texts) : Prop where
  chunks : Keyed (fun row ↦ (row.indexId, row.ordinal)) db.chunks
  content : ∀ row ∈ db.chunks, ∃ index ∈ db.indexes, ∃ chunks, OfContent texts index chunks ∧
    ∃ chunk ∈ chunks, row.Stores texts index chunk
  complete : ∀ index ∈ db.indexes, index.status = .ready →
    Complete texts db index index.chunkCount

structure Sound (texts : Texts) : Prop where
  linked : db.Linked
  allocated : db.Allocated
  headed : db.Headed
  stocked : db.Stocked texts

/-- The ids so far. -/
structure Bounded (next : Uuid) : Prop where
  indexes : ∀ index ∈ db.indexes, index.id < next
  jobs : ∀ job ∈ db.jobs, job.id < next
  tokens : ∀ job ∈ db.jobs, ∀ token ∈ job.leaseToken, token < next
  chunks : ∀ row ∈ db.chunks, row.id < next

end RetrievalDatabase

variable {texts : Texts} {db db' : RetrievalDatabase} {next : Uuid}

/-- The ids of a generation and of its job determine each other. -/
theorem RetrievalDatabase.Linked.match_of_mem (h : db.Linked) {job : ArtifactIndexJob}
    {index : ArtifactTextIndex} (hjob : job ∈ db.jobs) (hindex : index ∈ db.indexes)
    (hid : index.id = job.indexId) : Matches job.status index.status := by
  obtain ⟨index', hindex', hid', hmatches⟩ := h.matched job hjob
  exact h.indexes.eq_of_mem hindex hindex' (hid.trans hid'.symm) ▸ hmatches

/-! ## What a step leaves alone -/

/-- A step that owns the other locks. Rows are added and change their status; what is behind a lock
of somebody else stays as it is. -/
structure Moves (next : Uuid) (held : LockName → Prop) (db db' : RetrievalDatabase) : Prop where
  history : db.indexes.map (·.identity) <+: db'.indexes.map (·.identity)
  chunks : ∀ row ∈ db.chunks, row ∈ db'.chunks
  job : ∀ job ∈ db.jobs, held (.job job.id) → job ∈ db'.jobs ∧
    ∀ index ∈ db.indexes, index.id = job.indexId → index ∈ db'.indexes
  artifact : ∀ artifactId, held (.artifact artifactId) →
    (db'.generations artifactId).map (·.identity) = (db.generations artifactId).map (·.identity) ∧
      currentGeneration db' artifactId = currentGeneration db artifactId
  tokens : ∀ job' ∈ db'.jobs, ∀ token ∈ job'.leaseToken, token < next →
    ∃ job ∈ db.jobs, token ∈ job.leaseToken

variable {held held' : LockName → Prop}

theorem Moves.refl (next : Uuid) (held : LockName → Prop) (db : RetrievalDatabase) :
    Moves next held db db where
  history := List.prefix_rfl
  chunks _ hrow := hrow
  job _ hjob _ := ⟨hjob, fun _ hindex _ ↦ hindex⟩
  artifact _ _ := ⟨rfl, rfl⟩
  tokens job hjob _ htoken _ := ⟨job, hjob, htoken⟩

theorem Moves.trans {db'' : RetrievalDatabase} (h : Moves next held db db')
    (h' : Moves next held db' db'') : Moves next held db db'' where
  history := h.history.trans h'.history
  chunks row hrow := h'.chunks row (h.chunks row hrow)
  job job hjob hheld := by
    obtain ⟨hjob', hindexes⟩ := h.job job hjob hheld
    obtain ⟨hjob'', hindexes'⟩ := h'.job job hjob' hheld
    exact ⟨hjob'', fun index hindex hid ↦ hindexes' index (hindexes index hindex hid) hid⟩
  artifact artifactId hheld :=
    ⟨(h'.artifact artifactId hheld).1.trans (h.artifact artifactId hheld).1,
      (h'.artifact artifactId hheld).2.trans (h.artifact artifactId hheld).2⟩
  tokens job'' hjob'' token htoken hlt := by
    obtain ⟨job', hjob', htoken'⟩ := h'.tokens job'' hjob'' token htoken hlt
    exact h.tokens job' hjob' token htoken' hlt

theorem Moves.mono (h : Moves next held db db') (hheld : ∀ lock, held' lock → held lock) :
    Moves next held' db db' :=
  ⟨h.history, h.chunks, fun job hjob hlock ↦ h.job job hjob (hheld _ hlock),
    fun artifactId hlock ↦ h.artifact artifactId (hheld _ hlock), h.tokens⟩

/-- A generation is there ever after. -/
theorem Moves.kept (h : Moves next held db db') {index : ArtifactTextIndex}
    (hindex : index ∈ db.indexes) : ∃ index' ∈ db'.indexes, index'.identity = index.identity :=
  List.mem_map.mp (h.history.subset (List.mem_map_of_mem hindex))

/-!
## Rows of generations

A generation is created with its job, settled with its job, or gets its chunks. Each of these keeps
the rows sound and leaves alone what is behind other locks.
-/

open RetrievalDatabase

variable {job job' : ArtifactIndexJob} {index index' : ArtifactTextIndex} {artifactId : Uuid}

/-! ## Identities -/

theorem map_identity {β : Type} (f : ArtifactTextIndex → β)
    (hf : ∀ index, f index.identity = f index) (indexes : List ArtifactTextIndex) :
    (indexes.map (·.identity)).map f = indexes.map f := by
  rw [List.map_map]
  exact List.map_congr_left fun index _ ↦ hf index

theorem generations_identity (db : RetrievalDatabase) (artifactId : Uuid) :
    (db.generations artifactId).map (·.identity)
      = (db.indexes.map (·.identity)).filter (·.artifactId = artifactId) := by
  rw [generations, List.filter_map]
  rfl

theorem currentGeneration_identity (db : RetrievalDatabase) (artifactId : Uuid) :
    currentGeneration db artifactId = (db.heads.find? (·.artifactId = artifactId)).bind fun head ↦
      ((db.indexes.map (·.identity)).find? (·.id = head.indexId)).map (·.generation) := by
  rw [currentGeneration]
  cases db.heads.find? (·.artifactId = artifactId) with
  | none => rfl
  | some head =>
    have hid : ((fun index : ArtifactTextIndex ↦ decide (index.id = head.indexId)) ∘
        ArtifactTextIndex.identity) = fun index ↦ decide (index.id = head.indexId) := rfl
    simp only [Option.bind_eq_bind, Option.bind_some, List.find?_map, Option.map_map, hid]
    cases db.indexes.find? (·.id = head.indexId) with
    | none => rfl
    | some index => rfl

/-- The generation of the head, as it is pointed to. -/
theorem currentGeneration_eq (hindexes : Keyed (·.id) db.indexes)
    {current : Option ArtifactTextIndex}
    (hnewest : IsNewest (·.generation) (db.Ready artifactId) current)
    (hhead : db.heads.find? (·.artifactId = artifactId) = current.map (·.head)) :
    currentGeneration db artifactId = current.map (·.generation) := by
  rw [currentGeneration, hhead]
  cases current with
  | none => rfl
  | some index =>
    simp only [Option.map_some, Option.bind_eq_bind, Option.bind_some]
    have hfind : db.indexes.find? (·.id = index.head.indexId) = some index :=
      find?_of_mem hindexes hnewest.1.1
    rw [hfind]
    rfl

theorem RetrievalDatabase.Allocated.of_identities (h : db.Allocated)
    (hidentities : db'.indexes.map (·.identity) = db.indexes.map (·.identity)) :
    db'.Allocated where
  numbered artifactId := by
    have hsame : (db'.generations artifactId).map (·.generation)
        = (db.generations artifactId).map (·.generation) := by
      rw [← map_identity (·.generation) fun _ ↦ rfl, generations_identity, hidentities,
        ← generations_identity, map_identity (·.generation) fun _ ↦ rfl]
    rw [hsame]
    exact h.numbered artifactId
  kinds := by
    rw [Keyed, ← map_identity ArtifactTextIndex.kind fun _ ↦ rfl, hidentities,
      map_identity ArtifactTextIndex.kind fun _ ↦ rfl]
    exact h.kinds

theorem RetrievalDatabase.Linked.of_rows (h : db.Linked) (hversions : db'.versions = db.versions)
    (hindexes : db'.indexes = db.indexes) (hjobs : db'.jobs = db.jobs) : db'.Linked where
  versions := hversions ▸ h.versions
  indexes := hindexes ▸ h.indexes
  jobs := hjobs ▸ h.jobs
  owners := hjobs ▸ h.owners
  referred := hversions ▸ hindexes ▸ h.referred
  owned := hindexes ▸ hjobs ▸ h.owned
  matched := hindexes ▸ hjobs ▸ h.matched

theorem RetrievalDatabase.Headed.of_rows (h : db.Headed) (hindexes : db'.indexes = db.indexes)
    (hheads : db'.heads = db.heads) : db'.Headed where
  heads := hheads ▸ h.heads
  newest artifactId := by
    rw [Ready, hindexes, hheads]
    exact h.newest artifactId

/-! ## Heads -/

theorem find?_upsertHead (heads : List ArtifactSearchHead) (index : ArtifactTextIndex)
    (artifactId : Uuid) : (upsertHead heads index).find? (·.artifactId = artifactId)
      = if artifactId = index.artifactId then some index.head
        else heads.find? (·.artifactId = artifactId) := by
  have hother (hne : artifactId ≠ index.artifactId) :
      (upsertHead heads index).find? (·.artifactId = artifactId)
        = heads.find? (·.artifactId = artifactId) := by
    rw [upsertHead]
    split_ifs
    · refine find?_update fun head _ hhead ↦ ?_
      have heq : head.artifactId = index.artifactId := of_decide_eq_true hhead
      simp [heq, hne.symm]
    · exact find?_concat (by simp [hne.symm])
  split_ifs with heq
  · subst heq
    rw [upsertHead]
    split_ifs with hany
    · obtain ⟨head, hhead, hid⟩ := List.any_eq_true.mp hany
      have hsome : ((update (·.artifactId = index.artifactId) (fun head ↦
          ({ head with indexId := index.id, versionId := index.versionId } : ArtifactSearchHead))
          heads).find? (·.artifactId = index.artifactId)).isSome := by
        rw [List.find?_isSome]
        refine ⟨_, mem_update.mpr ⟨head, hhead, rfl⟩, ?_⟩
        rw [if_pos hid]
        exact hid
      obtain ⟨found, hfound⟩ := Option.isSome_iff_exists.mp hsome
      obtain ⟨old, -, hold⟩ := mem_update.mp (List.mem_of_find?_eq_some hfound)
      have hartifact : found.artifactId = index.artifactId := by
        simpa using List.find?_some hfound
      rw [hfound]
      split_ifs at hold with holdId
      · rw [← hold, show old.artifactId = index.artifactId from of_decide_eq_true holdId]
        rfl
      · exact absurd (decide_eq_true (hold ▸ hartifact)) holdId
    · rw [List.find?_append, List.find?_eq_none.mpr]
      · simp [ArtifactTextIndex.head]
      · exact fun head hhead hid ↦ hany (List.any_eq_true.mpr ⟨head, hhead, hid⟩)
  · exact hother heq

theorem keyed_upsertHead {heads : List ArtifactSearchHead} (h : Keyed (·.artifactId) heads)
    (index : ArtifactTextIndex) : Keyed (·.artifactId) (upsertHead heads index) := by
  rw [upsertHead]
  split_ifs with hany
  · exact h.update fun _ _ _ ↦ rfl
  · refine h.concat fun head hhead hid ↦ hany (List.any_eq_true.mpr ⟨head, hhead, ?_⟩)
    exact decide_eq_true hid

/-! ## Settling -/

/-- The row of a job and the row of its generation, which is building, are written. -/
structure Settles (db db' : RetrievalDatabase) (job job' : ArtifactIndexJob)
    (index index' : ArtifactTextIndex) : Prop where
  mem_job : job ∈ db.jobs
  mem_index : index ∈ db.indexes
  owner : index.id = job.indexId
  building : index.status = .building
  jobId : job'.id = job.id
  indexId : job'.indexId = job.indexId
  identity : index'.identity = index.identity
  status : Matches job'.status index'.status
  jobs : db'.jobs = update (·.id = job.id) (fun _ ↦ job') db.jobs
  indexes : db'.indexes = update (·.id = index.id) (fun _ ↦ index') db.indexes
  versions : db'.versions = db.versions
  chunks : db'.chunks = db.chunks

namespace Settles

theorem id_eq (h : Settles db db' job job' index index') : index'.id = index.id :=
  congrArg (·.id) h.identity

theorem artifactId_eq (h : Settles db db' job job' index index') :
    index'.artifactId = index.artifactId :=
  congrArg (·.artifactId) h.identity

theorem mem_jobs (h : Settles db db' job job' index index') {other : ArtifactIndexJob} :
    other ∈ db'.jobs ↔ other = job' ∨ other ∈ db.jobs ∧ other.id ≠ job.id := by
  rw [h.jobs, ← h.jobId]
  exact mem_replace (·.id) ⟨job, h.mem_job, h.jobId.symm⟩

theorem mem_indexes (h : Settles db db' job job' index index') {other : ArtifactTextIndex} :
    other ∈ db'.indexes ↔ other = index' ∨ other ∈ db.indexes ∧ other.id ≠ index.id := by
  rw [h.indexes, ← h.id_eq]
  exact mem_replace (·.id) ⟨index, h.mem_index, h.id_eq.symm⟩

theorem identities (h : Settles db db' job job' index index') (hkeyed : Keyed (·.id) db.indexes) :
    db'.indexes.map (·.identity) = db.indexes.map (·.identity) := by
  rw [h.indexes]
  refine map_key_update fun other hother hid ↦ ?_
  rw [hkeyed.eq_of_mem hother h.mem_index (of_decide_eq_true hid)]
  exact h.identity

theorem linked (h : Settles db db' job job' index index') (hlinked : db.Linked) : db'.Linked where
  versions := h.versions ▸ hlinked.versions
  indexes := by
    rw [h.indexes]
    refine hlinked.indexes.update fun other _ hid ↦ ?_
    exact h.id_eq.trans (of_decide_eq_true hid).symm
  jobs := by
    rw [h.jobs]
    exact hlinked.jobs.update fun other _ hid ↦ h.jobId.trans (of_decide_eq_true hid).symm
  owners := by
    rw [h.jobs]
    refine hlinked.owners.update fun other hother hid ↦ ?_
    rw [hlinked.jobs.eq_of_mem hother h.mem_job (of_decide_eq_true hid)]
    exact h.indexId
  referred other hother := by
    rw [h.versions]
    rcases h.mem_indexes.mp hother with rfl | ⟨hother, -⟩
    · obtain ⟨version, hversion, hid, hartifact⟩ := hlinked.referred index h.mem_index
      exact ⟨version, hversion, hid.trans (congrArg (·.versionId) h.identity).symm,
        hartifact.trans h.artifactId_eq.symm⟩
    · exact hlinked.referred other hother
  owned other hother := by
    have howned {target : ArtifactTextIndex} (htarget : target ∈ db.indexes) :
        ∃ job ∈ db'.jobs, job.indexId = target.id := by
      obtain ⟨owner, howner, hid⟩ := hlinked.owned target htarget
      by_cases heq : owner.id = job.id
      · refine ⟨job', h.mem_jobs.mpr (Or.inl rfl), h.indexId.trans ?_⟩
        rw [← hlinked.jobs.eq_of_mem howner h.mem_job heq]
        exact hid
      · exact ⟨owner, h.mem_jobs.mpr (Or.inr ⟨howner, heq⟩), hid⟩
    rcases h.mem_indexes.mp hother with rfl | ⟨hother, -⟩
    · rw [h.id_eq]
      exact howned h.mem_index
    · exact howned hother
  matched other hother := by
    rcases h.mem_jobs.mp hother with rfl | ⟨hother, hne⟩
    · exact ⟨index', h.mem_indexes.mpr (Or.inl rfl),
        h.id_eq.trans (h.owner.trans h.indexId.symm), h.status⟩
    · obtain ⟨target, htarget, hid, hmatches⟩ := hlinked.matched other hother
      refine ⟨target, h.mem_indexes.mpr (Or.inr ⟨htarget, fun heq ↦ hne ?_⟩), hid, hmatches⟩
      refine congrArg (·.id) (hlinked.owners.eq_of_mem hother h.mem_job ?_)
      exact hid.symm.trans (heq.trans h.owner)

theorem mem_ready (h : Settles db db' job job' index index')
    (hkeyed : Keyed (·.id) db.indexes) {other : ArtifactTextIndex} :
    other ∈ db'.Ready artifactId ↔
      other = index' ∧ index.artifactId = artifactId ∧ index'.status = .ready ∨
        other ∈ db.Ready artifactId := by
  constructor
  · rintro ⟨hother, hartifact, hready⟩
    rcases h.mem_indexes.mp hother with rfl | ⟨hother, -⟩
    · exact Or.inl ⟨rfl, h.artifactId_eq.symm.trans hartifact, hready⟩
    · exact Or.inr ⟨hother, hartifact, hready⟩
  · rintro (⟨rfl, hartifact, hready⟩ | ⟨hother, hartifact, hready⟩)
    · exact ⟨h.mem_indexes.mpr (Or.inl rfl), h.artifactId_eq.trans hartifact, hready⟩
    · refine ⟨h.mem_indexes.mpr (Or.inr ⟨hother, fun hid ↦ ?_⟩), hartifact, hready⟩
      rw [hkeyed.eq_of_mem hother h.mem_index hid, h.building] at hready
      cases hready

/-- What is not published leaves the heads as they are. -/
theorem headed (h : Settles db db' job job' index index') (hlinked : db.Linked)
    (hheaded : db.Headed) (hstatus : index'.status ≠ .ready) (hheads : db'.heads = db.heads) :
    db'.Headed where
  heads := hheads ▸ hheaded.heads
  newest artifactId := by
    have hsame : db'.Ready artifactId = db.Ready artifactId := by
      ext other
      rw [h.mem_ready hlinked.indexes]
      simp [hstatus]
    rw [hsame, hheads]
    exact hheaded.newest artifactId

/-- **The head moves to what is published, unless it points to something newer.** -/
theorem headed_of_published (h : Settles db db' job job' index index') (hlinked : db.Linked)
    (hheaded : db.Headed) (hstatus : index'.status = .ready)
    (hheads : db'.heads =
      if ∀ generation ∈ currentGeneration db index.artifactId, generation < index.generation then
        upsertHead db.heads index
      else db.heads) : db'.Headed where
  heads := by
    rw [hheads]
    split_ifs
    · exact keyed_upsertHead hheaded.heads index
    · exact hheaded.heads
  newest artifactId := by
    obtain ⟨current, hnewest, hhead⟩ := hheaded.newest artifactId
    have hgeneration : index'.generation = index.generation :=
      congrArg (·.generation) h.identity
    have hindexHead : index'.head = index.head := by
      rw [ArtifactTextIndex.head, ArtifactTextIndex.head, h.id_eq, h.artifactId_eq,
        show index'.versionId = index.versionId from congrArg (·.versionId) h.identity]
    by_cases hartifact : index.artifactId = artifactId
    · have hready : db'.Ready artifactId = Insert.insert index' (db.Ready artifactId) := by
        ext other
        rw [h.mem_ready hlinked.indexes, Set.mem_insert_iff]
        simp [hartifact, hstatus]
      refine ⟨newer (·.generation) current index', hready ▸ hnewest.insert index', ?_⟩
      have hcurrent := currentGeneration_eq hlinked.indexes hnewest hhead
      have hgreater : (∀ generation ∈ currentGeneration db index.artifactId,
          generation < index.generation) ↔
          ∀ other ∈ current, other.generation < index'.generation := by
        rw [hartifact, hcurrent, hgeneration]
        simp
      rw [hheads, newer]
      by_cases hnew : ∀ other ∈ current, other.generation < index'.generation
      · rw [if_pos (hgreater.mpr hnew), if_pos hnew, find?_upsertHead, if_pos hartifact.symm,
          Option.map_some, hindexHead]
      · rw [if_neg (mt hgreater.mp hnew), if_neg hnew]
        exact hhead
    · have hready : db'.Ready artifactId = db.Ready artifactId := by
        ext other
        rw [h.mem_ready hlinked.indexes]
        simp [hartifact]
      refine ⟨current, hready ▸ hnewest, ?_⟩
      rw [← hhead, hheads]
      split_ifs
      · rw [find?_upsertHead, if_neg fun heq ↦ hartifact heq.symm]
      · rfl

theorem stocked (h : Settles db db' job job' index index') (hkeyed : Keyed (·.id) db.indexes)
    (hstocked : db.Stocked texts)
    (hcomplete : index'.status = .ready → Complete texts db index index'.chunkCount) :
    db'.Stocked texts where
  chunks := h.chunks ▸ hstocked.chunks
  content row hrow := by
    obtain ⟨target, htarget, chunks, hcontent, chunk, hchunk, hstores⟩ :=
      hstocked.content row (h.chunks ▸ hrow)
    obtain ⟨target', htarget', hidentity⟩ : ∃ target' ∈ db'.indexes,
        target'.identity = target.identity :=
      List.mem_map.mp (h.identities hkeyed ▸ List.mem_map_of_mem htarget)
    refine ⟨target', htarget', chunks, hcontent.congr hidentity, chunk, hchunk, ?_⟩
    rw [ArtifactTextChunk.Stores, show target'.id = target.id from congrArg (·.id) hidentity]
    exact hstores
  complete target htarget hready := by
    have hchunks : ∀ row ∈ db.chunks, row ∈ db'.chunks := fun row hrow ↦ h.chunks ▸ hrow
    rcases h.mem_indexes.mp htarget with rfl | ⟨htarget, -⟩
    · exact (hcomplete hready).congr h.identity hchunks
    · exact (hstocked.complete target htarget hready).congr rfl hchunks

theorem moves (h : Settles db db' job job' index index') (hlinked : db.Linked)
    (hjob : ¬ held (.job job.id))
    (hheads : ∀ artifactId, held (.artifact artifactId) →
      db'.heads.find? (·.artifactId = artifactId) = db.heads.find? (·.artifactId = artifactId))
    (htokens : ∀ token ∈ job'.leaseToken, token < next → token ∈ job.leaseToken) :
    Moves next held db db' where
  history := (h.identities hlinked.indexes).symm ▸ List.prefix_rfl
  chunks row hrow := h.chunks ▸ hrow
  job other hother hheld := by
    have hne : other.id ≠ job.id := fun heq ↦ hjob (heq ▸ hheld)
    refine ⟨h.mem_jobs.mpr (Or.inr ⟨hother, hne⟩), fun target htarget hid ↦ ?_⟩
    refine h.mem_indexes.mpr (Or.inr ⟨htarget, fun heq ↦ hne ?_⟩)
    refine congrArg (·.id) (hlinked.owners.eq_of_mem hother h.mem_job ?_)
    exact hid.symm.trans (heq.trans h.owner)
  artifact artifactId hheld := by
    rw [generations_identity, generations_identity, currentGeneration_identity,
      currentGeneration_identity, h.identities hlinked.indexes, hheads artifactId hheld]
    exact ⟨rfl, rfl⟩
  tokens other hother token htoken hlt := by
    rcases h.mem_jobs.mp hother with rfl | ⟨hother, -⟩
    · exact ⟨job, h.mem_job, htokens token htoken hlt⟩
    · exact ⟨other, hother, htoken⟩

theorem bounded (h : Settles db db' job job' index index') (hbounded : db.Bounded next)
    {next' : Uuid} (hnext : next ≤ next') (htokens : ∀ token ∈ job'.leaseToken, token < next') :
    db'.Bounded next' where
  indexes other hother := by
    rcases h.mem_indexes.mp hother with rfl | ⟨hother, -⟩
    · exact h.id_eq ▸ (hbounded.indexes index h.mem_index).trans_le hnext
    · exact (hbounded.indexes other hother).trans_le hnext
  jobs other hother := by
    rcases h.mem_jobs.mp hother with rfl | ⟨hother, -⟩
    · exact h.jobId ▸ (hbounded.jobs job h.mem_job).trans_le hnext
    · exact (hbounded.jobs other hother).trans_le hnext
  tokens other hother token htoken := by
    rcases h.mem_jobs.mp hother with rfl | ⟨hother, -⟩
    · exact htokens token htoken
    · exact (hbounded.tokens other hother token htoken).trans_le hnext
  chunks row hrow := (hbounded.chunks row (h.chunks ▸ hrow)).trans_le hnext

end Settles

/-! ## Creating -/

/-- A generation is added with its job. -/
structure Creates (next : Uuid) (db db' : RetrievalDatabase) (job : ArtifactIndexJob)
    (index : ArtifactTextIndex) : Prop where
  indexId : index.id = next
  jobId : job.id = next + 1
  owner : job.indexId = next
  building : index.status = .building
  ready : job.status = .ready
  token : job.leaseToken = none
  referred : ∃ version ∈ db.versions, version.id = index.versionId ∧
    version.artifactId = index.artifactId
  generation : index.generation = nextGeneration db index.artifactId
  new : ∀ other ∈ db.indexes, other.kind ≠ index.kind
  jobs : db'.jobs = db.jobs ++ [job]
  indexes : db'.indexes = db.indexes ++ [index]
  versions : db'.versions = db.versions
  chunks : db'.chunks = db.chunks
  heads : db'.heads = db.heads

namespace Creates

theorem mem_jobs (h : Creates next db db' job index) {other : ArtifactIndexJob} :
    other ∈ db'.jobs ↔ other ∈ db.jobs ∨ other = job := by
  rw [h.jobs, List.mem_append, List.mem_singleton]

theorem mem_indexes (h : Creates next db db' job index) {other : ArtifactTextIndex} :
    other ∈ db'.indexes ↔ other ∈ db.indexes ∨ other = index := by
  rw [h.indexes, List.mem_append, List.mem_singleton]

theorem linked (h : Creates next db db' job index) (hlinked : db.Linked)
    (hbounded : db.Bounded next) : db'.Linked where
  versions := h.versions ▸ hlinked.versions
  indexes := by
    rw [h.indexes]
    exact hlinked.indexes.concat fun other hother ↦
      (h.indexId ▸ hbounded.indexes other hother).ne
  jobs := by
    rw [h.jobs]
    refine hlinked.jobs.concat fun other hother ↦ ?_
    rw [h.jobId]
    exact (Nat.lt_succ_of_lt (hbounded.jobs other hother)).ne
  owners := by
    rw [h.jobs]
    refine hlinked.owners.concat fun other hother ↦ ?_
    obtain ⟨target, htarget, hid, -⟩ := hlinked.matched other hother
    rw [h.owner, ← hid]
    exact (hbounded.indexes target htarget).ne
  referred other hother := by
    rw [h.versions]
    rcases h.mem_indexes.mp hother with hother | rfl
    · exact hlinked.referred other hother
    · exact h.referred
  owned other hother := by
    rcases h.mem_indexes.mp hother with hother | rfl
    · obtain ⟨owner, howner, hid⟩ := hlinked.owned other hother
      exact ⟨owner, h.mem_jobs.mpr (Or.inl howner), hid⟩
    · exact ⟨job, h.mem_jobs.mpr (Or.inr rfl), h.owner.trans h.indexId.symm⟩
  matched other hother := by
    rcases h.mem_jobs.mp hother with hother | rfl
    · obtain ⟨target, htarget, hid, hmatches⟩ := hlinked.matched other hother
      exact ⟨target, h.mem_indexes.mpr (Or.inl htarget), hid, hmatches⟩
    · refine ⟨index, h.mem_indexes.mpr (Or.inr rfl), h.indexId.trans h.owner.symm, ?_⟩
      rw [h.ready]
      exact h.building

theorem generations_eq (h : Creates next db db' job index) (artifactId : Uuid) :
    db'.generations artifactId =
      if index.artifactId = artifactId then db.generations artifactId ++ [index]
      else db.generations artifactId := by
  rw [generations, h.indexes, List.filter_append, generations]
  split_ifs with hartifact
  · simp [hartifact]
  · simp [hartifact]

/-- **The next generation gets the next number.** -/
theorem allocated (h : Creates next db db' job index) (hallocated : db.Allocated) :
    db'.Allocated where
  numbered artifactId := by
    rw [h.generations_eq]
    split_ifs with hartifact
    · subst hartifact
      rw [List.map_append, List.map_singleton, h.generation]
      exact (hallocated.numbered index.artifactId).concat
    · exact hallocated.numbered artifactId
  kinds := by
    rw [h.indexes]
    exact hallocated.kinds.concat h.new

theorem ready_eq (h : Creates next db db' job index) (artifactId : Uuid) :
    db'.Ready artifactId = db.Ready artifactId := by
  ext other
  constructor
  · rintro ⟨hother, hartifact, hready⟩
    rcases h.mem_indexes.mp hother with hother | rfl
    · exact ⟨hother, hartifact, hready⟩
    · rw [h.building] at hready
      cases hready
  · rintro ⟨hother, hartifact, hready⟩
    exact ⟨h.mem_indexes.mpr (Or.inl hother), hartifact, hready⟩

theorem headed (h : Creates next db db' job index) (hheaded : db.Headed) : db'.Headed where
  heads := h.heads ▸ hheaded.heads
  newest artifactId := by
    rw [h.ready_eq, h.heads]
    exact hheaded.newest artifactId

theorem stocked (h : Creates next db db' job index) (hstocked : db.Stocked texts) :
    db'.Stocked texts where
  chunks := h.chunks ▸ hstocked.chunks
  content row hrow := by
    obtain ⟨target, htarget, hstored⟩ := hstocked.content row (h.chunks ▸ hrow)
    exact ⟨target, h.mem_indexes.mpr (Or.inl htarget), hstored⟩
  complete target htarget hready := by
    rcases h.mem_indexes.mp htarget with htarget | rfl
    · exact (hstocked.complete target htarget hready).congr rfl fun row hrow ↦ h.chunks ▸ hrow
    · rw [h.building] at hready
      cases hready

theorem sound (h : Creates next db db' job index) (hsound : db.Sound texts)
    (hbounded : db.Bounded next) : db'.Sound texts :=
  ⟨h.linked hsound.linked hbounded, h.allocated hsound.allocated, h.headed hsound.headed,
    h.stocked hsound.stocked⟩

theorem bounded (h : Creates next db db' job index) (hbounded : db.Bounded next) :
    db'.Bounded (next + 3) where
  indexes other hother := by
    rcases h.mem_indexes.mp hother with hother | rfl
    · exact Nat.lt_add_right 3 (hbounded.indexes other hother)
    · rw [h.indexId]
      exact Nat.lt_add_of_pos_right (by decide)
  jobs other hother := by
    rcases h.mem_jobs.mp hother with hother | rfl
    · exact Nat.lt_add_right 3 (hbounded.jobs other hother)
    · rw [h.jobId]
      exact Nat.add_lt_add_left (by decide) next
  tokens other hother token htoken := by
    rcases h.mem_jobs.mp hother with hother | rfl
    · exact Nat.lt_add_right 3 (hbounded.tokens other hother token htoken)
    · rw [h.token] at htoken
      cases htoken
  chunks row hrow := Nat.lt_add_right 3 (hbounded.chunks row (h.chunks ▸ hrow))

theorem moves (h : Creates next db db' job index) (hsound : db.Sound texts)
    (hbounded : db.Bounded next) (hartifact : ¬ held (.artifact index.artifactId)) :
    Moves next held db db' where
  history := by
    rw [h.indexes, List.map_append]
    exact List.prefix_append _ _
  chunks row hrow := h.chunks ▸ hrow
  job other hother _ := ⟨h.mem_jobs.mpr (Or.inl hother),
    fun target htarget _ ↦ h.mem_indexes.mpr (Or.inl htarget)⟩
  artifact artifactId hheld := by
    have hne : index.artifactId ≠ artifactId := fun heq ↦ hartifact (heq ▸ hheld)
    obtain ⟨current, hnewest, hhead⟩ := hsound.headed.newest artifactId
    refine ⟨by rw [h.generations_eq, if_neg hne], ?_⟩
    rw [currentGeneration_eq hsound.linked.indexes hnewest hhead]
    exact currentGeneration_eq (h.linked hsound.linked hbounded).indexes
      (h.ready_eq artifactId ▸ hnewest) (h.heads ▸ hhead)
  tokens other hother token htoken _ := by
    rcases h.mem_jobs.mp hother with hother | rfl
    · exact ⟨other, hother, htoken⟩
    · rw [h.token] at htoken
      cases htoken

end Creates

/-! ## Storing -/

/-- Rows of chunks that are unique, and are content. -/
structure Stock (texts : Texts) (indexes : List ArtifactTextIndex)
    (rows : List ArtifactTextChunk) : Prop where
  chunks : Keyed (fun row ↦ (row.indexId, row.ordinal)) rows
  content : ∀ row ∈ rows, ∃ index ∈ indexes, ∃ chunks, OfContent texts index chunks ∧
    ∃ chunk ∈ chunks, row.Stores texts index chunk

/-- An ordinal of a content names one chunk. -/
theorem OfContent.eq_of_ordinal {chunks : List TextChunk} (h : OfContent texts index chunks)
    {chunk chunk' : TextChunk} (hchunk : chunk ∈ chunks) (hchunk' : chunk' ∈ chunks)
    (hordinal : chunk.ordinal = chunk'.ordinal) : chunk = chunk' := by
  have hkeyed : Keyed (·.ordinal) chunks := by
    rw [Keyed, h.ordinals]
    exact List.nodup_range
  exact hkeyed.eq_of_mem hchunk hchunk' hordinal

section

variable {indexes : List ArtifactTextIndex} {rows : List ArtifactTextChunk}
  {chunks : List TextChunk} {chunk : TextChunk}

/-- What is stored under the ordinal of a chunk is the chunk. -/
theorem Stock.stores (h : Stock texts indexes rows) (hindexes : Keyed (·.id) indexes)
    (hindex : index ∈ indexes) (hcontent : OfContent texts index chunks) (hchunk : chunk ∈ chunks)
    {row : ArtifactTextChunk} (hrow : row ∈ rows) (hid : row.indexId = index.id)
    (hordinal : row.ordinal = chunk.ordinal) : row.Stores texts index chunk := by
  obtain ⟨target, htarget, chunks', hcontent', chunk', hchunk', hstores⟩ := h.content row hrow
  have hrowId : row.indexId = target.id := congrArg (·.indexId) hstores
  have hrowOrdinal : row.ordinal = chunk'.ordinal := congrArg (·.ordinal) hstores
  obtain rfl : target = index := hindexes.eq_of_mem htarget hindex (hrowId.symm.trans hid)
  obtain rfl : chunks' = chunks := hcontent'.unique hcontent
  obtain rfl : chunk' = chunk :=
    hcontent.eq_of_ordinal hchunk' hchunk (hrowOrdinal.symm.trans hordinal)
  exact hstores

/-- A chunk that is stored already stays as it is, and any other one is added. -/
theorem Stock.insert (h : Stock texts indexes rows) (hindex : index ∈ indexes)
    (hcontent : OfContent texts index chunks) (hchunk : chunk ∈ chunks) {id : Uuid}
    (hid : ∀ row ∈ rows, row.id < id) (vector : Embedding) :
    Stock texts indexes (insertChunk rows (chunkRow texts id index.id chunk vector)) ∧
      (∀ row ∈ rows, row ∈ insertChunk rows (chunkRow texts id index.id chunk vector)) ∧
      (∀ row ∈ insertChunk rows (chunkRow texts id index.id chunk vector), row.id < id + 1) ∧
      ∃ row ∈ insertChunk rows (chunkRow texts id index.id chunk vector),
        row.indexId = index.id ∧ row.ordinal = chunk.ordinal := by
  rw [insertChunk]
  split_ifs with hany
  · obtain ⟨old, hold, hconflict⟩ := List.any_eq_true.mp hany
    refine ⟨h, fun _ hrow ↦ hrow, fun row hrow ↦ Nat.lt_succ_of_lt (hid row hrow), old, hold, ?_⟩
    exact (of_decide_eq_true hconflict).resolve_left (hid old hold).ne
  · refine ⟨⟨?_, fun row hrow ↦ ?_⟩, fun row hrow ↦ List.mem_append_left _ hrow,
      fun row hrow ↦ ?_, _, List.mem_append_right _ (List.mem_singleton_self _), rfl, rfl⟩
    · refine h.chunks.concat fun old hold hkey ↦ hany (List.any_eq_true.mpr ⟨old, hold, ?_⟩)
      exact decide_eq_true (Or.inr (Prod.mk.inj hkey))
    · rcases List.mem_append.mp hrow with hrow | hrow
      · exact h.content row hrow
      · obtain rfl := List.mem_singleton.mp hrow
        exact ⟨index, hindex, chunks, hcontent, chunk, hchunk, rfl⟩
    · rcases List.mem_append.mp hrow with hrow | hrow
      · exact Nat.lt_succ_of_lt (hid row hrow)
      · obtain rfl := List.mem_singleton.mp hrow
        exact Nat.lt_succ_self id

/-- **After the chunks are stored every one of them has its row.** -/
theorem Stock.insertAll (h : Stock texts indexes rows) (hindex : index ∈ indexes)
    (hcontent : OfContent texts index chunks) {pairs : List (TextChunk × Embedding)}
    (hpairs : ∀ pair ∈ pairs, pair.1 ∈ chunks) {id : Uuid} (hid : ∀ row ∈ rows, row.id < id) :
    Stock texts indexes (insertChunks texts index.id id pairs rows) ∧
      (∀ row ∈ rows, row ∈ insertChunks texts index.id id pairs rows) ∧
      (∀ row ∈ insertChunks texts index.id id pairs rows, row.id < id + pairs.length) ∧
      ∀ pair ∈ pairs, ∃ row ∈ insertChunks texts index.id id pairs rows,
        row.indexId = index.id ∧ row.ordinal = pair.1.ordinal := by
  induction pairs generalizing id rows with
  | nil => exact ⟨h, fun _ hrow ↦ hrow, hid, by simp⟩
  | cons pair pairs ih =>
    obtain ⟨chunk, vector⟩ := pair
    obtain ⟨hstock, hkept, hbound, row, hrow, hrowId, hordinal⟩ :=
      h.insert hindex hcontent (hpairs _ List.mem_cons_self) hid vector
    obtain ⟨hstock', hkept', hbound', hall⟩ := ih hstock
      (fun pair hpair ↦ hpairs pair (List.mem_cons_of_mem _ hpair)) hbound
    rw [insertChunks]
    refine ⟨hstock', fun old hold ↦ hkept' old (hkept old hold), fun old hold ↦ ?_,
      fun pair hpair ↦ ?_⟩
    · exact (hbound' old hold).trans_eq (Nat.add_right_comm id 1 pairs.length)
    · rcases List.mem_cons.mp hpair with rfl | hpair
      · exact ⟨row, hkept' row hrow, hrowId, hordinal⟩
      · exact hall pair hpair

end

end XxAgent.Retrieval
