import XxAgent.Session.ChunkRuns

/-!
# Chunk rows are lossless

A recognised event is determined, up to the order of its keys, by a handful of fields: `Delta`. The
row of a run is a function of the deltas of its members, and expanding it gives the members back in
the key order `Delta.json`. Together with `packChunkRuns_eq` this says what decoding returns for
every batch (`decode_packChunkRuns`), which is the batch itself up to key order
(`decode_packChunkRuns_sameValue`).
-/

namespace XxAgent

open Ecma

/-! ## Deltas -/

/-- The fields of a recognised delta chunk event. -/
structure Delta where
  /-- `event.seq`. -/
  seq : ℤ
  /-- `event.time`. -/
  time : ℤ
  /-- `event.data.turn`. -/
  turn : Json
  /-- `event.data.step`. -/
  step : Json
  /-- `event.data.chunk.index`. -/
  index : Json
  /-- `event.data.chunk.id`, of a tool call. -/
  id : Json
  /-- `event.data.chunk.name`, of a tool call that carries one. -/
  name : Value
  /-- The text or the arguments fragment. -/
  payload : Json

/-- The key of the payload in a chunk. -/
def DeltaKind.payloadKey : DeltaKind → String
  | .toolCallDelta => "argumentsDelta"
  | _ => "text"

/-- The tag of the row a kind packs into. -/
def DeltaKind.rowTag : DeltaKind → RowTag
  | .textDelta => .textChunks
  | .reasoningDelta => .reasoningChunks
  | .toolCallDelta => .toolCallChunks

namespace Delta

/-- The fields of an event, read where the encoder reads them. -/
def ofEvent (kind : DeltaKind) (event : SessionEvent) : Delta where
  seq := (event.get "seq").toInt
  time := (event.get "time").toInt
  turn := ((event.get "data").get "turn").toJson
  step := ((event.get "data").get "step").toJson
  index := (indexOf event).toJson
  id := ((chunkOf event).get "id").toJson
  name := (chunkOf event).get "name"
  payload := ((chunkOf event).get kind.payloadKey).toJson

/-- The optional property `name`. -/
def nameFields (name : Value) : Fields :=
  match name with
  | some v => [prop "name" v]
  | none => []

/-- The properties of the chunk, in the key order of the decoder. -/
def chunkFields (kind : DeltaKind) (d : Delta) : Fields :=
  match kind with
  | .textDelta => [prop "type" (text "text-delta"), prop "index" d.index, prop "text" d.payload]
  | .reasoningDelta => [prop "type" (text "reasoning-delta"), prop "index" d.index,
      prop "text" d.payload]
  | .toolCallDelta => [prop "type" (text "tool-call-delta"), prop "index" d.index,
      prop "id" d.id] ++ nameFields d.name ++ [prop "argumentsDelta" d.payload]

/-- The chunk, in the key order of the decoder. -/
def chunk (kind : DeltaKind) (d : Delta) : Json := .obj (d.chunkFields kind)

/-- The event, in the key order of the decoder. -/
def json (kind : DeltaKind) (d : Delta) : Json :=
  .obj [
    prop "type" (text "assistant/chunk"),
    prop "seq" (integer d.seq),
    prop "time" (integer d.time),
    prop "data" (.obj [prop "turn" d.turn, prop "step" d.step, prop "chunk" (d.chunk kind)])]

/-- What the encoder knows of a recognised event. -/
structure Valid (kind : DeltaKind) (d : Delta) : Prop where
  seq_nonneg : 0 ≤ d.seq
  seq_safe : Number.IsSafe d.seq
  time_safe : Number.IsSafe d.time
  turn_number : Value.isNumber (some d.turn) = true
  step_number : Value.isNumber (some d.step) = true
  index_number : Value.isNumber (some d.index) = true
  id_string : kind = .toolCallDelta → Value.isString (some d.id) = true
  name_string : kind = .toolCallDelta → ∀ v, d.name = some v → Value.isString (some v) = true
  payload_string : Value.isString (some d.payload) = true

end Delta

/-! ## Recognition -/

private theorem prop_of_get {fs : Fields} {k : String} {v : Json}
    (h : fieldOf (js k) fs = some v) : (js k, Value.toJson (fieldOf (js k) fs)) = prop k v := by
  rw [h]
  rfl

/-- A checked chunk is the chunk of its fields, up to key order. -/
private theorem classifyChunk_spec {event : SessionEvent} {kind : DeltaKind} {fs : Fields}
    (hobj : chunkOf event = some (.obj fs)) (hwf : (Json.obj fs).WF)
    (h : classifyChunk (chunkOf event) = some kind) :
    fs.Perm ((Delta.ofEvent kind event).chunkFields kind) ∧
      ((chunkOf event).get kind.payloadKey).isString = true ∧
      (kind = .toolCallDelta → ((chunkOf event).get "id").isString = true ∧
        ∀ v, (chunkOf event).get "name" = some v → Value.isString (some v) = true) := by
  have hget : ∀ k, (chunkOf event).get k = fieldOf (js k) fs := by
    intro k
    rw [hobj]
    rfl
  -- Both text kinds make the same check.
  have htext : ∀ {tag : String}, kind ≠ .toolCallDelta →
      (chunkOf event).get "type" = some (text tag) →
      ((chunkOf event).hasExactKeys ["type", "index", "text"]
        && ((chunkOf event).get "text").isString) = true →
      fs.Perm [prop "type" (text tag), prop "index" (indexOf event).toJson,
        prop "text" ((chunkOf event).get "text").toJson] ∧
        ((chunkOf event).get "text").isString = true := by
    intro tag _ htype hcheck
    rw [Bool.and_eq_true, hobj] at hcheck
    rw [hget] at htype
    have hperm := perm_of_hasExactKeys hwf.nodup (by decide) hcheck.1
    simp only [List.map_cons, List.map_nil, prop_of_get htype] at hperm
    rw [indexOf, hget, hget]
    exact ⟨hperm, by rw [← hget, hobj]; exact hcheck.2⟩
  rw [classifyChunk] at h
  dsimp only at h
  split_ifs at h with h1 h2 h3 h4 h5 h6
  · obtain rfl := Option.some.inj h
    obtain ⟨hperm, hstr⟩ := htext (by decide) h1 h2
    exact ⟨hperm, hstr, fun hc ↦ absurd hc (by decide)⟩
  · obtain rfl := Option.some.inj h
    obtain ⟨hperm, hstr⟩ := htext (by decide) h3 h4
    exact ⟨hperm, hstr, fun hc ↦ absurd hc (by decide)⟩
  · obtain rfl := Option.some.inj h
    rw [Bool.and_eq_true, Bool.and_eq_true, Bool.or_eq_true, Bool.and_eq_true] at h6
    obtain ⟨⟨hshape, hid⟩, hargs⟩ := h6
    rw [hget] at h5
    have hfields : (Delta.ofEvent .toolCallDelta event).chunkFields .toolCallDelta
        = [prop "type" (text "tool-call-delta"), prop "index" (Value.toJson (fieldOf (js "index") fs)),
            prop "id" (Value.toJson (fieldOf (js "id") fs))] ++
          Delta.nameFields (fieldOf (js "name") fs) ++
          [prop "argumentsDelta" (Value.toJson (fieldOf (js "argumentsDelta") fs))] := by
      simp only [Delta.chunkFields, Delta.ofEvent, indexOf, hget, DeltaKind.payloadKey]
    rcases hshape with hexact | ⟨hexact, hname⟩
    · rw [hobj] at hexact
      have hnone : fieldOf (js "name") fs = none :=
        fieldOf_eq_none_of_hasExactKeys hwf.nodup (by decide) hexact (by decide)
      have hperm := perm_of_hasExactKeys hwf.nodup (by decide) hexact
      simp only [List.map_cons, List.map_nil, prop_of_get h5] at hperm
      refine ⟨?_, hargs, fun _ ↦ ⟨hid, fun v hv ↦ ?_⟩⟩
      · rw [hfields, hnone]
        exact hperm
      · rw [hget, hnone] at hv
        exact absurd hv (by simp)
    · rw [hobj] at hexact
      rw [hget] at hname
      have hperm := perm_of_hasExactKeys hwf.nodup (by decide) hexact
      simp only [List.map_cons, List.map_nil, prop_of_get h5] at hperm
      obtain ⟨n, hn⟩ := Value.isString_iff.mp hname
      refine ⟨?_, hargs, fun _ ↦ ⟨hid, fun v hv ↦ ?_⟩⟩
      · rw [hn] at hperm
        rw [hfields, hn]
        exact hperm
      · rw [hget] at hv
        rw [← hv]
        exact hname

/-- The event an encoder recognises is the event of its fields, up to key order. -/
structure Recognised (kind : DeltaKind) (event : SessionEvent) : Prop where
  same : event.json.SameValue ((Delta.ofEvent kind event).json kind)
  valid : (Delta.ofEvent kind event).Valid kind
  seq_eq : event.get "seq" = some (integer (Delta.ofEvent kind event).seq)
  time_eq : event.get "time" = some (integer (Delta.ofEvent kind event).time)
  turn_eq : (event.get "data").get "turn" = some (Delta.ofEvent kind event).turn
  step_eq : (event.get "data").get "step" = some (Delta.ofEvent kind event).step
  index_eq : indexOf event = some (Delta.ofEvent kind event).index
  id_eq : kind = .toolCallDelta →
    (chunkOf event).get "id" = some (Delta.ofEvent kind event).id
  event_perm : event.fields.Perm [prop "type" (text "assistant/chunk"),
    prop "seq" (integer (Delta.ofEvent kind event).seq),
    prop "time" (integer (Delta.ofEvent kind event).time), prop "data" (event.get "data").toJson]
  data_perm : ∃ fs, event.get "data" = some (.obj fs) ∧
    fs.Perm [prop "turn" (Delta.ofEvent kind event).turn,
      prop "step" (Delta.ofEvent kind event).step, prop "chunk" (chunkOf event).toJson]
  chunk_perm : ∃ fs, chunkOf event = some (.obj fs) ∧
    fs.Perm ((Delta.ofEvent kind event).chunkFields kind)

private theorem eq_some_toJson {v : Value} (h : v ≠ none) : v = some v.toJson := by
  cases v with
  | none => exact absurd rfl h
  | some x => rfl

private theorem eq_some_integer {v : Value} (h : v.isSafeInteger = true) :
    v = some (integer v.toInt) ∧ Number.IsSafe v.toInt := by
  obtain ⟨n, rfl, hn⟩ := Value.isSafeInteger_iff.mp h
  exact ⟨rfl, hn⟩

private theorem ne_none_of_isNumber {v : Value} (h : v.isNumber = true) : v ≠ none := by
  rintro rfl
  exact absurd h (by decide)

private theorem ne_none_of_isString {v : Value} (h : v.isString = true) : v ≠ none := by
  rintro rfl
  exact absurd h (by decide)

theorem recognised_of_classify {event : SessionEvent} {kind : DeltaKind}
    (h : classify event = some kind) : Recognised kind event := by
  rw [classify] at h
  split_ifs at h with h1 h2 h3 h4 h5 h6
  simp only [Bool.not_eq_true', Bool.not_eq_false] at h2
  simp only [Bool.or_eq_true, Bool.not_eq_true', decide_eq_true_eq, not_or, Bool.not_eq_false,
    not_lt] at h3 h4 h5 h6
  obtain ⟨⟨hseq, hnonneg⟩, htime⟩ := h3
  obtain ⟨hseq_eq, hseq_safe⟩ := eq_some_integer hseq
  obtain ⟨htime_eq, htime_safe⟩ := eq_some_integer htime
  -- The three objects of the shape: the event, its data, its chunk.
  obtain ⟨ds, hdata⟩ := exists_obj_of_hasExactKeys h4.2
  have hdata_wf : (Json.obj ds).WF := event.json_wf.of_get? hdata
  have hturn : (event.get "data").get "turn" = fieldOf (js "turn") ds := by rw [hdata]; rfl
  have hstep : (event.get "data").get "step" = fieldOf (js "step") ds := by rw [hdata]; rfl
  have hchunk : chunkOf event = fieldOf (js "chunk") ds := by rw [chunkOf, hdata]; rfl
  have hchunk_obj : ∃ cs, chunkOf event = some (.obj cs) := by
    rw [classifyChunk] at h
    dsimp only at h
    split_ifs at h with g1 g2 g3 g4 g5 g6
    · rw [Bool.and_eq_true] at g2
      exact exists_obj_of_hasExactKeys g2.1
    · rw [Bool.and_eq_true] at g4
      exact exists_obj_of_hasExactKeys g4.1
    · rw [Bool.and_eq_true, Bool.and_eq_true, Bool.or_eq_true, Bool.and_eq_true] at g6
      rcases g6.1.1 with g | g
      · exact exists_obj_of_hasExactKeys g
      · exact exists_obj_of_hasExactKeys g.1
  obtain ⟨cs, hcs⟩ := hchunk_obj
  have hcs_wf : (Json.obj cs).WF := hdata_wf.of_get? (k := "chunk") (by rw [← hcs, hchunk]; rfl)
  obtain ⟨hperm, hpayload, hcall⟩ := classifyChunk_spec hcs hcs_wf h
  have hvalid : (Delta.ofEvent kind event).Valid kind := by
    refine ⟨hnonneg, hseq_safe, htime_safe, ?_, ?_, ?_, ?_, fun hk ↦ (hcall hk).2, ?_⟩
    · rw [Delta.ofEvent, ← eq_some_toJson (ne_none_of_isNumber h5.1)]
      exact h5.1
    · rw [Delta.ofEvent, ← eq_some_toJson (ne_none_of_isNumber h5.2)]
      exact h5.2
    · rw [Delta.ofEvent, indexOf, ← eq_some_toJson (ne_none_of_isNumber h6.2)]
      exact h6.2
    · intro hk
      rw [Delta.ofEvent, ← eq_some_toJson (ne_none_of_isString (hcall hk).1)]
      exact (hcall hk).1
    · rw [Delta.ofEvent, ← eq_some_toJson (ne_none_of_isString hpayload)]
      exact hpayload
  -- Key order is given up at each of the three levels.
  have hchunk_same : (Json.obj cs).SameValue ((Delta.ofEvent kind event).chunk kind) := .perm hperm
  have hdata_perm := perm_of_hasExactKeys hdata_wf.nodup (by decide) (hdata ▸ h4.2)
  simp only [List.map_cons, List.map_nil, ← hturn, ← hstep, ← hchunk, hcs] at hdata_perm
  have hdata_same : (Json.obj ds).SameValue (.obj [prop "turn" (Delta.ofEvent kind event).turn,
      prop "step" (Delta.ofEvent kind event).step,
      prop "chunk" ((Delta.ofEvent kind event).chunk kind)]) :=
    (Json.SameValue.perm hdata_perm).trans (.field (js "chunk") [_, _] [] hchunk_same)
  have hevent_perm := perm_of_hasExactKeys event.wf.nodup (by decide) h2
  have htype : fieldOf (js "type") event.fields = some (text "assistant/chunk") := by
    by_contra hc
    exact h1 hc
  have hseq_field : fieldOf (js "seq") event.fields
      = some (integer (Delta.ofEvent kind event).seq) := hseq_eq
  have htime_field : fieldOf (js "time") event.fields
      = some (integer (Delta.ofEvent kind event).time) := htime_eq
  have hdata_field : fieldOf (js "data") event.fields = some (.obj ds) := hdata
  simp only [List.map_cons, List.map_nil, htype, hseq_field, htime_field, hdata_field,
    Value.toJson_some] at hevent_perm
  refine ⟨(Json.SameValue.perm hevent_perm).trans (.field (js "data") [_, _, _] [] hdata_same),
    hvalid, hseq_eq, htime_eq, eq_some_toJson (ne_none_of_isNumber h5.1),
    eq_some_toJson (ne_none_of_isNumber h5.2), eq_some_toJson (ne_none_of_isNumber h6.2),
    fun hk ↦ eq_some_toJson (ne_none_of_isString (hcall hk).1), ?_, ⟨ds, hdata, ?_⟩, cs, hcs, hperm⟩
  · rw [hdata]
    exact hevent_perm
  · rw [hcs]
    exact hdata_perm

/-! ## The row of a run -/

namespace Delta

/-- `next` extends a run that ends in `prev`. -/
structure Joins (kind : DeltaKind) (prev next : Delta) : Prop where
  seq : next.seq = prev.seq + 1
  gap : Number.IsSafe (next.time - prev.time)
  turn : next.turn = prev.turn
  step : next.step = prev.step
  index : next.index = prev.index
  id : kind = .toolCallDelta → next.id = prev.id
  name : kind = .toolCallDelta → next.name = prev.name

/-- The gaps between consecutive members. -/
def gaps (ds : List Delta) : List Json :=
  ds.tail.zipWith (fun next prev ↦ integer (next.time - prev.time)) ds

/-- The payloads of the members. -/
def payloads (ds : List Delta) : List Json := ds.map payload

/-- The data of a row. -/
def rowData (kind : DeltaKind) (first : Delta) (ds : List Delta) : Fields :=
  [prop "turn" first.turn, prop "step" first.step, prop "index" first.index,
    prop "dt" (.arr (gaps ds))] ++
  match kind with
  | .toolCallDelta => [prop "id" first.id] ++ nameFields first.name ++
      [prop "args" (.arr (payloads ds))]
  | _ => [prop "texts" (.arr (payloads ds))]

/-- The row of a run. -/
def row (kind : DeltaKind) (first : Delta) (ds : List Delta) : Json :=
  .obj [prop "type" (text kind.rowTag.name), prop "seq0" (integer first.seq),
    prop "time0" (integer first.time), prop "data" (.obj (rowData kind first ds))]

end Delta

private theorem subInt_of_isSafe {a b : ℤ} (h : Number.IsSafe (Number.subInt a b)) :
    Number.subInt a b = a - b ∧ Number.IsSafe (a - b) := by
  rw [Number.subInt, Number.isSafe_round_iff] at h
  exact ⟨Number.roundToDouble_of_isSafe h, h⟩

/-- Adding one to a safe integer is exact. -/
private theorem addInt_one {a : ℤ} (h : Number.IsSafe a) : Number.addInt a 1 = a + 1 := by
  rw [Number.addInt]
  by_cases hmax : a = Number.maxSafe
  · rw [hmax]
    exact Number.roundToDouble_maxSafe_succ
  · refine Number.roundToDouble_of_isSafe ?_
    obtain ⟨h1, h2⟩ := h
    constructor <;> omega

/-- What the encoder checks between neighbours. -/
private theorem continues_spec {prev next : SessionEvent} {kind : DeltaKind}
    (h : continues prev next kind = true) :
    (next.get "seq").toInt = Number.addInt (prev.get "seq").toInt 1 ∧
    Number.IsSafe (Number.subInt (next.get "time").toInt (prev.get "time").toInt) ∧
    (next.get "data").get "turn" = (prev.get "data").get "turn" ∧
    (next.get "data").get "step" = (prev.get "data").get "step" ∧
    indexOf next = indexOf prev ∧
    (kind = .toolCallDelta → (chunkOf next).get "id" = (chunkOf prev).get "id" ∧
      (chunkOf next).get "name" = (chunkOf prev).get "name") := by
  rw [continues] at h
  dsimp only at h
  split_ifs at h with h1 h2 h3 h4 h5
  all_goals
    rw [not_not] at h1 h4
    rw [not_or, not_not, not_not] at h3
    refine ⟨h1, h2, h3.1, h3.2, h4, fun hk ↦ ?_⟩
  · exact absurd hk h5
  · rw [Bool.and_eq_true, Bool.and_eq_true, decide_eq_true_iff, decide_eq_true_iff,
      decide_eq_true_iff] at h
    exact ⟨h.1.1.symm, h.2.symm⟩

/-- The encoder's check between neighbours is `Joins`: its arithmetic is exact. -/
theorem Delta.joins_of_continues {prev next : SessionEvent} {kind : DeltaKind}
    (hp : Recognised kind prev) (h : continues prev next kind = true) :
    Joins kind (ofEvent kind prev) (ofEvent kind next) := by
  obtain ⟨hseq, hgap, hturn, hstep, hindex, hcall⟩ := continues_spec h
  exact ⟨hseq.trans (addInt_one hp.valid.seq_safe), (subInt_of_isSafe hgap).2,
    congrArg Value.toJson hturn, congrArg Value.toJson hstep, congrArg Value.toJson hindex,
    fun hk ↦ congrArg Value.toJson (hcall hk).1, fun hk ↦ (hcall hk).2⟩

/-- The gaps the encoder computes are exact along a chain. -/
private theorem gaps_eq {kind : DeltaKind} {run : List SessionEvent}
    (h : run.IsChain fun a b ↦ continues a b kind = true) :
    run.tail.zipWith
        (fun event prev ↦ integer (Number.subInt (event.get "time").toInt (prev.get "time").toInt)) run
      = Delta.gaps (run.map (Delta.ofEvent kind)) := by
  rw [Delta.gaps, ← List.map_tail, List.zipWith_map]
  induction run with
  | nil => rfl
  | cons a run ih =>
    cases run with
    | nil => rfl
    | cons b run =>
      rw [List.isChain_cons_cons] at h
      obtain ⟨-, hgap, -⟩ := continues_spec h.1
      simp only [List.tail_cons, List.zipWith_cons_cons]
      rw [(subInt_of_isSafe hgap).1]
      exact congrArg _ (ih h.2)

/-- The row the encoder builds, as a function of the deltas. -/
theorem buildRow_eq {kind : DeltaKind} {first : SessionEvent} {rest : List SessionEvent}
    (hrec : ∀ e ∈ first :: rest, Recognised kind e)
    (h : (first :: rest).IsChain fun a b ↦ continues a b kind = true) :
    buildRow kind (first :: rest) = Delta.row kind (Delta.ofEvent kind first)
      ((first :: rest).map (Delta.ofEvent kind)) := by
  have hfirst := hrec first List.mem_cons_self
  have hseq : (first.get "seq").toJson = integer (Delta.ofEvent kind first).seq := by
    rw [hfirst.seq_eq]
    rfl
  have htime : (first.get "time").toJson = integer (Delta.ofEvent kind first).time := by
    rw [hfirst.time_eq]
    rfl
  cases kind with
  | textDelta =>
    rw [buildRow, gaps_eq h, hseq, htime]
    simp only [Delta.row, Delta.rowData, Delta.payloads, List.map_map]
    rfl
  | reasoningDelta =>
    rw [buildRow, gaps_eq h, hseq, htime]
    simp only [Delta.row, Delta.rowData, Delta.payloads, List.map_map]
    rfl
  | toolCallDelta =>
    have hname : (if (toolCallOf first).hasOwn "name" = true then
        [prop "name" ((toolCallOf first).get "name").toJson] else [])
        = Delta.nameFields ((chunkOf first).get "name") := by
      rw [Value.hasOwn, toolCallOf]
      cases (chunkOf first).get "name" <;> rfl
    rw [buildRow, gaps_eq h, hseq, htime]
    simp only [Delta.row, Delta.rowData, Delta.payloads, List.map_map, hname]
    rfl

/-! ## Decoding the row -/

section Row

variable {kind : DeltaKind} {d : Delta} {ds : List Delta}

private theorem row_get (kind : DeltaKind) (d : Delta) (ds : List Delta) :
    (d.row kind ds).get? "seq0" = some (integer d.seq) ∧
    (d.row kind ds).get? "time0" = some (integer d.time) ∧
    (d.row kind ds).get? "data" = some (.obj (d.rowData kind ds)) := by
  simp [Delta.row]

private theorem rowTag?_row (kind : DeltaKind) (d : Delta) (ds : List Delta) :
    rowTag? (d.row kind ds) = some kind.rowTag := by
  cases kind <;> simp [rowTag?, Delta.row, DeltaKind.rowTag, RowTag.name]

private theorem length_gaps (d : Delta) (ds : List Delta) :
    (Delta.gaps (d :: ds)).length = ds.length := by
  simp [Delta.gaps]

private theorem gaps_cons_cons (a b : Delta) (ds : List Delta) :
    Delta.gaps (a :: b :: ds) = integer (b.time - a.time) :: Delta.gaps (b :: ds) := rfl

/-- The gaps of a chain are safe integers. -/
private theorem isSafeInteger_gaps (h : (d :: ds).IsChain (Delta.Joins kind)) :
    ∀ gap ∈ Delta.gaps (d :: ds), Value.isSafeInteger (some gap) = true := by
  induction ds generalizing d with
  | nil => simp [Delta.gaps]
  | cons e ds ih =>
    rw [List.isChain_cons_cons] at h
    intro gap hgap
    rw [gaps_cons_cons] at hgap
    rcases List.mem_cons.mp hgap with rfl | hgap
    · exact Value.isSafeInteger_iff.mpr ⟨_, rfl, h.1.gap⟩
    · exact ih h.2 gap hgap

/-- Member `k` of a chain has the `k`-th sequence number. -/
private theorem seq_of_isChain (h : (d :: ds).IsChain (Delta.Joins kind)) :
    ∀ e ∈ (d :: ds).getLast?, e.seq = d.seq + ds.length := by
  induction ds generalizing d with
  | nil => simp
  | cons e ds ih =>
    rw [List.isChain_cons_cons] at h
    intro f hf
    rw [List.getLast?_cons_cons] at hf
    rw [ih h.2 f hf, h.1.seq, List.length_cons]
    push_cast
    ring

private theorem validateTimes_gaps (tag : RowTag) (h : (d :: ds).IsChain (Delta.Joins kind))
    (hv : ∀ e ∈ d :: ds, e.Valid kind) :
    validateTimes tag d.time (Delta.gaps (d :: ds)) = .ok () := by
  induction ds generalizing d with
  | nil => rfl
  | cons e ds ih =>
    rw [List.isChain_cons_cons] at h
    have he : e.Valid kind := hv e (by simp)
    have htime : Number.addInt d.time (e.time - d.time) = e.time := by
      rw [Number.addInt, show d.time + (e.time - d.time) = e.time from by ring]
      exact Number.roundToDouble_of_isSafe he.time_safe
    rw [gaps_cons_cons, validateTimes]
    simp only [integer, Value.toInt_int, htime]
    rw [if_pos he.time_safe]
    exact ih h.2 fun f hf ↦ hv f (List.mem_cons_of_mem d hf)

private theorem validateRunData_row (tag : RowTag) {data : Value} {payloadKey : String}
    (hd : d.Valid kind) (hpayload : ∀ e ∈ d :: ds, Value.isString (some e.payload) = true)
    (hgaps : ∀ gap ∈ Delta.gaps (d :: ds), Value.isSafeInteger (some gap) = true)
    (hturn : data.get "turn" = some d.turn) (hstep : data.get "step" = some d.step)
    (hindex : data.get "index" = some d.index)
    (hdt : data.get "dt" = some (.arr (Delta.gaps (d :: ds))))
    (hargs : data.get payloadKey = some (.arr (Delta.payloads (d :: ds)))) :
    validateRunData tag data payloadKey = .ok (Delta.payloads (d :: ds)) := by
  have hstrings : (Delta.payloads (d :: ds)).any (fun entry ↦ !Value.isString (some entry))
      = false := by
    rw [List.any_eq_false]
    intro entry hentry
    obtain ⟨e, he, rfl⟩ := List.mem_map.mp hentry
    simp [hpayload e he]
  have hsafe : (Delta.gaps (d :: ds)).any (fun gap ↦ !Value.isSafeInteger (some gap))
      = false := by
    rw [List.any_eq_false]
    intro gap hgap
    simp [hgaps gap hgap]
  have hlen : (Delta.gaps (d :: ds)).length = (Delta.payloads (d :: ds)).length - 1 := by
    rw [length_gaps, Delta.payloads, List.length_map, List.length_cons, Nat.add_sub_cancel]
  have hne : (Delta.payloads (d :: ds)).isEmpty = false := rfl
  simp [validateRunData, hturn, hstep, hindex, hdt, hargs, hd.turn_number, hd.step_number,
    hd.index_number, Value.isArray, Value.toList, hstrings, hsafe, hlen, hne]

private theorem validatePayload_row (hd : d.Valid kind)
    (hpayload : ∀ e ∈ d :: ds, Value.isString (some e.payload) = true)
    (hgaps : ∀ gap ∈ Delta.gaps (d :: ds), Value.isSafeInteger (some gap) = true) :
    validatePayload kind.rowTag (some (.obj (d.rowData kind (d :: ds))))
      = .ok (Delta.payloads (d :: ds)) := by
  cases kind with
  | textDelta =>
    rw [DeltaKind.rowTag, validatePayload]
    · rw [if_neg (by simp [Value.hasExactKeys, Delta.rowData])]
      refine validateRunData_row _ hd hpayload hgaps ?_ ?_ ?_ ?_ ?_ <;> simp [Delta.rowData]
    · simp
  | reasoningDelta =>
    rw [DeltaKind.rowTag, validatePayload]
    · rw [if_neg (by simp [Value.hasExactKeys, Delta.rowData])]
      refine validateRunData_row _ hd hpayload hgaps ?_ ?_ ?_ ?_ ?_ <;> simp [Delta.rowData]
    · simp
  | toolCallDelta =>
    have hid := hd.id_string rfl
    rw [DeltaKind.rowTag, validatePayload]
    cases hname : d.name with
    | none =>
      rw [if_neg (by simp [Value.hasExactKeys, Delta.rowData, Delta.nameFields, hname]),
        if_neg (by simp [Value.hasExactKeys, Delta.rowData, Delta.nameFields, hname, hid])]
      refine validateRunData_row _ hd hpayload hgaps ?_ ?_ ?_ ?_ ?_ <;>
        simp [Delta.rowData, Delta.nameFields, hname]
    | some v =>
      have hv := hd.name_string rfl v hname
      rw [if_neg (by simp [Value.hasExactKeys, Delta.rowData, Delta.nameFields, hname]),
        if_neg (by simp [Value.hasExactKeys, Delta.rowData, Delta.nameFields, hname, hid, hv])]
      refine validateRunData_row _ hd hpayload hgaps ?_ ?_ ?_ ?_ ?_ <;>
        simp [Delta.rowData, Delta.nameFields, hname]

private theorem validateRow_row (h : (d :: ds).IsChain (Delta.Joins kind))
    (hv : ∀ e ∈ d :: ds, e.Valid kind) :
    validateRow (d.row kind (d :: ds)) kind.rowTag = .ok () := by
  obtain ⟨hseq0, htime0, hdata⟩ := row_get kind d (d :: ds)
  have hd : d.Valid kind := hv d List.mem_cons_self
  -- The last member's sequence number is safe, and the bound computed from the arity is just that.
  obtain ⟨last, hlast⟩ : ∃ e, (d :: ds).getLast? = some e :=
    ⟨_, List.getLast?_eq_some_getLast (List.cons_ne_nil d ds)⟩
  have hlast_safe : Number.IsSafe (d.seq + ds.length) := by
    rw [← seq_of_isChain h last hlast]
    exact (hv last (List.mem_of_getLast? hlast)).seq_safe
  have hbound : Number.subInt (Number.addInt d.seq (Delta.payloads (d :: ds)).length) 1
      = d.seq + ds.length := by
    have hlen : ((Delta.payloads (d :: ds)).length : ℤ) = ds.length + 1 := by
      simp [Delta.payloads]
    have hadd : Number.addInt d.seq (Delta.payloads (d :: ds)).length = d.seq + ds.length + 1 := by
      rw [hlen, ← addInt_one hlast_safe, Number.addInt, Number.addInt, add_assoc]
    rw [hadd, Number.subInt, show d.seq + (ds.length : ℤ) + 1 - 1 = d.seq + ds.length from by ring]
    exact Number.roundToDouble_of_isSafe hlast_safe
  have hpayload := validatePayload_row hd (fun e he ↦ (hv e he).payload_string)
    (isSafeInteger_gaps h)
  have hexact : Value.hasExactKeys ["type", "seq0", "time0", "data"]
      (some (d.row kind (d :: ds))) = true := by
    simp [Value.hasExactKeys, Delta.row]
  have hseq_safe : Value.isSafeInteger (some (integer d.seq)) = true :=
    Value.isSafeInteger_iff.mpr ⟨_, rfl, hd.seq_safe⟩
  have htime_safe : Value.isSafeInteger (some (integer d.time)) = true :=
    Value.isSafeInteger_iff.mpr ⟨_, rfl, hd.time_safe⟩
  have hneg : ¬ Value.toInt (some (integer d.seq)) < 0 := not_lt.mpr hd.seq_nonneg
  have hdt : Value.toList (Value.get "dt" (some (.obj (d.rowData kind (d :: ds)))))
      = Delta.gaps (d :: ds) := by
    cases kind <;> simp [Delta.rowData, Value.toList]
  have hrange : ¬ ¬ Number.IsSafe (Number.subInt (Number.addInt (Value.toInt (some (integer d.seq)))
      (Delta.payloads (d :: ds)).length) 1) := by
    rw [not_not]
    exact hbound ▸ hlast_safe
  rw [validateRow, hseq0, htime0, hdata, if_neg (by simp [hexact]),
    if_neg (by simp [hseq_safe, hneg]), if_neg (by simp [htime_safe]),
    if_neg (by simp [Value.isRecord]), hpayload]
  dsimp only
  rw [if_neg hrange, hdt]
  exact validateTimes_gaps kind.rowTag h hv

private theorem memberChunk_row (kind : DeltaKind) (d e : Delta) (ds : List Delta)
    (hindex : e.index = d.index) (hid : kind = .toolCallDelta → e.id = d.id)
    (hname : kind = .toolCallDelta → e.name = d.name) :
    memberChunk kind.rowTag (some (.obj (d.rowData kind ds))) e.payload = e.chunk kind := by
  cases kind with
  | textDelta => simp [memberChunk, DeltaKind.rowTag, Delta.rowData, Delta.chunk,
      Delta.chunkFields, hindex]
  | reasoningDelta => simp [memberChunk, DeltaKind.rowTag, Delta.rowData, Delta.chunk,
      Delta.chunkFields, hindex]
  | toolCallDelta =>
    cases hn : d.name with
    | none => simp [memberChunk, DeltaKind.rowTag, Delta.rowData, Delta.chunk, Delta.chunkFields,
        Delta.nameFields, Value.hasOwn, hindex, hid rfl, hname rfl, hn]
    | some v => simp [memberChunk, DeltaKind.rowTag, Delta.rowData, Delta.chunk,
        Delta.chunkFields, Delta.nameFields, Value.hasOwn, hindex, hid rfl, hname rfl, hn]

/-- A member that shares the row's constants. -/
private structure Shares (kind : DeltaKind) (d e : Delta) : Prop where
  turn : e.turn = d.turn
  step : e.step = d.step
  index : e.index = d.index
  id : kind = .toolCallDelta → e.id = d.id
  name : kind = .toolCallDelta → e.name = d.name

private theorem Shares.of_joins {e f : Delta} (h : Shares kind d e) (hj : e.Joins kind f) :
    Shares kind d f :=
  ⟨hj.turn.trans h.turn, hj.step.trans h.step, hj.index.trans h.index,
    fun hk ↦ (hj.id hk).trans (h.id hk), fun hk ↦ (hj.name hk).trans (h.name hk)⟩

/-- One turn of the expansion loop. -/
private theorem expandMembers_cons {all : List Delta} {e : Delta} (hs : Shares kind d e) {k : ℕ}
    (hseq : Number.addInt d.seq k = e.seq) {time : ℤ}
    (htime : (if k > 0 then Number.addInt time (Value.toInt (Delta.gaps all)[k - 1]?) else time)
      = e.time) (members : List Json) :
    expandMembers kind.rowTag (d.row kind all) k time (e.payload :: members)
      = e.json kind :: expandMembers kind.rowTag (d.row kind all) (k + 1) e.time members := by
  obtain ⟨hseq0, -, hdata⟩ := row_get kind d all
  have hdt : Value.toList (Value.get "dt" (some (.obj (d.rowData kind all)))) = Delta.gaps all := by
    cases kind <;> simp [Delta.rowData, Value.toList]
  have hturn : Value.get "turn" (some (.obj (d.rowData kind all))) = some d.turn := by
    cases kind <;> simp [Delta.rowData]
  have hstep : Value.get "step" (some (.obj (d.rowData kind all))) = some d.step := by
    cases kind <;> simp [Delta.rowData]
  rw [expandMembers, hdata, hseq0, hdt, htime, memberChunk_row kind d e all hs.index hs.id hs.name, hturn, hstep,
    Delta.json, hs.turn, hs.step]
  simp only [integer, Value.toInt_int, Value.toJson_some, hseq]

/-- The expansion loop from the member after `e`, the `k`-th, on. -/
private theorem expandMembers_chain (all : List Delta) {es : List Delta} :
    ∀ {e : Delta} {k : ℕ}, Shares kind d e → (e :: es).IsChain (Delta.Joins kind) →
      (∀ f ∈ e :: es, f.Valid kind) → e.seq = d.seq + k →
      (Delta.gaps all).drop k = Delta.gaps (e :: es) →
      expandMembers kind.rowTag (d.row kind all) (k + 1) e.time (Delta.payloads es)
        = es.map (Delta.json kind) := by
  induction es with
  | nil => intros; rfl
  | cons f es ih =>
    intro e k hs hchain hv hseq hdrop
    rw [List.isChain_cons_cons] at hchain
    have hf : f.Valid kind := hv f (by simp)
    have hsf := hs.of_joins hchain.1
    have hfseq : f.seq = d.seq + (k + 1 : ℕ) := by
      rw [hchain.1.seq, hseq]
      push_cast
      ring
    have hadd : Number.addInt d.seq (k + 1 : ℕ) = f.seq := by
      rw [Number.addInt, ← hfseq]
      exact Number.roundToDouble_of_isSafe hf.seq_safe
    have hgap : (Delta.gaps all)[k]? = some (integer (f.time - e.time)) := by
      have := congrArg List.head? hdrop
      rwa [List.head?_drop, gaps_cons_cons, List.head?_cons] at this
    have htime : (if k + 1 > 0 then
        Number.addInt e.time (Value.toInt (Delta.gaps all)[k + 1 - 1]?) else e.time) = f.time := by
      rw [if_pos (Nat.succ_pos k), Nat.add_sub_cancel, hgap, integer, Value.toInt_int, Number.addInt,
        show e.time + (f.time - e.time) = f.time from by ring]
      exact Number.roundToDouble_of_isSafe hf.time_safe
    have hnext : (Delta.gaps all).drop (k + 1) = Delta.gaps (f :: es) := by
      rw [← List.tail_drop, hdrop, gaps_cons_cons, List.tail_cons]
    have hrest := ih hsf hchain.2 (fun g hg ↦ hv g (List.mem_cons_of_mem e hg)) hfseq hnext
    rw [Delta.payloads, List.map_cons, expandMembers_cons hsf hadd htime, List.map_cons]
    exact congrArg _ hrest

/-- **A row decodes to its members.** -/
theorem decodeStorageRecord_row (h : (d :: ds).IsChain (Delta.Joins kind))
    (hv : ∀ e ∈ d :: ds, e.Valid kind) :
    decodeStorageRecord (d.row kind (d :: ds)) = .ok ((d :: ds).map (Delta.json kind)) := by
  obtain ⟨-, htime0, hdata⟩ := row_get kind d (d :: ds)
  have hd : d.Valid kind := hv d List.mem_cons_self
  have hs : Shares kind d d := ⟨rfl, rfl, rfl, fun _ ↦ rfl, fun _ ↦ rfl⟩
  have hmembers : Value.toList (Value.get kind.rowTag.payloadKey
      (some (.obj (d.rowData kind (d :: ds))))) = Delta.payloads (d :: ds) := by
    cases kind with
    | textDelta => simp [DeltaKind.rowTag, RowTag.payloadKey, Delta.rowData, Value.toList]
    | reasoningDelta => simp [DeltaKind.rowTag, RowTag.payloadKey, Delta.rowData, Value.toList]
    | toolCallDelta =>
      cases hn : d.name <;>
        simp [DeltaKind.rowTag, RowTag.payloadKey, Delta.rowData, Delta.nameFields, Value.toList,
          hn]
  have hzero : Number.addInt d.seq (0 : ℕ) = d.seq := by
    rw [Number.addInt, Nat.cast_zero, add_zero]
    exact Number.roundToDouble_of_isSafe hd.seq_safe
  rw [decodeStorageRecord, rowTag?_row]
  dsimp only
  rw [validateRow_row h hv, expandRow, hdata, hmembers, htime0, integer, Value.toInt_int]
  dsimp only
  rw [Delta.payloads, List.map_cons, expandMembers_cons hs hzero (if_neg (by decide)),
    List.map_cons]
  have hrest := expandMembers_chain (d :: ds) hs h hv (k := 0) (by simp) rfl
  exact congrArg (fun l ↦ Except.ok (_ :: l)) hrest

end Row

/-! ## Rows are well-formed values -/

private theorem wf_of_isNumber {x : Json} (h : Value.isNumber (some x) = true) : x.WF := by
  obtain ⟨n, hn⟩ := Value.isNumber_iff.mp h
  rw [Option.some.inj hn]
  trivial

private theorem wf_of_isString {x : Json} (h : Value.isString (some x) = true) : x.WF := by
  obtain ⟨s, hs⟩ := Value.isString_iff.mp h
  rw [Option.some.inj hs]
  trivial

private theorem wf_gaps (ds : List Delta) : Json.WFList (Delta.gaps ds) := by
  rw [Json.wfList_iff]
  intro x hx
  rw [Delta.gaps, ← List.map_uncurry_zip_eq_zipWith] at hx
  obtain ⟨p, -, rfl⟩ := List.mem_map.mp hx
  trivial

private theorem wf_rowData {kind : DeltaKind} {d : Delta} {ds : List Delta} (hd : d.Valid kind)
    (hv : ∀ e ∈ ds, e.Valid kind) : (Json.obj (d.rowData kind ds)).WF := by
  have hturn := wf_of_isNumber hd.turn_number
  have hstep := wf_of_isNumber hd.step_number
  have hindex := wf_of_isNumber hd.index_number
  have hgaps : (Json.arr (Delta.gaps ds)).WF := wf_gaps ds
  have hpayloads : (Json.arr (Delta.payloads ds)).WF := by
    rw [Json.WF, Json.wfList_iff]
    intro x hx
    obtain ⟨e, he, rfl⟩ := List.mem_map.mp hx
    exact wf_of_isString (hv e he).payload_string
  have htexts : OrderedKeys [js "turn", js "step", js "index", js "dt", js "texts"] := by decide
  have hargs : OrderedKeys [js "turn", js "step", js "index", js "dt", js "id", js "args"] := by
    decide
  have hnamed : OrderedKeys
      [js "turn", js "step", js "index", js "dt", js "id", js "name", js "args"] := by decide
  rw [Json.WF]
  cases kind with
  | textDelta => exact ⟨htexts, hturn, hstep, hindex, hgaps, hpayloads, trivial⟩
  | reasoningDelta => exact ⟨htexts, hturn, hstep, hindex, hgaps, hpayloads, trivial⟩
  | toolCallDelta =>
    have hid := wf_of_isString (hd.id_string rfl)
    rw [Delta.rowData]
    cases hname : d.name with
    | none => exact ⟨hargs, hturn, hstep, hindex, hgaps, hid, hpayloads, trivial⟩
    | some v =>
      have hv := wf_of_isString (hd.name_string rfl v hname)
      exact ⟨hnamed, hturn, hstep, hindex, hgaps, hid, hv, hpayloads, trivial⟩

/-- A rebuilt event is a JSON value. -/
theorem Delta.Valid.json_wf {kind : DeltaKind} {d : Delta} (hd : d.Valid kind) :
    (d.json kind).WF := by
  have hturn := wf_of_isNumber hd.turn_number
  have hstep := wf_of_isNumber hd.step_number
  have hindex := wf_of_isNumber hd.index_number
  have hpayload := wf_of_isString hd.payload_string
  have htext : OrderedKeys [js "type", js "index", js "text"] := by decide
  have hcall : OrderedKeys [js "type", js "index", js "id", js "argumentsDelta"] := by decide
  have hnamed : OrderedKeys
      [js "type", js "index", js "id", js "name", js "argumentsDelta"] := by decide
  have hchunk : (d.chunk kind).WF := by
    rw [Delta.chunk, Json.WF]
    cases kind with
    | textDelta => exact ⟨htext, trivial, hindex, hpayload, trivial⟩
    | reasoningDelta => exact ⟨htext, trivial, hindex, hpayload, trivial⟩
    | toolCallDelta =>
      have hid := wf_of_isString (hd.id_string rfl)
      rw [Delta.chunkFields]
      cases hname : d.name with
      | none => exact ⟨hcall, trivial, hindex, hid, hpayload, trivial⟩
      | some v =>
        have hv := wf_of_isString (hd.name_string rfl v hname)
        exact ⟨hnamed, trivial, hindex, hid, hv, hpayload, trivial⟩
  have hdata : OrderedKeys [js "turn", js "step", js "chunk"] := by decide
  have hevent : OrderedKeys [js "type", js "seq", js "time", js "data"] := by decide
  rw [Delta.json, Json.WF]
  exact ⟨hevent, trivial, trivial, trivial, ⟨hdata, hturn, hstep, hchunk, trivial⟩, trivial⟩

theorem Delta.row_wf {kind : DeltaKind} {d : Delta} {ds : List Delta} (hd : d.Valid kind)
    (hv : ∀ e ∈ ds, e.Valid kind) : (d.row kind ds).WF := by
  have hkeys : OrderedKeys [js "type", js "seq0", js "time0", js "data"] := by decide
  rw [Delta.row, Json.WF]
  exact ⟨hkeys, trivial, trivial, trivial, wf_rowData hd hv, trivial⟩

/-! ## Whole batches -/

/-- What decoding gives back for one part of a batch: packed members in the key order of the
decoder, other events as they are. -/
def rebuilt (part : List SessionEvent) : List Json :=
  match part.head?.bind classify with
  | some kind =>
    if part.length ≥ MIN_RUN then part.map fun e ↦ (Delta.ofEvent kind e).json kind
    else part.map SessionEvent.json
  | none => part.map SessionEvent.json

theorem decodeStorageRecords_append {xs ys : List Json} {vs ws : List Json}
    (hx : decodeStorageRecords xs = .ok vs) (hy : decodeStorageRecords ys = .ok ws) :
    decodeStorageRecords (xs ++ ys) = .ok (vs ++ ws) := by
  induction xs generalizing vs with
  | nil =>
    obtain rfl : [] = vs := Except.ok.inj hx
    exact hy
  | cons x xs ih =>
    rw [decodeStorageRecords] at hx
    rw [List.cons_append, decodeStorageRecords]
    cases hd : decodeStorageRecord x with
    | error e => simp [hd] at hx
    | ok us =>
      cases hr : decodeStorageRecords xs with
      | error e => simp [hd, hr] at hx
      | ok rest =>
        simp only [hd, hr] at hx
        obtain rfl : us ++ rest = vs := Except.ok.inj hx
        simp only [ih hr, List.append_assoc]

theorem decodeStorageRecords_cons {x : Json} {xs vs : List Json}
    (h : decodeStorageRecords (x :: xs) = .ok vs) : ∃ first rest,
      decodeStorageRecord x = .ok first ∧ decodeStorageRecords xs = .ok rest ∧
        vs = first ++ rest := by
  rw [decodeStorageRecords] at h
  cases hx : decodeStorageRecord x with
  | error e => simp [hx] at h
  | ok first =>
    cases hxs : decodeStorageRecords xs with
    | error e => simp [hx, hxs] at h
    | ok rest =>
      simp only [hx, hxs] at h
      exact ⟨first, rest, rfl, rfl, (Except.ok.inj h).symm⟩

/-- What decodes as a whole decodes in two parts. -/
theorem exists_decode_of_append {xs ys vs : List Json}
    (h : decodeStorageRecords (xs ++ ys) = .ok vs) : ∃ us ws,
      decodeStorageRecords xs = .ok us ∧ decodeStorageRecords ys = .ok ws ∧ vs = us ++ ws := by
  induction xs generalizing vs with
  | nil => exact ⟨[], vs, rfl, h, rfl⟩
  | cons x xs ih =>
    obtain ⟨first, rest, hx, hrest, rfl⟩ := decodeStorageRecords_cons h
    obtain ⟨us, ws, hus, hws, rfl⟩ := ih hrest
    refine ⟨first ++ us, ws, ?_, hws, (List.append_assoc _ _ _).symm⟩
    simp only [decodeStorageRecords, hx, hus]

theorem decodeStorageRecords_flatMap {α : Type} {parts : List α} {f g : α → List Json}
    (h : ∀ p ∈ parts, decodeStorageRecords (f p) = .ok (g p)) :
    decodeStorageRecords (parts.flatMap f) = .ok (parts.flatMap g) := by
  induction parts with
  | nil => rfl
  | cons p parts ih =>
    rw [List.flatMap_cons, List.flatMap_cons]
    exact decodeStorageRecords_append (h p List.mem_cons_self)
      (ih fun q hq ↦ h q (List.mem_cons_of_mem p hq))

/-- Events stored one by one come back as they are. -/
theorem decodeStorageRecords_json (events : List SessionEvent) :
    decodeStorageRecords (events.map SessionEvent.json) = .ok (events.map SessionEvent.json) := by
  have hone : ∀ e ∈ events, decodeStorageRecords [e.json] = .ok [e.json] := by
    intro e _
    have hrow : rowTag? e.json = none := e.not_row
    simp [decodeStorageRecords, decodeStorageRecord, hrow]
  have hall := decodeStorageRecords_flatMap hone
  rwa [← List.map_eq_flatMap] at hall

private theorem isChain_continues {kind : DeltaKind} {part : List SessionEvent}
    (h : part.IsChain fun a b ↦ joins a b = true) (hk : ∀ e ∈ part, classify e = some kind) :
    part.IsChain fun a b ↦ continues a b kind = true := by
  refine h.imp_of_mem_imp fun a b ha _ hjoin ↦ ?_
  obtain ⟨k, hk1, -, hc⟩ := joins_eq_true_iff.mp hjoin
  obtain rfl : kind = k := Option.some.inj ((hk a ha).symm.trans hk1)
  exact hc

/-- A part decodes to its events, rebuilt. -/
theorem decode_packRun {part : List SessionEvent}
    (hchain : part.IsChain fun a b ↦ joins a b = true) :
    decodeStorageRecords (packRun part) = .ok (rebuilt part) := by
  rw [packRun, rebuilt]
  cases hk : part.head?.bind classify with
  | none => exact decodeStorageRecords_json _
  | some kind =>
    dsimp only
    by_cases hlen : part.length ≥ MIN_RUN
    · obtain ⟨first, rest, rfl⟩ : ∃ a l, part = a :: l := by
        cases part with
        | nil => exact absurd hlen (by decide)
        | cons a l => exact ⟨a, l, rfl⟩
      have hkind := classify_of_isChain hchain hk
      have hrec : ∀ e ∈ first :: rest, Recognised kind e :=
        fun e he ↦ recognised_of_classify (hkind e he)
      have hcont := isChain_continues hchain hkind
      have hjoins : ((first :: rest).map (Delta.ofEvent kind)).IsChain (Delta.Joins kind) := by
        rw [List.isChain_map]
        exact hcont.imp_of_mem_imp fun a b ha _ hc ↦ Delta.joins_of_continues (hrec a ha) hc
      have hvalid : ∀ d ∈ (first :: rest).map (Delta.ofEvent kind), d.Valid kind := by
        intro d hd
        obtain ⟨e, he, rfl⟩ := List.mem_map.mp hd
        exact (hrec e he).valid
      rw [List.map_cons] at hjoins hvalid
      rw [if_pos hlen, if_pos hlen, buildRow_eq hrec hcont, List.map_cons, decodeStorageRecords,
        decodeStorageRecord_row hjoins hvalid]
      simp [decodeStorageRecords]
    · rw [if_neg hlen, if_neg hlen]
      exact decodeStorageRecords_json _

/-- The records of a part are well-formed values. -/
private theorem wf_packRun {part : List SessionEvent}
    (hchain : part.IsChain fun a b ↦ joins a b = true) : ∀ x ∈ packRun part, x.WF := by
  have hjson : ∀ x ∈ part.map SessionEvent.json, x.WF := by
    intro x hx
    obtain ⟨e, -, rfl⟩ := List.mem_map.mp hx
    exact e.json_wf
  rw [packRun]
  cases hk : part.head?.bind classify with
  | none => exact hjson
  | some kind =>
    dsimp only
    by_cases hlen : part.length ≥ MIN_RUN
    · obtain ⟨first, rest, rfl⟩ : ∃ a l, part = a :: l := by
        cases part with
        | nil => exact absurd hlen (by decide)
        | cons a l => exact ⟨a, l, rfl⟩
      have hkind := classify_of_isChain hchain hk
      have hrec : ∀ e ∈ first :: rest, Recognised kind e :=
        fun e he ↦ recognised_of_classify (hkind e he)
      rw [if_pos hlen, buildRow_eq hrec (isChain_continues hchain hkind)]
      intro x hx
      rw [List.mem_singleton.mp hx]
      refine Delta.row_wf (hrec first List.mem_cons_self).valid fun d hd ↦ ?_
      obtain ⟨e, he, rfl⟩ := List.mem_map.mp hd
      exact (hrec e he).valid
    · rw [if_neg hlen]
      exact hjson

theorem wf_packChunkRuns (events : List SessionEvent) : ∀ x ∈ packChunkRuns events, x.WF := by
  rw [packChunkRuns_eq]
  intro x hx
  obtain ⟨part, hpart, hmem⟩ := List.mem_flatMap.mp hx
  exact wf_packRun (List.isChain_of_mem_splitBy hpart) x hmem

/-- **What a packed batch decodes to.** -/
theorem decode_packChunkRuns (events : List SessionEvent) :
    decodeStorageRecords (packChunkRuns events) = .ok ((events.splitBy joins).flatMap rebuilt) := by
  rw [packChunkRuns_eq]
  exact decodeStorageRecords_flatMap fun part hpart ↦
    decode_packRun (List.isChain_of_mem_splitBy hpart)

/-- Rebuilding a part gives up key order only. -/
theorem rebuilt_sameValue {part : List SessionEvent}
    (hchain : part.IsChain fun a b ↦ joins a b = true) :
    List.Forall₂ Json.SameValue (rebuilt part) (part.map SessionEvent.json) := by
  have hrefl : List.Forall₂ Json.SameValue (part.map SessionEvent.json)
      (part.map SessionEvent.json) := List.forall₂_same.mpr fun x _ ↦ .refl x
  rw [rebuilt]
  cases hk : part.head?.bind classify with
  | none => exact hrefl
  | some kind =>
    dsimp only
    by_cases hlen : part.length ≥ MIN_RUN
    · rw [if_pos hlen, List.forall₂_map_left_iff, List.forall₂_map_right_iff, List.forall₂_same]
      intro e he
      obtain ⟨first, rest, rfl⟩ := List.exists_cons_of_ne_nil (List.ne_nil_of_mem he)
      exact (recognised_of_classify (classify_of_isChain hchain hk e he)).same.symm
    · rw [if_neg hlen]
      exact hrefl

theorem forall₂_rebuilt_splitBy (events : List SessionEvent) :
    List.Forall₂ Json.SameValue ((events.splitBy joins).flatMap rebuilt)
      (events.map SessionEvent.json) := by
  have hparts : ∀ parts : List (List SessionEvent),
      (∀ part ∈ parts, part.IsChain fun a b ↦ joins a b = true) →
      List.Forall₂ Json.SameValue (parts.flatMap rebuilt)
        (parts.flatten.map SessionEvent.json) := by
    intro parts hall
    induction parts with
    | nil => exact .nil
    | cons part parts ih =>
      rw [List.flatMap_cons, List.flatten_cons, List.map_append]
      exact List.rel_append (rebuilt_sameValue (hall part List.mem_cons_self))
        (ih fun q hq ↦ hall q (List.mem_cons_of_mem part hq))
  have h := hparts (events.splitBy joins) fun part hp ↦ List.isChain_of_mem_splitBy hp
  rwa [List.flatten_splitBy] at h

/-- **Chunk rows are lossless**: however a list of events is split into batches that are packed
separately, decoding the records gives the list back, up to the order of keys. -/
theorem decode_packed_batches (batches : List (List SessionEvent)) :
    ∃ decoded, decodeStorageRecords (batches.flatMap packChunkRuns) = .ok decoded ∧
      List.Forall₂ Json.SameValue decoded (batches.flatten.map SessionEvent.json) := by
  refine ⟨_, decodeStorageRecords_flatMap fun batch _ ↦ decode_packChunkRuns batch, ?_⟩
  induction batches with
  | nil => exact .nil
  | cons batch batches ih =>
    rw [List.flatMap_cons, List.flatten_cons, List.map_append]
    exact List.rel_append (forall₂_rebuilt_splitBy batch) ih

/-- Four deltas, the clock stepping back once, packed as a run of three and a run of one. -/
example : ([[SessionEvent.textDelta 0 100 "a", .textDelta 1 90 "b", .textDelta 2 95 "c"],
    [.textDelta 3 96 "d"]].flatMap packChunkRuns).length = 2 := by decide

end XxAgent
