import Mathlib.Data.List.Basic

/-!
# Incremental readers

A reader takes messages off the front of a buffer for as long as it can, and waits for more when it
cannot. Whatever it has taken does not depend on what comes behind, so that reading a stream chunk
by chunk gives what reading it at once gives, as long as no chunk makes it fail.
-/

namespace Incremental

/-- What a reader makes of its buffer. -/
inductive Step (β μ ε : Type*) where
  | wait
  | ready (message : μ) (rest : List β)
  | fail (fault : ε)

/-- A reader of messages. -/
structure Reader (β μ ε : Type*) where
  next : List β → Step β μ ε
  /-- A message takes something off the buffer. -/
  shorter : ∀ {s m r}, next s = .ready m r → r.length < s.length
  /-- A message does not depend on what follows it. -/
  append : ∀ {s m r} (t), next s = .ready m r → next (s ++ t) = .ready m (r ++ t)
  nil : next [] = .wait

variable {β μ ε : Type*} (reader : Reader β μ ε)

namespace Reader

/-- All messages at the front of a buffer, and what is left or why the reader has failed. -/
def drain (s : List β) : List μ × Except ε (List β) :=
  match h : reader.next s with
  | .wait => ([], .ok s)
  | .fail fault => ([], .error fault)
  | .ready message rest =>
    have := reader.shorter h
    let drained := drain rest
    (message :: drained.1, drained.2)
termination_by s.length

variable {reader} {s t rest : List β} {m : μ} {ms : List μ} {fault : ε}

theorem drain_of_wait (h : reader.next s = .wait) : reader.drain s = ([], .ok s) := by
  rw [drain]
  split
  · rfl
  · next heq => rw [h] at heq; cases heq
  · next heq => rw [h] at heq; cases heq

theorem drain_of_fail (h : reader.next s = .fail fault) :
    reader.drain s = ([], .error fault) := by
  rw [drain]
  split
  · next heq => rw [h] at heq; cases heq
  · next heq => rw [h] at heq; cases heq; rfl
  · next heq => rw [h] at heq; cases heq

theorem drain_of_ready (h : reader.next s = .ready m rest) :
    reader.drain s = (m :: (reader.drain rest).1, (reader.drain rest).2) := by
  rw [drain]
  split
  · next heq => rw [h] at heq; cases heq
  · next heq => rw [h] at heq; cases heq
  · next heq => rw [h] at heq; cases heq; rfl

/-- What is left over waits. -/
theorem next_of_drain (h : reader.drain s = (ms, .ok rest)) : reader.next rest = .wait := by
  induction hn : s.length using Nat.strongRecOn generalizing s ms with
  | _ n ih =>
    cases hs : reader.next s with
    | wait =>
      rw [drain_of_wait hs] at h
      obtain ⟨-, hrest⟩ := Prod.mk.inj h
      rwa [← Except.ok.inj hrest]
    | fail fault =>
      rw [drain_of_fail hs] at h
      cases (Prod.mk.inj h).2
    | ready message tail =>
      rw [drain_of_ready hs] at h
      have hlength := reader.shorter hs
      exact ih tail.length (hn ▸ hlength) (Prod.ext rfl (Prod.mk.inj h).2) rfl

/-- **Reading on**: what has been taken stays taken, and the reader goes on with what was left. -/
theorem drain_append (h : reader.drain s = (ms, .ok rest)) (t : List β) :
    reader.drain (s ++ t)
      = (ms ++ (reader.drain (rest ++ t)).1, (reader.drain (rest ++ t)).2) := by
  induction hn : s.length using Nat.strongRecOn generalizing s ms with
  | _ n ih =>
    cases hs : reader.next s with
    | wait =>
      rw [drain_of_wait hs] at h
      obtain ⟨rfl, hrest⟩ := Prod.mk.inj h
      rw [Except.ok.inj hrest]
      rfl
    | fail fault =>
      rw [drain_of_fail hs] at h
      cases (Prod.mk.inj h).2
    | ready message tail =>
      rw [drain_of_ready hs] at h
      have hlength := reader.shorter hs
      obtain ⟨rfl, htail⟩ := Prod.mk.inj h
      rw [drain_of_ready (reader.append t hs),
        ih tail.length (hn ▸ hlength) (Prod.ext rfl htail) rfl]
      rfl

/-! ## Chunks -/

variable (reader) in
/-- What a reader returns over some chunks before it first fails, and what it has left. -/
def feed : List β → List (List β) → List μ × Except ε (List β)
  | buffer, [] => ([], .ok buffer)
  | buffer, chunk :: chunks =>
    match reader.drain (buffer ++ chunk) with
    -- What was taken off the buffer in this round is lost.
    | (_, .error fault) => ([], .error fault)
    | (messages, .ok rest) =>
      let fed := feed rest chunks
      (messages ++ fed.1, fed.2)

variable {buffer : List β} {chunks : List (List β)}

/-- Reading chunks is reading the stream, if no chunk fails. -/
theorem drain_of_feed (hbuffer : reader.next buffer = .wait)
    (h : reader.feed buffer chunks = (ms, .ok rest)) :
    reader.drain (buffer ++ chunks.flatten) = (ms, .ok rest) := by
  induction chunks generalizing buffer ms with
  | nil =>
    rw [List.flatten_nil, List.append_nil, drain_of_wait hbuffer]
    exact h
  | cons chunk chunks ih =>
    rw [feed] at h
    rcases hdrain : reader.drain (buffer ++ chunk) with ⟨messages, fault | left⟩
    · rw [hdrain] at h
      cases (Prod.mk.inj h).2
    · rw [hdrain] at h
      obtain ⟨rfl, hrest⟩ := Prod.mk.inj h
      have hfed := ih (next_of_drain hdrain) (Prod.ext rfl hrest)
      rw [List.flatten_cons, ← List.append_assoc, drain_append hdrain, hfed]

/-- No part of the stream from its start makes the reader fail. -/
def Calm (reader : Reader β μ ε) (s : List β) : Prop :=
  ∀ p q, s = p ++ q → ∃ messages left, reader.drain p = (messages, .ok left)

/-- A calm stream is read alike in any chunks. -/
theorem feed_of_calm (hcalm : Calm reader (s ++ chunks.flatten))
    (hs : reader.drain s = (ms, .ok buffer)) :
    ∃ messages left, reader.feed buffer chunks = (messages, .ok left) := by
  induction chunks generalizing s ms buffer with
  | nil => exact ⟨[], buffer, rfl⟩
  | cons chunk chunks ih =>
    rw [List.flatten_cons, ← List.append_assoc] at hcalm
    obtain ⟨messages, left, hpart⟩ := hcalm (s ++ chunk) chunks.flatten rfl
    have hround := drain_append hs chunk
    rw [hpart] at hround
    obtain ⟨-, hleft⟩ := Prod.mk.inj hround
    obtain ⟨others, last, hfed⟩ := ih hcalm hpart
    refine ⟨(reader.drain (buffer ++ chunk)).1 ++ others, last, ?_⟩
    have hdrain : reader.drain (buffer ++ chunk)
        = ((reader.drain (buffer ++ chunk)).1, .ok left) := Prod.ext rfl hleft.symm
    rw [feed, hdrain]
    simp only [hfed]

end Reader

end Incremental
