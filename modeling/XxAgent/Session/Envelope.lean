import XxAgent.Log.PrefixScan
import XxAgent.Session.Event

/-!
# The event envelope

The properties an event may have and the checks a reader makes of them. An event that passes is the
object with these properties up to their order (`perm_columns`), so a store that keeps a column for
each of them keeps the event.
-/

namespace XxAgent

open Ecma

/-- The names an event envelope knows. -/
def envelopeKeys : List String :=
  ["type", "seq", "time", "data", "surfaceOp", "sourceEventSeqs", "ignorable"]

namespace SessionEvent

/-- The envelope of an event in column order. -/
def columnFields (event : SessionEvent) : List (String × Value) := [
  ("type", event.get "type"),
  ("seq", event.get "seq"),
  ("time", event.get "time"),
  ("data", event.get "data"),
  ("sourceEventSeqs", event.get "sourceEventSeqs"),
  ("surfaceOp", event.get "surfaceOp"),
  ("ignorable", event.get "ignorable")]

/-- The properties that are there, in column order. -/
def columns (event : SessionEvent) : Fields := definedFields event.columnFields

/-- What the envelope check says of the single properties. -/
structure Envelope (event : SessionEvent) : Prop where
  keys_subset : ∀ k ∈ keys event.fields, k ∈ envelopeKeys.map js
  type : ∃ s, event.get "type" = some (.str s)
  seq : ∃ n : ℕ, event.get "seq" = some (integer n) ∧ Number.IsSafe n
  time : ∃ n, event.get "time" = some (integer n) ∧ Number.IsSafe n
  data : ∃ x, event.get "data" = some x
  ignorable : event.get "ignorable" = none ∨ event.get "ignorable" = some (.bool true)

private theorem nodup_columnFields (event : SessionEvent) :
    (event.columnFields.map Prod.fst).Nodup := by
  simp only [columnFields, List.map_cons, List.map_nil]
  decide +kernel

private theorem columnFields_eq (event : SessionEvent) : ∀ p ∈ event.columnFields,
    p.1 ∈ envelopeKeys ∧ p.2 = event.get p.1 := by
  simp [columnFields, envelopeKeys]

private theorem mem_columnFields {k : String} (h : k ∈ envelopeKeys) (event : SessionEvent) :
    (k, event.get k) ∈ event.columnFields := by
  simp only [envelopeKeys, List.mem_cons, List.not_mem_nil, or_false] at h
  rcases h with rfl | rfl | rfl | rfl | rfl | rfl | rfl <;> simp [columnFields]

/-- **The columns are the event**, up to the order of its properties. -/
theorem perm_columns {event : SessionEvent} (h : event.Envelope) :
    event.fields.Perm event.columns := by
  have hnd := nodup_columnFields event
  refine perm_of_fieldOf event.wf.nodup (nodup_keys_definedFields hnd) fun k ↦ ?_
  by_cases hk : k ∈ envelopeKeys.map js
  · obtain ⟨name, hname, rfl⟩ := List.mem_map.mp hk
    exact (fieldOf_definedFields hnd (mem_columnFields hname event)).symm
  · rw [fieldOf_eq_none_iff.mpr fun hc ↦ hk (h.keys_subset k hc), eq_comm, fieldOf_eq_none_iff]
    intro hc
    obtain ⟨p, hp, rfl⟩ := List.mem_map.mp ((keys_definedFields_sublist _).subset hc)
    exact hk (List.mem_map_of_mem (columnFields_eq event p hp).1)

theorem sameValue_columns {event : SessionEvent} (h : event.Envelope) :
    (Json.obj event.columns).SameValue event.json :=
  .perm (perm_columns h).symm

end SessionEvent

/-!
## The preserved prefix of a session log

What both backends mean by recovering a log. An entry may stand at index `n` when its `seq` is `n`,
and a `turn/end` commits everything before it: a turn that ended cannot have lost an event. So a
hole or a gap is the tail of a crash unless a completed turn follows it.
-/

/-- The event continues a log of `n` events. -/
def continuesAt (n : ℕ) (event : Json) : Bool := decide (event.get? "seq" = some (integer n))

/-- The event ends a turn. -/
def isTurnEnd (event : Json) : Bool := decide (event.get? "type" = some (text "turn/end"))

/-- The prefix a recovery preserves of stored cells, the first of which is expected to carry `n`;
`none` is a corrupt log. -/
def recoverPrefix (n : ℕ) (cells : List (Option Json)) : Option (List Json) :=
  PrefixScan.scan continuesAt isTurnEnd n cells

/-- The same value, for values whose own keys are distinct. -/
def SameObject (x y : Json) : Prop := x.SameValue y ∧ x.NodupKeys

theorem continuesAt_eq {x y : Json} (h : SameObject x y) (n : ℕ) :
    continuesAt n x = continuesAt n y := by
  have hy := (h.1.get? h.2).1
  rw [continuesAt, continuesAt, decide_eq_decide]
  exact ⟨h.1.get?_num h.2, h.1.symm.get?_num hy⟩

theorem isTurnEnd_eq {x y : Json} (h : SameObject x y) : isTurnEnd x = isTurnEnd y := by
  have hy := (h.1.get? h.2).1
  rw [isTurnEnd, isTurnEnd, decide_eq_decide]
  exact ⟨h.1.get?_str h.2, h.1.symm.get?_str hy⟩

/-- **Recovery does not see key order.** -/
theorem recoverPrefix_rel {cells cells' : List (Option Json)}
    (h : List.Forall₂ (Option.Rel SameObject) cells cells') (n : ℕ) :
    Option.Rel (List.Forall₂ SameObject) (recoverPrefix n cells) (recoverPrefix n cells') := by
  have hok (n : ℕ) (x y : Json) (hxy : SameObject x y) : continuesAt n x = continuesAt n y :=
    continuesAt_eq hxy n
  have hfinal (x y : Json) (hxy : SameObject x y) : isTurnEnd x = isTurnEnd y := isTurnEnd_eq hxy
  exact PrefixScan.scan_rel hok hfinal h n

end XxAgent
