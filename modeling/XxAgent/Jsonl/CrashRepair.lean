import XxAgent.Jsonl.Recovery
import XxAgent.Session.Repair

/-!
# Crashes and repairs of a log file

Loading a session whose process crashed makes the repair durable: the torn tail is cut off, then the
closers of what was recovered are appended. These are two steps, and the process may crash again
anywhere in them. So the file goes through rounds of crashes and repairs; what every round keeps is
that the records written are a prefix of one log and of the closers of that prefix.
-/

namespace XxAgent.Jsonl

open Ecma Framing

/-- A typed event with the object that is written of it. -/
structure LoggedEvent where
  event : LogEvent
  written : SessionEvent
  seq : written.get "seq" = some (integer event.seq)

/-- The typed events. -/
def typedEvents (events : List LoggedEvent) : List LogEvent := events.map LoggedEvent.event

/-- The objects that are written. -/
def jsonEvents (events : List LoggedEvent) : List Json :=
  (events.map LoggedEvent.written).map SessionEvent.json

/-- `commitRepair`: truncate a torn tail, then append the closers, if there are any. -/
def commitRepair (file : List UInt8) (scan : SessionLogScan) (closers : List SessionEvent)
    (packChunks : Bool) : List UInt8 :=
  let file := if scan.committedBytes < file.length then file.take scan.committedBytes else file
  if closers = [] then file else file ++ encodeEventBatch closers packChunks

/-- The file holds a part of these records, and they are of these events. -/
structure Holds (header : SessionHeader) (file : List UInt8) (records : List Json)
    (events : List LoggedEvent) : Prop where
  wf : ∀ r ∈ records, r.WF
  begins : headerRecord header <+: file
  file : file <+: headerRecord header ++ recordLines records
  decodes : ∃ decoded, decodeStorageRecords records = .ok decoded ∧
    List.Forall₂ Json.SameValue decoded (jsonEvents events)
  numbered : (typedEvents events).map (·.seq) = List.range events.length

/-- What a scan finds in the file: complete records, whose events are the first ones. -/
structure Recovered (header : SessionHeader) (file : List UInt8) (complete : List Json)
    (events : List LoggedEvent) (scan : SessionLogScan) : Prop where
  scans : scanLog file = .ok scan
  events : List.Forall₂ Json.SameValue scan.events (jsonEvents (events.take scan.events.length))
  cut : file.take scan.committedBytes = headerRecord header ++ recordLines complete
  wf : ∀ r ∈ complete, r.WF
  decodes : decodeStorageRecords complete = .ok scan.events

section Rounds

variable {header : SessionHeader} {file : List UInt8} {records complete : List Json}
  {events : List LoggedEvent} {scan : SessionLogScan}

theorem jsonEvents_append (front back : List LoggedEvent) :
    jsonEvents (front ++ back) = jsonEvents front ++ jsonEvents back := by
  rw [jsonEvents, List.map_append, List.map_append, jsonEvents, jsonEvents]

theorem contiguousFrom_jsonEvents {n : ℕ}
    (h : (typedEvents events).map (·.seq) = List.range' n events.length) :
    ContiguousFrom n (jsonEvents events) := by
  induction events generalizing n with
  | nil => trivial
  | cons e events ih =>
    rw [typedEvents, List.map_cons, List.map_cons, List.length_cons, List.range'_succ,
      List.cons.injEq] at h
    refine ⟨?_, ih h.2⟩
    rw [← h.1]
    exact e.seq

/-- The records number their events. -/
theorem Holds.contiguous (h : Holds header file records events) {decoded : List Json}
    (hsame : List.Forall₂ Json.SameValue decoded (jsonEvents events)) : ContiguousFrom 0 decoded :=
  .of_sameValue hsame (contiguousFrom_jsonEvents (by rw [h.numbered, List.range_eq_range']))
    nodupKeys_of_mem_json

/-- A repair leaves the records that were complete, and those of the closers. -/
theorem Recovered.commitRepair_eq (h : Recovered header file complete events scan)
    (closers : List SessionEvent) (packChunks : Bool) :
    commitRepair file scan closers packChunks
      = headerRecord header ++ recordLines (complete ++ storageRecords closers packChunks) := by
  have hfile : (if scan.committedBytes < file.length then file.take scan.committedBytes else file)
      = headerRecord header ++ recordLines complete := by
    rw [← h.cut]
    split_ifs with hlt
    · rfl
    · exact (List.take_of_length_le (not_lt.mp hlt)).symm
  rw [commitRepair, hfile, recordLines, recordLines, List.map_append, frame_append]
  by_cases hnone : closers = []
  · have hempty : storageRecords [] packChunks = [] := by cases packChunks <;> rfl
    simp [hnone, hempty]
  · rw [if_neg hnone, encodeEventBatch_eq hnone, List.append_assoc, recordLines]

/-- The events of the repaired file are those that were recovered, and the closers. -/
theorem Recovered.holds (h : Recovered header file complete events scan)
    {closers : List LoggedEvent} (packChunks : Bool)
    (hnumbered : (typedEvents (events.take scan.events.length ++ closers)).map (·.seq)
      = List.range (events.take scan.events.length ++ closers).length) :
    Holds header (commitRepair file scan (closers.map LoggedEvent.written) packChunks)
      (complete ++ storageRecords (closers.map LoggedEvent.written) packChunks)
      (events.take scan.events.length ++ closers) := by
  obtain ⟨appended, happended, hsame⟩ :=
    exists_decode_storageRecords (closers.map LoggedEvent.written) packChunks
  rw [h.commitRepair_eq]
  refine ⟨fun r hr ↦ ?_, List.prefix_append _ _, List.prefix_refl _,
    ⟨_, decodeStorageRecords_append h.decodes happended, ?_⟩, hnumbered⟩
  · exact (List.mem_append.mp hr).elim (h.wf r) (wf_storageRecords _ packChunks r)
  · rw [jsonEvents_append]
    exact List.rel_append h.events hsame

end Rounds

/-! ## Runs of crashes and repairs -/

/-- A log that was repaired: its events so far, and their closers. -/
def repaired (log : List LogEvent) : List LogEvent := log ++ interruptedTurnClosers log

section Runs

variable {header : SessionHeader} {log : List LoggedEvent} {trace : SessionTrace}
  {file : List UInt8} {events : List LoggedEvent}

end Runs

end XxAgent.Jsonl
