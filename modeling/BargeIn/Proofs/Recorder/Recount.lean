import BargeIn.Proofs.Json.Library
import BargeIn.Proofs.Recorder.Buffer

/-! What the text of a log says. Read as a document it has the id of the session, how many
events were dropped, an entry for every event that the recorder holds and a value for every
key that something was said about. The texts are those that were told, with U+FFFD for
whatever in them is not UTF-8. -/

namespace BargeIn

open Text (ascii)
open Utf8 (repair)

namespace RecordedEvent

/-- What the log tells of an event; only a decision has an action and a reason. -/
def entry (e : RecordedEvent) : Json :=
  .object
    (if e.type = decisionType then
      [(ascii "action", .string (repair e.action)),
       (ascii "agent_speaking", .bool e.speaking),
       (ascii "data", .string (repair e.data)),
       (ascii "event_type", .string (repair e.type)),
       (ascii "reason", .string (repair e.reason)),
       (ascii "timestamp_ms", .integer e.elapsedMs)]
    else
      [(ascii "data", .string (repair e.data)),
       (ascii "event_type", .string (repair e.type)),
       (ascii "timestamp_ms", .integer e.elapsedMs)])

variable {e : RecordedEvent}

theorem mapText_document (e : RecordedEvent) : e.document.mapText repair = e.entry := by
  rw [document, entry]
  split <;> rfl

theorem readable_entry (h : Json.InRange e.elapsedMs) : e.entry.Readable := by
  have htext : ∀ t, (Json.string (repair t)).Readable := fun t => .string (Utf8.valid_repair t)
  have htime : (Json.integer e.elapsedMs).Readable := .integer h
  rw [entry]
  split
  · refine .object (by simp only [List.forall_mem_cons]; decide) ?_
    simp [htext, htime, Json.Readable.bool]
  · refine .object (by simp only [List.forall_mem_cons]; decide) ?_
    simp [htext, htime]

theorem merged_entry (e : RecordedEvent) : e.entry.merged = e.entry := by
  rw [entry]
  split <;> rfl

end RecordedEvent

namespace Recorder

variable {x : Recorder}

def describedFields (x : Recorder) : List (Text × Json) :=
  x.metadata.map fun m => (repair m.1, .string (repair m.2))

theorem mapText_document (x : Recorder) : x.document.mapText repair =
    .object [(ascii "dropped_events", .integer x.dropped),
      (ascii "events", .array (x.events.map (·.entry))),
      (ascii "metadata", .object x.describedFields),
      (ascii "session_id", .string (repair x.id))] := by
  have hevents : Json.mapTexts repair (x.events.map (·.document)) = x.events.map (·.entry) := by
    rw [Json.mapTexts_eq, List.map_map]
    exact List.map_congr_left fun e _ => e.mapText_document
  have hmetadata : Json.mapFields repair (x.metadata.map fun m => (m.1, .string m.2)) =
      x.describedFields := by
    rw [Json.mapFields_eq, List.map_map]
    rfl
  rw [← hevents, ← hmetadata]
  rfl

def recount (x : Recorder) : Json :=
  .object [(ascii "dropped_events", .integer x.dropped),
    (ascii "events", .array (x.events.map (·.entry))),
    (ascii "metadata", .ofMembers x.describedFields),
    (ascii "session_id", .string (repair x.id))]

structure Countable (x : Recorder) : Prop where
  dropped : x.dropped < 0x10000000000000000
  times : ∀ e ∈ x.events, Json.InRange e.elapsedMs

theorem readable_document (h : x.Countable) : (x.document.mapText repair).Readable := by
  have hdropped : Json.InRange x.dropped := by
    have hlt := h.dropped
    rw [Json.InRange]
    omega
  have hevents : ∀ e ∈ x.events.map (·.entry), e.Readable := by
    intro e he
    obtain ⟨told, htold, rfl⟩ := List.mem_map.1 he
    exact told.readable_entry (h.times told htold)
  have hkeys : ∀ f ∈ x.describedFields, Utf8.valid f.1 = true := by
    intro f hf
    obtain ⟨m, -, rfl⟩ := List.mem_map.1 hf
    exact Utf8.valid_repair m.1
  have hvalues : ∀ f ∈ x.describedFields, f.2.Readable := by
    intro f hf
    obtain ⟨m, -, rfl⟩ := List.mem_map.1 hf
    exact .string (Utf8.valid_repair m.2)
  rw [mapText_document]
  refine .object (by simp only [List.forall_mem_cons]; decide) ?_
  simp [Json.Readable.integer hdropped, Json.Readable.array hevents,
    Json.Readable.object hkeys hvalues, Json.Readable.string (Utf8.valid_repair x.id)]

theorem merged_document (x : Recorder) : (x.document.mapText repair).merged = x.recount := by
  have hevents : Json.mergedItems (x.events.map (·.entry)) = x.events.map (·.entry) := by
    refine Json.mergedItems_of_fixed fun item hm => ?_
    obtain ⟨e, -, rfl⟩ := List.mem_map.1 hm
    exact e.merged_entry
  have hmetadata : Json.mergedFields x.describedFields = x.describedFields := by
    refine Json.mergedFields_of_fixed fun f hf => ?_
    obtain ⟨m, -, rfl⟩ := List.mem_map.1 hf
    rfl
  have hfields : (x.document.mapText repair).merged =
      .object [(ascii "dropped_events", .integer x.dropped),
        (ascii "events", .array (Json.mergedItems (x.events.map (·.entry)))),
        (ascii "metadata", .ofMembers (Json.mergedFields x.describedFields)),
        (ascii "session_id", .string (repair x.id))] := by
    rw [mapText_document]
    rfl
  rw [hfields, hevents, hmetadata, recount]

theorem read_logText [JsonLibrary] (hlib : JsonLibrary.Documented) (h : x.Countable) :
    JsonLibrary.read (x.logText ++ [10]) = .ok x.recount := by
  rw [logText, hlib.replaces, hlib.reads_back _ (readable_document h), merged_document]

theorem inRange_elapsedMs (x : Recorder) (now : Nanos) : Json.InRange (x.elapsedMs now) := by
  obtain ⟨hlow, hhigh⟩ := inWord_toWord (now - x.startedAt)
  have hquotient : (x.elapsedMs now).natAbs = (elapsed x.startedAt now).natAbs / 1000000 :=
    Int.natAbs_tdiv _ _
  rw [elapsed] at hquotient
  rw [Json.InRange]
  omega

theorem inRange_recorded (x : Recorder) (now : Nanos) (what : Report) :
    Json.InRange (what.recorded (x.elapsedMs now)).elapsedMs := by
  cases what <;> exact inRange_elapsedMs x now

end Recorder
end BargeIn
