import Mathlib
import TestJob.Audit
import TestJob.Proofs.Json.Line
import TestJob.Proofs.Json.Reader

/-!
The lines of events. Whatever texts an event has, its line holds no end of a line and is read back
as the object of the event (`Event.newline_not_mem_line`, `Dated.read?_line`). What is logged are
the lines of events at their times, each with its end (`logged`); events that are recorded one after
the other have the times that the clock gives (`dated`).
-/

namespace TestJob.Audit

namespace Event

variable (event : Event) (milliseconds : UInt64)

/-- An event is an object of texts, nulls and a time. -/
theorem toJson_eq_obj (p : Json → Prop) (null : p .null) (str : ∀ s, p (.str s))
    (time : ∀ t, p (.num (.ofUInt64 t))) :
    ∃ members, event.toJson milliseconds = .obj members ∧ ∀ m ∈ members, p m.2 := by
  have htext : ∀ text, p (Json.textOrNull text) := by
    intro text
    cases text with
    | none => exact null
    | some s => exact str s
  refine ⟨_, rfl, ?_⟩
  simp only [List.forall_mem_cons, str, time, htext, List.not_mem_nil, false_implies, implies_true,
    and_self]

theorem floatFree_toJson : Json.FloatFree (event.toJson milliseconds) := by
  obtain ⟨members, heq, hmembers⟩ := event.toJson_eq_obj milliseconds Json.FloatFree trivial
    (fun _ => trivial) fun _ => ⟨_, _, rfl⟩
  rw [heq]
  exact Json.eachNumber_obj.2 hmembers

theorem depth_toJson_le : Json.depth (event.toJson milliseconds) ≤ 1 := by
  obtain ⟨members, heq, hmembers⟩ := event.toJson_eq_obj milliseconds
    (fun value => Json.depth value ≤ 0) (Nat.le_refl 0) (fun _ => Nat.le_refl 0)
    fun _ => Nat.le_refl 0
  rw [heq]
  exact Json.depth_obj_le_iff.2 hmembers

/-- The line of an event is one line. -/
theorem newline_not_mem_line : '\n' ∉ (event.line milliseconds).toList :=
  Json.newline_not_mem_compact _

/-- The line of an event is read as the object of the event, its members put in order. -/
theorem exists_read?_line : ∃ members, event.toJson milliseconds = .obj members ∧
    Json.read? (event.line milliseconds) = some (.obj (Members.ofList members)) := by
  obtain ⟨members, heq, hmembers⟩ := event.toJson_eq_obj milliseconds
    (fun value => Json.rearrange Members.ofList value = value) rfl (fun _ => rfl) fun _ => rfl
  have hsame : members.map (fun m => (m.1, Json.rearrange Members.ofList m.2)) = members.map id :=
    List.map_congr_left fun m hm => Prod.ext rfl (hmembers m hm)
  refine ⟨members, heq, ?_⟩
  rw [line, Json.read?_compact_of_floatFree (event.floatFree_toJson milliseconds)
    ((event.depth_toJson_le milliseconds).trans (by decide)), heq, Json.rearrange_obj, hsame,
    List.map_id]

end Event

/-- An event and the time at which it is recorded. -/
structure Dated where
  milliseconds : UInt64
  event : Event
deriving DecidableEq

namespace Dated

/-- The line of an event at its time. -/
def line (entry : Dated) : String := entry.event.line entry.milliseconds

/-- The object of an event at its time, its members put in order. -/
def members (entry : Dated) : Record :=
  [ ("agent_label", Json.textOrNull entry.event.agentLabel),
    ("ami_image_id", Json.textOrNull entry.event.amiImageId),
    ("definition_path", Json.textOrNull entry.event.definitionPath),
    ("error_kind", Json.textOrNull entry.event.errorKind),
    ("event", .str entry.event.name),
    ("field", Json.textOrNull entry.event.field),
    ("message", Json.textOrNull entry.event.message),
    ("outcome", .str entry.event.outcome.label),
    ("run_reference", Json.textOrNull entry.event.runReference),
    ("run_status", Json.textOrNull (entry.event.runStatus.map RunStatus.label)),
    ("timestamp_ms", .num (.ofUInt64 entry.milliseconds)) ]

theorem read?_line (entry : Dated) : Json.read? entry.line = some (.obj entry.members) := by
  obtain ⟨members, hobject, hread⟩ := entry.event.exists_read?_line entry.milliseconds
  obtain rfl := Json.obj.inj hobject
  exact hread

theorem le_of_mem_encode_line (entry : Dated) : ∀ b ∈ Utf8.encode entry.line, 0x20 ≤ b :=
  (Json.printable_compact _).le_of_mem_encode

theorem newline_not_mem_encode_line (entry : Dated) : 0x0A ∉ Utf8.encode entry.line :=
  fun h => absurd (entry.le_of_mem_encode_line _ h) (by decide)

end Dated

/-- The lines of events, each with its end. -/
def logged (entries : List Dated) : Bytes :=
  entries.flatMap fun entry => Utf8.encode (entry.line ++ "\n")

@[simp] theorem logged_nil : logged [] = [] := rfl

theorem logged_cons (entry : Dated) (rest : List Dated) :
    logged (entry :: rest) = Utf8.encode entry.line ++ 0x0A :: logged rest := by
  rw [logged, List.flatMap_cons, Utf8.encode, String.toList_append, List.flatMap_append,
    List.append_assoc]
  rfl

theorem logged_append (entries others : List Dated) :
    logged (entries ++ others) = logged entries ++ logged others :=
  List.flatMap_append

/-- Events that are recorded one after the other, each with the time that the clock gives then. -/
def dated : List UInt64 → List Event → List Dated
  | _, [] => []
  | times, event :: rest => ⟨times.headD 0, event⟩ :: dated times.tail rest

theorem dated_append (times : List UInt64) (events later : List Event) :
    dated times (events ++ later) =
      dated times events ++ dated (times.drop events.length) later := by
  induction events generalizing times with
  | nil => rfl
  | cons event rest ih =>
    rw [List.cons_append, dated, dated, ih, List.cons_append, List.length_cons, List.drop_tail]

end TestJob.Audit
