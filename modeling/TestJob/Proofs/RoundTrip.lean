import Mathlib
import TestJob.Definition.Basic
import TestJob.Proofs.Json.Reader
import TestJob.Proofs.Projection
import TestJob.Submission.Handoff

/-!
A descriptor handed off as text. The canonical text of an accepted descriptor, with the end of the
line that a hand-off adds, is read as the record of the descriptor, and that record normalizes to
the descriptor again (`canonical_reads_back`). Floats are left out, since the canonical form writes
a whole one like an integer.
-/

namespace TestJob.RoundTrip

/-- What holds of texts, counts, switches, lists of splits and the environment holds of each
field. -/
theorem forall_fields (p : Json → Prop) (d : Descriptor) (str : ∀ s, p (.str s))
    (count : ∀ n, p (Descriptor.count n)) (bool : ∀ b, p (.bool b))
    (splits : ∀ names : List SplitName, p (.arr (names.map Identifier.toJson)))
    (environment : p (.obj d.environment)) : ∀ m ∈ d.fields, p m.2 := by
  have htoJson : ∀ {kind} (name : Identifier kind), p name.toJson := fun _ => str _
  simp only [Descriptor.fields, List.forall_mem_cons, str, count, bool, splits, environment,
    htoJson, List.not_mem_nil, false_implies, implies_true, and_self]

section Accepted

-- nothing below looks into the record, and unfolding it inserts fifteen members
attribute [local irreducible] Descriptor.toRecord

theorem mem_fields_of_mem_toRecord {d : Descriptor} {m : String × Json} (h : m ∈ d.toRecord) :
    m ∈ d.fields := by
  rw [Projection.toRecord_eq] at h
  exact Members.mem_of_mem_ofList h

theorem ordered_toRecord {d : Descriptor} (h : Json.Ordered (.obj d.environment)) :
    Json.Ordered (.obj d.toRecord) := by
  have hsplits : ∀ names : List SplitName, Json.Ordered (.arr (names.map Identifier.toJson)) := by
    intro names
    rw [Json.ordered_arr, List.forall_mem_map]
    exact fun _ _ => trivial
  have hfields := forall_fields Json.Ordered d (fun _ => trivial) (fun _ => trivial)
    (fun _ => trivial) hsplits h
  have hascending : Members.Ascending d.toRecord := by
    rw [Projection.toRecord_eq]
    exact Members.ascending_ofList d.fields
  exact Json.ordered_obj.2
    ⟨hascending, fun m hm => hfields m (mem_fields_of_mem_toRecord hm)⟩

theorem floatFree_toRecord {d : Descriptor} (h : Json.FloatFree (.obj d.environment)) :
    Json.FloatFree (.obj d.toRecord) := by
  have hsplits : ∀ names : List SplitName, Json.FloatFree (.arr (names.map Identifier.toJson)) := by
    intro names
    rw [Json.FloatFree, Json.eachNumber_arr, List.forall_mem_map]
    exact fun _ _ => trivial
  have hfields := forall_fields Json.FloatFree d (fun _ => trivial) (fun _ => ⟨_, _, rfl⟩)
    (fun _ => trivial) hsplits h
  exact Json.eachNumber_obj.2 fun m hm => hfields m (mem_fields_of_mem_toRecord hm)

/-- The environment of an accepted record is the one that was given. -/
theorem mem_environment {record : Record} {d : Descriptor} (h : record.normalize = .ok d) :
    (FieldName.environment, .obj d.environment) ∈ record := by
  have hfield : (⟨FieldName.environment, .mapping, none,
      "Build-context variables forwarded unmodified to the orchestration engine."⟩ : Field) ∈
        Field.all := by decide
  have hfilled := Projection.find?_toRecord_eq_filled h hfield
  have hmem : (FieldName.environment, .obj d.environment) ∈ d.fields := by
    simp only [Descriptor.fields, List.mem_cons, true_or, or_true]
  rw [Projection.find?_toRecord hmem, FieldTable.filled, Option.map_none, Option.or_none,
    Record.lookup] at hfilled
  exact Members.mem_of_find? (Option.eq_some_of_filter_eq_some hfilled.symm)

theorem ordered_environment {record : Record} {d : Descriptor}
    (hordered : Json.Ordered (.obj record)) (h : record.normalize = .ok d) :
    Json.Ordered (.obj d.environment) :=
  (Json.ordered_obj.1 hordered).2 _ (mem_environment h)

/-- The canonical text of an accepted descriptor, with the end of its line, is read as the record
of the descriptor, and that record is accepted as the same descriptor. -/
theorem canonical_reads_back {record : Record} {d : Descriptor}
    (hordered : Json.Ordered (.obj record)) (h : record.normalize = .ok d)
    (hfloat : Json.FloatFree (.obj d.environment)) (hdepth : (Json.obj d.toRecord).depth ≤ 127) :
    Json.read? (d.canonical ++ "\n") = some (.obj d.toRecord) ∧
      Definition.parse (d.canonical ++ "\n") .json = .ok (.ofRecord d.toRecord) ∧
      d.toRecord.normalize = .ok d := by
  have hspace : ∀ c ∈ ['\n'], Json.Token.isSpace c = true := by
    intro c hc
    rw [List.mem_singleton.1 hc]
    rfl
  have htext : d.canonical ++ "\n" = (Json.obj d.toRecord).canonical ++ String.ofList ['\n'] := rfl
  have hread : Json.read? (d.canonical ++ "\n") = some (.obj d.toRecord) := by
    rw [htext]
    exact Json.read?_canonical_of_floatFree (ordered_toRecord (ordered_environment hordered h))
      (floatFree_toRecord hfloat) hdepth hspace
  refine ⟨hread, ?_, Projection.normalize_toRecord h⟩
  rw [Definition.parse, Definition.readText, hread]
  rfl

end Accepted

open Projection (sample sampleEnvironment sampleDescriptor)

theorem canonical_reads_back_sample :
    Json.Ordered (.obj sample) ∧ sample.normalize = .ok sampleDescriptor ∧
      Json.FloatFree (.obj sampleEnvironment) ∧ (Json.obj sampleDescriptor.toRecord).depth ≤ 127 ∧
      Json.read? (sampleDescriptor.canonical ++ "\n") = some (.obj sampleDescriptor.toRecord) ∧
      sampleDescriptor.toRecord.normalize = .ok sampleDescriptor := by
  have hordered : Json.Ordered (.obj sample) := by decide
  have hfloat : Json.FloatFree (.obj sampleEnvironment) := by decide
  have hdepth : (Json.obj sampleDescriptor.toRecord).depth ≤ 127 := by decide
  have hnormalize : sample.normalize = .ok sampleDescriptor := rfl
  obtain ⟨hread, _, hagain⟩ := canonical_reads_back hordered hnormalize hfloat hdepth
  exact ⟨hordered, hnormalize, hfloat, hdepth, hread, hagain⟩

end TestJob.RoundTrip
