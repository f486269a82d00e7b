import Mathlib
import TestJob.Proofs.Json.Rereading
import TestJob.Proofs.Parsing
import TestJob.Proofs.RoundTrip

/-!
A descriptor that is handed off is read again. The reader opens no more than 127 containers, and
nothing else stops it: the canonical text of an accepted definition is a definition again, and
accepted, exactly when its record nests no deeper than that (`rereadable_iff`). A JSON text never
gives more; the limits of TOML are counted apart for headers, keys and arrays, and together let in
more, as `deep_not_rereadable` shows.
-/

namespace TestJob

open Json (mapNumbers mapNumbersMembers)

/-- The descriptor with the numbers of its environment as they are read again. -/
def Descriptor.reread (d : Descriptor) : Descriptor :=
  { d with environment := mapNumbersMembers Number.reread d.environment }

namespace Rereading

theorem fields_reread (d : Descriptor) :
    d.reread.fields = d.fields.map fun m => (m.1, mapNumbers Number.reread m.2) := by
  have hsplits : mapNumbers Number.reread (.arr (d.testSplits.map Identifier.toJson)) =
      .arr (d.testSplits.map Identifier.toJson) := by
    rw [Json.mapNumbers_arr, List.map_map]
    rfl
  simp only [Descriptor.fields, List.map_cons, hsplits]
  rfl

-- nothing below looks into the record, and unfolding it inserts fifteen members
attribute [local irreducible] Descriptor.toRecord

variable {record : Record} {d : Descriptor} {text : String} {format : DefinitionFormat}
  {definition : Definition}

theorem mapNumbers_toRecord (d : Descriptor) :
    mapNumbers Number.reread (.obj d.toRecord) = .obj d.reread.toRecord := by
  rw [Json.mapNumbers_obj, Projection.toRecord_eq, Projection.toRecord_eq, fields_reread,
    Members.ofList_map fun _ => mapNumbers Number.reread]

/-- The record of a descriptor nests one deeper than its environment, but at least as deep as its
list of splits. -/
theorem depth_toRecord_le_iff {bound : Nat} (hbound : 1 ≤ bound) :
    (Json.obj d.toRecord).depth ≤ bound + 1 ↔ (Json.obj d.environment).depth ≤ bound := by
  rw [Json.depth_obj_le_iff]
  constructor
  · intro h
    have hmem : (FieldName.environment, .obj d.environment) ∈ d.fields := by
      simp only [Descriptor.fields, List.mem_cons, true_or, or_true]
    exact h _ (Members.mem_of_find? (Projection.find?_toRecord hmem))
  · intro h
    have hsplits : ∀ names : List SplitName,
        (Json.arr (names.map Identifier.toJson)).depth ≤ bound := by
      intro names
      obtain ⟨more, rfl⟩ := Nat.exists_eq_add_of_le' hbound
      rw [Json.depth_arr_le_iff, List.forall_mem_map]
      exact fun _ _ => Nat.zero_le more
    have hfields := RoundTrip.forall_fields (fun value => value.depth ≤ bound) d
      (fun _ => Nat.zero_le bound) (fun _ => Nat.zero_le bound) (fun _ => Nat.zero_le bound)
      hsplits h
    exact fun m hm => hfields m (RoundTrip.mem_fields_of_mem_toRecord hm)

/-- The environment of a definition that a JSON text makes is one of the containers that its reader
opened. -/
theorem depth_environment_le (hparse : Definition.parse text .json = .ok definition)
    (h : definition.record.normalize = .ok d) : (Json.obj d.environment).depth ≤ 126 :=
  Json.depth_obj_le_iff.1 (Json.readWithin?_spec (Definition.read?_of_parse hparse)).2 _
    (RoundTrip.mem_environment h)

/-- The canonical text of an accepted descriptor is its record with the numbers reread, and is
accepted as the descriptor with its numbers reread. -/
theorem parse_canonical (hordered : Json.Ordered (.obj d.toRecord))
    (h : record.normalize = .ok d) (hdepth : (Json.obj d.toRecord).depth ≤ 127) :
    Definition.parse d.canonical .json = .ok (.ofRecord d.reread.toRecord) ∧
      (Definition.ofRecord d.reread.toRecord).toDescriptor = .ok d.reread := by
  have hread : Json.read? d.canonical = some (.obj d.reread.toRecord) := by
    rw [← mapNumbers_toRecord]
    exact Json.readWithin?_canonical_reread hordered hdepth
  constructor
  · rw [Definition.parse, Definition.readText, hread]
    rfl
  · rw [Definition.toDescriptor, mapError_eq_ok_iff]
    exact Projection.normalize_toRecord_environment h _

/-- The canonical text of an accepted definition is read and accepted again exactly when the
environment nests no deeper than 126 containers, itself counted; it then makes the descriptor with
its numbers reread. A definition that is read from JSON never nests deeper. -/
theorem rereadable_iff (hparse : Definition.parse text format = .ok definition)
    (h : definition.toDescriptor = .ok d) :
    ((∃ again e, Definition.parse d.canonical .json = .ok again ∧ again.toDescriptor = .ok e) ↔
        (Json.obj d.environment).depth ≤ 126) ∧
      ((Json.obj d.environment).depth ≤ 126 →
        Definition.parse d.canonical .json = .ok (.ofRecord d.reread.toRecord) ∧
          (Definition.ofRecord d.reread.toRecord).toDescriptor = .ok d.reread) ∧
      (format = .json → (Json.obj d.environment).depth ≤ 126) := by
  rw [Definition.toDescriptor, mapError_eq_ok_iff] at h
  have hordered := RoundTrip.ordered_toRecord
    (RoundTrip.ordered_environment (Definition.ordered_parse hparse) h)
  have hdepth : (Json.obj d.toRecord).depth ≤ 127 ↔ (Json.obj d.environment).depth ≤ 126 :=
    depth_toRecord_le_iff (by decide)
  refine ⟨⟨?_, fun hle => ?_⟩, fun hle => parse_canonical hordered h (hdepth.2 hle), ?_⟩
  · rintro ⟨again, _, hagain, _⟩
    have hread := Definition.read?_of_parse hagain
    exact hdepth.1 ((Json.isSome_readWithin?_canonical hordered).1 (Option.isSome_of_eq_some hread))
  · obtain ⟨hagain, he⟩ := parse_canonical hordered h (hdepth.2 hle)
    exact ⟨_, _, hagain, he⟩
  · rintro rfl
    exact depth_environment_le hparse h

/-- A document with these lines for its environment. -/
def document (environment : List String) : String := Definition.linesText (
  [ "amiImageId = 'ami-0f86'",
    "concurrentBuilds = 1",
    "distroName = 'freebsd'",
    "distroVersion = '122'",
    "distroArch = 'amd64'",
    "goldenImagesBranch = 'master'",
    "agentLabel = 'kitchen-slave'",
    "testEnvironmentName = 'pytest-zeromq'",
    "pythonVersion = 'py3'",
    "timeoutMinutes = 360" ] ++ environment)

/-- The descriptor of such a document. -/
def descriptor (environment : Record) : Descriptor where
  amiImageId := ⟨"ami-0f86"⟩
  concurrentBuilds := 1
  distroName := "freebsd"
  distroVersion := "122"
  distroArch := "amd64"
  environment := environment
  goldenImagesBranch := ⟨"master"⟩
  agentLabel := ⟨"kitchen-slave"⟩
  testEnvironmentName := "pytest-zeromq"
  passthroughOptions := ""
  pythonVersion := "py3"
  testSplits := []
  timeoutMinutes := 360
  useSpotInstances := false
  stagedTestRun := false

/-- The descriptor with a number in its environment. -/
def numbered (n : Number) : Descriptor := descriptor [("n", .num n)]

def one : Number := .int 1 (by decide)

/-- The descriptor with a positive float in its environment. -/
def floated (exponent : Fin 2047) (fraction : Fin Binary64.significands) : Descriptor :=
  numbered (.float ⟨false, exponent, fraction⟩)

/-- A document whose environment has a float that is whole. -/
def wholeFloat : String := document ["[environment]", "n = 1.0"]

theorem wholeFloat_accepted : (Definition.parse wholeFloat .toml >>= Definition.toDescriptor) =
    .ok (floated 1023 0) := by
  rw [wholeFloat, document, Definition.linesText, Definition.parse_ofList]
  decide +kernel

/-- The float comes back as an integer. -/
theorem rereadable_iff_wholeFloat :
    ∃ definition, Definition.parse wholeFloat .toml = .ok definition ∧
      definition.toDescriptor = .ok (floated 1023 0) ∧
      Definition.parse (floated 1023 0).canonical .json =
        .ok (.ofRecord (numbered one).toRecord) := by
  obtain ⟨definition, hparse, hd⟩ := bind_eq_ok_iff.1 wholeFloat_accepted
  have hreread : (floated 1023 0).reread = numbered one := by decide +kernel
  have hagain := ((rereadable_iff hparse hd).2.1 (by decide)).1
  rw [hreread] at hagain
  exact ⟨definition, hparse, hd, hagain⟩

/-- So many tables in one another around a value. -/
def tables (inner : Json) : Nat → Record
  | 0 => [("a", inner)]
  | more + 1 => [("a", .obj (tables inner more))]

/-- So many arrays in one another around an empty one. -/
def arrays : Nat → Json
  | 0 => .arr []
  | more + 1 => .arr [arrays more]

/-- A document with a header of 80 parts over a value of 47 arrays in one another. -/
def deep : String := document
  [ "[environment" ++ String.ofList (List.replicate 79 ['.', 'a']).flatten ++ "]",
    "a = " ++ String.ofList (List.replicate 47 '[' ++ List.replicate 47 ']') ]

set_option maxRecDepth 100000 in
theorem deep_accepted : (Definition.parse deep .toml >>= Definition.toDescriptor) =
    .ok (descriptor (tables (arrays 46) 79)) := by
  rw [deep, document, Definition.linesText, Definition.parse_ofList]
  decide +kernel

/-- The document is accepted, and the text that is handed off for it is not read again. -/
theorem deep_not_rereadable :
    (Definition.parse deep .toml >>= Definition.toDescriptor) =
        .ok (descriptor (tables (arrays 46) 79)) ∧
      Definition.parse (descriptor (tables (arrays 46) 79)).canonical .json =
        .error (.unreadable "not a JSON document") := by
  refine ⟨deep_accepted, ?_⟩
  have hordered : Json.Ordered (.obj (descriptor (tables (arrays 46) 79)).toRecord) :=
    RoundTrip.ordered_toRecord (by decide +kernel)
  have hdeep : ¬(Json.obj (descriptor (tables (arrays 46) 79)).toRecord).depth ≤ 127 := by
    rw [depth_toRecord_le_iff (by decide)]
    decide +kernel
  have hread : Json.read? (descriptor (tables (arrays 46) 79)).canonical = none := by
    rw [← Option.not_isSome_iff_eq_none]
    exact fun h => hdeep ((Json.isSome_readWithin?_canonical hordered).1 h)
  rw [Definition.parse, Definition.readText, hread]
  rfl

end Rereading

end TestJob
