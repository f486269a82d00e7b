import Mathlib
import TestJob.Proofs.Decoding
import TestJob.Proofs.Json.Reader
import TestJob.Proofs.Loading
import TestJob.Proofs.Parsing
import TestJob.Proofs.Path
import TestJob.Proofs.Toml.Conversion

/-!
What loading a definition ends with. `Loads` has one rule for each check that may be the first to
fail, in their order, and one for each format of a definition that passes them all; loading ends
with what the rules give, and leaves the machine as it is (`load_iff_loads`).
-/

namespace TestJob

/-- Whether a path names a JSON file: its last name ends in a dot and `json`, in letters of either
case, and has something in front of the dot. -/
def Path.NamesJson (p : Path) : Prop :=
  ∃ way stem ending idle, p.Split way (stem ++ dot :: ending) idle ∧ stem ≠ [] ∧
    ending.map DefinitionFormat.toSmall = Utf8.encode "json"

theorem DefinitionFormat.ofPath_eq_json_iff {p : Path} : ofPath p = json ↔ p.NamesJson := by
  have hextension : ofPath p = json ↔
      ∃ ending, p.extension? = some ending ∧ ending.map toSmall = jsonExtension := by
    rw [ofPath]
    cases p.extension? <;> simp
  rw [hextension]
  constructor
  · rintro ⟨ending, hending, hjson⟩
    obtain ⟨stem, hname, hstem, _⟩ := Path.extension?_eq_some_iff.1 hending
    obtain ⟨way, idle, hsplit⟩ := Path.fileName?_eq_some_iff.1 hname
    exact ⟨way, stem, ending, idle, hsplit, hstem, hjson⟩
  · rintro ⟨way, stem, ending, idle, hsplit, hstem, hjson⟩
    have hdot : Path.dot ∉ ending := by
      intro hmem
      have hsmall : Path.dot ∈ Utf8.encode "json" := hjson ▸ List.mem_map_of_mem (f := toSmall) hmem
      exact absurd hsmall (by decide)
    exact ⟨ending, Path.extension?_eq_some_iff.2
      ⟨stem, Path.fileName?_eq_some_iff.2 ⟨way, idle, hsplit⟩, hstem, hdot⟩, hjson⟩

namespace Definition

/-- The path that is loaded from: the one given, else the value of the variable, which must not be
too long, else the default. -/
inductive Resolves (m : Machine) : Option Path → Path → Prop
  | given (path : Path) : Resolves m (some path) path
  | named {bytes : Bytes} (found : m.lookupVariable (Utf8.encode "CI_JOB_DEFINITION") = some bytes)
      (short : bytes.length ≤ 4096) : Resolves m none ⟨bytes⟩
  | usual (unset : m.lookupVariable (Utf8.encode "CI_JOB_DEFINITION") = none) :
      Resolves m none (.ofString "ci-job.toml")

/-- A path that is loaded from and is not too long as it is displayed, in whole and in each
segment. -/
structure Passes (m : Machine) (given : Option Path) (path : Path) : Prop where
  resolves : Resolves m given path
  length_le : path.display.utf8ByteSize ≤ 4096
  segment_le : ∀ segment ∈ path.segments, (Utf8.lossy segment).utf8ByteSize ≤ 255

/-- The bytes that are read from such a path. -/
structure Reads (m : Machine) (given : Option Path) (path : Path) (contents : Bytes) : Prop where
  passes : Passes m given path
  read_eq : m.read path = .ok contents

/-- A text that is read from such a path and is not too long. -/
structure Holds (m : Machine) (given : Option Path) (path : Path) (text : String) : Prop where
  reads : Reads m given path (Utf8.encode text)
  length_le : (Utf8.encode text).length ≤ 1048576

/-- What loading ends with: one rule for each check that may fail, all those before it having
passed, and one for each format. -/
inductive Loads (m : Machine) (given : Option Path) : Except DefinitionError Definition → Prop
  | variableTooLong {bytes : Bytes} (absent : given = none)
      (found : m.lookupVariable (Utf8.encode "CI_JOB_DEFINITION") = some bytes)
      (long : 4096 < bytes.length) : Loads m given (.error (.invalid .pathTooLong))
  | pathTooLong {path : Path} (resolves : Resolves m given path)
      (long : 4096 < path.display.utf8ByteSize) : Loads m given (.error (.invalid .pathTooLong))
  | segmentTooLong {path : Path} {segment : Bytes} (resolves : Resolves m given path)
      (short : path.display.utf8ByteSize ≤ 4096) (mem : segment ∈ path.segments)
      (long : 255 < (Utf8.lossy segment).utf8ByteSize) :
      Loads m given (.error (.invalid .segmentTooLong))
  | io {path : Path} {e : IoError} (passes : Passes m given path)
      (failed : m.read path = .error e) : Loads m given (.error (.io e))
  | tooLarge {path : Path} {contents : Bytes} (reads : Reads m given path contents)
      (large : 1048576 < contents.length) : Loads m given (.error (.invalid .tooLarge))
  | notUtf8 {path : Path} {contents : Bytes} (reads : Reads m given path contents)
      (small : contents.length ≤ 1048576) (illFormed : ∀ text, contents ≠ Utf8.encode text) :
      Loads m given (.error (.invalid .notUtf8))
  | notJson {path : Path} {text : String} (holds : Holds m given path text)
      (format : path.NamesJson) (unread : Json.read? text = none) :
      Loads m given (.error (.unreadable "not a JSON document"))
  | notToml {path : Path} {text : String} (holds : Holds m given path text)
      (format : ¬path.NamesJson) (unread : Toml.read? text = none) :
      Loads m given (.error (.unreadable "not a TOML document"))
  | notFinite {path : Path} {text : String} {table : List (String × Toml)} {e : Toml.NonFinite}
      (holds : Holds m given path text) (format : ¬path.NamesJson)
      (read : Toml.read? text = some table)
      (float : Toml.firstNonFinite? (Toml.floats (.table table)) = some e) :
      Loads m given (.error (.invalid (.notFinite e)))
  | notTable {path : Path} {text : String} {value : Json} (holds : Holds m given path text)
      (format : path.NamesJson) (read : Json.read? text = some value)
      (other : ∀ record, value ≠ .obj record) : Loads m given (.error (.invalid .notTable))
  | json {path : Path} {text : String} {record : Record} (holds : Holds m given path text)
      (format : path.NamesJson) (read : Json.read? text = some (.obj record)) :
      Loads m given (.ok ⟨record, some path⟩)
  | toml {path : Path} {text : String} {table : List (String × Toml)} {record : Record}
      (holds : Holds m given path text) (format : ¬path.NamesJson)
      (read : Toml.read? text = some table)
      (converted : Toml.toJson (.table table) = .ok (.obj record)) :
      Loads m given (.ok ⟨record, some path⟩)

section Rules

variable {m : Machine} {given : Option Path} {path : Path} {contents : Bytes} {text : String}
  {outcome : Except DefinitionError Definition}

/-! ### What passing the checks leaves to do -/

theorem Resolves.resolve_eq (h : Resolves m given path) :
    resolve given (m.lookupVariable pathVariable) = .ok path := by
  cases h with
  | given => rfl
  | @named bytes found short =>
    have hfound : m.lookupVariable pathVariable = some bytes := found
    rw [hfound]
    exact if_neg (Nat.not_lt.2 short)
  | usual unset =>
    have hunset : m.lookupVariable pathVariable = none := unset
    rw [hunset]
    rfl

theorem resolve_of_long {bytes : Bytes} (long : 4096 < bytes.length) :
    resolve none (some bytes) = .error .pathTooLong :=
  if_pos long

theorem checkPath_of_long (long : 4096 < path.display.utf8ByteSize) :
    checkPath path = .error .pathTooLong :=
  if_pos long

theorem checkPath_of_short (short : path.display.utf8ByteSize ≤ 4096) : checkPath path =
    if path.segments.any fun s => Path.segmentLimit < (Utf8.lossy s).utf8ByteSize then
      .error .segmentTooLong
    else .ok () :=
  if_neg (Nat.not_lt.2 short)

theorem loaded_of_resolves (h : Resolves m given path) :
    loaded m given = (do
      (checkPath path).mapError .invalid
      let contents ← (m.read path).mapError .io
      ofContents path contents) := by
  rw [loaded, h.resolve_eq]
  rfl

theorem Passes.checkPath_eq (h : Passes m given path) : checkPath path = .ok () := by
  rw [checkPath_of_short h.length_le, if_neg]
  rw [List.any_eq_true]
  rintro ⟨segment, hmem, hlong⟩
  exact absurd (of_decide_eq_true hlong) (Nat.not_lt.2 (h.segment_le segment hmem))

theorem loaded_of_passes (h : Passes m given path) :
    loaded m given = (m.read path).mapError .io >>= ofContents path := by
  rw [loaded_of_resolves h.resolves, h.checkPath_eq]
  rfl

theorem loaded_of_reads (h : Reads m given path contents) :
    loaded m given = ofContents path contents := by
  rw [loaded_of_passes h.passes, h.read_eq]
  rfl

theorem ofContents_of_small (small : contents.length ≤ 1048576) : ofContents path contents =
    match Utf8.decode? contents with
    | none => .error (.invalid .notUtf8)
    | some text => (parse text (.ofPath path)).map fun definition =>
      ⟨definition.record, some path⟩ := by
  have hsmall : ¬sizeLimit < contents.length := Nat.not_lt.2 small
  rw [ofContents, if_neg hsmall]
  cases Utf8.decode? contents with
  | none => rfl
  | some text =>
    dsimp only
    cases parse text (.ofPath path) <;> rfl

theorem loaded_of_holds (h : Holds m given path text) :
    loaded m given = (parse text (.ofPath path)).map fun definition =>
      ⟨definition.record, some path⟩ := by
  rw [loaded_of_reads h.reads, ofContents_of_small h.length_le, Utf8.decode?_eq_some_iff.2 rfl]

theorem ofPath_of_namesJson (h : path.NamesJson) : DefinitionFormat.ofPath path = .json :=
  DefinitionFormat.ofPath_eq_json_iff.2 h

theorem ofPath_of_not_namesJson (h : ¬path.NamesJson) : DefinitionFormat.ofPath path = .toml := by
  cases hformat : DefinitionFormat.ofPath path with
  | toml => rfl
  | json => exact absurd (DefinitionFormat.ofPath_eq_json_iff.1 hformat) h

/-! ### The rules -/

/-- Loading ends with what a rule gives. -/
theorem Loads.loaded_eq (h : Loads m given outcome) : loaded m given = outcome := by
  cases h with
  | variableTooLong absent found long =>
    have hfound : m.lookupVariable pathVariable = some _ := found
    rw [loaded, absent, hfound, resolve_of_long long]
    rfl
  | pathTooLong resolves long =>
    rw [loaded_of_resolves resolves, checkPath_of_long long]
    rfl
  | segmentTooLong resolves short mem long =>
    rw [loaded_of_resolves resolves, checkPath_of_short short,
      if_pos (List.any_eq_true.2 ⟨_, mem, decide_eq_true long⟩)]
    rfl
  | io passes failed =>
    rw [loaded_of_passes passes, failed]
    rfl
  | tooLarge reads large =>
    rw [loaded_of_reads reads]
    exact if_pos large
  | @notUtf8 path contents reads small illFormed =>
    have hdecode : Utf8.decode? contents = none := by
      cases hdecode : Utf8.decode? contents with
      | none => rfl
      | some text => exact absurd (Utf8.decode?_eq_some_iff.1 hdecode) (illFormed text)
    rw [loaded_of_reads reads, ofContents_of_small small, hdecode]
  | notJson holds format unread =>
    rw [loaded_of_holds holds, ofPath_of_namesJson format, parse, readText, unread]
    rfl
  | notToml holds format unread =>
    rw [loaded_of_holds holds, ofPath_of_not_namesJson format, parse, readText, unread]
    rfl
  | notFinite holds format read float =>
    rw [loaded_of_holds holds, ofPath_of_not_namesJson format, parse, readText, read]
    dsimp only
    rw [Toml.toJson_eq_error_iff.2 float]
    rfl
  | @notTable path text value holds format read other =>
    rw [loaded_of_holds holds, ofPath_of_namesJson format, parse, readText, read]
    cases value with
    | obj record => exact absurd rfl (other record)
    | _ => rfl
  | json holds format read =>
    rw [loaded_of_holds holds, ofPath_of_namesJson format, parse, readText, read]
    rfl
  | toml holds format read converted =>
    rw [loaded_of_holds holds, ofPath_of_not_namesJson format, parse, readText, read]
    dsimp only
    rw [converted]
    rfl

theorem exists_loads_of_holds (h : Holds m given path text) :
    ∃ outcome, Loads m given outcome := by
  by_cases hformat : path.NamesJson
  · cases hread : Json.read? text with
    | none => exact ⟨_, .notJson h hformat hread⟩
    | some value =>
      by_cases hrecord : ∃ record, value = .obj record
      · obtain ⟨record, rfl⟩ := hrecord
        exact ⟨_, .json h hformat hread⟩
      · exact ⟨_, .notTable h hformat hread fun record heq => hrecord ⟨record, heq⟩⟩
  · cases hread : Toml.read? text with
    | none => exact ⟨_, .notToml h hformat hread⟩
    | some table =>
      cases hconverted : Toml.membersToJson [] table with
      | error e =>
        have hjson : Toml.toJson (.table table) = .error e := by
          rw [Toml.toJson, hconverted]
          rfl
        exact ⟨_, .notFinite h hformat hread (Toml.toJson_eq_error_iff.1 hjson)⟩
      | ok record =>
        have hjson : Toml.toJson (.table table) = .ok (.obj record) := by
          rw [Toml.toJson, hconverted]
          rfl
        exact ⟨_, .toml h hformat hread hjson⟩

theorem exists_loads_of_reads (h : Reads m given path contents) :
    ∃ outcome, Loads m given outcome := by
  by_cases hsmall : contents.length ≤ 1048576
  · by_cases htext : ∃ text, contents = Utf8.encode text
    · obtain ⟨text, rfl⟩ := htext
      exact exists_loads_of_holds ⟨h, hsmall⟩
    · exact ⟨_, .notUtf8 h hsmall fun text heq => htext ⟨text, heq⟩⟩
  · exact ⟨_, .tooLarge h (Nat.lt_of_not_le hsmall)⟩

theorem exists_loads_of_resolves (h : Resolves m given path) :
    ∃ outcome, Loads m given outcome := by
  by_cases hshort : path.display.utf8ByteSize ≤ 4096
  · by_cases hsegments : ∀ segment ∈ path.segments, (Utf8.lossy segment).utf8ByteSize ≤ 255
    · have hpasses : Passes m given path := ⟨h, hshort, hsegments⟩
      cases hread : m.read path with
      | error e => exact ⟨_, .io hpasses hread⟩
      | ok contents => exact exists_loads_of_reads ⟨hpasses, hread⟩
    · simp only [not_forall, not_le] at hsegments
      obtain ⟨segment, hmem, hlong⟩ := hsegments
      exact ⟨_, .segmentTooLong h hshort hmem hlong⟩
  · exact ⟨_, .pathTooLong h (Nat.lt_of_not_le hshort)⟩

/-- Some rule always applies. -/
theorem exists_loads (m : Machine) (given : Option Path) : ∃ outcome, Loads m given outcome := by
  cases given with
  | some path => exact exists_loads_of_resolves (.given path)
  | none =>
    cases hfound : m.lookupVariable (Utf8.encode "CI_JOB_DEFINITION") with
    | none => exact exists_loads_of_resolves (.usual hfound)
    | some bytes =>
      by_cases hshort : bytes.length ≤ 4096
      · exact exists_loads_of_resolves (.named hfound hshort)
      · exact ⟨_, .variableTooLong rfl hfound (Nat.lt_of_not_le hshort)⟩

theorem loaded_eq_iff : loaded m given = outcome ↔ Loads m given outcome := by
  refine ⟨?_, Loads.loaded_eq⟩
  rintro rfl
  obtain ⟨outcome, h⟩ := exists_loads m given
  exact h.loaded_eq ▸ h

end Rules

/-! ### Parsers -/

end Definition

/-! ### A definition in a file of its own -/

namespace Command

/-- The choice of such a definition. -/
def jobChoice : DefinitionChoice := ⟨some (.ofString "job.json"), []⟩

/-- A machine with that file, which holds a record. -/
def jobMachine (record : Record) : Machine :=
  .start (Disk.empty.addFile [Utf8.encode "job.json"] (Utf8.encode (Json.obj record).canonical))
    [] [] 7

theorem read_jobMachine (record : Record) : (jobMachine record).read (.ofString "job.json") =
    .ok (Utf8.encode (Json.obj record).canonical) := rfl

/-- A machine whose output takes nothing, like a disk that is full. -/
def fullOutput (m : Machine) : Machine :=
  { m with outputFailures := [some ⟨.other "No space left on device (os error 28)", 0⟩] }

/-- A record that is written in the file is loaded from it. -/
theorem loaded_job {m : Machine} {record : Record}
    (hread : m.read (.ofString "job.json") = .ok (Utf8.encode (Json.obj record).canonical))
    (hordered : Json.Ordered (.obj record)) (hfloat : Json.FloatFree (.obj record))
    (hdepth : (Json.obj record).depth ≤ 127)
    (hlength : ((Json.chars .canonical Members.ofList (.obj record)).flatMap
      String.utf8EncodeChar).length ≤ 1048576) :
    loaded m jobChoice = .ok ⟨record, some (.ofString "job.json")⟩ := by
  have hencode : Utf8.encode (Json.obj record).canonical =
      (Json.chars .canonical Members.ofList (.obj record)).flatMap String.utf8EncodeChar := by
    rw [Json.canonical, Utf8.encode, String.toList_ofList]
  have hholds : Definition.Holds m jobChoice.path (.ofString "job.json")
      (Json.obj record).canonical :=
    ⟨⟨⟨.given _, by decide +kernel, by decide +kernel⟩, hread⟩, hencode ▸ hlength⟩
  have hformat : (Path.ofString "job.json").NamesJson :=
    DefinitionFormat.ofPath_eq_json_iff.1 (by decide +kernel)
  have hspace : ∀ c ∈ ([] : List Char), Json.Token.isSpace c = true := fun _ hc => by cases hc
  have htext := Json.read?_canonical_of_floatFree hordered hfloat hdepth hspace
  rw [String.ofList_nil, String.append_empty] at htext
  rw [loaded, (Definition.Loads.json hholds hformat htext).loaded_eq]
  rfl

end Command

end TestJob
