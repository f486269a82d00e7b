import Mathlib
import TestJob.Proofs.Commands
import TestJob.Proofs.Recording

/-!
Empty files. A log that is opened at a new path leaves an empty file there, and more can be read
than before: perhaps the definition, or the page. It makes no difference, since an empty file is
never found in order. As TOML it is a definition without fields, so that the first field that is
looked at is missing; as JSON it is no document; and it is not the page.
-/

namespace TestJob

/-! ### What an empty file stands for -/

namespace Definition

/-- An empty file is no definition, or one without fields. -/
theorem ofContents_nil (path : Path) :
    ofContents path [] = .ok ⟨[], some path⟩ ∨ ∃ e, ofContents path [] = .error e := by
  have hdecode : Utf8.decode? [] = some "" := rfl
  have htoml : parse "" .toml = .ok (ofRecord []) := by decide +kernel
  rw [ofContents, hdecode]
  cases hformat : DefinitionFormat.ofPath path with
  | toml =>
    left
    simp only [htoml]
    rfl
  | json =>
    right
    have hjson : parse "" .json = .error (.unreadable "not a JSON document") := rfl
    exact ⟨_, by simp only [hjson]; rfl⟩

end Definition

theorem Record.normalize_of_find?_eq_none {record : Record}
    (h : Members.find? FieldName.amiImageId record = none) :
    record.normalize = .error (.missingField FieldName.amiImageId) := by
  simp [normalize, requiredString, lookup, h, bind, Except.bind]

theorem Reference.page_ne_empty : Reference.page ≠ "" := by
  intro h
  have hlength := congrArg String.length h
  simp [page, pageLines] at hlength

theorem Reference.checkContents_nil (path : Path) :
    checkContents path [] = .error (.drift (.mismatch path)) := by
  have hdecode : Utf8.decode? [] = some "" := rfl
  rw [checkContents, hdecode]
  exact if_neg fun h => page_ne_empty h.symm

namespace Command

variable {m m' : Machine} {choice : DefinitionChoice} {found : Descriptor × Option Path}

/-- The definition that the contents of a file come to, with captured variables if prefixes are
given. -/
def defined (environment : List (Bytes × Bytes)) (choice : DefinitionChoice) (path : Path)
    (contents : Bytes) : Except DefinitionError Definition := do
  let definition ← Definition.ofContents path contents
  if choice.prefixes = [] then return definition
  else
    let filter ← (Capture.ofPrefixes choice.prefixes).mapError .invalid
    (definition.capture filter environment).mapError .invalid

theorem loaded_eq (m : Machine) (choice : DefinitionChoice) :
    loaded m choice = (do
      let path ← (Definition.resolve choice.path
        (m.lookupVariable Definition.pathVariable)).mapError .invalid
      (Definition.checkPath path).mapError .invalid
      let contents ← (m.read path).mapError .io
      defined m.environment choice path contents) := by
  simp only [loaded, Definition.loaded, defined, bind_assoc]

theorem verdict_eq_ok_iff {result : Except DefinitionError Definition} :
    verdict result = .ok found ↔ ∃ definition, result = .ok definition ∧
      ∃ d, definition.record.normalize = .ok d ∧ found = (d, definition.source) := by
  cases result with
  | error e => simp [verdict]
  | ok definition =>
    simp only [Except.ok.injEq, exists_eq_left']
    rw [verdict]
    cases definition.record.normalize with
    | error fault => simp
    | ok d => simp [eq_comm]

/-- What can be read settles what the check of a definition finds in order. -/
theorem verdict_loaded_eq_ok_iff :
    verdict (loaded m choice) = .ok found ↔ ∃ path contents,
      Definition.resolve choice.path (m.lookupVariable Definition.pathVariable) = .ok path ∧
      Definition.checkPath path = .ok () ∧ m.read path = .ok contents ∧
      verdict (defined m.environment choice path contents) = .ok found := by
  simp only [verdict_eq_ok_iff, loaded_eq, bind_eq_ok_iff, mapError_eq_ok_iff]
  constructor
  · rintro ⟨definition, ⟨path, hpath, _, hcheck, contents, hread, hdefined⟩, hnormalize⟩
    exact ⟨path, contents, hpath, hcheck, hread, definition, hdefined, hnormalize⟩
  · rintro ⟨path, contents, hpath, hcheck, hread, definition, hdefined, hnormalize⟩
    exact ⟨definition, ⟨path, hpath, (), hcheck, contents, hread, hdefined⟩, hnormalize⟩

/-- An empty file is never found in order. -/
theorem verdict_defined_nil (environment : List (Bytes × Bytes)) (choice : DefinitionChoice)
    (path : Path) : verdict (defined environment choice path []) ≠ .ok found := by
  intro h
  obtain ⟨definition, hdefined, d, hnormalize, _⟩ := verdict_eq_ok_iff.1 h
  rw [defined] at hdefined
  obtain ⟨read, hread, hdefined⟩ := bind_eq_ok_iff.1 hdefined
  rcases Definition.ofContents_nil path with hempty | ⟨e, herror⟩
  · obtain rfl := Except.ok.inj (hempty.symm.trans hread)
    have hmissing : Members.find? FieldName.amiImageId definition.record = none := by
      split_ifs at hdefined with hprefixes
      · rw [← Except.ok.inj hdefined]
        rfl
      · obtain ⟨filter, _, hcapture⟩ := bind_eq_ok_iff.1 hdefined
        obtain ⟨taken, _, hfilled⟩ := bind_eq_ok_iff.1 (mapError_eq_ok_iff.1 hcapture)
        rw [← Except.ok.inj hfilled]
        have hne : FieldName.amiImageId ≠ FieldName.environment := by decide
        exact Members.find?_insert_of_ne hne _ _
    rw [Record.normalize_of_find?_eq_none hmissing] at hnormalize
    cases hnormalize
  · rw [herror] at hread
    cases hread

end Command

/-! ### What a new log lets be read -/

namespace Disk

variable {disk before after : Disk} {directory : Location} {log : Path} {opened : Nat × Disk}

/-- What could be read can be read still, and what else can be read is empty. -/
structure AddsEmpty (directory : Location) (before after : Disk) : Prop where
  kept : ∀ {path contents}, before.read directory path = .ok contents →
    after.read directory path = .ok contents
  new : ∀ {path contents}, after.read directory path = .ok contents →
    before.read directory path = .ok contents ∨ contents = []

theorem AddsEmpty.refl (directory : Location) (disk : Disk) : AddsEmpty directory disk disk :=
  ⟨fun h => h, .inl⟩

/-- What refuses an empty file accepts on both or on none. -/
theorem AddsEmpty.exists_read_iff (h : AddsEmpty directory before after) {accepts : Bytes → Prop}
    (hempty : ¬accepts []) (path : Path) :
    (∃ contents, after.read directory path = .ok contents ∧ accepts contents) ↔
      ∃ contents, before.read directory path = .ok contents ∧ accepts contents := by
  constructor
  · rintro ⟨contents, hread, haccepts⟩
    rcases h.new hread with hbefore | rfl
    · exact ⟨contents, hbefore, haccepts⟩
    · exact absurd haccepts hempty
  · rintro ⟨contents, hread, haccepts⟩
    exact ⟨contents, h.kept hread, haccepts⟩

/-- Opening a log lets nothing be read but an empty file. -/
theorem addsEmpty_openFile (h : disk.openFile directory log false = .ok opened) :
    AddsEmpty directory disk opened.2 := by
  rcases openFile_append_cases h with ⟨_, hsame⟩ | ⟨made, _, hstaged, _⟩
  · rw [hsame]
    exact .refl directory disk
  · have hdirectories := hstaged.sameDirectories
    refine ⟨fun {path contents} hread => ?_, fun {path contents} hread => ?_⟩
    · obtain ⟨location, hmeans, hlook⟩ := read_eq_ok_iff.1 hread
      have hother : location ≠ made := by
        rintro rfl
        rw [hstaged.absent] at hlook
        cases hlook
      exact read_eq_ok_iff.2 ⟨location, hdirectories.means_iff.2 hmeans,
        (hstaged.others location hother).trans hlook⟩
    · obtain ⟨location, hmeans, hlook⟩ := read_eq_ok_iff.1 hread
      by_cases hmade : location = made
      · rw [hmade, look_of_file hstaged.entry, hstaged.contents_eq] at hlook
        cases hlook
        exact .inr rfl
      · rw [hstaged.others location hmade] at hlook
        exact .inl (read_eq_ok_iff.2 ⟨location, hdirectories.means_iff.1 hmeans, hlook⟩)

end Disk

end TestJob
