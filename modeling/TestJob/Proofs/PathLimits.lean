import Mathlib
import TestJob.Proofs.LoadOutcome

/-!
The limits of paths. Loading refuses a path for its length as it is displayed, and ill-formed bytes
are displayed as up to three times as many; so a path that is too long in its own bytes is always
refused, and a path is refused for these bytes alone if it is a text (`refused_for_length_iff`).
-/

namespace TestJob

namespace Path

/-! ### Texts as paths -/

theorem mem_pieces_intercalate {part : Bytes} {piece : Option Char} :
    ∀ {parts : List Bytes}, part ∈ parts → piece ∈ Utf8.pieces part →
      piece ∈ Utf8.pieces (List.intercalate [separator] parts)
  | [first], hpart, hpiece => by
    rw [List.intercalate_singleton, ← List.mem_singleton.1 hpart]
    exact hpiece
  | first :: second :: rest, hpart, hpiece => by
    rw [List.intercalate_cons_cons, List.append_assoc, List.singleton_append,
      Utf8.pieces_append_ascii _ _ (by decide), List.mem_append, List.mem_cons]
    rcases List.mem_cons.1 hpart with rfl | hpart
    · exact .inl hpiece
    · exact .inr (.inr (mem_pieces_intercalate hpart hpiece))

/-- Each segment of a path that is a text is a text. -/
theorem exists_encode_of_mem_segments {p : Path} {s : String} (h : p.bytes = Utf8.encode s)
    {segment : Bytes} (hsegment : segment ∈ p.segments) : ∃ t, segment = Utf8.encode t := by
  have hbytes : List.intercalate [separator] p.segments = p.bytes :=
    congrArg Path.bytes (ofSegments_segments p)
  have hwhole := Utf8.exists_eq_encode_iff.1 ⟨s, h⟩
  rw [← hbytes] at hwhole
  exact Utf8.exists_eq_encode_iff.2 fun piece hpiece =>
    hwhole piece (mem_pieces_intercalate hsegment hpiece)

end Path

namespace Definition

variable {m : Machine} {given : Option Path} {path : Path}

/-! ### Refusals -/

/-- Whether a path is chosen to load from: it is given, or nothing is and the variable has it. -/
inductive Chooses (m : Machine) (path : Path) : Option Path → Prop
  | given : Chooses m path (some path)
  | named (found : m.lookupVariable (Utf8.encode "CI_JOB_DEFINITION") = some path.bytes) :
      Chooses m path none

theorem Chooses.resolves (h : Chooses m path given) (hshort : path.bytes.length ≤ 4096) :
    Resolves m given path := by
  cases h with
  | given => exact .given path
  | named found => exact .named found hshort

theorem Chooses.eq_of_resolves {other : Path} (h : Chooses m path given)
    (hresolves : Resolves m given other) : other = path := by
  cases h with
  | given =>
    cases hresolves with
    | given => rfl
  | named found =>
    cases hresolves with
    | named other _ =>
      rw [found] at other
      exact Path.mk.injEq _ _ ▸ (Option.some.inj other).symm
    | usual unset =>
      rw [found] at unset
      cases unset

/-- A path is refused as a whole when it is displayed too long. -/
theorem loads_pathTooLong_iff (h : Chooses m path given) :
    Loads m given (.error (.invalid .pathTooLong)) ↔ 4096 < path.display.utf8ByteSize := by
  constructor
  · intro hloads
    cases hloads with
    | variableTooLong absent found long =>
      cases h with
      | given => cases absent
      | named named =>
        rw [named] at found
        obtain rfl := Option.some.inj found
        exact long.trans_le (Utf8.length_lossy_bounds path.bytes).1
    | pathTooLong resolves long => rwa [h.eq_of_resolves resolves] at long
  · intro hlong
    by_cases hshort : path.bytes.length ≤ 4096
    · exact .pathTooLong (h.resolves hshort) hlong
    · cases h with
      | given => exact .pathTooLong (.given path) hlong
      | named found => exact .variableTooLong rfl found (Nat.lt_of_not_le hshort)

/-- A path that is not too long as a whole is refused when a segment is displayed too long. -/
theorem loads_segmentTooLong_iff (h : Chooses m path given) :
    Loads m given (.error (.invalid .segmentTooLong)) ↔ path.display.utf8ByteSize ≤ 4096 ∧
      ∃ segment ∈ path.segments, 255 < (Utf8.lossy segment).utf8ByteSize := by
  constructor
  · intro hloads
    cases hloads with
    | segmentTooLong resolves short mem long =>
      rw [h.eq_of_resolves resolves] at short mem
      exact ⟨short, _, mem, long⟩
  · rintro ⟨hshort, segment, hmem, hlong⟩
    have hbytes : path.bytes.length ≤ 4096 := (Utf8.length_lossy_bounds path.bytes).1.trans hshort
    exact .segmentTooLong (h.resolves hbytes) hshort hmem hlong

/-- What loading ends with, for the path that is chosen. -/
theorem outcome_eq_iff {outcome : Except DefinitionError Definition} :
    ((load given).run.run m).1 = outcome ↔ Loads m given outcome := by
  rw [run_load, loaded_eq_iff]

theorem checkPath_eq_pathTooLong_iff :
    checkPath path = .error .pathTooLong ↔ 4096 < path.display.utf8ByteSize := by
  constructor
  · intro h
    by_contra hshort
    rw [checkPath_of_short (Nat.le_of_not_lt hshort)] at h
    split at h <;> cases h
  · exact checkPath_of_long

theorem resolve_eq_pathTooLong_iff {bytes : Bytes} :
    resolve none (some bytes) = .error .pathTooLong ↔ 4096 < bytes.length := by
  constructor
  · intro h
    by_contra hshort
    have hresolve : resolve none (some bytes) = .ok ⟨bytes⟩ := if_neg hshort
    rw [hresolve] at h
    cases h
  · exact resolve_of_long

/-- Some segment is displayed too long, for a path that is a text: it is too long in its bytes. -/
theorem exists_long_segment_iff {s : String} (h : path.bytes = Utf8.encode s) :
    (∃ segment ∈ path.segments, 255 < (Utf8.lossy segment).utf8ByteSize) ↔
      ∃ segment ∈ path.segments, 255 < segment.length := by
  refine exists_congr fun segment => and_congr_right fun hmem => ?_
  obtain ⟨t, rfl⟩ := Path.exists_encode_of_mem_segments h hmem
  rw [Utf8.utf8ByteSize_lossy_encode]

/-- A path is refused for its length as it is displayed. So one that is too long in its own bytes is
refused, as a whole or for a segment, and one within a third of the limits is not. If the path is a
text, it is refused exactly for its own bytes, and the check of the variable agrees with that of the
path. -/
theorem refused_for_length_iff (h : Chooses m path given) :
    (((load given).run.run m).1 = .error (.invalid .pathTooLong) ↔
      4096 < path.display.utf8ByteSize) ∧
    (((load given).run.run m).1 = .error (.invalid .segmentTooLong) ↔
      path.display.utf8ByteSize ≤ 4096 ∧
        ∃ segment ∈ path.segments, 255 < (Utf8.lossy segment).utf8ByteSize) ∧
    (4096 < path.bytes.length → ((load given).run.run m).1 = .error (.invalid .pathTooLong)) ∧
    ((∃ segment ∈ path.segments, 255 < segment.length) →
      ((load given).run.run m).1 = .error (.invalid .pathTooLong) ∨
        ((load given).run.run m).1 = .error (.invalid .segmentTooLong)) ∧
    (path.bytes.length ≤ 1365 → (∀ segment ∈ path.segments, segment.length ≤ 85) →
      ((load given).run.run m).1 ≠ .error (.invalid .pathTooLong) ∧
        ((load given).run.run m).1 ≠ .error (.invalid .segmentTooLong)) ∧
    ∀ s, path.bytes = Utf8.encode s →
      (((load given).run.run m).1 = .error (.invalid .pathTooLong) ↔ 4096 < path.bytes.length) ∧
      (((load given).run.run m).1 = .error (.invalid .segmentTooLong) ↔
        path.bytes.length ≤ 4096 ∧ ∃ segment ∈ path.segments, 255 < segment.length) ∧
      (resolve none (some path.bytes) = .error .pathTooLong ↔
        checkPath path = .error .pathTooLong) := by
  have hpath := outcome_eq_iff.trans (loads_pathTooLong_iff h)
  have hsegment := outcome_eq_iff.trans (loads_segmentTooLong_iff h)
  rw [hpath, hsegment, ne_eq, ne_eq, hpath, hsegment]
  obtain ⟨hlow, hhigh⟩ := Utf8.length_lossy_bounds path.bytes
  refine ⟨Iff.rfl, Iff.rfl, fun hlong => hlong.trans_le hlow, ?_, fun hbytes hsegments => ?_,
    fun s hs => ?_⟩
  · rintro ⟨segment, hmem, hlong⟩
    refine (Nat.lt_or_ge 4096 path.display.utf8ByteSize).imp_right fun hshort => ⟨hshort, ?_⟩
    exact ⟨segment, hmem, hlong.trans_le (Utf8.length_lossy_bounds segment).1⟩
  · have hdisplay : path.display.utf8ByteSize ≤ 4095 := hhigh.trans (by omega)
    refine ⟨by omega, ?_⟩
    rintro ⟨_, segment, hmem, hlong⟩
    have hlength := hsegments segment hmem
    have hbound := (Utf8.length_lossy_bounds segment).2
    omega
  · have hdisplay : path.display.utf8ByteSize = path.bytes.length := by
      rw [Path.display, hs, Utf8.utf8ByteSize_lossy_encode]
    rw [resolve_eq_pathTooLong_iff, checkPath_eq_pathTooLong_iff, hdisplay,
      exists_long_segment_iff hs]
    exact ⟨Iff.rfl, Iff.rfl, Iff.rfl⟩

/-- A path that is a text of 86 characters and 258 bytes. -/
def euroPath : Path := ⟨(List.replicate 86 (String.utf8EncodeChar '€')).flatten⟩

/-- A machine whose variable names the path. -/
def euroMachine : Machine :=
  .start Disk.empty [] [(Utf8.encode "CI_JOB_DEFINITION", euroPath.bytes)] 7

theorem refused_for_length_iff_euro :
    ((load none).run.run euroMachine).1 = .error (.invalid .segmentTooLong) ∧
      ((load (some (.ofString "ci-job.toml"))).run.run euroMachine).1 ≠
        .error (.invalid .segmentTooLong) := by
  have htext : euroPath.bytes = Utf8.encode (String.ofList (List.replicate 86 '€')) := by
    rw [Utf8.encode, String.toList_ofList]
    decide +kernel
  have hnamed : Chooses euroMachine euroPath none := .named (by decide +kernel)
  obtain ⟨_, _, _, _, _, hrefused⟩ := refused_for_length_iff hnamed
  have hgiven : Chooses euroMachine (.ofString "ci-job.toml") (some (.ofString "ci-job.toml")) :=
    .given
  obtain ⟨_, _, _, _, hshort, _⟩ := refused_for_length_iff hgiven
  exact ⟨(hrefused _ htext).2.1.2 (by decide +kernel),
    (hshort (by decide +kernel) (by decide +kernel)).2⟩

/-- A path of 86 bytes that are no text. -/
def illFormedPath : Path := ⟨List.replicate 86 0xFF⟩

/-- A path far below the limits is refused for its length, given or named by the variable, where the
check of the variable lets it through. -/
theorem short_path_refused :
    illFormedPath.bytes.length = 86 ∧ (∀ segment ∈ illFormedPath.segments, segment.length ≤ 255) ∧
      ((load (some illFormedPath)).run.run euroMachine).1 =
        .error (.invalid .segmentTooLong) ∧
      resolve none (some illFormedPath.bytes) = .ok illFormedPath ∧
      checkPath illFormedPath = .error .segmentTooLong := by
  refine ⟨by decide +kernel, by decide +kernel, ?_, by decide +kernel, by decide +kernel⟩
  exact outcome_eq_iff.2 ((loads_segmentTooLong_iff .given).2 (by decide +kernel))

end Definition

end TestJob
