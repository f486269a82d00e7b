import Mathlib
import TestJob.Proofs.PathLimits
import TestJob.Proofs.Projection
import TestJob.Proofs.Submission

/-!
What the reference of a run refers to. A hand-off that succeeds leaves the canonical text at its
path and reports the path as it is displayed. That is the path itself exactly if the path is text
(`Path.ofString_display_iff`), and of the path of a hand-off only the last name must be text. So the
reference leads to what was handed off where the directories on the way are text as well
(`Handoff.reference_denotes`); elsewhere two hand-offs to two files can report one reference, which
leads to neither (`Handoff.reference_lost`).
-/

namespace TestJob

namespace Path

/-- A path that is the bytes of a text. -/
def IsText (p : Path) : Prop := ∃ s, p.bytes = Utf8.encode s

theorem display_ofString (s : String) : (ofString s).display = s := Utf8.lossy_encode s

/-- What is displayed is the path again exactly if the path is text. -/
theorem ofString_display_iff {p : Path} : ofString p.display = p ↔ p.IsText := by
  constructor
  · exact fun h => ⟨p.display, (congrArg bytes h).symm⟩
  · rintro ⟨s, hs⟩
    have hp : p = ofString s := congrArg mk hs
    rw [hp, display_ofString]

theorem eq_of_display_eq {p q : Path} (hp : p.IsText) (hq : q.IsText)
    (h : p.display = q.display) : p = q := by
  rw [← ofString_display_iff.2 hp, h, ofString_display_iff.2 hq]

/-- Texts with slashes between them are a text. -/
theorem exists_encode_intercalate :
    ∀ {parts : List Bytes}, (∀ part ∈ parts, ∃ s, part = Utf8.encode s) →
      ∃ s, List.intercalate [separator] parts = Utf8.encode s
  | [], _ => ⟨"", rfl⟩
  | [part], h => by
    rw [List.intercalate_singleton]
    exact h part List.mem_cons_self
  | part :: second :: rest, h => by
    obtain ⟨hpart, hrest⟩ := List.forall_mem_cons.1 h
    obtain ⟨s, rfl⟩ := hpart
    obtain ⟨t, ht⟩ := exists_encode_intercalate hrest
    refine ⟨s ++ "/" ++ t, ?_⟩
    rw [List.intercalate_cons_cons, ht, Utf8.encode, Utf8.encode, Utf8.encode, String.toList_append,
      String.toList_append, List.flatMap_append, List.flatMap_append]
    rfl

/-- A path is text exactly if its segments are. -/
theorem isText_iff {p : Path} : p.IsText ↔ ∀ segment ∈ p.segments, ∃ s, segment = Utf8.encode s := by
  refine ⟨fun ⟨s, hs⟩ segment hsegment => exists_encode_of_mem_segments hs hsegment, fun h => ?_⟩
  have hbytes : List.intercalate [separator] p.segments = p.bytes :=
    congrArg bytes (ofSegments_segments p)
  rw [IsText, ← hbytes]
  exact exists_encode_intercalate h

/-- A path whose last name is text is text exactly if the way to the name is. -/
theorem Split.isText_iff {p : Path} {way idle : List Bytes} {name : String}
    (h : p.Split way (Utf8.encode name) idle) :
    p.IsText ↔ ∀ segment ∈ way, ∃ s, segment = Utf8.encode s := by
  have hidle : ∀ segment ∈ idle, ∃ s, segment = Utf8.encode s := by
    intro segment hsegment
    have hcases := h.idle_end segment hsegment
    rw [isIdle, Bool.or_eq_true, decide_eq_true_eq, decide_eq_true_eq] at hcases
    rcases hcases with rfl | rfl
    exacts [⟨"", rfl⟩, ⟨".", rfl⟩]
  rw [Path.isText_iff, h.segments_eq, List.forall_mem_append, List.forall_mem_cons]
  exact and_iff_left ⟨⟨name, rfl⟩, hidle⟩

end Path

namespace Handoff

variable {path other : Path} {d d' : Descriptor} {m m' : Machine} {result result' : RunResult}

/-- The last name of a path with a staging file is text. -/
theorem exists_split_of_stagingPath? {staging : Path} {processId : Nat}
    (h : stagingPath? path processId = some staging) :
    ∃ way name idle, path.Split way (Utf8.encode name) idle := by
  obtain ⟨bytes, hname, h⟩ := Option.bind_eq_some_iff.1 h
  obtain ⟨name, hdecode, _⟩ := Option.bind_eq_some_iff.1 h
  obtain ⟨way, idle, hsplit⟩ := Path.fileName?_eq_some_iff.1 hname
  exact ⟨way, name, idle, Utf8.decode?_eq_some_iff.1 hdecode ▸ hsplit⟩

/-- A hand-off that succeeds is accepted, leaves the canonical text at its path and reports the path
as it is displayed. The last name of the path is text, and the reference is the path again exactly
if the directories on the way to it are. Then it leads to what was handed off, and no hand-off at
another path that is text reports it. -/
theorem reference_denotes (h : ((submit path d).run m).1 = .ok result) :
    result.status = .accepted ∧
      ((submit path d).run m).2.disk.read m.directory path = .ok (payload d) ∧
      (∃ way name idle, path.Split way (Utf8.encode name) idle ∧
        (path.IsText ↔ ∀ segment ∈ way, ∃ s, segment = Utf8.encode s)) ∧
      ∃ reference, result.reference = some reference ∧
        (Path.ofString reference = path ↔ path.IsText) ∧
        (path.IsText → ((submit path d).run m).2.disk.read m.directory (.ofString reference) =
          .ok (payload d)) ∧
        ∀ {other d' m' result'}, ((submit other d').run m').1 = .ok result' →
          path.IsText → other.IsText → result'.reference = some reference → other = path := by
  have hread := delivers_submit path d m result h
  obtain ⟨_, staging, hstaging, _⟩ := (ends_submit path d m).ok result h
  obtain ⟨way, name, idle, hsplit⟩ := exists_split_of_stagingPath? hstaging
  obtain rfl := eq_of_submit_ok h
  refine ⟨rfl, hread, ⟨way, name, idle, hsplit, hsplit.isText_iff⟩, path.display, rfl,
    Path.ofString_display_iff, fun htext => ?_, fun hother htext hothertext hreference => ?_⟩
  · rw [Path.ofString_display_iff.2 htext]
    exact hread
  · rw [eq_of_submit_ok hother] at hreference
    exact Path.eq_of_display_eq hothertext htext (Option.some.inj hreference)

open Projection (sampleDescriptor)

/-- A machine with a directory whose name is text. -/
def accentMachine : Machine := .start (Disk.empty.addDirectory [Utf8.encode "é"]) [] [] 7

theorem reference_denotes_accent :
    ((submit (.ofString "é/out.json") sampleDescriptor).run accentMachine).1 =
        .ok ⟨.accepted, some "é/out.json"⟩ ∧
      (Path.ofString "é/out.json").IsText ∧
      ((submit (.ofString "é/out.json") sampleDescriptor).run accentMachine).2.disk.read
        accentMachine.directory (.ofString "é/out.json") = .ok (payload sampleDescriptor) := by
  have hrun : ((submit (.ofString "é/out.json") sampleDescriptor).run accentMachine).1 =
      .ok ⟨.accepted, some "é/out.json"⟩ := by
    decide +kernel
  have htext : (Path.ofString "é/out.json").IsText := ⟨_, rfl⟩
  obtain ⟨_, _, _, reference, hreference, _, hread, _⟩ := reference_denotes hrun
  obtain rfl : "é/out.json" = reference := Option.some.inj hreference
  exact ⟨hrun, htext, hread htext⟩

/-- A machine with two directories whose names are no text. -/
def strayMachine : Machine :=
  .start ((Disk.empty.addDirectory [[0xFF]]).addDirectory [[0xFE]]) [] [] 7

/-- A file in the one directory, and one in the other. -/
def strayPath : Path := ⟨0xFF :: Utf8.encode "/out.json"⟩

def otherPath : Path := ⟨0xFE :: Utf8.encode "/out.json"⟩

/-- Two hand-offs, one after the other, succeed with one reference for two files, and the reference
leads to neither. -/
theorem reference_lost :
    let first := (submit strayPath sampleDescriptor).run strayMachine
    let second := (submit otherPath sampleDescriptor).run first.2
    first.1 = .ok ⟨.accepted, some "\uFFFD/out.json"⟩ ∧
      first.2.disk.read [] (.ofString "\uFFFD/out.json") = .error .notFound ∧
      second.1 = .ok ⟨.accepted, some "\uFFFD/out.json"⟩ ∧
      second.2.disk.read [] (.ofString "\uFFFD/out.json") = .error .notFound ∧
      second.2.disk.object? [] strayPath ≠ second.2.disk.object? [] otherPath := by
  decide +kernel

end Handoff

end TestJob
