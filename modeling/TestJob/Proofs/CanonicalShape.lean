import Mathlib
import TestJob.Proofs.Json.Canonical
import TestJob.Proofs.RoundTrip

/-!
The shape of what is handed off. The canonical text of an accepted descriptor is one line without
room in it, and lists the members of every object once each in the ascending order of their written
keys. Where all keys are plain, that is the order of their UTF-16 code units (`canonical_shape`).
-/

namespace TestJob.RoundTrip

section Accepted

-- nothing below looks into the record, and unfolding it inserts fifteen members
attribute [local irreducible] Descriptor.toRecord

theorem toList_canonical (d : Descriptor) :
    d.canonical.toList = Json.chars .canonical Members.ofList (.obj d.toRecord) := by
  rw [Descriptor.canonical, Json.canonical, String.toList_ofList]

/-- The canonical text of an accepted descriptor has no byte below U+0020 and no white space outside
its string literals, and in every object of it the members are listed once each, strictly ascending
by the bytes of their written keys; if all keys are plain, strictly ascending by the code units of
their keys. -/
theorem canonical_shape {record : Record} {d : Descriptor} (hordered : Json.Ordered (.obj record))
    (h : record.normalize = .ok d) :
    (∀ b ∈ Utf8.encode d.canonical, 0x20 ≤ b) ∧
      (∀ c ∈ Json.outer .outside d.canonical.toList, Text.isWhiteSpace c = false) ∧
      Json.Written Json.WrittenBefore (.obj d.toRecord) d.canonical.toList ∧
      ((∀ key ∈ Json.allKeys (.obj d.toRecord), Json.PlainKey key) →
        Json.Written Utf16.Before (.obj d.toRecord) d.canonical.toList) := by
  have htoRecord := ordered_toRecord (ordered_environment hordered h)
  have hchars := (toList_canonical d).trans (Json.chars_ofList _ _)
  refine ⟨Json.Printable.le_of_mem_encode ?_, ?_, ?_, fun hplain => ?_⟩
  · rw [hchars]
    exact Json.printable_chars _ _
  · rw [hchars]
    exact (Json.tight_chars _ _).not_whiteSpace
  · rw [toList_canonical]
    exact Json.written_ofList _ htoRecord fun key _ other _ => Json.writtenBefore_iff_quote_lt.2
  · rw [toList_canonical]
    refine Json.written_ofList _ htoRecord fun key hkey other hother hlt => ?_
    rw [← (hplain key hkey).writtenBefore_iff (hplain other hother)]
    exact Json.writtenBefore_iff_quote_lt.2 hlt

end Accepted

/-- An environment with plain keys of which some begin with others. -/
def plainEnvironment : Record :=
  [ ("a", .arr [.obj [("b", .null), ("b-c", .bool false), ("bc", .str "b c")], .str "\n"]),
    ("a.b", .obj []),
    ("ab", .num (.ofUInt64 7)),
    ("é", .obj [("é", .null), ("éé", .null)]) ]

/-- A descriptor with that environment. -/
def plainDescriptor : Descriptor :=
  { Projection.sampleDescriptor with environment := plainEnvironment }

theorem canonical_shape_plain :
    Json.Ordered (.obj plainDescriptor.toRecord) ∧
      plainDescriptor.toRecord.normalize = .ok plainDescriptor ∧
      (∀ key ∈ Json.allKeys (.obj plainDescriptor.toRecord), Json.PlainKey key) ∧
      Json.Written Json.WrittenBefore (.obj plainDescriptor.toRecord)
        plainDescriptor.canonical.toList ∧
      Json.Written Utf16.Before (.obj plainDescriptor.toRecord)
        plainDescriptor.canonical.toList := by
  have hordered : Json.Ordered (.obj plainDescriptor.toRecord) := by decide
  have hnormalize : plainDescriptor.toRecord.normalize = .ok plainDescriptor := rfl
  have hplain : ∀ key ∈ Json.allKeys (.obj plainDescriptor.toRecord), Json.PlainKey key := by
    decide +kernel
  obtain ⟨_, _, hwritten, hunits⟩ := canonical_shape hordered hnormalize
  exact ⟨hordered, hnormalize, hplain, hwritten, hunits hplain⟩

end TestJob.RoundTrip
