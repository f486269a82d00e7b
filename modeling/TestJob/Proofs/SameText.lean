import Mathlib
import TestJob.Proofs.Rereading

/-!
Descriptors that are handed off as one text. The canonical form writes a float by its shortest
decimal. If that is a whole number of 64 bits, the float cannot be told from this integer, which
need not be the one of its value, nor one zero from another; nothing else is lost (`same_text_iff`).
Where no number of an environment changes as it is read again, different descriptors have different
texts.
-/

namespace TestJob.SameText

open Json (Related)

variable {record other : Record} {d e : Descriptor}

-- nothing below looks into the record, and unfolding it inserts fifteen members
attribute [local irreducible] Descriptor.toRecord

/-- Two descriptors are reread as one when their environments are, and nothing else sets them
apart. -/
theorem reread_eq_iff : d.reread = e.reread ↔
    { d with environment := e.environment } = e ∧
      Related Number.Alike (.obj d.environment) (.obj e.environment) := by
  rw [← Json.mapNumbers_reread_eq_iff, Json.mapNumbers, Json.mapNumbers, Json.obj.injEq]
  constructor
  · intro h
    exact ⟨congrArg (fun f : Descriptor => { f with environment := e.environment }) h,
      congrArg Descriptor.environment h⟩
  · rintro ⟨hrest, henvironment⟩
    exact congrArg₂ (fun (f : Descriptor) environment => { f with environment }) hrest henvironment

/-- One text is read as one descriptor. -/
theorem canonical_eq_iff_reread (hrecord : Json.Ordered (.obj record))
    (hother : Json.Ordered (.obj other)) (hd : record.normalize = .ok d)
    (he : other.normalize = .ok e) : d.canonical = e.canonical ↔ d.reread = e.reread := by
  have hdordered := RoundTrip.ordered_toRecord (RoundTrip.ordered_environment hrecord hd)
  have heordered := RoundTrip.ordered_toRecord (RoundTrip.ordered_environment hother he)
  rw [Descriptor.canonical, Descriptor.canonical, Json.canonical_eq_iff hdordered heordered,
    ← Json.mapNumbers_reread_eq_iff, Rereading.mapNumbers_toRecord, Rereading.mapNumbers_toRecord,
    Json.obj.injEq]
  constructor
  · intro h
    have hnormalize : d.reread.toRecord.normalize = .ok d.reread :=
      Projection.normalize_toRecord_environment hd _
    rw [h] at hnormalize
    exact Except.ok.inj (hnormalize.symm.trans (Projection.normalize_toRecord_environment he _))
  · exact congrArg Descriptor.toRecord

/-- Two accepted records are handed off as one text exactly when their descriptors are the same but
for numbers of the environment that are alike: equal, an integer and a float whose shortest decimal
is that integer, or two zeros. So where rereading changes no number of either environment, different
descriptors have different texts. -/
theorem same_text_iff (hrecord : Json.Ordered (.obj record)) (hother : Json.Ordered (.obj other))
    (hd : record.normalize = .ok d) (he : other.normalize = .ok e) :
    (d.canonical = e.canonical ↔ { d with environment := e.environment } = e ∧
        Related Number.Alike (.obj d.environment) (.obj e.environment)) ∧
      (Json.EachNumber (fun n => n.reread = n) (.obj d.environment) →
        Json.EachNumber (fun n => n.reread = n) (.obj e.environment) →
        d.canonical = e.canonical → d = e) := by
  have hiff : d.canonical = e.canonical ↔ { d with environment := e.environment } = e ∧
      Related Number.Alike (.obj d.environment) (.obj e.environment) := by
    rw [canonical_eq_iff_reread hrecord hother hd he, reread_eq_iff]
  refine ⟨hiff, fun hdkept hekept htext => ?_⟩
  obtain ⟨hrest, halike⟩ := hiff.1 htext
  have henvironment : d.environment = e.environment :=
    Json.obj.inj (Json.eq_of_related_alike hdkept hekept halike)
  rw [← henvironment] at hrest
  exact hrest

open Rereading (numbered floated one)

/-- Two floats that are not whole are told apart. -/
theorem same_text_iff_fractions :
    (floated 1023 1).toRecord.normalize = .ok (floated 1023 1) ∧
      (floated 1023 2).toRecord.normalize = .ok (floated 1023 2) ∧
      (floated 1023 1).canonical ≠ (floated 1023 2).canonical := by
  have hfirst : (floated 1023 1).toRecord.normalize = .ok (floated 1023 1) := by decide +kernel
  have hsecond : (floated 1023 2).toRecord.normalize = .ok (floated 1023 2) := by decide +kernel
  refine ⟨hfirst, hsecond, fun htext => ?_⟩
  have hsame := (same_text_iff (by decide +kernel) (by decide +kernel) hfirst hsecond).2
    (by decide +kernel) (by decide +kernel) htext
  exact absurd hsame (by decide)

/-- An integer and a float make different descriptors with one text. -/
theorem integer_and_float_same_text :
    (numbered one).toRecord.normalize = .ok (numbered one) ∧
      (floated 1023 0).toRecord.normalize = .ok (floated 1023 0) ∧
      numbered one ≠ floated 1023 0 ∧
      (numbered one).canonical = (floated 1023 0).canonical := by
  refine ⟨by decide +kernel, by decide +kernel, by decide, ?_⟩
  have hreread : (floated 1023 0).reread = numbered one := by decide +kernel
  rw [Descriptor.canonical, Descriptor.canonical,
    ← Json.canonical_mapNumbers (.obj (floated 1023 0).toRecord),
    Rereading.mapNumbers_toRecord, hreread]

end TestJob.SameText
