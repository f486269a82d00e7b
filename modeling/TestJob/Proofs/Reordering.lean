import Mathlib
import TestJob.Proofs.Capturing
import TestJob.Proofs.Collecting

/-!
Captures of the same variables in another order. The prefixes of two filters select the same names
when each of them extends one of the others (`Extends`), whatever their order, and whether or not
some come twice. Where no name is listed twice, two such filters collect the same from two listings
of the same variables, or both refuse them for the same limit (`capture_of_perm`).
-/

namespace TestJob

namespace Capture

/-- Each of some prefixes extends one of others, or is one of them. -/
def Extends (prefixes others : List String) : Prop :=
  ∀ p ∈ prefixes, ∃ q ∈ others, q.toList <+: p.toList

/-- Two faults that are told of the same limit. -/
inductive SameLimit : DefinitionFault → DefinitionFault → Prop where
  | tooLong (name other : String) : SameLimit (.variableTooLong name) (.variableTooLong other)
  | tooMany : SameLimit .tooManyVariables .tooManyVariables

variable {filter filter' : Capture} {listing listing' : List (Bytes × Bytes)} {name : String}
  {chosen others : List (String × String)}

theorem Extends.begins {prefixes others : List String} (h : Extends prefixes others)
    (hname : Begins prefixes name) : Begins others name := by
  obtain ⟨p, hp, hprefix⟩ := hname
  obtain ⟨q, hq, hextends⟩ := h p hp
  exact ⟨q, hq, hextends.trans hprefix⟩

/-- Prefixes of a base, and others that extend one of them, extend every list with that base. -/
theorem extends_of_added {base prefixes others : List String} (hbase : base ⊆ others)
    (hadded : ∀ p ∈ prefixes, p ∈ base ∨ ∃ q ∈ base, q.toList <+: p.toList) :
    Extends prefixes others := by
  intro p hp
  rcases hadded p hp with hmem | ⟨q, hq, hextends⟩
  · exact ⟨p, hbase hmem, List.prefix_rfl⟩
  · exact ⟨q, hbase hq, hextends⟩

theorem take?_congr (h : Extends filter.prefixes filter'.prefixes)
    (h' : Extends filter'.prefixes filter.prefixes) : filter.take? = filter'.take? := by
  funext listed
  ext m
  rw [take?_eq_some_iff, take?_eq_some_iff]
  exact and_congr_right fun _ => ⟨h.begins, h'.begins⟩

/-- Variables with names of their own are chosen with names of their own. -/
theorem nodup_keys_filterMap (h : (listing.map Prod.fst).Nodup) :
    (Members.keys (listing.filterMap filter.take?)).Nodup := by
  rw [List.Nodup, List.pairwise_map] at h
  rw [Members.keys, List.Nodup, List.pairwise_map]
  refine h.filterMap _ fun listed other hne m hm n hn heq => hne ?_
  rw [(take?_eq_some_iff.1 hm).1, (take?_eq_some_iff.1 hn).1, heq]

theorem short_congr (h : chosen.Perm others) : Short chosen ↔ Short others :=
  forall_congr' fun _ => imp_congr_left h.mem_iff

/-- What is collected does not hang on the order of the listing. Of values that are too long it may
be another one that is met first. -/
theorem collect_of_perm (hlisting : listing.Perm listing')
    (hnames : (listing.map Prod.fst).Nodup) (h : Extends filter.prefixes filter'.prefixes)
    (h' : Extends filter'.prefixes filter.prefixes) :
    (∃ taken, filter.collect listing = .ok taken ∧ filter'.collect listing' = .ok taken) ∨
      ∃ fault fault', SameLimit fault fault' ∧ filter.collect listing = .error fault ∧
        filter'.collect listing' = .error fault' := by
  have hchosen : (listing.filterMap filter.take?).Perm (listing'.filterMap filter'.take?) :=
    take?_congr h h' ▸ hlisting.filterMap _
  have hsame := short_congr hchosen
  rcases short_or_exists_long (listing.filterMap filter.take?) with
    hshort | ⟨before, name, value, after, hlist, hbefore, hlong⟩
  · have hkeys : (Members.keys (texts (listing.filterMap filter.take?))).Nodup := by
      rw [keys_texts]
      exact nodup_keys_filterMap hnames
    have hmapping : Members.ofList (texts (listing.filterMap filter.take?)) =
        Members.ofList (texts (listing'.filterMap filter'.take?)) :=
      Members.ofList_congr (hchosen.map _) hkeys
    have hcount : (Members.keys (listing.filterMap filter.take?)).toFinset =
        (Members.keys (listing'.filterMap filter'.take?)).toFinset :=
      List.toFinset_eq_of_perm _ _ (hchosen.map Prod.fst)
    rw [collect_of_short hshort, collect_of_short (hsame.1 hshort), hmapping, hcount]
    split
    · exact .inl ⟨_, rfl, rfl⟩
    · exact .inr ⟨_, _, .tooMany, rfl, rfl⟩
  · have hnot : ¬Short (listing.filterMap filter.take?) := fun hshort =>
      Nat.not_le.2 hlong (hshort (name, value) (by simp [hlist]))
    obtain ⟨before', other, value', after', hlist', hbefore', hlong'⟩ :=
      (short_or_exists_long _).resolve_left (hsame.not.1 hnot)
    exact .inr ⟨_, _, .tooLong name other, collect_of_long hlist hbefore hlong,
      collect_of_long hlist' hbefore' hlong'⟩

end Capture

namespace Definition

open Capture (Extends SameLimit)

variable {definition after : Definition} {call call' : CaptureCall} {fault : DefinitionFault}

/-- A call succeeds and leaves a definition, as a capture gives it and where it stands. -/
def Fills (definition : Definition) (call : CaptureCall) (after : Definition) : Prop :=
  definition.capture call.filter call.listing = .ok after ∧
    (captureInPlace call).run.run definition = (.ok (), after)

/-- A call fails and leaves the definition as it is. -/
def Refuses (definition : Definition) (call : CaptureCall) (fault : DefinitionFault) : Prop :=
  definition.capture call.filter call.listing = .error fault ∧
    (captureInPlace call).run.run definition = (.error fault, definition)

theorem fills_of_capture (h : definition.capture call.filter call.listing = .ok after) :
    definition.Fills call after :=
  ⟨h, by rw [run_captureInPlace, h]⟩

theorem refuses_of_capture (h : definition.capture call.filter call.listing = .error fault) :
    definition.Refuses call fault :=
  ⟨h, by rw [run_captureInPlace, h]⟩

/-- The order in which variables are listed makes no difference, nor do the order of the prefixes,
repeated ones, and ones that extend others: where no name is listed twice, both captures leave the
same definition, or both fail for the same limit and leave the definition as it is. -/
theorem capture_of_perm (definition : Definition) (hlisting : call.listing.Perm call'.listing)
    (hnames : (call.listing.map Prod.fst).Nodup)
    (hprefixes : Extends call.filter.prefixes call'.filter.prefixes)
    (hprefixes' : Extends call'.filter.prefixes call.filter.prefixes) :
    (∃ after, definition.Fills call after ∧ definition.Fills call' after) ∨
      ∃ fault fault', SameLimit fault fault' ∧ definition.Refuses call fault ∧
        definition.Refuses call' fault' := by
  cases hlookup : definition.record.lookup FieldName.environment with
  | some value =>
    refine .inl ⟨definition, fills_of_capture ?_, fills_of_capture ?_⟩ <;> rw [capture, hlookup]
  | none =>
    rcases Capture.collect_of_perm hlisting hnames hprefixes hprefixes' with
      ⟨taken, hcollect, hcollect'⟩ | ⟨fault, fault', hsame, hcollect, hcollect'⟩
    · refine .inl ⟨definition.filled taken, fills_of_capture ?_, fills_of_capture ?_⟩
      · rw [capture, hlookup, hcollect]
        rfl
      · rw [capture, hlookup, hcollect']
        rfl
    · refine .inr ⟨fault, fault', hsame, refuses_of_capture ?_, refuses_of_capture ?_⟩
      · rw [capture, hlookup, hcollect]
        rfl
      · rw [capture, hlookup, hcollect']
        rfl

/-- Variables of a build, and one that no prefix selects. -/
def sampleListing : List (Bytes × Bytes) :=
  [ (Utf8.encode "GIT_SHA", Utf8.encode "af86"), (Utf8.encode "HOME", Utf8.encode "/"),
    (Utf8.encode "BUILD_ID", Utf8.encode "1742") ]

/-- Captures them. -/
def sampleCall : CaptureCall := ⟨⟨["BUILD_", "GIT_"], by decide, by decide⟩, sampleListing⟩

/-- Captures them in another order, with a prefix twice and one that extends another. -/
def reorderedCall : CaptureCall :=
  ⟨⟨["GIT_", "BUILD_ID", "BUILD_", "GIT_"], by decide, by decide⟩, sampleListing.reverse⟩

theorem capture_of_perm_sample :
    sampleCall.listing.Perm reorderedCall.listing ∧ (sampleCall.listing.map Prod.fst).Nodup ∧
      Extends sampleCall.filter.prefixes reorderedCall.filter.prefixes ∧
      Extends reorderedCall.filter.prefixes sampleCall.filter.prefixes ∧
      ∃ after, unsetDefinition.Fills sampleCall after ∧
        unsetDefinition.Fills reorderedCall after := by
  have hlisting : sampleCall.listing.Perm reorderedCall.listing :=
    (List.reverse_perm sampleListing).symm
  have hnames : (sampleCall.listing.map Prod.fst).Nodup := by decide
  have hbase : sampleCall.filter.prefixes ⊆ reorderedCall.filter.prefixes := by decide
  have hprefixes : Extends sampleCall.filter.prefixes reorderedCall.filter.prefixes :=
    Capture.extends_of_added hbase fun p hp => .inl hp
  have hprefixes' : Extends reorderedCall.filter.prefixes sampleCall.filter.prefixes :=
    Capture.extends_of_added (List.Subset.refl _) (by decide)
  refine ⟨hlisting, hnames, hprefixes, hprefixes', ?_⟩
  refine (capture_of_perm unsetDefinition hlisting hnames hprefixes hprefixes').resolve_right ?_
  rintro ⟨fault, _, _, ⟨hfault, _⟩, _⟩
  have hok : (unsetDefinition.capture sampleCall.filter sampleCall.listing).isOk = true := by
    decide +kernel
  rw [hfault] at hok
  cases hok

end Definition

end TestJob
