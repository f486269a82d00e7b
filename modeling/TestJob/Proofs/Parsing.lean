import Mathlib
import TestJob.Definition.Basic
import TestJob.Proofs.Outcome
import TestJob.Proofs.Toml.Order

/-!
The record of a definition that is read from a text. A TOML document gives each member of its table
to the record, a JSON text is read as the record; either way every object of the record has its keys
in order (`ordered_parse`).
-/

namespace TestJob.Definition

open Toml (Written)

variable {text : String} {definition : Definition}

/-- What the table of a TOML document makes, if there is one. -/
def ofTable : Option (List (String × Toml)) → Except DefinitionError Definition
  | none => .error (.unreadable "not a TOML document")
  | some members =>
    match Toml.membersToJson [] members with
    | .error e => .error (.invalid (.notFinite e))
    | .ok record => .ok (ofRecord record)

theorem parse_toml (text : String) : parse text .toml = ofTable (Toml.read? text) := by
  rw [parse, readText]
  cases Toml.read? text with
  | none => rfl
  | some members =>
    simp only [ofTable, Toml.toJson]
    cases Toml.membersToJson [] members <;> rfl

section Read

variable {members : List (String × Toml)} (hread : Toml.read? text = some members)

include hread

theorem parse_of_toJson_error {e : Toml.NonFinite} (h : (Toml.table members).toJson = .error e) :
    parse text .toml = .error (.invalid (.notFinite e)) := by
  rw [Toml.toJson] at h
  rw [parse_toml, hread, ofTable]
  cases hrecord : Toml.membersToJson [] members with
  | ok record => simp [hrecord, Except.map] at h
  | error e' =>
    rw [hrecord] at h
    injection h with h
    rw [h]

/-- The record of a definition is what its document becomes. -/
theorem parse_eq_ok_iff : parse text .toml = .ok definition ↔
    (Toml.table members).toJson = .ok (.obj definition.record) ∧ definition.source = none := by
  rw [parse_toml, hread, ofTable, Toml.toJson]
  cases Toml.membersToJson [] members with
  | error e => simp [Except.map]
  | ok record =>
    obtain ⟨record', source⟩ := definition
    simp [Except.map, ofRecord, eq_comm]

end Read

/-- A definition that a TOML document makes has what the members of the document give. -/
theorem exists_written_of_parse (h : parse text .toml = .ok definition) :
    ∃ written, Toml.readWritten? text = some written ∧
      List.Forall₂ (fun m value => m.1 = value.1 ∧ m.2.Gives value.2) written
        definition.record := by
  cases hread : Toml.read? text with
  | none =>
    rw [parse_toml, hread] at h
    cases h
  | some tables =>
    obtain ⟨written, hwritten, htables⟩ := Option.bind_eq_some_iff.1 hread
    exact ⟨written, hwritten, Written.gives_members htables ((parse_eq_ok_iff hread).1 h).1⟩

/-- The text of lines, each with its end. -/
def linesText (lines : List String) : String :=
  String.ofList (lines.flatMap fun line => line.toList ++ ['\n'])

/-- Characters that are put together are read without being taken apart again. -/
theorem readWritten?_ofList (cs : List Char) :
    Toml.readWritten? (String.ofList cs) =
      (Toml.Draft.lines? (Toml.dropMark cs).length ⟨[], []⟩ (Toml.dropMark cs)).map fun draft =>
        Toml.membersOf [] draft.entries := by
  rw [Toml.readWritten?, String.toList_ofList]

theorem parse_ofList (cs : List Char) :
    parse (String.ofList cs) .toml = ofTable
      (((Toml.Draft.lines? (Toml.dropMark cs).length ⟨[], []⟩ (Toml.dropMark cs)).map fun draft =>
        Toml.membersOf [] draft.entries).bind (Written.membersToToml? [])) := by
  rw [parse_toml, Toml.read?, readWritten?_ofList]

/-- A definition that a JSON text makes has the members of the text. -/
theorem read?_of_parse (h : parse text .json = .ok definition) :
    Json.read? text = some (.obj definition.record) := by
  rw [parse, bind_eq_ok_iff] at h
  obtain ⟨value, hvalue, h⟩ := h
  rw [readText] at hvalue
  cases hread : Json.read? text with
  | none => simp [hread] at hvalue
  | some read =>
    rw [hread] at hvalue
    obtain rfl : read = value := Except.ok.inj hvalue
    cases read with
    | obj record =>
      obtain rfl : ofRecord record = definition := Except.ok.inj h
      rfl
    | null => cases h
    | bool flag => cases h
    | num number => cases h
    | str string => cases h
    | arr items => cases h

/-- The record of a definition has its keys in order, at any depth. -/
theorem ordered_parse {format : DefinitionFormat} (h : parse text format = .ok definition) :
    Json.Ordered (.obj definition.record) := by
  cases format with
  | toml =>
    obtain ⟨written, hwritten, hmembers⟩ := exists_written_of_parse h
    have hordered := Written.ordered_table.1 (Toml.ordered_readWritten? hwritten)
    refine Json.ordered_obj.2 ⟨Written.ascending_of_forall₂ hmembers hordered.1, fun m hm => ?_⟩
    obtain ⟨w, hw, _, hgives⟩ := Json.exists_mem_of_forall₂ hmembers m hm
    exact hgives.ordered w.2 (hordered.2 w hw)
  | json => exact (Json.readWithin?_spec (read?_of_parse h)).1

end TestJob.Definition
