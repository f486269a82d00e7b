import Mathlib
import TestJob.Proofs.Commands
import TestJob.Proofs.FirstFault
import TestJob.Proofs.LoadOutcome
import TestJob.Proofs.LogLines
import TestJob.Proofs.Recording

/-!
The lines that a check of a definition prints, with its events on the error stream. An event is one
line whatever it tells of, but the confirmation and the message quote texts of the definition as
they are: the two identifiers, an unknown key, a split that comes twice (`NormalizeError.quoted`).
So there is one line for each thing that is told exactly where no text that is quoted has the end of
a line in it, and else the rest of the quoted text makes lines of its own
(`Command.validate_prints_lines`). A stream that does not take all that is printed has a beginning
of each text, and a confirmation that is not written makes a message of its own.
-/

namespace TestJob

/-! ### Lines -/

namespace Text

/-- A text without the end of a line in it. -/
def IsLine (text : String) : Prop := '\n' ∉ text.toList

instance (text : String) : Decidable (IsLine text) := inferInstanceAs (Decidable (¬_))

theorem isLine_append_iff {s t : String} : IsLine (s ++ t) ↔ IsLine s ∧ IsLine t := by
  rw [IsLine, String.toList_append, List.mem_append, not_or]
  rfl

theorem IsLine.append {s t : String} (hs : IsLine s) (ht : IsLine t) : IsLine (s ++ t) :=
  isLine_append_iff.2 ⟨hs, ht⟩

/-- The lines of a text; what comes after the end of the last one is none. -/
def lines (text : String) : List String :=
  (text.toList.splitOn '\n').dropLast.map String.ofList

theorem lines_cons {line : String} (h : IsLine line) (rest : String) :
    lines (line ++ "\n" ++ rest) = line :: lines rest := by
  have htoList : (line ++ "\n" ++ rest).toList = line.toList ++ '\n' :: rest.toList := by
    rw [String.toList_append, String.toList_append, List.append_assoc]
    rfl
  rw [lines, htoList, List.splitOn_append_cons_self_of_not_mem h,
    List.dropLast_cons_of_ne_nil (List.splitOn_ne_nil _ _), List.map_cons, String.ofList_toList,
    lines]

theorem lines_line {line : String} (h : IsLine line) : lines (line ++ "\n") = [line] := by
  have hcons := lines_cons h ""
  rwa [String.append_empty] at hcons

/-- A text with an end of a line in it is a line and then the rest. -/
theorem exists_eq_line_append (text : String) (h : ¬IsLine text) :
    ∃ first rest, text = first ++ "\n" ++ rest ∧ IsLine first := by
  obtain ⟨first, rest, htext, hfirst⟩ := List.eq_append_cons_of_mem (not_not.1 h)
  refine ⟨String.ofList first, String.ofList rest, ?_, by rwa [IsLine, String.toList_ofList]⟩
  rw [← String.toList_inj, htext]
  simp

theorem lines_ne_nil (text : String) : lines (text ++ "\n") ≠ [] := by
  obtain ⟨first, rest, htext, hfirst⟩ := exists_eq_line_append (text ++ "\n")
    fun h => absurd (isLine_append_iff.1 h).2 (by decide)
  rw [htext, lines_cons hfirst]
  exact List.cons_ne_nil _ _

/-- A text makes one line exactly if it has no end of a line in it. -/
theorem length_lines_eq_one_iff {text : String} :
    (lines (text ++ "\n")).length = 1 ↔ IsLine text := by
  refine ⟨fun h => ?_, fun h => by rw [lines_line h, List.length_singleton]⟩
  by_contra hline
  obtain ⟨first, rest, rfl, hfirst⟩ := exists_eq_line_append text hline
  rw [String.append_assoc, lines_cons hfirst, List.length_cons] at h
  exact lines_ne_nil rest (List.eq_nil_of_length_eq_zero (Nat.succ.inj h))

/-- What is put in front of a text is put in front of its first line. -/
theorem lines_append {opening : String} (h : IsLine opening) (text : String) :
    ∃ first, lines (opening ++ text ++ "\n") =
      (opening ++ first) :: (lines (text ++ "\n")).tail := by
  obtain ⟨first, rest, htext, hfirst⟩ := exists_eq_line_append (text ++ "\n")
    fun h => absurd (isLine_append_iff.1 h).2 (by decide)
  refine ⟨first, ?_⟩
  rw [String.append_assoc, htext, lines_cons hfirst, List.tail_cons,
    ← lines_cons (h.append hfirst)]
  simp only [String.append_assoc]

end Text

open Text (IsLine lines)

/-! ### Messages -/

namespace NormalizeError

/-- The text of the definition that the message of a fault ends with. -/
def quoted : NormalizeError → String
  | duplicateSplit name => name
  | unknownField key => key
  | _ => ""

/-- The message of a fault up to the text of the definition. -/
def opening : NormalizeError → String
  | duplicateSplit _ => "duplicate test split: "
  | unknownField _ => "unknown field: "
  | fault => fault.message

theorem message_eq (fault : NormalizeError) : fault.message = fault.opening ++ fault.quoted := by
  cases fault with
  | duplicateSplit | unknownField => rfl
  | _ => exact String.append_empty.symm

end NormalizeError

namespace FieldTable

variable {record : Record} {field : Field} {fault : NormalizeError}

theorem isLine_name : ∀ field ∈ Field.all, IsLine field.name := by decide +kernel

theorem isLine_nat (n : Nat) : IsLine (toString n) := by
  rw [IsLine, Nat.toString_eq_repr, Nat.toList_repr]
  exact fun h => absurd (Nat.isDigit_of_mem_toDigits (by decide) (by decide) h) (by decide)

theorem isLine_int (n : Int) : IsLine (toString n) := by
  rw [Int.toString_eq_repr, Int.repr_eq_if]
  split
  · exact isLine_nat _
  · exact Text.IsLine.append (by decide) (isLine_nat _)

theorem isLine_fieldKind (kind : FieldKind) : IsLine kind.label := by
  rw [FieldKind.label.eq_def]
  split <;> decide

theorem isLine_valueKind (kind : ValueKind) : IsLine kind.label := by
  cases kind <;> decide

theorem isLine_itemName {name : String} (hname : IsLine name) (index : Nat) :
    IsLine (Record.itemName name index) :=
  ((hname.append (by decide)).append (isLine_nat index)).append (by decide)

theorem isLine_mismatch {name : String} (hname : IsLine name) (kind : FieldKind)
    (actual : ValueKind) : IsLine (NormalizeError.typeMismatch name kind.label actual).message :=
  have hfield : IsLine ("type mismatch for " ++ name) := Text.IsLine.append (by decide) hname
  (((hfield.append (by decide)).append (isLine_fieldKind kind)).append (by decide)).append
    (isLine_valueKind actual)

theorem Told.isLine_opening (hfield : field ∈ Field.all) (h : Told field fault) :
    IsLine fault.opening := by
  have hname := isLine_name field hfield
  cases h with
  | missing => exact Text.IsLine.append (by decide) hname
  | empty => exact Text.IsLine.append (by decide) hname
  | range n =>
    have hrange : IsLine ("value out of range for " ++ field.name) :=
      Text.IsLine.append (by decide) hname
    exact (hrange.append (by decide)).append (isLine_int n)
  | mismatch kind actual => exact isLine_mismatch hname kind actual
  | item hlist index actual => exact isLine_mismatch (isLine_itemName hname index) .string actual
  | emptySplit hname => decide
  | duplicateSplit hname text =>
    rw [NormalizeError.opening]
    decide

/-- A record is refused in one line, up to the text of the definition that is quoted. -/
theorem isLine_opening (h : record.normalize = .error fault) : IsLine fault.opening := by
  rcases faultAt?_cases (first_of_normalize_error h).1 with ⟨field, hfield, _, hcheck⟩ | ⟨_, heq⟩
  · exact (told_of_check hfield hcheck).isLine_opening hfield
  · rw [heq, NormalizeError.opening]
    decide

end FieldTable

/-! ### What a check prints -/

namespace Command

open Audit (Event Sink)

variable {m : Machine} {choice : DefinitionChoice} {definition : Definition}

/-- What `validate` leaves behind, with its events on the error stream. -/
def afterValidate (m : Machine) (choice : DefinitionChoice) : Machine :=
  ((Invocation.run ⟨some Invocation.errorStream, .validate choice⟩).run m).2

theorem openSink_errorStream (m : Machine) :
    (Invocation.openSink (some Invocation.errorStream)).run m = (.ok .errorStream, m) := rfl

/-- A machine on which an event has been recorded on the error stream. -/
def reported (event : Event) (m : Machine) : Machine := ((Sink.errorStream.record event).run m).2

/-- The text of an event that is recorded on the error stream of a machine. -/
def eventText (event : Event) (m : Machine) : String := event.line (m.times.headD 0) ++ "\n"

theorem writes_afterValidate {found : Descriptor × Option Path}
    (h : verdict (loaded m choice) = .ok found) :
    ∃ exit, Writes (reported (finding choice (loaded m choice)) m) (validLine found.1) exit
      (afterValidate m choice) := by
  have hrun : (perform .errorStream (validate choice)).run.run m = _ :=
    run_perform .errorStream rfl m
  rw [h] at hrun
  rw [afterValidate, Invocation.run_of_openSink (openSink_errorStream m), hrun]
  exact ⟨_, writes_endWith _ _⟩

theorem afterValidate_of_error {e : CommandError} (h : verdict (loaded m choice) = .error e) :
    afterValidate m choice =
      ((reported (finding choice (loaded m choice)) m).print .error (e.message ++ "\n")).2 := by
  rw [afterValidate, Invocation.run_of_openSink (openSink_errorStream m),
    run_perform .errorStream rfl, h]
  rfl

/-- The confirmation is one line exactly if the identifiers in it are. -/
theorem isLine_validLine_iff {d : Descriptor} :
    IsLine (validLine d) ↔ IsLine d.amiImageId.text ∧ IsLine d.agentLabel.text := by
  have hopening : IsLine "job definition valid: " := by decide
  have hon : IsLine " on " := by decide
  have hbracket : IsLine " (" := by decide
  have hsplits : IsLine " splits)" := by decide
  have hcount := FieldTable.isLine_nat d.testSplits.length
  unfold validLine
  constructor
  · intro h
    obtain ⟨h, _⟩ := Text.isLine_append_iff.1 h
    obtain ⟨h, _⟩ := Text.isLine_append_iff.1 h
    obtain ⟨h, _⟩ := Text.isLine_append_iff.1 h
    obtain ⟨h, hlabel⟩ := Text.isLine_append_iff.1 h
    obtain ⟨h, _⟩ := Text.isLine_append_iff.1 h
    exact ⟨(Text.isLine_append_iff.1 h).2, hlabel⟩
  · rintro ⟨himage, hlabel⟩
    have hidentifiers := ((hopening.append himage).append hon).append hlabel
    exact ((hidentifiers.append hbracket).append hcount).append hsplits

/-- No JSON text begins with the word that the message of a refusal begins with. -/
theorem read?_invalid (rest : String) : Json.read? ("invalid job descriptor: " ++ rest) = none := by
  have hword : "invalid job descriptor: ".toList.foldlM Json.Token.step ⟨[], .between⟩ = none := rfl
  rw [Json.read?, Json.readWithin?, Json.Node.read?, Json.Token.read?, String.toList_append,
    List.foldlM_append, hword]
  rfl

/-- What is printed of a definition in order: its event, and the confirmation. -/
structure Confirmed (m : Machine) (source : Option Path) (d : Descriptor) (after : Machine) :
    Prop where
  written : m.printFailure? .output = none →
    after.output = Utf8.encode (validLine d ++ "\n") ∧
      after.error = Machine.taken m.errorFailures [eventText (.validated source d) m]
  /-- Where the output does not take the confirmation, it has a beginning of it, and there is a
  message below the event. -/
  unwritten : ∀ failure, m.printFailure? .output = some failure →
    after.output = (Utf8.encode (validLine d ++ "\n")).take failure.stored ∧
      after.error = Machine.taken m.errorFailures
        [eventText (.validated source d) m, (CommandError.output failure.error).message ++ "\n"]
  event : lines (eventText (.validated source d) m) =
    [(Event.validated source d).line (m.times.headD 0)]
  /-- The confirmation is one line exactly if the identifiers in it are. -/
  confirmation_iff : (lines (validLine d ++ "\n")).length = 1 ↔
    IsLine d.amiImageId.text ∧ IsLine d.agentLabel.text

/-- The text that tells of a definition that is refused: its event, and the message. -/
def refusal (source : Option Path) (fault : NormalizeError) (m : Machine) : String :=
  eventText (.rejected source fault) m ++ ((DefinitionError.rejected fault).message ++ "\n")

/-- What is printed of a definition that is refused. -/
structure Refused (m : Machine) (source : Option Path) (fault : NormalizeError) (after : Machine) :
    Prop where
  output : after.output = []
  error : after.error = Machine.taken m.errorFailures
    [eventText (.rejected source fault) m, (DefinitionError.rejected fault).message ++ "\n"]
  /-- Where the error stream takes what is printed, it has the whole text. -/
  whole : (∀ failure ∈ m.errorFailures.take 2, failure = none) →
    after.error = Utf8.encode (refusal source fault m)
  /-- The text that the message quotes begins in the line of the message, and the rest of it makes
  lines of its own. -/
  lines_eq : ∃ first, lines (refusal source fault m) =
    (Event.rejected source fault).line (m.times.headD 0) ::
      ("invalid job descriptor: " ++ fault.opening ++ first) :: (lines (fault.quoted ++ "\n")).tail
  lines_iff : (lines (refusal source fault m)).length = 2 ↔ IsLine fault.quoted
  lines_of_isLine : IsLine fault.quoted → lines (refusal source fault m) =
    [(Event.rejected source fault).line (m.times.headD 0),
      (DefinitionError.rejected fault).message]
  /-- A line that is read as an object is the event, or stands in the text that is quoted. -/
  objects : ∀ line ∈ lines (refusal source fault m),
    (∃ members, Json.read? line = some (.obj members)) →
    line = (Event.rejected source fault).line (m.times.headD 0) ∨
      line ∈ (lines (fault.quoted ++ "\n")).tail

theorem confirmed_afterValidate {d : Descriptor} (hout : m.output = []) (herr : m.error = [])
    (hload : ((loadChoice choice).run.run m).1 = .ok definition)
    (h : definition.record.normalize = .ok d) :
    Confirmed m definition.source d (afterValidate m choice) := by
  rw [run_loadChoice] at hload
  dsimp only at hload
  have hverdict : verdict (loaded m choice) = .ok (d, definition.source) := by
    rw [hload, verdict, h]
  have hfinding : finding choice (loaded m choice) = .validated definition.source d := by
    rw [hload, finding, h]
  obtain ⟨exit, hwrites⟩ := writes_afterValidate hverdict
  rw [hfinding] at hwrites
  have hprinted := Sink.hasPrinted_record_errorStream (.validated definition.source d) m
  obtain ⟨houtput, hfailures⟩ := Sink.errorStream.output_record (.validated definition.source d) m
  have hfailure : (reported (.validated definition.source d) m).printFailure? .output =
      m.printFailure? .output := Sink.errorStream.printFailure?_record _ m
  refine ⟨fun htaken => ?_, fun failure hfails => ?_,
    Text.lines_line (Event.newline_not_mem_line _ _),
    Text.length_lines_eq_one_iff.trans isLine_validLine_iff⟩
  · obtain ⟨_, hafter⟩ := hwrites.written (hfailure.trans htaken)
    rw [hafter]
    refine ⟨?_, ?_⟩
    · change (reported _ m).output ++ _ = _
      rw [reported, houtput, hout, List.nil_append]
    · change (reported _ m).error = _
      rw [reported, hprinted.error, herr, List.nil_append, eventText]
  · obtain ⟨_, hafter⟩ := hwrites.unwritten failure (hfailure.trans hfails)
    rw [hafter]
    refine ⟨?_, ?_⟩
    · rw [Machine.print_error]
      change (reported _ m).output ++ _ = _
      rw [reported, houtput, hout, List.nil_append]
    · have hemitted : m.HasPrinted [eventText (.validated definition.source d) m]
          ((reported (.validated definition.source d) m).emit .output
            ((Utf8.encode (validLine d ++ "\n")).take failure.stored)) :=
        ⟨hprinted.error, hprinted.errorFailures⟩
      have hboth := hemitted.error_print ((CommandError.output failure.error).message ++ "\n")
      rw [herr, List.nil_append] at hboth
      exact hboth

/-- The message of a refusal, as the text of the definition that it quotes and what comes before. -/
theorem message_rejected (fault : NormalizeError) : (DefinitionError.rejected fault).message =
    "invalid job descriptor: " ++ fault.opening ++ fault.quoted := by
  change "invalid job descriptor: " ++ fault.message = _
  rw [fault.message_eq, String.append_assoc]

theorem refused_afterValidate {fault : NormalizeError} (hout : m.output = []) (herr : m.error = [])
    (hload : ((loadChoice choice).run.run m).1 = .ok definition)
    (h : definition.record.normalize = .error fault) :
    Refused m definition.source fault (afterValidate m choice) := by
  rw [run_loadChoice] at hload
  dsimp only at hload
  have hverdict : verdict (loaded m choice) = .error (.definition (.rejected fault)) := by
    rw [hload, verdict, h]
  have hfinding : finding choice (loaded m choice) = .rejected definition.source fault := by
    rw [hload, finding, h]
  have hprinted := Sink.hasPrinted_record_errorStream (.rejected definition.source fault) m
  obtain ⟨houtput, _⟩ := Sink.errorStream.output_record (.rejected definition.source fault) m
  have hafter := afterValidate_of_error hverdict
  rw [hfinding] at hafter
  have herror : (afterValidate m choice).error = Machine.taken m.errorFailures
      [eventText (.rejected definition.source fault) m,
        (DefinitionError.rejected fault).message ++ "\n"] := by
    have hboth := hprinted.error_print ((DefinitionError.rejected fault).message ++ "\n")
    rw [herr, List.nil_append] at hboth
    rw [hafter]
    exact hboth
  have hopening : IsLine ("invalid job descriptor: " ++ fault.opening) :=
    Text.IsLine.append (by decide) (FieldTable.isLine_opening h)
  have hlines : lines (refusal definition.source fault m) =
      (Event.rejected definition.source fault).line (m.times.headD 0) ::
        lines ((DefinitionError.rejected fault).message ++ "\n") :=
    Text.lines_cons (Event.newline_not_mem_line _ _) _
  obtain ⟨first, hfirst⟩ := Text.lines_append hopening fault.quoted
  rw [← message_rejected] at hfirst
  refine ⟨?_, herror, fun hnone => ?_, ⟨first, by rw [hlines, hfirst]⟩, ?_, fun hline => ?_, ?_⟩
  · rw [hafter, Machine.print_error]
    exact houtput.trans hout
  · rw [herror, Machine.taken_eq_encode (by exact hnone)]
    simp only [refusal, Utf8.encode, String.toList_append, List.flatMap_append, List.flatMap_cons,
      List.flatMap_nil, List.append_nil]
  · rw [hlines, List.length_cons, Nat.succ.injEq, Text.length_lines_eq_one_iff, message_rejected,
      Text.isLine_append_iff, and_iff_right hopening]
  · rw [hlines, Text.lines_line (message_rejected fault ▸ hopening.append hline)]
  · rw [hlines, hfirst]
    rintro line hline ⟨members, hread⟩
    rcases List.mem_cons.1 hline with rfl | hline
    · exact .inl rfl
    · rcases List.mem_cons.1 hline with rfl | hline
      · -- the line of the message begins with its own words, whatever is quoted after them
        have hnone := read?_invalid (fault.opening ++ first)
        rw [← String.append_assoc, hread] at hnone
        cases hnone
      · exact .inr hline

/-- Checking a definition with its events on the error stream prints one line for each thing that is
told, as long as the texts of the definition that are quoted have no end of a line in them and the
streams take what is printed: of a definition in order its event on the one stream and the
confirmation on the other, and of one that is refused its event and the message. Else the rest of a
quoted text makes lines of its own, which are the only lines besides the event that can be read as
objects. -/
theorem validate_prints_lines (hout : m.output = []) (herr : m.error = [])
    (hload : ((loadChoice choice).run.run m).1 = .ok definition) :
    (∀ d, definition.record.normalize = .ok d →
      Confirmed m definition.source d (afterValidate m choice)) ∧
    ∀ fault, definition.record.normalize = .error fault →
      Refused m definition.source fault (afterValidate m choice) :=
  ⟨fun _ => confirmed_afterValidate hout herr hload, fun _ => refused_afterValidate hout herr hload⟩

theorem load_job (record : Record) (hordered : Json.Ordered (.obj record))
    (hfloat : Json.FloatFree (.obj record)) (hdepth : (Json.obj record).depth ≤ 127)
    (hlength : ((Json.chars .canonical Members.ofList (.obj record)).flatMap
      String.utf8EncodeChar).length ≤ 1048576) :
    ((loadChoice jobChoice).run.run (jobMachine record)).1 =
      .ok ⟨record, some (.ofString "job.json")⟩ := by
  rw [run_loadChoice]
  exact loaded_job (read_jobMachine record) hordered hfloat hdepth hlength

/-- A sample is confirmed in one line, and a definition without fields is refused in two. -/
theorem validate_prints_lines_sample :
    ((loadChoice jobChoice).run.run (jobMachine Projection.sample)).1 =
        .ok ⟨Projection.sample, some (.ofString "job.json")⟩ ∧
      (afterValidate (jobMachine Projection.sample) jobChoice).output =
        Utf8.encode (validLine Projection.sampleDescriptor ++ "\n") ∧
      (lines (validLine Projection.sampleDescriptor ++ "\n")).length = 1 ∧
      ((loadChoice jobChoice).run.run (jobMachine [])).1 =
        .ok ⟨[], some (.ofString "job.json")⟩ ∧
      ∃ text, (afterValidate (jobMachine []) jobChoice).error = Utf8.encode text ∧
        (lines text).tail = ["invalid job descriptor: missing required field: amiImageId"] := by
  have hload := load_job Projection.sample (by decide) (by decide) (by decide) (by decide +kernel)
  have hempty := load_job [] (by decide) (by decide) (by decide) (by decide +kernel)
  have hconfirmed := (validate_prints_lines rfl rfl hload).1 Projection.sampleDescriptor rfl
  have hrefused := (validate_prints_lines rfl rfl hempty).2 (.missingField FieldName.amiImageId) rfl
  refine ⟨hload, (hconfirmed.written rfl).1, hconfirmed.confirmation_iff.2 ⟨by decide, by decide⟩,
    hempty, _, hrefused.whole nofun, ?_⟩
  rw [hrefused.lines_of_isLine (by decide)]
  rfl

/-- A sample with an agent label of two lines. -/
def relabelled : Record :=
  (FieldName.agentLabel, .str "kitchen\nrun accepted: out.json") :: Projection.sample.tail

/-- A line that reads as an event. -/
def forgedLine : String := "\x7b\"event\":\"job_validated\"\x7d"

/-- A sample with an unknown key, whose second line is that one. -/
def rekeyed : Record := Projection.sample ++ [("x\n" ++ forgedLine, .null)]

theorem read?_forgedLine :
    Json.read? forgedLine = some (.obj [("event", .str "job_validated")]) := by
  decide +kernel

/-- What the two samples make the streams hold: a confirmation of two lines, and, below the event
and the message, a line that reads as an event and is none. -/
theorem quoted_texts_make_lines :
    (∃ definition d text,
      ((loadChoice jobChoice).run.run (jobMachine relabelled)).1 = .ok definition ∧
      definition.record.normalize = .ok d ∧
      (afterValidate (jobMachine relabelled) jobChoice).output = Utf8.encode text ∧
      (lines text).length ≠ 1) ∧
    ∃ definition fault text,
      ((loadChoice jobChoice).run.run (jobMachine rekeyed)).1 = .ok definition ∧
      definition.record.normalize = .error fault ∧
      (afterValidate (jobMachine rekeyed) jobChoice).error = Utf8.encode text ∧
      (lines text).length ≠ 2 ∧
      ∃ line ∈ lines text, (∃ members, Json.read? line = some (.obj members)) ∧
        line ≠ (Event.rejected definition.source fault).line
          ((jobMachine rekeyed).times.headD 0) := by
  constructor
  · have hnormalize : relabelled.normalize = .ok { Projection.sampleDescriptor with
        agentLabel := ⟨"kitchen\nrun accepted: out.json"⟩ } := rfl
    have hload := load_job relabelled (by decide) (by decide) (by decide) (by decide +kernel)
    have hconfirmed := confirmed_afterValidate rfl rfl hload hnormalize
    refine ⟨_, _, _, hload, hnormalize, (hconfirmed.written rfl).1, fun hlength => ?_⟩
    exact absurd (hconfirmed.confirmation_iff.1 hlength).2 (by decide)
  · have hnormalize : rekeyed.normalize = .error (.unknownField ("x\n" ++ forgedLine)) := rfl
    have hload := load_job rekeyed (by decide) (by decide) (by decide) (by decide +kernel)
    have hrefused := refused_afterValidate rfl rfl hload hnormalize
    refine ⟨_, _, _, hload, hnormalize, hrefused.whole nofun, fun hlength => ?_, forgedLine, ?_,
      ⟨_, read?_forgedLine⟩, fun hline => ?_⟩
    · exact absurd (hrefused.lines_iff.1 hlength) (by decide)
    · have hrest : (lines ("x\n" ++ forgedLine ++ "\n")).tail = [forgedLine] := by decide +kernel
      obtain ⟨first, hlines⟩ := hrefused.lines_eq
      rw [hlines, NormalizeError.quoted, hrest]
      simp
    · have hread := (Audit.Dated.mk ((jobMachine rekeyed).times.headD 0) (Event.rejected
        (some (.ofString "job.json")) (.unknownField ("x\n" ++ forgedLine)))).read?_line
      rw [Audit.Dated.line, ← hline, read?_forgedLine] at hread
      exact absurd (Json.obj.inj (Option.some.inj hread)) (by simp [Audit.Dated.members])

end Command

end TestJob
