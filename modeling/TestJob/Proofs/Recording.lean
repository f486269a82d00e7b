import Mathlib
import TestJob.Audit
import TestJob.Proofs.AuditLine
import TestJob.Proofs.Running

/-!
What an audit log changes. Opening it makes an empty file where nothing stood, or changes nothing
(`Disk.openFile_append_cases`); recording an event continues the file behind the handle, or prints
a line on the error stream. `Disk.Continued` says of two disks that files have been continued or
made at some places and that nothing else is seen to have changed; `Audit.Sink.Keeps` is what each
event preserves (`Audit.Sink.Keeps.record`).
-/

namespace TestJob

namespace Disk

variable {disk before middle after : Disk} {directory location : Location} {path : Path}
  {object : Nat} {contents : Bytes} {places more : Location → Prop}

/-! ### What is seen later on -/

/-- What is seen at a location may be a file later on where nothing was, and what a file has may be
continued. -/
inductive Grows : Option Sight → Option Sight → Prop where
  | same (sight : Option Sight) : Grows sight sight
  | made (contents : Bytes) : Grows none (some (.file contents))
  | continued (old more : Bytes) : Grows (some (.file old)) (some (.file (old ++ more)))

theorem Grows.trans {first second third : Option Sight} (h : Grows first second)
    (h' : Grows second third) : Grows first third := by
  cases h with
  | same sight => exact h'
  | made contents =>
    cases h' with
    | same sight => exact .made contents
    | continued old more => exact .made _
  | continued old more =>
    cases h' with
    | same sight => exact .continued old more
    | continued both last =>
      rw [List.append_assoc]
      exact .continued old (more ++ last)

/-- Nothing is seen to have changed but at some places. -/
def Confined (places : Location → Prop) (before after : Disk) : Prop :=
  ∀ location, ¬places location → after.look location = before.look location

/-- At some places something may have grown, and nothing else is seen to have changed. -/
structure Continued (places : Location → Prop) (before after : Disk) : Prop where
  grows : ∀ location, Grows (before.look location) (after.look location)
  confined : Confined places before after

theorem Confined.trans (h : Confined places before middle) (h' : Confined places middle after) :
    Confined places before after :=
  fun location hlocation => (h' location hlocation).trans (h location hlocation)

theorem Confined.mono (h : Confined places before after)
    (hmore : ∀ location, places location → more location) : Confined more before after :=
  fun location hlocation => h location fun hplace => hlocation (hmore location hplace)

namespace Continued

theorem of_look_eq (h : ∀ location, after.look location = before.look location) :
    Continued places before after :=
  ⟨fun location => (h location).symm ▸ .same _, fun location _ => h location⟩

theorem refl (disk : Disk) : Continued places disk disk := of_look_eq fun _ => rfl

theorem trans (h : Continued places before middle) (h' : Continued places middle after) :
    Continued places before after :=
  ⟨fun location => (h.grows location).trans (h'.grows location), h.confined.trans h'.confined⟩

theorem mono (h : Continued places before after)
    (hmore : ∀ location, places location → more location) : Continued more before after :=
  ⟨h.grows, h.confined.mono hmore⟩

end Continued

/-- At the places that are left anything may have changed, at some others something may have grown,
and nothing else is seen to have changed. -/
structure ContinuedOff (left places : Location → Prop) (before after : Disk) : Prop where
  grows : ∀ location, ¬left location → Grows (before.look location) (after.look location)
  confined : Confined (fun location => left location ∨ places location) before after

section ContinuedOff

variable {left : Location → Prop}

theorem Continued.off (h : Continued more before after)
    (hmore : ∀ location, more location → left location ∨ places location) :
    ContinuedOff left places before after :=
  ⟨fun location _ => h.grows location, h.confined.mono hmore⟩

theorem Confined.off (h : Confined left before after) : ContinuedOff left places before after :=
  ⟨fun location hlocation => (h location hlocation).symm ▸ .same _, h.mono fun _ => .inl⟩

theorem ContinuedOff.trans (h : ContinuedOff left places before middle)
    (h' : ContinuedOff left places middle after) : ContinuedOff left places before after :=
  ⟨fun location hlocation => (h.grows location hlocation).trans (h'.grows location hlocation),
    h.confined.trans h'.confined⟩

end ContinuedOff

/-- An object that is continued is seen at the places where it has its names. -/
theorem continued_setContents (hstored : object < disk.objects.length)
    (hplaces : ∀ location, disk.entry? location = some (.file object) → places location)
    (bytes : Bytes) :
    Continued places disk (disk.setContents object (disk.contents object ++ bytes)) := by
  have hcontents := contents_setContents hstored (disk.contents object ++ bytes)
  have hlook : ∀ location, disk.entry? location ≠ some (.file object) →
      (disk.setContents object (disk.contents object ++ bytes)).look location =
        disk.look location := by
    intro location hentry
    refine look_congr rfl fun found hfound => ?_
    rw [hcontents, if_neg]
    rintro rfl
    exact hentry hfound
  refine ⟨fun location => ?_, fun location hlocation => hlook location fun hentry =>
    hlocation (hplaces location hentry)⟩
  by_cases hentry : disk.entry? location = some (.file object)
  · have hafter : Disk.entry? (disk.setContents object (disk.contents object ++ bytes)) location =
      some (.file object) := hentry
    rw [look_of_file hentry, look_of_file hafter, hcontents, if_pos rfl]
    exact .continued _ _
  · rw [hlook location hentry]
    exact .same _

/-! ### A log that is opened -/

/-- A location that a path means, or another name of the file that it leads to. -/
def Leads (disk : Disk) (directory : Location) (path : Path) (location : Location) : Prop :=
  disk.Means directory path location ∨
    ∃ object, disk.object? directory path = some object ∧
      disk.entry? location = some (.file object)

variable {opened : Nat × Disk}

/-- A file that is opened to be continued is there, and nothing changes, or is made where nothing
stood. -/
theorem openFile_append_cases (h : disk.openFile directory path false = .ok opened) :
    (disk.object? directory path = some opened.1 ∧ opened.2 = disk) ∨
      ∃ location, disk.Means directory path location ∧
        Staged disk opened.2 location opened.1 [] ∧
        ∀ other ≠ location, Disk.entry? opened.2 other = disk.entry? other := by
  obtain ⟨parent, name, hplace, hle, ⟨hentry, rfl⟩ | ⟨object, hentry, rfl⟩⟩ :=
    openFile_eq_ok_cases h
  · refine .inr ⟨_, ⟨parent, name, hplace, hle, rfl⟩,
      staged_addFile (look_eq_none_iff.2 hentry) [], fun other hother => ?_⟩
    exact (entry?_addFile _ (List.cons_ne_nil name parent) [] other).trans (if_neg hother)
  · exact .inl ⟨object?_eq_some_iff.2 ⟨parent, name, hplace, hle, hentry⟩, rfl⟩

theorem leads_of_openFile (h : disk.openFile directory path false = .ok opened)
    (hentry : Disk.entry? opened.2 location = some (.file opened.1)) :
    disk.Leads directory path location := by
  rcases openFile_append_cases h with ⟨hobject, hsame⟩ | ⟨made, hmeans, hstaged, _⟩
  · rw [hsame] at hentry
    exact .inr ⟨opened.1, hobject, hentry⟩
  · obtain rfl := hstaged.alone location hentry
    exact .inl hmeans

/-- After a log has been opened, every path leads where it led before. -/
theorem Leads.of_openFile {log : Path} (h : disk.openFile directory log false = .ok opened)
    (hleads : opened.2.Leads directory path location) : disk.Leads directory path location := by
  rcases openFile_append_cases h with ⟨_, hsame⟩ | ⟨made, _, hstaged, hentries⟩
  · rwa [hsame] at hleads
  · rcases hleads with hmeans | ⟨object, hobject, hentry⟩
    · exact .inl (hstaged.sameDirectories.means_iff.1 hmeans)
    · obtain ⟨place, hplace, hfile⟩ := object?_eq_some_iff_means.1 hobject
      have hplace := hstaged.sameDirectories.means_iff.1 hplace
      by_cases hmade : place = made
      -- the file that was made has one name only, which the path means
      · rw [hmade, hstaged.entry] at hfile
        cases hfile
        rw [hstaged.alone location hentry, ← hmade]
        exact .inl hplace
      · have hother : location ≠ made := by
          rintro rfl
          rw [hstaged.entry] at hentry
          cases hentry
          exact hmade (hstaged.alone place hfile)
        rw [hentries place hmade] at hfile
        rw [hentries location hother] at hentry
        exact .inr ⟨object, object?_eq_some_iff_means.2 ⟨place, hplace, hfile⟩, hentry⟩

theorem continued_openFile (h : disk.openFile directory path false = .ok opened) :
    Continued (disk.Leads directory path) disk opened.2 := by
  rcases openFile_append_cases h with ⟨_, hsame⟩ | ⟨made, hmeans, hstaged, _⟩
  · rw [hsame]
    exact .refl disk
  · refine ⟨fun location => ?_, fun location hlocation => hstaged.others location ?_⟩
    · by_cases hmade : location = made
      · rw [hmade, hstaged.absent, look_of_file hstaged.entry]
        exact .made _
      · rw [hstaged.others location hmade]
        exact .same _
    · rintro rfl
      exact hlocation (.inl hmeans)

/-- A file that is opened anew and written is seen where its path leads. -/
theorem confined_openFile (h : disk.openFile directory path true = .ok opened) (contents : Bytes) :
    Confined (disk.Leads directory path) disk (opened.2.setContents opened.1 contents) := by
  intro location hlocation
  have hentry : Disk.entry? opened.2 location = disk.entry? location ∧
      ∀ object, disk.entry? location = some (.file object) → opened.1 ≠ object ∧
        opened.2.contents object = disk.contents object := by
    obtain ⟨parent, name, hplace, hle, ⟨habsent, rfl⟩ | ⟨found, hfound, rfl⟩⟩ :=
      openFile_eq_ok_cases h
    · have hne : location ≠ name :: parent := by
        rintro rfl
        exact hlocation (.inl ⟨parent, name, hplace, hle, rfl⟩)
      refine ⟨(entry?_addFile _ (List.cons_ne_nil name parent) [] location).trans (if_neg hne),
        fun object hobject => ?_⟩
      have hstored := object_lt hobject
      exact ⟨(Nat.ne_of_lt hstored).symm, contents_allocate_of_lt hstored []⟩
    · refine ⟨rfl, fun object hobject => ?_⟩
      have hne : found ≠ object := by
        rintro rfl
        exact hlocation (.inr ⟨found, object?_eq_some_iff.2 ⟨parent, name, hplace, hle, hfound⟩,
          hobject⟩)
      exact ⟨hne, contents_setContents_of_ne hne []⟩
  refine look_congr hentry.1 fun object hobject => ?_
  obtain ⟨hne, hcontents⟩ := hentry.2 object hobject
  rw [contents_setContents_of_ne hne, hcontents]

end Disk

namespace Machine

variable {m : Machine} {handle : Handle} {object : Nat}

/-- A write through a handle at the end of a file continues it by the bytes that are stored. -/
theorem exists_write_eq (h : m.opened[handle.index]? = some ⟨object, none⟩) (bytes : Bytes) :
    ∃ stored, (m.write handle bytes).2 =
      { m.advance with
        disk := m.disk.setContents object (m.disk.contents object ++ stored) } := by
  rcases write_outcome h bytes with ⟨_, heq⟩ | ⟨failure, _, heq⟩
  · exact ⟨bytes, heq ▸ rfl⟩
  · exact ⟨bytes.take failure.stored, heq ▸ rfl⟩

end Machine

namespace Audit.Sink

variable {m m' : Machine} {places more : Location → Prop} {sink : Sink} {events : List Event}
  {path : Path} {before : Disk}

/-- The texts that a sink prints for events, given what the clock gives from the first on. -/
def printed (times : List UInt64) (events : List Event) : Sink → List String
  | errorStream => (dated times events).map fun entry => entry.line ++ "\n"
  | _ => []

@[simp] theorem printed_nil (times : List UInt64) (sink : Sink) : sink.printed times [] = [] := by
  cases sink <;> rfl

theorem printed_append (times : List UInt64) (events later : List Event) (sink : Sink) :
    sink.printed times (events ++ later) =
      sink.printed times events ++ sink.printed (times.drop events.length) later := by
  cases sink <;> simp [printed, dated_append]

/-- An event that is recorded on the error stream is printed there, as far as that takes it. -/
theorem run_record_errorStream (event : Event) (m : Machine) :
    ((errorStream.record event).run m).2 = { m with
      times := m.times.tail
      error := m.error ++ Machine.taken m.errorFailures [event.line (m.times.headD 0) ++ "\n"]
      errorFailures := m.errorFailures.tail } :=
  Machine.print_error { m with times := m.times.tail } _

theorem hasPrinted_record_errorStream (event : Event) (m : Machine) :
    m.HasPrinted [event.line (m.times.headD 0) ++ "\n"] ((errorStream.record event).run m).2 := by
  rw [run_record_errorStream]
  exact ⟨rfl, List.drop_one.symm⟩

/-- An event that is recorded in a file changes the disk, the open files, the clock and the plan of
failures at most. -/
theorem record_file_eq (handle : Handle) (event : Event) (m : Machine) :
    ∃ disk opened, (((file handle).record event).run m).2 =
      { m.advance with disk, opened, times := m.times.tail } :=
  Machine.write_eq { m with times := m.times.tail } handle _

theorem times_record_file (handle : Handle) (event : Event) (m : Machine) :
    (((file handle).record event).run m).2.times = m.times.tail := by
  obtain ⟨disk, opened, hrecord⟩ := record_file_eq handle event m
  rw [hrecord]

/-- An event leaves the output alone, wherever it is recorded. -/
theorem output_record (sink : Sink) (event : Event) (m : Machine) :
    ((sink.record event).run m).2.output = m.output ∧
      ((sink.record event).run m).2.outputFailures = m.outputFailures := by
  cases sink with
  | none => exact ⟨rfl, rfl⟩
  | errorStream =>
    rw [run_record_errorStream]
    exact ⟨rfl, rfl⟩
  | file handle =>
    obtain ⟨disk, opened, hrecord⟩ := record_file_eq handle event m
    rw [hrecord]
    exact ⟨rfl, rfl⟩

theorem printFailure?_record (sink : Sink) (event : Event) (m : Machine) :
    ((sink.record event).run m).2.printFailure? .output = m.printFailure? .output :=
  congrArg (·.head?.join) (sink.output_record event m).2

/-- An event that is recorded through a handle at the end of a file continues it. -/
theorem exists_record_eq {handle : Handle} {object : Nat}
    (h : m.opened[handle.index]? = some ⟨object, .none⟩) (event : Event) :
    ∃ stored, (((file handle).record event).run m).2 = { m.advance with
      times := m.times.tail
      disk := m.disk.setContents object (m.disk.contents object ++ stored) } :=
  Machine.exists_write_eq (m := { m with times := m.times.tail }) h _

/-- A machine later on, when nothing but events has been printed: the file of the sink, if it has
one, can be continued and has its names at some places. -/
structure Keeps (sink : Sink) (places : Location → Prop) (events : List Event) (m m' : Machine) :
    Prop where
  persists : m.Persists m'
  names : ∀ handle, sink = .file handle → ∃ object < m'.disk.objects.length,
    m'.opened[handle.index]? = some ⟨object, .none⟩ ∧
      ∀ location, m'.disk.entry? location = some (.file object) → places location
  output : m'.output = m.output
  outputFailures : m'.outputFailures = m.outputFailures
  error : m'.error = m.error ++ Machine.taken m.errorFailures (sink.printed m.times events)
  errorFailures : m'.errorFailures = m.errorFailures.drop (sink.printed m.times events).length
  times : sink = .errorStream → m'.times = m.times.drop events.length

namespace Keeps

theorem mono (h : sink.Keeps places events m m')
    (hmore : ∀ location, places location → more location) : sink.Keeps more events m m' :=
  { h with
    names := fun handle hhandle => by
      obtain ⟨object, hstored, hopened, hnames⟩ := h.names handle hhandle
      exact ⟨object, hstored, hopened,
        fun location hentry => hmore location (hnames location hentry)⟩ }

theorem hasPrinted (h : sink.Keeps places events m m') :
    m.HasPrinted (sink.printed m.times events) m' :=
  ⟨h.error, h.errorFailures⟩

/-- What is done quietly adds no event. -/
theorem of_quiet {after : Machine} (h : sink.Keeps places events m m') (hquiet : m'.Quiet after)
    (hpersists : m'.Persists after)
    (hnames : ∀ handle, sink = .file handle → ∃ object < after.disk.objects.length,
      after.opened[handle.index]? = some ⟨object, .none⟩ ∧
        ∀ location, after.disk.entry? location = some (.file object) → places location) :
    sink.Keeps places events m after where
  persists := h.persists.trans hpersists
  names := hnames
  output := hquiet.output.trans h.output
  outputFailures := hquiet.outputFailures.trans h.outputFailures
  error := hquiet.error.trans h.error
  errorFailures := hquiet.errorFailures.trans h.errorFailures
  times hsink := hquiet.times.trans (h.times hsink)

/-- An event adds its line, in the file of the sink or on the error stream. -/
theorem record (h : sink.Keeps places events m m') (event : Event) :
    sink.Keeps places (events ++ [event]) m ((sink.record event).run m').2 ∧
      Disk.Continued places m'.disk ((sink.record event).run m').2.disk := by
  have hpersists := h.persists.trans (Program.persists_run (sink.record event) m')
  cases sink with
  | none => exact ⟨⟨hpersists, nofun, h.output, h.outputFailures, h.error, h.errorFailures, nofun⟩,
      .refl m'.disk⟩
  | errorStream =>
    have htimes := h.times rfl
    have hprinted : errorStream.printed m.times (events ++ [event]) =
        errorStream.printed m.times events ++ [event.line (m'.times.headD 0) ++ "\n"] := by
      rw [printed_append, htimes]
      rfl
    rw [run_record_errorStream] at hpersists ⊢
    refine ⟨⟨hpersists, nofun, h.output, h.outputFailures, ?_, ?_, fun _ => ?_⟩, .refl m'.disk⟩
    · rw [hprinted, Machine.taken_append, ← List.append_assoc, ← h.error, ← h.errorFailures]
    · rw [hprinted, List.length_append, ← List.drop_drop, ← h.errorFailures]
      exact List.drop_one.symm
    · rw [List.length_append, ← List.drop_drop, ← htimes]
      exact List.drop_one.symm
  | file handle =>
    obtain ⟨object, hstored, hopened, hnames⟩ := h.names handle rfl
    obtain ⟨stored, hrun⟩ := exists_record_eq hopened event
    have hlength : object < (m'.disk.setContents object
        (m'.disk.contents object ++ stored)).objects.length :=
      Nat.lt_of_lt_of_le hstored (Disk.fewerNames_setContents _ _ _).stored
    rw [hrun] at hpersists ⊢
    refine ⟨⟨hpersists, fun other hother => ?_, h.output, h.outputFailures, h.error,
      h.errorFailures, nofun⟩, Disk.continued_setContents hstored hnames stored⟩
    obtain rfl := file.inj hother
    exact ⟨object, hlength, hopened, hnames⟩

end Keeps

/-- No file can be read at a path, or one that the sink has made there since: the audit log. -/
def LeavesFree (sink : Sink) (before : Disk) (m : Machine) (path : Path) : Prop :=
  (∀ contents, m.disk.read m.directory path ≠ .ok contents) ∨
    ∃ handle location object stored, sink = .file handle ∧
      m.opened[handle.index]? = some ⟨object, .none⟩ ∧
      before.Means m.directory path location ∧
      Disk.Staged before m.disk location object stored

theorem LeavesFree.write {handle : Handle} (h : (file handle).LeavesFree before m path)
    (bytes : Bytes) : (file handle).LeavesFree before (m.write handle bytes).2 path := by
  rcases h with hnone | ⟨found, location, object, stored, hsink, hopened, hmeans, hstaged⟩
  · left
    cases hfile : m.opened[handle.index]? with
    | none =>
      rw [Machine.write, hfile]
      exact hnone
    | some file =>
      have hstore : ∀ bytes, ∀ contents,
          (m.advance.store handle file bytes).disk.read m.directory path ≠ .ok contents := by
        intro bytes
        rw [Machine.store]
        cases file.offset <;> exact Disk.read_setContents_ne hnone _ _
      rw [Machine.directory_write]
      rcases Machine.write_outcome hfile bytes with ⟨_, heq⟩ | ⟨failure, _, heq⟩
      · rw [heq]
        exact hstore bytes
      · rw [heq]
        exact hstore _
  · obtain rfl := file.inj hsink
    obtain ⟨more, hwrite⟩ := Machine.exists_write_eq hopened bytes
    rw [hwrite]
    exact .inr ⟨handle, location, object, _, rfl, hopened, hmeans, hstaged.setContents _⟩

/-- An event leaves a path free that was free before. -/
theorem LeavesFree.record (h : sink.LeavesFree before m path) (event : Event) :
    sink.LeavesFree before ((sink.record event).run m).2 path := by
  cases sink with
  | none => exact h
  | errorStream =>
    rw [run_record_errorStream]
    rcases h with hnone | ⟨handle, _, _, _, hsink, _⟩
    · exact .inl hnone
    · cases hsink
  | file handle => exact LeavesFree.write (m := { m with times := m.times.tail }) h _

end Audit.Sink

end TestJob
