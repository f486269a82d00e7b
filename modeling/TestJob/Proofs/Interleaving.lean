import Mathlib
import TestJob.Proofs.Handoff
import TestJob.Proofs.Running
import TestJob.Proofs.Touching

/-!
Two hand-offs at one time. Two programs run on machines with one disk, one request of either at a
time (`Running.interleave`). Hand-offs of two processes to one path have staging files of their own,
so neither touches what the other is writing, and at any time the path has its old contents or all
of what one of them writes (`concurrent_handoffs_whole`). Hand-offs of one process have one staging
file, which the second opens anew while the first renames it (`shared_staging_empties_path`).
-/

namespace TestJob

/-! ### Interleaving -/

/-- A program and the machine it runs on. -/
structure Running (α : Type) where
  program : Program α
  machine : Machine

/-- Which of two programs goes on. -/
inductive Turn where
  | first
  | second

namespace Running

variable {α β : Type}

/-- The next request is answered; a program that is over stays as it is. -/
def step (r : Running α) : Running α :=
  match r.program with
  | .done _ => r
  | .ask request next => ⟨next (r.machine.answer request).1, (r.machine.answer request).2⟩

/-- The machine finds its disk as another one has left it. -/
def meet (r : Running α) (disk : Disk) : Running α := ⟨r.program, { r.machine with disk }⟩

/-- Two programs on machines with one disk: where one goes on, the other finds the disk changed. -/
def pass (both : Running α × Running β) : Turn → Running α × Running β
  | .first => (both.1.step, both.2.meet both.1.step.machine.disk)
  | .second => (both.1.meet both.2.step.machine.disk, both.2.step)

/-- Two programs that go on in turns. -/
def interleave (both : Running α × Running β) (turns : List Turn) : Running α × Running β :=
  turns.foldl pass both

theorem step_ask (request : Request) (next : request.Answer → Program α) (m : Machine) :
    (Running.mk (.ask request next) m).step =
      ⟨next (m.answer request).1, (m.answer request).2⟩ := rfl

theorem persists_step (r : Running α) : r.machine.Persists r.step.machine := by
  obtain ⟨program, machine⟩ := r
  cases program with
  | done value => exact .refl machine
  | ask request next => exact Machine.persists_answer machine request

end Running

namespace Handoff

open Disk (Touches touches_refl)

/-! ### Where staging files stand -/

/-- Where the staging file of a path stands, for a process. -/
def StagedAt (disk : Disk) (directory : Location) (path : Path) (processId : Nat)
    (location : Location) : Prop :=
  ∃ staging, stagingPath? path processId = some staging ∧ disk.Means directory staging location

section Places

variable {disk before after : Disk} {directory location : Location} {path : Path} {name : Bytes}
  {processId other : Nat}

/-- A path means only locations that have its last name. -/
theorem head?_of_means {way idle : List Bytes} (h : path.Split way name idle)
    (hmeans : disk.Means directory path location) : location.head? = some name := by
  obtain ⟨parent, last, hplace, _, rfl⟩ := hmeans
  have hway := hplace
  rcases Disk.locate_of_split h with ⟨e, hnone⟩ | hlocate
  · rw [hnone] at hway
    cases hway
  · rw [hlocate, bind_eq_ok_iff] at hway
    obtain ⟨reached, hway, _⟩ := hway
    obtain ⟨_, rfl, _⟩ := Disk.locate_named_of_split h hway hplace
    rfl

theorem stagingName_injective (name : Bytes) : Function.Injective (stagingName name) := by
  intro processId other h
  have hsuffix := List.append_cancel_left h
  have htext := Utf8.encode_injective hsuffix
  exact Nat.repr_inj.1 (String.append_right_inj _ |>.1 htext)

/-- The staging file of a process has the name that is made for it. -/
theorem StagedAt.head? (h : StagedAt disk directory path processId location) :
    ∃ name, path.fileName? = some name ∧ location.head? = some (stagingName name processId) := by
  obtain ⟨staging, hstaging, hmeans⟩ := h
  obtain ⟨_, _, name, _, hname, _, hsplit, _⟩ := split_of_stagingPath? hstaging
  exact ⟨name, hname, head?_of_means hsplit hmeans⟩

/-- A path never means the place of a staging file made for it. -/
theorem StagedAt.not_means (h : StagedAt before directory path processId location) :
    ¬after.Means directory path location := by
  intro hmeans
  obtain ⟨name, hname, hstaging⟩ := h.head?
  obtain ⟨_, hsplit⟩ := Path.split_of_fileName? hname
  rw [head?_of_means hsplit hmeans, Option.some.injEq] at hstaging
  exact stagingName_ne name processId hstaging.symm

/-- Two processes never have a staging file in common. -/
theorem StagedAt.processId_eq (h : StagedAt before directory path processId location)
    (h' : StagedAt after directory path other location) : processId = other := by
  obtain ⟨name, hname, hstaging⟩ := h.head?
  obtain ⟨_, hname', hstaging'⟩ := h'.head?
  obtain rfl := Option.some.inj (hname.symm.trans hname')
  exact stagingName_injective name (Option.some.inj (hstaging.symm.trans hstaging'))

end Places

/-! ### One hand-off among others -/

/-- A hand-off from the number of its process on. -/
def fromProcessId (path : Path) (contents : Bytes) : Program (Except SubmitError RunResult) :=
  .ask .processId fun processId =>
    match stagingPath? path processId with
    | none => .done (.error (.rejected .noFileName))
    | some staging => fromOpen staging path contents

/-- A hand-off of contents. -/
def fromStart (path : Path) (contents : Bytes) : Program (Except SubmitError RunResult) :=
  .ask (.isDirectory path) fun
    | true => .done (.error (.rejected (.directory path)))
    | false => fromProcessId path contents

theorem submit_eq_fromStart (path : Path) (d : Descriptor) :
    submit path d = fromStart path (payload d) := submit_eq path d

/-- How far a hand-off is on a machine, with what it relies on: from the opening of its staging file
to the renaming, the staging path leads to the file that it writes. -/
inductive Progress (path : Path) (contents : Bytes) (m : Machine) :
    Program (Except SubmitError RunResult) → Prop where
  | starting : Progress path contents m (fromStart path contents)
  | numbering : Progress path contents m (fromProcessId path contents)
  | opening {staging : Path} (hstaging : stagingPath? path m.processId = some staging) :
    Progress path contents m (fromOpen staging path contents)
  | writing {staging : Path} {handle : Handle} {object : Nat}
    (hstaging : stagingPath? path m.processId = some staging)
    (hopened : m.opened[handle.index]? = some ⟨object, some 0⟩)
    (hobject : m.disk.object? m.directory staging = some object)
    (hempty : m.disk.contents object = []) :
    Progress path contents m (fromWrite staging path contents handle)
  | syncing {staging : Path} {handle : Handle}
    (hstaging : stagingPath? path m.processId = some staging)
    (hread : m.disk.read m.directory staging = .ok contents) :
    Progress path contents m (fromSync staging path handle)
  | moving {staging : Path} (hstaging : stagingPath? path m.processId = some staging)
    (hread : m.disk.read m.directory staging = .ok contents) :
    Progress path contents m (fromRename staging path)
  | abandoning {staging : Path} {e : IoError}
    (hstaging : stagingPath? path m.processId = some staging) :
    Progress path contents m (abandon staging e)
  | ended (result : Except SubmitError RunResult) : Progress path contents m (.done result)

/-- What a hand-off may do to a disk at once: touch its staging file, or also the file at the path,
which then has all of the contents. -/
def Careful (path : Path) (contents : Bytes) (m : Machine) (after : Disk) : Prop :=
  Touches (StagedAt m.disk m.directory path m.processId) m.disk after ∨
    (Touches (fun location => StagedAt m.disk m.directory path m.processId location ∨
        m.disk.Means m.directory path location) m.disk after ∧
      after.read m.directory path = .ok contents)

section Progress

variable {path staging : Path} {contents : Bytes} {m : Machine}
  {program : Program (Except SubmitError RunResult)} {disk : Disk} {places : Location → Prop}

/-- A hand-off goes on as before where others have left its staging file alone. -/
theorem Progress.meet (h : Progress path contents m program) (hdisk : Touches places m.disk disk)
    (hfree : ∀ location, StagedAt m.disk m.directory path m.processId location →
      ¬places location) : Progress path contents { m with disk } program := by
  have hkept : ∀ staging, stagingPath? path m.processId = some staging →
      ∀ location, m.disk.Means m.directory staging location → ¬places location :=
    fun staging hstaging location hmeans => hfree location ⟨staging, hstaging, hmeans⟩
  cases h with
  | starting => exact .starting
  | numbering => exact .numbering
  | opening hstaging => exact .opening hstaging
  | writing hstaging hopened hobject hempty =>
    obtain ⟨hobject', hcontents⟩ := hdisk.object?_eq_some (hkept _ hstaging) hobject
    exact .writing hstaging hopened hobject' (hcontents.trans hempty)
  | syncing hstaging hread =>
    exact .syncing hstaging ((hdisk.read_eq_ok_iff (hkept _ hstaging)).2 hread)
  | moving hstaging hread =>
    exact .moving hstaging ((hdisk.read_eq_ok_iff (hkept _ hstaging)).2 hread)
  | abandoning hstaging => exact .abandoning hstaging
  | ended result => exact .ended result

theorem careful_refl (h : m.disk.Unlinked) : Careful path contents m m.disk :=
  .inl (touches_refl h)

theorem careful_of_staging (hstaging : stagingPath? path m.processId = some staging)
    (h : Touches (m.disk.Means m.directory staging) m.disk disk) :
    Careful path contents m disk :=
  .inl (h.mono fun _ hmeans => ⟨staging, hstaging, hmeans⟩)

/-- A file that is renamed to a path can be read there with what it had. -/
theorem careful_rename (hunlinked : m.disk.Unlinked)
    (hstaging : stagingPath? path m.processId = some staging)
    (hread : m.disk.read m.directory staging = .ok contents)
    (hrename : m.disk.rename m.directory staging path = .ok disk) :
    Careful path contents m disk := by
  obtain ⟨moved, hobject, hmoved, hcontents⟩ := Disk.object?_rename hrename
  rw [Disk.read_of_object? hobject, Except.ok.injEq] at hread
  refine .inr ⟨(Disk.touches_rename hunlinked hrename).mono fun location hplace =>
    hplace.imp_left fun hmeans => ⟨staging, hstaging, hmeans⟩, ?_⟩
  rw [Disk.read_of_object? hmoved, hcontents, hread]

theorem stagingPath?_answer (request : Request)
    (hstaging : stagingPath? path m.processId = some staging) :
    stagingPath? path (m.answer request).2.processId = some staging := by
  rw [(Machine.persists_answer m request).processId, hstaging]

/-- The next step of a hand-off is careful, and the hand-off goes on after it. -/
def GoesOn (path : Path) (contents : Bytes) (m : Machine)
    (program : Program (Except SubmitError RunResult)) : Prop :=
  Progress path contents (Running.mk program m).step.machine
      (Running.mk program m).step.program ∧
    Careful path contents m (Running.mk program m).step.machine.disk

variable (hunlinked : m.disk.Unlinked)

include hunlinked

theorem goesOn_fromStart : GoesOn path contents m (fromStart path contents) := by
  rw [GoesOn, fromStart, Running.step_ask]
  refine ⟨?_, careful_refl hunlinked⟩
  dsimp only [Machine.answer]
  cases m.disk.isDirectory m.directory path with
  | true => exact .ended _
  | false => exact .numbering

theorem goesOn_fromProcessId : GoesOn path contents m (fromProcessId path contents) := by
  rw [GoesOn, fromProcessId, Running.step_ask]
  refine ⟨?_, careful_refl hunlinked⟩
  dsimp only [Machine.answer]
  cases hstaging : stagingPath? path m.processId with
  | none => exact .ended _
  | some staging => exact .opening hstaging

variable (hstaging : stagingPath? path m.processId = some staging)

include hstaging

theorem goesOn_fromOpen : GoesOn path contents m (fromOpen staging path contents) := by
  rw [GoesOn, fromOpen, Running.step_ask]
  have hafter := stagingPath?_answer (.openFile staging .truncate) hstaging
  rcases m.openFile_truncate_outcome staging with
    ⟨_, opened, handle, after, hopen, heq, hdisk, hdirectory, _, hopened⟩ | ⟨e, heq, _⟩
  · have hanswer : m.answer (.openFile staging .truncate) = (.ok handle, after) := heq
    rw [hanswer] at hafter ⊢
    refine ⟨.writing hafter hopened ?_ ?_,
      hdisk ▸ careful_of_staging hstaging (Disk.touches_openFile hunlinked hopen)⟩
    · rw [hdisk, hdirectory, Disk.object?_openFile hopen]
    · rw [hdisk, Disk.contents_openFile_truncate hopen]
  · have hanswer : m.answer (.openFile staging .truncate) = (.error e, m.advance) := heq
    rw [hanswer] at hafter ⊢
    exact ⟨.abandoning hafter, careful_refl hunlinked⟩

theorem goesOn_fromWrite {handle : Handle} {object : Nat}
    (hopened : m.opened[handle.index]? = some ⟨object, some 0⟩)
    (hobject : m.disk.object? m.directory staging = some object)
    (hempty : m.disk.contents object = []) :
    GoesOn path contents m (fromWrite staging path contents handle) := by
  rw [GoesOn, fromWrite, Running.step_ask]
  have hafter := stagingPath?_answer (.write handle contents) hstaging
  have hcareful : ∀ stored, Careful path contents m (m.disk.setContents object stored) :=
    fun stored => careful_of_staging hstaging (Disk.touches_setContents hunlinked hobject stored)
  rcases Machine.write_empty_outcome hopened hempty contents with
    ⟨_, after, heq, hdisk, hdirectory, _⟩ | ⟨e, after, stored, _, heq, hdisk⟩
  · have hanswer : m.answer (.write handle contents) = (.ok (), after) := heq
    rw [hanswer] at hafter ⊢
    refine ⟨.syncing hafter ?_, hdisk ▸ hcareful contents⟩
    have hsame := (Disk.keepsNames_setContents m.disk object contents).object?_eq_some hobject
    rw [hdisk, hdirectory, Disk.read_of_object? hsame,
      Disk.contents_setContents (Disk.lt_of_object? hobject), if_pos rfl]
  · have hanswer : m.answer (.write handle contents) = (.error e, after) := heq
    rw [hanswer] at hafter ⊢
    exact ⟨.abandoning hafter, hdisk ▸ hcareful stored⟩

theorem goesOn_abandon (e : IoError) : GoesOn path contents m (abandon staging e) := by
  rw [GoesOn, abandon, Running.step_ask]
  refine ⟨.ended _, ?_⟩
  rcases Machine.change_cases m (m.disk.remove m.directory staging) with
    ⟨_, hremove⟩ | ⟨_, _, hsame⟩
  · exact careful_of_staging hstaging (Disk.touches_remove hunlinked hremove)
  · have hdisk : (m.answer (.remove staging)).2.disk = m.disk := hsame
    rw [hdisk]
    exact careful_refl hunlinked

variable (hread : m.disk.read m.directory staging = .ok contents)

include hread

theorem goesOn_fromSync (handle : Handle) :
    GoesOn path contents m (fromSync staging path handle) := by
  rw [GoesOn, fromSync, Running.step_ask]
  have hafter := stagingPath?_answer (.sync handle) hstaging
  have hdirectory := (Machine.persists_answer m (.sync handle)).directory
  have hdisk : (m.answer (.sync handle)).2.disk = m.disk := by
    rcases Machine.change_cases m (.ok m.disk) with ⟨_, hsame⟩ | ⟨_, _, hsame⟩
    · exact (Except.ok.inj hsame).symm
    · exact hsame
  rw [hdisk]
  refine ⟨?_, careful_refl hunlinked⟩
  cases (m.answer (.sync handle)).1 with
  | error e => exact .abandoning hafter
  | ok _ => exact .moving hafter (by rw [hdisk, hdirectory, hread])

theorem goesOn_fromRename : GoesOn path contents m (fromRename staging path) := by
  rw [GoesOn, fromRename, Running.step_ask]
  have hafter := stagingPath?_answer (.rename staging path) hstaging
  rcases Machine.change_cases m (m.disk.rename m.directory staging path) with
    ⟨hanswer, hrename⟩ | ⟨e, hanswer, hsame⟩
  · have hok : (m.answer (.rename staging path)).1 = .ok () := hanswer
    rw [hok]
    exact ⟨.ended _, careful_rename hunlinked hstaging hread hrename⟩
  · have herror : (m.answer (.rename staging path)).1 = .error e := hanswer
    have hdisk : (m.answer (.rename staging path)).2.disk = m.disk := hsame
    rw [herror, hdisk]
    exact ⟨.abandoning hafter, careful_refl hunlinked⟩

omit hstaging hread

theorem Progress.goesOn (h : Progress path contents m program) :
    GoesOn path contents m program := by
  cases h with
  | starting => exact goesOn_fromStart hunlinked
  | numbering => exact goesOn_fromProcessId hunlinked
  | opening hstaging => exact goesOn_fromOpen hunlinked hstaging
  | writing hstaging hopened hobject hempty =>
    exact goesOn_fromWrite hunlinked hstaging hopened hobject hempty
  | syncing hstaging hread => exact goesOn_fromSync hunlinked hstaging hread _
  | moving hstaging hread => exact goesOn_fromRename hunlinked hstaging hread
  | abandoning hstaging => exact goesOn_abandon hunlinked hstaging _
  | ended result => exact ⟨.ended result, careful_refl hunlinked⟩

end Progress

/-! ### Two hand-offs to one path -/

/-- A path has its old contents, or all of those that one of two hand-offs writes. -/
def Whole (before : Disk) (directory : Location) (path : Path) (first second : Bytes)
    (disk : Disk) : Prop :=
  (∀ contents, disk.read directory path = .ok contents ↔ before.read directory path = .ok contents) ∨
    disk.read directory path = .ok first ∨ disk.read directory path = .ok second

/-- Two hand-offs of different processes to one path, on machines with one disk. -/
structure Apart (before : Disk) (directory : Location) (path : Path) (first second : Bytes)
    (a b : Running (Except SubmitError RunResult)) : Prop where
  disk : b.machine.disk = a.machine.disk
  directory_first : a.machine.directory = directory
  directory_second : b.machine.directory = directory
  processes : a.machine.processId ≠ b.machine.processId
  unlinked : a.machine.disk.Unlinked
  progress_first : Progress path first a.machine a.program
  progress_second : Progress path second b.machine b.program
  whole : Whole before directory path first second a.machine.disk

section Apart

variable {before disk after : Disk} {directory : Location} {path : Path} {first second : Bytes}
  {a b : Running (Except SubmitError RunResult)} {places : Location → Prop}

theorem Whole.swap (h : Whole before directory path first second disk) :
    Whole before directory path second first disk :=
  h.imp_right Or.symm

theorem Whole.touches (h : Whole before directory path first second disk)
    (htouches : Touches places disk after)
    (hpath : ∀ location, disk.Means directory path location → ¬places location) :
    Whole before directory path first second after := by
  have hread : ∀ contents, after.read directory path = .ok contents ↔
      disk.read directory path = .ok contents := fun _ => htouches.read_eq_ok_iff hpath
  exact h.imp (fun hold contents => (hread contents).trans (hold contents))
    fun hnew => hnew.imp (hread first).2 (hread second).2

namespace Apart

variable (h : Apart before directory path first second a b)

include h

theorem swap : Apart before directory path second first b a where
  disk := h.disk.symm
  directory_first := h.directory_second
  directory_second := h.directory_first
  processes := h.processes.symm
  unlinked := h.disk ▸ h.unlinked
  progress_first := h.progress_second
  progress_second := h.progress_first
  whole := h.disk ▸ h.whole.swap

/-- A step of one hand-off leaves the other its staging file, and the path whole. -/
theorem step : Apart before directory path first second a.step
    (b.meet a.step.machine.disk) := by
  obtain ⟨hprogress, hcareful⟩ := h.progress_first.goesOn h.unlinked
  have hpersists := a.persists_step
  have htouches : Touches (fun location =>
      StagedAt a.machine.disk a.machine.directory path a.machine.processId location ∨
        a.machine.disk.Means a.machine.directory path location)
      a.machine.disk a.step.machine.disk :=
    hcareful.elim (fun htouches => htouches.mono fun _ => .inl) And.left
  refine {
    disk := rfl
    directory_first := hpersists.directory.trans h.directory_first
    directory_second := h.directory_second
    processes := by rw [hpersists.processId]; exact h.processes
    unlinked := htouches.unlinked
    progress_first := hprogress
    progress_second := ?_
    whole := ?_ }
  · have hdirectory := h.directory_second.trans h.directory_first.symm
    refine h.progress_second.meet (h.disk ▸ htouches) fun location hstaged hplace => ?_
    rw [hdirectory] at hstaged
    rcases hplace with hfirst | hpath
    · exact h.processes (hfirst.processId_eq hstaged)
    · exact hstaged.not_means hpath
  · rcases hcareful with htouches | ⟨_, hread⟩
    · exact h.whole.touches htouches fun location hmeans hstaged =>
        hstaged.not_means (h.directory_first ▸ hmeans)
    · exact .inr (.inl (h.directory_first ▸ hread))

omit h in
/-- So it is however often one or the other goes on. -/
theorem interleave (turns : List Turn) :
    ∀ {both : Running (Except SubmitError RunResult) × Running (Except SubmitError RunResult)},
      Apart before directory path first second both.1 both.2 →
      Apart before directory path first second (Running.interleave both turns).1
        (Running.interleave both turns).2 := by
  induction turns with
  | nil => exact id
  | cons turn turns ih =>
    intro both h
    cases turn with
    | first => exact ih h.step
    | second => exact ih h.swap.step.swap

end Apart

end Apart

/-- Two processes that hand descriptors off to one path never disturb each other: in whatever order
their requests are answered, and whatever is planned to fail, the path has at any time what it had
before, or all of what one of the two writes. -/
theorem concurrent_handoffs_whole (path : Path) (d e : Descriptor) (m m' : Machine)
    (hdisk : m'.disk = m.disk) (hdirectory : m'.directory = m.directory)
    (hprocesses : m.processId ≠ m'.processId) (hunlinked : m.disk.Unlinked) (turns : List Turn) :
    Whole m.disk m.directory path (payload d) (payload e)
      (Running.interleave (⟨submit path d, m⟩, ⟨submit path e, m'⟩) turns).1.machine.disk := by
  have hstart : Apart m.disk m.directory path (payload d) (payload e) ⟨submit path d, m⟩
      ⟨submit path e, m'⟩ :=
    { disk := hdisk
      directory_first := rfl
      directory_second := hdirectory
      processes := hprocesses
      unlinked := hunlinked
      progress_first := submit_eq_fromStart path d ▸ .starting
      progress_second := submit_eq_fromStart path e ▸ .starting
      whole := .inl fun _ => Iff.rfl }
  exact (Apart.interleave turns hstart).whole

/-! ### One staging file -/

/-- What is written for a descriptor is never empty. -/
theorem payload_ne_nil (d : Descriptor) : payload d ≠ [] := by
  intro h
  rw [payload, Utf8.encode, String.toList_append, List.flatMap_append,
    List.append_eq_nil_iff] at h
  exact absurd h.2 (by decide)

/-- A machine with one file, on which nothing fails. -/
def calmMachine : Machine := { sampleMachine with failures := [] }

open Projection (sampleDescriptor)

/-- Two hand-offs to one path: one of process 7, and one of any process. -/
def rivals (processId : Nat) :
    Running (Except SubmitError RunResult) × Running (Except SubmitError RunResult) :=
  (⟨submit (.ofString "out.json") sampleDescriptor, calmMachine⟩,
    ⟨submit (.ofString "out.json") { sampleDescriptor with stagedTestRun := true },
      { calmMachine with processId }⟩)

/-- The first hand-off has written its staging file when the second opens one; then the first goes
on. -/
def overtaken : List Turn :=
  [.first, .first, .first, .first, .first, .second, .second, .second, .first]

theorem concurrent_handoffs_whole_overtaken :
    calmMachine.processId ≠ 8 ∧ calmMachine.disk.Unlinked ∧
      Whole calmMachine.disk [] (.ofString "out.json") (payload sampleDescriptor)
        (payload { sampleDescriptor with stagedTestRun := true })
        (Running.interleave (rivals 8) overtaken).1.machine.disk := by
  have hprocesses : calmMachine.processId ≠ 8 := by decide
  have hunlinked : calmMachine.disk.Unlinked :=
    Disk.unlinked_empty.addFile (List.cons_ne_nil _ _) _
  exact ⟨hprocesses, hunlinked, concurrent_handoffs_whole (.ofString "out.json") sampleDescriptor
    { sampleDescriptor with stagedTestRun := true } calmMachine { calmMachine with processId := 8 }
    rfl rfl hprocesses hunlinked overtaken⟩

/-- Two hand-offs of one process have one staging file: the second empties the file that the first
is about to rename, and the path is left empty. -/
theorem shared_staging_empties_path :
    ¬Whole calmMachine.disk [] (.ofString "out.json") (payload sampleDescriptor)
      (payload { sampleDescriptor with stagedTestRun := true })
      (Running.interleave (rivals calmMachine.processId) overtaken).1.machine.disk := by
  have hempty : (Running.interleave (rivals calmMachine.processId) overtaken).1.machine.disk.read []
      (.ofString "out.json") = .ok [] := by
    decide +kernel
  have hold : calmMachine.disk.read [] (.ofString "out.json") = .ok (Utf8.encode "old") := rfl
  rw [Whole, hempty, hold]
  rintro (h | h | h)
  · exact absurd ((h _).2 rfl) (by decide)
  · exact payload_ne_nil _ (Except.ok.inj h).symm
  · exact payload_ne_nil _ (Except.ok.inj h).symm

end Handoff

end TestJob
