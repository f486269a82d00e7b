import Mathlib
import TestJob.Proofs.Machine
import TestJob.Proofs.Projection
import TestJob.Proofs.Staging
import TestJob.Proofs.Text
import TestJob.Submission.Handoff

/-!
The hand-off is atomic. The staging file stands beside the path and never at it, so while it is
written the path is read as before; the renaming then changes what is seen at the path at once, and
a failure at any step is followed by the removal of the staging file. `Atomic` says this of what
is left of a run, and is proved from the end of the run backwards, one request at a time.
-/

namespace TestJob.Handoff

/-! ### The staging file -/

section StagingName

variable (name : Bytes) (processId : Nat)

theorem length_lt_stagingName : name.length + 2 < (stagingName name processId).length := by
  have hsuffix : 5 ≤ (Utf8.encode (".tmp." ++ toString processId)).length := by
    have happend : Utf8.encode (".tmp." ++ toString processId) =
        Utf8.encode ".tmp." ++ Utf8.encode (toString processId) := by
      rw [Utf8.encode, String.toList_append, List.flatMap_append]
      rfl
    rw [happend, List.length_append]
    exact Nat.le_add_right 5 _
  have hdot : (Utf8.encode ".").length = 1 := rfl
  rw [stagingName, List.length_append, List.length_append, hdot]
  omega

theorem stagingName_ne : stagingName name processId ≠ name := by
  intro h
  have hlength := length_lt_stagingName name processId
  rw [h] at hlength
  omega

theorem isIdle_stagingName : Path.isIdle (stagingName name processId) = false := by
  have hlength := length_lt_stagingName name processId
  rw [Path.isIdle, Bool.or_eq_false_iff, decide_eq_false_iff_not, decide_eq_false_iff_not]
  constructor
  · intro h
    rw [h] at hlength
    exact absurd hlength (by simp)
  · intro h
    rw [h] at hlength
    exact absurd hlength (by simp [Path.here])

theorem stagingName_ne_above : stagingName name processId ≠ Path.above := by
  intro h
  have hlength := length_lt_stagingName name processId
  rw [h] at hlength
  exact absurd hlength (by simp [Path.above])

theorem separator_not_mem_stagingName (h : Path.separator ∉ name) :
    Path.separator ∉ stagingName name processId := by
  have hlow : Path.separator.toNat < 0x80 := by decide
  rw [stagingName, List.append_assoc, List.mem_append, List.mem_append, not_or, not_or]
  refine ⟨by decide, h, fun hmem => ?_⟩
  have hchar := Utf8.mem_of_mem_encode hmem hlow
  rw [String.toList_append, Nat.toString_eq_repr, Nat.toList_repr, List.mem_append] at hchar
  rcases hchar with hchar | hchar
  · exact absurd hchar (by decide)
  · exact absurd (Nat.isDigit_of_mem_toDigits (by decide) (by decide) hchar) (by decide)

end StagingName

/-- The staging file stands beside the name that the path ends in. -/
theorem split_of_stagingPath? {path staging : Path} {processId : Nat}
    (h : stagingPath? path processId = some staging) :
    ∃ way way' name idle, path.fileName? = some name ∧ path.Split way name idle ∧
      staging.Split way' (stagingName name processId) [] ∧
      ∀ (disk : Disk) (directory : Location),
        way'.foldlM disk.descend (Disk.origin directory staging) =
          way.foldlM disk.descend (Disk.origin directory path) := by
  obtain ⟨name, hname, h⟩ := Option.bind_eq_some_iff.1 h
  obtain ⟨_, _, hstaging⟩ := Option.bind_eq_some_iff.1 h
  obtain rfl : path.withFileName (stagingName name processId) = staging := Option.some.inj hstaging
  obtain ⟨idle, hsplit⟩ := Path.split_of_fileName? hname
  have hslash : Path.separator ∉ name := by
    refine Path.separator_not_mem_segments path.bytes name ?_
    change name ∈ path.segments
    rw [hsplit.segments_eq]
    exact List.mem_append_right _ List.mem_cons_self
  have hbeside := Path.split_withFileName hsplit
    (separator_not_mem_stagingName name processId hslash) (isIdle_stagingName name processId)
    (stagingName_ne_above name processId)
  refine ⟨_, _, name, idle, hname, hsplit, hbeside, ?_⟩
  intro disk directory
  have horigin : Disk.origin directory (path.withFileName (stagingName name processId)) =
      Disk.origin directory path := by
    rw [Disk.origin, Disk.origin]
    simp only [hsplit.head?_eq_separator_iff hbeside (Path.head?_dropIdleEnd _).symm]
  obtain ⟨rest, hway, hrest⟩ := Path.exists_idle_end (Path.dropIdleEnd path.segments).dropLast
  rw [horigin]
  conv_rhs => rw [hway]
  rw [Disk.foldlM_descend_append_idle disk _ _ hrest]

/-! ### What is left of a run -/

/-- The file at a path has been replaced: it can be read with the new contents, and nothing else
is seen to have changed. -/
def Replaced (before after : Disk) (directory : Location) (path : Path) (contents : Bytes) : Prop :=
  after.read directory path = .ok contents ∧
    ∃ parent name, before.locate directory path = .ok (.named parent name false) ∧
      ∀ location ≠ name :: parent, after.look location = before.look location

/-- What is left of a run replaces the file at a path or, if it fails and removals work, leaves
everything as it was before; and at any time the path has its old contents or the new ones. -/
structure Atomic {ε α : Type} (before : Disk) (directory : Location) (path : Path)
    (contents : Bytes) (p : Program (Except ε α)) (m : Machine) : Prop where
  ok : ∀ value, (p.run m).1 = .ok value →
    Replaced before (p.run m).2.disk directory path contents
  error : ∀ e, (p.run m).1 = .error e → p.RemovalsWork m →
    ∀ location, (p.run m).2.disk.look location = before.look location
  states : ∀ state ∈ p.states m,
    state.disk.read directory path = before.read directory path ∨
      state.disk.read directory path = .ok contents

section Runs

variable {ε α : Type} {before : Disk} {directory : Location} {path : Path} {contents : Bytes}
  {m : Machine}

theorem Atomic.ask {request : Request} {next : request.Answer → Program (Except ε α)}
    (hread : m.disk.read directory path = before.read directory path)
    (hnext : Atomic before directory path contents (next (m.answer request).1)
      (m.answer request).2) :
    Atomic before directory path contents (.ask request next) m := by
  refine ⟨hnext.ok, fun e he hwork => hnext.error e he hwork.next, fun state hstate => ?_⟩
  rcases List.mem_cons.1 hstate with rfl | hstate
  · exact .inl hread
  · exact hnext.states state hstate

theorem atomic_failed {e : ε} (hread : m.disk.read directory path = before.read directory path)
    (hlook : ∀ location, m.disk.look location = before.look location) :
    Atomic before directory path contents (.done (.error e : Except ε α)) m := by
  refine ⟨fun value hvalue => ?_, fun _ _ _ => hlook, fun state hstate => ?_⟩
  · cases hvalue
  · rw [List.mem_singleton.1 hstate]
    exact .inl hread

theorem atomic_done {value : α} (h : Replaced before m.disk directory path contents) :
    Atomic before directory path contents (.done (.ok value : Except ε α)) m := by
  refine ⟨fun _ _ => h, fun e he => ?_, fun state hstate => ?_⟩
  · cases he
  · rw [List.mem_singleton.1 hstate]
    exact .inr h.1

end Runs

/-! ### The requests of a hand-off -/

/-- What is done when a step has failed. -/
def abandon (staging : Path) (e : IoError) : Program (Except SubmitError RunResult) :=
  .ask (.remove staging) fun _ => .done (.error (.io e))

/-- A hand-off from its renaming on. -/
def fromRename (staging path : Path) : Program (Except SubmitError RunResult) :=
  .ask (.rename staging path) fun
    | .error e => abandon staging e
    | .ok () => .done (.ok ⟨.accepted, some path.display⟩)

/-- A hand-off once the contents are written. -/
def fromSync (staging path : Path) (handle : Handle) : Program (Except SubmitError RunResult) :=
  .ask (.sync handle) fun
    | .error e => abandon staging e
    | .ok () => fromRename staging path

/-- A hand-off once the staging file is open. -/
def fromWrite (staging path : Path) (contents : Bytes) (handle : Handle) :
    Program (Except SubmitError RunResult) :=
  .ask (.write handle contents) fun
    | .error e => abandon staging e
    | .ok () => fromSync staging path handle

/-- A hand-off once the staging file has its path. -/
def fromOpen (staging path : Path) (contents : Bytes) : Program (Except SubmitError RunResult) :=
  .ask (.openFile staging .truncate) fun
    | .error e => abandon staging e
    | .ok handle => fromWrite staging path contents handle

/-- A hand-off asks whether the path is a directory, for the number of the process, and then for
the changes of the disk one by one. -/
theorem submit_eq (path : Path) (d : Descriptor) :
    submit path d =
      .ask (.isDirectory path) fun
        | true => .done (.error (.rejected (.directory path)))
        | false => .ask .processId fun processId =>
          match stagingPath? path processId with
          | none => .done (.error (.rejected .noFileName))
          | some staging => fromOpen staging path (payload d) := by
  rw [submit]
  refine congrArg (Program.ask _) (funext fun answer => ?_)
  cases answer with
  | true => rfl
  | false =>
    refine congrArg (Program.ask _) (funext fun processId => ?_)
    change (Program.bind (Program.bind (.done processId) _) _) = _
    rw [Program.bind]
    cases stagingPath? path processId with
    | none => rfl
    | some staging =>
      refine congrArg (Program.ask _) (funext fun answer => ?_)
      cases answer with
      | error e => rfl
      | ok handle =>
        refine congrArg (Program.ask _) (funext fun answer => ?_)
        cases answer with
        | error e => rfl
        | ok _ =>
          refine congrArg (Program.ask _) (funext fun answer => ?_)
          cases answer with
          | error e => rfl
          | ok _ =>
            refine congrArg (Program.ask _) (funext fun answer => ?_)
            cases answer <;> rfl

/-- A hand-off that succeeds is accepted, and refers to its path. -/
theorem eq_of_submit_ok {path : Path} {d : Descriptor} {m : Machine} {result : RunResult}
    (h : ((submit path d).run m).1 = .ok result) : result = ⟨.accepted, some path.display⟩ := by
  rw [submit, Program.run_bind, Program.run_request] at h
  cases hdirectory : (m.answer (.isDirectory path)).1 with
  | true =>
    rw [hdirectory] at h
    cases h
  | false =>
    rw [hdirectory, if_neg Bool.false_ne_true, Program.run_bind] at h
    rcases hplace : ((place path (payload d)).run (m.answer (.isDirectory path)).2).1 with e | _
    · rw [hplace] at h
      cases h
    · rw [hplace] at h
      exact (Except.ok.inj h).symm

/-- A path and its staging file, once the way to both has been walked: two names in one
directory. -/
structure Beside (before : Disk) (directory : Location) (path staging : Path) where
  way : List Bytes
  name : Bytes
  idle : List Bytes
  otherWay : List Bytes
  other : Bytes
  parent : Location
  split : path.Split way name idle
  staging_split : staging.Split otherWay other []
  other_ne : other ≠ name
  walked : way.foldlM before.descend (Disk.origin directory path) = .ok parent
  located : before.locate directory staging = .ok (.named parent other false)
  length_le : other.length ≤ Disk.nameLimit

namespace Beside

variable {before after : Disk} {directory : Location} {path staging : Path}
  (b : Beside before directory path staging)

/-- Where the staging file stands. -/
def location : Location := b.other :: b.parent

/-- The place of the path, if it can hold a file. -/
def target : Location := b.name :: b.parent

theorem target_ne : b.target ≠ b.location :=
  fun h => b.other_ne (List.cons.inj h).1.symm

/-- A path is read as before while nothing changes but the staging file. -/
theorem read_eq (hlook : ∀ location ≠ b.location, after.look location = before.look location)
    (habsent : before.look b.location = none) :
    after.read directory path = before.read directory path := by
  have hkeeps : Disk.Keeps before after := by
    intro location hdirectory
    have hne : location ≠ b.location := by
      rintro rfl
      rw [habsent] at hdirectory
      cases hdirectory
    rw [hlook location hne, hdirectory]
  exact hkeeps.read b.split b.walked (hlook b.target b.target_ne)

end Beside

section Steps

variable {m : Machine} {directory : Location} {path staging : Path} {before : Disk}
  {contents stored : Bytes} {object : Nat}

/-- Without a staging file there is nothing to take away. -/
theorem disk_abandon_of_unread (hnone : ∀ contents, m.disk.read m.directory staging ≠ .ok contents)
    (e : IoError) : ((abandon staging e).run m).2.disk = m.disk := by
  change (m.change (m.disk.remove m.directory staging)).2.disk = m.disk
  rcases Machine.change_cases m (m.disk.remove m.directory staging) with
    ⟨_, hremoved⟩ | ⟨_, _, hsame⟩
  · obtain ⟨contents, hread⟩ := Disk.exists_read_of_remove hremoved
    exact absurd hread (hnone contents)
  · exact hsame

theorem atomic_abandon (hdirectory : m.directory = directory)
    (hnone : ∀ contents, m.disk.read directory staging ≠ .ok contents) (e : IoError) :
    Atomic m.disk directory path contents (abandon staging e) m := by
  subst hdirectory
  have hdisk : (m.answer (.remove staging)).2.disk = m.disk := disk_abandon_of_unread hnone e
  exact Atomic.ask rfl (atomic_failed (by rw [hdisk]) fun _ => by rw [hdisk])

variable (b : Beside before directory path staging)

/-- A staging file is taken away unless the removal fails. -/
theorem atomic_abandon_staged (hdirectory : m.directory = directory)
    (h : Disk.Staged before m.disk b.location object stored) (e : IoError) :
    Atomic before directory path contents (abandon staging e) m := by
  subst hdirectory
  have hremove : m.disk.remove m.directory staging = .ok (m.disk.eraseEntry b.location) :=
    Disk.remove_eq_ok (h.keeps.locate b.staging_split b.located) b.length_le h.entry
  have hread : m.disk.read m.directory path = before.read m.directory path :=
    b.read_eq h.others h.absent
  refine ⟨fun value hvalue => (by cases hvalue), fun _ _ hwork => ?_, fun state hstate => ?_⟩
  · have hdisk : (m.answer (.remove staging)).2.disk = m.disk.eraseEntry b.location := by
      change (m.change (m.disk.remove m.directory staging)).2.disk = _
      rw [hremove, Machine.change_of_no_failure hwork.failure?_eq_none]
    intro location
    change (m.answer (.remove staging)).2.disk.look location = _
    rw [hdisk, h.look_eraseEntry]
  · rcases List.mem_cons.1 hstate with rfl | hstate
    · exact .inl hread
    · rw [List.mem_singleton.1 hstate]
      rcases Machine.change_cases m (m.disk.remove m.directory staging) with
        ⟨_, hremoved⟩ | ⟨_, _, hsame⟩
      · have hdisk : (m.answer (.remove staging)).2.disk = m.disk.eraseEntry b.location :=
          (Except.ok.inj (hremove.symm.trans hremoved)).symm
        rw [hdisk]
        exact .inl (b.read_eq (fun location _ => h.look_eraseEntry location) h.absent)
      · have hdisk : (m.answer (.remove staging)).2.disk = m.disk := hsame
        rw [hdisk]
        exact .inl hread

/-- Moving the staging file replaces the file at the path. -/
theorem replaced_of_rename {disk after : Disk}
    (h : Disk.Staged before disk b.location object contents)
    (hrename : disk.rename directory staging path = .ok after) :
    Replaced before after directory path contents := by
  obtain ⟨sourceParent, sourceName, targetParent, targetName, moved, hsource, htarget, _, hlength,
    _, hdirectory, rfl⟩ := Disk.rename_eq_ok hrename
  have hlocated := h.keeps.locate b.staging_split b.located
  rw [hsource] at hlocated
  cases hlocated
  obtain ⟨rfl, rfl, hlocate⟩ :=
    Disk.locate_named_of_split b.split (h.keeps.walk b.walked) htarget
  have hlook : ∀ location, (disk.moveFile b.location b.target).look location =
      if location = b.target then some (.file contents) else before.look location :=
    h.look_moveFile (List.cons_ne_nil _ _) b.target_ne
  have hkeeps : Disk.Keeps before (disk.moveFile b.location b.target) := by
    intro location hlocation
    rw [hlook, if_neg, hlocation]
    rintro rfl
    rw [← h.others _ b.target_ne, Disk.look_eq_directory_iff] at hlocation
    exact hdirectory hlocation
  refine ⟨?_, b.parent, b.name, hlocate before b.walked, fun location hne => ?_⟩
  · have hseen : (disk.moveFile b.location b.target).look (b.name :: b.parent) =
        some (.file contents) := (hlook b.target).trans (if_pos rfl)
    change (disk.moveFile b.location b.target).read directory path = _
    rw [Disk.read_of_named (hlocate _ (hkeeps.walk b.walked)), if_neg (Nat.not_lt.2 hlength), hseen]
    rfl
  · exact (hlook location).trans (if_neg hne)

/-- Once the contents are written, renaming the staging file replaces the file at the path. -/
theorem atomic_fromRename (hdirectory : m.directory = directory)
    (h : Disk.Staged before m.disk b.location object contents) :
    Atomic before directory path contents (fromRename staging path) m := by
  subst hdirectory
  refine Atomic.ask (b.read_eq h.others h.absent) ?_
  have hafter := Machine.directory_change m (m.disk.rename m.directory staging path)
  rcases Machine.change_cases m (m.disk.rename m.directory staging path) with
    ⟨hanswer, hrename⟩ | ⟨e, hanswer, hsame⟩
  · have hok : (m.answer (.rename staging path)).1 = .ok () := hanswer
    rw [hok]
    exact atomic_done (replaced_of_rename b h hrename)
  · have herror : (m.answer (.rename staging path)).1 = .error e := hanswer
    rw [herror]
    exact atomic_abandon_staged b hafter (by rwa [← hsame] at h) e

/-- Waiting for the contents changes nothing. -/
theorem atomic_fromSync (hdirectory : m.directory = directory)
    (h : Disk.Staged before m.disk b.location object contents) (handle : Handle) :
    Atomic before directory path contents (fromSync staging path handle) m := by
  subst hdirectory
  refine Atomic.ask (b.read_eq h.others h.absent) ?_
  have hafter := Machine.directory_change m (.ok m.disk)
  rcases Machine.change_cases m (.ok m.disk) with ⟨hanswer, hsame⟩ | ⟨e, hanswer, hsame⟩
  · have hok : (m.answer (.sync handle)).1 = .ok () := hanswer
    rw [hok]
    exact atomic_fromRename b hafter (by rwa [Except.ok.inj hsame] at h)
  · have herror : (m.answer (.sync handle)).1 = .error e := hanswer
    rw [herror]
    exact atomic_abandon_staged b hafter (by rwa [← hsame] at h) e

/-- Writing changes the staging file alone, and gives it all of the contents if it succeeds. -/
theorem atomic_fromWrite (hdirectory : m.directory = directory)
    (h : Disk.Staged before m.disk b.location object []) {handle : Handle}
    (hopened : m.opened[handle.index]? = some ⟨object, some 0⟩) :
    Atomic before directory path contents (fromWrite staging path contents handle) m := by
  subst hdirectory
  refine Atomic.ask (b.read_eq h.others h.absent) ?_
  have hafter := Machine.directory_write m handle contents
  obtain ⟨stored, hdisk, hstored⟩ := Machine.disk_write hopened contents
  have hstaged : Disk.Staged before (m.write handle contents).2.disk b.location object stored := by
    rw [hdisk, h.contents_eq]
    have hoverlay : Disk.overlay [] 0 stored = stored := by simp [Disk.overlay]
    rw [hoverlay]
    exact h.setContents stored
  cases hanswer : (m.write handle contents).1 with
  | ok _ =>
    have hok : (m.answer (.write handle contents)).1 = .ok () := hanswer
    rw [hok]
    obtain rfl := hstored hanswer
    exact atomic_fromSync b hafter hstaged handle
  | error e =>
    have herror : (m.answer (.write handle contents)).1 = .error e := hanswer
    rw [herror]
    exact atomic_abandon_staged b hafter hstaged e

end Steps

/-- A staging file stands beside its path wherever a file can be at the staging path. -/
theorem exists_beside {before : Disk} {directory parent : Location} {path staging : Path}
    {processId : Nat} {other : Bytes} (hstaging : stagingPath? path processId = some staging)
    (hlocated : before.locate directory staging = .ok (.named parent other false))
    (hlength : other.length ≤ Disk.nameLimit) :
    ∃ b : Beside before directory path staging, b.location = other :: parent := by
  obtain ⟨way, otherWay, name, idle, _, hsplit, hbeside, hwalk⟩ :=
    split_of_stagingPath? hstaging
  obtain ⟨_, hwalked, hplace⟩ := Disk.locate_eq_ok_of_split hbeside hlocated
  cases hplace
  rw [hwalk] at hwalked
  exact ⟨{ way, name, idle, otherWay, parent, split := hsplit, staging_split := hbeside
           other := stagingName name processId, other_ne := stagingName_ne name processId
           walked := hwalked, located := hlocated, length_le := hlength }, rfl⟩

/-- Where no staging file can be read, a hand-off from its opening on is atomic. -/
theorem atomic_fromOpen {m : Machine} {path staging : Path} {processId : Nat}
    (hstaging : stagingPath? path processId = some staging)
    (hnone : ∀ contents, m.disk.read m.directory staging ≠ .ok contents) (contents : Bytes) :
    Atomic m.disk m.directory path contents (fromOpen staging path contents) m := by
  refine Atomic.ask rfl ?_
  have hafter := Machine.directory_openFile m staging .truncate
  rcases Machine.openFile_cases m staging with
    ⟨handle, object, hanswer, hopen, hopened⟩ | ⟨e, hanswer, hsame⟩
  · have hok : (m.answer (.openFile staging .truncate)).1 = .ok handle := hanswer
    rw [hok]
    obtain ⟨parent, other, hlocated, hlength, hstaged⟩ := Disk.openFile_eq_ok hnone hopen
    obtain ⟨b, hlocation⟩ := exists_beside hstaging hlocated hlength
    rw [← hlocation] at hstaged
    exact atomic_fromWrite b hafter hstaged hopened
  · have herror : (m.answer (.openFile staging .truncate)).1 = .error e := hanswer
    rw [herror]
    have hatomic : Atomic (m.openFile staging .truncate).2.disk m.directory path contents
        (abandon staging e) (m.openFile staging .truncate).2 :=
      atomic_abandon hafter (by rwa [hsame]) e
    rwa [hsame] at hatomic

/-- So it is where a file has been made at the staging path since. -/
theorem atomic_fromOpen_staged {m : Machine} {directory : Location} {path staging : Path}
    {before : Disk} {stored : Bytes} {object : Nat} (b : Beside before directory path staging)
    (hdirectory : m.directory = directory)
    (h : Disk.Staged before m.disk b.location object stored) (contents : Bytes) :
    Atomic before directory path contents (fromOpen staging path contents) m := by
  subst hdirectory
  refine Atomic.ask (b.read_eq h.others h.absent) ?_
  have hafter := Machine.directory_openFile m staging .truncate
  rcases Machine.openFile_cases m staging with
    ⟨handle, opened, hanswer, hopen, hopened⟩ | ⟨e, hanswer, hsame⟩
  · have hok : (m.answer (.openFile staging .truncate)).1 = .ok handle := hanswer
    rw [hok]
    have hlocated := h.keeps.locate b.staging_split b.located
    exact atomic_fromWrite b hafter (h.openFile hlocated rfl hopen) hopened
  · have herror : (m.answer (.openFile staging .truncate)).1 = .error e := hanswer
    rw [herror]
    exact atomic_abandon_staged b hafter (by rwa [← hsame] at h) e

/-- A hand-off to a path whose staging file is not there is atomic, whatever is planned to fail: if
it succeeds, the path has the canonical text of the descriptor and the end of its line, and nothing
else has changed; if it fails and the staging file can be removed, nothing has changed; and at any
time the path has its old contents or all of the new ones. -/
theorem submit_atomic (path : Path) (d : Descriptor) (m : Machine)
    (hnone : ∀ staging, stagingPath? path m.processId = some staging →
      ∀ contents, m.disk.read m.directory staging ≠ .ok contents) :
    Atomic m.disk m.directory path (Utf8.encode (d.canonical ++ "\n")) (submit path d) m := by
  rw [submit_eq]
  refine Atomic.ask rfl ?_
  cases hanswer : m.disk.isDirectory m.directory path with
  | true =>
    have htrue : (m.answer (.isDirectory path)).1 = true := hanswer
    rw [htrue]
    exact atomic_failed rfl fun _ => rfl
  | false =>
    have hfalse : (m.answer (.isDirectory path)).1 = false := hanswer
    rw [hfalse]
    refine Atomic.ask rfl ?_
    change Atomic _ _ _ _ (match stagingPath? path m.processId with
      | none => .done (.error (.rejected .noFileName))
      | some staging => fromOpen staging path (payload d)) m
    cases hstaging : stagingPath? path m.processId with
    | none => exact atomic_failed rfl fun _ => rfl
    | some staging => exact atomic_fromOpen hstaging (hnone staging hstaging) (payload d)

/-- A machine with one file, whose disk is full before the first write is over. -/
def sampleMachine : Machine where
  disk := Disk.empty.addFile [Utf8.encode "out.json"] (Utf8.encode "old")
  directory := []
  environment := []
  processId := 7
  times := []
  opened := []
  output := []
  error := []
  unreadable := []
  failures := [none, some ⟨.other "No space left on device (os error 28)", 5⟩]
  outputFailures := []
  errorFailures := []

open Projection (sampleDescriptor) in
theorem submit_atomic_sample :
    let p := submit (.ofString "out.json") sampleDescriptor
    (∀ staging, stagingPath? (.ofString "out.json") sampleMachine.processId = some staging →
      ∀ contents, sampleMachine.disk.read sampleMachine.directory staging ≠ .ok contents) ∧
      (p.run sampleMachine).1 = .error (.io (.other "No space left on device (os error 28)")) ∧
      p.RemovalsWork sampleMachine ∧
      (∀ location, (p.run sampleMachine).2.disk.look location = sampleMachine.disk.look location) ∧
      ∀ state ∈ p.states sampleMachine,
        state.disk.read [] (.ofString "out.json") = .ok (Utf8.encode "old") ∨
          state.disk.read [] (.ofString "out.json") = .ok (payload sampleDescriptor) := by
  intro p
  have hnone : ∀ staging,
      stagingPath? (.ofString "out.json") sampleMachine.processId = some staging →
      ∀ contents, sampleMachine.disk.read sampleMachine.directory staging ≠ .ok contents := by
    intro staging hstaging contents hread
    obtain rfl : Path.ofString ".out.json.tmp.7" = staging := by
      rw [← Option.some.injEq, ← hstaging]
      decide
    have hmissing : sampleMachine.disk.read sampleMachine.directory
        (.ofString ".out.json.tmp.7") = .error .notFound := rfl
    rw [hmissing] at hread
    cases hread
  have hrun : (p.run sampleMachine).1 =
      .error (.io (.other "No space left on device (os error 28)")) := rfl
  have hwork : p.RemovalsWork sampleMachine := by decide
  have hatomic := submit_atomic (.ofString "out.json") sampleDescriptor sampleMachine hnone
  have hold : sampleMachine.disk.read sampleMachine.directory (.ofString "out.json") =
      .ok (Utf8.encode "old") := rfl
  refine ⟨hnone, hrun, hwork, hatomic.error _ hrun hwork, fun state hstate => ?_⟩
  rw [← hold]
  exact hatomic.states state hstate

end TestJob.Handoff
