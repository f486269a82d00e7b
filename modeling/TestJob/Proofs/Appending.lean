import Mathlib
import TestJob.Proofs.Machine
import TestJob.Proofs.Objects

/-!
A file that is open to be continued. `Machine.Appends` says of two states of a machine that an
object has the same names and the same handles in both and has been continued by some bytes. Every
request that does not lead to the object spares it (`Machine.appends_answer`), a write through such
a handle adds its bytes (`Machine.appends_write`), and what is added adds up (`Appends.trans`).
-/

namespace TestJob.Machine

variable {object : Nat} {m m' : Machine} {bytes : Bytes}

/-- A machine later on: everything but the contents of an object is as it was, as far as the object
is concerned, and its contents have been continued by some bytes. -/
structure Appends (object : Nat) (bytes : Bytes) (m m' : Machine) : Prop where
  directory : m'.directory = m.directory
  processId : m'.processId = m.processId
  opened : ∀ index : Nat, m.opened[index]? = some ⟨object, none⟩ →
    m'.opened[index]? = some ⟨object, none⟩
  names : Disk.KeepsNames object m.disk m'.disk
  contents_eq : m'.disk.contents object = m.disk.contents object ++ bytes

namespace Appends

theorem refl (object : Nat) (m : Machine) : Appends object [] m m :=
  ⟨rfl, rfl, fun _ h => h, .refl object m.disk, (List.append_nil _).symm⟩

theorem trans {m'' : Machine} {more : Bytes} (h : Appends object bytes m m')
    (h' : Appends object more m' m'') : Appends object (bytes ++ more) m m'' where
  directory := h'.directory.trans h.directory
  processId := h'.processId.trans h.processId
  opened index hindex := h'.opened index (h.opened index hindex)
  names := h.names.trans h'.names
  contents_eq := by rw [h'.contents_eq, h.contents_eq, List.append_assoc]

/-- The same paths lead to the object. -/
theorem object?_iff (h : Appends object bytes m m') {path : Path} :
    m'.disk.object? m'.directory path = some object ↔
      m.disk.object? m.directory path = some object := by
  rw [h.directory]
  exact h.names.object?_iff

end Appends

/-- A request that does not lead to an object. -/
def Spares (m : Machine) (object : Nat) : Request → Prop
  | .openFile path _ => m.disk.object? m.directory path ≠ some object
  | .write handle _ => ∀ file, m.opened[handle.index]? = some file → file.object ≠ object
  | .rename source target =>
    m.disk.object? m.directory source ≠ some object ∧
      m.disk.object? m.directory target ≠ some object
  | .remove path => m.disk.object? m.directory path ≠ some object
  | _ => True

theorem appends_advance : Appends object [] m m.advance :=
  ⟨rfl, rfl, fun _ h => h, .refl object m.disk, (List.append_nil _).symm⟩

theorem appends_disk {disk : Disk} (hnames : Disk.KeepsNames object m.disk disk)
    (hcontents : disk.contents object = m.disk.contents object) :
    Appends object [] m { m.advance with disk } :=
  ⟨rfl, rfl, fun _ h => h, hnames, hcontents.trans (List.append_nil _).symm⟩

theorem appends_change {result : Except IoError Disk}
    (h : ∀ disk, result = .ok disk →
      Disk.KeepsNames object m.disk disk ∧ disk.contents object = m.disk.contents object) :
    Appends object [] m (m.change result).2 := by
  rw [change.eq_def]
  cases m.failure? with
  | some failure => exact appends_advance
  | none =>
    cases result with
    | error e => exact appends_advance
    | ok disk => exact appends_disk (h disk rfl).1 (h disk rfl).2

theorem appends_openFile {path : Path} {mode : OpenMode}
    (hstored : object < m.disk.objects.length) (h : m.Spares object (.openFile path mode)) :
    Appends object [] m (m.openFile path mode).2 := by
  rw [openFile.eq_def]
  cases m.failure? with
  | some failure => exact appends_advance
  | none =>
    cases hopen : m.disk.openFile m.directory path (decide (mode = .truncate)) with
    | error e => exact appends_advance
    | ok opened =>
      obtain ⟨_, hnames, hcontents⟩ := Disk.openFile_spares hopen hstored h
      refine ⟨rfl, rfl, fun index hindex => ?_, hnames,
        hcontents.trans (List.append_nil _).symm⟩
      obtain ⟨hlt, _⟩ := List.getElem?_eq_some_iff.1 hindex
      exact (List.getElem?_append_left hlt).trans hindex

theorem appends_print (stream : OutputStream) (text : String) :
    Appends object [] m (m.print stream text).2 := by
  cases stream with
  | output =>
    rw [print_output]
    exact ⟨rfl, rfl, fun _ h => h, .refl object m.disk, (List.append_nil _).symm⟩
  | error =>
    rw [print_error]
    exact ⟨rfl, rfl, fun _ h => h, .refl object m.disk, (List.append_nil _).symm⟩

/-- What is stored through the handle of another object is not seen here. -/
theorem appends_store {handle : Handle} {file : OpenFile}
    (hfile : m.opened[handle.index]? = some file) (hother : file.object ≠ object) (bytes : Bytes) :
    Appends object [] m (m.store handle file bytes) := by
  rw [store]
  cases file.offset with
  | none =>
    exact ⟨rfl, rfl, fun _ h => h, Disk.keepsNames_setContents _ _ _,
      (Disk.contents_setContents_of_ne hother _).trans (List.append_nil _).symm⟩
  | some offset =>
    refine ⟨rfl, rfl, fun index hindex => ?_, Disk.keepsNames_setContents _ _ _,
      (Disk.contents_setContents_of_ne hother _).trans (List.append_nil _).symm⟩
    -- the offset of the other file moves on, which is at another index than a handle of the object
    have hne : handle.index ≠ index := by
      rintro rfl
      rw [hfile, Option.some.injEq] at hindex
      exact hother (congrArg OpenFile.object hindex)
    exact (List.getElem?_set_ne hne).trans hindex

theorem appends_write_spares {handle : Handle} (h : m.Spares object (.write handle bytes)) :
    Appends object [] m (m.write handle bytes).2 := by
  rw [write]
  cases hfile : m.opened[handle.index]? with
  | none => exact appends_advance
  | some file =>
    have hopened : m.advance.opened[handle.index]? = some file := hfile
    have hstore := fun bytes =>
      appends_advance.trans (appends_store hopened (h file hfile) bytes)
    cases m.failure? with
    | some failure => exact hstore _
    | none => exact hstore _

/-- A request that does not lead to an object leaves it as it is. -/
theorem appends_answer {request : Request} (hstored : object < m.disk.objects.length)
    (h : m.Spares object request) : Appends object [] m (m.answer request).2 := by
  cases request with
  | read path => exact .refl object m
  | isDirectory path => exact .refl object m
  | openFile path mode => exact appends_openFile hstored h
  | write handle contents => exact appends_write_spares h
  | sync handle =>
    refine appends_change fun disk hdisk => ?_
    cases hdisk
    exact ⟨.refl object m.disk, rfl⟩
  | rename source target =>
    exact appends_change fun disk hdisk => Disk.rename_spares hdisk h.1 h.2
  | remove path => exact appends_change fun disk hdisk => Disk.remove_spares hdisk h
  | variableValue name => exact .refl object m
  | environment => exact .refl object m
  | print stream text => exact appends_print stream text
  | processId => exact .refl object m
  | clock => exact ⟨rfl, rfl, fun _ h => h, .refl object m.disk, (List.append_nil _).symm⟩

/-- A write through a handle at the end of an object continues it. -/
theorem appends_write {handle : Handle} (hopened : m.opened[handle.index]? = some ⟨object, none⟩)
    (hstored : object < m.disk.objects.length) (hworks : m.failure? = none) (bytes : Bytes) :
    Appends object bytes m (m.write handle bytes).2 := by
  rw [write, hopened]
  dsimp only
  rw [hworks]
  refine ⟨rfl, rfl, fun _ h => h, Disk.keepsNames_setContents _ _ _, ?_⟩
  exact (Disk.contents_setContents hstored _ object).trans (if_pos rfl)

end TestJob.Machine
