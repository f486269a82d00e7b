import Mathlib
import TestJob.Proofs.AuditLine
import TestJob.Proofs.Logging
import TestJob.Proofs.Running

/-!
A log over many openings. Each time the log is opened some events are recorded in it, each at its
own time, and then it is closed (`Audit.session`). What is recorded in all of these sessions stands
in the log behind what was there before, one line for each event (`Machine.Logs.sessions`). A line
is read back as the object of its event and holds no byte below U+0020, so the bytes of a log settle
the events and their times (`Audit.logged_injective`).
-/

namespace TestJob

theorem Json.textOrNull_injective : Function.Injective Json.textOrNull := by
  intro text text' h
  cases text <;> cases text' <;> cases h <;> rfl

theorem Number.ofUInt64_injective : Function.Injective Number.ofUInt64 := by
  intro n n' h
  injection h with h
  exact UInt64.toNat_inj.1 (Int.ofNat.inj h)

theorem RunStatus.label_injective : Function.Injective RunStatus.label := by
  intro status status' h
  cases status <;> cases status' <;> first | rfl | exact absurd h (by decide)

namespace Audit

theorem Outcome.label_injective : Function.Injective Outcome.label := by
  intro outcome outcome' h
  cases outcome <;> cases outcome' <;> first | rfl | exact absurd h (by decide)

/-- Records events, each at its time. -/
def Sink.recordAll (sink : Sink) (m : Machine) (entries : List Dated) : Machine :=
  entries.foldl (fun m entry =>
    ((sink.record entry.event).run { m with times := [entry.milliseconds] }).2) m

/-- Opens a log and records events in it; if it cannot be opened, none are recorded. That it is
closed afterwards changes no file. -/
def session (log : Path) (m : Machine) (entries : List Dated) : Machine :=
  match (Sink.openFile log).run m with
  | (.ok sink, m) => sink.recordAll m entries
  | (.error _, m) => m

/-- Opens a log again and again, each time to record some events. -/
def sessions (log : Path) (m : Machine) (runs : List (List Dated)) : Machine :=
  runs.foldl (session log) m

/-! ### Lines -/

theorem Dated.members_injective : Function.Injective Dated.members := by
  rintro ⟨time, ⟨⟩⟩ ⟨time', ⟨⟩⟩ h
  simp only [Dated.members, List.cons.injEq, Prod.mk.injEq, Json.str.injEq, Json.num.injEq,
    Json.textOrNull_injective.eq_iff, Outcome.label_injective.eq_iff,
    Number.ofUInt64_injective.eq_iff, (Option.map_injective RunStatus.label_injective).eq_iff,
    true_and, and_true] at h
  obtain ⟨rfl, rfl, rfl, rfl, rfl, rfl, rfl, rfl, rfl, rfl, rfl⟩ := h
  rfl

theorem Dated.line_injective : Function.Injective Dated.line := by
  intro entry other h
  have hread := other.read?_line
  rw [← h, entry.read?_line, Option.some.injEq, Json.obj.injEq] at hread
  exact Dated.members_injective hread

/-- What was logged is cut at the ends of its lines into the lines of the events. -/
theorem splitOn_logged (entries : List Dated) :
    (logged entries).splitOn 0x0A = (entries.map fun entry => Utf8.encode entry.line) ++ [[]] := by
  induction entries with
  | nil => rfl
  | cons entry rest ih =>
    rw [logged_cons, List.splitOn_append_cons_self_of_not_mem entry.newline_not_mem_encode_line,
      ih, List.map_cons, List.cons_append]

theorem logged_injective : Function.Injective logged := by
  intro entries others h
  have hsplit := splitOn_logged others
  rw [← h, splitOn_logged, List.append_cancel_right_eq] at hsplit
  exact List.map_injective_iff.2
    (fun _ _ hline => Dated.line_injective (Utf8.encode_injective hline)) hsplit

end Audit

/-! ### Openings of a log -/

namespace Machine

open Audit

variable {m : Machine} {log : Path} {handle : Handle} {object : Nat} {bytes : Bytes}

/-- No failure is planned. -/
def Works (m : Machine) : Prop := ∀ planned ∈ m.failures, planned = none

theorem Works.failure?_eq_none (h : m.Works) : m.failure? = none := by
  rw [failure?]
  cases hplan : m.failures with
  | nil => rfl
  | cons planned rest => exact h planned (hplan ▸ List.mem_cons_self)

theorem Works.advance (h : m.Works) : m.advance.Works :=
  fun planned hplanned => h planned (List.mem_of_mem_tail hplanned)

/-- A log is open, with what it has in it, and nothing fails. -/
structure Logs (m : Machine) (log : Path) (handle : Handle) (object : Nat) (bytes : Bytes) :
    Prop where
  holds : m.Holds log handle object
  works : m.Works
  contents_eq : m.disk.contents object = bytes

theorem run_openFile (log : Path) (m : Machine) : (Sink.openFile log).run m =
    ((m.openFile log .append).1.map Sink.file, (m.openFile log .append).2) :=
  rfl

theorem Logs.write (h : m.Logs log handle object bytes) (more : Bytes) :
    (m.write handle more).2.Logs log handle object (bytes ++ more) := by
  have happends := appends_write h.holds.opened h.holds.stored h.works.failure?_eq_none more
  obtain ⟨disk, opened, hwrite⟩ := m.write_eq handle more
  exact ⟨happends.holds h.holds, hwrite ▸ h.works.advance, h.contents_eq ▸ happends.contents_eq⟩

/-- Time goes on between two events, which neither the disk nor the open files notice. -/
theorem Logs.later (h : m.Logs log handle object bytes) (times : List UInt64) :
    Logs { m with times } log handle object bytes :=
  ⟨⟨h.holds.opened, h.holds.named⟩, h.works, h.contents_eq⟩

/-- An event that is recorded at its time is one line more. -/
theorem Logs.record (h : m.Logs log handle object bytes) (entry : Dated) :
    (((Sink.file handle).record entry.event).run { m with times := [entry.milliseconds] }).2.Logs log
      handle object (bytes ++ Utf8.encode (entry.line ++ "\n")) :=
  (h.later []).write _

theorem Logs.recordAll (h : m.Logs log handle object bytes) (entries : List Dated) :
    ((Sink.file handle).recordAll m entries).Logs log handle object (bytes ++ logged entries) := by
  induction entries generalizing m bytes with
  | nil => rwa [logged_nil, List.append_nil]
  | cons entry rest ih =>
    have hrest := ih (h.record entry)
    rw [List.append_assoc] at hrest
    exact hrest

/-- In a session the log is opened, and its events are lines behind what it had before. -/
theorem Works.session (h : m.Works) (hopens : (m.openFile log .append).1 = .ok handle)
    (entries : List Dated) :
    ∃ object, (session log m entries).Logs log handle object
      ((m.disk.read m.directory log).toOption.getD [] ++ logged entries) := by
  obtain ⟨object, hholds, hcontents⟩ := holds_openFile hopens
  obtain ⟨disk, opened, hopened⟩ := m.openFile_eq log .append
  have hlogs : (m.openFile log .append).2.Logs log handle object
      ((m.disk.read m.directory log).toOption.getD []) :=
    ⟨hholds, hopened ▸ h.advance, hcontents⟩
  have hsession : Audit.session log m entries =
      (Sink.file handle).recordAll (m.openFile log .append).2 entries := by
    rw [Audit.session, run_openFile, hopens]
    rfl
  rw [hsession]
  exact ⟨object, hlogs.recordAll entries⟩

/-- A log that was open can be opened again, and has what it had. -/
theorem Logs.session (h : m.Logs log handle object bytes) (entries : List Dated) :
    ∃ handle object, (session log m entries).Logs log handle object (bytes ++ logged entries) := by
  have hread := Disk.read_of_object? h.holds.named
  rcases m.openFile_outcome log .append with ⟨_, opened, _, heq⟩ | ⟨e, _, hfails⟩
  · obtain ⟨object, hsession⟩ := h.works.session (congrArg Prod.fst heq) entries
    rw [hread, h.contents_eq] at hsession
    exact ⟨_, object, hsession⟩
  · exact absurd (Disk.openFile_of_object? h.holds.named) (hfails h.works.failure?_eq_none _)

theorem Logs.sessions (h : m.Logs log handle object bytes) (runs : List (List Dated)) :
    ∃ handle object,
      (sessions log m runs).Logs log handle object (bytes ++ logged runs.flatten) := by
  induction runs generalizing m handle object bytes with
  | nil =>
    rw [List.flatten_nil, logged_nil, List.append_nil]
    exact ⟨handle, object, h⟩
  | cons entries rest ih =>
    obtain ⟨_, _, hsession⟩ := h.session entries
    obtain ⟨handle, object, hrest⟩ := ih hsession
    rw [List.append_assoc, ← logged_append] at hrest
    exact ⟨handle, object, hrest⟩

/-! ### The place of a log -/

theorem directory_recordAll (sink : Sink) (m : Machine) (entries : List Dated) :
    (sink.recordAll m entries).directory = m.directory := by
  induction entries generalizing m with
  | nil => rfl
  | cons entry rest ih =>
    exact (ih _).trans (Program.persists_run (sink.record entry.event) _).directory

theorem directory_session (log : Path) (m : Machine) (entries : List Dated) :
    (session log m entries).directory = m.directory := by
  have hopened := directory_openFile m log .append
  rw [session, run_openFile]
  cases (m.openFile log .append).1 with
  | error e => exact hopened
  | ok handle => exact (directory_recordAll _ _ _).trans hopened

theorem directory_sessions (log : Path) (m : Machine) (runs : List (List Dated)) :
    (sessions log m runs).directory = m.directory := by
  induction runs generalizing m with
  | nil => rfl
  | cons entries rest ih => exact (ih _).trans (directory_session log m entries)

end Machine

namespace Audit

variable {m : Machine} {log : Path} {sink : Sink} {runs : List (List Dated)}

theorem read_sessions (hworks : m.Works) (hopens : ((Sink.openFile log).run m).1 = .ok sink)
    (hruns : runs ≠ []) :
    (sessions log m runs).disk.read m.directory log =
      .ok ((m.disk.read m.directory log).toOption.getD [] ++ logged runs.flatten) := by
  obtain ⟨entries, rest, rfl⟩ := List.exists_cons_of_ne_nil hruns
  have hhandle : ∃ handle, (m.openFile log .append).1 = .ok handle := by
    rw [Machine.run_openFile] at hopens
    cases hopened : (m.openFile log .append).1 with
    | error e => simp [hopened, Except.map] at hopens
    | ok handle => exact ⟨handle, rfl⟩
  obtain ⟨handle, hopened⟩ := hhandle
  obtain ⟨_, hsession⟩ := hworks.session hopened entries
  obtain ⟨_, object, hlogs⟩ := hsession.sessions rest
  have hread := Disk.read_of_object? hlogs.holds.named
  rw [hlogs.contents_eq, List.append_assoc, ← logged_append, Machine.directory_sessions,
    Machine.directory_session] at hread
  exact hread

/-- A log that is opened any number of times, each time to record any number of events, holds what
it had before and then the lines of the events in order, each with its end. Whatever texts an event
has, its line has no byte below U+0020 and is read as the object of the event, with its eleven
members and no other. So no two events have one line, and what was recorded is cut at the ends of
the lines into the lines of the events, and settles them. -/
theorem log_lines (hworks : m.Works) (hopens : ((Sink.openFile log).run m).1 = .ok sink)
    (hruns : runs ≠ []) :
    (sessions log m runs).disk.read m.directory log =
        .ok ((m.disk.read m.directory log).toOption.getD [] ++ logged runs.flatten) ∧
      (∀ entry : Dated, (∀ b ∈ Utf8.encode entry.line, 0x20 ≤ b) ∧
        Json.read? entry.line = some (.obj entry.members)) ∧
      Function.Injective Dated.line ∧
      (logged runs.flatten).splitOn 0x0A =
        (runs.flatten.map fun entry => Utf8.encode entry.line) ++ [[]] ∧
      ∀ others, logged others = logged runs.flatten → others = runs.flatten := by
  refine ⟨read_sessions hworks hopens hruns, fun entry => ?_, Dated.line_injective,
    splitOn_logged _, fun others h => ?_⟩
  · exact ⟨entry.le_of_mem_encode_line, entry.read?_line⟩
  · exact logged_injective h

/-- A log whose last line has no end. -/
def unfinished : Path := .ofString "audit.jsonl"

/-- A machine with that log. -/
def unfinishedMachine : Machine :=
  .start (Disk.empty.addFile [Utf8.encode "audit.jsonl"] (Utf8.encode "boo")) [] [] 7

/-- A message that would be a line of its own if it were written as it is. -/
def forged : Dated :=
  ⟨1700000000000, .failed "job_load_failed" none "boom\n\x7b\"event\":\"job_validated\"\x7d\n"⟩

/-- A key that nobody declared, with a quotation mark and a zero in it. -/
def refused : Dated :=
  ⟨1700000000001, .rejected (some (.ofString "jobs/π.toml")) (.unknownField "a\"\u0000b")⟩

theorem log_lines_unfinished :
    unfinishedMachine.Works ∧
      ((Sink.openFile unfinished).run unfinishedMachine).1 = .ok (.file ⟨0⟩) ∧
      (sessions unfinished unfinishedMachine [[forged], [], [refused, forged]]).disk.read []
          unfinished =
        .ok (Utf8.encode "boo" ++ logged [forged, refused, forged]) ∧
      (logged [forged, refused, forged]).splitOn 0x0A =
        [Utf8.encode forged.line, Utf8.encode refused.line, Utf8.encode forged.line, []] ∧
      Json.read? forged.line = some (.obj forged.members) := by
  have hworks : unfinishedMachine.Works := fun _ h => absurd h List.not_mem_nil
  have hopens : ((Sink.openFile unfinished).run unfinishedMachine).1 = .ok (.file ⟨0⟩) := rfl
  have hruns : [[forged], [], [refused, forged]] ≠ [] := List.cons_ne_nil _ _
  obtain ⟨hread, hentry, _, hsplit, _⟩ := log_lines hworks hopens hruns
  exact ⟨hworks, hopens, hread, hsplit, (hentry forged).2⟩

end Audit

end TestJob
