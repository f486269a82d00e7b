import Mathlib
import TestJob.Proofs.Commands
import TestJob.Proofs.Recording

/-!
When the page is written, and what that does to the disk. It succeeds exactly when a file can be at
its path and none of the two changes meets a planned failure (`Command.ends_write`). Whatever fails,
nothing is seen to have changed but the file at the path (`Command.confined_write`); if its file can
be written to the end, the page fails only before anything has changed
(`Command.disk_of_write_error`).
-/

namespace TestJob.Command

open Audit (Sink)
open Program (Ends ends_done ends_failed)

variable {m : Machine} {path : Path}

/-- Writing the page leaves the disk with its file made anew, or it fails. -/
theorem ends_write (sink : Sink) (path : Path) (m : Machine) :
    ((page (.write path)).perform sink).run.Ends (fun disk => m.Undisturbed 2 ∧
      ∃ opened, m.disk.openFile m.directory path true = .ok opened ∧
        disk = opened.2.setContents opened.1 (Utf8.encode Reference.page)) m := by
  rw [perform_write_eq]
  rcases m.openFile_truncate_outcome path with
    ⟨hfailure, opened, handle, after, hopen, heq, hdisk, _, hfailures, hfile⟩ | ⟨e, heq, hfails⟩
  · have hanswer : m.answer (.openFile path .truncate) = (.ok handle, after) := heq
    have hempty := Disk.contents_openFile_truncate hopen
    rw [← hdisk] at hempty
    refine Ends.ask (fun disk => ?_) ?_ (?_ : Ends (fun disk => after.Undisturbed 1 ∧
      disk = after.disk.setContents opened.1 (Utf8.encode Reference.page)) _ _)
    · rw [Machine.undisturbed_succ_iff, and_iff_right hfailure, hopen, hdisk,
        Machine.undisturbed_congr hfailures]
      simp only [Except.ok.injEq, exists_eq_left']
    · rw [hanswer, hdisk]
      exact Disk.fewerNames_openFile hopen
    · rw [hanswer]
      rcases Machine.write_empty_outcome hfile hempty (Utf8.encode Reference.page) with
        ⟨hworks, last, hwrite, hlast, _⟩ | ⟨e, last, stored, hfails, hwrite, hlast⟩
      · have hanswer : after.answer (.write handle (Utf8.encode Reference.page)) =
          (.ok (), last) := hwrite
        refine Ends.ask (fun _ => Iff.rfl) ?_ ?_
        · rw [hanswer, hlast]
          exact Disk.fewerNames_setContents _ _ _
        · rw [hanswer]
          refine ends_done ⟨?_, hlast⟩
          exact Machine.undisturbed_succ_iff.2 ⟨hworks, Machine.undisturbed_zero _⟩
      · have hanswer : after.answer (.write handle (Utf8.encode Reference.page)) =
          (.error e, last) := hwrite
        refine Ends.ask (fun _ => Iff.rfl) ?_ ?_
        · rw [hanswer, hlast]
          exact Disk.fewerNames_setContents _ _ _
        · rw [hanswer]
          exact ends_failed fun _ hmade => hfails (Machine.undisturbed_succ_iff.1 hmade.1).1
  · have hanswer : m.answer (.openFile path .truncate) = (.error e, m.advance) := heq
    refine Ends.ask (fun _ => Iff.rfl) ?_ ?_
    · rw [hanswer]
      exact .refl m.disk
    · rw [hanswer]
      refine ends_failed fun disk hmade => ?_
      obtain ⟨hundisturbed, opened, hopen, _⟩ := hmade
      exact hfails (Machine.undisturbed_succ_iff.1 hundisturbed).1 opened hopen

/-- Writing the page prints nothing. -/
theorem silent_write (sink : Sink) (path : Path) :
    ((page (.write path)).perform sink).run.Silent := by
  rw [perform_write_eq]
  refine ⟨rfl, fun opened => ?_⟩
  cases opened with
  | error e => trivial
  | ok handle =>
    refine ⟨rfl, fun written => ?_⟩
    cases written <;> trivial

/-- Writing the page succeeds, or fails for a reason of the disk. -/
theorem write_result (sink : Sink) (path : Path) (m : Machine) :
    (((page (.write path)).perform sink).run.run m).1 = .ok .success ∨
      ∃ e, (((page (.write path)).perform sink).run.run m).1 = .error (.page e) := by
  rw [perform_write_eq, Program.run]
  rcases (m.answer (.openFile path .truncate)) with ⟨e | handle, after⟩
  · exact .inr ⟨_, rfl⟩
  · dsimp only
    rw [Program.run]
    rcases after.answer (.write handle (Utf8.encode Reference.page)) with ⟨e | _, last⟩
    · exact .inr ⟨_, rfl⟩
    · exact .inl rfl

theorem eq_success_of_write {sink : Sink} {code : ExitCode}
    (h : (((page (.write path)).perform sink).run.run m).1 = .ok code) : code = .success := by
  rcases write_result sink path m with hsuccess | ⟨e, hfails⟩
  · exact Except.ok.inj (h.symm.trans hsuccess)
  · cases h.symm.trans hfails

/-- Whether writing the page succeeds or fails, nothing is seen to have changed but its file. -/
theorem confined_write (sink : Sink) (path : Path) (m : Machine) :
    Disk.Confined (m.disk.Leads m.directory path) m.disk
      (((page (.write path)).perform sink).run.run m).2.disk := by
  rw [perform_write_eq, Program.run]
  rcases m.openFile_cases path with
    ⟨handle, object, hanswer, hopen, hopened⟩ | ⟨e, hanswer, hsame⟩
  · have hok : (m.answer (.openFile path .truncate)).1 = .ok handle := hanswer
    obtain ⟨stored, hdisk, _⟩ := Machine.disk_write hopened (Utf8.encode Reference.page)
    have hconfined := Disk.confined_openFile hopen
      (Disk.overlay ((m.openFile path .truncate).2.disk.contents object) 0 stored)
    rw [← hdisk] at hconfined
    rw [hok]
    dsimp only
    rw [Program.run]
    cases ((m.answer (.openFile path .truncate)).2.answer
      (.write handle (Utf8.encode Reference.page))).1 <;> exact hconfined
  · have herror : (m.answer (.openFile path .truncate)).1 = .error e := hanswer
    rw [herror]
    exact fun location _ => congrArg (Disk.look · location) hsame

/-- As long as its file can be written, writing the page fails only before anything changes. -/
theorem disk_of_write_error {e : CommandError} {sink : Sink}
    (h : (((page (.write path)).perform sink).run.run m).1 = .error e)
    (hwork : ∀ handle, ((page (.write path)).perform sink).run.WritesWork handle m) :
    (((page (.write path)).perform sink).run.run m).2.disk = m.disk := by
  rw [perform_write_eq] at h hwork ⊢
  rcases m.openFile_truncate_outcome path with
    ⟨_, opened, handle, after, _, heq, _, _, _, hfile⟩ | ⟨e, heq, _⟩
  · have hanswer : m.answer (.openFile path .truncate) = (.ok handle, after) := heq
    rw [Program.run, hanswer] at h
    have hwrites := hwork handle
    rw [Program.WritesWork, Program.requests, hanswer] at hwrites
    have hclear : after.failure? = none :=
      hwrites (after, .write handle (Utf8.encode Reference.page))
        (List.mem_cons_of_mem _ List.mem_cons_self) (decide_eq_true rfl)
    rcases Machine.write_outcome hfile (Utf8.encode Reference.page) with
      ⟨_, hwrite⟩ | ⟨failure, hfailure, _⟩
    · have hanswer : after.answer (.write handle (Utf8.encode Reference.page)) = (.ok (), _) :=
        hwrite
      dsimp only at h
      rw [Program.run, hanswer] at h
      cases h
    · rw [hclear] at hfailure
      cases hfailure
  · have hanswer : m.answer (.openFile path .truncate) = (.error e, m.advance) := heq
    rw [Program.run, hanswer]
    rfl

end TestJob.Command
