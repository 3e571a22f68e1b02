import UnixCore.Proofs.Access.ReadOnly
import UnixCore.Proofs.Bootstrap.Streams
import UnixCore.Proofs.Syscall.Read

/-! What an open that fails leaves of the files. The file system makes or empties a file before a
slot is looked for, and neither is undone where there is no slot. -/

namespace UnixCore

open Action

variable {W : Type} {S : Services W} {path : String} {flags : OpenFlags}

/-- An open that appends neither makes a file nor empties one. -/
theorem OpenFlags.plain_of_append {raw : UInt32} (hparse : parse raw = .ok flags)
    (happend : flags.contains .append = true) : flags.Plain := by
  obtain ⟨rfl, hmem⟩ := mem_supported_of_parse hparse
  have hsupported : ∀ f ∈ supported, f.contains .append = true → f.Plain := by decide
  exact hsupported _ hmem happend

variable {view : FileView W}

theorem Services.Asked.kept {v : Vnode} {w w' : W} (h : S.Asked v w w') (hshows : S.Shows view) :
    view.Kept w w' := by
  rcases h with rfl | ⟨r, hstat⟩
  · exact .refl view _
  · exact (hshows.stat v w).result hstat

namespace Shared

variable {sh sh' : Shared W} {id : FileId}

theorem kept_dropFile (hshows : S.Shows view) (id : FileId) (sh : Shared W) :
    view.Kept sh.world (sh.dropFile S id).world := by
  unfold dropFile
  split
  · exact hshows.others (.release _)
  · exact .refl view _

theorem openFile_prepared (h : S.Prepares view) (hrun : openFile S path flags sh = .ok id sh') :
    ∃ v w, S.openPath path flags sh.world = .ok v w ∧
      view.Prepared path flags v.resource sh.world sh'.world := by
  obtain ⟨-, v, w, w', offset, hopen, hasked, rfl⟩ := ensures_openFile_eq.of_ok hrun
  exact ⟨v, w, hopen,
    ((h.prepares path flags sh.world).of_ok hopen).trans_kept (hasked.kept h.toShows)⟩

/-- Where a path cannot be opened as a file, all files are as they were, and there was nothing that
the file system had changed. -/
theorem openFile_error {e : Errno} (h : S.Prepares view)
    (hplain : flags.contains .append = true → flags.Plain)
    (hrun : openFile S path flags sh = .error e sh') :
    view.Kept sh.world sh'.world ∧ ∀ v w, S.openPath path flags sh.world = .ok v w →
      ¬ view.Disturbs path flags sh.world := by
  have hopens := h.prepares path flags sh.world
  rcases ensures_openFile_eq.of_error hrun with ⟨w, hopen, rfl⟩ | ⟨v, w, w', hopen, hstat, rfl⟩
  · refine ⟨hopens.of_error hopen, fun v w' hopen' => ?_⟩
    cases hopen.symm.trans hopen'
  · -- The size is asked for only of a file that is appended to.
    cases happend : flags.contains .append with
    | false => cases hrun.symm.trans (openFile_of_ok happend hopen)
    | true =>
      have hspares : ¬ view.Disturbs path flags sh.world :=
        FileView.not_disturbs_of_plain (hplain happend)
      have hopened := (hopens.of_ok hopen).kept_iff.2 hspares
      have hasked := (h.stat v w).result hstat
      exact ⟨(hopened.trans hasked).trans (h.others (.release v)), fun _ _ _ => hspares⟩

end Shared

namespace Descriptors

variable {d d' : Descriptors W} {raw : UInt32} {e : Errno}

/-- What an open that fails leaves. Where there is no slot for the file, that is what the file
system did to it. -/
inductive OpenFailed (S : Services W) (view : FileView W) (path : String) (raw : UInt32)
    (d d' : Descriptors W) : Errno → Prop
  | kept {e : Errno} : view.Kept d.shared.world d'.shared.world →
    (∀ flags v w, OpenFlags.parse raw = .ok flags →
      S.openPath path flags d.shared.world = .ok v w → ¬ view.Disturbs path flags d.shared.world) →
    OpenFailed S view path raw d d' e
  | full {flags : OpenFlags} {v : Vnode} {w : W} :
    d.table.lowestFree firstUserDescriptor = none → OpenFlags.parse raw = .ok flags →
    S.openPath path flags d.shared.world = .ok v w →
    view.Prepared path flags v.resource d.shared.world d'.shared.world →
    OpenFailed S view path raw d d' .tooManyOpenFiles

theorem ensures_openPath_failed (h : S.Prepares view) :
    (openPath S path raw).Ensures d (fun _ _ => True)
      fun e d' => OpenFailed S view path raw d d' e := by
  rw [openPath, ensures_bind, ensures_ofExcept]
  refine ⟨fun flags hparse => ?_, fun e hparse => ?_⟩
  · rw [ensures_bind, ensures_onShared, ensures_iff]
    refine ⟨fun id sh hopened => ?_, fun e sh hopened => ?_⟩
    · obtain ⟨v, w, hopen, hprepared⟩ := Shared.openFile_prepared h hopened
      rw [ensures_bind, ensures_alloc]
      refine ⟨fun _ _ _ => trivial, fun hnone => ?_⟩
      exact .full (Option.map_eq_none_iff.1 hnone) hparse hopen
        (hprepared.trans_kept (Shared.kept_dropFile h.toShows id sh))
    · obtain ⟨hkept, hspares⟩ := Shared.openFile_error h (OpenFlags.plain_of_append hparse) hopened
      refine .kept hkept fun flags' v w hparse' hopen => ?_
      cases hparse.symm.trans hparse'
      exact hspares v w hopen
  · refine .kept (.refl view _) fun flags v w hparse' => ?_
    cases hparse.symm.trans hparse'

/-- An open that fails destroys nothing and makes nothing, unless the file system has opened the
path, had a file to make or to empty for that, and there is no slot for the file then. -/
theorem refused_open_keeps_files (h : S.Prepares view)
    (hrun : openPath S path raw d = .error e d') :
    (view.Kept d.shared.world d'.shared.world ↔
        ¬ ∃ flags v w, OpenFlags.parse raw = .ok flags ∧
          S.openPath path flags d.shared.world = .ok v w ∧
          view.Disturbs path flags d.shared.world) ∧
      (view.Kept d.shared.world d'.shared.world ∨
        e = .tooManyOpenFiles ∧ d.table.lowestFree firstUserDescriptor = none ∧
          ∃ flags n, OpenFlags.parse raw = .ok flags ∧
            view.Prepared path flags n d.shared.world d'.shared.world) := by
  cases (ensures_openPath_failed h).of_error hrun with
  | kept hkept hspares =>
    refine ⟨iff_of_true hkept ?_, .inl hkept⟩
    rintro ⟨flags, v, w, hparse, hopen, hdisturbs⟩
    exact hspares flags v w hparse hopen hdisturbs
  | @full flags v w hfull hparse hopen hprepared =>
    refine ⟨hprepared.kept_iff.trans (not_congr ⟨fun hdisturbs => ?_, ?_⟩),
      .inr ⟨rfl, hfull, flags, v.resource, hparse, hprepared⟩⟩
    · exact ⟨flags, v, w, hparse, hopen, hdisturbs⟩
    · rintro ⟨flags', v', w', hparse', -, hdisturbs⟩
      cases hparse.symm.trans hparse'
      exact hdisturbs

/-- The table of a process that has opened a program file for reading, and has no slot left. -/
def fullTable : Descriptors Ram :=
  ⟨(Syscall.openedProgram.process 0).descriptors, Syscall.openedProgram.shared⟩

/-- An open for reading leaves all files as they were. -/
theorem refused_open_keeps_files_reading :
    ∃ d', openPath Ram.services "bin/prog" 0 fullTable = .error .tooManyOpenFiles d' ∧
      Ram.services.Prepares Ram.view ∧
      Ram.view.Kept fullTable.shared.world d'.shared.world := by
  have hrun : openPath Ram.services "bin/prog" 0 fullTable = .error .tooManyOpenFiles _ :=
    Action.eq_error_of_result (by decide +kernel)
  refine ⟨_, hrun, Ram.services_prepares,
    (refused_open_keeps_files Ram.services_prepares hrun).1.2 ?_⟩
  rintro ⟨flags, v, w, hparse, -, hdisturbs⟩
  cases hparse
  exact FileView.not_disturbs_of_plain (by decide) hdisturbs

/-- An open that truncates has emptied the file when the slot is found to be missing, and one that
creates has made it. -/
theorem refused_open_loses_file :
    ∃ labels s, Run Ram.services (System.empty { openMax := 4 } smallWorld) labels s ∧
      (∃ k', Kernel.onDescriptors 0 (openPath Ram.services "bin/prog" 17) s.kernel =
          .error .tooManyOpenFiles k' ∧
        Ram.view.number s.kernel.shared.world "bin/prog" = some 2 ∧
        Ram.view.content s.kernel.shared.world 2 = some Ram.sampleImage ∧
        Ram.view.content k'.shared.world 2 = some []) ∧
      ∃ k', Kernel.onDescriptors 0 (openPath Ram.services "bin/new" 5) s.kernel =
          .error .tooManyOpenFiles k' ∧
        Ram.view.number s.kernel.shared.world "bin/new" = none ∧
        Ram.view.number k'.shared.world "bin/new" = some 3 :=
  ⟨_, _, Syscall.run_openedProgram,
    ⟨_, Action.eq_error_of_result (by decide +kernel), by decide +kernel, by decide +kernel,
      by decide +kernel⟩,
    ⟨_, Action.eq_error_of_result (by decide +kernel), by decide +kernel, by decide +kernel⟩⟩

end Descriptors

end UnixCore
