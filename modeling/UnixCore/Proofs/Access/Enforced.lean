import UnixCore.Proofs.Access.ReadOnly
import UnixCore.Proofs.Access.Tracked

/-! Access modes hold over whole runs: what was not opened for writing is not written, whoever has
got a descriptor for it and in whichever way. -/

namespace UnixCore

open Action

variable {W : Type} {S : Services W} {scope : Scope}

namespace Track

/-- Every read and write was asked for, and so will be those that the open files allow. -/
structure Upheld (sh : Shared (W × Track)) : Prop where
  enforced : sh.world.2.Enforced
  backs : ∀ id file, sh.files.get? id = some file → sh.world.2.Backs file.vnode file.mode

namespace Upheld

variable {sh sh' : Shared (W × Track)}

theorem call (h : Upheld sh) {s : W × Track} (hcall : S.tracked.Calls scope sh.files sh.world s) :
    Upheld { sh with world := s } ∧ s.2.Extends sh.world.2 := by
  have hkeep {s : W × Track} (henforced : s.2.Enforced) (hextends : s.2.Extends sh.world.2) :
      Upheld { sh with world := s } ∧ s.2.Extends sh.world.2 :=
    ⟨⟨henforced, fun id file hfile => hextends.backs (h.backs id file hfile)⟩, hextends⟩
  have hsame {s : W × Track} (hs : s.2 = sh.world.2) :
      Upheld { sh with world := s } ∧ s.2.Extends sh.world.2 :=
    hkeep (hs ▸ h.enforced) (.of_opened_eq (hs ▸ rfl))
  cases hcall with
  | @readAt id file count r _ hfile hmode hresult =>
    have hs := ensures_readAt.result
      (P := fun s => s.2 = sh.world.2.noteRead file.vnode.resource) hresult
    exact hkeep (hs ▸ h.enforced.noteRead (h.backs _ _ hfile) hmode)
      (.of_opened_eq (by rw [hs]; rfl))
  | @writeAt id file bytes r _ hfile hmode hresult =>
    have hs := ensures_writeAt.result
      (P := fun s => s.2 = sh.world.2.noteWritten file.vnode.resource) hresult
    exact hkeep (hs ▸ h.enforced.noteWritten (h.backs _ _ hfile) hmode)
      (.of_opened_eq (by rw [hs]; rfl))
  | stat hresult => exact hsame (ensures_stat.result (P := fun s => s.2 = sh.world.2) hresult)
  | other hcalled =>
    rcases hcalled.openPath_or_nothing with ⟨path, flags, r, -, hresult⟩ | hnothing
    · cases r with
      | ok v =>
        obtain ⟨-, u, hs⟩ := ensures_openPath.of_result hresult
        exact hkeep (hs ▸ h.enforced.noteOpened u flags) (hs ▸ .noteOpened _ u flags)
      | error e => exact hsame (ensures_openPath.of_result hresult)
    · exact hsame (eq_of_called hnothing)

theorem touch (h : Upheld sh) (htouch : Shared.Touch S.tracked scope sh sh') : Upheld sh' := by
  have hcalls : ∀ s, Relation.ReflTransGen (S.tracked.Calls scope sh.files) sh.world s →
      Upheld { sh with world := s } ∧ s.2.Extends sh.world.2 := by
    intro s hpath
    induction hpath with
    | refl => exact ⟨h, .of_opened_eq rfl⟩
    | tail _ hcall ih =>
      obtain ⟨hnext, hextends⟩ := ih.1.call hcall
      exact ⟨hnext, ih.2.trans hextends⟩
  obtain ⟨hworld, hextends⟩ := hcalls _ htouch.calls
  refine ⟨hworld.enforced, fun id file hfile => ?_⟩
  rcases htouch.file_of hfile with
    ⟨f, hf, hvnode, hmode⟩ | ⟨path, flags, s, -, hopen, hmode, hasked⟩
  · rw [hvnode, hmode]
    exact hextends.backs (h.backs id f hf)
  · obtain ⟨hnumber, u, hs⟩ := ensures_openPath.of_ok hopen
    have hstat : sh'.world.2 = s.2 := by
      rcases hasked with heq | ⟨r, hr⟩
      · rw [heq]
      · exact ensures_stat.result (P := fun s' => s'.2 = s.2) hr
    refine ⟨u, flags, ?_, hmode⟩
    rw [hstat, hs, hnumber]
    exact Array.getElem?_push_size

theorem touches (h : Upheld sh) (htouches : Shared.Touches S.tracked scope sh sh') :
    Upheld sh' := by
  induction htouches with
  | refl => exact h
  | tail _ htouch ih => exact ih.touch htouch

end Upheld

theorem upheld_of_execution {s₀ s : System (W × Track)} {turns : List Turn}
    (h : Execution S.tracked s₀ turns s) (h₀ : Upheld s₀.kernel.shared) :
    Upheld s.kernel.shared :=
  h.preserves (P := fun s => Upheld s.kernel.shared)
    (fun hs htakes => hs.touches htakes.touches) h₀

end Track

theorem FileView.Unwritten.empty (view : FileView W) (config : Config) (world : W) :
    view.Unwritten world (System.empty config world).kernel.shared :=
  ⟨rfl, fun _ _ => rfl, nofun⟩

theorem Track.upheld_empty (config : Config) (world : W) :
    Track.Upheld (System.empty config (world, ({} : Track))).kernel.shared :=
  ⟨⟨nofun, nofun⟩, nofun⟩

/-- As long as all flag words that processes open with have their two low bits clear, no file is
created and none but the console changes. And in every run, a vnode is written only if its open
asked for write access and read only if its open asked for more than that, however the descriptors
for it were passed on. -/
theorem access_modes_enforced {config : Config} {world : W} :
    (∀ view turns s, S.Shows view → Execution S (System.empty config world) turns s →
      (∀ t ∈ turns, t.OnlyReads) →
        view.number s.kernel.shared.world = view.number world ∧
        ∀ n, view.number world consolePath ≠ some n →
          view.content s.kernel.shared.world n = view.content world n) ∧
      ∀ turns s, Execution S.tracked (System.empty config (world, {})) turns s →
        s.kernel.shared.world.2.Enforced ∧
        ∀ id file, s.kernel.shared.files.get? id = some file →
          s.kernel.shared.world.2.Backs file.vnode file.mode := by
  refine ⟨fun view turns s hshows hexec hreads => ?_, fun turns s hexec => ?_⟩
  · have hunwritten := hexec.unwritten hshows hreads (.empty view config world)
    exact ⟨hunwritten.number, hunwritten.content⟩
  · have hupheld := Track.upheld_of_execution hexec (Track.upheld_empty config world)
    exact ⟨hupheld.enforced, hupheld.backs⟩

/-- One process may not create a file without asking for write access, opens a program for reading
and writes to the console. Another opens the program for reading and writing, its vnode 4, writes
one byte and reads the next. -/
theorem access_modes_enforced_smallWorld :
    (∃ turns s, Execution Ram.services (System.empty { openMax := 4 } smallWorld) turns s ∧
      Ram.view.number s.kernel.shared.world = Ram.view.number smallWorld ∧
      Ram.view.content s.kernel.shared.world 2 = Ram.view.content smallWorld 2 ∧
      Ram.view.content s.kernel.shared.world 0 = some [42]) ∧
      ∃ turns s, Execution Ram.services.tracked (System.empty { openMax := 4 } (smallWorld, {}))
          turns s ∧
        s.kernel.shared.world.2.Enforced ∧ s.kernel.shared.world.2.written = [4] ∧
        s.kernel.shared.world.2.read = [4] := by
  constructor
  · have hstart : Execution Ram.services (System.empty { openMax := 4 } smallWorld) [] _ := .start
    have hspawned := hstart.step (Operation.takes (.spawnInitial "bin/init" ["init"]) trivial)
    have hrefused := hspawned.step
      (Operation.takes (.descriptors 0 (.openPath "new" 4))
      (show 0 < _ by decide +kernel))
    have hopened := hrefused.step
      (Operation.takes (.descriptors 0 (.openPath "bin/prog" 0))
      (show 0 < _ by decide +kernel))
    have hwritten := hopened.step
      (Operation.takes (.descriptors 0 (.write 1 [42]))
      (show 0 < _ by decide +kernel))
    obtain ⟨hnumber, hcontent⟩ :=
      access_modes_enforced.1 Ram.view _ _ Ram.services_shows hwritten
        (List.forall_mem_cons.2 ⟨trivial,
          List.forall_mem_cons.2 ⟨show (4 : UInt32) &&& 3 = 0 by decide,
            List.forall_mem_cons.2 ⟨show (0 : UInt32) &&& 3 = 0 by decide,
              List.forall_mem_cons.2 ⟨trivial, List.forall_mem_nil _⟩⟩⟩⟩)
    exact ⟨_, _, hwritten, hnumber, hcontent 2 (by decide +kernel), by decide +kernel⟩
  · have hstart : Execution Ram.services.tracked
      (System.empty { openMax := 4 } (smallWorld, {})) [] _ := .start
    have hspawned := hstart.step (Operation.takes (.spawnInitial "bin/init" ["init"]) trivial)
    have hopened := hspawned.step
      (Operation.takes (.descriptors 0 (.openPath "bin/prog" 2))
      (show 0 < _ by decide +kernel))
    have hwritten := hopened.step
      (Operation.takes (.descriptors 0 (.write 3 [42]))
      (show 0 < _ by decide +kernel))
    have hread := hwritten.step
      (Operation.takes (.descriptors 0 (.read 3 1))
      (show 0 < _ by decide +kernel))
    exact ⟨_, _, hread, (access_modes_enforced.2 _ _ hread).1, by decide +kernel,
      by decide +kernel⟩

end UnixCore
