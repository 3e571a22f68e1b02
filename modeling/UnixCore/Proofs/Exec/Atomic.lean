import UnixCore.Proofs.Isolation.Dispatch

/-! Exec on the two sides of its point of no return. Until there is a new address space, a failure
leaves the process as it was. From then on the old address space is gone, and the process keeps the
new one whether a program can be built in it or not. On both sides the image is released, and only
the address space of the one process is another. -/

namespace UnixCore

open Bytewise

variable {W : Type} {S : Services W}

/-- The world after an address space is gone, if there was one. -/
def Services.destroySpace? (S : Services W) (space : Option AddressSpace) (w : W) : W :=
  space.elim w (S.destroySpace · w)

/-- What an exec logs once it has come to build the new image. -/
def imageEvent (pid : Pid) (path : String) : Except Errno UserEntry → Event
  | .ok entry => .imageEntered pid path entry.argc entry.entry
  | .error e => .imageLost pid path e

namespace Kernel

variable {k k' : Kernel W} {p : ProcessId} {path : String} {args : ArgVector} {image : Vnode}
  {space space' : AddressSpace} {w w' : W} {e : Errno}

/-- The kernel with another address space for `p`, in the world `w`. -/
def withSpace (k : Kernel W) (p : ProcessId) (space : AddressSpace) (w : W) : Kernel W :=
  modifyWorld (fun _ => w) (modifyProcess p ({ · with space := some space }) k)

theorem process_withSpace_self (hp : p < k.records.size) :
    (k.withSpace p space w).process p = { k.process p with space := some space } :=
  process_modifyProcess_self _ hp

theorem withSpace_withSpace :
    (k.withSpace p space w).withSpace p space' w' = k.withSpace p space' w' := by
  have hrecords : (k.records.modify p ({ · with space := some space })).modify p
      ({ · with space := some space' }) = k.records.modify p ({ · with space := some space' }) := by
    apply Array.ext (by simp)
    intro i hi hi'
    simp only [Array.getElem_modify]
    split <;> rfl
  unfold withSpace modifyWorld modifyProcess
  rw [hrecords]

theorem setSpace_modifyWorld :
    setSpace S p (some space) (modifyWorld (fun _ => w') (modifyWorld (fun _ => w) k)) =
      k.withSpace p space (S.destroySpace? (k.process p).space w') := by
  unfold setSpace
  rw [process_modifyWorld, process_modifyWorld]
  cases (k.process p).space <;> rfl

theorem ensures_onSpace_withSpace {α : Type} {act : Action (AddressSpace × W) α}
    {ok : α → Kernel W → Prop} {error : Errno → Kernel W → Prop} (hp : p < k.records.size) :
    (onSpace p act).Ensures (k.withSpace p space w) ok error ↔
      act.Ensures (space, w) (fun a s => ok a (k.withSpace p s.1 s.2))
        fun e s => error e (k.withSpace p s.1 s.2) := by
  have hspace : ((k.withSpace p space w).process p).space = some space := by
    rw [process_withSpace_self hp]
  have hput (s : AddressSpace × W) : modifyWorld (fun _ => s.2)
      (modifyProcess p ({ · with space := some s.1 }) (k.withSpace p space w)) =
        k.withSpace p s.1 s.2 := withSpace_withSpace
  simp only [ensures_onSpace hspace, hput]
  rfl

/-- Why an exec comes to no new address space, and the world that it leaves: the path is too long,
the file system does not open it, or no address space can be made, in which case the image is
released. -/
inductive Refuses (S : Services W) (path : String) (k : Kernel W) : Errno → W → Prop
  | tooLong : k.config.pathMax ≤ path.utf8ByteSize → Refuses S path k .nameTooLong k.shared.world
  | unopened {e : Errno} {w : W} : path.utf8ByteSize < k.config.pathMax →
    S.openPath path .rdonly k.shared.world = .error e w → Refuses S path k e w
  | unmade {image : Vnode} {e : Errno} {w w' : W} : path.utf8ByteSize < k.config.pathMax →
    S.openPath path .rdonly k.shared.world = .ok image w → S.createSpace w = .error e w' →
    Refuses S path k e (S.release image w')

/-- The image is open and the new address space made: an exec comes to the swap. -/
inductive Swaps (S : Services W) (path : String) (k : Kernel W) : Vnode → AddressSpace → W → Prop
  | intro {image : Vnode} {space : AddressSpace} {w w' : W} :
    path.utf8ByteSize < k.config.pathMax →
    S.openPath path .rdonly k.shared.world = .ok image w → S.createSpace w = .ok space w' →
    Swaps S path k image space w'

theorem refuses_or_swaps (S : Services W) (path : String) (k : Kernel W) :
    (∃ e w, Refuses S path k e w) ∨ ∃ image space w, Swaps S path k image space w := by
  by_cases hlong : k.config.pathMax ≤ path.utf8ByteSize
  · exact .inl ⟨_, _, .tooLong hlong⟩
  · have hshort := Nat.lt_of_not_le hlong
    cases hopen : S.openPath path .rdonly k.shared.world with
    | error e w => exact .inl ⟨_, _, .unopened hshort hopen⟩
    | ok image w =>
      cases hmake : S.createSpace w with
      | error e w' => exact .inl ⟨_, _, .unmade hshort hopen hmake⟩
      | ok space w' => exact .inr ⟨_, _, _, .intro hshort hopen hmake⟩

theorem exec_of_refuses (h : Refuses S path k e w) :
    exec S p path args k = .error e (modifyWorld (fun _ => w) k) := by
  rw [Action.eq_error_iff, exec, Action.ensures_bind, Action.ensures_get]
  cases h with
  | tooLong hlong =>
    rw [if_pos hlong]
    exact ⟨rfl, rfl⟩
  | unopened hshort hopen =>
    rw [if_neg (Nat.not_le_of_lt hshort), Action.ensures_bind, ensures_onWorld]
    exact (Action.ensures_of_error hopen).2 ⟨rfl, rfl⟩
  | unmade hshort hopen hmake =>
    rw [if_neg (Nat.not_le_of_lt hshort), Action.ensures_bind, ensures_onWorld]
    refine (Action.ensures_of_ok hopen).2 ?_
    rw [Action.ensures_bind, Action.ensures_outcome, ensures_onWorld]
    exact (Action.ensures_of_error hmake).2 ⟨rfl, rfl⟩

/-- Behind the swap an exec ends as the building of the image does, and the process is left with
the address space that this has led to. -/
theorem result_exec_of_swaps (args : ArgVector) (hp : p < k.records.size)
    (h : Swaps S path k image space w) :
    let built := (buildImage S image args).result (space, S.destroySpace? (k.process p).space w)
    (exec S p path args).result k = (built.1, report (imageEvent (k.process p).pid path built.1)
      (k.withSpace p built.2.1 (S.release image built.2.2))) := by
  intro built
  obtain ⟨hshort, hopen, hmake⟩ := h
  rw [Action.result_eq_iff, exec, Action.ensures_bind, Action.ensures_get,
    if_neg (Nat.not_le_of_lt hshort), Action.ensures_bind, ensures_onWorld]
  refine (Action.ensures_of_ok hopen).2 ?_
  rw [Action.ensures_bind, Action.ensures_outcome, ensures_onWorld]
  refine (Action.ensures_of_ok hmake).2 ?_
  simp only [Action.ensures_bind, Action.ensures_modify, Action.ensures_outcome,
    Action.ensures_get, setSpace_modifyWorld, ensures_onSpace_withSpace hp]
  have hpid (s : AddressSpace × W) :
      ((modifyWorld (S.release image) (k.withSpace p s.1 s.2)).process p).pid =
        (k.process p).pid := by
    rw [process_modifyWorld, process_withSpace_self hp]
  refine Action.ensures_iff.2 ⟨fun entry s hbuilt => ?_, fun e s hbuilt => ?_⟩
  · have heq : built = (.ok entry, s) := Action.result_of_ok hbuilt
    rw [heq, hpid]
    exact ⟨rfl, rfl⟩
  · have heq : built = (.error e, s) := Action.result_of_error hbuilt
    rw [heq, hpid]
    exact ⟨rfl, rfl⟩

/-! ### What is in use -/

section Ledger

variable {k k' : Kernel (W × Ledger)} {w w' : W × Ledger}

/-- Nothing of the kernel has changed but the address space of `p`, the log, and what the services
note down for themselves. As many vnodes are in use as before. -/
structure OtherSpace (p : ProcessId) (k k' : Kernel (W × Ledger)) : Prop where
  config : k'.config = k.config
  table : k'.table = k.table
  size : k'.records.size = k.records.size
  others : ∀ q ≠ p, k'.process q = k.process q
  self : k'.process p = { k.process p with space := (k'.process p).space }
  files : k'.shared.files = k.shared.files
  directories : k'.shared.directories = k.shared.directories
  vnodes : ∀ resource, k'.shared.world.2.inUse resource = k.shared.world.2.inUse resource

/-- The image is not opened, or it is opened and released. -/
theorem Refuses.ledger (h : Refuses S.audited path k e w) : w.2 = k.shared.world.2 ∨
    ∃ resource, w.2 = .released resource :: .handed resource :: k.shared.world.2 := by
  cases h with
  | tooLong => exact .inl rfl
  | unopened _ hopen => exact .inl (Services.ensures_openPath.of_error hopen)
  | @unmade image _ w₀ w₁ _ hopen hmake =>
    refine .inr ⟨image.resource, ?_⟩
    show Entry.released image.resource :: w₁.2 = _
    rw [Services.ensures_createSpace.of_error hmake, Services.ensures_openPath.of_ok hopen]

theorem Refuses.inUse (h : Refuses S.audited path k e w) (resource : Nat) :
    w.2.inUse resource = k.shared.world.2.inUse resource := by
  rcases h.ledger with heq | ⟨r, heq⟩ <;> rw [heq]
  exact Ledger.inUse_released_handed

theorem Refuses.liveSpaces (h : Refuses S.audited path k e w) :
    w.2.liveSpaces = k.shared.world.2.liveSpaces := by
  rcases h.ledger with heq | ⟨r, heq⟩ <;> rw [heq]
  rw [Ledger.liveSpaces_released, Ledger.liveSpaces_handed]

theorem Refuses.otherSpace (h : Refuses S.audited path k e w) :
    OtherSpace p k (modifyWorld (fun _ => w) k) :=
  ⟨rfl, rfl, rfl, fun _ _ => rfl, rfl, rfl, rfl, h.inUse⟩

theorem Swaps.ledger (h : Swaps S.audited path k image space w) :
    w.2 = .made :: .handed image.resource :: k.shared.world.2 := by
  obtain ⟨-, hopen, hmake⟩ := h
  rw [Services.ensures_createSpace.of_ok hmake, Services.ensures_openPath.of_ok hopen]

theorem inUse_destroySpace? (old : Option AddressSpace) (resource : Nat) :
    (S.audited.destroySpace? old w).2.inUse resource = w.2.inUse resource := by
  cases old with
  | none => rfl
  | some space => exact Ledger.inUse_destroyed

theorem liveSpaces_destroySpace? (old : Option AddressSpace) :
    (S.audited.destroySpace? old w).2.liveSpaces =
      w.2.liveSpaces - if old.isSome then 1 else 0 := by
  cases old with
  | none => exact (Int.sub_zero _).symm
  | some space => exact Ledger.liveSpaces_destroyed

variable {r : Except Errno UserEntry}

theorem ledger_of_built
    (hbuilt : (buildImage S.audited image args).result (space, w) = (r, space', w')) :
    w'.2 = w.2 :=
  (ledger_buildImage _).result (P := fun t => t.2.2 = w.2) hbuilt

theorem Swaps.otherSpace (h : Swaps S.audited path k image space w) (hp : p < k.records.size)
    (hbuilt : (buildImage S.audited image args).result
      (space, S.audited.destroySpace? (k.process p).space w) = (r, space', w')) (event : Event) :
    OtherSpace p k (report event (k.withSpace p space' (S.audited.release image w'))) := by
  have hself : (report event (k.withSpace p space' (S.audited.release image w'))).process p =
      { k.process p with space := some space' } := by
    rw [process_report, process_withSpace_self hp]
  refine ⟨rfl, rfl, size_modifyProcess _, fun q hq => process_modifyProcess_ne _ hq, ?_, rfl, rfl,
    fun resource => ?_⟩
  · rw [hself]
  · show Ledger.inUse (.released image.resource :: w'.2) resource = _
    rw [Ledger.inUse_released, ledger_of_built hbuilt, inUse_destroySpace?, h.ledger,
      Ledger.inUse_made, Ledger.inUse_handed]
    omega

theorem OtherSpace.within (h : OtherSpace p k k') : Within p k k' :=
  ⟨h.table, h.size, h.others, by rw [h.self]; rfl, by rw [h.self]⟩

theorem Swaps.liveSpaces (h : Swaps S.audited path k image space w)
    (hbuilt : (buildImage S.audited image args).result
      (space, S.audited.destroySpace? (k.process p).space w) = (r, space', w')) :
    (S.audited.release image w').2.liveSpaces =
      k.shared.world.2.liveSpaces + if (k.process p).space.isSome then 0 else 1 := by
  show Ledger.liveSpaces (.released image.resource :: w'.2) = _
  rw [Ledger.liveSpaces_released, ledger_of_built hbuilt, liveSpaces_destroySpace?, h.ledger,
    Ledger.liveSpaces_made, Ledger.liveSpaces_handed]
  split <;> omega

/-- On whichever side of the swap an exec ends, only the address space of the process is
another. -/
theorem ensures_exec_otherSpace (path : String) (args : ArgVector) (hp : p < k.records.size) :
    (exec S.audited p path args).Ensures k
      (fun _ k' => OtherSpace p k k' ∧ (∃ space, (k'.process p).space = some space) ∧
        k'.shared.world.2.liveSpaces =
          k.shared.world.2.liveSpaces + if (k.process p).space.isSome then 0 else 1)
      fun _ k' => OtherSpace p k k' := by
  rcases refuses_or_swaps S.audited path k with ⟨e, w, hrefuses⟩ | ⟨image, space, w, hswaps⟩
  · exact (Action.ensures_of_error (exec_of_refuses hrefuses)).2 hrefuses.otherSpace
  · rcases hbuilt : (buildImage S.audited image args).result
      (space, S.audited.destroySpace? (k.process p).space w) with ⟨r, space', w'⟩
    have hrun := result_exec_of_swaps args hp hswaps
    rw [hbuilt] at hrun
    refine (Action.result_eq_iff.1 hrun).mono ?_ ?_
    · rintro _ _ ⟨-, rfl⟩
      refine ⟨hswaps.otherSpace hp hbuilt _, ⟨space', ?_⟩, hswaps.liveSpaces hbuilt⟩
      rw [process_report, process_withSpace_self hp]
    · rintro _ _ ⟨-, rfl⟩
      exact hswaps.otherSpace hp hbuilt _

end Ledger

end Kernel

/-! ### Requests of user programs -/

namespace Syscall

/-- An argument array and a path in user memory that an exec can go on with. -/
structure Commands (config : Config) (space : AddressSpace) (path argv : UserAddr) (name : String)
    (args : List (List UInt8)) : Prop where
  argv_ne : argv.isNull = false
  arguments : ArgvAt space argv.toNat args
  fit : stringBytes args ≤ config.argMax
  path_ne : path.isNull = false
  named : ∃ bytes, StringAt space path.toNat bytes ∧ bytes.length < config.pathMax ∧
    String.fromUTF8? bytes.toByteArray = some name

/-- What is wrong with the memory behind the arguments of an `execv`, and the error that tells so.
The argument array is read before the path. -/
inductive ExecvFault (k : Kernel W) (p : ProcessId) (path argv : UserAddr) : Errno → Prop
  | noSpace : (k.process p).space = none → ExecvFault k p path argv .badAddress
  | arguments {space : AddressSpace} {e : Errno} : (k.process p).space = some space →
    ArgVector.copyIn space argv k.config.argMax = .error e → ExecvFault k p path argv e
  | path {space : AddressSpace} {v : ArgVector} {e : Errno} : (k.process p).space = some space →
    ArgVector.copyIn space argv k.config.argMax = .ok v →
    UserMemory.copyInStr space path k.config.pathMax = .error e → ExecvFault k p path argv e
  | text {space : AddressSpace} {v : ArgVector} {bytes : List UInt8} :
    (k.process p).space = some space → ArgVector.copyIn space argv k.config.argMax = .ok v →
    UserMemory.copyInStr space path k.config.pathMax = .ok bytes →
    String.fromUTF8? bytes.toByteArray = none → ExecvFault k p path argv .invalidArgument

variable {k : Kernel W} {p : ProcessId} {path argv : UserAddr} {e : Errno}

/-- There is no fault just when all is there that an exec needs. -/
theorem execvFault_iff : (∃ e, ExecvFault k p path argv e) ↔
    ¬∃ space name args, (k.process p).space = some space ∧
      Commands k.config space path argv name args := by
  constructor
  · rintro ⟨e, hfault⟩ ⟨space, name, args, hspace, hcommands⟩
    obtain ⟨bytes, hbytes, hshort, htext⟩ := hcommands.named
    have hargs : ArgVector.copyIn space argv k.config.argMax = .ok ⟨args, stringBytes args⟩ :=
      ArgVector.copyIn_eq_ok.2
        ⟨hcommands.argv_ne, args, hcommands.arguments, rfl, hcommands.fit⟩
    have hpath : UserMemory.copyInStr space path k.config.pathMax = .ok bytes :=
      copyInStr_eq_ok.2 ⟨hcommands.path_ne, hshort, hbytes⟩
    cases hfault with
    | noSpace hnone => cases hnone.symm.trans hspace
    | arguments hspace' hfails =>
      cases hspace.symm.trans hspace'
      cases hargs.symm.trans hfails
    | path hspace' _ hfails =>
      cases hspace.symm.trans hspace'
      cases hpath.symm.trans hfails
    | text hspace' _ hpath' hnone =>
      cases hspace.symm.trans hspace'
      cases hpath.symm.trans hpath'
      cases htext.symm.trans hnone
  · intro hnot
    cases hspace : (k.process p).space with
    | none => exact ⟨_, .noSpace hspace⟩
    | some space =>
      cases hargs : ArgVector.copyIn space argv k.config.argMax with
      | error e => exact ⟨e, .arguments hspace hargs⟩
      | ok v =>
        cases hpath : UserMemory.copyInStr space path k.config.pathMax with
        | error e => exact ⟨e, .path hspace hargs hpath⟩
        | ok bytes =>
          cases htext : String.fromUTF8? bytes.toByteArray with
          | none => exact ⟨_, .text hspace hargs hpath htext⟩
          | some name =>
            obtain ⟨hargv, args, harguments, -, hfit⟩ := ArgVector.copyIn_eq_ok.1 hargs
            obtain ⟨hne, hshort, hbytes⟩ := copyInStr_eq_ok.1 hpath
            exact (hnot ⟨space, name, args, hspace, hargv, harguments, hfit, hne, bytes, hbytes,
              hshort, htext⟩).elim

theorem copyInPath_of_error {space : AddressSpace} (hspace : (k.process p).space = some space)
    (hpath : UserMemory.copyInStr space path k.config.pathMax = .error e) :
    copyInPath p path k = .error e k := by
  rw [copyInPath, Action.get_bind]
  apply Action.bind_of_error
  rw [Kernel.readMemory_of_space hspace, hpath, Action.ofExcept_error]

theorem copyInPath_of_none {space : AddressSpace} {bytes : List UInt8}
    (hspace : (k.process p).space = some space)
    (hpath : UserMemory.copyInStr space path k.config.pathMax = .ok bytes)
    (htext : String.fromUTF8? bytes.toByteArray = none) :
    copyInPath p path k = .error .invalidArgument k := by
  rw [copyInPath, Action.get_bind, Action.bind_of_ok, htext]
  · rfl
  · rw [Kernel.readMemory_of_space hspace, hpath, Action.ofExcept_ok]

theorem sysExecv_of_fault (h : ExecvFault k p path argv e) :
    sysExecv S p path argv k = .error e k := by
  rw [sysExecv, Action.get_bind]
  cases h with
  | noSpace hnone => rw [Action.bind_of_error (Kernel.readMemory_of_none hnone)]
  | arguments hspace hargs =>
    apply Action.bind_of_error
    rw [Kernel.readMemory_of_space hspace, hargs, Action.ofExcept_error]
  | path hspace hargs hpath =>
    rw [Action.bind_of_ok, Action.bind_of_error (copyInPath_of_error hspace hpath)]
    rw [Kernel.readMemory_of_space hspace, hargs, Action.ofExcept_ok]
  | text hspace hargs hpath htext =>
    rw [Action.bind_of_ok, Action.bind_of_error (copyInPath_of_none hspace hpath htext)]
    rw [Kernel.readMemory_of_space hspace, hargs, Action.ofExcept_ok]

/-- A call with a fault ends before any service is asked: it ends the same way whatever the services
would do, and nothing is left of it but a line of the log. -/
theorem dispatch_of_fault {frame : TrapFrame} (hnumber : frame.number = execv.number)
    (h : ExecvFault k p ⟨frame.arg 0⟩ ⟨frame.arg 1⟩ e) (S : Services W) (threads : Threads W) :
    dispatch S threads p frame k =
      (.value e.returnValue, k.report (.callFailed (k.process p).pid frame.number e)) := by
  have hhandle : handle S threads p frame execv k = .error e k := sysExecv_of_fault h
  rw [dispatch_of_number hnumber, hhandle]

end Syscall

open Kernel Syscall

/-- An exec is atomic up to the swap of the address spaces and balanced after it.

If the path is too long, the file system fails to open it or no address space can be made, the exec
fails with this error, and no process record has changed, the old address space of the caller
included. Otherwise the exec comes to the swap: the old address space is destroyed, and however the
building of the image in the new one ends, so ends the exec, and the process has the address space
that this has led to. In both cases the image is released, nothing but the address space of the
process has changed, and the number of live address spaces is the same, unless the process had none
before the swap.

An `execv` whose argument array or path is not there, not text or too long fails the same way
whatever the services would do, and has not come to them. -/
theorem exec_atomic_and_balanced (S : Services W) (k : Kernel (W × Ledger)) (p : ProcessId)
    (hp : p < k.records.size) :
    (∀ (path : String) (args : ArgVector),
      ((∃ e w, Refuses S.audited path k e w) ∨
        ∃ image space w, Swaps S.audited path k image space w) ∧
      (∀ e w, Refuses S.audited path k e w → ∃ k',
        exec S.audited p path args k = .error e k' ∧ OtherSpace p k k' ∧ k'.records = k.records ∧
          k'.shared.world = w ∧ w.2.liveSpaces = k.shared.world.2.liveSpaces) ∧
      ∀ image space w, Swaps S.audited path k image space w → ∃ r space' w' k',
        (buildImage S.audited image args).result
          (space, S.audited.destroySpace? (k.process p).space w) = (r, space', w') ∧
        (exec S.audited p path args).result k = (r, k') ∧ OtherSpace p k k' ∧
        (k'.process p).space = some space' ∧ k'.shared.world = S.audited.release image w' ∧
        k'.shared.world.2.liveSpaces =
          k.shared.world.2.liveSpaces + if (k.process p).space.isSome then 0 else 1) ∧
    ∀ frame : TrapFrame, frame.number = execv.number →
      ((∃ e, ExecvFault k p ⟨frame.arg 0⟩ ⟨frame.arg 1⟩ e) ↔
        ¬∃ space name args, (k.process p).space = some space ∧
          Commands k.config space ⟨frame.arg 0⟩ ⟨frame.arg 1⟩ name args) ∧
      ∀ e, ExecvFault k p ⟨frame.arg 0⟩ ⟨frame.arg 1⟩ e →
        ∀ (S' : Services (W × Ledger)) (threads : Threads (W × Ledger)),
          dispatch S' threads p frame k =
            (.value e.returnValue, k.report (.callFailed (k.process p).pid frame.number e)) := by
  refine ⟨fun path args => ⟨refuses_or_swaps S.audited path k, fun e w h => ?_,
    fun image space w h => ?_⟩, fun frame hnumber => ⟨execvFault_iff, fun e h S' threads => ?_⟩⟩
  · exact ⟨_, exec_of_refuses h, h.otherSpace, rfl, rfl, h.liveSpaces⟩
  · rcases hbuilt : (buildImage S.audited image args).result
      (space, S.audited.destroySpace? (k.process p).space w) with ⟨r, space', w'⟩
    have hrun := result_exec_of_swaps args hp h
    rw [hbuilt] at hrun
    refine ⟨r, space', w', _, rfl, hrun, h.otherSpace hp hbuilt _, ?_, rfl, h.liveSpaces hbuilt⟩
    rw [process_report, process_withSpace_self hp]
  · exact dispatch_of_fault hnumber h S' threads

/-- The first process calls for the console to be run, which is not a program, and with a null
pointer for the arguments. -/
theorem exec_atomic_and_balanced_console :
    let frame : TrapFrame := .ofCall execv.number [0x1000, 0]
    ∃ old space k, (forkedChild.process 0).space = some old ∧
      (exec Ram.services.audited 0 consolePath ⟨[], 0⟩).result forkedChild =
        (.error .execFormat, k) ∧
      OtherSpace 0 forkedChild k ∧ (k.process 0).space = some space ∧
      k.shared.world.2.liveSpaces = forkedChild.shared.world.2.liveSpaces ∧
      ∀ S threads, dispatch S threads 0 frame forkedChild = (.value (-14),
        forkedChild.report (.callFailed (forkedChild.process 0).pid frame.number .badAddress)) := by
  intro frame
  obtain ⟨hexec, hexecv⟩ := exec_atomic_and_balanced Ram.services forkedChild 0 (by decide +kernel)
  obtain ⟨old, hold⟩ : ∃ old, (forkedChild.process 0).space = some old :=
    Option.isSome_iff_exists.1 (by decide +kernel)
  let opened :=
    (Ram.services.audited.openPath consolePath .rdonly).result forkedChild.shared.world
  have hopen : Ram.services.audited.openPath consolePath .rdonly forkedChild.shared.world =
      .ok ⟨0, false⟩ opened.2 := Action.eq_ok_of_result (Action.result_eq_ok (by decide +kernel))
  have hmake : Ram.services.audited.createSpace opened.2 = .ok ⟨.filled 0x1000 64 0, 0⟩ _ :=
    Action.eq_ok_of_result (Action.result_eq_ok (by decide +kernel))
  obtain ⟨r, space, w, k, -, hrun, hother, hspace, -, hlive⟩ :=
    (hexec consolePath ⟨[], 0⟩).2.2 _ _ _ (.intro (by decide +kernel) hopen hmake)
  have hresult : ((exec Ram.services.audited 0 consolePath ⟨[], 0⟩).result forkedChild).1 =
      .error .execFormat := by decide +kernel
  rw [hrun] at hresult
  obtain rfl : r = .error .execFormat := hresult
  rw [hold] at hlive
  refine ⟨old, space, k, hold, hrun, hother, hspace, hlive.trans (Int.add_zero _),
    fun S threads => ?_⟩
  exact (hexecv frame (by decide)).2 .badAddress (.arguments hold rfl) S threads

end UnixCore
