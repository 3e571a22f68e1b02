import UnixCore.Ram.Services
import UnixCore.Syscall.Handlers
import UnixCore.Proofs.Exec.Layout
import UnixCore.Proofs.Kernel.Records

/-! A program that is entered finds the argument strings that the call named in the memory of the
image before. -/

namespace UnixCore

open Bytewise

/-- The start of a program in an address space: what it is told of its arguments, and the arguments
on its stack. -/
structure ArgumentsReady (space : AddressSpace) (entry : UserEntry) (args : List (List UInt8)) :
    Prop where
  argc : entry.argc = args.length
  sp : entry.sp = entry.argv
  aligned : stackAlign ∣ entry.argv.toNat
  bound : entry.argv.toNat + wordSize * (args.length + 1) < UInt64.size
  laid : LaidOut space (entry.argv.toNat + wordSize * (args.length + 1)) entry.argv.toNat args
  null : WordAt space (entry.argv.toNat + wordSize * args.length) 0

namespace ArgumentsReady

variable {space : AddressSpace} {entry : UserEntry} {args : List (List UInt8)}

theorem pointer (h : ArgumentsReady space entry args) (hne : ∀ arg ∈ args, ∀ b ∈ arg, b ≠ 0)
    (i : Nat) (hi : i < args.length) :
    ∃ w, WordAt space (entry.argv.toNat + wordSize * i) w ∧ w ≠ 0 ∧ stackAlign ∣ w.toNat ∧
      StringAt space w.toNat args[i] := by
  refine h.laid.pointer ?_ (Nat.dvd_add h.aligned (Nat.dvd_mul_right _ _)) hne i hi
  unfold wordSize
  omega

theorem argvAt (h : ArgumentsReady space entry args) (hne : ∀ arg ∈ args, ∀ b ∈ arg, b ≠ 0) :
    ArgvAt space entry.argv.toNat args := by
  have hbound := h.bound
  refine .of_pointers (by unfold wordSize at *; omega) (fun i hi => ?_) h.null
  obtain ⟨w, hw, hw0, -, harg⟩ := h.pointer hne i hi
  exact ⟨w, hw, hw0, harg⟩

end ArgumentsReady

namespace Kernel

variable {W : Type} {S : Services W} {k : Kernel W} {p : ProcessId} {args : ArgVector}

theorem ensures_buildImage {image : Vnode} {s : AddressSpace × W} :
    (buildImage S image args).Ensures s (fun entry t => ArgumentsReady t.1 entry args.args)
      fun _ _ => True := by
  simp only [buildImage, Action.ensures_bind, Action.ensures_modify, Action.ensures_onPart,
    Action.ensures_pure]
  refine Action.ensures_true.mono (fun entry t _ => ?_) fun _ _ _ => trivial
  refine Action.ensures_true.mono (fun top u _ => ?_) fun _ _ _ => trivial
  refine ArgVector.ensures_marshal.mono (fun layout m h => ?_) fun _ _ _ => trivial
  obtain ⟨hargc, haligned, hbound, hlaid, hnull⟩ := h
  have hsize := args.stackSize_eq
  unfold ArgVector.argc at *
  exact ⟨hargc, rfl, haligned, by dsimp only; omega, hlaid, hnull⟩

/-- The new address space of a process whose image was replaced has the arguments ready. -/
theorem ensures_exec {path : String} (hp : p < k.records.size) :
    (exec S p path args).Ensures k
      (fun entry k' =>
        ∃ space, (k'.process p).space = some space ∧ ArgumentsReady space entry args.args)
      fun _ _ => True := by
  unfold exec
  simp only [Action.ensures_bind, Action.ensures_get]
  split
  case isTrue => exact trivial
  case isFalse =>
    simp only [Action.ensures_bind, ensures_onWorld]
    refine Action.ensures_true.mono (fun image w₁ _ => ?_) fun _ _ _ => trivial
    simp only [Action.ensures_outcome, ensures_onWorld]
    refine Action.ensures_true.mono (fun space w₂ _ => ?_) fun _ _ _ => trivial
    simp only [Action.ensures_bind, Action.ensures_modify, Action.ensures_outcome]
    have hspace := process_setSpace_self
      (k := modifyWorld (fun _ => w₂) (modifyWorld (fun _ => w₁) k))
      S (some space) hp
    rw [ensures_onSpace (by rw [hspace])]
    refine ensures_buildImage.mono (fun entry t ht => ?_) fun _ _ _ => trivial
    refine ⟨t.1, ?_, ht⟩
    rw [process_report, process_modifyWorld, process_modifyWorld, process_modifyProcess_self]
    rw [size_setSpace]
    exact hp

end Kernel

namespace Syscall

variable {W : Type} {S : Services W} {k : Kernel W} {p : ProcessId}

theorem ensures_copyInPath {path : UserAddr} :
    (copyInPath p path).Ensures k (fun _ k' => k' = k) fun _ k' => k' = k := by
  simp only [copyInPath, Action.ensures_bind, Action.ensures_get, Kernel.ensures_readMemory]
  refine ⟨fun _ => trivial, fun space _ => ⟨fun bytes _ => ?_, fun _ _ => trivial⟩⟩
  cases String.fromUTF8? bytes.toByteArray <;> exact rfl

/-- The vector copied out of the old address space is ready in the new one. -/
theorem ensures_sysExecv {path argv : UserAddr} :
    (sysExecv S p path argv).Ensures k
      (fun done k' => ∃ old v new entry, done = .exec entry ∧ (k.process p).space = some old ∧
        ArgVector.copyIn old argv k.config.argMax = .ok v ∧
        (k'.process p).space = some new ∧ ArgumentsReady new entry v.args)
      fun _ _ => True := by
  simp only [sysExecv, Action.ensures_bind, Action.ensures_get, Kernel.ensures_readMemory,
    Action.ensures_pure]
  refine ⟨fun _ => trivial, fun old hold => ⟨fun v hv => ?_, fun _ _ => trivial⟩⟩
  refine ensures_copyInPath.mono (fun path k₁ hk => ?_) fun _ _ _ => trivial
  subst hk
  refine (Kernel.ensures_exec (Kernel.lt_of_space hold)).mono (fun entry k' h => ?_)
    fun _ _ _ => trivial
  obtain ⟨new, hnew, hready⟩ := h
  exact ⟨old, v, new, entry, rfl, hold, hv, hnew, hready⟩

/-- A program that is entered by `execv` finds in its new address space the strings that a walk over
the caller's argument array found in the old one: it is told how many there are, and its stack
pointer is at an aligned array of aligned addresses of exactly these strings, ended by a null
pointer. Copied in again, the array gives the vector that was copied in before. -/
theorem execv_carries_arguments {W : Type} (S : Services W) (k k' : Kernel W) (p : ProcessId)
    (path argv : UserAddr) (entry : UserEntry)
    (h : sysExecv S p path argv k = .ok (.exec entry) k') :
    ∃ old new args, (k.process p).space = some old ∧ (k'.process p).space = some new ∧
      ArgvAt old argv.toNat args ∧
      entry.argc = args.length ∧ entry.sp = entry.argv ∧ 4 ∣ entry.argv.toNat ∧
      (∀ i (hi : i < args.length),
        ∃ w, WordAt new (entry.argv.toNat + 4 * i) w ∧ w ≠ 0 ∧ 4 ∣ w.toNat ∧
          StringAt new w.toNat args[i]) ∧
      WordAt new (entry.argv.toNat + 4 * args.length) 0 ∧
      (entry.argv.isNull = false → ∃ v,
        ArgVector.copyIn old argv k.config.argMax = .ok v ∧
        ArgVector.copyIn new entry.argv k.config.argMax = .ok v) := by
  obtain ⟨old, v, new, entry', hentry, hold, hv, hnew, hready⟩ := ensures_sysExecv.of_ok h
  cases hentry
  obtain ⟨-, args, hargs, rfl, hfit⟩ := ArgVector.copyIn_eq_ok.1 hv
  have hne := hargs.nonzero
  refine ⟨old, new, args, hold, hnew, hargs, hready.argc, hready.sp, hready.aligned,
    hready.pointer hne, hready.null, fun hnull => ⟨_, hv, ?_⟩⟩
  exact ArgVector.copyIn_eq_ok.2 ⟨hnull, args, hready.argvAt hne, rfl, hfit⟩

/-- A process whose memory starts with an argument array of one pointer, to the string "a". The
program "p" exists, and a new stack has sixteen bytes. -/
def oneArgument : Kernel Ram where
  config := {}
  records := #[{
    pid := Pid.lowest, name := "caller", descriptors := .empty 0
    space := some ⟨⟨0x10, #[0x18, 0, 0, 0, 0, 0, 0, 0, 0x61, 0, 0x70, 0]⟩, 0⟩ }]
  table := { capacity := 1 }
  shared.world := { Ram.addFile "p" (.ofData Ram.imageMagic .regular) {} with
    rules := .bare
    shape := { base := 0x20, size := 16, stackTop := 0x30 } }

theorem execv_oneArgument :
    ∃ entry k', sysExecv Ram.services 0 ⟨0x1a⟩ ⟨0x10⟩ oneArgument = .ok (.exec entry) k' ∧
      ∃ old new args, (oneArgument.process 0).space = some old ∧
        (k'.process 0).space = some new ∧ ArgvAt old 0x10 args ∧ entry.argc = args.length := by
  have hrun : (match sysExecv Ram.services 0 ⟨0x1a⟩ ⟨0x10⟩ oneArgument with
      | .ok (.exec _) _ => true
      | _ => false) = true := by decide +kernel
  split at hrun
  case h_1 entry k' h =>
    obtain ⟨old, new, args, hold, hnew, hargs, hargc, -⟩ :=
      execv_carries_arguments Ram.services oneArgument k' 0 ⟨0x1a⟩ ⟨0x10⟩ entry h
    exact ⟨entry, k', h, old, new, args, hold, hnew, hargs, hargc⟩
  case h_2 => cases hrun

end Syscall

end UnixCore
