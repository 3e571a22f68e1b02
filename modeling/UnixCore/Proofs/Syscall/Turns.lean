import UnixCore.Proofs.Exec.Carried
import UnixCore.Proofs.Kernel.Memory
import UnixCore.Proofs.Syscall.Read
import UnixCore.Proofs.System.Execution
import UnixCore.Syscall.Dispatch

/-! System calls as turns of their caller. Every call other than fork and waitpid is at most one
operation of the caller and then at most one store to the caller's memory, whatever its arguments
are and however it ends. -/

namespace UnixCore

open Action

variable {W α : Type} {S : Services W}

/-- An operation that a process does by a system call. -/
inductive Operation.By (p : ProcessId) : Operation → Prop
  | exec {path : String} {args : ArgVector} : By p (.exec p path args)
  | exit {code : Int32} : By p (.exit p code)
  | descriptors {call : DescriptorCall} : By p (.descriptors p call)

namespace Kernel

variable {k k' : Kernel W} {p : ProcessId}

/-- At most one operation of a process. -/
def Did (S : Services W) (p : ProcessId) (k k' : Kernel W) : Prop :=
  k' = k ∨ ∃ op r, Operation.By p op ∧ (op.action S).result k = (r, k')

/-- At most one operation of a process, and then at most one store to its memory. -/
def DidAndStored (S : Services W) (p : ProcessId) (k k' : Kernel W) : Prop :=
  ∃ k₁, Did S p k k₁ ∧ (k' = k₁ ∨ ∃ memory, k' = k₁.setMemory p memory)

theorem Did.stored (h : Did S p k k') : DidAndStored S p k k' := ⟨k', h, .inl rfl⟩

theorem didAndStored_refl (k : Kernel W) : DidAndStored S p k k := Did.stored (.inl rfl)

end Kernel

namespace Syscall

open Kernel

variable {k : Kernel W} {p : ProcessId} {frame : TrapFrame} {call : Syscall}
  {threads : Threads W}

/-- A call that is at most an operation and a store of its caller. -/
def OwnTurns (S : Services W) (p : ProcessId) (act : Action (Kernel W) α) : Prop :=
  ∀ k, act.Ensures k (fun _ k' => DidAndStored S p k k') fun _ k' => DidAndStored S p k k'

/-- Such a call may begin with looks at its arguments. -/
theorem OwnTurns.bind {β : Type} {look : Action (Kernel W) β} {act : β → Action (Kernel W) α}
    (hlook : ∀ k, look.Ensures k (fun _ k' => k' = k) fun _ k' => k' = k)
    (h : ∀ b, OwnTurns S p (act b)) : OwnTurns S p (look >>= act) := by
  intro k
  rw [ensures_bind]
  refine (hlook k).mono (fun b k₁ hk => ?_) fun _ k₁ hk => ?_
  · subst hk
    exact h b k₁
  · subst hk
    exact didAndStored_refl k₁

theorem ensures_readMemory_eq {read : AddressSpace → Except Errno α} :
    (readMemory p read).Ensures k (fun _ k' => k' = k) fun _ k' => k' = k :=
  ensures_readMemory.2 ⟨fun _ => rfl, fun _ _ => ⟨fun _ _ => rfl, fun _ _ => rfl⟩⟩

end Syscall

end UnixCore
