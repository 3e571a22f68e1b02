import UnixCore.Proofs.Isolation.Awaited
import UnixCore.Proofs.Syscall.Unwound
import UnixCore.Proofs.Syscall.Waitpid

/-! Processes are isolated from each other: what the dispatch of a system call does to processes
other than the caller, for any number and any arguments and however the call ends. Forks and waits
go on while other processes run, and what those do themselves is not counted. -/

namespace UnixCore

open Kernel

namespace Kernel

variable {W : Type} {S : Services W} {k k₁ : Kernel W} {p child : ProcessId} {pid : Pid}
  {options : Int32}

/-- The child that a wait finds under an id. -/
structure Finds (k : Kernel W) (p : ProcessId) (pid : Pid) (child : ProcessId) : Prop where
  found : k.table.get? pid = some child
  other : pid ≠ (k.process p).pid
  parent : (k.process child).parent = some (k.process p).pid

variable {reach : Kernel W → Kernel W → Prop}

end Kernel

variable {W : Type}

namespace Syscall

/-- How a call of `p` ends and what it has done to the other processes. -/
inductive Deals (S : Services W) (p : ProcessId) (frame : TrapFrame) (k : Kernel W) :
    SyscallEnd → Kernel W → Prop
  | alone {r : SyscallEnd} {k' : Kernel W} : k.Apart p nobody k' →
    Deals S p frame k r k'
  /-- The child of a fork is new. Others run while its thread is started. -/
  | forked {child : ProcessId} {k₁ k₂ k' : Kernel W} : frame.number = fork.number →
    k.records.size ≤ child → k.Apart p nobody k₁ → Elsewhere S k₁ k₂ → k₂.Apart p nobody k' →
    Deals S p frame k (.value (pidValue (k₂.process child).pid)) k'
  /-- The thread could not be started, and the new child is taken away again. -/
  | forkFailed {child : ProcessId} {e : Errno} {k₁ k₂ k' : Kernel W} :
    frame.number = fork.number → k.records.size ≤ child → k.Apart p nobody k₁ →
    Elsewhere S k₁ k₂ → k₂.Apart p (k₂.TakenAway (k₂.process child).pid child) k' →
    Deals S p frame k (.value e.returnValue) k'
  /-- The wait has only become one of those that wait for the child. -/
  | blocked {child : ProcessId} {k' : Kernel W} : frame.number = waitpid.number →
    k.Finds p (.ofRaw (frame.arg 0).toInt64) child → k.Apart p (· = child) (k.enterWait child) →
    Elsewhere S (k.enterWait child) k' → Deals S p frame k .blocked k'
  | collected {child : ProcessId} {pid : Pid} {code : Int32} {k₁ k' : Kernel W} :
    frame.number = waitpid.number → pid = .ofRaw (frame.arg 0).toInt64 → k.Finds p pid child →
    AwaitedChild S p child k k₁ → (k₁.process child).state = .zombie code →
    k₁.Apart p (· = child) k' → (k'.process child).state = .reaped →
    Deals S p frame k (.value (pidValue pid)) k'
  /-- The child was taken away before it turned out that its status word cannot be stored. -/
  | lost {child : ProcessId} {code : Int32} {k₁ k' : Kernel W} :
    frame.number = waitpid.number → k.Finds p (.ofRaw (frame.arg 0).toInt64) child →
    AwaitedChild S p child k k₁ → (k₁.process child).state = .zombie code →
    k₁.Apart p (· = child) k' → (k'.process child).state = .reaped →
    ¬ Storable k' p ⟨frame.arg 1⟩ → Deals S p frame k (.value Errno.badAddress.returnValue) k'

/-- What the handler of a call does is dealt with, also when a failure is noted in the log. -/
def Handled (S : Services W) (p : ProcessId) (frame : TrapFrame)
    (act : Action (Kernel W) SyscallEnd) (k : Kernel W) : Prop :=
  act.Ensures k (Deals S p frame k) fun e k' =>
    ∀ line, Deals S p frame k (.value e.returnValue) (k'.report line)

variable {S : Services W} {k : Kernel (W × Ledger)} {p : ProcessId} {frame : TrapFrame}
  {threads : Threads (W × Ledger)}

variable {config : Config} {world : W} {turns : List Turn} {s : System (W × Ledger)}

theorem Handled.dispatch {W : Type} {S : Services W} {threads : Threads W} {k : Kernel W}
    {call : Syscall} (h : Handled S p frame (handle S threads p frame call) k)
    (hnumber : frame.number = call.number) :
    Deals S p frame k (dispatch S threads p frame k).1 (dispatch S threads p frame k).2 := by
  rw [dispatch_of_number hnumber]
  cases hrun : handle S threads p frame call k with
  | ok r k' => exact h.of_ok hrun
  | error e k' => exact h.of_error hrun _

theorem number_of_ofNumber {n : UInt64} {call : Syscall} (h : ofNumber n = .ok call) :
    n = call.number := by
  unfold ofNumber at h
  cases hfound : all.find? (·.number == n) with
  | none =>
    rw [hfound] at h
    cases h
  | some c =>
    rw [hfound] at h
    cases h
    have hbeq := List.find?_some hfound
    exact (eq_of_beq hbeq).symm

theorem dispatch_unknown {W : Type} {S : Services W} {threads : Threads W} {k : Kernel W}
    {e : Errno} (h : ofNumber frame.number = .error e) :
    dispatch S threads p frame k =
      (.value e.returnValue, k.report (.callFailed (k.process p).pid frame.number e)) := by
  simp only [dispatch, h]
  rfl

/-- The first process has forked. -/
def forkedChild : Kernel (Ram × Ledger) :=
  let started := (Operation.spawnInitial "bin/init" ["init"]).run Ram.services.audited
    (System.empty { openMax := 4 } (smallWorld, [])).kernel
  let begun := ((beginFork Ram.services.audited 0).result started).2
  ((endFork Ram.services.audited (started.process 0).pid 1 (.ok ())).result begun).2

theorem exists_execution_forkedChild : ∃ turns, Execution Ram.services.audited
    (System.empty { openMax := 4 } (smallWorld, [])) turns { kernel := forkedChild } := by
  have hstart : Execution Ram.services.audited (System.empty { openMax := 4 } (smallWorld, [])) []
    _ := .start
  have hstarted := hstart.step
    (Operation.takes (.spawnInitial "bin/init" ["init"]) trivial)
  have hbegun := hstarted.step (.call (l := .forkBegun 0 1) trivial
    (@Step.forkBegun _ _ _ 0 1 _ (by decide +kernel)
      (Action.eq_ok_of_result (Action.result_eq_ok (by decide +kernel)))))
  have hforked := hbegun.step (.call (by exact trivial) (Step.forked (List.mem_cons_self ..) rfl))
  rw [List.erase_cons_head] at hforked
  exact ⟨_, hforked⟩

/-- The first process has forked, and its child has exited with 7. -/
def zombieChild : Kernel (Ram × Ledger) :=
  let started := (Operation.spawnInitial "bin/init" ["init"]).run Ram.services.audited
    (System.empty { openMax := 4 } (smallWorld, [])).kernel
  let begun := ((beginFork Ram.services.audited 0).result started).2
  let forked :=
    ((endFork Ram.services.audited (started.process 0).pid 1 (.ok ())).result begun).2
  forked.exit 1 7

theorem exists_execution_zombieChild : ∃ turns, Execution Ram.services.audited
    (System.empty { openMax := 4 } (smallWorld, [])) turns { kernel := zombieChild } := by
  obtain ⟨turns, hforked⟩ := exists_execution_forkedChild
  exact ⟨_, hforked.step (Operation.takes (.exit 1 7) (show 1 < _ by decide +kernel))⟩

end Syscall

end UnixCore
