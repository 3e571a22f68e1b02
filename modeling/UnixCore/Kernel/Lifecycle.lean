import UnixCore.Kernel.Image
import UnixCore.Process.TrapFrame

/-! The life of a process between its first and its last instruction: fork, exit and wait. Other
threads run at two places: while a fork starts the thread of the child, and while a wait yields.
What they do there is given with the call. -/

namespace UnixCore

/-- The thread service of one call: what happens while it starts a thread for a child, which may
fail afterwards, and what happens during each yield of a wait, until the wait is given up. -/
structure Threads (W : Type) where
  start : ProcessId → TrapFrame → Action (Kernel W) Unit
  yields : List (Kernel W → Kernel W)

inductive Waited
  | reaped (code : Int32) (child : Pid)
  /-- The child had not exited when the wait was given up. -/
  | blocked
  deriving DecidableEq, Repr

namespace Kernel

variable {W : Type}

def copySpace (S : Services W) :
    (space : Option AddressSpace) → Action (Kernel W) (Option AddressSpace)
  | some space => some <$> onWorld (S.duplicateSpace space)
  | none => return none

def copyIntoChild (S : Services W) (parent child : ProcessId) : Action (Kernel W) Unit := do
  let source := (← get).process parent
  let space ← copySpace S source.space
  modify fun k =>
    retainDirectory source.directory
      { modifyProcess child ({ · with
          parent := some source.pid, space, directory := source.directory,
          descriptors := source.descriptors }) k with
        shared := k.shared.retainFiles source.descriptors.held }

/-- Ends a fork that failed: the child is unregistered and loses all it holds. -/
def rejectChild {α : Type} (S : Services W) (parent : Pid) (child : ProcessId) (e : Errno) :
    Action (Kernel W) α := do
  modify (report (.forkFailed parent e))
  modify (discard S child)
  throw e

/-- Makes the child of a fork, a registered copy of its parent with one thread. The thread counts
before it runs, because the child may exit at once. A failure leaves no child. -/
def beginFork (S : Services W) (parent : ProcessId) : Action (Kernel W) ProcessId := do
  let source := (← get).process parent
  let child ← create source.name
  match ← (copyIntoChild S parent child).outcome with
  | .ok () =>
    modify (modifyProcess child Process.attachThread)
    return child
  | .error e => rejectChild S source.pid child e

/-- Ends a fork when the start of the child's thread is over, however that went. -/
def endFork (S : Services W) (parent : Pid) (child : ProcessId) (started : Except Errno Unit) :
    Action (Kernel W) Pid := do
  match started with
  | .ok () =>
    let pid := ((← get).process child).pid
    modify (report (.processForked parent pid))
    return pid
  | .error e =>
    modify (modifyProcess child Process.detachThread)
    rejectChild S parent child e

/-- Makes a child that goes on from `frame` as its parent does, but with a return value of 0. A
failure leaves no child. -/
def fork (S : Services W) (threads : Threads W) (parent : ProcessId) (frame : TrapFrame) :
    Action (Kernel W) Pid := do
  let pid := ((← get).process parent).pid
  let child ← beginFork S parent
  let started ← (threads.start child frame.forForkedChild).outcome
  endFork S pid child started

/-- Turns a registered running process into a zombie and signals its exit. Any other process is
left alone. -/
def exit (p : ProcessId) (code : Int32) (k : Kernel W) : Kernel W :=
  let caller := k.process p
  if k.table.get? caller.pid = some p then
    match caller.exit? code with
    | some zombie =>
      report (.processExited caller.pid code)
        (modifyProcess p (fun _ => { zombie with exitSignal := zombie.exitSignal.up }) k)
    | none => k
  else
    report (.strayExit caller.pid) k

/-- Takes the exit signal of a child, or yields until there is one. Gives the number of yields. -/
def awaitExit (child : ProcessId) (yields : List (Kernel W → Kernel W)) (k : Kernel W) :
    Option Nat × Kernel W :=
  Semaphore.down (fun k => (k.process child).exitSignal)
    (fun signal => modifyProcess child ({ · with exitSignal := signal })) report yields k

/-- A wait that is allowed and whose child has not exited yet. -/
def Waits (k : Kernel W) (caller : ProcessId) (pid : Pid) (options : Int32) : Prop :=
  options = 0 ∧ pid ≠ (k.process caller).pid ∧
    ∃ child ∈ k.table.get? pid, (k.process child).parent = some (k.process caller).pid ∧
      (k.process child).state = .running

instance (k : Kernel W) (caller : ProcessId) (pid : Pid) (options : Int32) :
    Decidable (k.Waits caller pid options) :=
  inferInstanceAs (Decidable (_ ∧ _ ∧ _))

def beginWait (caller : ProcessId) (pid : Pid) (options : Int32) : Action (Kernel W) ProcessId := do
  let k ← get
  if options ≠ 0 then
    throw .invalidArgument
  else
    match k.table.get? pid with
    | none => throw .noSuchProcess
    | some child =>
      if pid = (k.process caller).pid ∨
          (k.process child).parent ≠ some (k.process caller).pid then
        throw .notAChild
      else
        return child

/-- Ends a wait that has taken the exit signal of its child: unregisters the child and takes from it
all it holds. -/
def endWait (S : Services W) (caller pid : Pid) (child : ProcessId) :
    Action (Kernel W) Waited := do
  match ((← get).process child).exitCode with
  | none => throw .noSuchProcess
  | some code =>
    modify fun k => reap S child (k.unregister pid)
    modify (report (.childReaped caller pid code))
    return .reaped code pid

/-- Waits for the child `pid` to exit, then unregisters it and takes from it all it holds. -/
def wait (S : Services W) (threads : Threads W) (caller : ProcessId) (pid : Pid)
    (options : Int32) : Action (Kernel W) Waited := do
  let callerPid := ((← get).process caller).pid
  let child ← beginWait caller pid options
  match ← modifyGet (awaitExit child threads.yields) with
  | none => return .blocked
  | some _ => endWait S callerPid pid child

end Kernel

end UnixCore
