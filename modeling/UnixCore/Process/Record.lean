import UnixCore.Descriptor.Table
import UnixCore.Memory.AddressSpace
import UnixCore.Process.Pid
import UnixCore.Semaphore

/-! Process records. -/

namespace UnixCore

inductive ProcessState
  | running
  | zombie (code : Int32)
  /-- Its exit code was collected and it holds nothing any more. -/
  | reaped
  deriving DecidableEq, Repr, Inhabited

def ProcessState.describe : ProcessState → String
  | running => "Running"
  | zombie code => s!"Zombie({code})"
  | reaped => "Reaped"

structure Process where
  pid : Pid
  name : String
  parent : Option Pid := none
  space : Option AddressSpace := none
  directory : Option Nat := none
  threads : Nat := 0
  state : ProcessState := .running
  descriptors : DescriptorTable
  /-- Gets one unit when the process exits, which the wait that reaps it takes. -/
  exitSignal : Semaphore := {}
  deriving Inhabited

namespace Process

def fresh (pid : Pid) (name : String) (openMax : Nat) : Process :=
  { pid, name, descriptors := .empty openMax }

def exitCode (p : Process) : Option Int32 :=
  match p.state with
  | .zombie code => some code
  | _ => none

def attachThread (p : Process) : Process := { p with threads := p.threads + 1 }

def detachThread (p : Process) : Process := { p with threads := p.threads - 1 }

/-- Turns a running process into a zombie. One that is not running keeps its first code. -/
def exit? (p : Process) (code : Int32) : Option Process :=
  match p.state with
  | .running => some { p.detachThread with state := .zombie code }
  | _ => none

def describe (p : Process) : String :=
  "Process \x7b pid: Pid(" ++ toString p.pid ++ "), name: " ++ Text.quoted p.name ++ ", state: " ++
    p.state.describe ++ ", .. \x7d"

end Process

end UnixCore
