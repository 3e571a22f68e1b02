import UnixCore.Descriptor.Operations
import UnixCore.Memory.UserMemory
import UnixCore.Process.Record
import UnixCore.Process.Table

/-! The state of the kernel: its limits, every process record there ever was, the registry of
those that have an id, and what all processes share. -/

namespace UnixCore

/-- The number of a process record. Records are numbered in the order they were made, and unlike
process ids the numbers are never used again. -/
abbrev ProcessId := Nat

structure Kernel (W : Type) where
  config : Config
  records : Array Process := #[]
  table : ProcessTable ProcessId
  shared : Shared W

namespace Kernel

variable {W α : Type}

def boot (config : Config) (world : W) : Except Errno (Kernel W) := do
  config.validate
  return { config, table := { capacity := config.maxProcesses }, shared := { world } }

def process (k : Kernel W) (p : ProcessId) : Process := k.records[p]?.getD default

def modifyProcess (p : ProcessId) (f : Process → Process) (k : Kernel W) : Kernel W :=
  { k with records := k.records.modify p f }

def report (e : Event) (k : Kernel W) : Kernel W := { k with shared := k.shared.report e }

def modifyWorld (f : W → W) (k : Kernel W) : Kernel W :=
  { k with shared := { k.shared with world := f k.shared.world } }

def onWorld (act : Action W α) : Action (Kernel W) α :=
  .onPart (·.shared) (fun sh k => { k with shared := sh }) (Shared.onWorld act)

def onDescriptors (p : ProcessId) (act : Action (Descriptors W) α) : Action (Kernel W) α :=
  .onPart (fun k => ⟨(k.process p).descriptors, k.shared⟩)
    (fun d k => { modifyProcess p ({ · with descriptors := d.table }) k with shared := d.shared })
    act

/-- An operation on the address space of a process together with the world. A process without one
has no valid address. -/
def onSpace (p : ProcessId) (act : Action (AddressSpace × W) α) : Action (Kernel W) α := fun k =>
  match (k.process p).space with
  | none => .error .badAddress k
  | some space =>
    Action.onPart (fun k => (space, k.shared.world))
      (fun s k => modifyWorld (fun _ => s.2) (modifyProcess p ({ · with space := some s.1 }) k))
      act k

def onMemory (p : ProcessId) (act : Action AddressSpace α) : Action (Kernel W) α :=
  onSpace p (.onPart Prod.fst (fun space s => (space, s.2)) act)

def readMemory (p : ProcessId) (read : AddressSpace → Except Errno α) : Action (Kernel W) α :=
  fun k =>
    match (k.process p).space with
    | none => .error .badAddress k
    | some space => Action.ofExcept (read space) k

def create (name : String) : Action (Kernel W) ProcessId := fun k =>
  let id := k.records.size
  match k.table.create fun _ => id with
  | .error e => .error e k
  | .ok (pid, table) =>
    .ok id (report (.processCreated pid name)
      { k with table, records := k.records.push (.fresh pid name k.config.openMax) })

/-- Unregisters an id. The record stays as it is. -/
def unregister (pid : Pid) (k : Kernel W) : Kernel W := { k with table := k.table.remove pid }

/-- Registers and unregisters a process `n` times. Gives how the last time ended. -/
def churn (name : String) : (n : Nat) → (last : Option (Except Errno Pid)) → Kernel W →
    Option (Except Errno Pid) × Kernel W
  | 0, last, k => (last, k)
  | n + 1, _, k =>
    match create name k with
    | .ok p k =>
      let pid := (k.process p).pid
      churn name n (some (.ok pid)) (k.unregister pid)
    | .error e k => churn name n (some (.error e)) k

def destroySpace (S : Services W) (space : Option AddressSpace) (k : Kernel W) : Kernel W :=
  match space with
  | some space => modifyWorld (S.destroySpace space) k
  | none => k

def retainDirectory (directory : Option Nat) (k : Kernel W) : Kernel W :=
  match directory with
  | some id => { k with shared.directories := k.shared.directories.retain id }
  | none => k

def dropDirectory (S : Services W) (directory : Option Nat) (k : Kernel W) : Kernel W :=
  match directory with
  | some id => { k with shared := k.shared.dropDirectory S id }
  | none => k

def setSpace (S : Services W) (p : ProcessId) (space : Option AddressSpace) (k : Kernel W) :
    Kernel W :=
  destroySpace S (k.process p).space (modifyProcess p ({ · with space }) k)

/-- Installs a current directory that is new to the kernel, or none, and gives up the old one. -/
def setDirectory (S : Services W) (p : ProcessId) (vnode : Option Vnode) (k : Kernel W) :
    Kernel W :=
  let old := (k.process p).directory
  match vnode with
  | some vnode =>
    let id := k.shared.directories.next
    dropDirectory S old (modifyProcess p ({ · with directory := some id })
      { k with shared.directories := k.shared.directories.insert vnode })
  | none => dropDirectory S old (modifyProcess p ({ · with directory := none }) k)

def reap (S : Services W) (p : ProcessId) (k : Kernel W) : Kernel W :=
  let { space, directory, descriptors, .. } := k.process p
  let d := Descriptors.clear S ⟨descriptors, k.shared⟩
  dropDirectory S directory (destroySpace S space
    { modifyProcess p ({ · with
        state := .reaped, space := none, directory := none, descriptors := d.table }) k with
      shared := d.shared })

end Kernel

end UnixCore
