import UnixCore.Kernel.Lifecycle
import UnixCore.Ram.World

/-! The services of a world in memory. -/

namespace UnixCore

namespace Ram

def resolve (path : String) (flags : OpenFlags) : Action Ram Nat := do
  match (← get).fileNumber? path with
  | some number =>
    if flags.contains (.creat ||| .excl) then throw .alreadyExists else return number
  | none =>
    if flags.contains .creat then
      let number := (← get).files.size
      modify (addFile path (.ofData [] .regular))
      return number
    else
      throw .notFound

def openPath (path : String) (flags : OpenFlags) : Action Ram Vnode := do
  modify fun r => { r with opens := r.opens + 1 }
  let number ← resolve path flags
  match (← get).files[number]?.bind (·.openError) with
  | some e => throw e
  | none =>
    if flags.contains .trunc then
      modify (modifyFile number fun f => { f with data := #[] })
    modifyGet (handOut number)

def ask {α : Type} (v : Vnode) (question : RamFile → Except Errno α) : Action Ram α := do
  match (← get).files[v.resource]? with
  | some file => Action.ofExcept (question file)
  | none => throw .inputOutput

def writeAt (v : Vnode) (offset : UInt64) (bytes : List UInt8) : Action Ram UInt64 := do
  let limit := (← get).rules.sizeLimit
  let (count, file) ← ask v (·.writeAt limit offset bytes)
  modify (modifyFile v.resource fun _ => file)
  return count

def isSeekable (v : Vnode) (r : Ram) : Bool :=
  v.alwaysSeekable || (r.files[v.resource]?.any (·.isSeekable))

def release (v : Vnode) (r : Ram) : Ram :=
  r.modifyFile v.resource fun f => { f with handles := f.handles - 1 }

def createSpace : Action Ram AddressSpace := do
  match (← get).createError with
  | some e => throw e
  | none =>
    modify (modifyAccount 0 fun a => { a with created := a.created + 1 })
    modifyGet (freshSpace 0)

def duplicateSpace (space : AddressSpace) : Action Ram AddressSpace := do
  match ((← get).account space.account).duplicateError with
  | some e => throw e
  | none =>
    modify (modifyAccount space.account fun a => { a with live := a.live + 1 })
    return space

def activate (space : AddressSpace) (r : Ram) : Ram :=
  r.modifyAccount space.account fun a => { a with activations := a.activations + 1 }

def defineStack : Action (AddressSpace × Ram) UserAddr := do
  let r := (← get).2
  match r.stackError with
  | some e => throw e
  | none => return ⟨r.shape.stackTop⟩

def destroySpace (space : AddressSpace) (r : Ram) : Ram :=
  r.modifyAccount space.account fun a => { a with live := a.live - 1 }

/-- The state after storing bytes, or the state as it was if they cannot be stored. -/
def tryStore (bytes : List UInt8) (dst : UserAddr) (space : AddressSpace) : AddressSpace :=
  match UserMemory.copyOut space bytes dst with
  | .ok space => space
  | .error _ => space

/-- Accepts every image that starts with the magic number. -/
def load (image : Vnode) : Action (AddressSpace × Ram) UserAddr := do
  let rules := (← get).2.rules
  let head ← .onPart Prod.snd (fun r s => (s.1, r)) (ask image (·.readAt 0 rules.imageHead))
  if imageMagic.isPrefixOf head then
    match rules.imageAddress with
    | some address => modify fun s => (tryStore head address s.1, s.2)
    | none => pure ()
    return entryPoint
  else
    throw .execFormat

def services : Services Ram where
  openPath
  readAt v offset count := ask v (·.readAt offset count)
  writeAt
  stat v := ask v (·.stat)
  isSeekable
  release
  createSpace
  duplicateSpace
  activate
  defineStack
  destroySpace
  load

variable {β : Type}

/-- Notes a thread down, lets run what runs while it starts, and then fails if there is a fault. -/
def startNoted (meanwhile : ProcessId → Kernel (Ram × β) → Kernel (Ram × β))
    (child : ProcessId) (frame : TrapFrame) : Action (Kernel (Ram × β)) Unit := do
  let process := (← get).process child
  modify (Kernel.modifyWorld fun (r, b) =>
    ({ r with started := r.started.push (process.name, process.pid, frame) }, b))
  modify (meanwhile child)
  match (← get).shared.world.1.threadError with
  | some e => throw e
  | none => return ()

/-- Notes a thread down, or its process among the rejected if there is a fault. A child that exits
at once does so behind the back of the kernel's log. -/
def startOrReject (child : ProcessId) (frame : TrapFrame) : Action (Kernel (Ram × β)) Unit := do
  let process := (← get).process child
  match (← get).shared.world.1.threadError with
  | some e =>
    modify (Kernel.modifyWorld fun (r, b) => ({ r with rejected := r.rejected.push child }, b))
    throw e
  | none =>
    modify (Kernel.modifyWorld fun (r, b) =>
      ({ r with started := r.started.push (process.name, process.pid, frame) }, b))
    match (← get).shared.world.1.exitOnStart.bind process.exit? with
    | some zombie =>
      modify (Kernel.modifyProcess child fun _ =>
        { zombie with exitSignal := zombie.exitSignal.up })
    | none => return ()

end Ram

end UnixCore
