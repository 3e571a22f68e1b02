import UnixCore.Exec.Stack
import UnixCore.Kernel.Basic

/-! Program images: replacing the image of a process, and starting the first program. -/

namespace UnixCore

namespace Kernel

variable {W : Type}

/-- Loads a program into an address space, maps its stack and puts the arguments on it. -/
def buildImage (S : Services W) (image : Vnode) (args : ArgVector) :
    Action (AddressSpace × W) UserEntry := do
  modify fun s => (s.1, S.activate s.1 s.2)
  let entry ← S.load image
  let top ← S.defineStack
  let layout ← .onPart Prod.fst (fun space s => (space, s.2)) (args.marshal top)
  return { entry, argc := layout.argc, argv := layout.argv, sp := layout.argv }

/-- Replaces the image of a process. The old address space goes as soon as there is a new one, so a
program that then fails to load leaves the process with a partly built image. The vnode of the
image is released however the call ends. -/
def exec (S : Services W) (p : ProcessId) (path : String) (args : ArgVector) :
    Action (Kernel W) UserEntry := do
  if (← get).config.pathMax ≤ path.utf8ByteSize then
    throw .nameTooLong
  else
    let image ← onWorld (S.openPath path .rdonly)
    match ← (onWorld S.createSpace).outcome with
    | .error e =>
      modify (modifyWorld (S.release image))
      throw e
    | .ok space =>
      modify (setSpace S p (some space))
      let built ← (onSpace p (buildImage S image args)).outcome
      modify (modifyWorld (S.release image))
      let pid := ((← get).process p).pid
      match built with
      | .ok entry =>
        modify (report (.imageEntered pid path entry.argc entry.entry))
        return entry
      | .error e =>
        modify (report (.imageLost pid path e))
        throw e

def execWith (S : Services W) (p : ProcessId) (path : String) (args : List (List UInt8)) :
    Action (Kernel W) UserEntry := do
  exec S p path (← Action.ofExcept (ArgVector.ofArgs args (← get).config.argMax))

def discard (S : Services W) (p : ProcessId) (k : Kernel W) : Kernel W :=
  reap S p (k.unregister (k.process p).pid)

/-- Starts the first program, with the console on its standard streams. A failure leaves nothing
registered. -/
def spawnInitial (S : Services W) (path : String) (args : List String) :
    Action (Kernel W) (ProcessId × UserEntry) := do
  let config := (← get).config
  if config.pathMax ≤ path.utf8ByteSize then
    throw .nameTooLong
  else
    let args ← Action.ofExcept (ArgVector.ofStrings args config.argMax)
    let p ← create path
    let start := do
      onDescriptors p (Descriptors.attachStreams S)
      exec S p path args
    match ← start.outcome with
    | .ok entry =>
      modify (modifyProcess p Process.attachThread)
      modify fun k => report (.programStarted (k.process p).pid path) k
      return (p, entry)
    | .error e =>
      modify (discard S p)
      throw e

end Kernel

end UnixCore
