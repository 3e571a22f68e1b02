import UnixCore.Event
import UnixCore.File.OpenFile
import UnixCore.Pool
import UnixCore.Services

/-! What all processes have in common: the open files that descriptors refer to, the directories
that processes work in, the log, and the world of the services. A file or directory is released in
the operation that takes its last holder away. -/

namespace UnixCore

structure Shared (W : Type) where
  /-- The open files, held by descriptor slots. -/
  files : Pool OpenFile := {}
  /-- The current directories, held by processes. -/
  directories : Pool Vnode := {}
  events : Array Event := #[]
  world : W

namespace Shared

variable {W α : Type}

instance [Inhabited W] : Inhabited (Shared W) := ⟨{ world := default }⟩

def report (e : Event) (sh : Shared W) : Shared W := { sh with events := sh.events.push e }

def onWorld (act : Action W α) : Action (Shared W) α :=
  .onPart world (fun w sh => { sh with world := w }) act

/-- Where the cursor of a newly opened file stands: at the start, in append mode at the end. -/
def startOffset (S : Services W) (vnode : Vnode) (append : Bool) : Action (Shared W) UInt64 := do
  if append then
    return (← onWorld (S.stat vnode)).size
  else
    return 0

/-- Opens a path as a file with one holder. If the place to start at cannot be found out, the vnode
is released again. -/
def openFile (S : Services W) (path : String) (flags : OpenFlags) : Action (Shared W) Nat := do
  let vnode ← onWorld (S.openPath path flags)
  let append := flags.contains .append
  match ← (startOffset S vnode append).outcome with
  | .error e =>
    modify fun sh => { sh with world := S.release vnode sh.world }
    throw e
  | .ok offset =>
    let id := (← get).files.next
    modify fun sh =>
      { sh with files := sh.files.insert ⟨vnode, flags.accessMode, append, offset⟩ }
    return id

/-- One holder of a file less. The last one releases its vnode. -/
def dropFile (S : Services W) (id : Nat) (sh : Shared W) : Shared W :=
  match sh.files.release id with
  | (some file, files) => { sh with files, world := S.release file.vnode sh.world }
  | (none, files) => { sh with files }

def dropDirectory (S : Services W) (id : Nat) (sh : Shared W) : Shared W :=
  match sh.directories.release id with
  | (some vnode, directories) => { sh with directories, world := S.release vnode sh.world }
  | (none, directories) => { sh with directories }

def retainFiles (ids : List Nat) (sh : Shared W) : Shared W :=
  { sh with files := ids.foldl Pool.retain sh.files }

/-- Reads up to `count` bytes at the cursor and moves it behind them. -/
def read (S : Services W) (id : Nat) (count : Nat) : Action (Shared W) (List UInt8) := do
  match (← get).files.get? id with
  | none => throw .badFileDescriptor
  | some file =>
    if file.mode.canRead then
      let bytes ← onWorld (S.readAt file.vnode file.offset count)
      modify fun sh => { sh with files := sh.files.modify id (·.advance bytes.length) }
      return bytes
    else
      throw .badFileDescriptor

/-- Writes bytes at the cursor and moves it by as many as the resource says it took. -/
def write (S : Services W) (id : Nat) (bytes : List UInt8) : Action (Shared W) UInt64 := do
  match (← get).files.get? id with
  | none => throw .badFileDescriptor
  | some file =>
    if file.mode.canWrite then
      let count ← onWorld (S.writeAt file.vnode file.offset bytes)
      modify fun sh => { sh with files := sh.files.modify id (·.advance count.toNat) }
      return count
    else
      throw .badFileDescriptor

def seekBase (S : Services W) (file : OpenFile) : Whence → Action (Shared W) UInt64
  | .start => return 0
  | .current => return file.offset
  | .fileEnd => return (← onWorld (S.stat file.vnode)).size

/-- Moves the cursor. A seek that fails leaves it where it was. -/
def seek (S : Services W) (id : Nat) (pos : Int64) (whence : Whence) :
    Action (Shared W) UInt64 := do
  match (← get).files.get? id with
  | none => throw .badFileDescriptor
  | some file =>
    if S.isSeekable file.vnode (← get).world then
      let target ← Action.ofExcept (OpenFile.seekTarget (← seekBase S file whence) pos)
      modify fun sh => { sh with files := sh.files.modify id ({ · with offset := target }) }
      return target
    else
      throw .illegalSeek

end Shared

end UnixCore
