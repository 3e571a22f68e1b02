import UnixCore.Descriptor.Table
import UnixCore.Shared

/-! The descriptor operations of one process: open, read, write, seek, close, duplicate, and the
standard streams. Every slot holds its file, so filling a slot adds a holder and emptying one takes
a holder away, in the same operation. -/

namespace UnixCore

/-- A descriptor table together with what it shares with other tables. -/
structure Descriptors (W : Type) where
  table : DescriptorTable
  shared : Shared W

namespace Descriptors

variable {W α : Type}

def onShared (act : Action (Shared W) α) : Action (Descriptors W) α :=
  .onPart shared (fun sh d => { d with shared := sh }) act

def report (e : Event) : Action (Descriptors W) Unit :=
  modify fun d => { d with shared := d.shared.report e }

def drop (S : Services W) (id : FileId) : Action (Descriptors W) Unit :=
  modify fun d => { d with shared := d.shared.dropFile S id }

def retain (id : FileId) : Action (Descriptors W) Unit :=
  modify fun d => { d with shared.files := d.shared.files.retain id }

def lookup (fd : Nat) : Action (Descriptors W) FileId := do
  match (← get).table.get? fd with
  | some id => return id
  | none => throw .badFileDescriptor

/-- Hands a file that the caller holds to the lowest empty slot. If there is none the caller's hold
is given up. -/
def alloc (S : Services W) (id : FileId) : Action (Descriptors W) Nat := do
  match (← get).table.alloc id with
  | some (fd, table) =>
    modify ({ · with table })
    return fd
  | none =>
    drop S id
    throw .tooManyOpenFiles

/-- Hands a file that the caller holds to slot `fd`, and what the slot held to the caller. If there
is no such slot the caller's hold is given up. -/
def install (S : Services W) (fd : Nat) (id : FileId) : Action (Descriptors W) (Option FileId) := do
  match (← get).table.install fd id with
  | some (previous, table) =>
    modify ({ · with table })
    return previous
  | none =>
    drop S id
    throw .badFileDescriptor

def take (fd : Nat) : Action (Descriptors W) FileId := do
  match (← get).table.take fd with
  | some (id, table) =>
    modify ({ · with table })
    return id
  | none => throw .badFileDescriptor

def clear (S : Services W) (d : Descriptors W) : Descriptors W :=
  ⟨d.table.clear, d.table.held.foldl (fun sh id => sh.dropFile S id) d.shared⟩

def attachStream (S : Services W) (fd : Nat) (flags : OpenFlags) : Action (Descriptors W) Unit := do
  let id ← onShared (Shared.openFile S consolePath flags)
  match ← install S fd id with
  | some displaced => drop S displaced
  | none => return ()

/-- Opens the console for reading on descriptor 0 and for writing on 1 and 2, each as a file of its
own. -/
def attachStreams (S : Services W) : Action (Descriptors W) Unit := do
  attachStream S 0 .rdonly
  attachStream S 1 .wronly
  attachStream S 2 .wronly
  report .streamsAttached

/-- Opens a path and gives its descriptor. A flag word that is not supported never reaches the file
system. -/
def openPath (S : Services W) (path : String) (raw : UInt32) : Action (Descriptors W) Nat := do
  let flags ← Action.ofExcept (OpenFlags.parse raw)
  let id ← onShared (Shared.openFile S path flags)
  let fd ← alloc S id
  report (.fileOpened path raw fd)
  return fd

def read (S : Services W) (fd : Nat) (count : Nat) : Action (Descriptors W) (List UInt8) := do
  let bytes ← onShared (Shared.read S (← lookup fd) count)
  report (.bytesRead fd bytes.length)
  return bytes

def write (S : Services W) (fd : Nat) (bytes : List UInt8) : Action (Descriptors W) UInt64 := do
  let count ← onShared (Shared.write S (← lookup fd) bytes)
  report (.bytesWritten fd count)
  return count

def seek (S : Services W) (fd : Nat) (pos : Int64) (whence : Int32) :
    Action (Descriptors W) UInt64 := do
  let id ← lookup fd
  let whence ← Action.ofExcept (Whence.ofCode whence)
  onShared (Shared.seek S id pos whence)

def close (S : Services W) (fd : Nat) : Action (Descriptors W) Unit := do
  let id ← take fd
  report (.descriptorClosed fd ((← get).shared.files.holders id - 1))
  drop S id

/-- Makes `new` refer to the file of `old`. The file that `new` referred to loses this holder. -/
def duplicate (S : Services W) (old new : Nat) : Action (Descriptors W) Nat := do
  if (← get).table.capacity ≤ new then
    throw .badFileDescriptor
  else
    let id ← lookup old
    if old = new then
      return new
    else
      retain id
      match ← install S new id with
      | some displaced => drop S displaced
      | none => pure ()
      report (.descriptorDuplicated old new)
      return new

end Descriptors

end UnixCore
