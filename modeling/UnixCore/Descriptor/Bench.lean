import UnixCore.Descriptor.Operations

/-! Descriptor tables without processes: any number of tables over the same open files, and a list
of open files that is itself a holder of each of its entries. -/

namespace UnixCore

structure Bench (W : Type) where
  tables : Array DescriptorTable
  shared : Shared W
  files : Array (Option FileId) := #[]

namespace Bench

variable {W α : Type}

def table (b : Bench W) (t : Nat) : DescriptorTable := b.tables[t]?.getD default

def file? (b : Bench W) (f : Nat) : Option FileId := b.files[f]?.join

def place? (b : Bench W) (id : FileId) : Option Nat := b.files.findIdx? (· == some id)

def onTable (t : Nat) (act : Action (Descriptors W) α) : Action (Bench W) α :=
  .onPart (fun b => ⟨b.table t, b.shared⟩)
    (fun d b => { b with tables := b.tables.setIfInBounds t d.table, shared := d.shared }) act

def onShared (act : Action (Shared W) α) : Action (Bench W) α :=
  .onPart shared (fun sh b => { b with shared := sh }) act

def openFile (S : Services W) (path : String) (flags : OpenFlags) : Action (Bench W) Nat := do
  let id ← onShared (Shared.openFile S path flags)
  modifyGet fun b => (b.files.size, { b with files := b.files.push (some id) })

def dropFile (S : Services W) (f : Nat) (b : Bench W) : Bench W :=
  match b.file? f with
  | some id =>
    { b with files := b.files.setIfInBounds f none, shared := b.shared.dropFile S id }
  | none => b

def alloc (S : Services W) (t : Nat) (id : FileId) : Action (Bench W) Nat :=
  onTable t do
    Descriptors.retain id
    Descriptors.alloc S id

/-- Repeats `alloc` until it fails, `n` times at most. Gives how often it went well. -/
def fill (S : Services W) (t : Nat) (id : FileId) : (n : Nat) → Bench W → Nat × Bench W
  | 0, b => (0, b)
  | n + 1, b =>
    match alloc S t id b with
    | .ok _ b =>
      let (filled, b) := fill S t id n b
      (filled + 1, b)
    | .error _ b => (0, b)

/-- Puts one more reference to a file in a slot. Gives the place in the list of the file that was
there, if any file was there. -/
def install (S : Services W) (t fd : Nat) (id : FileId) :
    Action (Bench W) (Option (Option Nat)) := do
  let previous ← onTable t do
    Descriptors.retain id
    Descriptors.install S fd id
  match previous with
  | none => return none
  | some old =>
    let place := (← get).place? old
    onTable t (Descriptors.drop S old)
    return some place

def take (S : Services W) (t fd : Nat) : Action (Bench W) (Option Nat) := do
  let id ← onTable t (Descriptors.take fd)
  let place := (← get).place? id
  onTable t (Descriptors.drop S id)
  return place

def clear (S : Services W) (t : Nat) : Action (Bench W) Unit :=
  onTable t (modify (Descriptors.clear S))

def duplicate (t : Nat) (b : Bench W) : Nat × Bench W :=
  let table := b.table t
  (b.tables.size,
    { b with tables := b.tables.push table, shared := b.shared.retainFiles table.held })

end Bench

end UnixCore
