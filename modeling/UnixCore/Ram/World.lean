import UnixCore.Config
import UnixCore.File.Flags
import UnixCore.Process.Pid
import UnixCore.Process.TrapFrame
import UnixCore.Memory.AddressSpace
import UnixCore.Ram.File

/-! A world in memory: a flat directory of files, address spaces that are contiguous mappings of
one shape, and threads that are only noted down. It counts what it hands out, and can be told to
fail. -/

namespace UnixCore

structure SpaceAccount where
  live : Nat := 0
  created : Nat := 0
  activations : Nat := 0
  duplicateError : Option Errno := none
  deriving DecidableEq, Repr, Inhabited

structure SpaceShape where
  base : UInt64 := 0x1000
  size : Nat := 0x40000
  stackTop : UInt64 := 0x41000
  fill : UInt8 := 0
  deriving DecidableEq, Repr, Inhabited

/-- What differs between worlds for good. -/
structure RamRules where
  sizeLimit : Option Nat := some 0x100000
  /-- Bytes that the loader reads of an image. -/
  imageHead : Nat := 16
  /-- Where the loader tries to store them. -/
  imageAddress : Option UserAddr := some ⟨0x1000⟩
  deriving DecidableEq, Repr, Inhabited

/-- Rules without a limit on files and with a loader that only looks at the magic number. -/
def RamRules.bare : RamRules := { sizeLimit := none, imageHead := 4, imageAddress := none }

structure Ram where
  rules : RamRules := {}
  directory : List (String × Nat) := []
  files : Array RamFile := #[]
  opens : Nat := 0
  shape : SpaceShape := {}
  /-- Account 0 is that of the spaces made for an exec. -/
  accounts : Array SpaceAccount := #[{}]
  /-- The faults of making a space, of mapping a stack and of starting a thread. -/
  createError : Option Errno := none
  stackError : Option Errno := none
  threadError : Option Errno := none
  /-- The threads that were started: name and id of the process, and its registers. -/
  started : Array (String × Pid × TrapFrame) := #[]
  /-- The records of the processes whose thread could not be started. -/
  rejected : Array Nat := #[]
  /-- The code with which a child exits before its start is over. -/
  exitOnStart : Option Int32 := none
  deriving Inhabited

namespace Ram

def imageMagic : List UInt8 := [0x7f, 0x45, 0x4c, 0x46]

def entryPoint : UserAddr := ⟨0x400000⟩

def sampleImage : List UInt8 := imageMagic ++ "text".toUTF8.toList

def fileNumber? (r : Ram) (name : String) : Option Nat := r.directory.lookup name

def file? (r : Ram) (name : String) : Option RamFile := do r.files[← r.fileNumber? name]?

def modifyFile (number : Nat) (f : RamFile → RamFile) (r : Ram) : Ram :=
  { r with files := r.files.modify number f }

/-- Puts a new file under a name. A file that had the name loses it and stays for those that have it
open. -/
def addFile (name : String) (file : RamFile) (r : Ram) : Ram :=
  { r with
    directory := (name, r.files.size) :: r.directory.filter (·.1 != name)
    files := r.files.push file }

def tune? (name : String) (f : RamFile → RamFile) (r : Ram) : Option Ram :=
  (r.fileNumber? name).map fun number => r.modifyFile number f

def withFile (name : String) (file : RamFile) (r : Ram) : Ram :=
  if (r.fileNumber? name).isSome then r else r.addFile name file

def withConsole (r : Ram) : Ram := r.withFile consolePath .console

def withPrograms (r : Ram) : Ram :=
  (r.withFile "bin/init" (.ofData sampleImage .regular)).withFile "bin/prog"
    (.ofData sampleImage .regular)

def handOut (number : Nat) (r : Ram) : Vnode × Ram :=
  (⟨number, false⟩, r.modifyFile number fun f => { f with handles := f.handles + 1 })

/-- A new handle on the file of a name, if there is one. This is not an open. -/
def handle? (name : String) (r : Ram) : Option (Vnode × Ram) :=
  (r.fileNumber? name).map fun number => r.handOut number

def account (r : Ram) (number : Nat) : SpaceAccount := r.accounts[number]?.getD {}

def modifyAccount (number : Nat) (f : SpaceAccount → SpaceAccount) (r : Ram) : Ram :=
  { r with accounts := r.accounts.modify number f }

def freshSpace (account : Nat) (r : Ram) : AddressSpace × Ram :=
  (⟨.filled r.shape.base r.shape.size r.shape.fill, account⟩,
    r.modifyAccount account fun a => { a with live := a.live + 1 })

def strangeSpace (r : Ram) : AddressSpace × Ram :=
  { r with accounts := r.accounts.push {} }.freshSpace r.accounts.size

end Ram

end UnixCore
