import UnixCore.Action
import UnixCore.File.Vnode

/-! Files and devices held in memory. Each can be told to transfer less than it is asked for, to
lie about its size or about what it took, and to fail. -/

namespace UnixCore

structure RamFile where
  data : Array UInt8
  kind : FileKind
  /-- Vnodes on it that were handed out and not released. -/
  handles : Nat := 0
  writeLimit : Option Nat := none
  readLimit : Option Nat := none
  /-- A write stores nothing and reports this count. -/
  writeClaim : Option UInt64 := none
  statSize : Option UInt64 := none
  /-- Whether it is seekable, in place of what its kind says. -/
  seekable : Option Bool := none
  openError : Option Errno := none
  statError : Option Errno := none
  readError : Option Errno := none
  writeError : Option Errno := none
  deriving Inhabited

namespace RamFile

def ofData (data : List UInt8) (kind : FileKind) : RamFile := { data := data.toArray, kind }

/-- A device that takes what is written at its end, whatever the offset, and reads as empty. -/
def console : RamFile := ofData [] .charDevice

def atMost (limit : Option Nat) (n : Nat) : Nat :=
  match limit with
  | some limit => min n limit
  | none => n

def fault (error : Option Errno) : Except Errno Unit :=
  match error with
  | some e => .error e
  | none => .ok ()

def readAt (f : RamFile) (offset : UInt64) (count : Nat) : Except Errno (List UInt8) := do
  fault f.readError
  if f.kind = .charDevice then
    return []
  else
    let start := min offset.toNat f.data.size
    let count := atMost f.readLimit (min count (f.data.size - start))
    return (f.data.extract start (start + count)).toList

/-- The data with `bytes` from `start` on. A gap before them fills with zeros, also where `bytes`
is empty. -/
def splice (data : Array UInt8) (start : Nat) (bytes : List UInt8) : Array UInt8 :=
  let data := data ++ Array.replicate (start + bytes.length - data.size) 0
  data.extract 0 start ++ bytes.toArray ++ data.extract (start + bytes.length) data.size

/-- Takes bytes from `offset` on and tells how many. A regular file may not grow beyond
`sizeLimit`. -/
def writeAt (f : RamFile) (sizeLimit : Option Nat) (offset : UInt64) (bytes : List UInt8) :
    Except Errno (UInt64 × RamFile) := do
  fault f.writeError
  match f.writeClaim with
  | some claim => return (claim, f)
  | none =>
    let taken := bytes.take (atMost f.writeLimit bytes.length)
    if f.kind = .charDevice then
      return (.ofNat taken.length, { f with data := f.data ++ taken.toArray })
    else if sizeLimit.any (· < offset.toNat + taken.length) then
      .error .noSpace
    else
      return (.ofNat taken.length, { f with data := splice f.data offset.toNat taken })

def stat (f : RamFile) : Except Errno Stat := do
  fault f.statError
  return ⟨f.statSize.getD (.ofNat f.data.size), f.kind⟩

def isSeekable (f : RamFile) : Bool := f.seekable.getD (f.kind != .charDevice)

end RamFile

end UnixCore
