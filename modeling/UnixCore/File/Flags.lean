import UnixCore.Errno
import UnixCore.Text.Hex

/-! The flags of an open, the access they ask for, and the origins of a seek. -/

namespace UnixCore

/-- A flag word as `open` takes it. Any bits may be set; `OpenFlags.parse` says which words are
accepted. -/
structure OpenFlags where
  bits : UInt32
  deriving DecidableEq, Repr, Inhabited

inductive AccessMode
  | readOnly
  | writeOnly
  | readWrite
  deriving DecidableEq, Repr, Inhabited

namespace AccessMode

def canRead : AccessMode → Bool
  | readOnly | readWrite => true
  | writeOnly => false

def canWrite : AccessMode → Bool
  | writeOnly | readWrite => true
  | readOnly => false

def name : AccessMode → String
  | readOnly => "ReadOnly"
  | writeOnly => "WriteOnly"
  | readWrite => "ReadWrite"

end AccessMode

namespace OpenFlags

def rdonly : OpenFlags := ⟨0⟩
def wronly : OpenFlags := ⟨1⟩
def rdwr : OpenFlags := ⟨2⟩
def creat : OpenFlags := ⟨4⟩
def excl : OpenFlags := ⟨8⟩
def trunc : OpenFlags := ⟨16⟩
def append : OpenFlags := ⟨32⟩

instance : OrOp OpenFlags := ⟨fun a b => ⟨a.bits ||| b.bits⟩⟩

def named : List (String × OpenFlags) :=
  [("WRONLY", wronly), ("RDWR", rdwr), ("CREAT", creat), ("EXCL", excl), ("TRUNC", trunc),
    ("APPEND", append)]

def contains (f part : OpenFlags) : Bool := f.bits &&& part.bits == part.bits

/-- The bits that have a name. -/
def truncated (f : OpenFlags) : OpenFlags := ⟨f.bits &&& 63⟩

def supported : List OpenFlags :=
  [rdonly, wronly, rdwr, creat ||| wronly, creat ||| rdwr, creat ||| excl ||| wronly,
    creat ||| excl ||| rdwr, trunc ||| wronly, trunc ||| rdwr, wronly ||| append, rdwr ||| append]

def parse (raw : UInt32) : Except Errno OpenFlags :=
  if supported.contains ⟨raw⟩ then .ok ⟨raw⟩ else .error .invalidArgument

def accessMode (f : OpenFlags) : AccessMode :=
  if f.contains rdwr then .readWrite
  else if f.contains wronly then .writeOnly
  else .readOnly

def names (f : OpenFlags) : List String :=
  (named.filter fun flag => f.contains flag.2).map (·.1)

/-- The text that diagnostics show: the names of the flags that are set, and the other bits
together in hexadecimal. -/
def describe (f : OpenFlags) : String :=
  let rest := f.bits &&& ~~~63
  let parts := f.names ++ if rest = 0 then [] else [Text.hex rest.toNat]
  "OpenFlags(" ++ (if parts.isEmpty then "0x0" else " | ".intercalate parts) ++ ")"

end OpenFlags

inductive Whence
  | start
  | current
  | fileEnd
  deriving DecidableEq, Repr, Inhabited

namespace Whence

def code : Whence → Int32
  | start => 0
  | current => 1
  | fileEnd => 2

def ofCode (code : Int32) : Except Errno Whence :=
  if code = 0 then .ok start
  else if code = 1 then .ok current
  else if code = 2 then .ok fileEnd
  else .error .invalidArgument

def name : Whence → String
  | start => "Set"
  | current => "Current"
  | fileEnd => "End"

end Whence

end UnixCore
