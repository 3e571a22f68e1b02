/-! What the file system hands out for an opened path. -/

namespace UnixCore

inductive FileKind
  | regular
  | directory
  | charDevice
  deriving DecidableEq, Repr, Inhabited

namespace FileKind

def name : FileKind → String
  | regular => "Regular"
  | directory => "Directory"
  | charDevice => "CharDevice"

end FileKind

structure Stat where
  size : UInt64
  kind : FileKind
  deriving DecidableEq, Repr, Inhabited

/-- One reference to an opened resource, to be released once. -/
structure Vnode where
  resource : Nat
  /-- The reference answers that it is seekable without asking the resource. -/
  alwaysSeekable : Bool := false
  deriving DecidableEq, Repr, Inhabited

end UnixCore
