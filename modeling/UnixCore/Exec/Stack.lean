import UnixCore.Exec.ArgVector

/-! The start of a program's stack: the array of argument pointers, ended by a null pointer, and
above it the argument strings in order, each filled up with zero bytes to the stack alignment. The
last string ends at the stack top, rounded down to the alignment. -/

namespace UnixCore

def stackAlign : Nat := 4

/-- Where a fresh image starts in user mode. -/
structure UserEntry where
  entry : UserAddr
  argc : Nat
  argv : UserAddr
  sp : UserAddr
  deriving DecidableEq, Repr, Inhabited

structure ArgLayout where
  argc : Nat
  /-- The pointer array, and the new stack pointer. -/
  argv : UserAddr
  /-- Bytes below the stack top. -/
  size : Nat
  deriving DecidableEq, Repr, Inhabited

/-- The least multiple of the stack alignment that is not below `n`. -/
def padded (n : Nat) : Nat :=
  (n + (stackAlign - 1)) / stackAlign * stackAlign

/-- A string as it stands on the stack: its bytes, a terminator, and the zeros up to the
alignment. -/
def paddedString (arg : List UInt8) : List UInt8 :=
  arg ++ List.replicate (padded (arg.length + 1) - arg.length) 0

namespace ArgVector

variable {M : Type} [UserMemory M]

def stackSize (v : ArgVector) : Nat :=
  v.args.foldr (fun arg size => padded (arg.length + 1) + size) 0 + wordSize * (v.argc + 1)

/-- Writes the strings from `cursor` on and their addresses from `slot` on, one argument after the
other. Gives the slot behind the last pointer. -/
def marshalFrom (cursor slot : UserAddr) : (args : List (List UInt8)) → Action M UserAddr
  | [] => return slot
  | arg :: args => do
    let bytes := paddedString arg
    UserMemory.store bytes cursor
    UserMemory.storeWord (← Action.ofExcept cursor.toWord) slot
    let cursor ← Action.ofExcept (cursor.add bytes.length)
    let slot ← Action.ofExcept (slot.add wordSize)
    marshalFrom cursor slot args

def marshal (v : ArgVector) (stackTop : UserAddr) : Action M ArgLayout := do
  match (stackTop.alignDown stackAlign).sub v.stackSize with
  | .error _ => throw .argumentListTooBig
  | .ok sp =>
    let cursor ← Action.ofExcept (sp.add (wordSize * (v.argc + 1)))
    let slot ← marshalFrom cursor sp v.args
    UserMemory.storeWord 0 slot
    return ⟨v.argc, sp, v.stackSize⟩

end ArgVector

end UnixCore
