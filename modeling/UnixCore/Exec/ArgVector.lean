import UnixCore.Memory.UserMemory

/-! Argument vectors: the strings that one image hands to the next, held by the kernel while the
address space changes. They come from the kernel's own strings or out of user memory, and in
both cases their bytes together, terminators included, stay within a limit. -/

namespace UnixCore

/-- An argument vector: the strings without their terminators, and their bytes together with
them. -/
structure ArgVector where
  args : List (List UInt8)
  total : Nat
  deriving DecidableEq, Repr, Inhabited

namespace ArgVector

def argc (v : ArgVector) : Nat := v.args.length

/-- The bytes of `args` with their terminators on top of `total`. Of two faults the first argument
that has one decides, and in one argument a zero byte comes before the length. -/
def totalFrom (argMax : Nat) (total : Nat) : (args : List (List UInt8)) → Except Errno Nat
  | [] => .ok total
  | arg :: args =>
    if arg.contains 0 then
      .error .invalidArgument
    else if argMax < total + (arg.length + 1) then
      .error .argumentListTooBig
    else
      totalFrom argMax (total + (arg.length + 1)) args

/-- The vector of the given strings, none of which may hold a zero byte. -/
def ofArgs (args : List (List UInt8)) (argMax : Nat) : Except Errno ArgVector := do
  return ⟨args, ← totalFrom argMax 0 args⟩

def ofStrings (args : List String) (argMax : Nat) : Except Errno ArgVector :=
  ofArgs (args.map (·.toUTF8.toList)) argMax

/-- Copies strings until a null pointer, behind the strings already `got`. A string may only take
what the others have left of the limit. -/
def copyInFrom {M : Type} [UserMemory M] (m : M) (argv : UserAddr) (argMax : Nat)
    (got : Array (List UInt8)) (total : Nat) : Except Errno ArgVector := do
  let slot ← argv.add (got.size * wordSize)
  let ptr := UserAddr.ofWord (← UserMemory.copyInWord m slot)
  if ptr.isNull then
    return ⟨got.toList, total⟩
  else if _ : total < argMax then
    match UserMemory.copyInStr m ptr (argMax - total) with
    | .ok arg => copyInFrom m argv argMax (got.push arg) (total + (arg.length + 1))
    | .error .nameTooLong => .error .argumentListTooBig
    | .error e => .error e
  else
    .error .argumentListTooBig
termination_by argMax - total

/-- The vector behind a pointer array in user memory that ends with a null pointer. -/
def copyIn {M : Type} [UserMemory M] (m : M) (argv : UserAddr) (argMax : Nat) :
    Except Errno ArgVector :=
  if argv.isNull then .error .badAddress else copyInFrom m argv argMax #[] 0

end ArgVector

end UnixCore
