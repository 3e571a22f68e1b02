import UnixCore.User.Calls

/-! Text on the standard streams. What becomes of the writes is not looked at. -/

namespace UnixCore.User

def stdout : UInt64 := 1

def stderr : UInt64 := 2

variable {σ : Type}

def printTo (m : Machine σ) (stream : UInt64) (text : List UInt8) : StateM σ Unit := do
  let _ ← write m stream text

/-- The text and then the end of the line, as two writes. -/
def printLineTo (m : Machine σ) (stream : UInt64) (text : List UInt8) : StateM σ Unit := do
  printTo m stream text
  printTo m stream "\n".toUTF8.toList

end UnixCore.User
