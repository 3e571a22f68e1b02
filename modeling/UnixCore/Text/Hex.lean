/-! Hexadecimal text of numbers and bytes. -/

namespace UnixCore.Text

def hexDigits (n : Nat) : List Char := Nat.toDigits 16 n

def hex (n : Nat) : String := String.ofList ('0' :: 'x' :: hexDigits n)

/-- The number in `width` hexadecimal digits, or as many more as it needs. -/
def hexPadded (width n : Nat) : String :=
  let digits := hexDigits n
  String.ofList (List.replicate (width - digits.length) '0' ++ digits)

def hexBytes (bytes : List UInt8) : String :=
  String.ofList (bytes.flatMap fun b =>
    [Nat.digitChar (b.toNat / 16), Nat.digitChar (b.toNat % 16)])

/-- The value of a hexadecimal digit in either case, or 0 for any other character. -/
def hexValue (c : Char) : Nat :=
  if '0' ≤ c ∧ c ≤ '9' then c.toNat - '0'.toNat
  else if 'a' ≤ c ∧ c ≤ 'f' then c.toNat - 'a'.toNat + 10
  else if 'A' ≤ c ∧ c ≤ 'F' then c.toNat - 'A'.toNat + 10
  else 0

def bytesOfHex : (digits : List Char) → List UInt8
  | high :: low :: rest => .ofNat (16 * hexValue high + hexValue low) :: bytesOfHex rest
  | _ => []

end UnixCore.Text
