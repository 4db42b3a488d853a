/-!
Hexadecimal text, in lowercase: with the mark `0x` and no leading zeros, or padded to the
sixteen digits of an address.
-/

namespace GuestMemory

/-- The hexadecimal digits of a number, without leading zeros; zero has one digit. -/
def hexDigits (value : Nat) : String :=
  String.ofList (Nat.toDigits 16 value)

def hex (value : Nat) : String :=
  "0x" ++ hexDigits value

/-- A number in hexadecimal after the mark `0x`, filled up to sixteen digits with zeros. -/
def wideHex (value : Nat) : String :=
  let digits := Nat.toDigits 16 value
  "0x" ++ String.ofList (List.replicate (16 - digits.length) '0' ++ digits)

end GuestMemory
