import GuestMemory.Hexadecimal

/-!
The text of a set of named bits: the names of the bits that are set, then in hexadecimal what
is left without a name.
-/

namespace GuestMemory

/-- The names of some bits of a word: the position of each bit beside its name. -/
abbrev BitNames := List (Nat × String)

namespace BitNames

def mask (names : BitNames) : Nat :=
  names.foldl (fun bits entry => bits ||| 1 <<< entry.1) 0

/-- The names of the bits that are set, in the order of the list. -/
def ofBits (names : BitNames) (bits : Nat) : List String :=
  (names.filter fun entry => bits.testBit entry.1).map (·.2)

def unnamed (names : BitNames) (bits : Nat) : Nat :=
  bits ^^^ (bits &&& names.mask)

/-- Writes a bit set as `Kind(A | B | 0x80)`; the empty set is `Kind(0x0)`. -/
def text (names : BitNames) (kind : String) (bits : Nat) : String :=
  let named := names.ofBits bits
  let rest := names.unnamed bits
  let parts := " | ".intercalate (if rest = 0 && bits != 0 then named else named ++ [hex rest])
  s!"{kind}({parts})"

end BitNames

end GuestMemory
