import Transcriber.Failure

/-!
# The unsigned right shift

The helper that generated programs call for a right shift that fills with zeros (`bsr`).  It works on
whole numbers of any size, whose sign counts as bits without end, and looks at them through masks.
-/

namespace Transcriber.Shift

/-- The bits that two numbers share. -/
def land : Int → Int → Int
  | .ofNat m, .ofNat n => .ofNat (m &&& n)
  | .ofNat m, .negSucc n => .ofNat (m ^^^ (m &&& n))
  | .negSucc m, .ofNat n => .ofNat (n ^^^ (n &&& m))
  | .negSucc m, .negSucc n => .negSucc (m ||| n)

/-- The bits that one of two numbers has. -/
def lor : Int → Int → Int
  | .ofNat m, .ofNat n => .ofNat (m ||| n)
  | .ofNat m, .negSucc n => .negSucc (n ^^^ (n &&& m))
  | .negSucc m, .ofNat n => .negSucc (m ^^^ (m &&& n))
  | .negSucc m, .negSucc n => .negSucc (m &&& n)

/-- The smallest number of a word: all bits from the 31st on. -/
def lowest : Int := -2147483648

/-- Shifts a number to the right.  The lowest 31 bits are shifted, the last of them left out, and one
bit stands for all the higher ones. -/
def right (value bits : Int) : Except Failure Int :=
  if bits == 0 then .ok value
  else if bits == 31 then .ok (if land value lowest != 0 then 1 else 0)
  else if bits < 0 || 31 < bits then .error .shiftCount
  else
    let shifted := land value 0x7FFFFFFE / Int.pow 2 bits.toNat
    .ok (if land value lowest != 0 then lor shifted (0x40000000 / Int.pow 2 (bits - 1).toNat)
      else shifted)

end Transcriber.Shift
