/-! # Bytes written in sixty-four characters

    A letter, a digit, the plus sign or the slash stands for six bits, so four
    of them stand for three bytes.  A last group that is shorter is filled up
    with equals signs, which end the text.  All other characters stand for
    nothing. -/

namespace PiecewiseCubic.Text.Base64

/-- The six bits that a character stands for, as a number. -/
def sextet? (c : Char) : Option Nat :=
  if 'A' ≤ c ∧ c ≤ 'Z' then some (c.toNat - 'A'.toNat)
  else if 'a' ≤ c ∧ c ≤ 'z' then some (c.toNat - 'a'.toNat + 26)
  else if c.isDigit then some (c.toNat - '0'.toNat + 52)
  else if c = '+' then some 62
  else if c = '/' then some 63
  else none

/-- The sextets in a text, unless its last group is not filled up.  The group
    at hand has `count` sextets, and `fills` equals signs stand behind them;
    before its second sextet an equals sign stands for nothing. -/
def sextets? (count fills : Nat) : List Char → Option (List Nat)
  | [] => if count = 0 then some [] else none
  | c :: cs =>
      if c = '=' ∧ 2 ≤ count then
        if 4 ≤ count + fills + 1 then some []
        else sextets? count (fills + 1) cs
      else
        match sextet? c with
        | some s => (sextets? ((count + 1) % 4) 0 cs).map (s :: ·)
        | none => sextets? count fills cs

/-- The bytes that sextets make up; bits that fill no byte are dropped. -/
def bytesOf : List Nat → List UInt8
  | a :: b :: c :: d :: rest =>
      .ofNat (a * 4 + b / 16) :: .ofNat (b % 16 * 16 + c / 4)
        :: .ofNat (c % 4 * 64 + d) :: bytesOf rest
  | [a, b, c] => [.ofNat (a * 4 + b / 16), .ofNat (b % 16 * 16 + c / 4)]
  | [a, b] => [.ofNat (a * 4 + b / 16)]
  | _ => []

/-- The bytes that a text stands for. -/
def decode? (cs : List Char) : Option (List UInt8) :=
  (sextets? 0 0 cs).map bytesOf

end PiecewiseCubic.Text.Base64
