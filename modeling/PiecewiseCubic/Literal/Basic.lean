import PiecewiseCubic.Decimal.Double
import PiecewiseCubic.Literal.Moment

/-! # Literals — option values before their meaning is known

    An option may be given as any literal: nothing, a truth value, a number,
    a text, bytes, a moment, a list, a pair, a set or a record.  Two literals
    are the same if they denote the same value; truth values count as the
    numbers zero and one. -/

namespace PiecewiseCubic

/-- A value as it is written in a request or a settings file. -/
inductive Literal where
  | null
  | bool (b : Bool)
  | int (n : Int)
  | real (x : Float)
  | text (s : String)
  | bytes (bs : List UInt8)
  | moment (m : Moment)
  | list (items : List Literal)
  | pair (first second : Literal)
  /-- Different literals, whose order does not matter. -/
  | set (items : List Literal)
  /-- Keys with their values, in the order in which they were written. -/
  | record (entries : List (Literal × Literal))
  /-- A list or record around this place. -/
  | enclosing (isRecord : Bool)
  deriving Inhabited

namespace Literal

/-- The integer that a double equals, if there is one. -/
def integerOf? (x : Float) : Option Int :=
  match Double.magnitude x with
  | .finite m e =>
      let (num, den) := Decimal.fraction m e
      if num % den = 0 then
        let n : Int := (num / den : Nat)
        some (if Double.isNegative x then -n else n)
      else none
  | _ => none

/-- The integer that a literal equals as a number. -/
def toInt? : Literal → Option Int
  | .bool b => some (if b then 1 else 0)
  | .int n => some n
  | .real x => integerOf? x
  | _ => none

/-- Whether two literals without parts denote the same value. -/
def sameAtom : Literal → Literal → Bool
  | .null, .null => true
  | .text s, .text t => s == t
  | .bytes b, .bytes c => b == c
  | .moment m, .moment n => m == n
  | .real x, .real y => x == y
  | a, b =>
      match a.toInt?, b.toInt? with
      | some m, some n => m == n
      | _, _ => false

mutual

/-- Whether two literals denote the same value. -/
def same : Literal → Literal → Bool
  | .list xs, .list ys => sameItems xs ys
  | .pair x y, .pair x' y' => same x x' && same y y'
  | .set xs, .set ys => xs.length == ys.length && sameMembers xs ys
  | .record es, .record fs =>
      es.length == fs.length && sameEntries es fs
  | .list _, _ => false
  | .pair _ _, _ => false
  | .set _, _ => false
  | .record _, _ => false
  | a, b => sameAtom a b

/-- Whether two lists have the same items in the same order. -/
def sameItems : List Literal → List Literal → Bool
  | [], [] => true
  | x :: xs, y :: ys => same x y && sameItems xs ys
  | _, _ => false

/-- Whether each literal is found in the second list. -/
def sameMembers : List Literal → List Literal → Bool
  | [], _ => true
  | x :: xs, ys => ys.any (fun y => same x y) && sameMembers xs ys

/-- Whether each key is found, with the same value, in the second list. -/
def sameEntries : List (Literal × Literal) → List (Literal × Literal) → Bool
  | [], _ => true
  | (k, v) :: es, fs =>
      fs.any (fun f => same k f.1 && same v f.2) && sameEntries es fs

end

instance : BEq Literal := ⟨same⟩

/-- Whether a literal counts as true: all do but nothing, zero and what is
    empty. -/
def isTruthy : Literal → Bool
  | .null => false
  | .bool b => b
  | .int n => n != 0
  | .real x => !(x == 0)
  | .text s => !s.isEmpty
  | .bytes bs => !bs.isEmpty
  | .moment _ => true
  | .list xs => !xs.isEmpty
  | .pair _ _ => true
  | .set xs => !xs.isEmpty
  | .record es => !es.isEmpty
  | .enclosing _ => true

/-- What a literal consists of: its items, the characters of a text, the
    bytes as numbers or the keys of a record. -/
def items? : Literal → Option (List Literal)
  | .list xs => some xs
  | .text s => some (s.toList.map fun c => .text c.toString)
  | .bytes bs => some (bs.map fun b => .int b.toNat)
  | .pair x y => some [x, y]
  | .set xs => some xs
  | .record es => some (es.map Prod.fst)
  | _ => none

/-- Sets a key to a value, in place if the key is there and at the end if it
    is new. -/
def insertEntry (k v : Literal) :
    List (Literal × Literal) → List (Literal × Literal)
  | [] => [(k, v)]
  | e :: es => if e.1 == k then (e.1, v) :: es else e :: insertEntry k v es

end Literal

end PiecewiseCubic
