import Custody.Bytes

/-!
# The twisted Edwards curve of Ed25519

Points of `-x² + y² = 1 + d x² y²` over the field of `2 ^ 255 - 19` elements. Coordinates are
natural numbers below the field order; a point is kept as `(x : y : z)` with `t = x y / z`, so that
addition needs no division, and the one addition formula holds for all pairs of points.
-/

namespace Custody.Ed25519

/-- The number of field elements. -/
def fieldOrder : Nat := Nat.pow 2 255 - 19

namespace Field

/-- Product in the field. -/
def mul (a b : Nat) : Nat := a * b % fieldOrder

/-- Sum in the field. -/
def add (a b : Nat) : Nat := (a + b) % fieldOrder

/-- Difference in the field, of elements below the field order. -/
def sub (a b : Nat) : Nat := (a + fieldOrder - b) % fieldOrder

/-- Power, by the low `bits` bits of the exponent from the highest down. -/
def powBits (base exponent : Nat) : Nat → Nat → Nat
  | 0, acc => acc
  | bits + 1, acc =>
    let square := mul acc acc
    powBits base exponent bits (if exponent.testBit bits then mul square base else square)

/-- Power with an exponent below `2 ^ 255`. -/
def pow (base exponent : Nat) : Nat := powBits base exponent 255 1

/-- The inverse of an element other than zero, and zero for zero. -/
def inv (a : Nat) : Nat := pow a (fieldOrder - 2)

/-- A square root of minus one. -/
def rootOfMinusOne : Nat :=
  19681161376707505956807079304988542015446066515923890162744021073123829784752

/-- The even square root of `u / v`, if there is one. -/
def evenRoot? (u v : Nat) : Option Nat :=
  let v3 := mul (mul v v) v
  let v7 := mul (mul v3 v3) v
  let candidate := mul (mul u v3) (pow (mul u v7) ((fieldOrder - 5) / 8))
  let check := mul v (mul candidate candidate)
  let even (x : Nat) : Nat := if x % 2 = 1 then fieldOrder - x else x
  if check = u % fieldOrder then some (even candidate)
  else if check = sub 0 (u % fieldOrder) then some (even (mul candidate rootOfMinusOne))
  else none

end Field

/-- The constant of the curve equation, `-121665 / 121666`. -/
def curveConstant : Nat :=
  37095705934669439343138083508754565189542113879843219016388785533085940283555

/-- Twice the constant of the curve equation. -/
def twiceCurveConstant : Nat :=
  16295367250680780974490674513165176452449235426866156013048779062215315747161

/-- A curve point in extended coordinates. -/
structure Point where
  x : Nat
  y : Nat
  z : Nat
  t : Nat
deriving DecidableEq

namespace Point

open Ed25519.Field

/-- The neutral point `(0, 1)`. -/
def zero : Point := ⟨0, 1, 1, 0⟩

/-- The base point: `y = 4 / 5` and even `x`. -/
def base : Point :=
  ⟨15112221349535400772501151409588531511454012693041857206046113283949847762202,
   46316835694926478169428394003475163141307993866256225615783033603165251855960,
   1,
   46827403850823179245072216630277197565144205554125654976674165829533817101731⟩

/-- The sum of two points. -/
def add (p q : Point) : Point :=
  let a := mul (sub p.y p.x) (sub q.y q.x)
  let b := mul (p.y + p.x) (q.y + q.x)
  let c := mul (mul p.t q.t) twiceCurveConstant
  let d := mul (2 * p.z) q.z
  let e := sub b a
  let f := sub d c
  let g := d + c
  let h := b + a
  ⟨mul e f, mul g h, mul f g, mul e h⟩

/-- The sum of a point with itself. -/
def double (p : Point) : Point :=
  let a := mul p.x p.x
  let b := mul p.y p.y
  let c := mul (2 * p.z) p.z
  let h := a + b
  let e := sub (Field.add a b) (mul (p.x + p.y) (p.x + p.y))
  let g := sub a b
  let f := c + g
  ⟨mul e f, mul g h, mul f g, mul e h⟩

/-- The point with the opposite `x`. -/
def neg (p : Point) : Point := ⟨sub 0 p.x, p.y, p.z, sub 0 p.t⟩

/-- Adds `m p + n q` to `2 ^ bits` times the accumulator, where `m` and `n` are read from bit
`bits - 1` down and `sum` is `p + q`. -/
def combineBits (m : Nat) (p : Point) (n : Nat) (q sum : Point) : Nat → Point → Point
  | 0, acc => acc
  | bits + 1, acc =>
    let twice := double acc
    let next :=
      match m.testBit bits, n.testBit bits with
      | true, true => add twice sum
      | true, false => add twice p
      | false, true => add twice q
      | false, false => twice
    combineBits m p n q sum bits next

/-- `m p + n q` for multipliers below `2 ^ 255`. -/
def combine (m : Nat) (p : Point) (n : Nat) (q : Point) : Point :=
  combineBits m p n q (add p q) 255 zero

/-- A multiple of the base point, for multipliers below `2 ^ 255`. -/
def baseMultiple (n : Nat) : Point := combine n base 0 zero

/-- The `y` coordinate in 255 bits, then one bit for the parity of `x`. -/
def encode (p : Point) : Block 32 :=
  let w := inv p.z
  let x := mul p.x w
  let y := mul p.y w
  Block.ofNatLE 32 (y + (x % 2) * Nat.pow 2 255)

/-- The point with the given encoding. The 255 bits of `y` need not be below the field order, and
the parity bit is ignored where `x` is zero. -/
def decode? (block : Block 32) : Option Point :=
  let n := block.toNatLE
  let y := n % Nat.pow 2 255 % fieldOrder
  let ySquare := mul y y
  (evenRoot? (sub ySquare 1) (Field.add (mul curveConstant ySquare) 1)).map fun root ↦
    let x := if n.testBit 255 then sub 0 root else root
    ⟨x, y, 1, mul x y⟩

end Point

end Custody.Ed25519
