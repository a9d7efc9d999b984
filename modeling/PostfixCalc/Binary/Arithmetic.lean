import PostfixCalc.Binary

/-!
# Arithmetic of binary formats

Each operation computes its exact result over the integers and rounds once.  The
remaining cases are those of infinities, not-a-number and the sign of zero.

The quotient of two numbers, rounded down to an integer, is found from the exact
remainder of the division.  Taking the remainder off the dividend leaves a
multiple of the divisor, so that the division which follows misses an integer by
rounding errors only, and the nearest integer is the answer.  Quotients past the
precision of the format keep the errors of these steps.

Sine, exponential and their like are those of the machine's mathematical
library, reached through the interchange encoding.  Nothing else depends on
them: every other operation of the calculator is exact arithmetic followed by
one rounding.
-/

namespace PostfixCalc

/-- The greatest natural number whose square is at most `n`. -/
def floorSqrt (n : Nat) : Nat :=
  if n < 2 then n
  else
    let r := 2 * floorSqrt (n / 4)
    if (r + 1) * (r + 1) ≤ n then r + 1 else r
termination_by n
decreasing_by omega

namespace Binary

variable {F : Format}

def neg : Binary F → Binary F
  | nan => nan
  | infinite s => infinite !s
  | finite s r => finite (!s) r

def abs : Binary F → Binary F
  | nan => nan
  | infinite _ => infinite false
  | finite _ r => finite false r

/-- Exact value, in units, of a finite number. -/
def signedUnits (negative : Bool) (rank : Fin F.bound) : Int :=
  signed negative (F.units rank)

/-- Sum.  An exact zero is negative only if both terms are. -/
def add : Binary F → Binary F → Binary F
  | nan, _ => nan
  | _, nan => nan
  | infinite s, infinite t => if s = t then infinite s else nan
  | infinite s, finite _ _ => infinite s
  | finite _ _, infinite t => infinite t
  | finite s a, finite t b =>
    let sum := signedUnits s a + signedUnits t b
    if sum = 0 then zero F (s && t) else ofUnits F (sum < 0) sum.natAbs 1

def sub (x y : Binary F) : Binary F := add x y.neg

def mul : Binary F → Binary F → Binary F
  | nan, _ => nan
  | _, nan => nan
  | infinite s, infinite t => infinite (s != t)
  | infinite s, finite t b => if F.units b = 0 then nan else infinite (s != t)
  | finite s a, infinite t => if F.units a = 0 then nan else infinite (s != t)
  | finite s a, finite t b =>
    ofUnits F (s != t) (F.units a * F.units b) (Nat.pow 2 F.unitBits)

def div : Binary F → Binary F → Binary F
  | nan, _ => nan
  | _, nan => nan
  | infinite _, infinite _ => nan
  | infinite s, finite t _ => infinite (s != t)
  | finite s _, infinite t => zero F (s != t)
  | finite s a, finite t b =>
    if F.units b = 0 then
      if F.units a = 0 then nan else infinite (s != t)
    else ofQuotient F (s != t) (F.units a) (F.units b)

def one (F : Format) : Binary F := ofInt F 1

def recip (x : Binary F) : Binary F := div (one F) x

/-- Square root.  The root in units is the root of `units * 2 ^ unitBits`; when
that is not an integer, the midpoint of the two neighbouring integers lies on
the same side of every rounding boundary. -/
def sqrt : Binary F → Binary F
  | nan => nan
  | infinite s => if s then nan else infinite false
  | finite s a =>
    if F.units a = 0 then finite s a
    else if s then nan
    else
      let square := F.units a * Nat.pow 2 F.unitBits
      let root := floorSqrt square
      if root * root = square then ofUnits F false root 1
      else ofUnits F false (2 * root + 1) 2

/-- The number of another format nearest to a number. -/
def convert (G : Format) : Binary F → Binary G
  | nan => nan
  | infinite s => infinite s
  | finite s a => ofQuotient G s (F.units a) (Nat.pow 2 F.unitBits)

/-- Integer part of a finite number, toward zero. -/
def truncate? : Binary F → Option Int
  | finite s a => some (signed s (F.units a / Nat.pow 2 F.unitBits))
  | _ => none

def isBelowZero : Binary F → Bool
  | nan => false
  | infinite s => s
  | finite s a => s && F.units a != 0

def isZero : Binary F → Bool
  | finite _ a => F.units a == 0
  | _ => false

/-- The sign, which zeros and infinities have as well. -/
def isNegative : Binary F → Bool
  | nan => false
  | infinite s => s
  | finite s _ => s

/-- Remainder of the division toward zero.  It is exact and has the sign of the
dividend. -/
def remainder : Binary F → Binary F → Binary F
  | finite s a, finite _ b =>
    if F.units b = 0 then nan else ofUnits F s (F.units a % F.units b) 1
  | finite s a, infinite _ => finite s a
  | _, _ => nan

/-- The greatest integer that is at most the number. -/
def floor : Binary F → Binary F
  | nan => nan
  | infinite s => infinite s
  | finite s a =>
    let n := Int.fdiv (signedUnits s a) (Nat.pow 2 F.unitBits)
    if n = 0 then zero F s else ofInt F n

/-- The integer nearest to a number; of two equally near ones the lower. -/
def settle (x : Binary F) : Binary F :=
  if compareBy (· < ·) (ofQuotient F false 1 2) (x.sub x.floor) then x.floor.add (one F)
  else x.floor

/-- Quotient rounded down.  A zero has the sign of the exact quotient. -/
def floorDiv (x y : Binary F) : Binary F :=
  let r := x.remainder y
  let towardZero := (x.sub r).div y
  let q :=
    if r.isZero || r.isBelowZero == y.isBelowZero then towardZero
    else towardZero.sub (one F)
  if q.isZero then zero F (x.isNegative != y.isNegative) else q.settle

def throughFloat (f : Float → Float) (x : Double) : Double :=
  ofBits .double (f (Float.ofBits (.ofNat x.toBits))).toBits.toNat

def throughFloat₂ (f : Float → Float → Float) (x y : Double) : Double :=
  ofBits .double
    (f (Float.ofBits (.ofNat x.toBits)) (Float.ofBits (.ofNat y.toBits))).toBits.toNat

def throughFloat32 (f : Float32 → Float32) (x : Single) : Single :=
  ofBits .single (f (Float32.ofBits (.ofNat x.toBits))).toBits.toNat

def throughFloat32₂ (f : Float32 → Float32 → Float32) (x y : Single) : Single :=
  ofBits .single
    (f (Float32.ofBits (.ofNat x.toBits)) (Float32.ofBits (.ofNat y.toBits))).toBits.toNat

end Binary

/-- The functions that are taken from the mathematical library. -/
inductive Elementary where
  | sine
  | cosine
  | tangent
  | exponential
  | logarithm
  deriving DecidableEq, Repr

namespace Elementary

def name : Elementary → String
  | sine => "sin"
  | cosine => "cos"
  | tangent => "tan"
  | exponential => "exp"
  | logarithm => "log"

def onDouble : Elementary → Double → Double
  | sine => Binary.throughFloat Float.sin
  | cosine => Binary.throughFloat Float.cos
  | tangent => Binary.throughFloat Float.tan
  | exponential => Binary.throughFloat Float.exp
  | logarithm => Binary.throughFloat Float.log

def onSingle : Elementary → Single → Single
  | sine => Binary.throughFloat32 Float32.sin
  | cosine => Binary.throughFloat32 Float32.cos
  | tangent => Binary.throughFloat32 Float32.tan
  | exponential => Binary.throughFloat32 Float32.exp
  | logarithm => Binary.throughFloat32 Float32.log

end Elementary

namespace Binary

def powDouble : Double → Double → Double := throughFloat₂ Float.pow

def powSingle : Single → Single → Single := throughFloat32₂ Float32.pow

end Binary

end PostfixCalc
