/-!
# Binary floating-point formats

A format is given by the widths of its fraction and exponent fields.  Its
non-negative finite numbers are numbered in increasing order, from zero on; the
position of a number in this order is its rank.  Every finite number is an
integer multiple of one unit, the least positive number of the format, so exact
values are integers and no rational numbers are needed.

The rank is also the integer spelled by the exponent and fraction fields of the
interchange encoding, which is why rounding up past the last significand of a
binade needs no special case.

Rounding is to nearest, ties to even.  An exact non-negative value is given as a
quotient of natural numbers.  Its place among the numbers of a format is found in two
steps: the binade fixes how many low bits of the quotient are dropped, and the
shortened quotient is rounded to the nearest integer.  Since ranks are consecutive
across binades, adding the rounded quotient to the start of the binade gives the rank
of the result.
-/

namespace PostfixCalc

/-- Widths of the two magnitude fields of a binary interchange format. -/
structure Format where
  fractionBits : Nat
  exponentBits : Nat
  deriving DecidableEq, Repr

namespace Format

def single : Format := ⟨23, 8⟩

def double : Format := ⟨52, 11⟩

/-- Number of non-negative finite numbers; the rank of infinity. -/
def bound (F : Format) : Nat :=
  (Nat.pow 2 F.exponentBits - 1) * Nat.pow 2 F.fractionBits

/-- The unit of the format is `2 ^ (-unitBits)`. -/
def unitBits (F : Format) : Nat :=
  Nat.pow 2 (F.exponentBits - 1) - 2 + F.fractionBits

/-- Binary exponent, counted in units, of the number at a rank. -/
def shift (F : Format) (rank : Nat) : Nat :=
  rank / Nat.pow 2 F.fractionBits - 1

def significand (F : Format) (rank : Nat) : Nat :=
  if rank < Nat.pow 2 F.fractionBits then rank
  else Nat.pow 2 F.fractionBits + rank % Nat.pow 2 F.fractionBits

/-- Exact value, in units, of the number at a rank. -/
def units (F : Format) (rank : Nat) : Nat :=
  F.significand rank * Nat.pow 2 (F.shift rank)

end Format

/-- A number of a binary format.  There is one not-a-number, and zero has two
signs. -/
inductive Binary (F : Format) where
  | nan
  | infinite (negative : Bool)
  | finite (negative : Bool) (rank : Fin F.bound)
  deriving DecidableEq

abbrev Single := Binary Format.single

abbrev Double := Binary Format.double

namespace Binary

variable {F : Format}

/-- The number at a signed rank; ranks past the last finite one are infinite. -/
def ofRank (F : Format) (negative : Bool) (rank : Nat) : Binary F :=
  if h : rank < F.bound then finite negative ⟨rank, h⟩ else infinite negative

def zero (F : Format) (negative : Bool) : Binary F :=
  ofRank F negative 0

instance : Inhabited (Binary F) := ⟨nan⟩

def isFinite : Binary F → Bool
  | finite _ _ => true
  | _ => false

def signed (negative : Bool) (magnitude : Nat) : Int :=
  if negative then -(magnitude : Int) else magnitude

/-- Place in the numerical order: both zeros at `0`, infinities at both ends.
Not-a-number has no place. -/
def place? : Binary F → Option Int
  | nan => none
  | infinite s => some (signed s F.bound)
  | finite s r => some (signed s r)

/-- Both numbers have a place, and the places stand in the given relation. -/
def compareBy (rel : Int → Int → Bool) (x y : Binary F) : Bool :=
  match x.place?, y.place? with
  | some a, some b => rel a b
  | _, _ => false

/-- Numerically equal.  Zeros of both signs are equal, and not-a-number is
different from every number, itself included. -/
def numEq (x y : Binary F) : Bool := compareBy (· == ·) x y

/-- The interchange encoding, with one fixed encoding of not-a-number. -/
def toBits : Binary F → Nat
  | nan => F.bound + Nat.pow 2 (F.fractionBits - 1)
  | infinite s => encode s F.bound
  | finite s r => encode s r
where
  encode (negative : Bool) (magnitude : Nat) : Nat :=
    (if negative then Nat.pow 2 (F.exponentBits + F.fractionBits) else 0) + magnitude

/-- The number with the given interchange encoding. -/
def ofBits (F : Format) (bits : Nat) : Binary F :=
  let sign := Nat.pow 2 (F.exponentBits + F.fractionBits)
  let magnitude := bits % sign
  if magnitude ≤ F.bound then ofRank F (bits / sign % 2 == 1) magnitude else nan

end Binary

/-- The integer nearest to `n / d`; of two equally near ones the even one. -/
def roundQuotient (n d : Nat) : Nat :=
  let q := n / d
  let r := n % d
  if 2 * r < d then q
  else if d < 2 * r then q + 1
  else if q % 2 = 0 then q else q + 1

namespace Format

/-- Number of low bits of a value `n / d`, in units, that its binade has no room
for. -/
def droppedBits (F : Format) (n d : Nat) : Nat :=
  (n / d).log2 - F.fractionBits

/-- Rank nearest to the value `n / d`, given in units.  Ranks from `F.bound` on
stand for values that are too large for the format. -/
def nearestRank (F : Format) (n d : Nat) : Nat :=
  let s := F.droppedBits n d
  s * Nat.pow 2 F.fractionBits + roundQuotient n (d * Nat.pow 2 s)

end Format

namespace Binary

variable (F : Format)

/-- The number nearest to the value `n / d`, given in units. -/
def ofUnits (negative : Bool) (n d : Nat) : Binary F :=
  ofRank F negative (F.nearestRank n d)

def ofQuotient (negative : Bool) (n d : Nat) : Binary F :=
  ofUnits F negative (n * Nat.pow 2 F.unitBits) d

def ofInt (n : Int) : Binary F :=
  ofQuotient F (n < 0) n.natAbs 1

end Binary

/-- Dividing by a positive number leaves a remainder that is less than half, half,
or more than half of it; `roundQuotient` is off by at most half. -/
theorem two_mul_roundQuotient_bounds (n d : Nat) (hd : 0 < d) :
    2 * n ≤ 2 * (roundQuotient n d * d) + d ∧
      2 * (roundQuotient n d * d) ≤ 2 * n + d := by
  have hn := Nat.div_add_mod n d
  have hr := Nat.mod_lt n hd
  have hc : n / d * d = d * (n / d) := Nat.mul_comm _ _
  have hs : (n / d + 1) * d = d * (n / d) + d := by rw [Nat.add_mul, Nat.one_mul, hc]
  unfold roundQuotient
  dsimp only
  split
  · omega
  · split
    · omega
    · split <;> omega

end PostfixCalc
