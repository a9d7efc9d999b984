import PostfixCalc.Binary

/-!
# Decimals

Digits are numbers below ten, most significant first.  The digit list of a
natural number has no leading zero, apart from the single digit of zero, and
`ofDigits` reads it back.

A decimal is an integer coefficient times a power of ten.  Its nearest number in
a format is found by one exact division.  Powers of ten far outside the range of
the format are settled by their size alone, so that an exponent of any length
can be read.

A number is written with the digits of the shortest decimal that is nearest to no other
number, either positionally (`0.001`, `1500.0`) or with an exponent (`1e-05`,
`1.5e+16`).  Both formats share these two spellings; they differ only in where one gives
way to the other.
-/

namespace PostfixCalc

/-- Digits of a natural number, most significant first. -/
def decimalDigits (n : Nat) : List Nat :=
  if n < 10 then [n] else decimalDigits (n / 10) ++ [n % 10]
termination_by n
decreasing_by omega

/-- The number that a list of digits spells; leading zeros do not matter. -/
def ofDigits (ds : List Nat) : Nat :=
  ds.foldl (fun acc d => 10 * acc + d) 0

def digitChar (d : Nat) : Char := Char.ofNat (48 + d)

def natChars (n : Nat) : List Char := (decimalDigits n).map digitChar

def intChars (n : Int) : List Char :=
  if n < 0 then '-' :: natChars n.natAbs else natChars n.natAbs

def natText (n : Nat) : String := String.ofList (natChars n)

def intText (n : Int) : String := String.ofList (intChars n)

/-- Longest integer that is read or written, counted in digits. -/
def integerDigitLimit : Nat := 4300

theorem ofDigits_append_singleton (ds : List Nat) (d : Nat) :
    ofDigits (ds ++ [d]) = 10 * ofDigits ds + d := by
  simp [ofDigits]

theorem ofDigits_decimalDigits (n : Nat) : ofDigits (decimalDigits n) = n := by
  induction n using Nat.strongRecOn with
  | ind n ih =>
    rw [decimalDigits]
    split
    · simp [ofDigits]
    · rw [ofDigits_append_singleton, ih (n / 10) (by omega)]
      omega

theorem decimalDigits_lt_ten (n : Nat) : ∀ d ∈ decimalDigits n, d < 10 := by
  induction n using Nat.strongRecOn with
  | ind n ih =>
    rw [decimalDigits]
    split
    · simpa
    · intro d hd
      rcases List.mem_append.mp hd with hd | hd
      · exact ih (n / 10) (by omega) d hd
      · have : d = n % 10 := by simpa using hd
        omega

theorem decimalDigits_ne_nil (n : Nat) : decimalDigits n ≠ [] := by
  rw [decimalDigits]
  split <;> simp

/-- The decimal `coefficient * 10 ^ exponent`. -/
structure Decimal where
  coefficient : Nat
  exponent : Int
  deriving DecidableEq, Repr

namespace Decimal

/-- Numerator of the decimal times a natural number. -/
def numerator (d : Decimal) (scale : Nat) : Nat :=
  d.coefficient * Nat.pow 10 d.exponent.toNat * scale

def denominator (d : Decimal) : Nat :=
  Nat.pow 10 (-d.exponent).toNat

/-- Exponent of the least power of ten that bounds a nonzero decimal from
above. -/
def top (d : Decimal) : Int :=
  d.exponent + (decimalDigits d.coefficient).length

end Decimal

def Format.rankOfDecimal (F : Format) (d : Decimal) : Nat :=
  F.nearestRank (d.numerator (Nat.pow 2 F.unitBits)) d.denominator

/-- The number nearest to a decimal of the given sign. -/
def Binary.ofDecimal (F : Format) (negative : Bool) (d : Decimal) : Binary F :=
  if d.coefficient = 0 then zero F negative
  else if F.unitBits + 1 < d.top then infinite negative
  else if d.top < -F.unitBits then zero F negative
  else ofRank F negative (F.rankOfDecimal d)

namespace Format

variable (F : Format)

/-- Exponent `k` of the power of ten with `10 ^ k ≤ n / d < 10 ^ (k + 1)`, for
positive `n`. -/
def decimalOrder (n d : Nat) : Int :=
  if d ≤ n then ((decimalDigits (n / d)).length : Int) - 1
  else -((decimalDigits ((d - 1) / n)).length : Int)

/-- A decimal reads back as the number at a rank. -/
def readsBack (rank : Nat) (d : Decimal) : Bool :=
  F.rankOfDecimal d == rank

/-- The neighbours of `n / d` among the multiples of `10 ^ exponent`, the nearer
one first. -/
def gridNeighbours (n d : Nat) (exponent : Int) : List Decimal :=
  let p := n * Nat.pow 10 (-exponent).toNat
  let q := d * Nat.pow 10 exponent.toNat
  let nearer := roundQuotient p q
  let farther := if nearer = p / q then nearer + 1 else p / q
  [⟨nearer, exponent⟩, ⟨farther, exponent⟩]

/-- The exact decimal expansion of the number at a rank. -/
def exactDecimal (rank : Nat) : Decimal :=
  ⟨F.units rank * Nat.pow 5 F.unitBits, -F.unitBits⟩

/-- The shortest decimal of the number at a rank.  As many digits as there are
bits in the fraction always suffice, so the exact expansion is never needed. -/
def shortestDecimal (rank : Nat) : Decimal :=
  let n := F.units rank
  let d := Nat.pow 2 F.unitBits
  let order := decimalOrder n d
  let shortest? := (List.range (F.fractionBits + 1)).findSome? fun (places : Nat) =>
    (gridNeighbours n d (order - places)).find? (F.readsBack rank)
  shortest?.getD (F.exactDecimal rank)

end Format

/-- Significant digits, without trailing zeros, and the power of ten of the first
one. -/
structure Significant where
  digits : List Nat
  order : Int
  deriving DecidableEq, Repr

def Decimal.significant (d : Decimal) : Significant :=
  let ds := decimalDigits d.coefficient
  { digits := (ds.reverse.dropWhile (· == 0)).reverse
    order := d.exponent + ds.length - 1 }

namespace Significant

/-- Positional spelling, with at least one digit on each side of the point. -/
def positional (s : Significant) : List Char :=
  let ds := s.digits.map digitChar
  if s.order < 0 then
    '0' :: '.' :: (List.replicate (-s.order - 1).toNat '0' ++ ds)
  else
    let whole := s.order.toNat + 1
    let fraction := ds.drop whole
    ds.take whole ++ List.replicate (whole - ds.length) '0' ++ '.' ::
      (if fraction.isEmpty then ['0'] else fraction)

/-- An exponent has a sign and at least two digits. -/
def exponentChars (order : Int) : List Char :=
  let ds := natChars order.natAbs
  (if order < 0 then '-' else '+') ::
    (if ds.length < 2 then '0' :: ds else ds)

/-- Spelling with an exponent; a single digit has no point. -/
def scientific (s : Significant) : List Char :=
  match s.digits.map digitChar with
  | [] => []
  | [c] => c :: 'e' :: exponentChars s.order
  | c :: cs => c :: '.' :: (cs ++ 'e' :: exponentChars s.order)

end Significant

/-- Where the positional spelling of a format is used. -/
structure Layout (F : Format) where
  /-- Decides by the rank of the number and the order of its first digit. -/
  isPositional : Nat → Int → Bool

/-- Doubles are written positionally when the order of the first digit written is
from `-4` to `15`. -/
def Layout.double : Layout .double where
  isPositional _ order := -4 ≤ order && order < 16

/-- Singles are written positionally when their exact value is at least `10 ^ -4`
and less than `10 ^ 6`. -/
def Layout.single : Layout .single where
  isPositional rank _ :=
    let units := Format.single.units rank
    let one := Nat.pow 2 Format.single.unitBits
    one ≤ units * 10000 && units < 1000000 * one

namespace Binary

variable {F : Format}

/-- Written form of the magnitude at a rank. -/
def magnitudeChars (L : Layout F) (rank : Nat) : List Char :=
  if rank = 0 then ['0', '.', '0']
  else
    let s := (F.shortestDecimal rank).significant
    if L.isPositional rank s.order then s.positional else s.scientific

def signChars (negative : Bool) : List Char :=
  if negative then ['-'] else []

def writtenChars (L : Layout F) : Binary F → List Char
  | nan => ['n', 'a', 'n']
  | infinite s => signChars s ++ ['i', 'n', 'f']
  | finite s r => signChars s ++ magnitudeChars L r

end Binary

def doubleChars (x : Double) : List Char := x.writtenChars .double

def singleChars (x : Single) : List Char := x.writtenChars .single

end PostfixCalc
