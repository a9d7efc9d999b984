import PostfixCalc.Decimal
import PostfixCalc.Text.Character

/-!
# Decimal numerals

A numeral is scanned into its four fields: sign, whole part, fraction and
exponent.  Scanning takes each field as far as it goes, so that a numeral is
well formed when nothing is left over and the fields it needs are there.

The spellings of literals are also stated without a scanner, as a grammar.  Digits may
come from any script and may be mixed; signs, point, exponent mark and suffix are ASCII.
-/

namespace PostfixCalc

/-- The fields of a decimal numeral.  A fraction is present when there is a point,
and an exponent when its mark is followed by digits. -/
structure Numeral where
  negative : Bool
  whole : List Nat
  fraction? : Option (List Nat)
  exponent? : Option (Bool × List Nat)
  deriving DecidableEq, Repr

namespace Numeral

/-- An optional sign, and what follows it. -/
def scanSign : List Char → Bool × List Char
  | [] => (false, [])
  | c :: cs => if c = '-' then (true, cs) else if c = '+' then (false, cs) else (false, c :: cs)

/-- An optional fraction, and what follows it. -/
def scanFraction (digit? : Char → Option Nat) : List Char → Option (List Nat) × List Char
  | [] => (none, [])
  | c :: cs =>
    if c = '.' then (some (spanDigits digit? cs).1, (spanDigits digit? cs).2)
    else (none, c :: cs)

/-- An optional exponent, and what follows it.  A mark without digits is no
exponent. -/
def scanExponent (digit? : Char → Option Nat) :
    List Char → Option (Bool × List Nat) × List Char
  | [] => (none, [])
  | c :: cs =>
    if c = 'e' ∨ c = 'E' then
      let sign := scanSign cs
      let run := spanDigits digit? sign.2
      if run.1.isEmpty then (none, c :: cs) else (some (sign.1, run.1), run.2)
    else (none, c :: cs)

/-- The fields of a numeral, and what follows it. -/
def scan (digit? : Char → Option Nat) (cs : List Char) : Numeral × List Char :=
  let sign := scanSign cs
  let whole := spanDigits digit? sign.2
  let fraction := scanFraction digit? whole.2
  let exponent := scanExponent digit? fraction.2
  (⟨sign.1, whole.1, fraction.1, exponent.1⟩, exponent.2)

/-- Digits alone, and at least one of them. -/
def isInteger (x : Numeral) : Bool :=
  !x.whole.isEmpty && x.fraction?.isNone && x.exponent?.isNone

/-- A point with digits on at least one side, or digits and an exponent. -/
def isReal (x : Numeral) : Bool :=
  match x.fraction? with
  | some fraction => !x.whole.isEmpty || !fraction.isEmpty
  | none => !x.whole.isEmpty && x.exponent?.isSome

def integer (x : Numeral) : Int :=
  Binary.signed x.negative (ofDigits x.whole)

def exponent (x : Numeral) : Int :=
  match x.exponent? with
  | some (negative, ds) => Binary.signed negative (ofDigits ds)
  | none => 0

def decimal (x : Numeral) : Decimal :=
  let fraction := x.fraction?.getD []
  { coefficient := ofDigits (x.whole ++ fraction)
    exponent := x.exponent - fraction.length }

def nearest (F : Format) (x : Numeral) : Binary F :=
  Binary.ofDecimal F x.negative x.decimal

end Numeral

/-- The double that a list of characters spells: a numeral, `inf`, `infinity` or
`nan`, with an optional sign and any case. -/
def spelledDouble? (cs : List Char) : Option Double :=
  let (x, rest) := Numeral.scan digitValue? cs
  if rest.isEmpty && (x.isInteger || x.isReal) then some (x.nearest .double)
  else
    let (negative, name) := Numeral.scanSign cs
    match String.ofList (name.map Char.toLower) with
    | "inf" | "infinity" => some (.infinite negative)
    | "nan" => some .nan
    | _ => none

/-- The double that a text spells, with white space around it and digits that may be
grouped. -/
def readDouble? (text : String) : Option Double :=
  (ungroup? false (trimBy isMargin text.toList)).bind spelledDouble?

/-! ## Grammar -/

namespace Grammar

/-- The characters spell these digits. -/
inductive Digits : List Char → List Nat → Prop where
  | nil : Digits [] []
  | cons {c : Char} {d : Nat} {cs : List Char} {ds : List Nat} :
      digitValue? c = some d → Digits cs ds → Digits (c :: cs) (d :: ds)

inductive Sign : List Char → Bool → Prop where
  | absent : Sign [] false
  | plus : Sign ['+'] false
  | minus : Sign ['-'] true

/-- A sign and at least one digit. -/
inductive SignedDigits : List Char → Bool → List Nat → Prop where
  | mk {sign cs : List Char} {negative : Bool} {ds : List Nat} :
      Sign sign negative → Digits cs ds → ds ≠ [] → SignedDigits (sign ++ cs) negative ds

/-- An exponent mark and a signed exponent. -/
inductive Exponent : List Char → Bool → List Nat → Prop where
  | mk {mark : Char} {cs : List Char} {negative : Bool} {ds : List Nat} :
      mark = 'e' ∨ mark = 'E' → SignedDigits cs negative ds →
      Exponent (mark :: cs) negative ds

inductive OptionalExponent : List Char → Option (Bool × List Nat) → Prop where
  | absent : OptionalExponent [] none
  | present {cs : List Char} {negative : Bool} {ds : List Nat} :
      Exponent cs negative ds → OptionalExponent cs (some (negative, ds))

/-- Spellings of reals: digits around a point, at least one of them, with an optional
exponent, or digits with an exponent. -/
inductive Real : List Char → Bool → List Nat → List Nat → Option (Bool × List Nat) → Prop where
  | pointed {sign ws fs es : List Char} {negative : Bool} {whole fraction : List Nat}
      {exponent? : Option (Bool × List Nat)} :
      Sign sign negative → Digits ws whole → Digits fs fraction →
      whole ≠ [] ∨ fraction ≠ [] → OptionalExponent es exponent? →
      Real (sign ++ ws ++ '.' :: fs ++ es) negative whole fraction exponent?
  | unpointed {sign ws es : List Char} {negative : Bool} {whole : List Nat}
      {exponent : Bool × List Nat} :
      Sign sign negative → Digits ws whole → whole ≠ [] →
      Exponent es exponent.1 exponent.2 →
      Real (sign ++ ws ++ es) negative whole [] (some exponent)

end Grammar

end PostfixCalc
