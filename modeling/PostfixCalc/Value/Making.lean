import PostfixCalc.Decimal.Numeral
import PostfixCalc.Fault

/-!
# Plain data, and values made of it

Plain data that is not a calculator value can reach the calculator from outside, and
so can objects of which nothing is known but how they are written.  Writing can fail:
an integer of too many digits is not written.

A value of a type is made of plain data.  Integers must fit; numbers for the two
floating-point types pass through a double, so a single can be rounded twice.
Values are compared only with values of their own type.
-/

namespace PostfixCalc

/-- An integer in decimal, unless it has too many digits. -/
def integerText (n : Int) : Except Fault String :=
  if (decimalDigits n.natAbs).length ≤ integerDigitLimit then .ok (intText n)
  else .error .integerTooLong

inductive Datum where
  | integer (n : Int)
  | truth (b : Bool)
  | text (s : String)
  | number (x : Double)
  | nothing
  deriving DecidableEq

def Datum.fullText : Datum → Except Fault String
  | integer n => integerText n
  | truth b => .ok (if b then "True" else "False")
  | text s => .ok (quoted s)
  | number x => .ok (String.ofList (doubleChars x))
  | nothing => .ok "None"

/-- Anything that may be offered where a value is expected. -/
inductive Item where
  | value (v : Value)
  | datum (d : Datum)
  /-- Anything else, known by how it is written. -/
  | other (written : Except Fault String)

namespace Item

def fullText : Item → Except Fault String
  | value v => .ok v.fullText
  | datum d => d.fullText
  | other written => written

def hasType : Item → Ty → Bool
  | value v, t => v.hasType t
  | _, _ => false

def type? : Item → Except Fault Ty
  | value v => .ok v.type
  | item => .error (.telling .notAValue item.fullText)

end Item

namespace Value

def fits (n : Int) : Bool :=
  Int32.minValue.toInt ≤ n && n ≤ Int32.maxValue.toInt

/-- The integer value of an integer that fits. -/
def ofInt? (n : Int) : Except Fault Value :=
  if fits n then .ok (i32 (Int32.ofInt n))
  else .error (.telling .integerOutOfRange (integerText n))

def double? : Datum → Except Fault Double
  | .integer n =>
    let x := Binary.ofInt .double n
    if x.isFinite then .ok x else .error .integerTooLarge
  | .truth b => .ok (Binary.ofInt .double (if b then 1 else 0))
  | .text s =>
    match readDouble? s with
    | some x => .ok x
    | none => .error (.unreadableNumber s)
  | .number x => .ok x
  | .nothing => .error .missingNumber

def make : Ty → Datum → Except Fault Value
  | .i32, .integer n => ofInt? n
  | .i32, d => .error (.telling .notAnInteger d.fullText)
  | .f32, .nothing => .ok (f32 .nan)
  | .f32, d => (double? d).map fun x => f32 (x.convert .single)
  | .f64, d => (double? d).map f64

/-- The payload of a value as plain data: an integer, or a double for the other two
kinds. -/
def payload : Value → Datum
  | i32 n => .integer n.toInt
  | f32 x => .number (x.convert .double)
  | f64 x => .number x

/-- Equal as values: of one type and numerically equal. -/
def numEq : Value → Value → Bool
  | i32 a, i32 b => a == b
  | f32 x, f32 y => x.numEq y
  | f64 x, f64 y => x.numEq y
  | _, _ => false

/-- Order of two places on the number line. -/
def relate (r : Relation) (a b : Int) : Bool :=
  match r with
  | .less => a < b
  | .atMost => a ≤ b
  | .greater => b < a
  | .atLeast => b ≤ a

def compare (r : Relation) : Value → Value → Except Fault Bool
  | i32 a, i32 b => .ok (relate r a.toInt b.toInt)
  | f32 x, f32 y => .ok (Binary.compareBy (relate r) x y)
  | f64 x, f64 y => .ok (Binary.compareBy (relate r) x y)
  | v, w => .error (.incomparable r v.type w.type)

end Value

end PostfixCalc
