import PostfixCalc.Binary.Arithmetic
import PostfixCalc.Function

/-!
# Numeric operations

An operation works on values of every type.  Integers of 32 bits wrap, singles
and doubles are rounded to their own format, and arguments of two different
types are first turned into doubles, as are integers where the operation has no
integer result.  An operation becomes an implementation when the type of its
output is fixed: its result is then converted to that type.
-/

namespace PostfixCalc

namespace Value

def toDouble : Value → Double
  | i32 n => Binary.ofInt .double n.toInt
  | f32 x => x.convert .double
  | f64 x => x

def toSingle : Value → Single
  | i32 n => Binary.ofInt .single n.toInt
  | f32 x => x
  | f64 x => x.convert .single

/-- Integer part of a number, toward zero.  What does not fit in 32 bits becomes
the least integer. -/
def truncated {F : Format} (x : Binary F) : Int32 :=
  match x.truncate? with
  | some n => if fits n then Int32.ofInt n else Int32.minValue
  | none => Int32.minValue

def toInt32 : Value → Int32
  | i32 n => n
  | f32 x => truncated x
  | f64 x => truncated x

/-- The value of a type that is nearest to a value, for numbers, or its integer
part. -/
def convertTo (t : Ty) (v : Value) : Value :=
  match t with
  | .i32 => i32 v.toInt32
  | .f32 => f32 v.toSingle
  | .f64 => f64 v.toDouble

end Value

inductive UnaryOperation where
  | increment
  | decrement
  | negate
  | absolute
  | elementary (e : Elementary)
  | squareRoot
  | reciprocal
  | keep
  deriving DecidableEq, Repr

namespace UnaryOperation

def calling : UnaryOperation → Calling
  | increment => ⟨"_increment", 1, false⟩
  | decrement => ⟨"_decrement", 1, false⟩
  | negate => ⟨"negative", 1, true⟩
  | absolute => ⟨"absolute", 1, true⟩
  | elementary e => ⟨e.name, 1, true⟩
  | squareRoot => ⟨"sqrt", 1, true⟩
  | reciprocal => ⟨"reciprocal", 1, true⟩
  | keep => ⟨"_identity", 1, false⟩

/-- Reciprocal of an integer, toward zero; that of zero is out of range. -/
def integerReciprocal (n : Int32) : Int32 :=
  if n = 0 then Int32.minValue else Int32.ofInt (Int.tdiv 1 n.toInt)

def onInt32 (op : UnaryOperation) (n : Int32) : Value :=
  match op with
  | increment => .i32 (n + 1)
  | decrement => .i32 (n - 1)
  | negate => .i32 (-n)
  | absolute => .i32 (if n < 0 then -n else n)
  | elementary e => .f64 (e.onDouble (Binary.ofInt .double n.toInt))
  | squareRoot => .f64 (Binary.sqrt (Binary.ofInt .double n.toInt))
  | reciprocal => .i32 (integerReciprocal n)
  | keep => .i32 n

/-- Result at a number, given how elementary functions work in its format. -/
def onBinary {F : Format} (elementaryOn : Elementary → Binary F → Binary F)
    (op : UnaryOperation) (x : Binary F) : Binary F :=
  match op with
  | increment => x.add (Binary.one F)
  | decrement => x.sub (Binary.one F)
  | negate => x.neg
  | absolute => x.abs
  | elementary e => elementaryOn e x
  | squareRoot => x.sqrt
  | reciprocal => x.recip
  | keep => x

def run (op : UnaryOperation) : Value → Value
  | .i32 n => op.onInt32 n
  | .f32 x => .f32 (op.onBinary Elementary.onSingle x)
  | .f64 x => .f64 (op.onBinary Elementary.onDouble x)

end UnaryOperation

inductive BinaryOperation where
  | add
  | subtract
  | multiply
  | divide
  | power
  deriving DecidableEq, Repr

namespace BinaryOperation

def calling : BinaryOperation → Calling
  | add => ⟨"add", 2, true⟩
  | subtract => ⟨"subtract", 2, true⟩
  | multiply => ⟨"multiply", 2, true⟩
  | divide => ⟨"divide", 2, true⟩
  | power => ⟨"power", 2, true⟩

/-- Power of an integer, wrapping, by repeated squaring. -/
def integerPower (base : Int32) (exponent : Nat) : Int32 :=
  if exponent = 0 then 1
  else
    let half := integerPower (base * base) (exponent / 2)
    if exponent % 2 = 0 then half else half * base
termination_by exponent
decreasing_by omega

def onInt32 (op : BinaryOperation) (m n : Int32) : Except Fault Value :=
  match op with
  | add => .ok (.i32 (m + n))
  | subtract => .ok (.i32 (m - n))
  | multiply => .ok (.i32 (m * n))
  | divide =>
    .ok (.f64 (Binary.div (Binary.ofInt .double m.toInt) (Binary.ofInt .double n.toInt)))
  | power =>
    if n < 0 then .error .negativePower
    else .ok (.i32 (integerPower m n.toInt.toNat))

/-- Result at two numbers, given how powers work in their format. -/
def onBinary {F : Format} (powerOn : Binary F → Binary F → Binary F)
    (op : BinaryOperation) (x y : Binary F) : Binary F :=
  match op with
  | add => x.add y
  | subtract => x.sub y
  | multiply => x.mul y
  | divide => x.div y
  | power => powerOn x y

def run (op : BinaryOperation) : Value → Value → Except Fault Value
  | .i32 m, .i32 n => op.onInt32 m n
  | .f32 x, .f32 y => .ok (.f32 (op.onBinary Binary.powSingle x y))
  | v, w => .ok (.f64 (op.onBinary Binary.powDouble v.toDouble w.toDouble))

end BinaryOperation

inductive Operation where
  | unary (op : UnaryOperation)
  | binary (op : BinaryOperation)
  deriving DecidableEq, Repr

namespace Operation

def calling : Operation → Calling
  | unary op => op.calling
  | binary op => op.calling

def run : Operation → List Value → Except Fault Value
  | unary op, [v] => .ok (op.run v)
  | binary op, [v, w] => op.run v w
  | op, args => .error (.argumentCount op.calling args.length)

/-- The implementation that converts the results of an operation to a type. -/
def implementation (op : Operation) (output : Ty) : Implementation :=
  .ofFaulting fun args => (op.run args).map fun v => .scalar (.value (v.convertTo output))

/-- The implementation of an operation for a signature, which needs one output. -/
def implement (op : Operation) (s : Signature) : Except Fault Implementation :=
  match s.outputs with
  | [output] => .ok (op.implementation output)
  | [] => .error .noOutput
  | _ => .error .severalOutputs

end Operation

end PostfixCalc
