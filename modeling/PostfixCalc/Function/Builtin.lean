import PostfixCalc.Binary.Arithmetic
import PostfixCalc.Function.Operation

/-!
# Built-in functions and stock implementations

The table of the functions every calculator knows: the key under which a
function is called, its descriptive name, its types and its operation.

Functions from outside have ready-made implementations: constants, projections,
exact integer arithmetic that does not wrap, and implementations that give up or
hand back something other than a scalar.
-/

namespace PostfixCalc

/-- A line of the table of built-in functions. -/
structure Builtin where
  key : String
  name : String
  inputs : List Ty
  output : Ty
  operation : Operation
  deriving DecidableEq

namespace Builtin

open Ty Operation UnaryOperation BinaryOperation

def integerTable : List Builtin :=
  [ ⟨"inc", "increment", [i32], i32, unary increment⟩,
    ⟨"dec", "decrement", [i32], i32, unary decrement⟩,
    ⟨"neg", "negate", [i32], i32, unary negate⟩,
    ⟨"abs", "absolute value", [i32], i32, unary absolute⟩,
    ⟨"add", "add", [i32, i32], i32, binary add⟩,
    ⟨"sub", "subtract", [i32, i32], i32, binary subtract⟩,
    ⟨"mul", "multiply", [i32, i32], i32, binary multiply⟩ ]

def doubleTable : List Builtin :=
  [ ⟨"sin", "sine", [f64], f64, unary (elementary .sine)⟩,
    ⟨"cos", "cosine", [f64], f64, unary (elementary .cosine)⟩,
    ⟨"tan", "tangent", [f64], f64, unary (elementary .tangent)⟩,
    ⟨"exp", "exponential", [f64], f64, unary (elementary .exponential)⟩,
    ⟨"ln", "natural logarithm", [f64], f64, unary (elementary .logarithm)⟩,
    ⟨"sqrt", "square root", [f64], f64, unary squareRoot⟩,
    ⟨"recip", "reciprocal", [f64], f64, unary reciprocal⟩,
    ⟨"fneg", "float negate", [f64], f64, unary negate⟩,
    ⟨"fabs", "float absolute value", [f64], f64, unary absolute⟩,
    ⟨"fadd", "float add", [f64, f64], f64, binary add⟩,
    ⟨"fsub", "float subtract", [f64, f64], f64, binary subtract⟩,
    ⟨"fmul", "float multiply", [f64, f64], f64, binary multiply⟩,
    ⟨"fdiv", "float divide", [f64, f64], f64, binary divide⟩,
    ⟨"pow", "power", [f64, f64], f64, binary power⟩ ]

def singleTable : List Builtin :=
  [ ⟨"sqrtf", "single square root", [f32], f32, unary squareRoot⟩,
    ⟨"recipf", "single reciprocal", [f32], f32, unary reciprocal⟩ ]

def conversionTable : List Builtin :=
  [ ⟨"itof", "int to float", [i32], f64, unary keep⟩,
    ⟨"narrow", "narrow to single", [f64], f32, unary keep⟩,
    ⟨"widen", "widen to double", [f32], f64, unary keep⟩ ]

def table : List Builtin :=
  integerTable ++ doubleTable ++ singleTable ++ conversionTable

def function (b : Builtin) : Function where
  name := b.name
  signature := ⟨b.inputs, [b.output]⟩
  implementation := b.operation.implementation b.output

/-- The line of a key. -/
def find? (key : String) : Option Builtin :=
  table.find? fun b => b.key == key

end Builtin

/-! ## Stock implementations -/

namespace Stock

/-- The argument at a place; negative places count from the end. -/
def argument? (place : Int) (args : List Value) : Except Fault Value :=
  let index := if place < 0 then place + args.length else place
  if index < 0 then .error .noSuchArgument
  else
    match args[index.toNat]? with
    | some v => .ok v
    | none => .error .noSuchArgument

def constant (content : Item) : Implementation := fun _ => .ok (.scalar content)

/-- One of the arguments, as a scalar. -/
def projection (place : Int) : Implementation :=
  .ofFaulting fun args => (argument? place args).map fun v => .scalar (.value v)

/-- One of the arguments, not wrapped up as a scalar. -/
def bareProjection (place : Int) : Implementation :=
  .ofFaulting fun args => (argument? place args).map fun v => .bare (.value v)

def argumentTuple : Implementation := fun args => .ok (.tuple args)

def silence : Implementation := fun _ => .ok (.bare (.datum .nothing))

def failing (failure : Failure) : Implementation := fun _ => .error failure

/-- An integer function of the first two arguments whose exact result has to fit.  If
one of them is not an integer, both are taken as doubles, and a double makes no
integer. -/
def exact (onIntegers : Int → Int → Except Fault Int)
    (onDoubles : Double → Double → Except Fault Double) : Implementation :=
  .ofFaulting fun
    | .i32 m :: .i32 n :: _ =>
      match onIntegers m.toInt n.toInt with
      | .ok result => (Value.ofInt? result).map fun v => .scalar (.value v)
      | .error fault => .error fault
    | v :: w :: _ =>
      match onDoubles v.toDouble w.toDouble with
      | .ok x => .error (.telling .notAnInteger (Datum.number x).fullText)
      | .error fault => .error fault
    | _ => .error .noSuchArgument

/-- Quotient, toward negative infinity. -/
def floorQuotient : Implementation :=
  exact (fun m n => if n = 0 then .error .divisionByZero else .ok (Int.fdiv m n))
    fun x y => if y.isZero then .error .floorDivisionByZero else .ok (x.floorDiv y)

/-- Product without wrapping. -/
def exactProduct : Implementation :=
  exact (fun m n => .ok (m * n)) fun x y => .ok (x.mul y)

end Stock

end PostfixCalc
