import PostfixCalc.Binary.Arithmetic
import PostfixCalc.Decimal
import PostfixCalc.Text.Quoted

/-!
# Calculator values

A value is an integer of 32 bits, a single or a double.  Each kind of value has
one type, and types are only used to match values with the signatures of
functions.
-/

namespace PostfixCalc

inductive Ty where
  | i32
  | f32
  | f64
  deriving DecidableEq, Repr

namespace Ty

/-- Label of a type in signatures and listings. -/
def label : Ty → String
  | i32 => "i32"
  | f32 => "f32"
  | f64 => "f64"

def ofLabel? (label : String) : Option Ty :=
  [i32, f32, f64].find? fun t => t.label == label

/-- Name of the kind of values of a type, as it appears in their full form. -/
def kindName : Ty → String
  | i32 => "Int32"
  | f32 => "Float32"
  | f64 => "Float64"

end Ty

inductive Value where
  | i32 (n : Int32)
  | f32 (x : Single)
  | f64 (x : Double)
  deriving DecidableEq

namespace Value

instance : Inhabited Value := ⟨i32 0⟩

def type : Value → Ty
  | i32 _ => .i32
  | f32 _ => .f32
  | f64 _ => .f64

def hasType (v : Value) (t : Ty) : Bool := v.type == t

def chars : Value → List Char
  | i32 n => intChars n.toInt
  | f32 x => singleChars x
  | f64 x => doubleChars x

def text (v : Value) : String := String.ofList v.chars

/-- The payload of a value, written in full: singles appear as doubles. -/
def payloadText : Value → String
  | i32 n => intText n.toInt
  | f32 x => String.ofList (doubleChars (x.convert .double))
  | f64 x => String.ofList (doubleChars x)

/-- Full form of a value, naming its kind. -/
def fullText (v : Value) : String :=
  v.type.kindName ++ "(payload=" ++ v.payloadText ++ ")"

end Value

end PostfixCalc
