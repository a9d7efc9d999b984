import PostfixCalc.Decimal.Numeral
import PostfixCalc.Session

/-!
# Terms

A term is a literal or a key applied to argument terms.  It has a value, found by
recursion on the term and without any stack, and a postfix form: the arguments
from left to right, then the key.  Evaluating the postfix form puts the value on
the stack.

Terms of the wrapping integer functions have, besides their value on the calculator, an
exact value, which is computed over the integers without any wrapping.
-/

namespace PostfixCalc

/-- Terms over the keys of a registry. -/
inductive Term where
  | literal (word : String)
  | call (key : String) (arguments : List Term)

/-- A key that a line can call: a single word that spells no literal. -/
def isCallable (key : String) : Bool :=
  !key.isEmpty && !key.toList.any isBlank && (literal? key).isNone

/-- The value of a function at arguments of the types of its inputs, if it has one
output and its implementation honours it. -/
def Function.value? (f : Function) (arguments : List Value) : Option Value :=
  match f.signature.outputs with
  | [output] =>
    if arguments.map Value.type = f.signature.inputs then
      match f.implementation arguments with
      | .ok (.scalar (.value v)) => if v.hasType output then some v else none
      | _ => none
    else none
  | _ => none

namespace Term

mutual

def words : Term → List String
  | literal word => [word]
  | call key arguments => argumentWords arguments ++ [key]

def argumentWords : List Term → List String
  | [] => []
  | t :: ts => t.words ++ argumentWords ts

end

/-- The postfix form of a term as a line, its words separated by single spaces. -/
def line (t : Term) : String := " ".intercalate t.words

mutual

/-- The value of a term.  A term that is not well typed has none. -/
def value? (r : Registry) : Term → Option Value
  | literal word => literal? word
  | call key arguments =>
    if isCallable key then
      match r.lookup key, argumentValues? r arguments with
      | some f, some vs => f.value? vs
      | _, _ => none
    else none

def argumentValues? (r : Registry) : List Term → Option (List Value)
  | [] => some []
  | t :: ts =>
    match t.value? r, argumentValues? r ts with
    | some v, some vs => some (v :: vs)
    | _, _ => none

end

end Term

/-! ## Integer terms -/

/-- Integer functions of one argument. -/
inductive IntegerUnary where
  | negate
  | increment
  | decrement
  deriving DecidableEq, Repr

/-- Integer functions of two arguments. -/
inductive IntegerBinary where
  | add
  | subtract
  | multiply
  deriving DecidableEq, Repr

def IntegerUnary.key : IntegerUnary → String
  | negate => "neg"
  | increment => "inc"
  | decrement => "dec"

def IntegerUnary.exact : IntegerUnary → Int → Int
  | negate, n => -n
  | increment, n => n + 1
  | decrement, n => n - 1

def IntegerBinary.key : IntegerBinary → String
  | add => "add"
  | subtract => "sub"
  | multiply => "mul"

def IntegerBinary.exact : IntegerBinary → Int → Int → Int
  | add, m, n => m + n
  | subtract, m, n => m - n
  | multiply, m, n => m * n

/-- An integer literal: a word that spells an integer of 32 bits by a sign and
digits. -/
structure IntegerLiteral where
  word : String
  negative : Bool
  digits : List Nat
  spells : Grammar.SignedDigits word.toList negative digits
  short : digits.length ≤ integerDigitLimit
  fits : Value.fits (Binary.signed negative (ofDigits digits)) = true

def IntegerLiteral.value (l : IntegerLiteral) : Int :=
  Binary.signed l.negative (ofDigits l.digits)

inductive IntegerTerm where
  | literal (l : IntegerLiteral)
  | unary (op : IntegerUnary) (argument : IntegerTerm)
  | binary (op : IntegerBinary) (left right : IntegerTerm)

namespace IntegerTerm

/-- The exact value, computed without wrapping. -/
def exact : IntegerTerm → Int
  | literal l => l.value
  | unary op t => op.exact t.exact
  | binary op t u => op.exact t.exact u.exact

def term : IntegerTerm → Term
  | literal l => .literal l.word
  | unary op t => .call op.key [t.term]
  | binary op t u => .call op.key [t.term, u.term]

end IntegerTerm

end PostfixCalc
