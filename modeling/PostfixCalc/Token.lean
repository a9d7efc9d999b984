import PostfixCalc.Decimal.Numeral
import PostfixCalc.Registry
import PostfixCalc.Text.Character

/-!
# Tokens

A line is read word by word.  A word is a literal if it spells a value, and
otherwise the key of a function or a bad token; a key that is spelled like a
literal can therefore not be called.

Digits alone spell an integer, a numeral with a point or an exponent spells a
double, and such a numeral followed by `f` spells a single.
-/

namespace PostfixCalc

inductive Token where
  | literal (v : Value)
  | function (f : Function)
  | bad (text : String)

def literalChars? (cs : List Char) : Option Value :=
  match Numeral.scan digitValue? cs with
  | (x, []) =>
    if x.isInteger then
      if x.whole.length ≤ integerDigitLimit ∧ Value.fits x.integer then
        some (.i32 (Int32.ofInt x.integer))
      else none
    else if x.isReal then some (.f64 (x.nearest .double))
    else none
  | (x, ['f']) =>
    if x.isReal then some (.f32 ((x.nearest .double).convert .single)) else none
  | _ => none

def literal? (word : String) : Option Value := literalChars? word.toList

def lineWords (line : String) : List String :=
  (words line.toList).map String.ofList

namespace Token

def ofWord (r : Registry) (word : String) : Token :=
  match literal? word with
  | some v => literal v
  | none =>
    match r.lookup word with
    | some f => function f
    | none => bad word

theorem ofWord_of_literal? {r : Registry} {word : String} {v : Value}
    (h : literal? word = some v) : ofWord r word = literal v := by
  simp only [ofWord, h]

theorem ofWord_of_lookup {r : Registry} {word : String} {f : Function}
    (hliteral : literal? word = none) (hlookup : r.lookup word = some f) :
    ofWord r word = function f := by
  simp only [ofWord, hliteral, hlookup]

theorem ofWord_of_unknown {r : Registry} {word : String}
    (hliteral : literal? word = none) (hlookup : r.lookup word = none) :
    ofWord r word = bad word := by
  simp only [ofWord, hliteral, hlookup]

def ofLine (r : Registry) (line : String) : List (String × Token) :=
  (lineWords line).map fun word => (word, ofWord r word)

def badText? : Token → Option String
  | bad text => some text
  | _ => none

def description : Token → String
  | literal v => "Literal(" ++ v.type.label ++ " " ++ v.text ++ ")"
  | function f => "Intrinsic(" ++ f.text ++ ")"
  | bad text => "BadToken(" ++ quoted text ++ ")"

end Token

end PostfixCalc
