import PostfixCalc.Registry

/-!
# JSON values and their written form

JSON distinguishes integers of any size from other numbers, which are doubles.
The fields of an object have distinct names and keep their order.  Texts and names may
hold surrogates.  Besides the interchange form a value has a full form, used where it is
quoted in a message.

For interchange values are written on one line in ASCII: every other character is
escaped, those beyond the basic plane as a pair of surrogates, and surrogates of the text
as they are.  A space follows each comma and colon.
-/

namespace PostfixCalc

inductive Json where
  | null
  | truth (b : Bool)
  | integer (n : Int)
  | number (x : Double)
  | text (t : Text)
  | array (items : List Json)
  | object (fields : List (Text × Json))

namespace Json

instance : Inhabited Json := ⟨null⟩

/-- The object with the given fields; a repeated name keeps its first place and its
last value. -/
def ofFields (fields : List (Text × Json)) : Json := object (Assoc.ofPairs fields)

/-- The field of a name in a list of fields. -/
def field? (name : Text) (fields : List (Text × Json)) : Option Json :=
  (fields.find? fun field => field.1 == name).map Prod.snd

mutual

/-- Full form of a value, or the fault that arises in writing it. -/
def fullText : Json → Except Fault String
  | null => .ok "None"
  | truth b => .ok (if b then "True" else "False")
  | integer n => integerText n
  | number x => .ok (String.ofList (doubleChars x))
  | text t => .ok t.quoted
  | array items => (itemTexts items).map fun ts => "[" ++ ", ".intercalate ts ++ "]"
  | object fields =>
    (fieldTexts fields).map fun ts => "\x7b" ++ ", ".intercalate ts ++ "\x7d"

def itemTexts : List Json → Except Fault (List String)
  | [] => .ok []
  | item :: rest => do
    let first ← item.fullText
    let later ← itemTexts rest
    return first :: later

def fieldTexts : List (Text × Json) → Except Fault (List String)
  | [] => .ok []
  | (name, value) :: rest => do
    let first ← value.fullText
    let later ← fieldTexts rest
    return (name.quoted ++ ": " ++ first) :: later

end

/-- Form of a value on its own in a message: text is not quoted. -/
def plainText : Json → Except Fault Text
  | text t => .ok t
  | other => other.fullText.map Text.ofString

def unitChars (unit : Nat) : List Char := '\\' :: 'u' :: hexChars 4 unit

def escapeChar (c : Char) : List Char :=
  let n := c.toNat
  if c = '"' ∨ c = '\\' then ['\\', c]
  else if c = '\n' then ['\\', 'n']
  else if c = '\r' then ['\\', 'r']
  else if c = '\t' then ['\\', 't']
  else if n = 0x08 then ['\\', 'b']
  else if n = 0x0c then ['\\', 'f']
  else if 0x20 ≤ n ∧ n < 0x7f then [c]
  else if n < 0x10000 then unitChars n
  else
    unitChars (0xd800 + (n - 0x10000) / 0x400) ++
      unitChars (0xdc00 + (n - 0x10000) % 0x400)

def escapePoint : CodePoint → List Char
  | .char c => escapeChar c
  | .surrogate i => unitChars (CodePoint.surrogate i).toNat

def textChars (t : Text) : List Char :=
  '"' :: (t.flatMap escapePoint ++ ['"'])

/-- A number; what is not finite is named. -/
def numberChars : Double → List Char
  | .nan => "NaN".toList
  | .infinite s => Binary.signChars s ++ "Infinity".toList
  | x => doubleChars x

mutual

def chars : Json → List Char
  | null => "null".toList
  | truth b => if b then "true".toList else "false".toList
  | integer n => intChars n
  | number x => numberChars x
  | text t => textChars t
  | array items => '[' :: (itemChars items ++ [']'])
  | object fields => '\x7b' :: (fieldChars fields ++ ['\x7d'])

def itemChars : List Json → List Char
  | [] => []
  | [item] => item.chars
  | item :: rest => item.chars ++ ',' :: ' ' :: itemChars rest

def fieldChars : List (Text × Json) → List Char
  | [] => []
  | [(name, value)] => textChars name ++ ':' :: ' ' :: value.chars
  | (name, value) :: rest =>
    textChars name ++ ':' :: ' ' :: (value.chars ++ ',' :: ' ' :: fieldChars rest)

end

def render (j : Json) : String := String.ofList j.chars

end Json

end PostfixCalc
