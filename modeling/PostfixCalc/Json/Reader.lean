import PostfixCalc.Decimal.Numeral
import PostfixCalc.Json
import PostfixCalc.Token

/-!
# Reading JSON

The reader works on a list of characters and returns a value and the characters
after it.  A problem is reported together with the characters that are left at
the place where it arises, from which its position follows.

Values nest to a limited depth.  The recursion runs over the depth that is still
allowed; a list of items or fields is read by a loop that takes at least one
character in each round.  Depth is also what the report of a problem takes, unless it is
that a value is missing, and what the look-up of a number by its name takes: near the
limit they are exceeded depths themselves.
-/

namespace PostfixCalc
namespace Json

/-- Ways in which a text is not JSON. -/
inductive Problem where
  | byteOrderMark
  | expectingValue
  | expectingName
  | expectingColon
  | expectingComma
  | extraData
  | unterminatedString
  | controlCharacter
  | badEscape
  | badUnicodeEscape
  deriving DecidableEq, Repr

def Problem.message : Problem → String
  | byteOrderMark => "Unexpected UTF-8 BOM (decode using utf-8-sig)"
  | expectingValue => "Expecting value"
  | expectingName => "Expecting property name enclosed in double quotes"
  | expectingColon => "Expecting ':' delimiter"
  | expectingComma => "Expecting ',' delimiter"
  | extraData => "Extra data"
  | unterminatedString => "Unterminated string starting at"
  | controlCharacter => "Invalid control character at"
  | badEscape => "Invalid \\escape"
  | badUnicodeEscape => "Invalid \\uXXXX escape"

/-- What goes deeper than the limit: an array or an object that is opened, a call, or the
frame that a call needs. -/
inductive Overrun where
  | array
  | object
  | call
  | frame
  deriving DecidableEq, Repr

/-- Why reading stops: a problem, with the characters left at its place, or a limit
of the reader that is exceeded. -/
inductive Stop where
  | problem (p : Problem) (left : List Char)
  | integerTooLong (digits : Nat)
  | nestedTooDeep (overrun : Overrun)
  deriving DecidableEq, Repr

/-- Depth that the report of a problem takes. -/
def reportDepth : Nat := 3

/-- What goes too deep in the report of a problem.  The frame is the second thing that the
report needs. -/
def Overrun.ofReport (depth : Nat) : Overrun := if depth = 1 then frame else call

/-- What becomes of a stop when so much depth is left where it arises. -/
def Stop.within (depth : Nat) : Stop → Stop
  | problem p left =>
    if depth < reportDepth ∧ p ≠ .expectingValue then nestedTooDeep (.ofReport depth)
    else problem p left
  | stop => stop

/-- Reads something from the front of a list of characters. -/
abbrev Reader (α : Type) := List Char → Except Stop (α × List Char)

/-- Reads where so much depth is left. -/
def Reader.within {α : Type} (depth : Nat) (reader : Reader α) : Reader α := fun cs =>
  match reader cs with
  | .ok result => .ok result
  | .error stop => .error (stop.within depth)

def isSpace (c : Char) : Bool := c = ' ' || c = '\t' || c = '\n' || c = '\r'

def skipSpace (cs : List Char) : List Char := cs.dropWhile isSpace

/-! ## Texts -/

def hexValue? (c : Char) : Option Nat :=
  if '0' ≤ c ∧ c ≤ '9' then some (c.toNat - 48)
  else if 'a' ≤ c ∧ c ≤ 'f' then some (c.toNat - 87)
  else if 'A' ≤ c ∧ c ≤ 'F' then some (c.toNat - 55)
  else none

def unit? (a b c d : Char) : Option Nat :=
  match hexValue? a, hexValue? b, hexValue? c, hexValue? d with
  | some a, some b, some c, some d => some (((a * 16 + b) * 16 + c) * 16 + d)
  | _, _, _, _ => none

def shortEscape? (c : Char) : Option Char :=
  if c = '"' ∨ c = '\\' ∨ c = '/' then some c
  else if c = 'b' then some '\x08'
  else if c = 'f' then some '\x0c'
  else if c = 'n' then some '\n'
  else if c = 'r' then some '\r'
  else if c = 't' then some '\t'
  else none

/-- The code point of a code unit, which is one of a character or of a surrogate. -/
def codePoint (unit : Nat) : CodePoint :=
  if unit.isValidChar then .char (Char.ofNat unit)
  else .surrogate (Fin.ofNat 0x800 (unit - CodePoint.surrogateBase))

/-- Why a text stops; its beginning is known to the reader of the value. -/
inductive TextStop where
  | unterminated
  | problem (p : Problem) (left : List Char)
  deriving DecidableEq, Repr

def prepend (p : CodePoint) :
    Except TextStop (Text × List Char) → Except TextStop (Text × List Char)
  | .ok (t, rest) => .ok (p :: t, rest)
  | .error stop => .error stop

/-- The code points of a text up to its closing quote. -/
def readPoints : List Char → Except TextStop (Text × List Char)
  | [] => .error .unterminated
  | c :: cs =>
    if c = '"' then .ok ([], cs)
    else if c = '\\' then
      match cs with
      | [] => .error .unterminated
      | e :: es =>
        if e = 'u' then
          match es with
          | h₁ :: h₂ :: h₃ :: h₄ :: rest =>
            if rest.isEmpty then .error (.problem .badUnicodeEscape (e :: es))
            else
              match unit? h₁ h₂ h₃ h₄ with
              | some n => prepend (codePoint n) (readPoints rest)
              | none => .error (.problem .badUnicodeEscape (e :: es))
          | _ => .error (.problem .badUnicodeEscape (e :: es))
        else
          match shortEscape? e with
          | some x => prepend (.char x) (readPoints es)
          | none => .error (.problem .badEscape (c :: cs))
    else if c.toNat < 0x20 then .error (.problem .controlCharacter (c :: cs))
    else prepend (.char c) (readPoints cs)

/-- Replaces each pair of surrogates by the character for which it stands.  Surrogates
are always escaped, so these are two escapes in a row. -/
def joinPairs : Text → Text
  | p :: q :: rest =>
    match p.pair? q with
    | some c => .char c :: joinPairs rest
    | none => p :: joinPairs (q :: rest)
  | t => t

/-- Reads a text whose opening quote is the first of the given characters. -/
def readText : Reader Text := fun cs =>
  match readPoints cs.tail with
  | .ok (t, rest) => .ok (joinPairs t, rest)
  | .error .unterminated => .error (.problem .unterminatedString cs)
  | .error (.problem p left) => .error (.problem p left)

/-! ## Numbers and names -/

/-- A number: no superfluous leading zero, and digits after a point or an exponent
mark, which otherwise do not belong to the number. -/
def scanNumber? (cs : List Char) : Option (Numeral × List Char) :=
  let (negative, unsigned) :=
    match cs with
    | '-' :: rest => (true, rest)
    | _ => (false, cs)
  let (whole, afterWhole) :=
    match unsigned with
    | '0' :: rest => ([0], rest)
    | _ => spanDigits asciiDigitValue? unsigned
  if whole.isEmpty then none
  else
    let (fraction?, afterFraction) :=
      match Numeral.scanFraction asciiDigitValue? afterWhole with
      | (some (d :: ds), rest) => (some (d :: ds), rest)
      | _ => (none, afterWhole)
    let (exponent?, rest) := Numeral.scanExponent asciiDigitValue? afterFraction
    some (⟨negative, whole, fraction?, exponent?⟩, rest)

def readNumber : Reader Json := fun cs =>
  match scanNumber? cs with
  | none => .error (.problem .expectingValue cs)
  | some (x, rest) =>
    if x.isInteger then
      if x.whole.length ≤ integerDigitLimit then .ok (integer x.integer, rest)
      else .error (.integerTooLong x.whole.length)
    else .ok (number (x.nearest .double), rest)

def names : List (List Char × Json) :=
  [ ("null".toList, null), ("true".toList, truth true), ("false".toList, truth false),
    ("NaN".toList, number .nan), ("Infinity".toList, number (.infinite false)),
    ("-Infinity".toList, number (.infinite true)) ]

def dropFront? : List Char → List Char → Option (List Char)
  | [], cs => some cs
  | _ :: _, [] => none
  | w :: ws, c :: cs => if w = c then dropFront? ws cs else none

def readName? (cs : List Char) : Option (Json × List Char) :=
  names.findSome? fun name => (dropFront? name.1 cs).map fun rest => (name.2, rest)

/-! ## Arrays and objects -/

/-- Reads the items of an array up to its closing bracket, from the start of an
item on.  The first argument bounds the number of rounds. -/
def readItems (value : Reader Json) : Nat → Reader (List Json)
  | 0, cs => .error (.problem .expectingValue cs)
  | rounds + 1, cs =>
    match value cs with
    | .error stop => .error stop
    | .ok (item, rest) =>
      match skipSpace rest with
      | [] => .error (.problem .expectingComma [])
      | c :: after =>
        if c = ']' then .ok ([item], after)
        else if c = ',' then
          match readItems value rounds (skipSpace after) with
          | .ok (items, rest) => .ok (item :: items, rest)
          | .error stop => .error stop
        else .error (.problem .expectingComma (c :: after))

/-- Reads the fields of an object up to its closing brace, from the start of a name
on.  The first argument bounds the number of rounds. -/
def readFields (value : Reader Json) : Nat → Reader (List (Text × Json))
  | 0, cs => .error (.problem .expectingName cs)
  | rounds + 1, cs =>
    if cs.head? ≠ some '"' then .error (.problem .expectingName cs)
    else
      match readText cs with
      | .error stop => .error stop
      | .ok (name, rest) =>
        match skipSpace rest with
        | [] => .error (.problem .expectingColon [])
        | c :: after =>
          if c ≠ ':' then .error (.problem .expectingColon (c :: after))
          else
            match value (skipSpace after) with
            | .error stop => .error stop
            | .ok (item, rest) =>
              match skipSpace rest with
              | [] => .error (.problem .expectingComma [])
              | c :: after =>
                if c = '\x7d' then .ok ([(name, item)], after)
                else if c = ',' then
                  match readFields value rounds (skipSpace after) with
                  | .ok (fields, rest) => .ok ((name, item) :: fields, rest)
                  | .error stop => .error stop
                else .error (.problem .expectingComma (c :: after))

def readArray (value : Reader Json) : Reader Json := fun cs =>
  match skipSpace cs with
  | ']' :: rest => .ok (array [], rest)
  | start =>
    match readItems value (start.length + 1) start with
    | .ok (items, rest) => .ok (array items, rest)
    | .error stop => .error stop

def readObject (value : Reader Json) : Reader Json := fun cs =>
  match skipSpace cs with
  | '\x7d' :: rest => .ok (object [], rest)
  | start =>
    match readFields value (start.length + 1) start with
    | .ok (fields, rest) => .ok (ofFields fields, rest)
    | .error stop => .error stop

/-- Reads a value where so much depth is left, given how to read arrays and objects after
their opening. -/
def readValueWith (depth : Nat) (array object : Reader Json) : Reader Json := fun cs =>
  match cs with
  | [] => .error (.problem .expectingValue [])
  | c :: rest =>
    if c = '"' then
      match readText.within depth cs with
      | .ok (t, rest) => .ok (text t, rest)
      | .error stop => .error stop
    else if c = '[' then array rest
    else if c = '\x7b' then object rest
    else
      match readName? cs with
      | some (number x, rest) =>
        if depth = 0 then .error (.nestedTooDeep .call) else .ok (number x, rest)
      | some result => .ok result
      | none => readNumber cs

/-- Reads a value in which arrays and objects nest at most to the given depth. -/
def readValue : Nat → Reader Json
  | 0 =>
    readValueWith 0 (fun _ => .error (.nestedTooDeep .array))
      fun _ => .error (.nestedTooDeep .object)
  | depth + 1 =>
    readValueWith (depth + 1) ((readArray (readValue depth)).within depth)
      ((readObject (readValue depth)).within depth)

/-! ## Whole texts -/

def nestingLimit : Nat := 992

/-- A text cannot be read: a problem at a line, column and offset, or a limit of the
reader that is exceeded. -/
inductive ReadError where
  | problem (p : Problem) (line column offset : Nat)
  | integerTooLong (digits : Nat)
  | nestedTooDeep (overrun : Overrun)
  deriving DecidableEq, Repr

/-- Places a problem in the text from which characters are left. -/
def Stop.place (cs : List Char) : Stop → ReadError
  | problem p left =>
    let before := cs.take (cs.length - left.length)
    .problem p (before.count '\n' + 1)
      ((before.reverse.takeWhile (· != '\n')).length + 1) before.length
  | integerTooLong digits => .integerTooLong digits
  | nestedTooDeep overrun => .nestedTooDeep overrun

def ReadError.message : ReadError → String
  | problem p line column offset =>
    p.message ++ ": line " ++ natText line ++ " column " ++ natText column ++ " (char " ++
      natText offset ++ ")"
  | integerTooLong digits =>
    "Exceeds the limit (" ++ natText integerDigitLimit ++
      " digits) for integer string conversion: value has " ++ natText digits ++
      " digits; use sys.set_int_max_str_digits() to increase the limit"
  | nestedTooDeep .array =>
    "maximum recursion depth exceeded while decoding a JSON array from a unicode string"
  | nestedTooDeep .object =>
    "maximum recursion depth exceeded while decoding a JSON object from a unicode string"
  | nestedTooDeep .call => "maximum recursion depth exceeded while calling a Python object"
  | nestedTooDeep .frame => "maximum recursion depth exceeded"

def readWhole : Reader Json := fun cs =>
  if cs.head? = some '\ufeff' then .error (.problem .byteOrderMark cs)
  else
    match readValue nestingLimit (skipSpace cs) with
    | .error stop => .error stop
    | .ok (j, rest) =>
      match skipSpace rest with
      | [] => .ok (j, [])
      | left => .error (.problem .extraData left)

/-- The value that a text spells. -/
def read (cs : List Char) : Except ReadError Json :=
  match readWhole cs with
  | .ok (j, _) => .ok j
  | .error stop => .error (stop.place cs)

end Json
end PostfixCalc
