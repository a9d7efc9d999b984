import PostfixCalc.Value

/-!
# Faults

A fault is what goes wrong below the calculator: data that makes no value, a
comparison that has no answer, an implementation that gives up.  Each fault has
a kind and a text.  The kinds fall into two families: faults of values and
arithmetic, which an application reports and survives, and all the others.

A fault that tells of something written in a message carries that text, for writing
can itself fail.
-/

namespace PostfixCalc

inductive FaultKind where
  | value
  | unicode
  | arithmetic
  | zeroDivision
  | overflow
  | floatingPoint
  | type
  | index
  | lookup
  | missingAttribute
  | runtime
  /-- The user interrupts the program. -/
  | interrupt
  /-- Any other kind, by its name, and whether it is one of values or arithmetic. -/
  | other (name : String) (isRecoverable : Bool)
  deriving DecidableEq, Repr

/-- Faults of values and of arithmetic are survived by an application. -/
def FaultKind.isRecoverable : FaultKind → Bool
  | value | unicode | arithmetic | zeroDivision | overflow | floatingPoint => true
  | type | index | lookup | missingAttribute | runtime | interrupt => false
  | other _ isRecoverable => isRecoverable

inductive Relation where
  | less
  | atMost
  | greater
  | atLeast
  deriving DecidableEq, Repr

def Relation.symbol : Relation → String
  | less => "<"
  | atMost => "<="
  | greater => ">"
  | atLeast => ">="

/-- How a numeric operation is called: its name, the number of its arguments, and
whether a place for the result may follow them. -/
structure Calling where
  name : String
  arguments : Nat
  takesPlace : Bool
  deriving DecidableEq, Repr

/-- What is wrong with a call that has another number of arguments than it needs.  A
value is never a place for a result. -/
def Calling.complaint (c : Calling) (given : Nat) : String :=
  if c.takesPlace then
    if given = c.arguments + 1 then "return arrays must be of ArrayType"
    else
      c.name ++ "() takes from " ++ natText c.arguments ++ " to " ++ natText (c.arguments + 1) ++
        " positional arguments but " ++ natText given ++
        (if given = 1 then " was given" else " were given")
  else if given < c.arguments then
    c.name ++ "() missing " ++ natText c.arguments ++ " required positional argument: 'x'"
  else
    c.name ++ "() takes " ++ natText c.arguments ++ " positional argument but " ++
      natText given ++ " were given"

/-- What can go wrong below the calculator. -/
inductive Fault where
  /-- An integer value was to be made of something other than an integer. -/
  | notAnInteger (text : String)
  | integerOutOfRange (text : String)
  /-- An integer has too many digits to be written. -/
  | integerTooLong
  | integerTooLarge
  | unreadableNumber (text : String)
  | missingNumber
  /-- Something that is not a value stands where a value is needed. -/
  | notAValue (text : String)
  | incomparable (r : Relation) (left right : Ty)
  | negativePower
  | divisionByZero
  /-- A floating-point number was divided by zero where the quotient is rounded down. -/
  | floorDivisionByZero
  | argumentCount (calling : Calling) (given : Nat)
  | noSuchArgument
  /-- A numeric operation was to be built for a signature without output. -/
  | noOutput
  /-- A numeric operation was to be built for a signature with several outputs. -/
  | severalOutputs
  /-- An implementation gave up, with a kind and text of its own. -/
  | raised (kind : FaultKind) (text : String)
  /-- An implementation gave up with a fault that cannot be written. -/
  | unwritable (kind : FaultKind) (cause : Fault)
  deriving DecidableEq

namespace Fault

def kind : Fault → FaultKind
  | notAnInteger _ => .value
  | integerOutOfRange _ => .value
  | integerTooLong => .value
  | integerTooLarge => .overflow
  | unreadableNumber _ => .value
  | missingNumber => .type
  | notAValue _ => .type
  | incomparable _ _ _ => .type
  | negativePower => .value
  | divisionByZero => .zeroDivision
  | floorDivisionByZero => .zeroDivision
  | argumentCount _ _ => .type
  | noSuchArgument => .index
  | noOutput => .value
  | severalOutputs => .value
  | raised kind _ => kind
  | unwritable kind _ => kind

/-- The text of a fault, or the fault that arises in writing it. -/
def text : Fault → Except Fault String
  | notAnInteger text => .ok ("Int32 payload must be an integer, got " ++ text)
  | integerOutOfRange text => .ok (text ++ " does not fit in 32 bits")
  | integerTooLong =>
    .ok ("Exceeds the limit (" ++ natText integerDigitLimit ++
      " digits) for integer string conversion; " ++
      "use sys.set_int_max_str_digits() to increase the limit")
  | integerTooLarge => .ok "int too large to convert to float"
  | unreadableNumber text => .ok ("could not convert string to float: " ++ quoted text)
  | missingNumber => .ok "float() argument must be a string or a real number, not 'NoneType'"
  | notAValue text => .ok ("Not a calculator value: " ++ text)
  | incomparable r left right =>
    .ok ("'" ++ r.symbol ++ "' not supported between instances of '" ++ left.kindName ++
      "' and '" ++ right.kindName ++ "'")
  | negativePower => .ok "Integers to negative integer powers are not allowed."
  | divisionByZero => .ok "integer division or modulo by zero"
  | floorDivisionByZero => .ok "float floor division by zero"
  | argumentCount calling given => .ok (calling.complaint given)
  | noSuchArgument => .ok "tuple index out of range"
  | noOutput => .ok "not enough values to unpack (expected 1, got 0)"
  | severalOutputs => .ok "too many values to unpack (expected 1)"
  | raised _ text => .ok text
  | unwritable _ cause => .error cause

/-- The text of a fault as it is shown when it ends the program. -/
def message (fault : Fault) : String :=
  match fault.text with
  | .ok text => text
  | .error _ => "<exception str() failed>"

/-- A fault that tells of something, given how that is written. -/
def telling (fault : String → Fault) : Except Fault String → Fault
  | .ok text => fault text
  | .error cause => cause

end Fault

end PostfixCalc
