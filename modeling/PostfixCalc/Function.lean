import PostfixCalc.Value.Making

/-!
# Functions and failures

A function has a name, a signature and an implementation.  The signature lists
the input types in the order in which they are consumed: the first input is the
deepest argument on the stack and the last one is on top.  An implementation
maps the list of arguments to a reply or a failure; nothing forces its reply to
agree with the signature.

Failures are of two sorts.  An application error is reported and survived where a
line is evaluated; a fatal cause ends the evaluation in which it arises.  Errors name
functions, and an implementation, which may be a calculator itself, can fail in every
way in which an application can.  So functions and failures are defined together.
-/

namespace PostfixCalc

structure Signature where
  inputs : List Ty
  outputs : List Ty
  deriving DecidableEq, Repr

namespace Signature

def arity (s : Signature) : Nat := s.inputs.length

/-- Type labels separated by single spaces. -/
def labels (types : List Ty) : String :=
  " ".intercalate (types.map Ty.label)

/-- Written form of a signature: inputs, an arrow, outputs. -/
def text (s : Signature) : String :=
  if s.inputs.isEmpty then "-> " ++ labels s.outputs
  else labels s.inputs ++ " -> " ++ labels s.outputs

end Signature

/-- What an implementation hands back.  Only a scalar is what the calculator asks
for. -/
inductive Reply where
  | scalar (content : Item)
  | bare (content : Item)
  | tuple (vs : List Value)

namespace Reply

def fullText : Reply → Except Fault String
  | scalar content => content.fullText.map fun text => "Scalar(value=" ++ text ++ ")"
  | bare content => content.fullText
  | tuple [v] => .ok ("(" ++ v.fullText ++ ",)")
  | tuple vs => .ok ("(" ++ ", ".intercalate (vs.map Value.fullText) ++ ")")

/-- The value in a reply that honours an output type. -/
def value? (output : Ty) : Reply → Option Value
  | scalar (.value v) => if v.hasType output then some v else none
  | _ => none

theorem value?_eq_some_iff {output : Ty} {reply : Reply} {v : Value} :
    reply.value? output = some v ↔ reply = .scalar (.value v) ∧ v.type = output := by
  unfold value?
  split
  · next w => grind [Value.hasType]
  · next h =>
    constructor
    · intro hsome
      contradiction
    · rintro ⟨rfl, -⟩
      exact absurd rfl (h v)

end Reply

/-- How an implementation broke its contract. -/
inductive Breach where
  /-- It gave up with a recoverable fault, which is written like this. -/
  | failed (fault : Fault) (text : String)
  /-- It handed back something other than a scalar of the output type, which is written
  like this. -/
  | returned (reply : Reply) (text : String)
  /-- A breach in the words of whoever reports it. -/
  | stated (message : String)

structure Rejection where
  tokens : List String
  deriving DecidableEq, Repr

def Rejection.message (e : Rejection) : String :=
  "Invalid token: " ++ ", ".intercalate e.tokens

/-- A line cannot be read. -/
inductive LineError where
  | unrecognized (e : Rejection)
  | stated (message : String)

def LineError.message : LineError → String
  | unrecognized e => e.message
  | stated message => message

mutual

structure Function where
  name : String
  signature : Signature
  /-- Maps arguments, deepest first, to a reply or a failure. -/
  implementation : List Value → Except Failure Reply

/-- Errors of an application that are reported and survived. -/
inductive ApplyError where
  /-- Any other error, in the words of whoever reports it. -/
  | general (f : Function) (message : String)
  | wrongArity (f : Function) (height : Nat)
  | typeMismatch (f : Function) (position : Nat) (expected : Ty) (actual : Value)
  | brokenCallee (f : Function) (breach : Breach)

/-- A registry that cannot be made, or a function that cannot be applied because of
what it declares. -/
inductive SignatureError where
  | outputCount (f : Function)
  /-- Something other than a function, written like this, stands under a key. -/
  | notAFunction (key : String) (text : String)
  | stated (message : String)

inductive Fatal where
  | signature (e : SignatureError)
  | line (e : LineError)
  | fault (e : Fault)

inductive Failure where
  | error (e : ApplyError)
  | fatal (cause : Fatal)

end

abbrev Implementation := List Value → Except Failure Reply

/-- The implementation that fails only with faults. -/
def Implementation.ofFaulting (run : List Value → Except Fault Reply) : Implementation :=
  fun args =>
    match run args with
    | .ok reply => .ok reply
    | .error fault => .error (.fatal (.fault fault))

namespace Function

/-- Written form of a function: its name and signature. -/
def text (f : Function) : String :=
  f.name ++ " :: " ++ f.signature.text

/-- Functions are the same when name and signature are; implementations are not
compared. -/
def same (f g : Function) : Bool :=
  f.name == g.name && f.signature == g.signature

end Function

namespace ApplyError

def function : ApplyError → Function
  | general f _ => f
  | wrongArity f _ => f
  | typeMismatch f _ _ _ => f
  | brokenCallee f _ => f

def kindName : ApplyError → String
  | general _ _ => "ApplyError"
  | wrongArity _ _ => "WrongArity"
  | typeMismatch _ _ _ _ => "TypeMismatch"
  | brokenCallee _ _ => "BrokenCallee"

/-- An error in a few words: its kind and function. -/
def summary (e : ApplyError) : String :=
  e.kindName ++ ": " ++ e.function.text

/-- Wording of an error.  An error stated without words is worded by its
summary. -/
def message (e : ApplyError) : String :=
  match e with
  | general _ message => if message.isEmpty then e.summary else message
  | wrongArity f height =>
    e.summary ++ " needs " ++ natText f.signature.arity ++
      " argument(s), stack has " ++ natText height
  | typeMismatch _ position expected actual =>
    e.summary ++ " argument " ++ natText position ++ " expects " ++ expected.label ++
      ", got " ++ actual.text ++ " (" ++ actual.type.label ++ ")"
  | brokenCallee _ (.failed _ text) => e.summary ++ " failed: " ++ text
  | brokenCallee _ (.returned _ text) => e.summary ++ " returned " ++ text
  | brokenCallee _ (.stated message) => if message.isEmpty then e.summary else message

end ApplyError

def SignatureError.message : SignatureError → String
  | outputCount f =>
    f.text ++ " declares " ++ natText f.signature.outputs.length ++
      " outputs, exactly one is supported"
  | notAFunction key text => "Registry entry " ++ quoted key ++ " is not a Function: " ++ text
  | stated message => message

def Fatal.message : Fatal → String
  | signature e => e.message
  | line e => e.message
  | fault e => e.message

end PostfixCalc
