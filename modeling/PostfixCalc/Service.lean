import PostfixCalc.Json
import PostfixCalc.Session
import PostfixCalc.Settings

/-!
# The request service

A request is a JSON object with a command.  Each session answers its requests in
order; a request that is not understood is answered too, and leaves the stack
alone.  So is a line that cannot be read, and an error of this kind that an implementation
raises is answered in the same way, with the stack that it left.
-/

namespace PostfixCalc
namespace Service

inductive Command where
  | eval
  | stack
  | clear
  | functions
  deriving DecidableEq, Repr

def command? (name : String) : Option Command :=
  if name = "eval" then some .eval
  else if name = "stack" then some .stack
  else if name = "clear" then some .clear
  else if name = "functions" then some .functions
  else none

inductive Response where
  /-- The request was not understood. -/
  | refused (message : Text)
  /-- A line could not be read; the stack that is left. -/
  | rejected (message : Text) (stack : List String)
  | done (stack : List String) (errors : List String)
  /-- Keys of the functions and their signatures. -/
  | functions (signatures : List (String × String))
  deriving DecidableEq, Repr

def texts (ts : List String) : Json := .array (ts.map fun t : String => .text t)

def Response.json : Response → Json
  | refused message => .object [("ok", .truth false), ("error", .text message)]
  | rejected message stack =>
    .object [("ok", .truth false), ("error", .text message), ("stack", texts stack)]
  | done stack errors =>
    .object [("ok", .truth true), ("stack", texts stack), ("errors", texts errors)]
  | functions signatures =>
    .object [("ok", .truth true), ("functions", .object (signatures.map fun item =>
      (Text.ofString item.1, .text (Text.ofString item.2))))]

/-- What a request comes to: a response and the stack after it, or a fatal cause and
the stack it left. -/
inductive Answer where
  | response (r : Response) (stack : Stack)
  | aborted (cause : Fatal) (stack : Stack)

/-- The written values of a stack, oldest first. -/
def stackTexts (s : Stack) : List String := s.toList.map Value.text

/-- The answer to an evaluation from a given stack. -/
def respond (before : Stack) : Evaluation → Answer
  | .rejected e => .response (.rejected e.message (stackTexts before)) before
  | .ran ⟨errors, s, none⟩ =>
    .response (.done (stackTexts s) (errors.map ApplyError.message)) s
  | .ran ⟨_, s, some (.line e)⟩ => .response (.rejected e.message (stackTexts s)) s
  | .ran ⟨_, s, some cause⟩ => .aborted cause s

/-- The bad tokens of a line that need not be a string.  A word with a surrogate spells
no literal and is no key. -/
def badWords (r : Registry) (code : Text) : List Text :=
  code.words.filter fun word =>
    match word.string? with
    | some word => (Token.ofWord r word).badText?.isSome
    | none => true

def evaluate (r : Registry) (s : Stack) (code : Text) : Answer :=
  match code.string? with
  | some line => respond s (Session.eval r s line)
  | none =>
    .response (.rejected
      ("Invalid token: " ++ List.intercalate (Text.ofString ", ") (badWords r code))
      (stackTexts s)) s

/-- Runs a command, given the fields of its request. -/
def runCommand (r : Registry) (s : Stack) (fields : List (Text × Json)) : Command → Answer
  | .eval =>
    match (Json.field? "code" fields).getD (.text "") with
    | .text code => evaluate r s code
    | _ => .response (.refused "code must be a string") s
  | .stack => .response (.done (stackTexts s) []) s
  | .clear => .response (.done [] []) .empty
  | .functions =>
    .response (.functions (r.items.map fun item => (item.1, item.2.signature.text))) s

/-- The answer to a command that is not known.  The command is told of, so it has to be
written. -/
def unknown (s : Stack) (command : Json) : Answer :=
  match command.plainText with
  | .ok text => .response (.refused ("Unknown cmd: " ++ text)) s
  | .error fault => .aborted (.fault fault) s

/-- Answers one request. -/
def handle (r : Registry) (s : Stack) : Json → Answer
  | .object fields =>
    let named := (Json.field? "cmd" fields).getD .null
    match named with
    | .text name =>
      match name.string?.bind command? with
      | some command => runCommand r s fields command
      | none => unknown s named
    | _ => unknown s named
  | _ => .response (.refused "Request must be a JSON object") s

def Answer.stack : Answer → Stack
  | response _ s => s
  | aborted _ s => s

/-- Answers requests in a row, each on the stack that the one before it left. -/
def handleAll (r : Registry) (s : Stack) : List Json → List Answer
  | [] => []
  | request :: rest =>
    let answer := handle r s request
    answer :: handleAll r answer.stack rest

structure Address where
  host : String
  port : Int
  deriving DecidableEq, Repr

/-- The address of a service: what is not given comes from the environment. -/
def address (e : Environment) (host? : Option String) (port? : Option Int) : Address :=
  ⟨host?.getD e.host, port?.getD e.port⟩

end Service
end PostfixCalc
