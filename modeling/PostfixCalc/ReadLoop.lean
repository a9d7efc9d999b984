import PostfixCalc.Display
import PostfixCalc.Session
import PostfixCalc.Settings

/-!
# The interactive read loop

Each line is a command of its own or a line to evaluate.  The commands are `:p`
(list the stack), `:r` (clear it), `:f` (list the functions) and `:q` (stop).
Everything that is printed ends with a line break.

The loop takes one turn after another at a terminal.  What comes of it can be told from the
lines alone, and is a run.
-/

namespace PostfixCalc

/-- A registry and the ways of printing. -/
structure Console where
  registry : Registry
  colour : Bool
  echo : Bool

/-- What a line comes to. -/
inductive Verdict where
  | proceed
  | stop
  | aborted (cause : Fatal)

/-- The effect of a line: the entries it prints, the stack after it, and what comes
next. -/
structure Handled where
  printed : List String
  stack : Stack
  verdict : Verdict

/-- Printed entries, each with its line break. -/
def printedText (entries : List String) : String :=
  String.join (entries.map fun entry => entry ++ "\n")

def Handled.output (h : Handled) : String := printedText h.printed

namespace Console

def ofEnvironment (r : Registry) (e : Environment) : Console := ⟨r, e.colour, e.echo⟩

/-- The tokens of a line in a bracketed list of their quoted descriptions. -/
def tokenList (r : Registry) (line : String) : String :=
  "[" ++ ", ".intercalate
    ((Token.ofLine r line).map fun token => quoted token.2.description) ++ "]"

def rejectionEntries (e : Rejection) : List String :=
  e.tokens.map fun token => "Error - Invalid token: " ++ token

/-- What is printed for an evaluation.  Tokens that an implementation did not recognize
are listed like those of the line; any other fatal cause prints nothing. -/
def report (colour : Bool) : Evaluation → List String
  | .rejected e => rejectionEntries e
  | .ran ⟨errors, s, none⟩ =>
    (errors.map fun e => "Error - " ++ e.summary) ++ [Display.stack colour s]
  | .ran ⟨_, _, some (.line (.unrecognized e))⟩ => rejectionEntries e
  | .ran ⟨_, _, some _⟩ => []

def verdict : Evaluation → Verdict
  | .ran ⟨_, _, some (.line (.unrecognized _))⟩ => .proceed
  | .ran ⟨_, _, some cause⟩ => .aborted cause
  | _ => .proceed

/-- Handles one line. -/
def handle (c : Console) (s : Stack) (line : String) : Handled :=
  let text := trim line
  if text = ":q" then ⟨[], s, .stop⟩
  else if text = ":p" then ⟨[Display.stackRows c.colour c.colour s], s, .proceed⟩
  else if text = ":r" then ⟨["Stack cleared."], .empty, .proceed⟩
  else if text = ":f" then ⟨[Display.registry c.colour c.registry], s, .proceed⟩
  else
    let evaluation := Session.eval c.registry s text
    { printed :=
        (if c.echo then [tokenList c.registry text] else []) ++ report c.colour evaluation
      stack := evaluation.stackFrom s
      verdict := verdict evaluation }

end Console

namespace ReadLoop

/-- How the input ends after its last line. -/
inductive InputEnd where
  | endOfInput
  | interrupt
  deriving DecidableEq, Repr

/-- What the loop does, as seen from outside. -/
inductive Event where
  | prompted (text : String)
  | printed (text : String)
  deriving DecidableEq, Repr

inductive Ending where
  | returned
  | interrupted
  | aborted (cause : Fatal)

/-- How a fatal cause ends the loop. -/
def Ending.ofCause : Fatal → Ending
  | .fault fault => if fault.kind = .interrupt then interrupted else aborted (.fault fault)
  | cause => aborted cause

/-- What is still printed when the input has ended, and how the loop ends then. -/
def InputEnd.closing : InputEnd → List String × Ending
  | endOfInput => (["\n"], .returned)
  | interrupt => ([], .interrupted)

/-- A line is followed by the next, on the stack that it leaves, or ends the loop. -/
def next (handled : Handled) : Except Ending Stack :=
  match handled.verdict with
  | .proceed => .ok handled.stack
  | .stop => .error .returned
  | .aborted cause => .error (.ofCause cause)

/-- A terminal reads a line after a prompt, unless the input has ended, and prints texts. -/
structure Terminal (m : Type → Type) where
  read : String → m (Except InputEnd String)
  print : String → m Unit

/-- One turn of the loop. -/
def turn {m : Type → Type} [Monad m] (t : Terminal m) (c : Console) (prompt : String)
    (s : Stack) : m (Except Ending Stack) := do
  match ← t.read prompt with
  | .error inputEnd =>
    inputEnd.closing.1.forM t.print
    return .error inputEnd.closing.2
  | .ok line =>
    let handled := c.handle s line
    t.print handled.output
    return next handled

structure Run where
  events : List Event
  ending : Ending

/-- The run of the loop over the lines of its input. -/
def run (c : Console) (prompt : String) (inputEnd : InputEnd) (s : Stack) : List String → Run
  | [] => ⟨.prompted prompt :: inputEnd.closing.1.map .printed, inputEnd.closing.2⟩
  | line :: rest =>
    let handled := c.handle s line
    let events := [Event.prompted prompt, Event.printed handled.output]
    match next handled with
    | .error ending => ⟨events, ending⟩
    | .ok s' =>
      let later := run c prompt inputEnd s' rest
      ⟨events ++ later.events, later.ending⟩

def Run.prompts (r : Run) : List String :=
  r.events.filterMap fun
    | .prompted text => some text
    | .printed _ => none

/-- Everything a run prints, prompts apart. -/
def Run.output (r : Run) : String :=
  String.join (r.events.map fun
    | .prompted _ => ""
    | .printed text => text)

/-- Everything a terminal shows of a run.  An interrupt ends the line. -/
def Run.transcript (r : Run) : String :=
  String.join (r.events.map fun
    | .prompted text => text
    | .printed text => text) ++
  match r.ending with
  | .interrupted => "\n"
  | _ => ""

/-- Starts the loop in an environment.  A history file that cannot be located keeps
it from starting. -/
def start (r : Registry) (e : Environment) (inputEnd : InputEnd) (lines : List String) :
    Except HomeUnknown Run :=
  e.history.map fun _ => run (.ofEnvironment r e) e.prompt inputEnd .empty lines

/-- The lines of a text; the last one need not be terminated. -/
def linesOf (text : String) : List String :=
  let all := (pieces (· == '\n') text.toList).map String.ofList
  if all.getLast? = some "" then all.dropLast else all

end ReadLoop

end PostfixCalc
