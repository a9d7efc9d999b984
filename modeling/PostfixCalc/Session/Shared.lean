import PostfixCalc.Session

/-!
# Sessions in one store

Sessions are made in a store that they share: one registry, stacks at addresses, and
whatever lies outside the calculator.  A session knows the address of its stack, and its
steps are carried out in place, so that everyone who knows this address sees what becomes
of the stack.  Steps are addressed to sessions by number and may be interleaved in any way,
and sessions are made in between.

An implementation answers by its arguments alone.  It may have an effect all the same, on
what lies outside.
-/

namespace PostfixCalc
namespace Session

inductive Step where
  | eval (line : String)
  | parse (line : String)
  | clear

inductive Answer where
  | evaluated (e : Evaluation)
  | parsed (tokens : Except Rejection (List (String × Token)))
  | cleared

/-- Runs one step on the stack of a session. -/
def step (r : Registry) (s : Stack) : Step → Answer × Stack
  | .eval line => (.evaluated (eval r s line), (eval r s line).stackFrom s)
  | .parse line => (.parsed (parse r line), s)
  | .clear => (.cleared, .empty)

/-- The steps of one session in a row, from a given stack: the answers, each with
the stack after it. -/
def runAlone (r : Registry) (s : Stack) : List Step → List (Answer × Stack)
  | [] => []
  | first :: rest => step r s first :: runAlone r (step r s first).2 rest

/-- The stack of a session after steps in a row. -/
def stackAfter (r : Registry) (steps : List Step) : Stack :=
  steps.foldl (fun s next => (step r s next).2) .empty

end Session

/-- What a function that is called with arguments does to what lies outside. -/
abbrev Effect (σ : Type) := Function → List Value → σ → σ

structure Store (σ : Type) where
  registry : Registry
  /-- The stacks by their addresses. -/
  cells : List Stack
  /-- The addresses of the stacks of the sessions, by number. -/
  sessions : List Nat
  outside : σ

namespace Store

variable {σ : Type}

/-- What is done in a store. -/
abbrev Program (σ α : Type) := StateM (Store σ) α

/-- A store without sessions. -/
def ofRegistry (r : Registry) (outside : σ) : Store σ := ⟨r, [], [], outside⟩

def stackAt (m : Store σ) (address : Nat) : Stack := m.cells[address]?.getD .empty

def putStack (m : Store σ) (address : Nat) (s : Stack) : Store σ :=
  { m with cells := m.cells.set address s }

/-- Makes a session, with an empty stack at an address that is not in use. -/
def create : Program σ Unit :=
  modify fun m =>
    { m with cells := m.cells ++ [.empty], sessions := m.sessions ++ [m.cells.length] }

/-- The implementation of a function, called with its effect. -/
def call (effect : Effect σ) (f : Function) (args : List Value) :
    StateM σ (Except Failure Reply) := do
  modify (effect f args)
  return f.implementation args

/-- Applies a function to the stack at an address. -/
def perform (effect : Effect σ) (address : Nat) (f : Function) :
    Program σ (Except Failure Unit) := do
  let m ← get
  let ((result, s), outside) := ((f.perform (call effect f)).on (m.stackAt address)).run m.outside
  set ({ m with outside := outside }.putStack address s)
  return result

/-- Runs tokens from left to right on the stack at an address: the errors of the failed
applications, and the fatal cause that ended the run, if any. -/
def run (effect : Effect σ) (address : Nat) :
    List Token → Program σ (List ApplyError × Option Fatal)
  | [] => return ([], none)
  | .literal v :: rest => do
    modify fun m => m.putStack address ((m.stackAt address).push v)
    run effect address rest
  | .bad _ :: rest => run effect address rest
  | .function f :: rest => do
    match ← perform effect address f with
    | .ok () => run effect address rest
    | .error (.fatal cause) => return ([], some cause)
    | .error (.error e) =>
      let (errors, fatal?) ← run effect address rest
      return (e :: errors, fatal?)

/-- Evaluates what the parsing of a line has come to, on the stack at an address. -/
def evalParsed (effect : Effect σ) (address : Nat) :
    Except Rejection (List (String × Token)) → Program σ Evaluation
  | .error e => return .rejected e
  | .ok tokens => do
    let (errors, fatal?) ← run effect address (tokens.map Prod.snd)
    return .ran ⟨errors, (← get).stackAt address, fatal?⟩

/-- Evaluates a line on the stack at an address. -/
def eval (effect : Effect σ) (address : Nat) (line : String) : Program σ Evaluation := do
  evalParsed effect address (Session.parse (← get).registry line)

def step (effect : Effect σ) (address : Nat) : Session.Step → Program σ Session.Answer
  | .eval line => do return .evaluated (← eval effect address line)
  | .parse line => do return .parsed (Session.parse (← get).registry line)
  | .clear => do
    modify fun m => m.putStack address .empty
    return .cleared

/-- What happens in a store: a session is made, or the session with a number takes a
step. -/
inductive Move where
  | create
  | step (session : Nat) (step : Session.Step)

/-- Makes a move.  A step is answered, together with the stack after it, unless there is no
session with its number. -/
def move (effect : Effect σ) : Move → Program σ (Option (Session.Answer × Stack))
  | .create => do
    create
    return none
  | .step session step => do
    match (← get).sessions[session]? with
    | none => return none
    | some address =>
      let answer ← Store.step effect address step
      return some (answer, (← get).stackAt address)

def runAll (effect : Effect σ) : List Move → Program σ (List (Option (Session.Answer × Stack)))
  | [] => return []
  | first :: rest => do
    let answer? ← move effect first
    return answer? :: (← runAll effect rest)

end Store
end PostfixCalc
