import PostfixCalc.Token

/-!
# Evaluation of lines

A line is validated as a whole before anything runs: one bad token and the line
is rejected.  Otherwise literals are pushed and functions applied from left to
right.  A failed application leaves the stack alone and its error is collected;
a fatal cause ends the evaluation where it arises.

Sessions share a registry, which never changes, and own a stack each.
-/

namespace PostfixCalc

/-- What running tokens comes to: the errors of the failed applications, the stack
that is left, and the fatal cause that ended the run, if any. -/
structure Outcome where
  errors : List ApplyError
  stack : Stack
  fatal? : Option Fatal

inductive Evaluation where
  /-- The line has bad tokens and nothing ran. -/
  | rejected (e : Rejection)
  /-- The tokens of the line were run. -/
  | ran (outcome : Outcome)

namespace Session

/-- The tokens of a line, unless there are bad ones among them. -/
def parse (r : Registry) (line : String) : Except Rejection (List (String × Token)) :=
  let tokens := Token.ofLine r line
  match tokens.filterMap fun token => token.2.badText? with
  | [] => .ok tokens
  | bad => .error ⟨bad⟩

/-- Runs tokens from left to right.  Bad tokens do not occur in validated lines and
have no effect. -/
def run (s : Stack) : List Token → Outcome
  | [] => ⟨[], s, none⟩
  | .literal v :: rest => run (s.push v) rest
  | .bad _ :: rest => run s rest
  | .function f :: rest =>
    match f.apply s with
    | .ok s' => run s' rest
    | .error (.fatal cause) => ⟨[], s, some cause⟩
    | .error (.error e) =>
      let later := run s rest
      { later with errors := e :: later.errors }

/-- Evaluates a line against a stack. -/
def eval (r : Registry) (s : Stack) (line : String) : Evaluation :=
  match parse r line with
  | .error e => .rejected e
  | .ok tokens => .ran (run s (tokens.map Prod.snd))

end Session

/-- The stack after an evaluation that started from a given one. -/
def Evaluation.stackFrom (before : Stack) : Evaluation → Stack
  | rejected _ => before
  | ran outcome => outcome.stack

end PostfixCalc
