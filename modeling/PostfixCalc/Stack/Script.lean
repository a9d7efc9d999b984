import PostfixCalc.Application

/-!
# Scripts of stack steps

A script works on one stack and may keep one cursor over its values.  A cursor
is a snapshot: it runs over the values that the stack had when the cursor was
made, oldest first, whatever happens to the stack in between.
-/

namespace PostfixCalc

/-- What is left of a snapshot of a stack, oldest value first. -/
structure Cursor where
  remaining : List Value
  deriving DecidableEq

namespace Cursor

def exhausted : Cursor := ⟨[]⟩

/-- Everything that is left, and the cursor afterwards. -/
def drain (c : Cursor) : List Value × Cursor := (c.remaining, exhausted)

end Cursor

def Stack.cursor (s : Stack) : Cursor := ⟨s.toList⟩

namespace Script

inductive Step where
  | push (v : Value)
  | extend (vs : List Value)
  | pop
  | height
  | peek (depth : Int)
  | slice (depth : Int)
  | chop (count : Int)
  | clear
  | list
  | keepCursor
  | drainCursor
  | fullText
  | apply (f : Function)

inductive Answer where
  | done
  | value? (v : Option Value)
  | values (vs : List Value)
  | count (n : Nat)
  | text (s : String)

inductive Trouble where
  | outOfReach (e : Stack.OutOfReach)
  | application (e : Failure)

structure State where
  stack : Stack
  cursor : Cursor

/-- A script starts with no cursor to speak of. -/
def start (s : Stack) : State := ⟨s, .exhausted⟩

/-- Runs one step.  A step that fails changes nothing. -/
def run (state : State) : Step → Except Trouble Answer × State
  | .push v => (.ok .done, { state with stack := state.stack.push v })
  | .extend vs => (.ok .done, { state with stack := state.stack.extend vs })
  | .pop => (.ok (.value? state.stack.pop.1), { state with stack := state.stack.pop.2 })
  | .height => (.ok (.count state.stack.height), state)
  | .peek depth =>
    match state.stack.peek depth with
    | .ok v => (.ok (.value? (some v)), state)
    | .error e => (.error (.outOfReach e), state)
  | .slice depth =>
    match state.stack.slice depth with
    | .ok vs => (.ok (.values vs), state)
    | .error e => (.error (.outOfReach e), state)
  | .chop count =>
    match state.stack.chop count with
    | .ok s => (.ok .done, { state with stack := s })
    | .error e => (.error (.outOfReach e), state)
  | .clear => (.ok .done, { state with stack := .empty })
  | .list => (.ok (.values state.stack.toList), state)
  | .keepCursor => (.ok .done, { state with cursor := state.stack.cursor })
  | .drainCursor =>
    (.ok (.values state.cursor.drain.1), { state with cursor := state.cursor.drain.2 })
  | .fullText => (.ok (.text state.stack.fullText), state)
  | .apply f =>
    match f.apply state.stack with
    | .ok s => (.ok .done, { state with stack := s })
    | .error e => (.error (.application e), state)

/-- Runs steps in a row: what each of them comes to, and the state after the last one. -/
def runAll (state : State) : List Step → List (Except Trouble Answer) × State
  | [] => ([], state)
  | first :: rest =>
    ((run state first).1 :: (runAll (run state first).2 rest).1,
      (runAll (run state first).2 rest).2)

end Script

end PostfixCalc
