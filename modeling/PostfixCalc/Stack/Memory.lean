import Mathlib.Logic.Function.Basic
import PostfixCalc.Stack.Script

/-!
# Stacks and cursors in memory

Here the values of a stack are kept in memory and changed in place, so that they change for
everyone who knows where they are.  A cursor holds no values: it points to a place in
memory, and it keeps how many of the values there it has run over.  Several scripts
work on one stack, each with a cursor of its own, and their steps are interleaved.

A cursor that pointed to the values of the stack itself would run over whatever is there
when it is drained.  Making a cursor therefore copies them to a place that is not in use.
-/

namespace PostfixCalc

namespace Script

/-- The steps that make or drain a cursor. -/
def Step.movesCursor : Step → Bool
  | .keepCursor => true
  | .drainCursor => true
  | _ => false

end Script

/-- Where the values lie that a cursor runs over, and how many of them it has passed. -/
structure Pointer where
  address : Nat
  passed : Nat
  deriving DecidableEq, Repr

/-- One stack, and the cursors of the scripts that have one. -/
structure Memory where
  /-- The values at each address, oldest first. -/
  values : Nat → List Value
  /-- Addresses from this one on are not in use. -/
  unused : Nat
  stackAddress : Nat
  /-- The cursors by the number of the script. -/
  pointers : Nat → Option Pointer

namespace Memory

open Script

/-- A memory with a stack and no cursors. -/
def ofStack (s : Stack) : Memory where
  values := Function.update (fun _ => []) 0 s.toList
  unused := 1
  stackAddress := 0
  pointers := fun _ => none

/-- The stack as it lies in memory. -/
def stack (m : Memory) : Stack := .ofList (m.values m.stackAddress)

/-- What the cursor of a script has not passed yet; nothing, if there is none. -/
def remaining (m : Memory) (script : Nat) : List Value :=
  match m.pointers script with
  | none => []
  | some p => (m.values p.address).drop p.passed

/-- Changes the values of the stack in place. -/
def setStack (m : Memory) (s : Stack) : Memory :=
  { m with values := Function.update m.values m.stackAddress s.toList }

/-- Copies the values of the stack, for the cursor of a script. -/
def keepCursor (m : Memory) (script : Nat) : Memory :=
  { m with
    values := Function.update m.values m.unused (m.values m.stackAddress)
    unused := m.unused + 1
    pointers := Function.update m.pointers script (some ⟨m.unused, 0⟩) }

/-- Lets the cursor of a script pass everything. -/
def drainCursor (m : Memory) (script : Nat) : Memory :=
  { m with
    pointers := Function.update m.pointers script
      ((m.pointers script).map fun p => ⟨p.address, (m.values p.address).length⟩) }

/-- Runs one step of a script. -/
def run (m : Memory) (script : Nat) : Step → Except Trouble Answer × Memory
  | .keepCursor => (.ok .done, m.keepCursor script)
  | .drainCursor => (.ok (.values (m.remaining script)), m.drainCursor script)
  | step =>
    ((Script.run (start m.stack) step).1, m.setStack (Script.run (start m.stack) step).2.stack)

/-- Runs interleaved steps, each of one of the scripts. -/
def runAll (m : Memory) : List (Nat × Step) → List (Except Trouble Answer) × Memory
  | [] => ([], m)
  | (script, first) :: rest =>
    ((run m script first).1 :: (runAll (run m script first).2 rest).1,
      (runAll (run m script first).2 rest).2)

end Memory

end PostfixCalc
