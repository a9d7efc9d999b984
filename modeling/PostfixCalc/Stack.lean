import PostfixCalc.Value

/-!
# The operand stack

A stack keeps its values from the top down.  It is listed and written from the
bottom up, oldest value first.  Reading (`peek`, `slice`) and removing (`chop`)
are separate operations; their depths are integers, and a depth outside the
stack is reported.
-/

namespace PostfixCalc

/-- The operand stack; its values from the top down. -/
structure Stack where
  fromTop : List Value
  deriving DecidableEq

namespace Stack

/-- Operations that reach below the top. -/
inductive Reach where
  | peek
  | slice
  | chop
  deriving DecidableEq, Repr

def Reach.name : Reach → String
  | peek => "peek_n"
  | slice => "slice_n"
  | chop => "chop_n"

/-- An operation that reached outside the stack. -/
structure OutOfReach where
  reach : Reach
  depth : Int
  height : Nat
  deriving DecidableEq, Repr

def OutOfReach.message (e : OutOfReach) : String :=
  e.reach.name ++ "(" ++ intText e.depth ++ ") on a stack of height " ++ natText e.height

/-- The stack of a list of values, oldest first. -/
def ofList (vs : List Value) : Stack := ⟨vs.reverse⟩

/-- The values of a stack, oldest first. -/
def toList (s : Stack) : List Value := s.fromTop.reverse

def empty : Stack := ⟨[]⟩

instance : Inhabited Stack := ⟨empty⟩

def height (s : Stack) : Nat := s.fromTop.length

def push (s : Stack) (v : Value) : Stack := ⟨v :: s.fromTop⟩

/-- Puts the values of a list on top in order; the last one ends up on top. -/
def extend (s : Stack) (vs : List Value) : Stack := ⟨vs.reverse ++ s.fromTop⟩

/-- The top value, if any, and the stack without it. -/
def pop (s : Stack) : Option Value × Stack :=
  match s.fromTop with
  | [] => (none, s)
  | v :: vs => (some v, ⟨vs⟩)

/-- The topmost values, as many as asked for, oldest first. -/
def top (s : Stack) (count : Nat) : List Value := (s.fromTop.take count).reverse

/-- The stack without its topmost values, as many as asked for. -/
def drop (s : Stack) (count : Nat) : Stack := ⟨s.fromTop.drop count⟩

/-- The value at a depth; the top has depth zero. -/
def peek (s : Stack) (depth : Int) : Except OutOfReach Value :=
  if depth < 0 then .error ⟨.peek, depth, s.height⟩
  else
    match s.fromTop[depth.toNat]? with
    | some v => .ok v
    | none => .error ⟨.peek, depth, s.height⟩

/-- The values from a depth up to the top, oldest first. -/
def slice (s : Stack) (depth : Int) : Except OutOfReach (List Value) :=
  if depth < 0 ∨ (s.height : Int) ≤ depth then .error ⟨.slice, depth, s.height⟩
  else .ok (s.top (depth.toNat + 1))

def chop (s : Stack) (count : Int) : Except OutOfReach Stack :=
  if count < 0 ∨ (s.height : Int) < count then .error ⟨.chop, count, s.height⟩
  else .ok (s.drop count.toNat)

def fullText (s : Stack) : String :=
  "Stack([" ++ ", ".intercalate (s.toList.map Value.fullText) ++ "])"

@[simp] theorem toList_ofList (vs : List Value) : (ofList vs).toList = vs := by
  simp [ofList, toList]

@[simp] theorem ofList_toList (s : Stack) : ofList s.toList = s := by
  simp [ofList, toList]

@[simp] theorem toList_empty : empty.toList = [] := rfl

@[simp] theorem toList_push (s : Stack) (v : Value) :
    (s.push v).toList = s.toList ++ [v] := by
  simp [push, toList]

@[simp] theorem toList_extend (s : Stack) (vs : List Value) :
    (s.extend vs).toList = s.toList ++ vs := by
  simp [extend, toList]

theorem length_toList (s : Stack) : s.toList.length = s.height := by
  simp [toList, height]

end Stack

end PostfixCalc
