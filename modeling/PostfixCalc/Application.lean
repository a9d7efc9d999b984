import PostfixCalc.Function
import PostfixCalc.Stack

/-!
# Checked application

The calculator is dynamically but strongly typed.  Before a function runs, the
stack must hold enough values and each argument must be of the declared type;
afterwards the reply must be a scalar of the declared output type.  An
application yields a new stack only when all checks have passed, so a failed one
has no effect.

A fault that an implementation gives up with is reported as a breach of its contract
if it is recoverable.  Every other failure of an implementation passes on as it is.

An application can also be carried out step by step on one stack that is changed in
place, with the implementation called as an effect.  It may keep a count, consult a clock
or answer differently each time; what it is given, and how often, can be observed.  A
command that fails leaves behind whatever it has done to the stack by then, so that
it has to be shown that a failed application has done nothing.
-/

namespace PostfixCalc

/-- Carries on with what was read from a stack.  Reaching outside the stack is a fault
that no application survives. -/
def withinReach {α : Type} : Except Stack.OutOfReach α → Except Failure α
  | .ok a => .ok a
  | .error e => .error (.fatal (.fault (.raised .index e.message)))

namespace Stack

/-- The first argument that is not of its declared type: its place, counted from the
given one, the type and the argument.  Of `arity` arguments the one at place `i` lies
`arity - i - 1` below the top. -/
def firstMismatch? (s : Stack) (arity place : Nat) :
    List Ty → Except OutOfReach (Option (Nat × Ty × Value))
  | [] => .ok none
  | t :: ts =>
    match s.peek (arity - place - 1) with
    | .error e => .error e
    | .ok v =>
      if v.hasType t then s.firstMismatch? arity (place + 1) ts
      else .ok (some (place, t, v))

def arguments (s : Stack) (arity : Nat) : Except OutOfReach (List Value) :=
  if arity = 0 then .ok [] else s.slice (arity - 1)

end Stack

namespace Function

/-- Reports a breach in the given words, or the fault that arose in finding them. -/
def breachOf (f : Function) (breach : String → Breach) : Except Fault String → Failure
  | .ok text => .error (.brokenCallee f (breach text))
  | .error fault => .fatal (.fault fault)

/-- The value in a reply that honours the output type. -/
def checkReply (f : Function) (output : Ty) : Except Failure Reply → Except Failure Value
  | .ok reply =>
    match reply.value? output with
    | some v => .ok v
    | none => .error (f.breachOf (.returned reply) reply.fullText)
  | .error (.fatal (.fault fault)) =>
    if fault.kind.isRecoverable then .error (f.breachOf (.failed fault) fault.text)
    else .error (.fatal (.fault fault))
  | .error failure => .error failure

/-- Applies a function to the top of a stack: its arguments are replaced by its
result. -/
def apply (f : Function) (s : Stack) : Except Failure Stack :=
  match f.signature.outputs with
  | [output] =>
    let arity := f.signature.arity
    if s.height < arity then .error (.error (.wrongArity f s.height))
    else do
      match ← withinReach (s.firstMismatch? arity 0 f.signature.inputs) with
      | some (position, expected, actual) =>
        .error (.error (.typeMismatch f position expected actual))
      | none =>
        let args ← withinReach (s.arguments arity)
        let v ← f.checkReply output (f.implementation args)
        let rest ← withinReach (s.chop arity)
        .ok (rest.push v)
  | _ => .error (.fatal (.signature (.outputCount f)))

end Function

/-! ## Application in place -/

/-- What is done to a stack in place, with effects in `m`. -/
abbrev Command (m : Type → Type) (α : Type) := ExceptT Failure (StateT Stack m) α

namespace Command

variable {m : Type → Type} [Monad m] {α β : Type}

/-- Runs a command on a stack: how it ends, and the stack that it leaves. -/
def on (c : Command m α) (s : Stack) : m (Except Failure α × Stack) :=
  (ExceptT.run c).run s

@[simp] theorem on_bind (c : Command m α) (next : α → Command m β) (s : Stack) :
    (c >>= next).on s = c.on s >>= fun
      | (.ok a, s') => (next a).on s'
      | (.error failure, s') => pure (.error failure, s') := by
  rw [on, ExceptT.run_bind, StateT.run_bind]
  apply bind_congr
  rintro ⟨result, s'⟩
  cases result with
  | ok a => rfl
  | error failure => rfl

@[simp] theorem on_throw (failure : Failure) (s : Stack) :
    (throw failure : Command m α).on s = pure (.error failure, s) := rfl

@[simp] theorem on_liftM_except (result : Except Failure α) (s : Stack) :
    (liftM result : Command m α).on s = pure (result, s) := rfl

variable [LawfulMonad m]

@[simp] theorem on_get (s : Stack) : (get : Command m Stack).on s = pure (.ok s, s) := by
  change (Except.ok <$> (get : StateT Stack m Stack)).run s = _
  simp

@[simp] theorem on_set (s s' : Stack) :
    (set s' : Command m PUnit).on s = pure (.ok ⟨⟩, s') := by
  change (Except.ok <$> (set s' : StateT Stack m PUnit)).run s = _
  simp

@[simp] theorem on_modify (change : Stack → Stack) (s : Stack) :
    (modify change : Command m PUnit).on s = pure (.ok ⟨⟩, change s) := by
  change (Except.ok <$> (modify change : StateT Stack m PUnit)).run s = _
  simp

@[simp] theorem on_liftM (effect : m α) (s : Stack) :
    (liftM effect : Command m α).on s = (fun a => (.ok a, s)) <$> effect := by
  change (Except.ok <$> (liftM effect : StateT Stack m α)).run s = _
  simp

end Command

namespace Function

variable {m : Type → Type} [Monad m]

/-- Applies a function to the top of the stack in place.  Its implementation is called
in `m`. -/
def perform (f : Function) (call : List Value → m (Except Failure Reply)) : Command m Unit := do
  match f.signature.outputs with
  | [output] =>
    let arity := f.signature.arity
    let s ← get
    if s.height < arity then throw (.error (.wrongArity f s.height))
    match ← withinReach (s.firstMismatch? arity 0 f.signature.inputs) with
    | some (position, expected, actual) =>
      throw (.error (.typeMismatch f position expected actual))
    | none =>
      let args ← withinReach (s.arguments arity)
      let reply ← call args
      let v ← f.checkReply output reply
      set (← withinReach ((← get).chop arity))
      modify fun rest => rest.push v
  | _ => throw (.fatal (.signature (.outputCount f)))

/-- How an application ends, and the stack that is there afterwards: unless a new one is
made, it is the same as before. -/
def outcome (f : Function) (s : Stack) : Except Failure Unit × Stack :=
  match f.apply s with
  | .ok s' => (.ok (), s')
  | .error failure => (.error failure, s)

/-- The application of a function to a stack calls its implementation: if the
implementation gave no answer, the application would not come to an end either. -/
def Calls (f : Function) (s : Stack) : Prop := (f.perform fun _ => none).on s = none

end Function

end PostfixCalc
