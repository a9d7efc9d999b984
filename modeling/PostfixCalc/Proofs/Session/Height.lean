import Mathlib.Algebra.Ring.Int.Defs
import PostfixCalc.Proofs.Application.InPlace
import PostfixCalc.Proofs.Session

/-!
# The stack below and above

A run that never finds its stack too short does not depend on what is below: with
more values underneath it ends in the same way, records the same errors, and leaves
the additional values where they are.  Stacks that are too short are excluded because
their errors record the height, and because a function may find its missing arguments
among the additional values.

A run is accompanied by its attempts: the functions that it applies, each with the stack
that it finds.  A literal makes the stack higher by one, a successful attempt by one less
the number of its arguments, and a failed one leaves the height alone and is the only
source of errors.  So the height after a line and the number of its errors can be
computed from its tokens and the attempts that succeeded.
-/

namespace PostfixCalc

/-- A stack with the values of another one on top. -/
instance : Append Stack := ⟨fun below s => below.extend s.toList⟩

@[simp] theorem Stack.toList_append (p s : Stack) :
    (p ++ s).toList = p.toList ++ s.toList :=
  p.toList_extend s.toList

theorem Stack.append_extend (p s : Stack) (vs : List Value) :
    p ++ s.extend vs = (p ++ s).extend vs := by
  change p.extend (s.extend vs).toList = (p.extend s.toList).extend vs
  rw [toList_extend, extend_append]

theorem Stack.append_push (p s : Stack) (v : Value) : p ++ s.push v = (p ++ s).push v :=
  p.append_extend s [v]

/-- The same outcome with other values below. -/
def Outcome.above (p : Stack) (outcome : Outcome) : Outcome :=
  { outcome with stack := p ++ outcome.stack }

/-- The same evaluation with other values below. -/
def Evaluation.above (p : Stack) : Evaluation → Evaluation
  | rejected e => rejected e
  | ran outcome => ran (outcome.above p)

/-- An application that does not find the stack too short ignores what is below. -/
theorem Function.apply_append {f : Function} (p : Stack) {s : Stack}
    (hreach : ∀ e, f.apply s = .error (.error e) → e.kindName ≠ "WrongArity") :
    f.apply (p ++ s) = (f.apply s).map (p ++ ·) := by
  rcases f.apply_cases s with
    houtputs | hshort | ⟨output, below, args, houtputs, hargs, rfl, happly⟩
  · rw [apply_of_outputs_ne (p ++ s) houtputs, apply_of_outputs_ne s houtputs]
    rfl
  · exact absurd rfl (hreach _ hshort)
  · rw [Stack.append_extend, apply_extend (p ++ below) houtputs hargs, happly]
    cases f.answer output args with
    | error failure => rfl
    | ok v => exact congrArg Except.ok (p.append_push below v).symm

namespace Session

theorem run_append (p s : Stack) {tokens : List Token}
    (hreach : ∀ e ∈ (run s tokens).errors, e.kindName ≠ "WrongArity") :
    run (p ++ s) tokens = (run s tokens).above p := by
  induction tokens generalizing s with
  | nil => rfl
  | cons token rest ih =>
      cases token with
      | literal v =>
          rw [run_literal, run_literal, ← Stack.append_push]
          exact ih (s.push v) hreach
      | bad text => exact ih s hreach
      | function f =>
          cases happly : f.apply s with
          | ok s' =>
              have hframe : f.apply (p ++ s) = .ok (p ++ s') := by
                rw [Function.apply_append p (by simp [happly]), happly]
                rfl
              rw [run_of_apply_ok happly] at hreach ⊢
              rw [run_of_apply_ok hframe, ih s' hreach]
          | error failure =>
              cases failure with
              | fatal cause =>
                  have hframe : f.apply (p ++ s) = .error (.fatal cause) := by
                    rw [Function.apply_append p (by simp [happly]), happly]
                    rfl
                  rw [run_of_apply_fatal happly, run_of_apply_fatal hframe]
                  rfl
              | error e =>
                  rw [run_of_apply_error happly] at hreach ⊢
                  obtain ⟨he, hrest⟩ := List.forall_mem_cons.mp hreach
                  have hframe : f.apply (p ++ s) = .error (.error e) := by
                    rw [Function.apply_append p (by simp [happly, he]), happly]
                    rfl
                  rw [run_of_apply_error hframe, ih s hrest]
                  rfl

/-- Evaluating a line on a taller stack: if it meets no stack that is too short, the
outcome is the same and the additional values stay where they are. -/
theorem eval_frame (r : Registry) (line : String) (p s : Stack)
    (hreach : ∀ e ∈ (eval r s line).errors, e.kindName ≠ "WrongArity") :
    eval r (p ++ s) line = (eval r s line).above p ∧
      (eval r (p ++ s) line).stackFrom (p ++ s) = p ++ (eval r s line).stackFrom s := by
  unfold eval at hreach ⊢
  cases hparse : parse r line with
  | error e => exact ⟨rfl, rfl⟩
  | ok tokens =>
      rw [hparse] at hreach
      dsimp only
      rw [run_append p s hreach]
      exact ⟨rfl, rfl⟩

/-- The frame of a line with a failed application. -/
theorem eval_frame_of_mismatch :
    (∀ e ∈ (eval .builtin (.ofList [.i32 5]) "2 sub 1.5 add").errors,
        e.kindName ≠ "WrongArity") ∧
      eval .builtin (.ofList [.f64 .nan] ++ .ofList [.i32 5]) "2 sub 1.5 add" =
        (eval .builtin (.ofList [.i32 5]) "2 sub 1.5 add").above (.ofList [.f64 .nan]) ∧
      (eval .builtin (.ofList [.f64 .nan] ++ .ofList [.i32 5]) "2 sub 1.5 add").stackFrom
          (.ofList [.f64 .nan] ++ .ofList [.i32 5]) =
        .ofList [.f64 .nan] ++
          (eval .builtin (.ofList [.i32 5]) "2 sub 1.5 add").stackFrom (.ofList [.i32 5]) := by
  have hreach : ∀ e ∈ (eval .builtin (.ofList [.i32 5]) "2 sub 1.5 add").errors,
      e.kindName ≠ "WrongArity" := by decide +kernel
  exact ⟨hreach, eval_frame _ _ _ _ hreach⟩

end Session

/-! ## Heights -/

namespace Token

/-- The value of a literal. -/
def value? : Token → Option Value
  | literal v => some v
  | _ => none

def function? : Token → Option Function
  | function f => some f
  | _ => none

end Token

/-- A function that is applied in the course of a run, and the stack that it finds. -/
structure Attempt where
  function : Function
  stack : Stack

namespace Attempt

def succeeds (a : Attempt) : Bool := (a.function.apply a.stack).isOk

/-- How much higher the stack is after a success. -/
def growth (a : Attempt) : ℤ := 1 - a.function.signature.arity

end Attempt

theorem Function.height_of_apply_ok {f : Function} {s s' : Stack} (h : f.apply s = .ok s') :
    s'.height + f.signature.arity = s.height + 1 := by
  obtain ⟨below, args, v, rfl, rfl, -, htypes, -⟩ := apply_eq_ok_iff.mp h
  have harity : f.signature.arity = args.length := by
    rw [Signature.arity, ← htypes, List.length_map]
  rw [← Stack.extend_singleton, Stack.height_extend, Stack.height_extend, harity]
  exact Nat.add_right_comm _ _ _

theorem Attempt.calls_of_succeeds (a : Attempt) (h : a.succeeds = true) :
    a.function.Calls a.stack := by
  rw [succeeds] at h
  cases happly : a.function.apply a.stack with
  | ok s' => exact Function.calls_of_apply_ok happly
  | error failure =>
      rw [happly] at h
      contradiction

namespace Session

/-- The attempts of a run, in order. -/
def attempts (s : Stack) : List Token → List Attempt
  | [] => []
  | .literal v :: rest => attempts (s.push v) rest
  | .bad _ :: rest => attempts s rest
  | .function f :: rest =>
    ⟨f, s⟩ ::
      match f.apply s with
      | .ok s' => attempts s' rest
      | .error (.error _) => attempts s rest
      | .error (.fatal _) => []

/-- The attempts that succeed. -/
def successes (s : Stack) (tokens : List Token) : List Attempt :=
  (attempts s tokens).filter Attempt.succeeds

section Step

variable {f : Function} {s s' : Stack}

theorem attempts_of_apply_ok (h : f.apply s = .ok s') (rest : List Token) :
    attempts s (.function f :: rest) = ⟨f, s⟩ :: attempts s' rest := by
  simp only [attempts, h]

theorem attempts_of_apply_error {e : ApplyError} (h : f.apply s = .error (.error e))
    (rest : List Token) : attempts s (.function f :: rest) = ⟨f, s⟩ :: attempts s rest := by
  simp only [attempts, h]

theorem successes_of_apply_ok (h : f.apply s = .ok s') (rest : List Token) :
    successes s (.function f :: rest) = ⟨f, s⟩ :: successes s' rest := by
  have hsucceeds : Attempt.succeeds ⟨f, s⟩ = true := by
    rw [Attempt.succeeds, h]
    rfl
  rw [successes, attempts_of_apply_ok h, List.filter_cons_of_pos hsucceeds, successes]

theorem successes_of_apply_error {e : ApplyError} (h : f.apply s = .error (.error e))
    (rest : List Token) : successes s (.function f :: rest) = successes s rest := by
  have hfails : ¬Attempt.succeeds ⟨f, s⟩ = true := by
    rw [Attempt.succeeds, h]
    exact Bool.false_ne_true
  rw [successes, attempts_of_apply_error h, List.filter_cons_of_neg hfails, successes]

end Step

/-- The accounts of a run. -/
structure Balanced (s : Stack) (tokens : List Token) (outcome : Outcome) : Prop where
  functions : (attempts s tokens).map Attempt.function = tokens.filterMap Token.function?
  height : (outcome.stack.height : ℤ) =
    s.height + (tokens.filterMap Token.value?).length +
      ((successes s tokens).map Attempt.growth).sum
  errors : (outcome.errors.length : ℤ) =
    (tokens.filterMap Token.function?).length - (successes s tokens).length

theorem balanced_run {s : Stack} {tokens : List Token}
    (hfinished : (run s tokens).fatal? = none) : Balanced s tokens (run s tokens) := by
  induction tokens generalizing s with
  | nil => exact ⟨rfl, by simp [run, successes, attempts], by simp [run, successes, attempts]⟩
  | cons token rest ih =>
      cases token with
      | literal v =>
          obtain ⟨hfunctions, hheight, herrors⟩ := ih (s := s.push v) hfinished
          refine ⟨hfunctions, ?_, herrors⟩
          have hpush : (s.push v).height = s.height + 1 := rfl
          rw [run_literal, hheight, hpush]
          simp [Token.value?, successes, attempts]
          omega
      | bad text =>
          obtain ⟨hfunctions, hheight, herrors⟩ := ih (s := s) hfinished
          exact ⟨hfunctions, hheight, herrors⟩
      | function f =>
          cases happly : f.apply s with
          | ok s' =>
              rw [run_of_apply_ok happly] at hfinished ⊢
              obtain ⟨hfunctions, hheight, herrors⟩ := ih hfinished
              have hgrowth := Function.height_of_apply_ok happly
              refine ⟨?_, ?_, ?_⟩
              · rw [attempts_of_apply_ok happly, List.map_cons, hfunctions]
                rfl
              · rw [successes_of_apply_ok happly, List.map_cons, List.sum_cons, hheight,
                  Attempt.growth]
                simp only [Token.value?, List.filterMap_cons]
                omega
              · rw [successes_of_apply_ok happly, herrors]
                simp only [Token.function?, List.filterMap_cons, List.length_cons]
                omega
          | error failure =>
              cases failure with
              | error e =>
                  rw [run_of_apply_error happly] at hfinished ⊢
                  obtain ⟨hfunctions, hheight, herrors⟩ := ih hfinished
                  refine ⟨?_, ?_, ?_⟩
                  · rw [attempts_of_apply_error happly, List.map_cons, hfunctions]
                    rfl
                  · rw [successes_of_apply_error happly]
                    exact hheight
                  · rw [successes_of_apply_error happly]
                    simp only [Token.function?, List.filterMap_cons, List.length_cons]
                    omega
              | fatal cause =>
                  rw [run_of_apply_fatal happly] at hfinished
                  contradiction

/-- A line that runs to its end attempts its functions in order.  The height afterwards is
the height before, plus the number of literals, plus one less the number of its inputs for
each attempt that succeeded; and there is an error for every other attempt.  Each success
has called its implementation, and no implementation is called on a stack that is too
short for it. -/
theorem eval_accounts {r : Registry} {s : Stack} {line : String} {outcome : Outcome}
    (heval : eval r s line = .ran outcome) (hfinished : outcome.fatal? = none) :
    let tokens := (Token.ofLine r line).map Prod.snd
    let literals := tokens.filterMap Token.value?
    let functions := tokens.filterMap Token.function?
    (attempts s tokens).map Attempt.function = functions ∧
      (outcome.stack.height : ℤ) = s.height + literals.length +
        ((successes s tokens).map fun a => 1 - (a.function.signature.arity : ℤ)).sum ∧
      (outcome.errors.length : ℤ) = functions.length - (successes s tokens).length ∧
      ∀ a ∈ attempts s tokens,
        (a.succeeds = true → a.function.Calls a.stack) ∧
          (a.function.Calls a.stack → a.function.signature.arity ≤ a.stack.height) := by
  have hrun : outcome = run s ((Token.ofLine r line).map Prod.snd) := by
    rw [eval, parse_of_accepts (accepts_of_eval heval)] at heval
    injection heval with heval
    exact heval.symm
  subst hrun
  obtain ⟨hfunctions, hheight, herrors⟩ := balanced_run hfinished
  exact ⟨hfunctions, hheight, herrors, fun a _ =>
    ⟨a.calls_of_succeeds, Function.arity_le_height_of_calls⟩⟩

/-- A sine and a sum that fail, a sign that is changed, and a sum that succeeds. -/
theorem eval_accounts_of_sums :
    let s := Stack.ofList [.i32 5]
    let line := "2 sin 1.5 add fneg 7 8 add"
    let tokens := (Token.ofLine .builtin line).map Prod.snd
    (successes s tokens).map (fun a => a.function.name) = ["float negate", "add"] ∧
      ∃ outcome, eval .builtin s line = .ran outcome ∧ outcome.fatal? = none ∧
        (attempts s tokens).map Attempt.function = tokens.filterMap Token.function? ∧
        (outcome.stack.height : ℤ) = s.height + (tokens.filterMap Token.value?).length +
          ((successes s tokens).map fun a => 1 - (a.function.signature.arity : ℤ)).sum ∧
        (outcome.errors.length : ℤ) =
          (tokens.filterMap Token.function?).length - (successes s tokens).length ∧
        ∀ a ∈ attempts s tokens,
          (a.succeeds = true → a.function.Calls a.stack) ∧
            (a.function.Calls a.stack → a.function.signature.arity ≤ a.stack.height) := by
  intro s line tokens
  have haccepts : Accepts .builtin line := by
    unfold Accepts
    decide +kernel
  have heval := eval_of_accepts s haccepts
  have hfinished : (run s ((lineWords line).map (Token.ofWord .builtin))).fatal? = none := by
    decide +kernel
  exact ⟨by decide +kernel, _, heval, hfinished, eval_accounts heval hfinished⟩

end Session

end PostfixCalc
