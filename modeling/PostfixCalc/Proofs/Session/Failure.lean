import PostfixCalc.Proofs.Session
import PostfixCalc.Proofs.Text.Character

/-!
# Failed applications leave no trace in the result

A failed application is recorded and has no other effect.  A line that runs to its
end can therefore be cleared of the words that failed: what is left meets no error
and comes to the same stack.  Which words fail depends on the stacks that they
meet, so the words are first marked with the errors that they met.
-/

namespace PostfixCalc

namespace Function

end Function

/-! ## Marking the words of a line -/

/-- The error of a token on a stack, if it is a function whose application fails
there. -/
def Token.failure? (s : Stack) : Token → Option ApplyError
  | function f =>
    match f.apply s with
    | .error (.error e) => some e
    | _ => none
  | _ => none

namespace Session

/-- Words with the errors that their applications meet, each on the stack that the
words before it leave. -/
def marked (r : Registry) (s : Stack) : List String → List (String × Option ApplyError)
  | [] => []
  | word :: rest =>
    let token := Token.ofWord r word
    (word, token.failure? s) :: marked r (run s [token]).stack rest

/-- The words that do not fail. -/
def kept (r : Registry) (s : Stack) (ws : List String) : List String :=
  ((marked r s ws).filter fun mark => mark.2.isNone).map Prod.fst

variable {r : Registry}

theorem kept_cons_of_none {s : Stack} {word : String} (rest : List String)
    (h : (Token.ofWord r word).failure? s = none) :
    kept r s (word :: rest) = word :: kept r (run s [Token.ofWord r word]).stack rest := by
  simp [kept, marked, h]

theorem kept_cons_of_some {s : Stack} {word : String} {e : ApplyError} (rest : List String)
    (h : (Token.ofWord r word).failure? s = some e) :
    kept r s (word :: rest) = kept r (run s [Token.ofWord r word]).stack rest := by
  simp [kept, marked, h]

/-- In a run that comes to its end, a token that does not fail goes over to the rest. -/
theorem run_cons_of_failure?_none {s : Stack} {token : Token} {rest : List Token}
    (h : token.failure? s = none) (hfinished : (run s (token :: rest)).fatal? = none)
    (rest' : List Token) : run s (token :: rest') = run (run s [token]).stack rest' := by
  cases token with
  | literal v => rfl
  | bad text => rfl
  | function f =>
      cases happly : f.apply s with
      | ok s' =>
          rw [run_of_apply_ok happly, run_of_apply_ok happly]
          rfl
      | error failure =>
          cases failure with
          | error e => simp [Token.failure?, happly] at h
          | fatal cause =>
              rw [run_of_apply_fatal happly] at hfinished
              contradiction

theorem run_cons_of_failure?_some {s : Stack} {token : Token} {e : ApplyError}
    (h : token.failure? s = some e) (rest : List Token) :
    run s (token :: rest) = { run s rest with errors := e :: (run s rest).errors } := by
  cases token with
  | literal v => contradiction
  | bad text => contradiction
  | function f =>
      cases happly : f.apply s with
      | ok s' => simp [Token.failure?, happly] at h
      | error failure =>
          cases failure with
          | error e' =>
              obtain rfl : e' = e := by simpa [Token.failure?, happly] using h
              exact run_of_apply_error happly rest
          | fatal cause => simp [Token.failure?, happly] at h

/-- A run that comes to its end, and the run of the words that do not fail: a failed
application is a step of the first alone, and leaves both on the same stack. -/
theorem run_kept {s : Stack} {ws : List String}
    (hfinished : (run s (ws.map (Token.ofWord r))).fatal? = none) :
    run s ((kept r s ws).map (Token.ofWord r)) =
        ⟨[], (run s (ws.map (Token.ofWord r))).stack, none⟩ ∧
      (run s (ws.map (Token.ofWord r))).errors = (marked r s ws).filterMap Prod.snd := by
  induction ws generalizing s with
  | nil => exact ⟨rfl, rfl⟩
  | cons word rest ih =>
      rw [List.map_cons] at hfinished ⊢
      rw [marked, List.filterMap_cons]
      cases hfailure : (Token.ofWord r word).failure? s with
      | none =>
          have hstep := run_cons_of_failure?_none hfailure hfinished
          rw [hstep (rest.map (Token.ofWord r))] at hfinished ⊢
          rw [kept_cons_of_none rest hfailure, List.map_cons,
            hstep ((kept r _ rest).map (Token.ofWord r))]
          exact ih hfinished
      | some e =>
          have hstep := run_cons_of_failure?_some hfailure
          have hstack : (run s [Token.ofWord r word]).stack = s := by
            rw [hstep]
            rfl
          rw [hstep] at hfinished ⊢
          rw [kept_cons_of_some rest hfailure, hstack]
          obtain ⟨hrun, herrors⟩ := ih hfinished
          exact ⟨hrun, congrArg (e :: ·) herrors⟩

end Session

end PostfixCalc
