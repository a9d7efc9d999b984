import PostfixCalc.Display
import PostfixCalc.Proofs.Session
import PostfixCalc.Proofs.Text.Character
import PostfixCalc.Proofs.Token.Written

/-!
# A stack line can be typed back in

The plain line of a stack consists of the texts of its values.  The texts of integers
and of finite doubles are their literals, which no key can hide, so evaluating the line
pushes the values again.
-/

namespace PostfixCalc

/-- Values whose text is their literal: integers and finite doubles. -/
def Value.isTypeable : Value → Bool
  | i32 _ => true
  | f32 _ => false
  | f64 x => x.isFinite

theorem Value.literal?_text {v : Value} (h : v.isTypeable = true) : literal? v.text = some v := by
  unfold literal? text
  rw [String.toList_ofList]
  cases v with
  | i32 n => exact literalChars?_intChars n
  | f32 x => contradiction
  | f64 x =>
      cases x with
      | nan => contradiction
      | infinite negative => contradiction
      | finite negative rank => exact literalChars?_doubleChars negative rank

theorem Display.stack_plain (s : Stack) :
    Display.stack false s = " ".intercalate (s.toList.map Value.text) := rfl

namespace Session

theorem run_literals (s : Stack) (vs : List Value) :
    run s (vs.map Token.literal) = ⟨[], s.extend vs, none⟩ := by
  induction vs generalizing s with
  | nil => rfl
  | cons v vs ih =>
      rw [List.map_cons, run_literal, ih, ← Stack.extend_singleton, ← Stack.extend_append,
        List.singleton_append]

/-- The plain line of typeable values pushes them onto any stack. -/
theorem eval_display_stack (r : Registry) (s : Stack) {vs : List Value}
    (hvs : ∀ v ∈ vs, v.isTypeable = true) :
    eval r s (Display.stack false (.ofList vs)) = .ran ⟨[], s.extend vs, none⟩ := by
  have hliteral : ∀ v ∈ vs, literal? v.text = some v := by
    intro v hv
    exact Value.literal?_text (hvs v hv)
  have hwords : lineWords (Display.stack false (.ofList vs)) = vs.map Value.text := by
    rw [Display.stack_plain, Stack.toList_ofList]
    apply lineWords_intercalate
    intro word hword
    obtain ⟨v, hv, rfl⟩ := List.mem_map.mp hword
    exact isWord_of_literal? (hliteral v hv)
  have htokens : (vs.map Value.text).map (Token.ofWord r) = vs.map Token.literal := by
    rw [List.map_map]
    apply List.map_congr_left
    intro v hv
    exact Token.ofWord_of_literal? (hliteral v hv)
  have haccepts : Accepts r (Display.stack false (.ofList vs)) := by
    intro word hword
    rw [hwords] at hword
    obtain ⟨v, hv, rfl⟩ := List.mem_map.mp hword
    rw [Token.ofWord_of_literal? (hliteral v hv)]
    rfl
  rw [eval_of_accepts s haccepts, hwords, htokens, run_literals]

/-- The plain line of a stack of integers and finite doubles, evaluated in a fresh
session, meets no error and leaves the same values in the same order. -/
theorem eval_displayed (r : Registry) {vs : List Value}
    (hvs : ∀ v ∈ vs, v.isTypeable = true) :
    ∃ s, eval r .empty (Display.stack false (.ofList vs)) = .ran ⟨[], s, none⟩ ∧
      s.toList = vs := by
  refine ⟨Stack.empty.extend vs, eval_display_stack r .empty hvs, ?_⟩
  rw [Stack.toList_extend, Stack.toList_empty, List.nil_append]

/-- The least integer, a negative zero, the least double, and one that is written with
an exponent and without a point. -/
def extremes : List Value :=
  [.i32 Int32.minValue, .f64 (.ofBits .double 0x8000000000000000), .f64 (.ofBits .double 1),
    .f64 (.ofBits .double 0x4480F0CF064DD592)]

theorem eval_displayed_extremes :
    (∀ v ∈ extremes, v.isTypeable = true) ∧
      Display.stack false (.ofList extremes) = "-2147483648 -0.0 5e-324 1e+22" ∧
      ∃ s, eval .builtin .empty (Display.stack false (.ofList extremes)) = .ran ⟨[], s, none⟩ ∧
        s.toList = extremes := by
  have htypeable : ∀ v ∈ extremes, v.isTypeable = true := by decide +kernel
  have htext : Display.stack false (.ofList extremes) = "-2147483648 -0.0 5e-324 1e+22" := by
    decide +kernel
  exact ⟨htypeable, htext, eval_displayed .builtin htypeable⟩

end Session

end PostfixCalc
