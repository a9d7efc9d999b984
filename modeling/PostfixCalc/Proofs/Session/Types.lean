import Mathlib.Data.List.Forall2
import PostfixCalc.Proofs.Function.Builtin
import PostfixCalc.Proofs.Session

/-!
# Built-in functions look at types only

Which applications fail, and how, is decided by the types of the values on the
stack.  Two runs of built-in functions from stacks of the same types therefore
stay in step: the relation between the stacks is kept by every step, and the
errors that are recorded on the way agree in everything but the mismatched value.
-/

namespace PostfixCalc

/-- Types of the values of a stack, oldest first. -/
def Stack.types (s : Stack) : List Ty := s.toList.map Value.type

@[simp] theorem Stack.types_push (s : Stack) (v : Value) :
    (s.push v).types = s.types ++ [v.type] := by
  simp [types]

@[simp] theorem Stack.types_extend (s : Stack) (vs : List Value) :
    (s.extend vs).types = s.types ++ vs.map Value.type := by
  simp [types]

theorem Stack.length_types (s : Stack) : s.types.length = s.height := by
  rw [types, List.length_map, length_toList]

/-- The same word, or literals of one type. -/
def Interchangeable (word word' : String) : Prop :=
  word = word' ∨
    ∃ v v', literal? word = some v ∧ literal? word' = some v' ∧ v.type = v'.type

/-- Errors of one kind and function, with the same height, or with the same position
and expected type and mismatched values of one type. -/
inductive ApplyError.Alike : ApplyError → ApplyError → Prop where
  | wrongArity (f : Function) (height : Nat) :
      Alike (.wrongArity f height) (.wrongArity f height)
  | typeMismatch {f : Function} {position : Nat} {expected : Ty} {actual actual' : Value} :
      actual.type = actual'.type →
      Alike (.typeMismatch f position expected actual)
        (.typeMismatch f position expected actual')

theorem ApplyError.kindName_ne_of_alike {es es' : List ApplyError}
    (h : List.Forall₂ ApplyError.Alike es es') :
    (∀ e ∈ es, e.kindName ≠ "BrokenCallee") ∧ ∀ e ∈ es', e.kindName ≠ "BrokenCallee" := by
  induction h with
  | nil => simp
  | cons hlike _ ih =>
      rw [List.forall_mem_cons, List.forall_mem_cons]
      cases hlike with
      | wrongArity f height => exact ⟨⟨by simp [kindName], ih.1⟩, by simp [kindName], ih.2⟩
      | typeMismatch htype => exact ⟨⟨by simp [kindName], ih.1⟩, by simp [kindName], ih.2⟩

theorem mismatchAmong?_alike (place : Nat) (ts : List Ty) {args args' : List Value}
    (htypes : args.map Value.type = args'.map Value.type) :
    (mismatchAmong? place ts args = none ∧ mismatchAmong? place ts args' = none) ∨
      ∃ position expected actual actual',
        mismatchAmong? place ts args = some (position, expected, actual) ∧
          mismatchAmong? place ts args' = some (position, expected, actual') ∧
          actual.type = actual'.type := by
  induction ts generalizing place args args' with
  | nil => exact Or.inl ⟨by simp [mismatchAmong?], by simp [mismatchAmong?]⟩
  | cons t ts ih =>
      cases args with
      | nil =>
          obtain rfl := List.map_eq_nil_iff.mp htypes.symm
          exact Or.inl ⟨rfl, rfl⟩
      | cons v vs =>
          obtain ⟨v', vs', rfl, hv, hvs⟩ := List.map_eq_cons_iff.mp htypes.symm
          by_cases htype : v.type = t
          · simp only [mismatchAmong?, Value.hasType, hv, htype, beq_self_eq_true, if_true]
            exact ih (place + 1) hvs.symm
          · refine Or.inr ⟨place, t, v, v', ?_, ?_, hv.symm⟩
            · simp [mismatchAmong?, Value.hasType, htype]
            · simp [mismatchAmong?, Value.hasType, hv, htype]

namespace Builtin

theorem answer_alike {b : Builtin} (hb : b ∈ table) {args args' : List Value}
    (hlength : args.length = b.inputs.length)
    (htypes : args.map Value.type = args'.map Value.type) :
    (∃ v v', b.function.answer b.output args = .ok v ∧
        b.function.answer b.output args' = .ok v' ∧ v.type = v'.type) ∨
      ∃ e e', b.function.answer b.output args = .error (.error e) ∧
        b.function.answer b.output args' = .error (.error e') ∧ e.Alike e' := by
  rcases mismatchAmong?_alike 0 b.inputs htypes with
    ⟨hnone, -⟩ | ⟨position, expected, actual, actual', hfound, hfound', htype⟩
  · have hinputs := types_eq_of_mismatchAmong?_eq_none hlength hnone
    obtain ⟨v, hanswer, hv⟩ := exists_answer hb hinputs
    obtain ⟨v', hanswer', hv'⟩ := exists_answer hb (htypes ▸ hinputs)
    exact Or.inl ⟨v, v', hanswer, hanswer', hv.trans hv'.symm⟩
  · refine Or.inr ⟨.typeMismatch b.function position expected actual,
      .typeMismatch b.function position expected actual', ?_, ?_, .typeMismatch htype⟩
    · simp only [Function.answer, function, hfound]
    · simp only [Function.answer, function, hfound']

/-- Two applications of a built-in function to stacks of the same types either both
succeed, and the types stay the same, or fail alike. -/
theorem apply_alike {b : Builtin} (hb : b ∈ table) {s s' : Stack}
    (htypes : s.types = s'.types) :
    (∃ u u', b.function.apply s = .ok u ∧ b.function.apply s' = .ok u' ∧ u.types = u'.types) ∨
      ∃ e e', b.function.apply s = .error (.error e) ∧
        b.function.apply s' = .error (.error e') ∧ e.Alike e' := by
  have hheight : s.height = s'.height := by
    rw [← s.length_types, ← s'.length_types, htypes]
  have houtputs : b.function.signature.outputs = [b.output] := rfl
  rcases Nat.lt_or_ge s.height b.function.signature.arity with hlt | hge
  · refine Or.inr ⟨_, _, Function.apply_of_height_lt houtputs hlt,
      Function.apply_of_height_lt houtputs (hheight ▸ hlt), ?_⟩
    rw [hheight]
    exact .wrongArity b.function s'.height
  · -- both stacks are split at the same depth, so the parts agree in their types
    obtain ⟨below, args, hargs, rfl⟩ := Stack.exists_extend hge
    obtain ⟨below', args', hargs', rfl⟩ := Stack.exists_extend (hheight ▸ hge)
    rw [Stack.types_extend, Stack.types_extend] at htypes
    obtain ⟨hbelow, hargTypes⟩ := List.append_inj' htypes (by simp [hargs, hargs'])
    rw [Function.apply_extend below houtputs hargs,
      Function.apply_extend below' houtputs hargs']
    rcases answer_alike hb hargs hargTypes with
      ⟨v, v', hv, hv', htype⟩ | ⟨e, e', he, he', hlike⟩
    · refine Or.inl ⟨below.push v, below'.push v', ?_, ?_, ?_⟩
      · rw [hv]
        rfl
      · rw [hv']
        rfl
      · rw [Stack.types_push, Stack.types_push, hbelow, htype]
    · refine Or.inr ⟨e, e', ?_, ?_, hlike⟩
      · rw [he]
        rfl
      · rw [he']
        rfl

end Builtin

/-! ## Two runs -/

/-- Meanings of interchangeable words: literals of one type, or the same built-in
function. -/
inductive Token.Alike : Token → Token → Prop where
  | literal {v v' : Value} : v.type = v'.type → Alike (.literal v) (.literal v')
  | function {b : Builtin} : b ∈ Builtin.table → Alike (.function b.function) (.function b.function)

theorem Interchangeable.alike {word word' : String} (h : Interchangeable word word')
    (hbad : (Token.ofWord .builtin word).badText? = none) :
    (Token.ofWord .builtin word).Alike (Token.ofWord .builtin word') := by
  rcases h with rfl | ⟨v, v', hv, hv', htype⟩
  · cases hliteral : literal? word with
    | some v =>
        rw [Token.ofWord_of_literal? hliteral]
        exact .literal rfl
    | none =>
        cases hlookup : Registry.builtin.lookup word with
        | some f =>
            obtain ⟨b, hb, rfl⟩ := Builtin.of_lookup hlookup
            rw [Token.ofWord_of_lookup hliteral hlookup]
            exact .function hb
        | none =>
            rw [Token.ofWord_of_unknown hliteral hlookup] at hbad
            contradiction
  · rw [Token.ofWord_of_literal? hv, Token.ofWord_of_literal? hv']
    exact .literal htype

theorem Token.badText?_eq_none_of_alike {tokens tokens' : List Token}
    (h : List.Forall₂ Token.Alike tokens tokens') : ∀ t ∈ tokens', t.badText? = none := by
  induction h with
  | nil => simp
  | cons hlike _ ih =>
      rw [List.forall_mem_cons]
      cases hlike with
      | literal htype => exact ⟨rfl, ih⟩
      | function hb => exact ⟨rfl, ih⟩

theorem tokens_alike {ws ws' : List String} (h : List.Forall₂ Interchangeable ws ws')
    (hbad : ∀ word ∈ ws, (Token.ofWord .builtin word).badText? = none) :
    List.Forall₂ Token.Alike (ws.map (Token.ofWord .builtin))
      (ws'.map (Token.ofWord .builtin)) := by
  induction h with
  | nil => exact .nil
  | cons hword _ ih =>
      rw [List.forall_mem_cons] at hbad
      exact .cons (hword.alike hbad.1) (ih hbad.2)

/-- What two runs that look at types only have in common. -/
structure Outcome.Alike (a b : Outcome) : Prop where
  errors : List.Forall₂ ApplyError.Alike a.errors b.errors
  types : a.stack.types = b.stack.types
  finished : a.fatal? = none ∧ b.fatal? = none

namespace Session

theorem run_alike {tokens tokens' : List Token} (htokens : List.Forall₂ Token.Alike tokens tokens')
    {s s' : Stack} (htypes : s.types = s'.types) :
    (run s tokens).Alike (run s' tokens') := by
  induction htokens generalizing s s' with
  | nil => exact ⟨.nil, htypes, rfl, rfl⟩
  | cons htoken _ ih =>
      cases htoken with
      | @literal v v' htype =>
          rw [run_literal, run_literal]
          apply ih
          rw [Stack.types_push, Stack.types_push, htypes, htype]
      | @function b hb =>
          rcases Builtin.apply_alike hb htypes with
            ⟨u, u', hu, hu', hrest⟩ | ⟨e, e', he, he', hlike⟩
          · rw [run_of_apply_ok hu, run_of_apply_ok hu']
            exact ih hrest
          · rw [run_of_apply_error he, run_of_apply_error he']
            obtain ⟨herrors, hstacks, hfinished⟩ := ih htypes
            exact ⟨.cons hlike herrors, hstacks, hfinished⟩

/-- With the built-in functions every line is rejected or run to its end. -/
theorem eval_builtin (s : Stack) (line : String) :
    (∃ e, eval .builtin s line = .rejected e) ∨
      ∃ outcome, eval .builtin s line = .ran outcome ∧ outcome.fatal? = none := by
  cases hparse : parse .builtin line with
  | error e => exact Or.inl ⟨e, by rw [eval, hparse]⟩
  | ok tokens =>
      have haccepts := accepts_of_parse hparse
      have hwords : List.Forall₂ Interchangeable (lineWords line) (lineWords line) :=
        List.forall₂_same.mpr fun word _ => Or.inl rfl
      have hrun := run_alike (tokens_alike hwords haccepts) (rfl : s.types = s.types)
      exact Or.inr ⟨_, eval_of_accepts s haccepts, hrun.finished.1⟩

theorem Accepts.of_interchangeable {line line' : String} (h : Accepts .builtin line)
    (hwords : List.Forall₂ Interchangeable (lineWords line) (lineWords line')) :
    Accepts .builtin line' := by
  intro word hword
  exact Token.badText?_eq_none_of_alike (tokens_alike hwords h) _ (List.mem_map_of_mem hword)

/-- With the built-in functions control depends on types only: stacks of the same
types and lines that differ in the payloads of literals lead to the same errors, up to
the mismatched values, and to stacks of the same types.  No function breaks its
contract and nothing is fatal. -/
theorem eval_depends_on_types {s s' : Stack} {line line' : String}
    (htypes : s.types = s'.types)
    (hwords : List.Forall₂ Interchangeable (lineWords line) (lineWords line'))
    (haccepts : Accepts .builtin line) :
    ∃ a b, eval .builtin s line = .ran a ∧ eval .builtin s' line' = .ran b ∧ a.Alike b ∧
      ∀ e ∈ a.errors ++ b.errors, e.kindName ≠ "BrokenCallee" := by
  have hrun := run_alike (tokens_alike hwords haccepts) htypes
  refine ⟨_, _, eval_of_accepts s haccepts,
    eval_of_accepts s' (haccepts.of_interchangeable hwords), hrun, ?_⟩
  exact List.forall_mem_append.mpr (ApplyError.kindName_ne_of_alike hrun.errors)

/-- Two lines that fail in the same place: a sum, and its sine. -/
theorem eval_depends_on_types_of_sum :
    (Stack.ofList [.i32 1]).types = (Stack.ofList [.i32 Int32.minValue]).types ∧
      List.Forall₂ Interchangeable (lineWords "3 add sin") (lineWords "-4 add sin") ∧
      Accepts .builtin "3 add sin" ∧
      ∃ a b, eval .builtin (.ofList [.i32 1]) "3 add sin" = .ran a ∧
        eval .builtin (.ofList [.i32 Int32.minValue]) "-4 add sin" = .ran b ∧ a.Alike b ∧
        ∀ e ∈ a.errors ++ b.errors, e.kindName ≠ "BrokenCallee" := by
  have htypes : (Stack.ofList [.i32 1]).types = (Stack.ofList [.i32 Int32.minValue]).types := by
    decide
  have hwords : List.Forall₂ Interchangeable (lineWords "3 add sin") (lineWords "-4 add sin") := by
    have hline : lineWords "3 add sin" = ["3", "add", "sin"] := by decide +kernel
    have hline' : lineWords "-4 add sin" = ["-4", "add", "sin"] := by decide +kernel
    rw [hline, hline']
    exact .cons (Or.inr ⟨.i32 3, .i32 (-4), by decide, by decide, rfl⟩)
      (.cons (Or.inl rfl) (.cons (Or.inl rfl) .nil))
  have haccepts : Accepts .builtin "3 add sin" := by
    unfold Accepts
    decide +kernel
  exact ⟨htypes, hwords, haccepts, eval_depends_on_types htypes hwords haccepts⟩

end Session

end PostfixCalc
