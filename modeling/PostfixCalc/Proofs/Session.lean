import PostfixCalc.Function.Builtin
import PostfixCalc.Proofs.Application
import PostfixCalc.Proofs.Text.Character
import PostfixCalc.Session

/-!
# Running lines

A line without bad tokens runs the meanings of its words.  One step of a run is a
push, or an application with one of three ends: it succeeds, it fails and is
recorded, or it is fatal.

Running tokens is an action of the lists of tokens on stacks: a list that is put
together from two runs as the first and then the second, unless the first ends on a
fatal cause.  White space between two lines does not change their words, so a line
that is put together from two is evaluated as the first and then the second.
-/

namespace PostfixCalc

/-- The errors of the failed applications; a rejected line has none. -/
def Evaluation.errors : Evaluation → List ApplyError
  | rejected _ => []
  | ran outcome => outcome.errors

namespace Session

/-- No word of the line is a bad token. -/
def Accepts (r : Registry) (line : String) : Prop :=
  ∀ word ∈ lineWords line, (Token.ofWord r word).badText? = none

theorem parse_of_accepts {r : Registry} {line : String} (h : Accepts r line) :
    parse r line = .ok (Token.ofLine r line) := by
  have hbad : (Token.ofLine r line).filterMap (fun token => token.2.badText?) = [] := by
    rw [List.filterMap_eq_nil_iff]
    intro token htoken
    obtain ⟨word, hword, rfl⟩ := List.mem_map.mp htoken
    exact h word hword
  simp only [parse, hbad]

theorem accepts_of_parse {r : Registry} {line : String} {tokens : List (String × Token)}
    (h : parse r line = .ok tokens) : Accepts r line := by
  intro word hword
  cases hbad : (Token.ofWord r word).badText? with
  | none => rfl
  | some text =>
      have hmem : text ∈ (Token.ofLine r line).filterMap fun token => token.2.badText? :=
        List.mem_filterMap.mpr ⟨(word, Token.ofWord r word), List.mem_map_of_mem hword, hbad⟩
      unfold parse at h
      dsimp only at h
      split at h
      · next hnone =>
        rw [hnone] at hmem
        contradiction
      · contradiction

theorem accepts_of_eval {r : Registry} {s : Stack} {line : String} {outcome : Outcome}
    (h : eval r s line = .ran outcome) : Accepts r line := by
  unfold eval at h
  cases hparse : parse r line with
  | error e =>
      rw [hparse] at h
      contradiction
  | ok tokens => exact accepts_of_parse hparse

/-- An accepted line runs the meanings of its words in order. -/
theorem eval_of_accepts {r : Registry} {line : String} (s : Stack) (h : Accepts r line) :
    eval r s line = .ran (run s ((lineWords line).map (Token.ofWord r))) := by
  rw [eval, parse_of_accepts h]
  simp [Token.ofLine, Function.comp_def]

theorem run_literal (s : Stack) (v : Value) (rest : List Token) :
    run s (.literal v :: rest) = run (s.push v) rest := rfl

theorem run_of_apply_ok {f : Function} {s s' : Stack} (h : f.apply s = .ok s')
    (rest : List Token) : run s (.function f :: rest) = run s' rest := by
  simp only [run, h]

theorem run_of_apply_error {f : Function} {s : Stack} {e : ApplyError}
    (h : f.apply s = .error (.error e)) (rest : List Token) :
    run s (.function f :: rest) =
      { run s rest with errors := e :: (run s rest).errors } := by
  simp only [run, h]

theorem run_of_apply_fatal {f : Function} {s : Stack} {cause : Fatal}
    (h : f.apply s = .error (.fatal cause)) (rest : List Token) :
    run s (.function f :: rest) = ⟨[], s, some cause⟩ := by
  simp only [run, h]

end Session

/-! ## Implementations that are calculators themselves -/

/-- One run after another: the second starts from the stack that the first leaves.  A
run that ended on a fatal cause is not continued. -/
def Outcome.andThen (first : Outcome) (next : Stack → Outcome) : Outcome :=
  match first.fatal? with
  | some _ => first
  | none =>
    let later := next first.stack
    { later with errors := first.errors ++ later.errors }

theorem Outcome.andThen_of_fatal {first : Outcome} {cause : Fatal}
    (hfatal : first.fatal? = some cause) (next : Stack → Outcome) :
    first.andThen next = first := by
  simp only [andThen, hfatal]

theorem Outcome.andThen_of_finished {first : Outcome} (hfinished : first.fatal? = none)
    (next : Stack → Outcome) :
    first.andThen next = ⟨first.errors ++ (next first.stack).errors, (next first.stack).stack,
      (next first.stack).fatal?⟩ := by
  simp only [andThen, hfinished]

theorem Outcome.cons_andThen (e : ApplyError) (first : Outcome) (next : Stack → Outcome) :
    { first with errors := e :: first.errors }.andThen next =
      { first.andThen next with errors := e :: (first.andThen next).errors } := by
  obtain ⟨errors, s, fatal?⟩ := first
  cases fatal? with
  | none => rfl
  | some cause => rfl

namespace Session

/-- Running tokens in a row, whatever ends the first run. -/
theorem run_append_tokens (s : Stack) (ts us : List Token) :
    run s (ts ++ us) = (run s ts).andThen fun s' => run s' us := by
  induction ts generalizing s with
  | nil => rfl
  | cons token rest ih =>
      rw [List.cons_append]
      cases token with
      | literal v => rw [run_literal, run_literal, ih]
      | bad text => exact ih s
      | function f =>
          cases happly : f.apply s with
          | ok s' => rw [run_of_apply_ok happly, run_of_apply_ok happly, ih]
          | error failure =>
              cases failure with
              | error e =>
                  rw [run_of_apply_error happly, run_of_apply_error happly, ih,
                    Outcome.cons_andThen]
              | fatal cause =>
                  rw [run_of_apply_fatal happly, run_of_apply_fatal happly]
                  rfl

theorem Accepts.append {r : Registry} {a b gap : String} (ha : Accepts r a) (hb : Accepts r b)
    (hgap : gap ≠ "") (hblanks : ∀ c ∈ gap.toList, isBlank c = true) :
    Accepts r (a ++ gap ++ b) := by
  unfold Accepts
  rw [lineWords_append hgap hblanks, List.forall_mem_append]
  exact ⟨ha, hb⟩

/-- Two accepted lines with white space between them are evaluated one after the
other.  If the first ends on a fatal cause, so does the line, with the same stack;
otherwise the second line goes on from the stack that the first left, and what it comes
to is what the line comes to, with the errors of both in order. -/
theorem eval_append (r : Registry) (s : Stack) {a b gap : String} (ha : Accepts r a)
    (hb : Accepts r b) (hgap : gap ≠ "") (hblanks : ∀ c ∈ gap.toList, isBlank c = true) :
    ∃ first, eval r s a = .ran first ∧
      (∀ cause, first.fatal? = some cause → eval r s (a ++ gap ++ b) = .ran first) ∧
      (first.fatal? = none →
        ∃ second, eval r first.stack b = .ran second ∧
          eval r s (a ++ gap ++ b) =
            .ran ⟨first.errors ++ second.errors, second.stack, second.fatal?⟩) := by
  have hline : eval r s (a ++ gap ++ b) =
      .ran ((run s ((lineWords a).map (Token.ofWord r))).andThen
        fun s' => run s' ((lineWords b).map (Token.ofWord r))) := by
    rw [eval_of_accepts s (ha.append hb hgap hblanks), lineWords_append hgap hblanks,
      List.map_append, run_append_tokens]
  refine ⟨_, eval_of_accepts s ha, ?_, ?_⟩
  · intro cause hfatal
    rw [hline, Outcome.andThen_of_fatal hfatal]
  · intro hfinished
    refine ⟨_, eval_of_accepts _ hb, ?_⟩
    rw [hline, Outcome.andThen_of_finished hfinished]

/-- A line of two parts with an ideographic space and a line break between them; the
first part fails once, and the second one too. -/
theorem eval_append_of_sums :
    Accepts .builtin " 3 4 add sin " ∧ Accepts .builtin "2 sub neg neg add" ∧
      ("\u3000\n" : String) ≠ "" ∧ (∀ c ∈ ("\u3000\n" : String).toList, isBlank c = true) ∧
      ∃ first, eval .builtin .empty " 3 4 add sin " = .ran first ∧
        (∀ cause, first.fatal? = some cause →
          eval .builtin .empty (" 3 4 add sin " ++ "\u3000\n" ++ "2 sub neg neg add") =
            .ran first) ∧
        (first.fatal? = none →
          ∃ second, eval .builtin first.stack "2 sub neg neg add" = .ran second ∧
            eval .builtin .empty (" 3 4 add sin " ++ "\u3000\n" ++ "2 sub neg neg add") =
              .ran ⟨first.errors ++ second.errors, second.stack, second.fatal?⟩) := by
  have hfirst : Accepts .builtin " 3 4 add sin " := by
    unfold Accepts
    decide +kernel
  have hsecond : Accepts .builtin "2 sub neg neg add" := by
    unfold Accepts
    decide +kernel
  have hgap : ("\u3000\n" : String) ≠ "" := by decide
  have hblanks : ∀ c ∈ ("\u3000\n" : String).toList, isBlank c = true := by simp [isBlank]
  exact ⟨hfirst, hsecond, hgap, hblanks, eval_append _ _ hfirst hsecond hgap hblanks⟩

end Session

end PostfixCalc
