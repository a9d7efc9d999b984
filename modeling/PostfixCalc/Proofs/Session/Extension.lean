import Mathlib.Data.List.Basic
import PostfixCalc.Proofs.Registry
import PostfixCalc.Proofs.Session.Validation

/-!
# Larger registries

A registry extends another one if it finds every function of it under the same key.
Whatever its other keys are, literals still come first and a key is found as it stands,
so a word that was not bad keeps its meaning and no word becomes bad.  A line that the
smaller registry accepts is therefore read and evaluated alike with both.
-/

namespace PostfixCalc

/-- Every function of the smaller registry is found under its key in the larger one. -/
def Registry.Extends (larger smaller : Registry) : Prop :=
  ∀ key f, smaller.lookup key = some f → larger.lookup key = some f

theorem Registry.Extends.trans {r₁ r₂ r₃ : Registry} (h : r₁.Extends r₂) (h' : r₂.Extends r₃) :
    r₁.Extends r₃ := by
  intro key f hlookup
  exact h key f (h' key f hlookup)

theorem Registry.insert_extends {r : Registry} {key : String} (f : Function)
    (hnew : r.lookup key = none) : (r.insert key f).Extends r := by
  intro other g hlookup
  rw [lookup_insert]
  split
  · next hother =>
    rw [hother, hnew] at hlookup
    contradiction
  · exact hlookup

variable {larger smaller : Registry}

theorem isBadWord_of_extends (h : larger.Extends smaller) {word : String}
    (hbad : isBadWord larger word = true) : isBadWord smaller word = true := by
  obtain ⟨hliteral, hlookup⟩ := isBadWord_eq_true_iff.mp hbad
  refine isBadWord_eq_true_iff.mpr ⟨hliteral, ?_⟩
  cases hfound : smaller.lookup word with
  | none => rfl
  | some f =>
      rw [h word f hfound] at hlookup
      contradiction

theorem badWords_sublist (h : larger.Extends smaller) (line : String) :
    (badWords larger line).Sublist (badWords smaller line) := by
  apply List.monotone_filter_right
  intro word hbad
  exact isBadWord_of_extends h hbad

theorem badWords_eq_nil_of_extends (h : larger.Extends smaller) {line : String}
    (hnone : badWords smaller line = []) : badWords larger line = [] := by
  have hsublist := badWords_sublist h line
  rw [hnone] at hsublist
  exact List.sublist_nil.mp hsublist

namespace Token

theorem Means.eq_ofWord {r : Registry} {word : String} {token : Token} (h : Means r word token) :
    token = ofWord r word := by
  cases h with
  | literal hliteral => exact (ofWord_of_literal? hliteral).symm
  | function hliteral hlookup => exact (ofWord_of_lookup hliteral hlookup).symm

theorem Means.of_extends {word : String} {token : Token} (h : larger.Extends smaller)
    (hmeans : Means smaller word token) : Means larger word token := by
  cases hmeans with
  | literal hliteral => exact .literal hliteral
  | function hliteral hlookup => exact .function hliteral (h _ _ hlookup)

/-- Words that are not bad are classified alike. -/
theorem ofLine_of_extends (h : larger.Extends smaller) {line : String}
    (hnone : badWords smaller line = []) : ofLine larger line = ofLine smaller line := by
  apply List.map_congr_left
  intro word hword
  have hmeans := means_of_mem_ofLine hnone (word, ofWord smaller word)
    (List.mem_map.mpr ⟨word, hword, rfl⟩)
  rw [← (hmeans.of_extends h).eq_ofWord]

end Token

namespace Session

/-- Extending the registry is conservative.  A line without bad words is read with the
same classification and comes to the same outcome.  A line that is still rejected was
rejected before, and the words it is now rejected for were among the bad ones, in the
same order. -/
theorem eval_extended (h : larger.Extends smaller) (s : Stack) (line : String) :
    (badWords smaller line = [] →
      ∃ (tokens : List (String × Token)) (outcome : Outcome),
        parse smaller line = .ok tokens ∧ parse larger line = .ok tokens ∧
          eval smaller s line = .ran outcome ∧ eval larger s line = .ran outcome) ∧
      ∀ e, parse larger line = .error e →
        ∃ e', parse smaller line = .error e' ∧ e.tokens.Sublist e'.tokens ∧
          eval larger s line = .rejected e ∧ eval smaller s line = .rejected e' := by
  constructor
  · intro hnone
    have hsmaller := parse_of_badWords_eq_nil hnone
    have hlarger : parse larger line = .ok (Token.ofLine smaller line) := by
      rw [parse_of_badWords_eq_nil (badWords_eq_nil_of_extends h hnone),
        Token.ofLine_of_extends h hnone]
    refine ⟨_, run s ((Token.ofLine smaller line).map Prod.snd), hsmaller, hlarger, ?_, ?_⟩
    · rw [eval, hsmaller]
    · rw [eval, hlarger]
  · intro e hlarger
    obtain ⟨hbad, rfl⟩ := eq_badWords_of_parse hlarger
    have hbadSmaller : badWords smaller line ≠ [] := by
      intro hnone
      exact hbad (badWords_eq_nil_of_extends h hnone)
    have hsmaller := parse_of_badWords_ne_nil hbadSmaller
    exact ⟨_, hsmaller, badWords_sublist h line, eval_of_parse_error s hlarger,
      eval_of_parse_error s hsmaller⟩

end Session

/-- The built-in functions and four more keys: one that is spelled like a literal, an
empty one, one with a blank in it, and one that can be called. -/
def Registry.crowded : Registry :=
  let negate : Function :=
    ⟨"negate", ⟨[.i32], [.i32]⟩, (Operation.unary .negate).implementation .i32⟩
  (((builtin.insert "1e5" negate).insert "" negate).insert "two words" negate).insert
    "flip" negate

theorem Registry.crowded_extends : crowded.Extends .builtin := by
  refine (insert_extends _ ?_).trans ((insert_extends _ ?_).trans
    ((insert_extends _ ?_).trans (insert_extends _ ?_)))
  all_goals exact Option.isNone_iff_eq_none.mp (by decide +kernel)

/-- A line with a literal that is also a key, and one with two bad words of which one is
left. -/
theorem Session.eval_extended_of_crowded :
    Registry.crowded.Extends .builtin ∧ badWords .builtin "1e5 2 3 add" = [] ∧
      (∃ (tokens : List (String × Token)) (outcome : Outcome),
        parse .builtin "1e5 2 3 add" = .ok tokens ∧ parse .crowded "1e5 2 3 add" = .ok tokens ∧
          eval .builtin .empty "1e5 2 3 add" = .ran outcome ∧
          eval .crowded .empty "1e5 2 3 add" = .ran outcome) ∧
      parse .crowded "flip 2 floor" = .error ⟨["floor"]⟩ ∧
      ∃ e', parse .builtin "flip 2 floor" = .error e' ∧ ["floor"].Sublist e'.tokens ∧
        eval .crowded .empty "flip 2 floor" = .rejected ⟨["floor"]⟩ ∧
        eval .builtin .empty "flip 2 floor" = .rejected e' := by
  have hnone : badWords .builtin "1e5 2 3 add" = [] := by decide +kernel
  have hbad : badWords .crowded "flip 2 floor" = ["floor"] := by decide +kernel
  have hrejected : parse .crowded "flip 2 floor" = .error ⟨["floor"]⟩ := by
    rw [parse_of_badWords_ne_nil (by simp [hbad]), hbad]
  exact ⟨Registry.crowded_extends, hnone,
    (eval_extended Registry.crowded_extends .empty _).1 hnone, hrejected,
    (eval_extended Registry.crowded_extends .empty _).2 _ hrejected⟩

end PostfixCalc
