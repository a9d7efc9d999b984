import PostfixCalc.Proofs.Session
import PostfixCalc.Session.Shared

/-!
# A line is validated as a whole

One bad word and nothing of the line is run, whatever stands before it.  Without bad
words every word is classified, and the tokens are executed from left to right.  Both
sides are stated on their own: the bad words as those that are neither literals nor
keys, the classification and the execution as relations.
-/

namespace PostfixCalc

/-- A word that is neither a literal nor the key of a function. -/
def isBadWord (r : Registry) (word : String) : Bool :=
  (literal? word).isNone && !r.contains word

/-- The bad words of a line, in order and with repetitions. -/
def badWords (r : Registry) (line : String) : List String :=
  (lineWords line).filter (isBadWord r)

/-- Meanings of the words that are not bad.  A key that is spelled like a literal means
the literal. -/
inductive Token.Means (r : Registry) : String → Token → Prop where
  | literal {word : String} {v : Value} : literal? word = some v → Means r word (.literal v)
  | function {word : String} {f : Function} :
      literal? word = none → r.lookup word = some f → Means r word (.function f)

theorem isBadWord_eq_true_iff {r : Registry} {word : String} :
    isBadWord r word = true ↔ literal? word = none ∧ r.lookup word = none := by
  simp [isBadWord, Registry.contains]

namespace Token

variable {r : Registry} {word : String}

theorem badText?_ofWord_of_bad (h : isBadWord r word = true) :
    (ofWord r word).badText? = some word := by
  obtain ⟨hliteral, hlookup⟩ := isBadWord_eq_true_iff.mp h
  rw [ofWord_of_unknown hliteral hlookup]
  rfl

theorem means_ofWord_of_not_bad (h : isBadWord r word = false) : Means r word (ofWord r word) := by
  cases hliteral : literal? word with
  | some v =>
      rw [ofWord_of_literal? hliteral]
      exact .literal hliteral
  | none =>
      cases hlookup : r.lookup word with
      | some f =>
          rw [ofWord_of_lookup hliteral hlookup]
          exact .function hliteral hlookup
      | none =>
          rw [isBadWord_eq_true_iff.mpr ⟨hliteral, hlookup⟩] at h
          contradiction

theorem Means.badText?_eq_none {token : Token} (h : Means r word token) :
    token.badText? = none := by
  cases h with
  | literal hliteral => rfl
  | function hliteral hlookup => rfl

end Token

theorem filterMap_badText? (r : Registry) (line : String) :
    (Token.ofLine r line).filterMap (fun token => token.2.badText?) = badWords r line := by
  rw [Token.ofLine, List.filterMap_map, badWords]
  induction lineWords line with
  | nil => rfl
  | cons word rest ih =>
      cases hbad : isBadWord r word with
      | true =>
          have hsome := Token.badText?_ofWord_of_bad hbad
          rw [List.filter_cons_of_pos hbad, ← ih]
          exact List.filterMap_cons_some hsome
      | false =>
          have hnone := (Token.means_ofWord_of_not_bad hbad).badText?_eq_none
          rw [List.filter_cons_of_neg (by simp [hbad]), ← ih]
          exact List.filterMap_cons_none hnone

theorem means_of_mem_ofLine {r : Registry} {line : String} (h : badWords r line = []) :
    ∀ token ∈ Token.ofLine r line, Token.Means r token.1 token.2 := by
  intro token htoken
  obtain ⟨word, hword, rfl⟩ := List.mem_map.mp htoken
  apply Token.means_ofWord_of_not_bad
  rw [Bool.eq_false_iff]
  intro hbad
  have hmem : word ∈ badWords r line := List.mem_filter.mpr ⟨hword, hbad⟩
  rw [h] at hmem
  contradiction

namespace Session

/-! ## Execution -/

theorem accepts_of_badWords_eq_nil {r : Registry} {line : String} (h : badWords r line = []) :
    Accepts r line := by
  intro word hword
  exact (means_of_mem_ofLine h _ (List.mem_map_of_mem hword)).badText?_eq_none

theorem parse_of_badWords_ne_nil {r : Registry} {line : String} (h : badWords r line ≠ []) :
    parse r line = .error ⟨badWords r line⟩ := by
  unfold parse
  dsimp only
  rw [filterMap_badText?]
  split
  · next hnil => exact absurd hnil h
  · rfl

theorem parse_of_badWords_eq_nil {r : Registry} {line : String} (h : badWords r line = []) :
    parse r line = .ok (Token.ofLine r line) :=
  parse_of_accepts (accepts_of_badWords_eq_nil h)

theorem eq_ofLine_of_parse {r : Registry} {line : String} {tokens : List (String × Token)}
    (h : parse r line = .ok tokens) : badWords r line = [] ∧ tokens = Token.ofLine r line := by
  by_cases hnone : badWords r line = []
  · refine ⟨hnone, ?_⟩
    rw [parse_of_badWords_eq_nil hnone] at h
    injection h with h
    exact h.symm
  · rw [parse_of_badWords_ne_nil hnone] at h
    contradiction

theorem eq_badWords_of_parse {r : Registry} {line : String} {e : Rejection}
    (h : parse r line = .error e) : badWords r line ≠ [] ∧ e = ⟨badWords r line⟩ := by
  have hbad : badWords r line ≠ [] := by
    intro hnone
    rw [parse_of_badWords_eq_nil hnone] at h
    contradiction
  refine ⟨hbad, ?_⟩
  rw [parse_of_badWords_ne_nil hbad] at h
  injection h with h
  exact h.symm

theorem eval_of_parse_error {r : Registry} (s : Stack) {line : String} {e : Rejection}
    (h : parse r line = .error e) : eval r s line = .rejected e := by
  rw [eval, h]

end Session

end PostfixCalc
