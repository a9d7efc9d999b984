import PostfixCalc.Proofs.Term
import PostfixCalc.Proofs.Token.Spelling

/-!
# Names that can be called

Literals come first: a key that is spelled like a literal is read as the literal, and the
function under it cannot be reached from a line.  Neither can one whose key is not a
single word.  Every other function is called by its key.
-/

namespace PostfixCalc

open Grammar

namespace Token

variable {r : Registry} {word : String} {f : Function}

theorem ofWord_eq_function_iff :
    ofWord r word = .function f ↔ literal? word = none ∧ r.lookup word = some f := by
  cases hliteral : literal? word with
  | some v => simp [ofWord_of_literal? hliteral]
  | none =>
      cases hlookup : r.lookup word with
      | some g => simp [ofWord_of_lookup hliteral hlookup]
      | none => simp [ofWord_of_unknown hliteral hlookup]

theorem ofLine_of_isWord (hword : IsWord word.toList) :
    ofLine r word = [(word, ofWord r word)] := by
  have hsingle : lineWords (" ".intercalate [word]) = [word] :=
    lineWords_intercalate (List.forall_mem_singleton.mpr hword)
  rw [String.intercalate_singleton] at hsingle
  rw [ofLine, hsingle, List.map_singleton]

theorem ofLine_eq_singleton_iff {token : Token} :
    ofLine r word = [(word, token)] ↔ IsWord word.toList ∧ ofWord r word = token := by
  constructor
  · intro hline
    have hwords : lineWords word = [word] := by
      simpa [ofLine, Function.comp_def] using congrArg (List.map Prod.fst) hline
    have hword : IsWord word.toList := isWord_of_mem_lineWords (by rw [hwords]; simp)
    refine ⟨hword, ?_⟩
    rw [ofLine_of_isWord hword] at hline
    simpa using hline
  · rintro ⟨hword, rfl⟩
    exact ofLine_of_isWord hword

theorem ofLine_eq_function_iff :
    ofLine r word = [(word, .function f)] ↔ isCallable word = true ∧ r.lookup word = some f := by
  rw [ofLine_eq_singleton_iff, ofWord_eq_function_iff, isCallable_iff, and_assoc]

/-- Digits alone are called as a name when there are too many of them, or when the integer
that they spell is out of range. -/
theorem isCallable_of_signedDigits {negative : Bool} {ds : List ℕ}
    (hdigits : SignedDigits word.toList negative ds)
    (hbounds : 4300 < ds.length ∨ Binary.signed negative (ofDigits ds) < -2 ^ 31 ∨
      2 ^ 31 - 1 < Binary.signed negative (ofDigits ds)) : isCallable word = true := by
  refine isCallable_iff.mpr ⟨hdigits.isWord, literalChars?_of_signedDigits_eq_none hdigits ?_⟩
  rintro ⟨hlength, hfits⟩
  rw [Value.fits_iff] at hfits
  unfold integerDigitLimit at hlength
  omega

theorem getElem?_ofLine_eq_function_iff {line : String} {i : ℕ} :
    (ofLine r line)[i]? = some (word, .function f) ↔
      (lineWords line)[i]? = some word ∧ isCallable word = true ∧ r.lookup word = some f := by
  rw [ofLine, List.getElem?_map, Option.map_eq_some_iff]
  constructor
  · rintro ⟨word', hword', hpair⟩
    obtain ⟨rfl, hmeaning⟩ := Prod.mk.inj hpair
    obtain ⟨hliteral, hlookup⟩ := ofWord_eq_function_iff.mp hmeaning
    have hword := isWord_of_mem_lineWords (List.mem_of_getElem? hword')
    exact ⟨hword', isCallable_iff.mpr ⟨hword, hliteral⟩, hlookup⟩
  · rintro ⟨hword, hcallable, hlookup⟩
    exact ⟨word, hword, by rw [(ofWord_of_isCallable hcallable hlookup).2]⟩

/-- A key on a line of its own calls the function under it exactly if it is a single word
that spells no literal.  A key that is spelled like a literal is read as the literal
whatever is registered under it, and digits that spell no integer of 32 bits call what is
registered under them.  In a line the functions stand exactly in the places of the words
that can be called, each with the function that is found under its word. -/
theorem ofLine_calls (r : Registry) (key : String) :
    (∀ f, ofLine r key = [(key, .function f)] ↔
        r.lookup key = some f ∧ key ≠ "" ∧ (∀ c ∈ key.toList, isBlank c = false) ∧
          literal? key = none) ∧
      (∀ v, literal? key = some v → ofLine r key = [(key, .literal v)]) ∧
      (∀ negative ds f, SignedDigits key.toList negative ds →
        (4300 < ds.length ∨ Binary.signed negative (ofDigits ds) < -2 ^ 31 ∨
          2 ^ 31 - 1 < Binary.signed negative (ofDigits ds)) →
        r.lookup key = some f → ofLine r key = [(key, .function f)]) ∧
      ∀ (line : String) (i : ℕ) (f : Function), (ofLine r line)[i]? = some (key, .function f) ↔
        (lineWords line)[i]? = some key ∧ r.lookup key = some f ∧ key ≠ "" ∧
          (∀ c ∈ key.toList, isBlank c = false) ∧ literal? key = none := by
  have hcallable (f : Function) : isCallable key = true ∧ r.lookup key = some f ↔
      r.lookup key = some f ∧ key ≠ "" ∧ (∀ c ∈ key.toList, isBlank c = false) ∧
        literal? key = none := by
    rw [isCallable_iff, IsWord, ne_eq, String.toList_eq_nil_iff]
    tauto
  refine ⟨?_, ?_, ?_, ?_⟩
  · intro f
    rw [ofLine_eq_function_iff, hcallable]
  · intro v hliteral
    exact ofLine_eq_singleton_iff.mpr ⟨isWord_of_literal? hliteral, ofWord_of_literal? hliteral⟩
  · intro negative ds f hdigits hbounds hlookup
    exact ofLine_eq_function_iff.mpr ⟨isCallable_of_signedDigits hdigits hbounds, hlookup⟩
  · intro line i f
    rw [getElem?_ofLine_eq_function_iff, hcallable]

/-- Literals of both widths and of another script, an integer out of range, and keys that
are not single words. -/
example :
    ["add", "1e5", ".5f", "٣", "2147483648", "", "a b", "a\u3000b"].map isCallable =
      [true, false, false, false, true, false, false, false] := by
  decide +kernel

end Token
end PostfixCalc
