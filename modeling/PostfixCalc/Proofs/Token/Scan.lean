import PostfixCalc.Proofs.Text.Character
import PostfixCalc.Token
import PostfixCalc.Decimal.Numeral

/-!
# The scanner of numerals

What the scanner takes from the front of a text is spelled by the grammar, field
by field.  It follows that a literal is a single word.  In the other direction, a
sign and digits are scanned as an integer with nothing left over.
-/

namespace PostfixCalc

namespace Grammar

/-- An optional point and the digits after it. -/
inductive OptionalFraction : List Char → Option (List Nat) → Prop where
  | absent : OptionalFraction [] none
  | present {cs : List Char} {ds : List Nat} :
      Digits cs ds → OptionalFraction ('.' :: cs) (some ds)

/-- The four fields of a numeral, any of which may be missing. -/
inductive Fields : List Char → Numeral → Prop where
  | mk {sign ws fs es : List Char} {x : Numeral} :
      Sign sign x.negative → Digits ws x.whole → OptionalFraction fs x.fraction? →
      OptionalExponent es x.exponent? → Fields (sign ++ ws ++ fs ++ es) x

/-- The ASCII characters beside the digits of a numeral. -/
def marks : List Char := ['+', '-', '.', 'e', 'E']

/-- A character that a numeral can have. -/
def IsNumeralChar (c : Char) : Prop :=
  (digitValue? c).isSome = true ∨ c ∈ marks

theorem IsNumeralChar.isBlank_eq_false {c : Char} (h : IsNumeralChar c) : isBlank c = false := by
  have hmarks : marks.all (!isBlank ·) = true := by decide
  rcases h with hdigit | hmark
  · obtain ⟨d, hd⟩ := Option.isSome_iff_exists.mp hdigit
    exact isBlank_of_digitValue? hd
  · simpa using List.all_eq_true.mp hmarks c hmark

theorem Digits.isNumeralChar {cs : List Char} {ds : List Nat} (h : Digits cs ds) :
    ∀ c ∈ cs, IsNumeralChar c := by
  induction h with
  | nil => simp
  | cons hc _ ih =>
      rw [List.forall_mem_cons]
      exact ⟨Or.inl (by rw [hc]; rfl), ih⟩

theorem Sign.isNumeralChar {cs : List Char} {negative : Bool} (h : Sign cs negative) :
    ∀ c ∈ cs, IsNumeralChar c := by
  cases h with
  | absent => simp
  | plus => exact List.forall_mem_singleton.mpr (Or.inr (by decide))
  | minus => exact List.forall_mem_singleton.mpr (Or.inr (by decide))

theorem SignedDigits.isNumeralChar {cs : List Char} {negative : Bool} {ds : List Nat}
    (h : SignedDigits cs negative ds) : ∀ c ∈ cs, IsNumeralChar c := by
  obtain ⟨hsign, hdigits, -⟩ := h
  rw [List.forall_mem_append]
  exact ⟨hsign.isNumeralChar, hdigits.isNumeralChar⟩

theorem OptionalFraction.isNumeralChar {cs : List Char} {fraction? : Option (List Nat)}
    (h : OptionalFraction cs fraction?) : ∀ c ∈ cs, IsNumeralChar c := by
  cases h with
  | absent => simp
  | present hdigits =>
      rw [List.forall_mem_cons]
      exact ⟨Or.inr (by decide), hdigits.isNumeralChar⟩

theorem Exponent.isNumeralChar {cs : List Char} {negative : Bool} {ds : List Nat}
    (h : Exponent cs negative ds) : ∀ c ∈ cs, IsNumeralChar c := by
  obtain ⟨hmark, hsigned⟩ := h
  rw [List.forall_mem_cons]
  refine ⟨Or.inr ?_, hsigned.isNumeralChar⟩
  rcases hmark with rfl | rfl
  · decide
  · decide

theorem OptionalExponent.isNumeralChar {cs : List Char} {exponent? : Option (Bool × List Nat)}
    (h : OptionalExponent cs exponent?) : ∀ c ∈ cs, IsNumeralChar c := by
  cases h with
  | absent => simp
  | present hexponent => exact hexponent.isNumeralChar

theorem Fields.isNumeralChar {cs : List Char} {x : Numeral} (h : Fields cs x) :
    ∀ c ∈ cs, IsNumeralChar c := by
  obtain ⟨hsign, hwhole, hfraction, hexponent⟩ := h
  simp only [List.forall_mem_append]
  exact ⟨⟨⟨hsign.isNumeralChar, hwhole.isNumeralChar⟩, hfraction.isNumeralChar⟩,
    hexponent.isNumeralChar⟩

end Grammar

/-! ## What the scanner takes -/

theorem digits_spanDigits (cs : List Char) :
    ∃ taken, Grammar.Digits taken (spanDigits digitValue? cs).1 ∧
      cs = taken ++ (spanDigits digitValue? cs).2 := by
  induction cs with
  | nil => exact ⟨[], .nil, rfl⟩
  | cons c cs ih =>
      obtain ⟨taken, htaken, hcs⟩ := ih
      rw [spanDigits]
      split
      · exact ⟨[], .nil, rfl⟩
      · next d hd =>
        refine ⟨c :: taken, .cons hd htaken, ?_⟩
        rw [List.cons_append, ← hcs]

namespace Numeral

theorem sign_scanSign (cs : List Char) :
    ∃ taken, Grammar.Sign taken (scanSign cs).1 ∧ cs = taken ++ (scanSign cs).2 := by
  cases cs with
  | nil => exact ⟨[], .absent, rfl⟩
  | cons c cs =>
      rw [scanSign]
      split
      · next hminus => exact ⟨['-'], .minus, by simp [hminus]⟩
      · split
        · next hplus => exact ⟨['+'], .plus, by simp [hplus]⟩
        · exact ⟨[], .absent, rfl⟩

theorem optionalFraction_scanFraction (cs : List Char) :
    ∃ taken, Grammar.OptionalFraction taken (scanFraction digitValue? cs).1 ∧
      cs = taken ++ (scanFraction digitValue? cs).2 := by
  cases cs with
  | nil => exact ⟨[], .absent, rfl⟩
  | cons c cs =>
      rw [scanFraction]
      split
      · next hpoint =>
        obtain ⟨taken, htaken, hcs⟩ := digits_spanDigits cs
        refine ⟨'.' :: taken, .present htaken, ?_⟩
        rw [List.cons_append, ← hcs, hpoint]
      · exact ⟨[], .absent, rfl⟩

theorem optionalExponent_scanExponent (cs : List Char) :
    ∃ taken, Grammar.OptionalExponent taken (scanExponent digitValue? cs).1 ∧
      cs = taken ++ (scanExponent digitValue? cs).2 := by
  cases cs with
  | nil => exact ⟨[], .absent, rfl⟩
  | cons c cs =>
      rw [scanExponent]
      split
      · next hmark =>
        obtain ⟨sign, hsign, hcs⟩ := sign_scanSign cs
        obtain ⟨digits, hdigits, hrest⟩ := digits_spanDigits (scanSign cs).2
        dsimp only
        split
        · exact ⟨[], .absent, rfl⟩
        · next hne =>
          have hsigned : Grammar.SignedDigits (sign ++ digits) (scanSign cs).1
              (spanDigits digitValue? (scanSign cs).2).1 :=
            .mk hsign hdigits (by simpa using hne)
          refine ⟨c :: (sign ++ digits), .present (.mk hmark hsigned), ?_⟩
          rw [List.cons_append, List.append_assoc, ← hrest, ← hcs]
      · exact ⟨[], .absent, rfl⟩

/-- The scanner takes the fields of a numeral and leaves the rest of the text. -/
theorem fields_scan (cs : List Char) :
    ∃ taken, Grammar.Fields taken (scan digitValue? cs).1 ∧
      cs = taken ++ (scan digitValue? cs).2 := by
  obtain ⟨sign, hsign, hcs⟩ := sign_scanSign cs
  obtain ⟨ws, hwhole, hafterSign⟩ := digits_spanDigits (scanSign cs).2
  obtain ⟨fs, hfraction, hafterWhole⟩ :=
    optionalFraction_scanFraction (spanDigits digitValue? (scanSign cs).2).2
  obtain ⟨es, hexponent, hafterFraction⟩ := optionalExponent_scanExponent
    (scanFraction digitValue? (spanDigits digitValue? (scanSign cs).2).2).2
  refine ⟨sign ++ ws ++ fs ++ es, .mk hsign hwhole hfraction hexponent, ?_⟩
  simp only [scan, List.append_assoc]
  rw [← hafterFraction, ← hafterWhole, ← hafterSign, ← hcs]

end Numeral

theorem isWord_of_literalChars? {cs : List Char} {v : Value} (h : literalChars? cs = some v) :
    IsWord cs := by
  constructor
  · rintro rfl
    have hnone : literalChars? [] = none := by decide
    rw [hnone] at h
    contradiction
  · obtain ⟨taken, hfields, hcs⟩ := Numeral.fields_scan cs
    have htaken : ∀ c ∈ taken, isBlank c = false := fun c hc =>
      (hfields.isNumeralChar c hc).isBlank_eq_false
    unfold literalChars? at h
    split at h
    · next x hscan =>
      rw [hscan, List.append_nil] at hcs
      rwa [hcs]
    · next x hscan =>
      have hsuffix : ∀ c ∈ ['f'], isBlank c = false :=
        List.forall_mem_singleton.mpr (by decide)
      rw [hscan] at hcs
      rw [hcs, List.forall_mem_append]
      exact ⟨htaken, hsuffix⟩
    · contradiction

theorem isWord_of_literal? {word : String} {v : Value} (h : literal? word = some v) :
    IsWord word.toList :=
  isWord_of_literalChars? h

theorem spanDigits_append {cs rest : List Char} {ds : List Nat} (h : Grammar.Digits cs ds)
    (hrest : ∀ c ∈ rest.head?, digitValue? c = none) :
    spanDigits digitValue? (cs ++ rest) = (ds, rest) := by
  induction h with
  | nil =>
      cases rest with
      | nil => rfl
      | cons c rest => simp [spanDigits, hrest c rfl]
  | cons hc _ ih => simp [spanDigits, hc, ih]

theorem spanDigits_of_digits {cs : List Char} {ds : List Nat} (h : Grammar.Digits cs ds) :
    spanDigits digitValue? cs = (ds, []) := by
  have hspan : spanDigits digitValue? (cs ++ []) = (ds, []) := spanDigits_append h (by simp)
  rwa [List.append_nil] at hspan

theorem scanSign_append {sign rest : List Char} {negative : Bool}
    (h : Grammar.Sign sign negative) (hrest : ∀ c ∈ rest.head?, c ≠ '-' ∧ c ≠ '+') :
    Numeral.scanSign (sign ++ rest) = (negative, rest) := by
  cases h with
  | absent =>
      cases rest with
      | nil => rfl
      | cons c rest =>
          obtain ⟨hminus, hplus⟩ := hrest c rfl
          simp [Numeral.scanSign, hminus, hplus]
  | plus => simp [Numeral.scanSign]
  | minus => simp [Numeral.scanSign]

theorem Grammar.Digits.head?_ne_sign {cs : List Char} {ds : List Nat}
    (h : Grammar.Digits cs ds) : ∀ c ∈ cs.head?, c ≠ '-' ∧ c ≠ '+' := by
  cases h with
  | nil => simp
  | cons hc hrest =>
      intro b hb
      obtain rfl : _ = b := by simpa using hb
      constructor
      · rintro rfl
        rw [digitValue?_sign.1] at hc
        contradiction
      · rintro rfl
        rw [digitValue?_sign.2] at hc
        contradiction

theorem Grammar.SignedDigits.ne_nil {cs : List Char} {negative : Bool} {ds : List Nat}
    (h : Grammar.SignedDigits cs negative ds) : ds ≠ [] := by
  obtain ⟨-, -, hne⟩ := h
  exact hne

theorem Grammar.SignedDigits.isWord {cs : List Char} {negative : Bool} {ds : List Nat}
    (h : Grammar.SignedDigits cs negative ds) : IsWord cs := by
  refine ⟨?_, fun c hc => (h.isNumeralChar c hc).isBlank_eq_false⟩
  obtain ⟨hsign, hdigits, hne⟩ := h
  cases hdigits with
  | nil => contradiction
  | cons _ _ => simp

theorem scan_of_signedDigits {cs : List Char} {negative : Bool} {ds : List Nat}
    (h : Grammar.SignedDigits cs negative ds) :
    Numeral.scan digitValue? cs = (⟨negative, ds, none, none⟩, []) := by
  obtain ⟨hsign, hdigits, -⟩ := h
  have hspan := spanDigits_of_digits hdigits
  simp [Numeral.scan, scanSign_append hsign hdigits.head?_ne_sign, hspan,
    Numeral.scanFraction, Numeral.scanExponent]

/-- A sign and digits that spell an integer of 32 bits are its literal. -/
theorem literalChars?_of_signedDigits {cs : List Char} {negative : Bool} {ds : List Nat}
    (h : Grammar.SignedDigits cs negative ds) (hlength : ds.length ≤ integerDigitLimit)
    (hfits : Value.fits (Binary.signed negative (ofDigits ds)) = true) :
    literalChars? cs = some (.i32 (Int32.ofInt (Binary.signed negative (ofDigits ds)))) := by
  simp [literalChars?, scan_of_signedDigits h, Numeral.isInteger, Numeral.integer, h.ne_nil,
    hlength, hfits]

/-- With too many digits, or out of range, they are no literal at all. -/
theorem literalChars?_of_signedDigits_eq_none {cs : List Char} {negative : Bool} {ds : List Nat}
    (h : Grammar.SignedDigits cs negative ds)
    (hbounds : ¬ (ds.length ≤ integerDigitLimit ∧
      Value.fits (Binary.signed negative (ofDigits ds)) = true)) : literalChars? cs = none := by
  simp [literalChars?, scan_of_signedDigits h, Numeral.isInteger, Numeral.integer, h.ne_nil,
    hbounds]

end PostfixCalc
