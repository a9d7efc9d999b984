import PostfixCalc.Proofs.Decimal
import PostfixCalc.Proofs.Token.Scan

/-!
# Reals and written values are literals

What the grammar of reals spells is scanned with nothing left over, and the fields that
the scanner finds are those that were spelled.  A real is therefore the literal of a
double, and with the suffix `f` behind it the literal of a single, which is rounded
twice.

What is written for an integer or a finite number is spelled by the grammar of
literals.  Both spellings of a number, the positional one and the one with an exponent,
stand for the decimal of its significant digits, up to zeros behind the coefficient.
-/

namespace PostfixCalc

namespace Grammar

/-- The decimal of a spelled real, without its sign. -/
def realDecimal (whole fraction : List Nat) (exponent? : Option (Bool × List Nat)) : Decimal :=
  (⟨false, whole, some fraction, exponent?⟩ : Numeral).decimal

/-- A real may be followed by what starts neither a digit nor another field. -/
def EndsReal (rest : List Char) : Prop :=
  ∀ c ∈ rest.head?, digitValue? c = none ∧ c ≠ '.' ∧ c ≠ 'e' ∧ c ≠ 'E'

theorem endsReal_nil : EndsReal [] := by
  intro c hc
  contradiction

theorem endsReal_suffix : EndsReal ['f'] := by
  intro c hc
  obtain rfl : 'f' = c := by simpa using hc
  decide

theorem digitValue?_mark :
    digitValue? '.' = none ∧ digitValue? 'e' = none ∧ digitValue? 'E' = none := by
  decide

theorem Digits.head?_append_ne_sign {cs rest : List Char} {ds : List Nat} (h : Digits cs ds)
    (hrest : ds = [] → ∀ c ∈ rest.head?, c ≠ '-' ∧ c ≠ '+') :
    ∀ c ∈ (cs ++ rest).head?, c ≠ '-' ∧ c ≠ '+' := by
  cases h with
  | nil => exact hrest rfl
  | cons hc htail =>
      intro b hb
      exact (Digits.cons hc htail).head?_ne_sign b hb

end Grammar

open Grammar

namespace Numeral

theorem scanFraction_point {fs rest : List Char} {fraction : List Nat} (hfs : Digits fs fraction)
    (hrest : ∀ c ∈ rest.head?, digitValue? c = none) :
    scanFraction digitValue? ('.' :: fs ++ rest) = (some fraction, rest) := by
  rw [List.cons_append, scanFraction, if_pos rfl, spanDigits_append hfs hrest]

theorem scanFraction_of_ne_point {rest : List Char} (hrest : ∀ c ∈ rest.head?, c ≠ '.') :
    scanFraction digitValue? rest = (none, rest) := by
  cases rest with
  | nil => rfl
  | cons c rest => rw [scanFraction, if_neg (hrest c rfl)]

theorem scanExponent_mark {es rest : List Char} {negative : Bool} {ds : List Nat}
    (hes : Exponent es negative ds) (hrest : ∀ c ∈ rest.head?, digitValue? c = none) :
    scanExponent digitValue? (es ++ rest) = (some (negative, ds), rest) := by
  obtain ⟨hmark, hsigned⟩ := hes
  obtain ⟨hsign, hdigits, hne⟩ := hsigned
  have hhead := @Digits.head?_append_ne_sign _ rest _ hdigits fun hnil => absurd hnil hne
  rw [List.cons_append, scanExponent, if_pos hmark, List.append_assoc]
  simp [scanSign_append hsign hhead, spanDigits_append hdigits hrest, hne]

theorem scanExponent_of_ne_mark {rest : List Char}
    (hrest : ∀ c ∈ rest.head?, c ≠ 'e' ∧ c ≠ 'E') :
    scanExponent digitValue? rest = (none, rest) := by
  cases rest with
  | nil => rfl
  | cons c rest =>
      obtain ⟨hlower, hupper⟩ := hrest c rfl
      rw [scanExponent, if_neg (by simp [hlower, hupper])]

theorem scanExponent_append {es rest : List Char} {exponent? : Option (Bool × List Nat)}
    (hes : OptionalExponent es exponent?) (hrest : EndsReal rest) :
    scanExponent digitValue? (es ++ rest) = (exponent?, rest) := by
  cases hes with
  | absent => exact scanExponent_of_ne_mark fun c hc => (hrest c hc).2.2
  | present hexponent => exact scanExponent_mark hexponent fun c hc => (hrest c hc).1

end Numeral

theorem Grammar.Exponent.head?_append {es rest : List Char} {negative : Bool} {ds : List Nat}
    (h : Exponent es negative ds) :
    ∀ c ∈ (es ++ rest).head?, digitValue? c = none ∧ c ≠ '.' := by
  obtain ⟨hmark, -⟩ := h
  intro c hc
  obtain rfl : _ = c := by simpa using hc
  rcases hmark with rfl | rfl
  · exact ⟨digitValue?_mark.2.1, by decide⟩
  · exact ⟨digitValue?_mark.2.2, by decide⟩

theorem Grammar.OptionalExponent.head?_append {es rest : List Char}
    {exponent? : Option (Bool × List Nat)} (h : OptionalExponent es exponent?)
    (hrest : EndsReal rest) : ∀ c ∈ (es ++ rest).head?, digitValue? c = none := by
  cases h with
  | absent => exact fun c hc => (hrest c hc).1
  | present hexponent => exact fun c hc => (hexponent.head?_append c hc).1

theorem scan_of_real {cs rest : List Char} {negative : Bool} {whole fraction : List Nat}
    {exponent? : Option (Bool × List Nat)} (h : Real cs negative whole fraction exponent?)
    (hrest : EndsReal rest) :
    ∃ x : Numeral, Numeral.scan digitValue? (cs ++ rest) = (x, rest) ∧ x.isInteger = false ∧
      x.isReal = true ∧ x.negative = negative ∧
      x.decimal = realDecimal whole fraction exponent? := by
  cases h with
  | @pointed sign ws fs es _ _ _ _ hsign hws hfs hne hes =>
      refine ⟨⟨negative, whole, some fraction, exponent?⟩, ?_, by simp [Numeral.isInteger], ?_,
        rfl, rfl⟩
      · have hfraction := Numeral.scanFraction_point hfs (hes.head?_append hrest)
        have hwhole : spanDigits digitValue? (ws ++ ('.' :: fs ++ (es ++ rest))) =
            (whole, '.' :: fs ++ (es ++ rest)) := by
          apply spanDigits_append hws
          intro c hc
          obtain rfl : '.' = c := by simpa using hc
          exact digitValue?_mark.1
        have hhead : ∀ c ∈ (ws ++ ('.' :: fs ++ (es ++ rest))).head?, c ≠ '-' ∧ c ≠ '+' := by
          apply hws.head?_append_ne_sign
          intro _ c hc
          obtain rfl : '.' = c := by simpa using hc
          decide
        simp only [List.append_assoc, Numeral.scan]
        rw [scanSign_append hsign hhead, hwhole, hfraction, Numeral.scanExponent_append hes hrest]
      · rcases hne with hwhole | hfraction
        · simp [Numeral.isReal, hwhole]
        · simp [Numeral.isReal, hfraction]
  | @unpointed sign ws es _ _ exponent hsign hws hne hes =>
      refine ⟨⟨negative, whole, none, some exponent⟩, ?_, by simp [Numeral.isInteger],
        by simp [Numeral.isReal, hne], rfl, rfl⟩
      have hafter : ∀ c ∈ (es ++ rest).head?, digitValue? c = none ∧ c ≠ '.' := hes.head?_append
      have hhead : ∀ c ∈ (ws ++ (es ++ rest)).head?, c ≠ '-' ∧ c ≠ '+' :=
        hws.head?_append_ne_sign fun hnil => absurd hnil hne
      simp only [List.append_assoc, Numeral.scan]
      rw [scanSign_append hsign hhead, spanDigits_append hws fun c hc => (hafter c hc).1,
        Numeral.scanFraction_of_ne_point fun c hc => (hafter c hc).2,
        Numeral.scanExponent_mark hes fun c hc => (hrest c hc).1]

/-- A real is the literal of the double nearest to its decimal. -/
theorem literalChars?_of_real {cs : List Char} {negative : Bool} {whole fraction : List Nat}
    {exponent? : Option (Bool × List Nat)} (h : Real cs negative whole fraction exponent?) :
    literalChars? cs =
      some (.f64 (Binary.ofDecimal .double negative (realDecimal whole fraction exponent?))) := by
  obtain ⟨x, hscan, hinteger, hreal, rfl, hdecimal⟩ := scan_of_real h endsReal_nil
  rw [List.append_nil] at hscan
  simp [literalChars?, hscan, hinteger, hreal, Numeral.nearest, hdecimal]

/-- With the suffix it is the literal of the single nearest to that double. -/
theorem literalChars?_of_real_suffix {cs : List Char} {negative : Bool}
    {whole fraction : List Nat} {exponent? : Option (Bool × List Nat)}
    (h : Real cs negative whole fraction exponent?) :
    literalChars? (cs ++ ['f']) =
      some (.f32 ((Binary.ofDecimal .double negative
        (realDecimal whole fraction exponent?)).convert .single)) := by
  obtain ⟨x, hscan, -, hreal, rfl, hdecimal⟩ := scan_of_real h endsReal_suffix
  simp [literalChars?, hscan, hreal, Numeral.nearest, hdecimal]

/-! ## Written values -/

open Grammar

theorem digits_map_digitChar {ds : List Nat} (hds : ∀ d ∈ ds, d < 10) :
    Grammar.Digits (ds.map digitChar) ds := by
  induction ds with
  | nil => exact .nil
  | cons d ds ih =>
      rw [List.forall_mem_cons] at hds
      exact .cons (digitValue?_digitChar hds.1) (ih hds.2)

theorem signedDigits_intChars (n : Int) :
    Grammar.SignedDigits (intChars n) (decide (n < 0)) (decimalDigits n.natAbs) := by
  have hdigits : Grammar.Digits (natChars n.natAbs) (decimalDigits n.natAbs) :=
    digits_map_digitChar (decimalDigits_lt_ten n.natAbs)
  have hne := decimalDigits_ne_nil n.natAbs
  unfold intChars
  by_cases hn : n < 0
  · rw [if_pos hn, decide_eq_true hn]
    exact .mk .minus hdigits hne
  · rw [if_neg hn, decide_eq_false hn]
    exact .mk .absent hdigits hne

theorem signed_natAbs (n : Int) : Binary.signed (decide (n < 0)) n.natAbs = n := by
  unfold Binary.signed
  by_cases hn : n < 0
  · rw [decide_eq_true hn, if_pos rfl]
    omega
  · rw [decide_eq_false hn, if_neg Bool.false_ne_true]
    omega

theorem Value.fits_iff {n : Int} : Value.fits n = true ↔ -2 ^ 31 ≤ n ∧ n < 2 ^ 31 := by
  rw [Value.fits, Bool.and_eq_true, decide_eq_true_iff, decide_eq_true_iff,
    Int32.toInt_minValue, Int32.toInt_maxValue]
  omega

/-- The digits of an integer of 32 bits are read without reaching the limit. -/
theorem length_decimalDigits_of_fits {n : Int} (h : Value.fits n = true) :
    (decimalDigits n.natAbs).length ≤ integerDigitLimit := by
  have hbounds := Value.fits_iff.mp h
  have hten : (decimalDigits n.natAbs).length ≤ 9 + 1 := length_decimalDigits_le (by omega)
  unfold integerDigitLimit
  omega

theorem literalChars?_intChars (n : Int32) : literalChars? (intChars n.toInt) = some (.i32 n) := by
  have hfits : Value.fits n.toInt = true := Value.fits_iff.mpr ⟨n.le_toInt, n.toInt_lt⟩
  have hvalue : Binary.signed (decide (n.toInt < 0)) (ofDigits (decimalDigits n.toInt.natAbs)) =
      n.toInt := by
    rw [ofDigits_decimalDigits, signed_natAbs]
  rw [literalChars?_of_signedDigits (signedDigits_intChars n.toInt)
    (length_decimalDigits_of_fits hfits) (by rwa [hvalue]), hvalue, Int32.ofInt_toInt]

namespace Grammar

theorem Digits.append {cs cs' : List Char} {ds ds' : List Nat} (h : Digits cs ds)
    (h' : Digits cs' ds') : Digits (cs ++ cs') (ds ++ ds') := by
  induction h with
  | nil => exact h'
  | cons hc _ ih => exact .cons hc ih

theorem digits_zero : Digits ['0'] [0] := .cons (by decide) .nil

theorem digits_zeros (count : ℕ) :
    Digits (List.replicate count '0') (List.replicate count 0) := by
  induction count with
  | zero => exact .nil
  | succ count ih => exact digits_zero.append ih

end Grammar

namespace Significant

/-- The characters, behind a sign, spell the decimal of significant digits, up to zeros
behind its coefficient. -/
def IsSpelledBy (s : Significant) (sign cs : List Char) (negative : Bool) : Prop :=
  ∃ whole fraction exponent? count, Real (sign ++ cs) negative whole fraction exponent? ∧
    realDecimal whole fraction exponent? = s.decimal.rescale count

variable {s : Significant} {sign : List Char} {negative : Bool}

theorem isSpelledBy_of_real {cs : List Char} {whole fraction : List Nat}
    {exponent? : Option (Bool × List Nat)} (count : ℕ)
    (hreal : Real (sign ++ cs) negative whole fraction exponent?)
    (hdigits : ofDigits (whole ++ fraction) = ofDigits s.digits * 10 ^ count)
    (horder : (⟨false, whole, some fraction, exponent?⟩ : Numeral).exponent - fraction.length =
      s.order + 1 - s.digits.length - count) : s.IsSpelledBy sign cs negative := by
  refine ⟨whole, fraction, exponent?, count, hreal, ?_⟩
  exact congrArg₂ Decimal.mk hdigits horder

/-- Below one there is nothing but zeros in front of the digits. -/
theorem isSpelledBy_positional_of_neg (hsign : Sign sign negative)
    (hdigits : ∀ d ∈ s.digits, d < 10) (horder : s.order < 0) :
    s.IsSpelledBy sign s.positional negative := by
  obtain ⟨ds, order⟩ := s
  dsimp only at hdigits horder
  have hreal := Real.pointed hsign digits_zero
    ((digits_zeros (-order - 1).toNat).append (digits_map_digitChar hdigits))
    (Or.inl (by simp)) .absent
  refine isSpelledBy_of_real 0 (by simpa [positional, horder] using hreal) ?_ ?_
  · have hzeros := ofDigits_zeros_append ((-order - 1).toNat + 1) ds
    rw [List.replicate_succ, List.cons_append] at hzeros
    simpa using hzeros
  · rw [List.length_append, List.length_replicate]
    change (0 : ℤ) - _ = order + 1 - ds.length - (0 : ℕ)
    omega

theorem isSpelledBy_positional_of_lt (hsign : Sign sign negative)
    (hdigits : ∀ d ∈ s.digits, d < 10) (horder : 0 ≤ s.order)
    (hlong : s.order.toNat + 1 < s.digits.length) : s.IsSpelledBy sign s.positional negative := by
  obtain ⟨ds, order⟩ := s
  dsimp only at hdigits horder hlong
  have hwhole : Digits ((ds.take (order.toNat + 1)).map digitChar) (ds.take (order.toNat + 1)) :=
    digits_map_digitChar fun d hd => hdigits d (List.mem_of_mem_take hd)
  have hfraction : Digits ((ds.drop (order.toNat + 1)).map digitChar) (ds.drop (order.toNat + 1)) :=
    digits_map_digitChar fun d hd => hdigits d (List.mem_of_mem_drop hd)
  have hne : ds.drop (order.toNat + 1) ≠ [] := by
    intro hnil
    rw [List.drop_eq_nil_iff] at hnil
    omega
  have hreal := Real.pointed hsign hwhole hfraction (Or.inr hne) .absent
  have hnegative : ¬ order < 0 := by omega
  have hfill : order.toNat + 1 - ds.length = 0 := by omega
  have hdrop : ¬ ds.length ≤ order.toNat + 1 := by omega
  refine isSpelledBy_of_real 0 (by simpa [positional, hnegative, hfill, hdrop] using hreal) ?_ ?_
  · rw [List.take_append_drop, Nat.pow_zero, Nat.mul_one]
  · rw [List.length_drop]
    change (0 : ℤ) - _ = order + 1 - ds.length - (0 : ℕ)
    omega

/-- Otherwise zeros fill the places up to the point and the one behind it. -/
theorem isSpelledBy_positional_of_le (hsign : Sign sign negative)
    (hdigits : ∀ d ∈ s.digits, d < 10) (horder : 0 ≤ s.order)
    (hshort : s.digits.length ≤ s.order.toNat + 1) : s.IsSpelledBy sign s.positional negative := by
  obtain ⟨ds, order⟩ := s
  dsimp only at hdigits horder hshort
  have hreal := Real.pointed hsign
    ((digits_map_digitChar hdigits).append (digits_zeros (order.toNat + 1 - ds.length)))
    digits_zero (Or.inr (by simp)) .absent
  have hnegative : ¬ order < 0 := by omega
  have htake : (ds.map digitChar).take (order.toNat + 1) = ds.map digitChar := by
    rw [List.take_of_length_le (by simpa using hshort)]
  have hdrop : (ds.map digitChar).drop (order.toNat + 1) = [] := by
    rw [List.drop_of_length_le (by simpa using hshort)]
  refine isSpelledBy_of_real (order.toNat + 1 - ds.length + 1)
    (by simpa [positional, hnegative, htake, hdrop] using hreal) ?_ ?_
  · rw [List.append_assoc, ← List.replicate_succ', ofDigits_append_zeros]
  · change (0 : ℤ) - (1 : ℕ) = order + 1 - ds.length - (order.toNat + 1 - ds.length + 1 : ℕ)
    omega

theorem isSpelledBy_positional (hsign : Sign sign negative) (hdigits : ∀ d ∈ s.digits, d < 10) :
    s.IsSpelledBy sign s.positional negative := by
  rcases Int.lt_or_le s.order 0 with hneg | hnonneg
  · exact isSpelledBy_positional_of_neg hsign hdigits hneg
  · rcases Nat.lt_or_ge (s.order.toNat + 1) s.digits.length with hlong | hshort
    · exact isSpelledBy_positional_of_lt hsign hdigits hnonneg hlong
    · exact isSpelledBy_positional_of_le hsign hdigits hnonneg hshort

theorem exists_exponent (order : ℤ) :
    ∃ eds, Exponent ('e' :: exponentChars order) (decide (order < 0)) eds ∧
      Binary.signed (decide (order < 0)) (ofDigits eds) = order := by
  obtain ⟨eds, hds, hne, hvalue⟩ : ∃ eds,
      Digits (if (natChars order.natAbs).length < 2 then '0' :: natChars order.natAbs
        else natChars order.natAbs) eds ∧ eds ≠ [] ∧ ofDigits eds = order.natAbs := by
    have hds : Digits (natChars order.natAbs) (decimalDigits order.natAbs) :=
      digits_map_digitChar (decimalDigits_lt_ten order.natAbs)
    by_cases hshort : (natChars order.natAbs).length < 2
    · rw [if_pos hshort]
      have hzeros := ofDigits_zeros_append 1 (decimalDigits order.natAbs)
      rw [ofDigits_decimalDigits] at hzeros
      exact ⟨_, digits_zero.append hds, by simp, hzeros⟩
    · rw [if_neg hshort]
      exact ⟨_, hds, decimalDigits_ne_nil _, ofDigits_decimalDigits _⟩
  refine ⟨eds, ?_, by rw [hvalue, signed_natAbs]⟩
  unfold exponentChars
  dsimp only
  by_cases hnegative : order < 0
  · rw [if_pos hnegative, decide_eq_true hnegative]
    exact .mk (Or.inl rfl) (.mk .minus hds hne)
  · rw [if_neg hnegative, decide_eq_false hnegative]
    exact .mk (Or.inl rfl) (.mk .plus hds hne)

theorem isSpelledBy_scientific (hsign : Sign sign negative) (hdigits : ∀ d ∈ s.digits, d < 10)
    (hne : s.digits ≠ []) : s.IsSpelledBy sign s.scientific negative := by
  obtain ⟨ds, order⟩ := s
  obtain ⟨eds, hexponent, horder⟩ := exists_exponent order
  dsimp only at hdigits hne
  obtain ⟨first, rest, rfl⟩ := List.exists_cons_of_ne_nil hne
  rw [List.forall_mem_cons] at hdigits
  have hfirst : Digits [digitChar first] [first] :=
    digits_map_digitChar (List.forall_mem_singleton.mpr hdigits.1)
  cases rest with
  | nil =>
      have hreal : Real (sign ++ [digitChar first] ++ 'e' :: exponentChars order) negative
          [first] [] (some (decide (order < 0), eds)) :=
        .unpointed hsign hfirst (by simp) hexponent
      refine isSpelledBy_of_real 0 (by simpa [scientific] using hreal) (by simp) ?_
      change Binary.signed (decide (order < 0)) (ofDigits eds) - (0 : ℕ) =
        order + 1 - (1 : ℕ) - (0 : ℕ)
      omega
  | cons second rest =>
      have hreal := Real.pointed hsign hfirst (digits_map_digitChar hdigits.2) (Or.inl (by simp))
        (.present hexponent)
      refine isSpelledBy_of_real 0 (by simpa [scientific] using hreal) (by simp) ?_
      change Binary.signed (decide (order < 0)) (ofDigits eds) - ((second :: rest).length : ℕ) =
        order + 1 - ((second :: rest).length + 1 : ℕ) - (0 : ℕ)
      omega

end Significant

/-! ## Numbers -/

/-- What is written for a finite number spells a decimal that rounds to its rank, and
rounds in every format as the shortest decimal does; zero is spelled by zeros. -/
theorem exists_real_magnitudeChars {F : Format} (hF : F.IsProper) (L : Layout F) (rank : ℕ)
    {sign : List Char} {negative : Bool} (hsign : Sign sign negative) :
    ∃ whole fraction exponent?,
      Real (sign ++ Binary.magnitudeChars L rank) negative whole fraction exponent? ∧
        F.rankOfDecimal (realDecimal whole fraction exponent?) = rank ∧
        (rank = 0 → (realDecimal whole fraction exponent?).coefficient = 0) ∧
        (rank ≠ 0 → ∀ G : Format, G.IsProper →
          G.rankOfDecimal (realDecimal whole fraction exponent?) =
            G.rankOfDecimal (F.shortestDecimal rank)) := by
  unfold Binary.magnitudeChars
  by_cases hzero : rank = 0
  · have hreal := Real.pointed hsign digits_zero digits_zero (Or.inl (by simp)) .absent
    have hcoefficient : (realDecimal [0] [0] none).coefficient = 0 := rfl
    rw [if_pos hzero]
    refine ⟨[0], [0], none, by simpa using hreal, ?_, fun _ => hcoefficient, absurd hzero⟩
    rw [Format.rankOfDecimal_of_coefficient_eq_zero hF hcoefficient, hzero]
  · rw [if_neg hzero]
    have hrank := Format.rankOfDecimal_shortestDecimal hF rank
    generalize F.shortestDecimal rank = d at *
    obtain ⟨hdigits, hdigitsNe⟩ := d.significant_digits
    have hne : d.significant.digits ≠ [] := by
      apply hdigitsNe
      intro hcoefficient
      rw [Format.rankOfDecimal_of_coefficient_eq_zero hF hcoefficient] at hrank
      exact hzero hrank.symm
    have hspelled : d.significant.IsSpelledBy sign
        (if L.isPositional rank d.significant.order then d.significant.positional
          else d.significant.scientific) negative := by
      split
      · exact Significant.isSpelledBy_positional hsign hdigits
      · exact Significant.isSpelledBy_scientific hsign hdigits hne
    obtain ⟨whole, fraction, exponent?, count, hreal, hdecimal⟩ := hspelled
    obtain ⟨zeros, hzeros⟩ := d.exists_rescale_significant
    have hsame : ∀ G : Format, G.IsProper →
        G.rankOfDecimal (realDecimal whole fraction exponent?) = G.rankOfDecimal d := by
      intro G hG
      rw [hdecimal, Format.rankOfDecimal_rescale hG,
        ← Format.rankOfDecimal_rescale hG d.significant.decimal zeros, ← hzeros]
    exact ⟨whole, fraction, exponent?, hreal, (hsame F hF).trans hrank, fun h => absurd h hzero,
      fun _ => hsame⟩

theorem sign_signChars (negative : Bool) : Sign (Binary.signChars negative) negative := by
  cases negative with
  | false => exact .absent
  | true => exact .minus

theorem literalChars?_doubleChars (negative : Bool) (rank : Fin Format.double.bound) :
    literalChars? (doubleChars (.finite negative rank)) = some (.f64 (.finite negative rank)) := by
  obtain ⟨whole, fraction, exponent?, hreal, hrank, hzero, -⟩ := exists_real_magnitudeChars
    Format.isProper_double Layout.double rank (sign_signChars negative)
  have hbound : Format.double.rankOfDecimal (realDecimal whole fraction exponent?) <
      Format.double.bound := by
    rw [hrank]
    exact rank.isLt
  have hdouble := Binary.ofDecimal_of_rank Format.isProper_double negative hbound (by rwa [hrank])
  change literalChars? (Binary.signChars negative ++ Binary.magnitudeChars Layout.double rank) = _
  rw [literalChars?_of_real hreal, hdouble]
  congr 3
  exact Fin.ext hrank

end PostfixCalc
