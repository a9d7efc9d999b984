import PostfixCalc.Proofs.Token.Written

/-!
# Literals and their spellings

The scanner takes the fields of a numeral one after the other, each as far as it goes.
Nothing is lost by that: a text is a literal exactly if the grammar spells it, as digits
alone, as a real, or as a real with a suffix, and its value is the one that is spelled.
-/

namespace PostfixCalc

namespace Grammar

/-- A sign and one to 4300 digits, of an integer of 32 bits. -/
def SpellsInteger (cs : List Char) (n : ℤ) : Prop :=
  ∃ negative ds, SignedDigits cs negative ds ∧ ds.length ≤ 4300 ∧
    n = Binary.signed negative (ofDigits ds) ∧ -2 ^ 31 ≤ n ∧ n ≤ 2 ^ 31 - 1

/-- A real, and the double nearest to it. -/
def SpellsDouble (cs : List Char) (x : Double) : Prop :=
  ∃ negative whole fraction exponent?, Real cs negative whole fraction exponent? ∧
    x = Binary.ofDecimal .double negative (realDecimal whole fraction exponent?)

/-- The spellings of literals.  The suffix is of reals only. -/
inductive Literal : List Char → Value → Prop where
  | integer {cs : List Char} {n : Int32} : SpellsInteger cs n.toInt → Literal cs (.i32 n)
  | double {cs : List Char} {x : Double} : SpellsDouble cs x → Literal cs (.f64 x)
  | single {cs : List Char} {x : Double} :
      SpellsDouble cs x → Literal (cs ++ ['f']) (.f32 (x.convert .single))

theorem Real.isNumeralChar {cs : List Char} {negative : Bool} {whole fraction : List ℕ}
    {exponent? : Option (Bool × List ℕ)} (h : Real cs negative whole fraction exponent?) :
    ∀ c ∈ cs, IsNumeralChar c := by
  cases h with
  | pointed hsign hws hfs _ hes =>
      simp only [List.forall_mem_append, List.forall_mem_cons]
      exact ⟨⟨⟨hsign.isNumeralChar, hws.isNumeralChar⟩, Or.inr (by decide), hfs.isNumeralChar⟩,
        hes.isNumeralChar⟩
  | unpointed hsign hws _ hes =>
      simp only [List.forall_mem_append]
      exact ⟨⟨hsign.isNumeralChar, hws.isNumeralChar⟩, hes.isNumeralChar⟩

theorem SpellsDouble.isNumeralChar {cs : List Char} {x : Double} (h : SpellsDouble cs x) :
    ∀ c ∈ cs, IsNumeralChar c := by
  obtain ⟨_, _, _, _, hreal, -⟩ := h
  exact hreal.isNumeralChar

theorem SpellsInteger.isNumeralChar {cs : List Char} {n : ℤ} (h : SpellsInteger cs n) :
    ∀ c ∈ cs, IsNumeralChar c := by
  obtain ⟨_, _, hdigits, -⟩ := h
  exact hdigits.isNumeralChar

theorem Literal.isNumeralChar_or {cs : List Char} {v : Value} (h : Literal cs v) :
    ∀ c ∈ cs, IsNumeralChar c ∨ c = 'f' := by
  cases h with
  | integer hinteger => exact fun c hc => Or.inl (hinteger.isNumeralChar c hc)
  | double hdouble => exact fun c hc => Or.inl (hdouble.isNumeralChar c hc)
  | single hdouble =>
      rw [List.forall_mem_append]
      exact ⟨fun c hc => Or.inl (hdouble.isNumeralChar c hc),
        List.forall_mem_singleton.mpr (Or.inr rfl)⟩

theorem not_isNumeralChar : ¬ IsNumeralChar 'f' ∧ ¬ IsNumeralChar '_' := by
  unfold IsNumeralChar
  decide

theorem Fields.signedDigits {cs : List Char} {x : Numeral} (h : Fields cs x)
    (hinteger : x.isInteger = true) : SignedDigits cs x.negative x.whole := by
  obtain ⟨negative, whole, fraction?, exponent?⟩ := x
  obtain ⟨hsign, hwhole, hfraction, hexponent⟩ := h
  cases hfraction with
  | present _ => simp [Numeral.isInteger] at hinteger
  | absent =>
      cases hexponent with
      | present _ => simp [Numeral.isInteger] at hinteger
      | absent =>
          have hne : whole ≠ [] := by simpa [Numeral.isInteger] using hinteger
          rw [List.append_nil, List.append_nil]
          exact .mk hsign hwhole hne

theorem Fields.real {cs : List Char} {x : Numeral} (h : Fields cs x) (hreal : x.isReal = true) :
    Real cs x.negative x.whole (x.fraction?.getD []) x.exponent? := by
  obtain ⟨negative, whole, fraction?, exponent?⟩ := x
  obtain ⟨hsign, hwhole, hfraction, hexponent⟩ := h
  cases hfraction with
  | @present fs fraction hdigits =>
      have hne : whole ≠ [] ∨ fraction ≠ [] := by simpa [Numeral.isReal] using hreal
      exact .pointed hsign hwhole hdigits hne hexponent
  | absent =>
      cases hexponent with
      | absent => simp [Numeral.isReal] at hreal
      | present hexponent =>
          have hne : whole ≠ [] := by simpa [Numeral.isReal] using hreal
          rw [List.append_nil]
          exact .unpointed hsign hwhole hne hexponent

theorem Fields.spellsDouble {cs : List Char} {x : Numeral} (h : Fields cs x)
    (hreal : x.isReal = true) : SpellsDouble cs (x.nearest .double) :=
  ⟨_, _, _, _, h.real hreal, rfl⟩

theorem Fields.spellsInteger {cs : List Char} {x : Numeral} (h : Fields cs x)
    (hinteger : x.isInteger = true) (hlength : x.whole.length ≤ integerDigitLimit)
    (hfits : Value.fits x.integer = true) : SpellsInteger cs x.integer := by
  obtain ⟨hlower, hupper⟩ := Value.fits_iff.mp hfits
  exact ⟨_, _, h.signedDigits hinteger, hlength, rfl, hlower, by omega⟩

theorem SpellsInteger.literal {cs : List Char} {n : ℤ} (h : SpellsInteger cs n) :
    Literal cs (.i32 (Int32.ofInt n)) := by
  have hvalue : (Int32.ofInt n).toInt = n := by
    obtain ⟨_, _, -, -, -, hlower, hupper⟩ := h
    exact Int32.toInt_ofInt_of_le hlower (by omega)
  exact .integer (by rwa [hvalue])

end Grammar

open Grammar

/-! ## Literals -/

theorem literal_of_literalChars? {cs : List Char} {v : Value} (h : literalChars? cs = some v) :
    Literal cs v := by
  obtain ⟨taken, hfields, hcs⟩ := Numeral.fields_scan cs
  unfold literalChars? at h
  split at h
  · next x hscan =>
    rw [hscan] at hfields hcs
    obtain rfl : cs = taken := by simpa using hcs
    split at h
    · next hinteger =>
      split at h
      · next hbounds =>
        obtain rfl := Option.some.inj h
        exact (hfields.spellsInteger hinteger hbounds.1 hbounds.2).literal
      · contradiction
    · split at h
      · next hreal =>
        obtain rfl := Option.some.inj h
        exact .double (hfields.spellsDouble hreal)
      · contradiction
  · next x hscan =>
    rw [hscan] at hfields hcs
    split at h
    · next hreal =>
      obtain rfl := Option.some.inj h
      rw [hcs]
      exact .single (hfields.spellsDouble hreal)
    · contradiction
  · contradiction

theorem literalChars?_eq_some_iff {cs : List Char} {v : Value} :
    literalChars? cs = some v ↔ Literal cs v := by
  constructor
  · exact literal_of_literalChars?
  · intro h
    cases h with
    | @integer _ n hinteger =>
        obtain ⟨negative, ds, hdigits, hlength, hvalue, -⟩ := hinteger
        have hfits : Value.fits (Binary.signed negative (ofDigits ds)) = true := by
          rw [← hvalue]
          exact Value.fits_iff.mpr ⟨n.le_toInt, n.toInt_lt⟩
        rw [literalChars?_of_signedDigits hdigits hlength hfits, ← hvalue, Int32.ofInt_toInt]
    | double hdouble =>
        obtain ⟨negative, whole, fraction, exponent?, hreal, rfl⟩ := hdouble
        exact literalChars?_of_real hreal
    | single hdouble =>
        obtain ⟨negative, whole, fraction, exponent?, hreal, rfl⟩ := hdouble
        exact literalChars?_of_real_suffix hreal

theorem literal_i32_iff {cs : List Char} {n : Int32} :
    Literal cs (.i32 n) ↔ SpellsInteger cs n.toInt := by
  constructor
  · intro h
    cases h with
    | integer hinteger => exact hinteger
  · exact .integer

theorem literal_f64_iff {cs : List Char} {x : Double} :
    Literal cs (.f64 x) ↔ SpellsDouble cs x := by
  constructor
  · intro h
    cases h with
    | double hdouble => exact hdouble
  · exact .double

theorem literal_f32_iff {cs : List Char} {y : Single} :
    Literal cs (.f32 y) ↔ ∃ us x, cs = us ++ ['f'] ∧ SpellsDouble us x ∧ y = x.convert .single := by
  constructor
  · intro h
    cases h with
    | single hdouble => exact ⟨_, _, rfl, hdouble, rfl⟩
  · rintro ⟨us, x, rfl, hdouble, rfl⟩
    exact .single hdouble

/-- With the suffix nothing but a real is a literal. -/
theorem Grammar.Literal.of_suffix {cs : List Char} {v : Value} (h : Literal (cs ++ ['f']) v) :
    ∃ x, SpellsDouble cs x ∧ v = .f32 (x.convert .single) := by
  have hmem : 'f' ∈ cs ++ ['f'] := List.mem_append_right _ List.mem_cons_self
  generalize hsuffix : cs ++ ['f'] = text at h hmem
  cases h with
  | integer hinteger => exact absurd (hinteger.isNumeralChar _ hmem) not_isNumeralChar.1
  | double hdouble => exact absurd (hdouble.isNumeralChar _ hmem) not_isNumeralChar.1
  | single hdouble =>
      obtain rfl := List.append_cancel_right hsuffix
      exact ⟨_, hdouble, rfl⟩

theorem Grammar.SignedDigits.not_spellsDouble {cs : List Char} {negative : Bool} {ds : List ℕ}
    (h : SignedDigits cs negative ds) (x : Double) : ¬ SpellsDouble cs x := by
  rintro ⟨_, _, _, _, hreal, -⟩
  obtain ⟨y, hscan, hinteger, -⟩ := scan_of_real hreal endsReal_nil
  rw [List.append_nil, scan_of_signedDigits h] at hscan
  obtain ⟨rfl, -⟩ := Prod.mk.inj hscan
  obtain ⟨-, -, hne⟩ := h
  simp [Numeral.isInteger, hne] at hinteger

theorem literal?_eq_some_iff {t : String} {v : Value} :
    literal? t = some v ↔ Literal t.toList v :=
  literalChars?_eq_some_iff

theorem ungroup?_of_forall_ne (afterDigit : Bool) {cs : List Char} (h : ∀ c ∈ cs, c ≠ '_') :
    ungroup? afterDigit cs = some cs := by
  induction cs generalizing afterDigit with
  | nil => rfl
  | cons c cs ih =>
      rw [List.forall_mem_cons] at h
      unfold ungroup?
      rw [if_neg h.1, ih _ h.2, Option.map_some]

theorem ungroup?_of_isNumeralChar {cs : List Char} (h : ∀ c ∈ cs, IsNumeralChar c) :
    ungroup? false (trimBy isMargin cs) = some cs := by
  have hmargin : ∀ c ∈ cs, isMargin c = false := by
    intro c hc
    rw [isMargin, (h c hc).isBlank_eq_false, Bool.false_and]
  have hunderscore : ∀ c ∈ cs, c ≠ '_' := by
    rintro c hc rfl
    exact not_isNumeralChar.2 (h _ hc)
  rw [trimBy_of_forall hmargin, ungroup?_of_forall_ne _ hunderscore]

theorem Grammar.SpellsDouble.readDouble? {t : String} {x : Double} (h : SpellsDouble t.toList x) :
    readDouble? t = some x := by
  have hchars := h.isNumeralChar
  obtain ⟨negative, whole, fraction, exponent?, hreal, rfl⟩ := h
  obtain ⟨y, hscan, -, hisReal, rfl, hdecimal⟩ := scan_of_real hreal endsReal_nil
  rw [List.append_nil] at hscan
  rw [PostfixCalc.readDouble?, ungroup?_of_isNumeralChar hchars, Option.bind_some]
  simp [spelledDouble?, hscan, hisReal, Numeral.nearest, hdecimal]

/-! ## The grammar of literals -/

theorem literal?_eq_i32_iff {t : String} {n : Int32} :
    literal? t = some (.i32 n) ↔ SpellsInteger t.toList n.toInt :=
  literal?_eq_some_iff.trans literal_i32_iff

theorem literal?_eq_f64_iff {t : String} {x : Double} :
    literal? t = some (.f64 x) ↔ SpellsDouble t.toList x :=
  literal?_eq_some_iff.trans literal_f64_iff

theorem literal?_eq_f32_iff {t : String} {y : Single} :
    literal? t = some (.f32 y) ↔
      ∃ u x, t = u ++ "f" ∧ SpellsDouble u.toList x ∧ y = x.convert .single := by
  rw [literal?_eq_some_iff, literal_f32_iff]
  constructor
  · rintro ⟨us, x, hus, hdouble, rfl⟩
    refine ⟨String.ofList us, x, String.toList_injective ?_, by rwa [String.toList_ofList], rfl⟩
    rw [String.toList_append, String.toList_ofList, hus]
    rfl
  · rintro ⟨u, x, rfl, hdouble, rfl⟩
    exact ⟨u.toList, x, String.toList_append, hdouble, rfl⟩

theorem literal?_eq_none_iff {t : String} :
    literal? t = none ↔ (∀ n, ¬ SpellsInteger t.toList n) ∧ (∀ x, ¬ SpellsDouble t.toList x) ∧
      ∀ u x, t = u ++ "f" → ¬ SpellsDouble u.toList x := by
  rw [Option.eq_none_iff_forall_ne_some]
  constructor
  · intro hnone
    refine ⟨?_, ?_, ?_⟩
    · intro n hinteger
      exact hnone _ (literal?_eq_some_iff.mpr hinteger.literal)
    · intro x hdouble
      exact hnone _ (literal?_eq_f64_iff.mpr hdouble)
    · intro u x hu hdouble
      exact hnone _ (literal?_eq_f32_iff.mpr ⟨u, x, hu, hdouble, rfl⟩)
  · rintro ⟨hinteger, hdouble, hsingle⟩ v hv
    cases v with
    | i32 n => exact hinteger _ (literal?_eq_i32_iff.mp hv)
    | f64 x => exact hdouble x (literal?_eq_f64_iff.mp hv)
    | f32 y =>
        obtain ⟨u, x, hu, hx, -⟩ := literal?_eq_f32_iff.mp hv
        exact hsingle u x hu hx

/-- A character of no numeral, other than the suffix, makes a text no literal. -/
theorem literal?_eq_none_of_mem {t : String} {c : Char} (hc : c ∈ t.toList)
    (hnumeral : ¬ IsNumeralChar c) (hsuffix : c ≠ 'f') : literal? t = none := by
  rw [Option.eq_none_iff_forall_ne_some]
  intro v hv
  rcases (literal?_eq_some_iff.mp hv).isNumeralChar_or c hc with hnumeral' | hsuffix'
  · exact hnumeral hnumeral'
  · exact hsuffix hsuffix'

theorem literal?_suffix_eq_none {t : String} (h : ∀ x, ¬ SpellsDouble t.toList x) :
    literal? (t ++ "f") = none := by
  rw [Option.eq_none_iff_forall_ne_some]
  intro v hv
  rw [literal?_eq_some_iff, String.toList_append] at hv
  obtain ⟨x, hx, -⟩ := Grammar.Literal.of_suffix hv
  exact h x hx

/-- Literals are exactly what the grammar spells, with the values that it spells: integers
of 32 bits, reals as the doubles nearest to them, and reals with a suffix as those doubles
rounded once more.  Nothing else is a literal, such as a text with a character that no
numeral has, an integer with the suffix, or a text with the suffix twice. -/
theorem literal?_accepts_grammar (t : String) :
    (∀ n : Int32, literal? t = some (.i32 n) ↔ SpellsInteger t.toList n.toInt) ∧
      (∀ x, literal? t = some (.f64 x) ↔ SpellsDouble t.toList x) ∧
      (∀ y, literal? t = some (.f32 y) ↔
        ∃ u x, t = u ++ "f" ∧ SpellsDouble u.toList x ∧ y = x.convert .single) ∧
      (∀ x, SpellsDouble t.toList x → readDouble? t = some x) ∧
      (literal? t = none ↔ (∀ n, ¬ SpellsInteger t.toList n) ∧ (∀ x, ¬ SpellsDouble t.toList x) ∧
        ∀ u x, t = u ++ "f" → ¬ SpellsDouble u.toList x) ∧
      ((∃ c ∈ t.toList, ¬ IsNumeralChar c ∧ c ≠ 'f') → literal? t = none) ∧
      ((∃ negative ds, SignedDigits t.toList negative ds) → literal? (t ++ "f") = none) ∧
      literal? (t ++ "ff") = none := by
  refine ⟨fun n => literal?_eq_i32_iff, fun x => literal?_eq_f64_iff, fun y => literal?_eq_f32_iff,
    fun x hdouble => hdouble.readDouble?, literal?_eq_none_iff, ?_, ?_, ?_⟩
  · rintro ⟨c, hc, hnumeral, hsuffix⟩
    exact literal?_eq_none_of_mem hc hnumeral hsuffix
  · rintro ⟨negative, ds, hdigits⟩
    exact literal?_suffix_eq_none hdigits.not_spellsDouble
  · have htwice : t ++ "ff" = t ++ "f" ++ "f" := by
      rw [String.append_assoc]
      rfl
    rw [htwice]
    apply literal?_suffix_eq_none
    intro x hdouble
    exact not_isNumeralChar.1 (hdouble.isNumeralChar 'f' (by simp))

/-- Where the scanner turns back and where it does not, the bounds of integers, and texts
that other readers of numbers take. -/
example :
    ["1e5f", "1.", "-.5E+1", "٣.५", "+2147483647"].map (fun t => (literal? t).map Value.type) =
        [some .f32, some .f64, some .f64, some .f64, some .i32] ∧
      ∀ t ∈ ["1e", "1.e+", ".", "1f", "1.0ff", "2147483648", " 1", "1\n", "1_0", "inf", "0x1F"],
        literal? t = none := by
  decide +kernel

end PostfixCalc
