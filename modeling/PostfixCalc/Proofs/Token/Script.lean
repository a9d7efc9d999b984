import PostfixCalc.Proofs.Token.Spelling
import PostfixCalc.Settings

/-!
# Literals in all scripts

The digits of a literal may come from any script, and from several.  Writing each of them
as the ASCII digit of the same value changes nothing that the scanner sees: digits keep
their values, and signs, points, marks and suffixes are no digits of any script.
-/

namespace PostfixCalc

open Grammar

/-- The ASCII digit of the same value.  What is no digit stays as it is. -/
def asciiDigit (c : Char) : Char :=
  match digitValue? c with
  | some d => digitChar d
  | none => c

/-- A text with ASCII digits in place of those of other scripts. -/
def asciiDigits (text : String) : String := String.ofList (text.toList.map asciiDigit)

theorem asciiDigit_of_digit {c : Char} {d : ℕ} (h : digitValue? c = some d) :
    asciiDigit c = digitChar d := by
  simp only [asciiDigit, h]

theorem asciiDigit_of_not_digit {c : Char} (h : digitValue? c = none) : asciiDigit c = c := by
  simp only [asciiDigit, h]

/-- Digits keep their values, and nothing else becomes a digit. -/
@[simp] theorem digitValue?_asciiDigit (c : Char) : digitValue? (asciiDigit c) = digitValue? c := by
  cases hvalue : digitValue? c with
  | none => rw [asciiDigit_of_not_digit hvalue, hvalue]
  | some d =>
      have hd : d < 10 := (eq_ofNat_of_digitValue? hvalue).1
      rw [asciiDigit_of_digit hvalue, digitValue?_digitChar hd]

theorem asciiDigit_eq_iff {c m : Char} (hm : digitValue? m = none) : asciiDigit c = m ↔ c = m := by
  constructor
  · rintro rfl
    rw [digitValue?_asciiDigit] at hm
    exact (asciiDigit_of_not_digit hm).symm
  · rintro rfl
    exact asciiDigit_of_not_digit hm

theorem spanDigits_map_asciiDigit (cs : List Char) :
    spanDigits digitValue? (cs.map asciiDigit) =
      ((spanDigits digitValue? cs).1, (spanDigits digitValue? cs).2.map asciiDigit) := by
  induction cs with
  | nil => rfl
  | cons c cs ih =>
      rw [List.map_cons, spanDigits, spanDigits, digitValue?_asciiDigit]
      split
      · rfl
      · rw [ih]

namespace Numeral

theorem scanSign_map_asciiDigit (cs : List Char) :
    scanSign (cs.map asciiDigit) = ((scanSign cs).1, (scanSign cs).2.map asciiDigit) := by
  cases cs with
  | nil => rfl
  | cons c cs =>
      simp only [List.map_cons, scanSign, asciiDigit_eq_iff digitValue?_sign.1,
        asciiDigit_eq_iff digitValue?_sign.2]
      split
      · rfl
      · split
        · rfl
        · rfl

theorem scanFraction_map_asciiDigit (cs : List Char) :
    scanFraction digitValue? (cs.map asciiDigit) =
      ((scanFraction digitValue? cs).1, (scanFraction digitValue? cs).2.map asciiDigit) := by
  cases cs with
  | nil => rfl
  | cons c cs =>
      simp only [List.map_cons, scanFraction, asciiDigit_eq_iff digitValue?_mark.1,
        spanDigits_map_asciiDigit]
      split
      · rfl
      · rfl

theorem scanExponent_map_asciiDigit (cs : List Char) :
    scanExponent digitValue? (cs.map asciiDigit) =
      ((scanExponent digitValue? cs).1, (scanExponent digitValue? cs).2.map asciiDigit) := by
  cases cs with
  | nil => rfl
  | cons c cs =>
      simp only [List.map_cons, scanExponent, asciiDigit_eq_iff digitValue?_mark.2.1,
        asciiDigit_eq_iff digitValue?_mark.2.2, scanSign_map_asciiDigit, spanDigits_map_asciiDigit]
      split
      · split
        · rfl
        · rfl
      · rfl

/-- The fields of a numeral stay the same, and what follows it is what followed it. -/
theorem scan_map_asciiDigit (cs : List Char) :
    scan digitValue? (cs.map asciiDigit) =
      ((scan digitValue? cs).1, (scan digitValue? cs).2.map asciiDigit) := by
  simp only [scan, scanSign_map_asciiDigit, spanDigits_map_asciiDigit,
    scanFraction_map_asciiDigit, scanExponent_map_asciiDigit]

end Numeral

theorem literalChars?_map_asciiDigit (cs : List Char) :
    literalChars? (cs.map asciiDigit) = literalChars? cs := by
  have hsuffix (c : Char) : asciiDigit c = 'f' ↔ c = 'f' := asciiDigit_eq_iff (by decide)
  unfold literalChars?
  rw [Numeral.scan_map_asciiDigit]
  obtain ⟨x, rest⟩ := Numeral.scan digitValue? cs
  match rest with
  | [] => rfl
  | [c] =>
      by_cases hc : c = 'f'
      · rw [List.map_singleton, (hsuffix c).mpr hc, hc]
      · simp [hc, hsuffix c]
  | c :: d :: rest => simp

theorem literal?_asciiDigits (t : String) : literal? (asciiDigits t) = literal? t := by
  rw [literal?, asciiDigits, String.toList_ofList, literalChars?_map_asciiDigit, literal?]

theorem asciiDigits_append_suffix (t : String) : asciiDigits (t ++ "f") = asciiDigits t ++ "f" := by
  rw [asciiDigits, String.toList_append, List.map_append, String.ofList_append]
  rfl

/-! ## Other readers of numbers -/

theorem Grammar.SpellsInteger.readInteger? {t : String} {n : ℤ} (h : SpellsInteger t.toList n) :
    readInteger? t = some n := by
  have hchars := h.isNumeralChar
  obtain ⟨negative, ds, hsigned, hlength, rfl, -⟩ := h
  rw [PostfixCalc.readInteger?, ungroup?_of_isNumeralChar hchars]
  generalize t.toList = cs at hsigned
  obtain ⟨hsign, hdigits, hne⟩ := hsigned
  obtain ⟨d, ds, rfl⟩ := List.exists_cons_of_ne_nil hne
  have hbound : (d :: ds).length ≤ integerDigitLimit := hlength
  simp only [Option.bind_eq_bind, Option.bind_some, scanSign_append hsign hdigits.head?_ne_sign,
    spanDigits_of_digits hdigits, if_pos hbound]

/-- Literals do not depend on the scripts of their digits.  With ASCII digits of the same
values a text spells the same literal, or none as before, and the readers of integers and
of doubles agree with the literal on both texts. -/
theorem literal?_independent_of_script (t : String) :
    literal? (asciiDigits t) = literal? t ∧
      (∀ n, literal? t = some (.i32 n) →
        readInteger? t = some n.toInt ∧ readInteger? (asciiDigits t) = some n.toInt) ∧
      (∀ x, literal? t = some (.f64 x) →
        readDouble? t = some x ∧ readDouble? (asciiDigits t) = some x) ∧
      ∀ y, literal? t = some (.f32 y) →
        ∃ u x, t = u ++ "f" ∧ asciiDigits t = asciiDigits u ++ "f" ∧ readDouble? u = some x ∧
          readDouble? (asciiDigits u) = some x ∧ y = x.convert .single := by
  refine ⟨literal?_asciiDigits t, ?_, ?_, ?_⟩
  · intro n hn
    have hascii := (literal?_asciiDigits t).trans hn
    exact ⟨(literal?_eq_i32_iff.mp hn).readInteger?, (literal?_eq_i32_iff.mp hascii).readInteger?⟩
  · intro x hx
    have hascii := (literal?_asciiDigits t).trans hx
    exact ⟨(literal?_eq_f64_iff.mp hx).readDouble?, (literal?_eq_f64_iff.mp hascii).readDouble?⟩
  · intro y hy
    obtain ⟨u, x, rfl, hu, rfl⟩ := literal?_eq_f32_iff.mp hy
    have hx := literal?_eq_f64_iff.mpr hu
    have hascii := (literal?_asciiDigits u).trans hx
    exact ⟨u, x, rfl, asciiDigits_append_suffix u, hu.readDouble?,
      (literal?_eq_f64_iff.mp hascii).readDouble?, rfl⟩

/-- Mixed scripts in mantissa, exponent and suffixed forms, one of them just out of range. -/
example :
    ["-१٢3", "1٠.५e-٣", "٢e१f", "٢1٤٧४83648"].map asciiDigits =
        ["-123", "10.5e-3", "2e1f", "2147483648"] ∧
      ["-१٢3", "1٠.५e-٣", "٢e१f", "٢1٤٧४83648"].map (fun t => (literal? t).map Value.text) =
        [some "-123", some "0.0105", some "20.0", none] := by
  decide +kernel

end PostfixCalc
