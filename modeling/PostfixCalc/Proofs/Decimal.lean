import Mathlib.Data.List.Induction
import Mathlib.Data.List.TakeWhile
import Mathlib.Tactic.Ring
import PostfixCalc.Decimal
import PostfixCalc.Proofs.Binary.Nearest
import PostfixCalc.Value.Making

/-!
# Decimals and the numbers nearest to them

A list of digits spells a number by position: digits behind it shift it, and zeros
behind it multiply it by powers of ten.  The digits that are written for a number say
between which powers of ten it lies.

A decimal is rounded by its value: zeros behind the coefficient do not matter.  The
powers of ten that are settled by their size alone are settled as the division would
settle them, so a decimal whose rank is positive and finite becomes the number at that
rank.

Whatever the search for a shortest decimal finds was put to the test, and the exact
expansion passes the test as well.  Dropping the zeros at the end does not change the
decimal, so its significant digits read back too.
-/

namespace PostfixCalc

theorem ofDigits_append (ds es : List ℕ) :
    ofDigits (ds ++ es) = ofDigits ds * 10 ^ es.length + ofDigits es := by
  induction es using List.reverseRecOn with
  | nil => simp [ofDigits]
  | append_singleton es e ih =>
      rw [← List.append_assoc, ofDigits_append_singleton, ofDigits_append_singleton, ih,
        List.length_append, List.length_singleton]
      ring

theorem ofDigits_replicate_zero (count : ℕ) : ofDigits (List.replicate count 0) = 0 := by
  induction count with
  | zero => rfl
  | succ count ih => rw [List.replicate_succ', ofDigits_append_singleton, ih]

theorem ofDigits_zeros_append (count : ℕ) (ds : List ℕ) :
    ofDigits (List.replicate count 0 ++ ds) = ofDigits ds := by
  rw [ofDigits_append, ofDigits_replicate_zero, Nat.zero_mul, Nat.zero_add]

theorem ofDigits_append_zeros (ds : List ℕ) (count : ℕ) :
    ofDigits (ds ++ List.replicate count 0) = ofDigits ds * 10 ^ count := by
  rw [ofDigits_append, ofDigits_replicate_zero, List.length_replicate, Nat.add_zero]

/-- As many digits as a number has are enough for it, and one less is not. -/
theorem decimalDigits_length_bounds (n : ℕ) :
    n < 10 ^ (decimalDigits n).length ∧
      (n ≠ 0 → 10 ^ ((decimalDigits n).length - 1) ≤ n) := by
  induction n using Nat.strongRecOn with
  | ind n ih =>
    rw [decimalDigits]
    split
    · next hsmall =>
      constructor
      · simpa using hsmall
      · intro hne
        simpa using Nat.one_le_iff_ne_zero.mpr hne
    · next hlarge =>
      obtain ⟨hlt, hge⟩ := ih (n / 10) (by omega)
      rw [List.length_append, List.length_singleton, Nat.add_sub_cancel]
      constructor
      · rw [Nat.pow_succ]
        omega
      · intro _
        have hquotient := hge (by omega)
        obtain ⟨k, hk⟩ : ∃ k, (decimalDigits (n / 10)).length = k + 1 :=
          ⟨(decimalDigits (n / 10)).length - 1, by
            have := List.length_pos_iff.mpr (decimalDigits_ne_nil (n / 10))
            omega⟩
        rw [hk, Nat.add_sub_cancel] at hquotient
        rw [hk, Nat.pow_succ]
        omega

theorem length_decimalDigits_le {n count : ℕ} (hn : n < 10 ^ (count + 1)) :
    (decimalDigits n).length ≤ count + 1 := by
  by_cases hzero : n = 0
  · rw [hzero, decimalDigits, if_pos (by decide)]
    simp
  · have hlow := (decimalDigits_length_bounds n).2 hzero
    have hlength := (Nat.pow_lt_pow_iff_right (by decide)).mp (Nat.lt_of_le_of_lt hlow hn)
    omega

theorem length_decimalDigits_le_iff {n count : ℕ} (hcount : 0 < count) :
    (decimalDigits n).length ≤ count ↔ n < 10 ^ count := by
  constructor
  · intro hlength
    exact Nat.lt_of_lt_of_le (decimalDigits_length_bounds n).1
      (Nat.pow_le_pow_right (by decide) hlength)
  · obtain ⟨k, rfl⟩ := Nat.exists_eq_succ_of_ne_zero (Nat.ne_of_gt hcount)
    exact length_decimalDigits_le

theorem integerText_eq_error_iff {n : ℤ} {fault : Fault} :
    integerText n = .error fault ↔
      fault = .integerTooLong ∧ 10 ^ integerDigitLimit ≤ n.natAbs := by
  have hlimit : 0 < integerDigitLimit := by decide
  unfold integerText
  generalize integerDigitLimit = limit at hlimit ⊢
  simp only [length_decimalDigits_le_iff hlimit]
  split
  · next hlt => simp [hlt]
  · next hge => simp [Nat.not_lt.mp hge, eq_comm]

theorem integerText_ten_pow :
    integerText (10 ^ integerDigitLimit) = .error .integerTooLong := by
  have hnatAbs (count : ℕ) : (10 ^ count : ℤ).natAbs = 10 ^ count := Int.natAbs_pow 10 count
  exact integerText_eq_error_iff.mpr ⟨rfl, Nat.le_of_eq (hnatAbs integerDigitLimit).symm⟩

theorem ofDigits_lt {ds : List ℕ} (hds : ∀ d ∈ ds, d < 10) : ofDigits ds < 10 ^ ds.length := by
  induction ds using List.reverseRecOn with
  | nil => simp [ofDigits]
  | append_singleton ds d ih =>
      rw [List.forall_mem_append, List.forall_mem_singleton] at hds
      have hfront := ih hds.1
      rw [ofDigits_append_singleton, List.length_append, List.length_singleton, Nat.pow_succ]
      omega

/-- A number is written with at most as many digits as it is spelled with. -/
theorem length_decimalDigits_ofDigits_le {ds : List ℕ} (hne : ds ≠ []) (hds : ∀ d ∈ ds, d < 10) :
    (decimalDigits (ofDigits ds)).length ≤ ds.length := by
  obtain ⟨count, hcount⟩ := Nat.exists_eq_succ_of_ne_zero
    (Nat.ne_of_gt (List.length_pos_iff.mpr hne))
  rw [hcount]
  apply length_decimalDigits_le
  rw [← Nat.succ_eq_add_one, ← hcount]
  exact ofDigits_lt hds

namespace Decimal

/-- The same decimal with zeros behind its coefficient. -/
def rescale (d : Decimal) (count : ℕ) : Decimal :=
  ⟨d.coefficient * 10 ^ count, d.exponent - count⟩

theorem denominator_pos (d : Decimal) : 0 < d.denominator := Nat.pow_pos (by decide)

theorem rescale_value (d : Decimal) (count scale : ℕ) :
    (d.rescale count).numerator scale * d.denominator =
      d.numerator scale * (d.rescale count).denominator := by
  have hexponents : count + (d.exponent - count).toNat + (-d.exponent).toNat =
      d.exponent.toNat + (-(d.exponent - count)).toNat := by omega
  have hpowers := congrArg (10 ^ · : ℕ → ℕ) hexponents
  simp only [Nat.pow_add] at hpowers
  simp only [rescale, numerator, denominator, Nat.pow_eq]
  calc d.coefficient * 10 ^ count * 10 ^ (d.exponent - count).toNat * scale *
        10 ^ (-d.exponent).toNat =
      d.coefficient * scale *
        (10 ^ count * 10 ^ (d.exponent - count).toNat * 10 ^ (-d.exponent).toNat) := by ring
    _ = d.coefficient * 10 ^ d.exponent.toNat * scale * 10 ^ (-(d.exponent - count)).toNat := by
      rw [hpowers]
      ring

end Decimal

namespace Format

variable {F : Format}

theorem rankOfDecimal_rescale (hF : F.IsProper) (d : Decimal) (count : ℕ) :
    F.rankOfDecimal (d.rescale count) = F.rankOfDecimal d :=
  nearestRank_congr hF (d.rescale count).denominator_pos d.denominator_pos
    (d.rescale_value count _)

theorem nearestRank_eq_zero (hF : F.IsProper) {n d : ℕ} (hd : 0 < d) (h : 2 * n ≤ d) :
    F.nearestRank n d = 0 := by
  rw [nearestRank_eq_iff hF hd]
  have hmid : F.twiceMidpoint 0 = 1 := by rw [twiceMidpoint, units_zero, units_one]
  constructor
  · rwa [hmid, Nat.one_mul]
  · intro _
    rfl
  · intro q hq
    contradiction
  · intro q hq _
    contradiction

theorem rankOfDecimal_of_coefficient_eq_zero (hF : F.IsProper) {d : Decimal}
    (hd : d.coefficient = 0) : F.rankOfDecimal d = 0 := by
  apply nearestRank_eq_zero hF d.denominator_pos
  rw [Decimal.numerator, hd, Nat.zero_mul, Nat.zero_mul]
  exact Nat.zero_le _

theorem bound_pos (hF : F.IsProper) : 0 < F.bound := by
  apply F.units_strictMono.lt_iff_lt.mp
  rw [units_zero, F.units_bound hF]
  exact Nat.mul_pos (Nat.two_pow_pos _) (Nat.two_pow_pos _)

/-- Past this power of ten there are no finite numbers. -/
theorem units_bound_le (hF : F.IsProper) :
    F.units F.bound ≤ 10 ^ (F.unitBits + 1) * 2 ^ F.unitBits := by
  obtain ⟨e, he⟩ : ∃ e, F.exponentBits = e + 1 :=
    ⟨F.exponentBits - 1, by have := hF.exponent; omega⟩
  have hpow : 2 ^ 1 ≤ 2 ^ e := Nat.pow_le_pow_right (by decide) (by have := hF.exponent; omega)
  have hfraction := hF.fraction
  have hunit : F.unitBits = 2 ^ e - 2 + F.fractionBits := by
    unfold unitBits
    rw [he]
    rfl
  rw [F.units_bound hF, he, ← Nat.pow_add, Nat.pow_succ]
  calc 2 ^ (F.fractionBits + (2 ^ e * 2 - 2)) ≤ 2 ^ (F.unitBits + 1 + F.unitBits) :=
        Nat.pow_le_pow_right (by decide) (by omega)
    _ = 2 ^ (F.unitBits + 1) * 2 ^ F.unitBits := Nat.pow_add _ _ _
    _ ≤ 10 ^ (F.unitBits + 1) * 2 ^ F.unitBits :=
        Nat.mul_le_mul_right _ (Nat.pow_le_pow_left (by decide) _)

theorem bound_le_rankOfDecimal (hF : F.IsProper) {d : Decimal} (hd : d.coefficient ≠ 0)
    (htop : F.unitBits + 1 < d.top) : F.bound ≤ F.rankOfDecimal d := by
  apply le_nearestRank hF d.denominator_pos
  have hlow := (decimalDigits_length_bounds d.coefficient).2 hd
  have hdigits := List.length_pos_iff.mpr (decimalDigits_ne_nil d.coefficient)
  unfold Decimal.top at htop
  unfold Decimal.numerator Decimal.denominator
  simp only [Nat.pow_eq]
  generalize (decimalDigits d.coefficient).length = count at *
  calc F.units F.bound * 10 ^ (-d.exponent).toNat ≤
        10 ^ (F.unitBits + 1) * 2 ^ F.unitBits * 10 ^ (-d.exponent).toNat :=
        Nat.mul_le_mul_right _ (units_bound_le hF)
    _ = 10 ^ (F.unitBits + 1 + (-d.exponent).toNat) * 2 ^ F.unitBits := by
        rw [Nat.pow_add]
        ring
    _ ≤ 10 ^ (count - 1 + d.exponent.toNat) * 2 ^ F.unitBits :=
        Nat.mul_le_mul_right _ (Nat.pow_le_pow_right (by decide) (by omega))
    _ = 10 ^ (count - 1) * 10 ^ d.exponent.toNat * 2 ^ F.unitBits := by rw [Nat.pow_add]
    _ ≤ d.coefficient * 10 ^ d.exponent.toNat * 2 ^ F.unitBits :=
        Nat.mul_le_mul_right _ (Nat.mul_le_mul_right _ hlow)

theorem rankOfDecimal_eq_zero (hF : F.IsProper) {d : Decimal} (htop : d.top < -F.unitBits) :
    F.rankOfDecimal d = 0 := by
  apply nearestRank_eq_zero hF d.denominator_pos
  have hhigh := (decimalDigits_length_bounds d.coefficient).1
  unfold Decimal.top at htop
  unfold Decimal.numerator Decimal.denominator
  simp only [Nat.pow_eq]
  generalize (decimalDigits d.coefficient).length = count at *
  have hexponent : d.exponent.toNat = 0 := by omega
  calc 2 * (d.coefficient * 10 ^ d.exponent.toNat * 2 ^ F.unitBits) =
        d.coefficient * 2 ^ (F.unitBits + 1) := by
        rw [hexponent, Nat.pow_succ]
        ring
    _ ≤ 10 ^ count * 10 ^ (F.unitBits + 1) :=
        Nat.mul_le_mul (Nat.le_of_lt hhigh) (Nat.pow_le_pow_left (by decide) _)
    _ = 10 ^ (count + (F.unitBits + 1)) := (Nat.pow_add _ _ _).symm
    _ ≤ 10 ^ (-d.exponent).toNat := Nat.pow_le_pow_right (by decide) (by omega)

end Format

namespace Binary

variable {F : Format}

/-- A decimal becomes the finite number at its rank.  Only the decimal zero becomes a
zero without being rounded. -/
theorem ofDecimal_of_rank (hF : F.IsProper) (negative : Bool) {d : Decimal}
    (hbound : F.rankOfDecimal d < F.bound)
    (hzero : F.rankOfDecimal d = 0 → d.coefficient = 0) :
    ofDecimal F negative d = .finite negative ⟨F.rankOfDecimal d, hbound⟩ := by
  unfold ofDecimal
  split
  · next hcoefficient =>
    simp only [Format.rankOfDecimal_of_coefficient_eq_zero hF hcoefficient]
    exact ofRank_of_lt negative (Format.bound_pos hF)
  · next hcoefficient =>
    have hlarge : ¬ F.unitBits + 1 < d.top := by
      intro htop
      have hle := Format.bound_le_rankOfDecimal hF hcoefficient htop
      omega
    have hsmall : ¬ d.top < -F.unitBits := by
      intro htop
      exact hcoefficient (hzero (Format.rankOfDecimal_eq_zero hF htop))
    rw [if_neg hlarge, if_neg hsmall]
    exact ofRank_of_lt negative hbound

end Binary

namespace Format

variable {F : Format}

theorem numerator_exactDecimal (rank : ℕ) :
    (F.exactDecimal rank).numerator (2 ^ F.unitBits) =
      F.units rank * (F.exactDecimal rank).denominator := by
  have hpowers : 5 ^ F.unitBits * 2 ^ F.unitBits = 10 ^ F.unitBits := by rw [← Nat.mul_pow]
  have hzero : (-(F.unitBits : ℤ)).toNat = 0 := by omega
  have hunits : (- -(F.unitBits : ℤ)).toNat = F.unitBits := by omega
  unfold Decimal.numerator Decimal.denominator exactDecimal
  simp only [Nat.pow_eq]
  rw [hzero, hunits, Nat.pow_zero, Nat.mul_one, Nat.mul_assoc, hpowers]

theorem rankOfDecimal_exactDecimal (hF : F.IsProper) (rank : ℕ) :
    F.rankOfDecimal (F.exactDecimal rank) = rank := by
  unfold rankOfDecimal
  simp only [Nat.pow_eq]
  rw [numerator_exactDecimal]
  exact nearestRank_units hF (F.exactDecimal rank).denominator_pos rank

theorem rankOfDecimal_shortestDecimal (hF : F.IsProper) (rank : ℕ) :
    F.rankOfDecimal (F.shortestDecimal rank) = rank := by
  unfold shortestDecimal
  dsimp only
  generalize hsearch : List.findSome? _ _ = shortest?
  cases shortest? with
  | none => exact rankOfDecimal_exactDecimal hF rank
  | some d =>
      obtain ⟨places, -, hfind⟩ := List.exists_of_findSome?_eq_some hsearch
      have hback : F.readsBack rank d = true := List.find?_some hfind
      exact beq_iff_eq.mp hback

theorem dist_gridNeighbours {n : ℕ} {exponent : ℤ} {x : Decimal}
    (hx : x ∈ gridNeighbours n (2 ^ F.unitBits) exponent) :
    Nat.dist (x.numerator (2 ^ F.unitBits)) (n * x.denominator) ≤
      10 ^ x.exponent.toNat * 2 ^ F.unitBits := by
  obtain ⟨c, rfl, hc⟩ : ∃ c, x = ⟨c, exponent⟩ ∧
      (c = n * 10 ^ (-exponent).toNat / (10 ^ exponent.toNat * 2 ^ F.unitBits) ∨
        c = n * 10 ^ (-exponent).toNat / (10 ^ exponent.toNat * 2 ^ F.unitBits) + 1) := by
    have hnearer := roundQuotient_eq_or (n * 10 ^ (-exponent).toNat)
      (10 ^ exponent.toNat * 2 ^ F.unitBits)
    unfold gridNeighbours at hx
    simp only [Nat.pow_eq, Nat.mul_comm (2 ^ F.unitBits)] at hx
    rcases List.mem_cons.mp hx with rfl | hfarther
    · exact ⟨_, rfl, hnearer⟩
    · obtain rfl := List.mem_singleton.mp hfarther
      refine ⟨_, rfl, ?_⟩
      split
      · next hfloor => exact Or.inr (congrArg (· + 1) hfloor)
      · exact Or.inl rfl
  unfold Decimal.numerator Decimal.denominator
  simp only [Nat.pow_eq]
  rw [Nat.mul_assoc]
  have hstep : 0 < 10 ^ exponent.toNat * 2 ^ F.unitBits :=
    Nat.mul_pos (Nat.pow_pos (by decide)) (Nat.two_pow_pos _)
  generalize n * 10 ^ (-exponent).toNat = p at *
  generalize 10 ^ exponent.toNat * 2 ^ F.unitBits = step at *
  have hdivision := Nat.div_add_mod' p step
  have hremainder := Nat.mod_lt p hstep
  unfold Nat.dist
  rcases hc with rfl | rfl
  · omega
  · rw [Nat.succ_mul]
    omega

/-- The shortest decimal lies within one step of its last place. -/
theorem dist_shortestDecimal (F : Format) (rank : ℕ) :
    Nat.dist ((F.shortestDecimal rank).numerator (2 ^ F.unitBits))
        (F.units rank * (F.shortestDecimal rank).denominator) ≤
      10 ^ (F.shortestDecimal rank).exponent.toNat * 2 ^ F.unitBits := by
  unfold shortestDecimal
  dsimp only
  generalize hsearch : List.findSome? _ _ = shortest?
  cases shortest? with
  | none =>
      rw [Option.getD_none, numerator_exactDecimal, Nat.dist_self]
      exact Nat.zero_le _
  | some x =>
      obtain ⟨places, -, hfind⟩ := List.exists_of_findSome?_eq_some hsearch
      exact dist_gridNeighbours (List.mem_of_find?_eq_some hfind)

end Format

/-! ## Significant digits -/

/-- The decimal that significant digits stand for. -/
def Significant.decimal (s : Significant) : Decimal :=
  ⟨ofDigits s.digits, s.order + 1 - s.digits.length⟩

theorem exists_append_zeros (ds : List ℕ) :
    ∃ count, ds = (ds.reverse.dropWhile (· == 0)).reverse ++ List.replicate count 0 := by
  refine ⟨(ds.reverse.takeWhile (· == 0)).length, ?_⟩
  have hzeros : ds.reverse.takeWhile (· == 0) =
      List.replicate (ds.reverse.takeWhile (· == 0)).length 0 := by
    apply List.eq_replicate_iff.mpr
    refine ⟨rfl, ?_⟩
    intro d hd
    simpa using List.mem_takeWhile_imp hd
  rw [← List.reverse_replicate, ← hzeros, ← List.reverse_append, List.takeWhile_append_dropWhile,
    List.reverse_reverse]

theorem Decimal.exists_rescale_significant (d : Decimal) :
    ∃ count, d = d.significant.decimal.rescale count := by
  obtain ⟨count, hzeros⟩ := exists_append_zeros (decimalDigits d.coefficient)
  refine ⟨count, ?_⟩
  have hcoefficient := congrArg ofDigits hzeros
  have hlength := congrArg List.length hzeros
  rw [ofDigits_decimalDigits, ofDigits_append_zeros] at hcoefficient
  rw [List.length_append, List.length_replicate] at hlength
  obtain ⟨coefficient, exponent⟩ := d
  unfold Decimal.significant Significant.decimal Decimal.rescale
  dsimp only at hcoefficient hlength ⊢
  rw [← hcoefficient]
  congr 1
  omega

theorem Decimal.significant_digits (d : Decimal) :
    (∀ k ∈ d.significant.digits, k < 10) ∧ (d.coefficient ≠ 0 → d.significant.digits ≠ []) := by
  obtain ⟨count, hzeros⟩ := exists_append_zeros (decimalDigits d.coefficient)
  constructor
  · intro k hk
    apply decimalDigits_lt_ten d.coefficient
    rw [hzeros]
    exact List.mem_append_left _ hk
  · intro hne hnil
    have hcoefficient := congrArg ofDigits hzeros
    have hdigits : ((decimalDigits d.coefficient).reverse.dropWhile (· == 0)).reverse = [] := hnil
    rw [hdigits, ofDigits_decimalDigits, List.nil_append, ofDigits_replicate_zero] at hcoefficient
    exact hne hcoefficient

end PostfixCalc
