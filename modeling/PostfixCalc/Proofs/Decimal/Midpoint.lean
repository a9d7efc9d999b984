import PostfixCalc.Proofs.Binary.Twice
import PostfixCalc.Proofs.Decimal

/-!
# Short decimals beside the midpoints of singles

The text of a single rarely spells a double midway between two singles.  Its last place
would not be finer than half the distance of the two singles, and it would lie within
a `2 ^ 53`th part of the midpoint, so that its coefficient and the odd significand of
the midpoint form a fraction very close to a ratio of powers of two and ten.  There is
one ratio for each binade, and one convergent of it keeps all other fractions away.
What is left are three singles, each of which can be looked at.
-/

namespace PostfixCalc

section

variable {a b p q c m bits : ℕ}

/-- A fraction `p / q` close to the ratio `a / b` keeps away every other fraction `c / m`
with a short denominator. -/
theorem mul_eq_mul_of_isNear {width : ℕ}
    (honly : 2 ^ width * (q * a + Nat.dist (q * a) (p * b) * 2 ^ bits) < b * 2 ^ bits)
    (hm : m ≤ 2 ^ width) (hnear : IsNear bits (c * b) (m * a)) : c * q = m * p := by
  by_contra hne
  have hone : 1 ≤ Nat.dist (c * q) (m * p) := Nat.dist_pos_of_ne hne
  have htriangle := Nat.dist.triangle_inequality (q * (c * b)) (q * (m * a)) (m * (p * b))
  have hfar : Nat.dist (q * (c * b)) (m * (p * b)) = Nat.dist (c * q) (m * p) * b := by
    rw [← Nat.dist_mul_right]
    congr 1 <;> ring
  have hleft : Nat.dist (q * (m * a)) (m * (p * b)) = m * Nat.dist (q * a) (p * b) := by
    rw [← Nat.dist_mul_left]
    congr 1
    ring
  rw [hfar, Nat.dist_mul_left, hleft] at htriangle
  apply Nat.lt_irrefl (b * 2 ^ bits)
  calc b * 2 ^ bits ≤ Nat.dist (c * q) (m * p) * b * 2 ^ bits :=
        Nat.mul_le_mul_right _ (Nat.le_mul_of_pos_left b hone)
    _ ≤ (q * Nat.dist (c * b) (m * a) + m * Nat.dist (q * a) (p * b)) * 2 ^ bits :=
        Nat.mul_le_mul_right _ htriangle
    _ = q * (Nat.dist (c * b) (m * a) * 2 ^ bits) + m * (Nat.dist (q * a) (p * b) * 2 ^ bits) := by
        ring
    _ ≤ q * (m * a) + m * (Nat.dist (q * a) (p * b) * 2 ^ bits) :=
        Nat.add_le_add_right (Nat.mul_le_mul_left q hnear) _
    _ = m * (q * a + Nat.dist (q * a) (p * b) * 2 ^ bits) := by ring
    _ ≤ 2 ^ width * (q * a + Nat.dist (q * a) (p * b) * 2 ^ bits) := Nat.mul_le_mul_right _ hm
    _ < b * 2 ^ bits := honly

theorem isNear_of_mul_eq_mul (hq : 0 < q) (hm : 0 < m) (heq : c * q = m * p)
    (hnear : IsNear bits (c * b) (m * a)) : IsNear bits (p * b) (q * a) := by
  rw [← isNear_mul_right hq] at hnear
  rw [← isNear_mul_right hm]
  have hcoefficient : c * b * q = p * b * m := by
    rw [Nat.mul_right_comm, heq]
    ring
  have hsignificand : m * a * q = q * a * m := by ring
  rwa [hcoefficient, hsignificand] at hnear

end

/-- Convergents of `a / b`, from two of them on, as long as their denominators stay
within a limit. -/
def convergent (limit : ℕ) : (fuel a b p q p' q' : ℕ) → ℕ × ℕ
  | 0, _, _, _, _, p', q' => (p', q')
  | fuel + 1, a, b, p, q, p', q' =>
    if b = 0 ∨ limit < a / b * q' + q then (p', q')
    else convergent limit fuel b (a % b) p' q' (a / b * p' + p) (a / b * q' + q)

/-! ## The binades of singles -/

namespace Format

/-- Exponent of the least power of ten that reaches half the distance of the singles in
a binade. -/
def leastPlace (s : ℕ) : ℤ := -((150 - s) * 30103 / 100000)

/-- The midpoints in a binade are odd multiples of this number, in parts that the
decimals with the least place are multiples of as well. -/
def midpointStep (s : ℕ) : ℕ := 2 ^ s * 10 ^ (-leastPlace s).toNat

/-- The decimals with the least place are multiples of this number, in the same parts. -/
def decimalStep (s : ℕ) : ℕ := 10 ^ (leastPlace s).toNat * 2 ^ 150

/-- Ranks of the singles that the fractions do not settle. -/
def suspects : List ℕ := [0x15AE43FD, 0x162E43FD, 0x32DC4BD1]

/-- The fraction `p / q` settles a binade: no other fraction with a denominator of 25
bits is close enough to the ratio of the steps, and `p / q` itself is not close enough,
or is exact, or belongs to no midpoint or to the one beside a suspect. -/
def IsSettledBy (s p q : ℕ) : Prop :=
  0 < q ∧
    2 ^ 25 * (q * midpointStep s + Nat.dist (q * midpointStep s) (p * decimalStep s) * 2 ^ 53) <
      decimalStep s * 2 ^ 53 ∧
    (¬ IsNear 53 (p * decimalStep s) (q * midpointStep s) ∨
      p * decimalStep s = q * midpointStep s ∨
      p.Coprime q ∧ (q % 2 = 0 ∨ 2 ^ 25 ≤ q ∨ 2 ^ 24 < q ∧ s * 2 ^ 23 + q / 2 ∈ suspects))

instance (s p q : ℕ) : Decidable (IsSettledBy s p q) :=
  inferInstanceAs (Decidable (_ ∧ _ ∧ _))

/-- The last convergent whose denominator has 26 bits. -/
def nearbyFraction (s : ℕ) : ℕ × ℕ :=
  convergent (2 ^ 26) 64 (midpointStep s) (decimalStep s) 0 1 1 0

theorem isSettledBy_nearbyFraction :
    ∀ s < 254, IsSettledBy s (nearbyFraction s).1 (nearbyFraction s).2 := by
  decide +kernel

theorem lt_of_pow_ten {x y : ℕ} {e e' : ℤ} (hreach : x * 10 ^ (-e).toNat ≤ y * 10 ^ e.toNat)
    (hshort : y * 10 ^ e'.toNat < x * 10 ^ (-e').toNat) : e' < e := by
  by_contra hle
  have hexponents : (-e').toNat + e.toNat ≤ (-e).toNat + e'.toNat := by omega
  apply Nat.lt_irrefl (x * 10 ^ (-e).toNat * 10 ^ e'.toNat)
  calc x * 10 ^ (-e).toNat * 10 ^ e'.toNat ≤ y * 10 ^ e.toNat * 10 ^ e'.toNat :=
        Nat.mul_le_mul_right _ hreach
    _ = y * 10 ^ e'.toNat * 10 ^ e.toNat := Nat.mul_right_comm _ _ _
    _ < x * 10 ^ (-e').toNat * 10 ^ e.toNat :=
        Nat.mul_lt_mul_of_pos_right hshort (Nat.pow_pos (by decide))
    _ = x * 10 ^ ((-e').toNat + e.toNat) := by rw [Nat.mul_assoc, ← Nat.pow_add]
    _ ≤ x * 10 ^ ((-e).toNat + e'.toNat) :=
        Nat.mul_le_mul_left x (Nat.pow_le_pow_right (by decide) hexponents)
    _ = x * 10 ^ (-e).toNat * 10 ^ e'.toNat := by rw [Nat.pow_add, Nat.mul_assoc]

theorem leastPlace_le {s : ℕ} {e : ℤ} (hs : s < 254)
    (h : (2 ^ 28 - 1) * 2 ^ s * 10 ^ (-e).toNat ≤ 2 ^ 28 * 2 ^ 150 * 10 ^ e.toNat) :
    leastPlace s ≤ e := by
  have hcheck : ∀ s < 254, 2 ^ 28 * 2 ^ 150 * 10 ^ (leastPlace s - 1).toNat <
      (2 ^ 28 - 1) * 2 ^ s * 10 ^ (-(leastPlace s - 1)).toNat := by
    decide +kernel
  exact Int.sub_one_lt_iff.mp (lt_of_pow_ten h (hcheck s hs))

/-! ## Ties -/

theorem le_of_isNear_midpoint {n u t step w : ℕ} (hstep : Nat.dist (2 * u) t = step)
    (hshort : t ≤ 2 ^ 25 * step) (hdist : Nat.dist n u ≤ w) (hnear : IsNear 53 (2 * n) t) :
    (2 ^ 28 - 1) * step ≤ 2 ^ 28 * (2 * w) := by
  have hmid : Nat.dist (2 * n) t * 2 ^ 28 ≤ step := by
    apply Nat.le_of_mul_le_mul_right _ (Nat.two_pow_pos 25)
    calc Nat.dist (2 * n) t * 2 ^ 28 * 2 ^ 25 = Nat.dist (2 * n) t * 2 ^ 53 := by
          rw [Nat.mul_assoc, ← Nat.pow_add]
      _ ≤ t := hnear
      _ ≤ step * 2 ^ 25 := by rwa [Nat.mul_comm]
  have htriangle : step ≤ 2 * Nat.dist n u + Nat.dist (2 * n) t := by
    rw [← hstep, ← Nat.dist_mul_left, Nat.dist_comm (2 * n) (2 * u)]
    exact Nat.dist.triangle_inequality _ _ _
  omega

section

variable {F G : Format} {x : Decimal} {k q : ℕ}

theorem isNear_of_isMidway (hG : G.IsProper) (hdeep : F.unitBits + 1 + G.fractionBits ≤ G.unitBits)
    (hk : G.rankOfDecimal x = k) (hmid : F.IsMidway G k q) :
    IsNear (G.fractionBits + 1) (2 * x.numerator (2 ^ F.unitBits))
      (F.twiceMidpoint q * x.denominator) :=
  isNear_midpoint hG hdeep x.denominator_pos hk hmid

theorem even_rankOfDecimal (hF : F.IsProper)
    (h : 2 * x.numerator (2 ^ F.unitBits) = F.twiceMidpoint q * x.denominator) :
    F.rankOfDecimal x % 2 = 0 := by
  have hrank : F.rankOfDecimal x = q + q % 2 := nearestRank_midpoint hF x.denominator_pos h
  omega

end

theorem two_mul_unit (n : ℕ) : 2 * (n * 2 ^ single.unitBits) = n * 2 ^ 150 := by
  have hunit : single.unitBits = 149 := by decide
  rw [hunit]
  ring

/-- A decimal that is close to a midpoint, but within one step of the number before or
after it, has its last place at the least one or above. -/
theorem leastPlace_le_exponent {r q s m : ℕ} {x : Decimal} (hs : s < 254) (hm : m < 2 * 2 ^ 23)
    (hunits : single.units q = m * 2 ^ s) (htwice : single.twiceMidpoint q = (2 * m + 1) * 2 ^ s)
    (hq : q = r ∨ q + 1 = r)
    (hdist : Nat.dist (x.numerator (2 ^ single.unitBits)) (single.units r * x.denominator) ≤
      10 ^ x.exponent.toNat * 2 ^ single.unitBits)
    (hnear : IsNear 53 (2 * x.numerator (2 ^ single.unitBits))
      ((2 * m + 1) * (2 ^ s * x.denominator))) :
    leastPlace s ≤ x.exponent := by
  have hstep : Nat.dist (2 * (single.units r * x.denominator))
      ((2 * m + 1) * (2 ^ s * x.denominator)) = 2 ^ s * x.denominator := by
    have hfirst := congrArg (· * x.denominator) hunits
    have hboth := congrArg (· * x.denominator) htwice
    have hodd : (2 * m + 1) * (2 ^ s * x.denominator) =
        2 * (m * (2 ^ s * x.denominator)) + 2 ^ s * x.denominator := by ring
    simp only [twiceMidpoint, Nat.add_mul (single.units q), Nat.mul_assoc] at hfirst hboth
    unfold Nat.dist
    rcases hq with rfl | rfl
    · omega
    · omega
  have hshort : (2 * m + 1) * (2 ^ s * x.denominator) ≤ 2 ^ 25 * (2 ^ s * x.denominator) :=
    Nat.mul_le_mul_right _ (by omega)
  have hle := le_of_isNear_midpoint hstep hshort hdist hnear
  apply leastPlace_le hs
  rwa [two_mul_unit, ← Nat.mul_assoc, Nat.mul_comm _ (2 ^ 150), ← Nat.mul_assoc] at hle

/-- The shortest decimal of a single whose double is a midpoint beside it: written with
the least place of the binade, it is close to the midpoint. -/
theorem exists_isNear_of_isMidway {r q k : ℕ} (hr : r < single.bound) (hq : q = r ∨ q + 1 = r)
    (hk : double.rankOfDecimal (single.shortestDecimal r) = k)
    (hmid : single.IsMidway .double k q) :
    ∃ s m c, s < 254 ∧ q = s * 2 ^ 23 + m ∧ 2 * m + 1 ≤ 2 ^ 25 ∧
      IsNear 53 (c * decimalStep s) ((2 * m + 1) * midpointStep s) ∧
      (c * decimalStep s = (2 * m + 1) * midpointStep s → r % 2 = 0) := by
  have hbound : single.bound = 255 * 2 ^ 23 := by decide
  obtain ⟨s, m, hrank, hs, hm⟩ := single.exists_binade q
  have htwice := single.twiceMidpoint_binade hs hm
  have hunits := single.units_binade hs (Nat.le_of_lt hm)
  rw [← hrank] at htwice hunits
  change q = s * 2 ^ 23 + m at hrank
  change s = 0 ∨ 2 ^ 23 ≤ m at hs
  change m < 2 * 2 ^ 23 at hm
  have hbinade : s < 254 := by omega
  have hback := single.rankOfDecimal_shortestDecimal isProper_single r
  have hdist := single.dist_shortestDecimal r
  generalize single.shortestDecimal r = x at *
  -- closeness does not depend on how many zeros the decimal is written with
  have hclose (y : Decimal) (hy : double.rankOfDecimal y = k) :
      IsNear 53 (2 * y.numerator (2 ^ single.unitBits))
        ((2 * m + 1) * (2 ^ s * y.denominator)) := by
    rw [← Nat.mul_assoc, ← htwice]
    exact isNear_of_isMidway isProper_double (by decide) hy hmid
  have hplace := leastPlace_le_exponent hbinade hm hunits htwice hq hdist (hclose x hk)
  obtain ⟨count, hcount⟩ : ∃ count : ℕ, x.exponent - count = leastPlace s :=
    ⟨(x.exponent - leastPlace s).toNat, by omega⟩
  have hnumerator : 2 * (x.rescale count).numerator (2 ^ single.unitBits) =
      x.coefficient * 10 ^ count * decimalStep s := by
    rw [decimalStep, ← hcount, ← Nat.mul_assoc]
    exact two_mul_unit _
  have hdenominator : 2 ^ s * (x.rescale count).denominator = midpointStep s := by
    rw [midpointStep, ← hcount]
    rfl
  refine ⟨s, m, x.coefficient * 10 ^ count, hbinade, hrank, by omega, ?_, ?_⟩
  · have hnear := hclose _ ((rankOfDecimal_rescale isProper_double x count).trans hk)
    rwa [hnumerator, hdenominator] at hnear
  · intro heq
    rw [← hback, ← rankOfDecimal_rescale isProper_single x count]
    apply even_rankOfDecimal isProper_single (q := q)
    rw [hnumerator, heq, htwice, Nat.mul_assoc _ (2 ^ s), hdenominator]

theorem mem_suspects_of_isMidway {r q k : ℕ} (hr : r < single.bound) (hodd : r % 2 = 1)
    (hq : q = r ∨ q + 1 = r) (hk : double.rankOfDecimal (single.shortestDecimal r) = k)
    (hmid : single.IsMidway .double k q) : r ∈ suspects := by
  obtain ⟨s, m, c, hs, hrank, hm, hnear, hexact⟩ := exists_isNear_of_isMidway hr hq hk hmid
  obtain ⟨hpos, honly, hrest⟩ := isSettledBy_nearbyFraction s hs
  generalize (nearbyFraction s).1 = a at *
  generalize (nearbyFraction s).2 = b at *
  have heq : c * b = (2 * m + 1) * a := mul_eq_mul_of_isNear honly hm hnear
  rcases hrest with hfar | hratio | ⟨hcoprime, hsignificand⟩
  · exact absurd (isNear_of_mul_eq_mul hpos (Nat.succ_pos _) heq hnear) hfar
  · -- the decimal is the midpoint itself
    have hsame : c * decimalStep s = (2 * m + 1) * midpointStep s := by
      apply Nat.eq_of_mul_eq_mul_right hpos
      rw [Nat.mul_right_comm, heq, Nat.mul_assoc, hratio]
      ring
    have heven := hexact hsame
    omega
  · obtain ⟨t, ht⟩ : b ∣ 2 * m + 1 :=
      hcoprime.symm.dvd_of_dvd_mul_right (Dvd.intro_left c heq)
    have htpos : 0 < t := Nat.pos_of_ne_zero fun hzero => by simp [hzero] at ht
    have hle : b ≤ 2 * m + 1 := by
      rw [ht]
      exact Nat.le_mul_of_pos_right b htpos
    rcases hsignificand with heven | hlong | ⟨hmiddle, hsuspect⟩
    · have htwo : 2 ∣ 2 * m + 1 := (Nat.dvd_of_mod_eq_zero heven).trans ⟨t, ht⟩
      omega
    · omega
    · have hone : t = 1 := by
        by_contra hne
        have hdouble : b * 2 ≤ b * t := Nat.mul_le_mul_left b (by omega)
        omega
      rw [hone, Nat.mul_one] at ht
      have hhalf : b / 2 = m := by omega
      rw [hhalf, ← hrank] at hsuspect
      have hsuspects : ∀ rank ∈ suspects, rank % 2 = 1 := by decide
      have hqodd := hsuspects q hsuspect
      obtain rfl : q = r := by omega
      exact hsuspect

end Format
end PostfixCalc
