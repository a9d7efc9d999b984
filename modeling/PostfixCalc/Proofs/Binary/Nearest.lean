import Mathlib.Algebra.Group.Nat.Defs
import Mathlib.Data.Nat.Dist
import Mathlib.Order.Monotone.Basic
import Mathlib.Tactic.Ring
import PostfixCalc.Binary

/-!
# The nearest number

Past the least numbers the ranks come in binades of `2 ^ fractionBits` numbers each,
and within a binade the numbers are the multiples of one power of two.  Both binades
at a boundary describe the number there, so every number and its successor are
multiples of one power; it follows that numbers increase with their ranks.

The rank that rounding finds is described without the rounding: the value lies
between the midpoints to the two neighbouring numbers, and if it lies on one of them
the rank is even.  Only one rank is placed like this, so the description decides where
a value is rounded to, and rounding depends on the value alone, keeps the order and
does not move the numbers of the format.
-/

namespace PostfixCalc

namespace Format

/-- A format with a fraction and with more exponents than the two reserved ones. -/
structure IsProper (F : Format) : Prop where
  fraction : 0 < F.fractionBits
  exponent : 2 ≤ F.exponentBits

theorem isProper_single : single.IsProper := ⟨by decide, by decide⟩

theorem isProper_double : double.IsProper := ⟨by decide, by decide⟩

variable (F : Format)

/-- The numbers of a binade, from its first one to the first one of the next binade,
are multiples of one power of two. -/
theorem units_binade {s m : ℕ} (hs : s = 0 ∨ 2 ^ F.fractionBits ≤ m)
    (hm : m ≤ 2 * 2 ^ F.fractionBits) :
    F.units (s * 2 ^ F.fractionBits + m) = m * 2 ^ s := by
  have hpos : 0 < 2 ^ F.fractionBits := Nat.two_pow_pos _
  unfold units significand shift
  simp only [Nat.pow_eq]
  generalize 2 ^ F.fractionBits = P at *
  rcases Nat.lt_or_ge m P with hlt | hge
  · obtain rfl : s = 0 := by omega
    have hdiv : m / P = 0 := Nat.div_eq_of_lt hlt
    simp [hlt, hdiv]
  · have hrank : ¬ s * P + m < P := by omega
    rw [if_neg hrank]
    rcases Nat.lt_or_ge m (2 * P) with hinside | hlast
    · have hdiv : m / P = 1 := Nat.div_eq_of_lt_le (by omega) (by omega)
      have hmod : m % P = m - P := by rw [Nat.mod_eq_sub_mod hge, Nat.mod_eq_of_lt (by omega)]
      rw [Nat.mul_comm s P, Nat.mul_add_div hpos, Nat.mul_add_mod, hdiv, hmod,
        Nat.add_sub_cancel, Nat.add_sub_cancel' hge]
    · -- the first number of the next binade
      obtain rfl : m = P * 2 := by omega
      rw [Nat.mul_comm s P, ← Nat.mul_add, Nat.mul_div_cancel_left _ hpos, Nat.mul_mod_right]
      change (P + 0) * 2 ^ (s + 1) = P * 2 * 2 ^ s
      rw [Nat.add_zero, Nat.pow_succ, Nat.mul_assoc, Nat.mul_comm (2 ^ s) 2]

theorem exists_binade (r : ℕ) :
    ∃ s m, r = s * 2 ^ F.fractionBits + m ∧ (s = 0 ∨ 2 ^ F.fractionBits ≤ m) ∧
      m < 2 * 2 ^ F.fractionBits := by
  have hpos : 0 < 2 ^ F.fractionBits := Nat.two_pow_pos _
  generalize 2 ^ F.fractionBits = P at *
  rcases Nat.lt_or_ge r P with hlt | hge
  · exact ⟨0, r, by omega, Or.inl rfl, by omega⟩
  · have hmod : r % P < P := Nat.mod_lt r hpos
    have hquotient : 1 ≤ r / P := (Nat.one_le_div_iff hpos).mpr hge
    have hsplit : (r / P - 1) * P + P = r / P * P := by
      rw [← Nat.succ_mul]
      congr 1
      omega
    have hrank := Nat.div_add_mod' r P
    exact ⟨r / P - 1, P + r % P, by omega, Or.inr (by omega), by omega⟩

/-- A number and its successor are neighbouring multiples of one power of two. -/
theorem exists_units (r : ℕ) :
    ∃ s m, m < 2 * 2 ^ F.fractionBits ∧ F.units r = m * 2 ^ s ∧
      F.units (r + 1) = (m + 1) * 2 ^ s := by
  obtain ⟨s, m, rfl, hs, hm⟩ := F.exists_binade r
  refine ⟨s, m, hm, F.units_binade hs (by omega), ?_⟩
  rw [Nat.add_assoc]
  exact F.units_binade (by omega) (by omega)

theorem units_strictMono : StrictMono F.units := by
  apply strictMono_nat_of_lt_succ
  intro r
  obtain ⟨s, m, -, hr, hsucc⟩ := F.exists_units r
  rw [hr, hsucc]
  exact Nat.mul_lt_mul_of_pos_right (Nat.lt_succ_self m) (Nat.two_pow_pos s)

@[simp] theorem units_zero : F.units 0 = 0 := by
  have hunits : F.units (0 * 2 ^ F.fractionBits + 0) = 0 * 2 ^ 0 :=
    F.units_binade (Or.inl rfl) (Nat.zero_le _)
  simpa using hunits

theorem units_one : F.units 1 = 1 := by
  have hpos : 0 < 2 ^ F.fractionBits := Nat.two_pow_pos _
  have hunits : F.units (0 * 2 ^ F.fractionBits + 1) = 1 * 2 ^ 0 :=
    F.units_binade (Or.inl rfl) (by omega)
  simpa using hunits

theorem exists_rank {m : ℕ} (s : ℕ) (hm : m ≤ 2 * 2 ^ F.fractionBits) :
    ∃ r, F.units r = m * 2 ^ s := by
  induction s generalizing m with
  | zero => exact ⟨_, F.units_binade (Or.inl rfl) hm⟩
  | succ s ih =>
      by_cases hwide : 2 ^ F.fractionBits ≤ m
      · exact ⟨_, F.units_binade (Or.inr hwide) hm⟩
      · obtain ⟨r, hr⟩ := ih (m := 2 * m) (by omega)
        refine ⟨r, ?_⟩
        rw [hr, Nat.pow_succ, Nat.mul_comm 2 m, Nat.mul_assoc, Nat.mul_comm 2]

theorem units_bound (hF : F.IsProper) :
    F.units F.bound = 2 ^ F.fractionBits * 2 ^ (2 ^ F.exponentBits - 2) := by
  have hexponents : 2 ^ 2 ≤ 2 ^ F.exponentBits := Nat.pow_le_pow_right (by decide) hF.exponent
  have hbound : F.bound = (2 ^ F.exponentBits - 2) * 2 ^ F.fractionBits + 2 ^ F.fractionBits := by
    rw [← Nat.succ_mul]
    change (2 ^ F.exponentBits - 1) * 2 ^ F.fractionBits = _
    congr 1
    omega
  rw [hbound]
  exact F.units_binade (Or.inr (Nat.le_refl _)) (by omega)

end Format

theorem Binary.ofRank_of_lt {F : Format} (negative : Bool) {rank : ℕ} (h : rank < F.bound) :
    ofRank F negative rank = .finite negative ⟨rank, h⟩ := by
  rw [ofRank, dif_pos h]

theorem even_roundQuotient_of_tie {n d : ℕ} (hd : 0 < d)
    (htie : 2 * n = 2 * (roundQuotient n d * d) + d ∨ 2 * (roundQuotient n d * d) = 2 * n + d) :
    roundQuotient n d % 2 = 0 := by
  have hn := Nat.div_add_mod' n d
  have hr := Nat.mod_lt n hd
  have hs : (n / d + 1) * d = n / d * d + d := Nat.succ_mul _ _
  unfold roundQuotient at htie ⊢
  dsimp only at htie ⊢
  split at htie
  · omega
  · next hlow =>
    rw [if_neg hlow]
    split at htie
    · omega
    · next hhigh =>
      rw [if_neg hhigh]
      split
      · assumption
      · omega

theorem roundQuotient_eq_or (n d : ℕ) :
    roundQuotient n d = n / d ∨ roundQuotient n d = n / d + 1 := by
  unfold roundQuotient
  dsimp only
  split
  · exact Or.inl rfl
  · split
    · exact Or.inr rfl
    · split
      · exact Or.inl rfl
      · exact Or.inr rfl

namespace Format

variable (F : Format)

/-- Twice the midpoint, in units, between the number at a rank and the next one. -/
def twiceMidpoint (r : ℕ) : ℕ := F.units r + F.units (r + 1)

theorem twiceMidpoint_strictMono : StrictMono F.twiceMidpoint := by
  apply strictMono_nat_of_lt_succ
  intro r
  exact Nat.add_lt_add (F.units_strictMono (Nat.lt_succ_self r))
    (F.units_strictMono (Nat.lt_succ_self (r + 1)))

theorem twiceMidpoint_pos (r : ℕ) : 0 < F.twiceMidpoint r :=
  Nat.lt_of_le_of_lt (Nat.zero_le _) (Nat.lt_add_left _ (F.units_strictMono (Nat.succ_pos r)))

theorem twiceMidpoint_binade {s m : ℕ} (hs : s = 0 ∨ 2 ^ F.fractionBits ≤ m)
    (hm : m < 2 * 2 ^ F.fractionBits) :
    F.twiceMidpoint (s * 2 ^ F.fractionBits + m) = (2 * m + 1) * 2 ^ s := by
  have hnext : F.units (s * 2 ^ F.fractionBits + (m + 1)) = (m + 1) * 2 ^ s :=
    F.units_binade (by omega) (by omega)
  rw [twiceMidpoint, F.units_binade hs (by omega), Nat.add_assoc, hnext]
  ring

theorem lt_midpoint_after (r : ℕ) {d : ℕ} (hd : 0 < d) :
    2 * (F.units r * d) < F.twiceMidpoint r * d := by
  rw [← Nat.mul_assoc]
  apply Nat.mul_lt_mul_of_pos_right _ hd
  have hlt : F.units r < F.units (r + 1) := F.units_strictMono (Nat.lt_succ_self r)
  unfold twiceMidpoint
  omega

theorem midpoint_before_lt (q : ℕ) {d : ℕ} (hd : 0 < d) :
    F.twiceMidpoint q * d < 2 * (F.units (q + 1) * d) := by
  rw [← Nat.mul_assoc]
  apply Nat.mul_lt_mul_of_pos_right _ hd
  have hlt : F.units q < F.units (q + 1) := F.units_strictMono (Nat.lt_succ_self q)
  unfold twiceMidpoint
  omega

/-- The value `n / d` lies between the midpoints next to the number at a rank, and on
one of them only if the rank is even. -/
structure IsNearest (n d r : ℕ) : Prop where
  le_next : 2 * n ≤ F.twiceMidpoint r * d
  even_of_eq_next : 2 * n = F.twiceMidpoint r * d → r % 2 = 0
  previous_le : ∀ q, q + 1 = r → F.twiceMidpoint q * d ≤ 2 * n
  even_of_previous_eq : ∀ q, q + 1 = r → F.twiceMidpoint q * d = 2 * n → r % 2 = 0

variable {F} {n d : ℕ}

/-- Only one rank is nearest: between two of them the value would lie on a midpoint
with an odd rank beside it. -/
theorem IsNearest.unique (hd : 0 < d) {r r' : ℕ} (h : F.IsNearest n d r)
    (h' : F.IsNearest n d r') : r = r' := by
  have hnot {a b : ℕ} (ha : F.IsNearest n d a) (hb : F.IsNearest n d b) : ¬ a < b := by
    intro hlt
    obtain ⟨q, rfl⟩ : ∃ q, b = q + 1 := ⟨b - 1, by omega⟩
    have hmid : F.twiceMidpoint a * d ≤ F.twiceMidpoint q * d :=
      Nat.mul_le_mul_right d (F.twiceMidpoint_strictMono.monotone (by omega))
    have hle := ha.le_next
    have hge := hb.previous_le q rfl
    have heq : F.twiceMidpoint a = F.twiceMidpoint q :=
      Nat.eq_of_mul_eq_mul_right hd (by omega)
    have haq : a = q := F.twiceMidpoint_strictMono.injective heq
    have hevenLow := ha.even_of_eq_next (by omega)
    have hevenHigh := hb.even_of_previous_eq q rfl (by omega)
    omega
  have hlt := hnot h h'
  have hgt := hnot h' h
  omega

/-! ## What rounding finds -/

/-- The quotient without its low bits: it has no room to be longer than a fraction and
one bit, and it is shorter only if no bits are dropped. -/
theorem shortened_quotient (F : Format) (n d : ℕ) :
    n / (d * 2 ^ F.droppedBits n d) < 2 * 2 ^ F.fractionBits ∧
      (F.droppedBits n d = 0 ∨ 2 ^ F.fractionBits ≤ n / (d * 2 ^ F.droppedBits n d)) := by
  rw [← Nat.div_div_eq_div_mul]
  have hlength : (n / d).log2 ≤ F.fractionBits + F.droppedBits n d := by
    unfold droppedBits
    omega
  constructor
  · rw [Nat.div_lt_iff_lt_mul (Nat.two_pow_pos _)]
    calc n / d < 2 ^ ((n / d).log2 + 1) := Nat.lt_log2_self
      _ ≤ 2 ^ (F.fractionBits + F.droppedBits n d + 1) :=
        Nat.pow_le_pow_right (by decide) (by omega)
      _ = 2 * 2 ^ F.fractionBits * 2 ^ F.droppedBits n d := by
        rw [Nat.pow_succ, Nat.pow_add, Nat.mul_comm _ 2, Nat.mul_assoc]
  · rcases Nat.eq_zero_or_pos (F.droppedBits n d) with hzero | hpos
    · exact Or.inl hzero
    · refine Or.inr ?_
      have hlog : (n / d).log2 = F.fractionBits + F.droppedBits n d := by
        unfold droppedBits at hpos ⊢
        omega
      have hne : n / d ≠ 0 := by
        intro hzero
        rw [hzero, Nat.log2_zero] at hlog
        omega
      rw [Nat.le_div_iff_mul_le (Nat.two_pow_pos _), ← Nat.pow_add, ← hlog]
      exact Nat.log2_self_le hne

/-- The midpoint after a number of a binade, or after the first one of the next
binade, where it is farther away. -/
theorem midpoint_after (F : Format) {s m : ℕ} (hs : s = 0 ∨ 2 ^ F.fractionBits ≤ m)
    (hm : m ≤ 2 * 2 ^ F.fractionBits) (d : ℕ) :
    F.twiceMidpoint (s * 2 ^ F.fractionBits + m) * d = 2 * (m * (d * 2 ^ s)) + d * 2 ^ s ∨
      F.twiceMidpoint (s * 2 ^ F.fractionBits + m) * d =
        2 * (m * (d * 2 ^ s)) + 2 * (d * 2 ^ s) := by
  rcases Nat.lt_or_ge m (2 * 2 ^ F.fractionBits) with hinside | hlast
  · left
    rw [F.twiceMidpoint_binade hs hinside]
    ring
  · right
    obtain rfl : m = 2 * 2 ^ F.fractionBits := by omega
    have hpos : 0 < 2 ^ F.fractionBits := Nat.two_pow_pos _
    have hrank : s * 2 ^ F.fractionBits + 2 * 2 ^ F.fractionBits =
        (s + 1) * 2 ^ F.fractionBits + 2 ^ F.fractionBits := by ring
    rw [hrank, F.twiceMidpoint_binade (Or.inr (Nat.le_refl _)) (by omega)]
    ring

/-- The midpoint before a number of a binade, or before its first one, where it is
nearer. -/
theorem midpoint_before (F : Format) {s m q : ℕ} (hs : s = 0 ∨ 2 ^ F.fractionBits ≤ m)
    (hm : m ≤ 2 * 2 ^ F.fractionBits) (hq : q + 1 = s * 2 ^ F.fractionBits + m) (d : ℕ) :
    F.twiceMidpoint q * d + d * 2 ^ s = 2 * (m * (d * 2 ^ s)) ∨
      ∃ t, s = t + 1 ∧ m = 2 ^ F.fractionBits ∧
        F.twiceMidpoint q * d + d * 2 ^ t = 2 * (m * (d * 2 ^ s)) := by
  have hpos : 0 < 2 ^ F.fractionBits := Nat.two_pow_pos _
  by_cases hfirst : s ≠ 0 ∧ m = 2 ^ F.fractionBits
  · obtain ⟨hs, rfl⟩ := hfirst
    obtain ⟨t, rfl⟩ : ∃ t, s = t + 1 := ⟨s - 1, by omega⟩
    refine Or.inr ⟨t, rfl, rfl, ?_⟩
    obtain ⟨k, hk⟩ : ∃ k, 2 * 2 ^ F.fractionBits = k + 1 :=
      ⟨2 * 2 ^ F.fractionBits - 1, by omega⟩
    have hrank : q = t * 2 ^ F.fractionBits + k := by
      rw [Nat.succ_mul] at hq
      omega
    rw [hrank, F.twiceMidpoint_binade (Or.inr (by omega)) (by omega)]
    calc (2 * k + 1) * 2 ^ t * d + d * 2 ^ t = 2 * (k + 1) * (d * 2 ^ t) := by ring
      _ = 2 * (2 ^ F.fractionBits * (d * 2 ^ (t + 1))) := by
        rw [← hk]
        ring
  · left
    obtain ⟨k, rfl⟩ : ∃ k, m = k + 1 := by
      refine ⟨m - 1, ?_⟩
      rcases hs with rfl | hs
      · omega
      · omega
    have hrank : q = s * 2 ^ F.fractionBits + k := by omega
    rw [hrank, F.twiceMidpoint_binade (by omega) (by omega)]
    ring

/-- A value within half a step of a number of a binade is nearest to it, if a value on a
midpoint goes to an even multiple and the value is not below the binade. -/
theorem isNearest_of_bounds (hF : F.IsProper) (hd : 0 < d) {s m : ℕ}
    (hs : s = 0 ∨ 2 ^ F.fractionBits ≤ m) (hm : m ≤ 2 * 2 ^ F.fractionBits)
    (hbounds : 2 * n ≤ 2 * (m * (d * 2 ^ s)) + d * 2 ^ s ∧
      2 * (m * (d * 2 ^ s)) ≤ 2 * n + d * 2 ^ s)
    (htie : 2 * n = 2 * (m * (d * 2 ^ s)) + d * 2 ^ s ∨
      2 * (m * (d * 2 ^ s)) = 2 * n + d * 2 ^ s → m % 2 = 0)
    (hfirst : s ≠ 0 → 2 ^ F.fractionBits * (d * 2 ^ s) ≤ n) :
    F.IsNearest n d (s * 2 ^ F.fractionBits + m) := by
  have heven : 2 ^ F.fractionBits % 2 = 0 := by
    have hfraction := hF.fraction
    obtain ⟨p, hp⟩ : ∃ p, F.fractionBits = p + 1 := ⟨F.fractionBits - 1, by omega⟩
    rw [hp, Nat.pow_succ, Nat.mul_mod_left]
  have hparity : m % 2 = 0 → (s * 2 ^ F.fractionBits + m) % 2 = 0 := by
    intro hm
    rw [Nat.add_mod, Nat.mul_mod, heven, hm, Nat.mul_zero]
  have hafter := F.midpoint_after hs hm d
  have hbefore : ∀ q, q + 1 = s * 2 ^ F.fractionBits + m →
      F.twiceMidpoint q * d + d * 2 ^ s = 2 * (m * (d * 2 ^ s)) ∨
        F.twiceMidpoint q * d < 2 * n := by
    intro q hq
    rcases F.midpoint_before hs hm hq d with hnear | ⟨t, rfl, rfl, hnear⟩
    · exact Or.inl hnear
    · have hbinade := hfirst (Nat.succ_ne_zero t)
      have hpos : 0 < d * 2 ^ t := Nat.mul_pos hd (Nat.two_pow_pos t)
      omega
  constructor
  · omega
  · intro heq
    apply hparity
    apply htie
    omega
  · intro q hq
    have hq := hbefore q hq
    omega
  · intro q hq heq
    have hq := hbefore q hq
    apply hparity
    apply htie
    omega

theorem isNearest_nearestRank (hF : F.IsProper) (n : ℕ) (hd : 0 < d) :
    F.IsNearest n d (F.nearestRank n d) := by
  obtain ⟨hshort, hlong⟩ := shortened_quotient F n d
  have hscale : 0 < d * 2 ^ F.droppedBits n d := Nat.mul_pos hd (Nat.two_pow_pos _)
  have hquotient := roundQuotient_eq_or n (d * 2 ^ F.droppedBits n d)
  change F.IsNearest n d (F.droppedBits n d * 2 ^ F.fractionBits +
    roundQuotient n (d * 2 ^ F.droppedBits n d))
  apply isNearest_of_bounds hF hd
  · omega
  · omega
  · exact two_mul_roundQuotient_bounds n _ hscale
  · exact even_roundQuotient_of_tie hscale
  · intro hdropped
    rw [← Nat.le_div_iff_mul_le hscale]
    omega

theorem nearestRank_eq_iff (hF : F.IsProper) (hd : 0 < d) {r : ℕ} :
    F.nearestRank n d = r ↔ F.IsNearest n d r := by
  constructor
  · rintro rfl
    exact isNearest_nearestRank hF n hd
  · intro h
    exact (isNearest_nearestRank hF n hd).unique hd h

/-! ## Rounding as a function of the value -/

theorem nearestRank_congr (hF : F.IsProper) {n' d' : ℕ} (hd : 0 < d) (hd' : 0 < d')
    (h : n * d' = n' * d) : F.nearestRank n d = F.nearestRank n' d' := by
  symm
  rw [nearestRank_eq_iff hF hd']
  have hnearest := isNearest_nearestRank hF n hd
  generalize F.nearestRank n d = r at *
  -- both sides of every comparison are multiplied by the other denominator
  have hvalue : 2 * n' * d = 2 * n * d' := by
    rw [Nat.mul_assoc, ← h, Nat.mul_assoc]
  have hscale (k : ℕ) : k * d' * d = k * d * d' := Nat.mul_right_comm k d' d
  constructor
  · apply Nat.le_of_mul_le_mul_right _ hd
    rw [hvalue, hscale]
    exact Nat.mul_le_mul_right d' hnearest.le_next
  · intro heq
    apply hnearest.even_of_eq_next
    apply Nat.eq_of_mul_eq_mul_right hd'
    rw [← hvalue, ← hscale, heq]
  · intro q hq
    apply Nat.le_of_mul_le_mul_right _ hd
    rw [hvalue, hscale]
    exact Nat.mul_le_mul_right d' (hnearest.previous_le q hq)
  · intro q hq heq
    apply hnearest.even_of_previous_eq q hq
    apply Nat.eq_of_mul_eq_mul_right hd'
    rw [← hvalue, ← hscale, heq]

theorem nearestRank_units (hF : F.IsProper) (hd : 0 < d) (r : ℕ) :
    F.nearestRank (F.units r * d) d = r := by
  rw [nearestRank_eq_iff hF hd]
  have hnext := F.lt_midpoint_after r hd
  have hprevious : ∀ q, q + 1 = r → F.twiceMidpoint q * d < 2 * (F.units r * d) := by
    rintro q rfl
    exact F.midpoint_before_lt q hd
  constructor
  · omega
  · omega
  · intro q hq
    exact Nat.le_of_lt (hprevious q hq)
  · intro q hq heq
    exact absurd heq (Nat.ne_of_lt (hprevious q hq))

theorem le_nearestRank (hF : F.IsProper) (hd : 0 < d) {r : ℕ} (h : F.units r * d ≤ n) :
    r ≤ F.nearestRank n d := by
  by_contra hlt
  have hnext := (isNearest_nearestRank hF n hd).le_next
  have hmid := F.midpoint_before_lt (F.nearestRank n d) hd
  have hunits : F.units (F.nearestRank n d + 1) * d ≤ F.units r * d :=
    Nat.mul_le_mul_right d (F.units_strictMono.monotone (by omega))
  omega

theorem nearestRank_le (hF : F.IsProper) (hd : 0 < d) {r : ℕ} (h : n ≤ F.units r * d) :
    F.nearestRank n d ≤ r := by
  by_contra hlt
  obtain ⟨q, hq⟩ : ∃ q, q + 1 = F.nearestRank n d := ⟨F.nearestRank n d - 1, by omega⟩
  have hprevious := (isNearest_nearestRank hF n hd).previous_le q hq
  have hmid := F.lt_midpoint_after q hd
  have hunits : F.units r * d ≤ F.units q * d :=
    Nat.mul_le_mul_right d (F.units_strictMono.monotone (by omega))
  omega

end Format

/-! ## How far rounding moves a value -/

/-- The first number differs from the second one by at most its `2 ^ bits`th part. -/
def IsNear (bits n t : ℕ) : Prop :=
  Nat.dist n t * 2 ^ bits ≤ t

instance (bits n t : ℕ) : Decidable (IsNear bits n t) :=
  inferInstanceAs (Decidable (_ ≤ _))

theorem isNear_mul_right {bits n t k : ℕ} (hk : 0 < k) :
    IsNear bits (n * k) (t * k) ↔ IsNear bits n t := by
  unfold IsNear
  rw [Nat.dist_mul_right, Nat.mul_right_comm]
  exact Nat.mul_le_mul_right_iff hk

/-- Rounding to a number with a full significand moves a value by at most half a unit
in the last place. -/
theorem Format.isNear_nearestRank {F : Format} (hF : F.IsProper) {n d : ℕ} (hd : 0 < d)
    (hfull : 2 ^ F.fractionBits ≤ F.units (F.nearestRank n d)) :
    IsNear (F.fractionBits + 1) n (F.units (F.nearestRank n d) * d) := by
  have hnearest := isNearest_nearestRank hF n hd
  generalize F.nearestRank n d = r at *
  have hfraction : 0 < 2 ^ F.fractionBits := Nat.two_pow_pos _
  obtain ⟨s, m, rfl, hs, hm⟩ := F.exists_binade r
  have hunits := F.units_binade hs (Nat.le_of_lt hm)
  have hlong : 2 ^ F.fractionBits ≤ m := by
    rcases hs with rfl | hlong
    · rwa [hunits, Nat.pow_zero, Nat.mul_one] at hfull
    · exact hlong
  have hafter : 2 * n ≤ 2 * (m * (d * 2 ^ s)) + d * 2 ^ s := by
    calc 2 * n ≤ F.twiceMidpoint (s * 2 ^ F.fractionBits + m) * d := hnearest.le_next
      _ = 2 * (m * (d * 2 ^ s)) + d * 2 ^ s := by
        rw [F.twiceMidpoint_binade hs hm]
        ring
  have hbefore : 2 * (m * (d * 2 ^ s)) ≤ 2 * n + d * 2 ^ s := by
    obtain ⟨q, hq⟩ : ∃ q, q + 1 = s * 2 ^ F.fractionBits + m :=
      ⟨s * 2 ^ F.fractionBits + m - 1, by omega⟩
    have hprevious := hnearest.previous_le q hq
    rcases F.midpoint_before hs (Nat.le_of_lt hm) hq d with hnear | ⟨t, rfl, -, hnear⟩
    · omega
    · have hhalf : d * 2 ^ t ≤ d * 2 ^ (t + 1) :=
        Nat.mul_le_mul_left d (Nat.pow_le_pow_right (by decide) (Nat.le_succ t))
      omega
  have hdist : Nat.dist n (m * (d * 2 ^ s)) * 2 ≤ d * 2 ^ s := by
    unfold Nat.dist
    omega
  have hvalue : F.units (s * 2 ^ F.fractionBits + m) * d = m * (d * 2 ^ s) := by
    rw [hunits]
    ring
  unfold IsNear
  rw [hvalue]
  calc Nat.dist n (m * (d * 2 ^ s)) * 2 ^ (F.fractionBits + 1) =
        Nat.dist n (m * (d * 2 ^ s)) * 2 * 2 ^ F.fractionBits := by
        rw [Nat.pow_succ, Nat.mul_comm _ 2, Nat.mul_assoc]
    _ ≤ d * 2 ^ s * m := Nat.mul_le_mul hdist hlong
    _ = m * (d * 2 ^ s) := Nat.mul_comm _ _

end PostfixCalc
