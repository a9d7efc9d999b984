import PostfixCalc.Binary.Arithmetic
import PostfixCalc.Proofs.Binary.Nearest

/-!
# Rounding twice, and widening

A value that is rounded to a finer format first and then to a coarser one may end up
one number away from where rounding it at once leads.  The midpoints of the coarser
format are numbers of the finer one, so the first rounding does not carry the value
across a midpoint, but it can move the value onto one.  There the second rounding goes
to the even neighbour, and this is the only way in which the two differ.

Every number of a format is a number of a finer one, so it is not moved when it is
converted to the finer format, and converting it back returns it.
-/

namespace PostfixCalc

namespace Format

/-- A format that holds the midpoints of another one, and more. -/
structure Refines (G F : Format) : Prop where
  fraction : F.fractionBits < G.fractionBits
  unit : F.unitBits < G.unitBits
  range : F.units F.bound * 2 ^ G.unitBits < G.units G.bound * 2 ^ F.unitBits

theorem refines_double_single : double.Refines single := by
  refine ⟨by decide, by decide, ?_⟩
  rw [single.units_bound isProper_single, double.units_bound isProper_double]
  simp only [← Nat.pow_add]
  exact Nat.pow_lt_pow_right (by decide) (by decide)

/-- The number of `G` at a rank lies midway between the number of `F` at a rank and the
next one. -/
def IsMidway (F G : Format) (d q : ℕ) : Prop :=
  2 * (G.units d * 2 ^ F.unitBits) = F.twiceMidpoint q * 2 ^ G.unitBits

variable {F G : Format}

theorem exists_isMidway (hG : G.Refines F) (q : ℕ) : ∃ d, F.IsMidway G d q := by
  obtain ⟨s, m, hm, hunits, hnext⟩ := F.exists_units q
  obtain ⟨k, hk⟩ : ∃ k, G.unitBits = F.unitBits + (k + 1) :=
    ⟨G.unitBits - F.unitBits - 1, by have := hG.unit; omega⟩
  have hwide : 2 * 2 ^ F.fractionBits ≤ 2 ^ G.fractionBits := by
    rw [Nat.mul_comm, ← Nat.pow_succ]
    exact Nat.pow_le_pow_right (by decide) hG.fraction
  obtain ⟨d, hd⟩ := G.exists_rank (m := 2 * m + 1) (s + k) (by omega)
  refine ⟨d, ?_⟩
  unfold IsMidway twiceMidpoint
  rw [hd, hunits, hnext, hk]
  ring

section

variable {n d : ℕ}

/-- The first rounding does not carry the value below a midpoint. -/
theorem midpoint_le_nearestRank (hproper : G.IsProper) (hG : G.Refines F) (hd : 0 < d) {q : ℕ}
    (h : F.twiceMidpoint q * d ≤ 2 * (n * 2 ^ F.unitBits)) :
    F.twiceMidpoint q * 2 ^ G.unitBits ≤
      2 * (G.units (G.nearestRank (n * 2 ^ G.unitBits) d) * 2 ^ F.unitBits) := by
  obtain ⟨l, hl⟩ := exists_isMidway hG q
  have hle : G.units l * d ≤ n * 2 ^ G.unitBits := by
    apply Nat.le_of_mul_le_mul_right _ (Nat.two_pow_pos (F.unitBits + 1))
    calc G.units l * d * 2 ^ (F.unitBits + 1) = 2 * (G.units l * 2 ^ F.unitBits) * d := by ring
      _ = F.twiceMidpoint q * d * 2 ^ G.unitBits := by
        rw [hl]
        ring
      _ ≤ 2 * (n * 2 ^ F.unitBits) * 2 ^ G.unitBits := Nat.mul_le_mul_right _ h
      _ = n * 2 ^ G.unitBits * 2 ^ (F.unitBits + 1) := by ring
  have hrank := G.units_strictMono.monotone (le_nearestRank hproper hd hle)
  rw [← hl]
  exact Nat.mul_le_mul_left 2 (Nat.mul_le_mul_right _ hrank)

theorem nearestRank_le_midpoint (hproper : G.IsProper) (hG : G.Refines F) (hd : 0 < d) {q : ℕ}
    (h : 2 * (n * 2 ^ F.unitBits) ≤ F.twiceMidpoint q * d) :
    2 * (G.units (G.nearestRank (n * 2 ^ G.unitBits) d) * 2 ^ F.unitBits) ≤
      F.twiceMidpoint q * 2 ^ G.unitBits := by
  obtain ⟨l, hl⟩ := exists_isMidway hG q
  have hle : n * 2 ^ G.unitBits ≤ G.units l * d := by
    apply Nat.le_of_mul_le_mul_right _ (Nat.two_pow_pos (F.unitBits + 1))
    calc n * 2 ^ G.unitBits * 2 ^ (F.unitBits + 1) =
          2 * (n * 2 ^ F.unitBits) * 2 ^ G.unitBits := by ring
      _ ≤ F.twiceMidpoint q * d * 2 ^ G.unitBits := Nat.mul_le_mul_right _ h
      _ = 2 * (G.units l * 2 ^ F.unitBits) * d := by
        rw [hl]
        ring
      _ = G.units l * d * 2 ^ (F.unitBits + 1) := by ring
  have hrank := G.units_strictMono.monotone (nearestRank_le hproper hd hle)
  rw [← hl]
  exact Nat.mul_le_mul_left 2 (Nat.mul_le_mul_right _ hrank)

/-- The first rounding of a value that has a finite place in the coarser format is
finite, and it is not zero unless that place is the one of zero. -/
theorem nearestRank_lt_bound (hproper : G.IsProper) (hF : F.IsProper) (hG : G.Refines F)
    (hd : 0 < d) (h : F.nearestRank (n * 2 ^ F.unitBits) d < F.bound) :
    G.nearestRank (n * 2 ^ G.unitBits) d < G.bound := by
  have hnearest := isNearest_nearestRank hF (n * 2 ^ F.unitBits) hd
  have hupper := nearestRank_le_midpoint hproper hG hd hnearest.le_next
  have hmid : F.twiceMidpoint (F.nearestRank (n * 2 ^ F.unitBits) d) ≤ 2 * F.units F.bound := by
    have hlow := F.units_strictMono h
    have hhigh := F.units_strictMono.monotone (Nat.succ_le_of_lt h)
    exact (Nat.add_le_add (Nat.le_of_lt hlow) hhigh).trans_eq (Nat.two_mul _).symm
  have hscaled := Nat.mul_le_mul_right (2 ^ G.unitBits) hmid
  have hrange := hG.range
  rw [Nat.mul_assoc] at hscaled
  apply G.units_strictMono.lt_iff_lt.mp
  apply Nat.lt_of_mul_lt_mul_right (a := 2 ^ F.unitBits)
  omega

theorem nearestRank_pos (hproper : G.IsProper) (hF : F.IsProper) (hG : G.Refines F)
    (hd : 0 < d) (h : 0 < F.nearestRank (n * 2 ^ F.unitBits) d) :
    0 < G.nearestRank (n * 2 ^ G.unitBits) d := by
  have hnearest := isNearest_nearestRank hF (n * 2 ^ F.unitBits) hd
  have hlower := midpoint_le_nearestRank hproper hG hd (hnearest.previous_le
    (F.nearestRank (n * 2 ^ F.unitBits) d - 1) (by omega))
  have hscaled := Nat.mul_pos (F.twiceMidpoint_pos (F.nearestRank (n * 2 ^ F.unitBits) d - 1))
    (Nat.two_pow_pos G.unitBits)
  rw [Nat.pos_iff_ne_zero]
  intro hzero
  rw [hzero, units_zero, Nat.zero_mul] at hlower
  omega

end

/-- Rounding twice comes to the same as rounding once, unless the first rounding leads
to a midpoint beside an odd rank. -/
theorem nearestRank_twice (hproper : G.IsProper) (hF : F.IsProper) (hG : G.Refines F) {n d r k : ℕ}
    (hd : 0 < d) (hr : F.nearestRank (n * 2 ^ F.unitBits) d = r)
    (hk : G.nearestRank (n * 2 ^ G.unitBits) d = k)
    (h : r % 2 = 1 → ∀ q, q = r ∨ q + 1 = r → ¬ F.IsMidway G k q) :
    F.nearestRank (G.units k * 2 ^ F.unitBits) (2 ^ G.unitBits) = r := by
  have hnearest := (nearestRank_eq_iff hF hd).mp hr
  have heven {q : ℕ} (hq : q = r ∨ q + 1 = r) (hmid : F.IsMidway G k q) : r % 2 = 0 := by
    by_contra hodd
    exact h (by omega) q hq hmid
  rw [nearestRank_eq_iff hF (Nat.two_pow_pos _)]
  constructor
  · rw [← hk]
    exact nearestRank_le_midpoint hproper hG hd hnearest.le_next
  · intro hmid
    exact heven (Or.inl rfl) hmid
  · intro q hq
    rw [← hk]
    exact midpoint_le_nearestRank hproper hG hd (hnearest.previous_le q hq)
  · intro q hq hmid
    exact heven (Or.inr hq) hmid.symm

theorem isNear_midpoint (hproper : G.IsProper)
    (hdeep : F.unitBits + 1 + G.fractionBits ≤ G.unitBits) {n d k q : ℕ} (hd : 0 < d)
    (hk : G.nearestRank (n * 2 ^ G.unitBits) d = k) (hmid : F.IsMidway G k q) :
    IsNear (G.fractionBits + 1) (2 * (n * 2 ^ F.unitBits)) (F.twiceMidpoint q * d) := by
  have hfull : 2 ^ G.fractionBits ≤ G.units (G.nearestRank (n * 2 ^ G.unitBits) d) := by
    rw [hk]
    apply Nat.le_of_mul_le_mul_right _ (Nat.two_pow_pos (F.unitBits + 1))
    calc 2 ^ G.fractionBits * 2 ^ (F.unitBits + 1) ≤ 2 ^ G.unitBits := by
          rw [← Nat.pow_add]
          exact Nat.pow_le_pow_right (by decide) (by omega)
      _ ≤ F.twiceMidpoint q * 2 ^ G.unitBits := Nat.le_mul_of_pos_left _ (F.twiceMidpoint_pos q)
      _ = G.units k * 2 ^ (F.unitBits + 1) := by
        rw [← hmid]
        ring
  have hnear := isNear_nearestRank hproper hd hfull
  rw [hk] at hnear
  rw [← isNear_mul_right (Nat.two_pow_pos G.unitBits)]
  rw [← isNear_mul_right (Nat.two_pow_pos (F.unitBits + 1))] at hnear
  have hleft : n * 2 ^ G.unitBits * 2 ^ (F.unitBits + 1) =
      2 * (n * 2 ^ F.unitBits) * 2 ^ G.unitBits := by ring
  have hright : G.units k * d * 2 ^ (F.unitBits + 1) =
      F.twiceMidpoint q * d * 2 ^ G.unitBits := by
    rw [Nat.mul_right_comm (F.twiceMidpoint q), ← hmid]
    ring
  rwa [hleft, hright] at hnear

theorem nearestRank_midpoint (hF : F.IsProper) {n d q : ℕ} (hd : 0 < d)
    (h : 2 * n = F.twiceMidpoint q * d) : F.nearestRank n d = q + q % 2 := by
  have hmono {a b : ℕ} (hab : a < b) : F.twiceMidpoint a * d < F.twiceMidpoint b * d :=
    Nat.mul_lt_mul_of_pos_right (F.twiceMidpoint_strictMono hab) hd
  rw [nearestRank_eq_iff hF hd]
  by_cases heven : q % 2 = 0
  · rw [heven, Nat.add_zero]
    constructor
    · omega
    · intro _
      exact heven
    · intro p hp
      have hlt := hmono (a := p) (b := q) (by omega)
      omega
    · intro _ _ _
      exact heven
  · have hodd : q % 2 = 1 := by omega
    rw [hodd]
    have hlt := hmono (Nat.lt_succ_self q)
    constructor
    · exact Nat.le_of_lt (by rw [h]; exact hlt)
    · intro _
      omega
    · intro p hp
      obtain rfl : p = q := by omega
      omega
    · intro _ _ _
      omega

end Format

/-! ## Widening -/

namespace Format

variable {F G : Format}

theorem exists_eq_units (hrefines : G.Refines F) (r : ℕ) :
    ∃ k, G.units k * 2 ^ F.unitBits = F.units r * 2 ^ G.unitBits := by
  obtain ⟨s, m, hm, hunits, -⟩ := F.exists_units r
  obtain ⟨j, hj⟩ : ∃ j, G.unitBits = F.unitBits + j :=
    ⟨G.unitBits - F.unitBits, by have := hrefines.unit; omega⟩
  have hwide : 2 ^ F.fractionBits ≤ 2 ^ G.fractionBits :=
    Nat.pow_le_pow_right (by decide) (Nat.le_of_lt hrefines.fraction)
  obtain ⟨k, hk⟩ := G.exists_rank (m := m) (s + j) (by omega)
  refine ⟨k, ?_⟩
  rw [hk, hunits, hj]
  ring

theorem exists_widened (hG : G.IsProper) (hF : F.IsProper) (hrefines : G.Refines F)
    (r : Fin F.bound) :
    ∃ k : Fin G.bound, G.units k * 2 ^ F.unitBits = F.units r * 2 ^ G.unitBits ∧
      G.nearestRank (F.units r * 2 ^ G.unitBits) (2 ^ F.unitBits) = k := by
  obtain ⟨k, hk⟩ := exists_eq_units hrefines r
  have hrank : G.nearestRank (F.units r * 2 ^ G.unitBits) (2 ^ F.unitBits) = k := by
    rw [← hk]
    exact nearestRank_units hG (Nat.two_pow_pos _) k
  have hsame : F.nearestRank (F.units r * 2 ^ F.unitBits) (2 ^ F.unitBits) = r :=
    nearestRank_units hF (Nat.two_pow_pos _) r
  have hbound := nearestRank_lt_bound hG hF hrefines (n := F.units r) (Nat.two_pow_pos F.unitBits)
    (by rw [hsame]; exact r.isLt)
  rw [hrank] at hbound
  exact ⟨⟨k, hbound⟩, hk, hrank⟩

end Format

namespace Binary

variable {F G : Format}

theorem convert_finite (negative : Bool) (rank : Fin G.bound) :
    (finite negative rank : Binary G).convert F =
      ofRank F negative (F.nearestRank (G.units rank * 2 ^ F.unitBits) (2 ^ G.unitBits)) :=
  rfl

theorem convert_convert (hG : G.IsProper) (hF : F.IsProper) (hrefines : G.Refines F)
    (x : Binary F) : (x.convert G).convert F = x := by
  cases x with
  | nan => rfl
  | infinite negative => rfl
  | finite negative r =>
      obtain ⟨k, hk, hrank⟩ := Format.exists_widened hG hF hrefines r
      rw [convert_finite, hrank, ofRank_of_lt negative k.isLt, convert_finite, hk,
        Format.nearestRank_units hF (Nat.two_pow_pos _), ofRank_of_lt negative r.isLt]

end Binary

end PostfixCalc
