import PostfixCalc.Proofs.Binary.Twice
import PostfixCalc.Proofs.Decimal.Midpoint
import PostfixCalc.Proofs.Token.Written

/-!
# Reading written singles

The text of a single identifies it among the singles, but with the suffix behind it the
text is read as a double first and then rounded again.  The single comes back unless
this double lies midway between two singles and the single is the odd one of them.  This
happens to one single of each sign, and its even neighbour is read for it.
-/

namespace PostfixCalc

namespace Binary

variable {F G : Format}

theorem exists_ofDecimal_finer (hG : G.IsProper) (hF : F.IsProper) (hrefines : G.Refines F)
    (negative : Bool) {x : Decimal} (hbound : F.rankOfDecimal x < F.bound)
    (hzero : F.rankOfDecimal x = 0 → x.coefficient = 0) :
    ∃ k : Fin G.bound, G.rankOfDecimal x = k ∧ ofDecimal G negative x = .finite negative k := by
  have hfiner : G.rankOfDecimal x < G.bound :=
    Format.nearestRank_lt_bound hG hF hrefines x.denominator_pos hbound
  refine ⟨⟨G.rankOfDecimal x, hfiner⟩, rfl, ?_⟩
  apply ofDecimal_of_rank hG negative hfiner
  intro hfinerZero
  apply hzero
  by_contra hne
  have hpos : 0 < G.rankOfDecimal x :=
    Format.nearestRank_pos hG hF hrefines x.denominator_pos (Nat.pos_of_ne_zero hne)
  omega

theorem convert_of_not_isMidway (hG : G.IsProper) (hF : F.IsProper) (hrefines : G.Refines F)
    (negative : Bool) {x : Decimal} {r : Fin F.bound} {k : Fin G.bound}
    (hr : F.rankOfDecimal x = r) (hk : G.rankOfDecimal x = k)
    (h : r.val % 2 = 1 → ∀ q, q = r.val ∨ q + 1 = r.val → ¬ F.IsMidway G k q) :
    (finite negative k : Binary G).convert F = .finite negative r := by
  rw [convert_finite, Format.nearestRank_twice hG hF hrefines x.denominator_pos hr hk h,
    ofRank_of_lt negative r.isLt]

end Binary

open Grammar

/-- The text of a finite single with the suffix behind it is read as the double nearest
to its shortest decimal, and this double becomes a single. -/
theorem literal?_text_suffix_of_double (negative : Bool) {r : Fin Format.single.bound}
    (hr : r.val ≠ 0) :
    ∃ k : Fin Format.double.bound,
      Format.double.rankOfDecimal (Format.single.shortestDecimal r) = k ∧
        literal? ((Value.f32 (.finite negative r)).text ++ "f") =
          some (.f32 ((Binary.finite negative k : Double).convert .single)) := by
  obtain ⟨whole, fraction, exponent?, hreal, hrank, hzero, hsame⟩ := exists_real_magnitudeChars
    Format.isProper_single Layout.single r (sign_signChars negative)
  obtain ⟨k, hk, hdouble⟩ := Binary.exists_ofDecimal_finer Format.isProper_double
    Format.isProper_single Format.refines_double_single negative (hrank.trans_lt r.isLt)
    (by rwa [hrank])
  have hread := literalChars?_of_real_suffix hreal
  rw [hdouble] at hread
  refine ⟨k, (hsame hr _ Format.isProper_double).symm.trans hk, ?_⟩
  unfold literal? Value.text
  rw [String.toList_append, String.toList_ofList]
  exact hread

theorem literal?_text_suffix_of_suspect :
    ∀ rank ∈ 0 :: Format.suspects, ∀ negative,
      literal? ((Value.f32 (.ofRank .single negative rank)).text ++ "f") =
        some (.f32 (.ofRank .single negative
          (if rank = 0x15AE43FD then 0x15AE43FE else rank))) := by
  decide +kernel

/-- The text of a finite single with the suffix behind it is read as this single, with
one exception: at rank `0x15AE43FD` the next single is read. -/
theorem literal?_text_suffix (negative : Bool) (r : Fin Format.single.bound) :
    literal? ((Value.f32 (.finite negative r)).text ++ "f") =
      some (.f32 (.ofRank .single negative
        (if r.val = 0x15AE43FD then 0x15AE43FE else r.val))) := by
  by_cases hsuspect : r.val ∈ 0 :: Format.suspects
  · have hread := literal?_text_suffix_of_suspect r hsuspect negative
    rwa [Binary.ofRank_of_lt negative r.isLt] at hread
  · rw [List.mem_cons, not_or] at hsuspect
    obtain ⟨hzero, hsuspect⟩ := hsuspect
    have hexception : r.val ≠ 0x15AE43FD := by
      intro heq
      exact hsuspect (heq ▸ List.mem_cons_self)
    obtain ⟨k, hk, hread⟩ := literal?_text_suffix_of_double negative hzero
    have hr := Format.rankOfDecimal_shortestDecimal Format.isProper_single r
    rw [hread, if_neg hexception, Binary.ofRank_of_lt negative r.isLt,
      Binary.convert_of_not_isMidway Format.isProper_double Format.isProper_single
        Format.refines_double_single negative hr hk]
    intro hodd q hq hmid
    exact hsuspect (Format.mem_suspects_of_isMidway r.isLt hodd hq hk hmid)

/-- The text of this single spells a double midway between it and the next single,
which has the even rank and is read. -/
theorem literal?_text_suffix_of_midpoint :
    (Value.f32 (Binary.ofBits .single 0x15AE43FD)).text = "7.038531e-26" ∧
      literal? "7.038531e-26f" = some (.f32 (Binary.ofBits .single 0x15AE43FE)) ∧
      ¬ ∀ (negative : Bool) (r : Fin Format.single.bound),
        literal? ((Value.f32 (.finite negative r)).text ++ "f") =
          some (.f32 (.finite negative r)) := by
  have htext : (Value.f32 (Binary.ofBits .single 0x15AE43FD)).text = "7.038531e-26" := by
    decide +kernel
  have hread : literal? "7.038531e-26f" = some (.f32 (Binary.ofBits .single 0x15AE43FE)) := by
    decide +kernel
  have hsingle : Binary.ofBits .single 0x15AE43FD = .finite false ⟨0x15AE43FD, by decide⟩ := by
    decide +kernel
  have hne : (Binary.ofBits .single 0x15AE43FD : Single) ≠ .ofBits .single 0x15AE43FE := by
    decide +kernel
  refine ⟨htext, hread, ?_⟩
  intro hback
  have hsame := hback false ⟨0x15AE43FD, by decide⟩
  rw [← hsingle, htext] at hsame
  have hfound := hread.symm.trans hsame
  exact hne.symm (Value.f32.inj (Option.some.inj hfound))

end PostfixCalc
