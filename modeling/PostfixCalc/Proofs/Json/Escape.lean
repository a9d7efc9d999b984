import Mathlib.Data.List.Chain
import Mathlib.Tactic.SplitIfs
import PostfixCalc.Json.Reader
import PostfixCalc.Json

/-!
# Texts that are written are read back

Each character of a text is written as itself, as a short escape, as one code unit or
as a pair of surrogates, and a surrogate as one code unit.  In every case the reader takes
exactly what was written for the code point.  A pair of surrogates is joined to the
character for which it stands, so a text is read back if it does not itself hold such a
pair, and the reader never makes one that does.  Only printable ASCII characters are
written.
-/

namespace PostfixCalc

theorem Char.toNat_lt (c : Char) : c.toNat < 0x110000 := by
  rcases c.valid with hlow | ⟨-, hhigh⟩
  · exact Nat.lt_trans hlow (by decide)
  · exact hhigh

namespace CodePoint

@[simp] theorem pair?_char_left (c : Char) (q : CodePoint) : (char c).pair? q = none := by
  cases q <;> rfl

@[simp] theorem pair?_char_right (p : CodePoint) (c : Char) : p.pair? (char c) = none := by
  cases p <;> rfl

theorem pair?_of_pair {p q : CodePoint} {c : Char} (h : p.pair? q = some c) (q' : CodePoint) :
    q.pair? q' = none := by
  cases p with
  | char _ => simp at h
  | surrogate i =>
      cases q with
      | char _ => simp at h
      | surrogate j =>
          have hlow : 0x400 ≤ j.val := by
            simp only [pair?] at h
            split at h
            · next hpair => exact hpair.2
            · contradiction
          cases q' with
          | char _ => rfl
          | surrogate _ => exact if_neg fun hpair => Nat.not_le_of_lt hpair.1 hlow

end CodePoint

namespace Text

/-- No two surrogates of the text are a pair, which would be a character. -/
def IsJoined (t : Text) : Prop := t.IsChain fun p q => p.pair? q = none

theorem isJoined_cons {p : CodePoint} {t : Text} :
    IsJoined (p :: t) ↔ (∀ q ∈ t.head?, p.pair? q = none) ∧ IsJoined t :=
  List.isChain_cons

theorem isJoined_ofString_append (s : String) {t : Text} (ht : t.IsJoined) :
    (ofString s ++ t).IsJoined := by
  rw [ofString]
  induction s.toList with
  | nil => exact ht
  | cons c cs ih => exact isJoined_cons.mpr ⟨by simp, ih⟩

theorem isJoined_ofString (s : String) : (ofString s).IsJoined := by
  have happend := isJoined_ofString_append s .nil
  rwa [List.append_nil] at happend

theorem isJoined_intercalate {separator : String} (hne : separator ≠ "") {ts : List Text}
    (hts : ∀ t ∈ ts, t.IsJoined) : IsJoined ((ofString separator).intercalate ts) := by
  induction ts with
  | nil => exact .nil
  | cons t ts ih =>
      rw [List.forall_mem_cons] at hts
      cases ts with
      | nil => simpa using hts.1
      | cons t' ts =>
          rw [List.intercalate_cons_cons, List.append_assoc]
          refine List.isChain_append.mpr ⟨hts.1, isJoined_ofString_append _ (ih hts.2), ?_⟩
          intro p _ q hq
          obtain ⟨c, -, rfl⟩ : ∃ c, separator.toList.head? = some c ∧ .char c = q := by
            simpa [ofString, hne] using hq
          exact CodePoint.pair?_char_right p c

end Text

namespace Json

theorem hexValue?_hexDigit : ∀ d < 16, hexValue? (hexDigit d) = some d := by
  decide

theorem hexChars_four (n : Nat) :
    hexChars 4 n = [hexDigit (n / 0x1000 % 16), hexDigit (n / 0x100 % 16),
      hexDigit (n / 0x10 % 16), hexDigit (n % 16)] := by
  simp [hexChars, Nat.div_div_eq_div_mul]

theorem unit?_hexDigit {n : Nat} (hn : n < 0x10000) :
    unit? (hexDigit (n / 0x1000 % 16)) (hexDigit (n / 0x100 % 16)) (hexDigit (n / 0x10 % 16))
      (hexDigit (n % 16)) = some n := by
  have hdigit (k : Nat) : hexValue? (hexDigit (k % 16)) = some (k % 16) :=
    hexValue?_hexDigit _ (Nat.mod_lt k (by decide))
  have hvalue : ((n / 0x1000 % 16 * 16 + n / 0x100 % 16) * 16 + n / 0x10 % 16) * 16 + n % 16 =
      n := by
    omega
  simp only [unit?, hdigit, hvalue]

variable {cs rest : List Char} {ps : Text}

theorem ne_nil_of_readPoints (h : readPoints cs = .ok (ps, rest)) : cs ≠ [] := by
  rintro rfl
  simp [readPoints] at h

theorem readPoints_quote (rest : List Char) : readPoints ('"' :: rest) = .ok ([], rest) := by
  rw [readPoints.eq_def]
  rfl

theorem readPoints_plain {c : Char} (hquote : c ≠ '"') (hbackslash : c ≠ '\\')
    (hprintable : 0x20 ≤ c.toNat) (h : readPoints cs = .ok (ps, rest)) :
    readPoints (c :: cs) = .ok (.char c :: ps, rest) := by
  rw [readPoints.eq_def]
  simp only [if_neg hquote, if_neg hbackslash, if_neg (Nat.not_lt.mpr hprintable), h, prepend]

theorem readPoints_short {e x : Char} (hunit : e ≠ 'u') (hshort : shortEscape? e = some x)
    (h : readPoints cs = .ok (ps, rest)) :
    readPoints ('\\' :: e :: cs) = .ok (.char x :: ps, rest) := by
  rw [readPoints.eq_def]
  simp [hunit, hshort, h, prepend]

theorem readPoints_unit {n : Nat} (hn : n < 0x10000)
    (h : readPoints cs = .ok (ps, rest)) :
    readPoints (unitChars n ++ cs) = .ok (codePoint n :: ps, rest) := by
  have hne : cs.isEmpty = false := by simpa using ne_nil_of_readPoints h
  rw [unitChars, hexChars_four, readPoints.eq_def]
  simp [hne, unit?_hexDigit hn, h, prepend]

theorem codePoint_char (c : Char) : codePoint c.toNat = .char c := by
  have hvalid : c.toNat.isValidChar := c.valid
  rw [codePoint, if_pos hvalid, Char.ofNat_toNat]

theorem codePoint_surrogate (i : Fin 0x800) :
    codePoint (CodePoint.surrogateBase + i) = .surrogate i := by
  have hinvalid : ¬ (CodePoint.surrogateBase + i.val).isValidChar := by
    simp only [CodePoint.surrogateBase, Nat.isValidChar]
    omega
  have hplace : Fin.ofNat 0x800 (CodePoint.surrogateBase + i.val - CodePoint.surrogateBase) =
      i := by
    apply Fin.ext
    rw [Nat.add_sub_cancel_left, Fin.val_ofNat, Nat.mod_eq_of_lt i.isLt]
  rw [codePoint, if_neg hinvalid, hplace]

/-! ## Joining pairs -/

theorem joinPairs_cons {p : CodePoint} {t : Text} (h : ∀ q ∈ t.head?, p.pair? q = none) :
    joinPairs (p :: t) = p :: joinPairs t := by
  cases t with
  | nil => rfl
  | cons q t => rw [joinPairs, h q rfl]

theorem head?_joinPairs {p q : CodePoint} {c : Char} (h : p.pair? q = some c) (t : Text) :
    (joinPairs (q :: t)).head? = some q := by
  rw [joinPairs_cons fun q' _ => CodePoint.pair?_of_pair h q']
  rfl

theorem isJoined_joinPairs (t : Text) : (joinPairs t).IsJoined := by
  fun_induction joinPairs t with
  | case1 p q rest c hpair ih => exact Text.isJoined_cons.mpr ⟨by simp, ih⟩
  | case2 p q rest hpair ih =>
      refine Text.isJoined_cons.mpr ⟨?_, ih⟩
      -- what follows begins with the next code point, or with the character of a pair
      cases rest with
      | nil => simpa [joinPairs] using hpair
      | cons q' rest =>
          rw [joinPairs]
          split
          · simp
          · simpa using hpair
  | case3 t ht =>
      cases t with
      | nil => exact .nil
      | cons p t =>
          cases t with
          | nil => exact .singleton p
          | cons q t => exact absurd rfl (ht p q t)

/-- Printable characters of ASCII. -/
def IsPlain (c : Char) : Prop := 0x20 ≤ c.toNat ∧ c.toNat < 0x7f

instance (c : Char) : Decidable (IsPlain c) := inferInstanceAs (Decidable (_ ∧ _))

/-- A character is written as a short escape, as itself, as a code unit or as a pair of
surrogates. -/
theorem escapeChar_cases (c : Char) :
    (∃ e, escapeChar c = ['\\', e] ∧ shortEscape? e = some c ∧ e ≠ 'u' ∧ IsPlain e) ∨
      (escapeChar c = [c] ∧ c ≠ '"' ∧ c ≠ '\\' ∧ IsPlain c) ∨
      (escapeChar c = unitChars c.toNat ∧ c.toNat < 0x10000) ∨
      (escapeChar c = unitChars (0xd800 + (c.toNat - 0x10000) / 0x400) ++
        unitChars (0xdc00 + (c.toNat - 0x10000) % 0x400) ∧ 0x10000 ≤ c.toNat) := by
  -- The written form is split once here, so that no later proof opens the definition.
  generalize hwritten : escapeChar c = written
  unfold escapeChar at hwritten
  dsimp only at hwritten
  split_ifs at hwritten with hself hlineFeed hreturn htab hbackspace hformFeed hprintable hunit
  all_goals subst hwritten
  · left
    rcases hself with rfl | rfl
    · exact ⟨_, rfl, by decide, by decide, by decide⟩
    · exact ⟨_, rfl, by decide, by decide, by decide⟩
  · subst hlineFeed
    exact Or.inl ⟨_, rfl, by decide, by decide, by decide⟩
  · subst hreturn
    exact Or.inl ⟨_, rfl, by decide, by decide, by decide⟩
  · subst htab
    exact Or.inl ⟨_, rfl, by decide, by decide, by decide⟩
  · obtain rfl : c = '\x08' := Char.ext (UInt32.toNat_inj.mp hbackspace)
    exact Or.inl ⟨_, rfl, by decide, by decide, by decide⟩
  · obtain rfl : c = '\x0c' := Char.ext (UInt32.toNat_inj.mp hformFeed)
    exact Or.inl ⟨_, rfl, by decide, by decide, by decide⟩
  · obtain ⟨hquote, hbackslash⟩ := not_or.mp hself
    exact Or.inr (Or.inl ⟨rfl, hquote, hbackslash, hprintable⟩)
  · exact Or.inr (Or.inr (Or.inl ⟨rfl, hunit⟩))
  · exact Or.inr (Or.inr (Or.inr ⟨rfl, Nat.le_of_not_lt hunit⟩))

/-- What is written for a character is read as code points that are joined to it. -/
theorem exists_readPoints_escapeChar (c : Char) (h : readPoints cs = .ok (ps, rest)) :
    ∃ ps', readPoints (escapeChar c ++ cs) = .ok (ps', rest) ∧
      joinPairs ps' = .char c :: joinPairs ps := by
  have hjoin : joinPairs (.char c :: ps) = .char c :: joinPairs ps := joinPairs_cons (by simp)
  rcases escapeChar_cases c with ⟨e, hwritten, hshort, hunit, -⟩ |
    ⟨hwritten, hquote, hbackslash, hplain⟩ | ⟨hwritten, hunit⟩ | ⟨hwritten, hpair⟩
  · rw [hwritten]
    exact ⟨_, readPoints_short hunit hshort h, hjoin⟩
  · rw [hwritten]
    exact ⟨_, readPoints_plain hquote hbackslash hplain.1 h, hjoin⟩
  · rw [hwritten]
    refine ⟨_, readPoints_unit hunit h, ?_⟩
    rw [codePoint_char, hjoin]
  · have hbound := Char.toNat_lt c
    let high : Fin 0x800 := ⟨(c.toNat - 0x10000) / 0x400, by omega⟩
    let low : Fin 0x800 := ⟨0x400 + (c.toNat - 0x10000) % 0x400, by omega⟩
    have hchar : (CodePoint.surrogate high).pair? (.surrogate low) = some c := by
      have hcode : 0x10000 + high.val * 0x400 + (low.val - 0x400) = c.toNat := by
        show 0x10000 + (c.toNat - 0x10000) / 0x400 * 0x400 +
          (0x400 + (c.toNat - 0x10000) % 0x400 - 0x400) = c.toNat
        omega
      have hhalves : high.val < 0x400 ∧ 0x400 ≤ low.val := by
        refine ⟨?_, Nat.le_add_right _ _⟩
        show (c.toNat - 0x10000) / 0x400 < 0x400
        omega
      rw [CodePoint.pair?, if_pos hhalves, hcode, Char.ofNat_toNat]
    have hlow : 0xdc00 + (c.toNat - 0x10000) % 0x400 = CodePoint.surrogateBase + low := by
      show _ = 0xd800 + (0x400 + _)
      omega
    rw [hwritten, List.append_assoc]
    refine ⟨_, readPoints_unit (by omega) (readPoints_unit (by omega) h), ?_⟩
    rw [hlow, codePoint_surrogate low]
    rw [show codePoint (0xd800 + (c.toNat - 0x10000) / 0x400) = .surrogate high from
      codePoint_surrogate high, joinPairs, hchar]

theorem exists_readPoints_flatMap {t : Text} (ht : t.IsJoined) (rest : List Char) :
    ∃ ps, readPoints (t.flatMap escapePoint ++ '"' :: rest) = .ok (ps, rest) ∧
      joinPairs ps = t := by
  induction t with
  | nil => exact ⟨[], readPoints_quote rest, rfl⟩
  | cons p t ih =>
      obtain ⟨hpair, ht⟩ := Text.isJoined_cons.mp ht
      obtain ⟨ps, hread, hjoin⟩ := ih ht
      rw [List.flatMap_cons, List.append_assoc]
      cases p with
      | char c =>
          obtain ⟨ps', hread', hjoin'⟩ := exists_readPoints_escapeChar c hread
          exact ⟨ps', hread', by rw [hjoin', hjoin]⟩
      | surrogate i =>
          have hunit : (CodePoint.surrogate i).toNat < 0x10000 := by
            show 0xd800 + i.val < 0x10000
            omega
          refine ⟨_, readPoints_unit hunit hread, ?_⟩
          rw [CodePoint.toNat, codePoint_surrogate, joinPairs_cons, hjoin]
          intro q hq
          -- were there a pair, its second half would be the next code point of the text
          cases hnone : (CodePoint.surrogate i).pair? q with
          | none => rfl
          | some c =>
              obtain ⟨ps, rfl⟩ : ∃ tail, ps = q :: tail := by
                cases ps with
                | nil => simp at hq
                | cons first tail =>
                    obtain rfl : first = q := by simpa using hq
                    exact ⟨tail, rfl⟩
              have hhead := head?_joinPairs hnone ps
              rw [hjoin] at hhead
              exact absurd (hpair q hhead) (by simp [hnone])

theorem readText_textChars {t : Text} (ht : t.IsJoined) (rest : List Char) :
    readText (textChars t ++ rest) = .ok (t, rest) := by
  obtain ⟨ps, hread, hjoin⟩ := exists_readPoints_flatMap ht rest
  have htail : (textChars t ++ rest).tail = t.flatMap escapePoint ++ '"' :: rest := by
    simp [textChars]
  simp [readText, htail, hread, hjoin]

/-! ## Written characters -/

theorem isPlain_hexDigit : ∀ d < 16, IsPlain (hexDigit d) := by
  decide

theorem isPlain_unitChars (n : Nat) : ∀ c ∈ unitChars n, IsPlain c := by
  have hdigit (k : Nat) : IsPlain (hexDigit (k % 16)) :=
    isPlain_hexDigit _ (Nat.mod_lt k (by decide))
  rw [unitChars, hexChars_four]
  simp only [List.forall_mem_cons, List.not_mem_nil, false_implies, implies_true, and_true]
  exact ⟨by decide, by decide, hdigit _, hdigit _, hdigit _, hdigit _⟩

theorem isPlain_escapeChar (c : Char) : ∀ d ∈ escapeChar c, IsPlain d := by
  rcases escapeChar_cases c with ⟨e, hwritten, -, -, hplain⟩ | ⟨hwritten, -, -, hplain⟩ |
    ⟨hwritten, -⟩ | ⟨hwritten, -⟩
  · rw [hwritten, List.forall_mem_cons, List.forall_mem_singleton]
    exact ⟨by decide, hplain⟩
  · rw [hwritten, List.forall_mem_singleton]
    exact hplain
  · rw [hwritten]
    exact isPlain_unitChars _
  · rw [hwritten, List.forall_mem_append]
    exact ⟨isPlain_unitChars _, isPlain_unitChars _⟩

theorem isPlain_textChars (t : Text) : ∀ c ∈ textChars t, IsPlain c := by
  rw [textChars, List.forall_mem_cons, List.forall_mem_append]
  refine ⟨by decide, ?_, List.forall_mem_singleton.mpr (by decide)⟩
  intro d hd
  obtain ⟨p, -, hp⟩ := List.mem_flatMap.mp hd
  cases p with
  | char c => exact isPlain_escapeChar c d hp
  | surrogate i => exact isPlain_unitChars _ d hp

end Json
end PostfixCalc
