import PostfixCalc.Display
import PostfixCalc.Proofs.Decimal
import PostfixCalc.Proofs.Stack.Script
import PostfixCalc.Proofs.Text.Character
import PostfixCalc.Proofs.Token.Spelling

/-!
# A stack in rows

The rows of a stack are numbered by depth, and the numerals are padded to the width of the
greatest one.  No numeral is wider, since numerals grow with their numbers, so the types
stand below one another.  The texts of values hold no white space of any kind, so there is
one line for each value.
-/

namespace PostfixCalc

open Grammar

/-- The letters of what is written for numbers that are not finite. -/
def nonfiniteLetters : List Char := ['a', 'f', 'i', 'n']

theorem Binary.isNumeralChar_or_mem {F : Format} (hF : F.IsProper) (L : Layout F) (x : Binary F) :
    ∀ c ∈ x.writtenChars L, IsNumeralChar c ∨ c ∈ nonfiniteLetters := by
  cases x with
  | nan =>
      have hletters : ['n', 'a', 'n'] ⊆ nonfiniteLetters := by decide
      exact fun c hc => Or.inr (hletters hc)
  | infinite negative =>
      have hletters : ['i', 'n', 'f'] ⊆ nonfiniteLetters := by decide
      exact List.forall_mem_append.mpr
        ⟨fun c hc => Or.inl ((sign_signChars negative).isNumeralChar c hc),
          fun c hc => Or.inr (hletters hc)⟩
  | finite negative rank =>
      obtain ⟨_, _, _, hreal, -⟩ := exists_real_magnitudeChars hF L rank (sign_signChars negative)
      exact fun c hc => Or.inl (hreal.isNumeralChar c hc)

theorem Value.isNumeralChar_or_mem (v : Value) :
    ∀ c ∈ v.text.toList, IsNumeralChar c ∨ c ∈ nonfiniteLetters := by
  rw [text, String.toList_ofList]
  cases v with
  | i32 n => exact fun c hc => Or.inl ((signedDigits_intChars n.toInt).isNumeralChar c hc)
  | f32 x => exact Binary.isNumeralChar_or_mem Format.isProper_single .single x
  | f64 x => exact Binary.isNumeralChar_or_mem Format.isProper_double .double x

theorem Value.isBlank_eq_false (v : Value) : ∀ c ∈ v.text.toList, isBlank c = false := by
  have hletters : ∀ c ∈ nonfiniteLetters, isBlank c = false := by
    simp [nonfiniteLetters, isBlank]
  intro c hc
  rcases v.isNumeralChar_or_mem c hc with hnumeral | hletter
  · exact hnumeral.isBlank_eq_false
  · exact hletters c hletter

theorem isNumeralChar_natText (n : ℕ) : ∀ c ∈ (natText n).toList, IsNumeralChar c := by
  rw [natText, String.toList_ofList]
  exact (digits_map_digitChar (decimalDigits_lt_ten n)).isNumeralChar

/-- A character at which a text may be broken into lines. -/
def isLineBreak (c : Char) : Bool :=
  let n := c.toNat
  (0x0a ≤ n && n ≤ 0x0d) || (0x1c ≤ n && n ≤ 0x1e) || n == 0x85 || n == 0x2028 || n == 0x2029

theorem isLineBreak_eq_false {c : Char} (h : isBlank c = false) : isLineBreak c = false := by
  rw [Bool.eq_false_iff] at h ⊢
  simp only [isBlank, isLineBreak, Bool.or_eq_true, Bool.and_eq_true, decide_eq_true_iff,
    beq_iff_eq, ne_eq] at h ⊢
  omega

theorem length_natText (n : ℕ) : (natText n).length = (decimalDigits n).length := by
  rw [natText, String.length_ofList, natChars, List.length_map]

theorem length_natText_mono {m n : ℕ} (h : m ≤ n) :
    (natText m).length ≤ (natText n).length := by
  rw [length_natText, length_natText]
  have hpositive := List.length_pos_iff.mpr (decimalDigits_ne_nil n)
  obtain ⟨count, hcount⟩ : ∃ count, (decimalDigits n).length = count + 1 :=
    ⟨_, (Nat.sub_add_cancel hpositive).symm⟩
  have hbound := (decimalDigits_length_bounds n).1
  rw [hcount] at hbound ⊢
  exact length_decimalDigits_le (Nat.lt_of_le_of_lt h hbound)

namespace Display

theorem length_padLeft {width : ℕ} {text : String} (h : text.length ≤ width) :
    (padLeft width text).length = width := by
  rw [padLeft, String.length_append, String.length_ofList, List.length_replicate]
  omega

/-! ## Rows -/

variable {s : Stack}

theorem length_rows (colour : Bool) (s : Stack) : (rows colour s).length = s.height := by
  rw [rows, List.length_mapIdx]
  rfl

theorem getElem?_rows (colour : Bool) {k : ℕ} {v : Value} (hv : s.fromTop[k]? = some v) :
    (rows colour s)[k]? = some (row colour (depthWidth s) k v) := by
  rw [rows, List.getElem?_mapIdx, hv]
  rfl

theorem row_plain (width depth : ℕ) (v : Value) :
    row false width depth v =
      padLeft width (natText depth) ++ "  " ++ v.type.label ++ "  " ++ v.text := rfl

theorem isLineBreak_row (width depth : ℕ) (v : Value) :
    ∀ c ∈ (row false width depth v).toList, isLineBreak c = false := by
  have hspaces : ∀ count, ∀ c ∈ List.replicate count ' ', isLineBreak c = false := by
    intro count c hc
    rw [List.eq_of_mem_replicate hc]
    decide
  have hlabel : ∀ c ∈ v.type.label.toList, isLineBreak c = false := by
    cases v.type <;> simp [Ty.label, isLineBreak]
  have hgap : ∀ c ∈ "  ".toList, isLineBreak c = false := by
    simp [isLineBreak]
  simp only [row_plain, padLeft, String.toList_append, String.toList_ofList,
    List.forall_mem_append]
  refine ⟨⟨⟨⟨⟨hspaces _, ?_⟩, hgap⟩, hlabel⟩, hgap⟩, ?_⟩
  · exact fun c hc => isLineBreak_eq_false (isNumeralChar_natText depth c hc).isBlank_eq_false
  · exact fun c hc => isLineBreak_eq_false (v.isBlank_eq_false c hc)

theorem isLineBreak_rows {line : String} (h : line ∈ rows false s) :
    ∀ c ∈ line.toList, isLineBreak c = false := by
  obtain ⟨k, hk⟩ := List.mem_iff_getElem?.mp h
  rw [rows, List.getElem?_mapIdx, Option.map_eq_some_iff] at hk
  obtain ⟨v, -, rfl⟩ := hk
  exact isLineBreak_row _ _ v

theorem stackRows_plain (h : 0 < s.height) :
    stackRows false false s = "\n".intercalate (rows false s) := by
  rw [stackRows, if_neg (Nat.ne_of_gt h), if_neg Bool.false_ne_true]

theorem rows_ne_nil (h : 0 < s.height) : rows false s ≠ [] := by
  rw [← length_rows false s] at h
  exact List.length_pos_iff.mp h

theorem splitOn_stackRows (h : 0 < s.height) :
    (stackRows false false s).toList.splitOn '\n' = (rows false s).map String.toList := by
  rw [stackRows_plain h, String.toList_intercalate]
  refine List.splitOn_intercalate '\n' ?_ (by simpa using rows_ne_nil h)
  intro line hline hbreak
  obtain ⟨line, hrow, rfl⟩ := List.mem_map.mp hline
  have hnot := isLineBreak_rows hrow '\n' hbreak
  contradiction

/-- There is no other way to break the rows into lines. -/
theorem eq_newline_of_mem_stackRows (h : 0 < s.height) :
    ∀ c ∈ (stackRows false false s).toList, isLineBreak c = true → c = '\n' := by
  rw [stackRows_plain h, String.toList_intercalate]
  refine forall_mem_intercalate (fun c hc _ => List.mem_singleton.mp hc) ?_
  intro cs hcs c hc hbreak
  obtain ⟨line, hline, rfl⟩ := List.mem_map.mp hcs
  rw [isLineBreak_rows hline c hc] at hbreak
  contradiction

/-- A stack that is not empty is listed in as many lines as it has values.  The line at a
depth has the numeral of the depth, with spaces in front up to the width of the greatest
numeral, which none exceeds, and then the type and the text of the value at that depth,
with two spaces before each.  So the types start in the same column in all lines.  The text
of a value holds no line break of any kind, and lines are broken nowhere else. -/
theorem stackRows_by_depth (s : Stack) (h : 0 < s.height) :
    let lines := (stackRows false false s).toList.splitOn '\n'
    let width := (natText (s.height - 1)).length
    lines.length = s.height ∧
      (∀ k : ℕ, k < s.height → ∃ v front, s.peek k = .ok v ∧ (natText k).length ≤ width ∧
        front =
          String.ofList (List.replicate (width - (natText k).length) ' ') ++ natText k ++ "  " ∧
        front.length = width + 2 ∧
        lines[k]? = some (front ++ v.type.label ++ "  " ++ v.text).toList) ∧
      (∀ v : Value, ∀ c ∈ v.text.toList, isLineBreak c = false) ∧
      ∀ c ∈ (stackRows false false s).toList, isLineBreak c = true → c = '\n' := by
  intro lines width
  have hlines : lines = (rows false s).map String.toList := splitOn_stackRows h
  refine ⟨?_, ?_, ?_, eq_newline_of_mem_stackRows h⟩
  · rw [hlines, List.length_map, length_rows]
  · intro k hk
    obtain ⟨v, hv⟩ := Stack.exists_getElem? hk
    have hwidth : (natText k).length ≤ width := length_natText_mono (Nat.le_sub_one_of_lt hk)
    refine ⟨v, padLeft width (natText k) ++ "  ", Stack.peek_natCast hv, hwidth, rfl, ?_, ?_⟩
    · rw [String.length_append, length_padLeft hwidth]
      rfl
    · rw [hlines, List.getElem?_map, getElem?_rows false hv, row_plain]
      rfl
  · exact fun v c hc => isLineBreak_eq_false (v.isBlank_eq_false c hc)

/-- Eleven values, so that numerals of both widths occur. -/
def eleven : Stack :=
  .ofList (.i32 Int32.minValue :: .f32 .nan :: .f64 (.infinite true) :: List.replicate 8 (.i32 0))

theorem stackRows_by_depth_of_eleven :
    0 < eleven.height ∧
      let lines := (stackRows false false eleven).toList.splitOn '\n'
      lines.length = 11 ∧ lines[9]? = some " 9  f32  nan".toList ∧
        lines[10]? = some "10  i32  -2147483648".toList := by
  have hheight : 0 < eleven.height := by decide
  obtain ⟨hlength, hrow, -⟩ := stackRows_by_depth eleven hheight
  obtain ⟨v, front, hv, -, rfl, -, hline⟩ := hrow 9 (by decide)
  obtain ⟨w, front, hw, -, rfl, -, hline'⟩ := hrow 10 (by decide)
  obtain rfl : .f32 .nan = v := Except.ok.inj hv
  obtain rfl : .i32 Int32.minValue = w := Except.ok.inj hw
  exact ⟨hheight, hlength, hline.trans (by decide +kernel), hline'.trans (by decide +kernel)⟩

end Display

end PostfixCalc
