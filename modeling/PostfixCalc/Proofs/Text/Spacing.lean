import PostfixCalc.Proofs.Text.Character

/-!
# Words and the white space around them

A line is written as words with white space between them, and possibly at its two ends.
However it is written, its words are the ones that it is divided into, and every line
can be written from its words.
-/

namespace PostfixCalc

/-- The code points of white space. -/
def blankCodes : List ℕ :=
  [0x09, 0x0a, 0x0b, 0x0c, 0x0d, 0x1c, 0x1d, 0x1e, 0x1f, 0x20, 0x85, 0xa0, 0x1680, 0x2000, 0x2001,
   0x2002, 0x2003, 0x2004, 0x2005, 0x2006, 0x2007, 0x2008, 0x2009, 0x200a, 0x2028, 0x2029, 0x202f,
   0x205f, 0x3000]

theorem isBlank_iff {c : Char} : isBlank c = true ↔ c.toNat ∈ blankCodes := by
  have hcodes : blankCodes = List.range' 0x09 5 ++ List.range' 0x1c 5 ++ [0x85, 0xa0, 0x1680] ++
      List.range' 0x2000 11 ++ [0x2028, 0x2029, 0x202f, 0x205f, 0x3000] := rfl
  simp only [isBlank, hcodes, Bool.or_eq_true, Bool.and_eq_true, decide_eq_true_iff, beq_iff_eq,
    List.mem_append, List.mem_range'_1, List.mem_cons, List.not_mem_nil, or_false]
  omega

/-- White space in front, and words with white space behind each of them.  It may be
missing in front and behind the last word, but not between two words. -/
structure Spacing where
  front : List Char
  parts : List (List Char × List Char)
  front_blank : ∀ c ∈ front, isBlank c = true
  part_isWord : ∀ part ∈ parts, IsWord part.1
  gap_blank : ∀ part ∈ parts, ∀ c ∈ part.2, isBlank c = true
  gap_ne_nil : ∀ part ∈ parts.dropLast, part.2 ≠ []

namespace Spacing

def chars (s : Spacing) : List Char :=
  s.front ++ s.parts.flatMap fun part => part.1 ++ part.2

/-- The line that is written. -/
def line (s : Spacing) : String := String.ofList s.chars

/-- The words that it is written from. -/
def words (s : Spacing) : List String := s.parts.map fun part => String.ofList part.1

theorem words_flatMap_parts {parts : List (List Char × List Char)}
    (hwords : ∀ part ∈ parts, IsWord part.1)
    (hblanks : ∀ part ∈ parts, ∀ c ∈ part.2, isBlank c = true)
    (hgaps : ∀ part ∈ parts.dropLast, part.2 ≠ []) :
    PostfixCalc.words (parts.flatMap fun part => part.1 ++ part.2) = parts.map Prod.fst := by
  induction parts with
  | nil => exact words_nil
  | cons part parts ih =>
      obtain ⟨word, gap⟩ := part
      rw [List.forall_mem_cons] at hwords hblanks
      have hhead : ∀ c ∈ (gap ++ parts.flatMap fun part => part.1 ++ part.2).head?,
          isBlank c = true := by
        intro c hc
        cases gap with
        | cons first gap =>
            obtain rfl : first = c := by simpa using hc
            exact hblanks.1 first List.mem_cons_self
        | nil =>
            -- only behind the last word may there be no white space
            cases parts with
            | nil => simp at hc
            | cons next parts => exact absurd rfl (hgaps (word, []) (by simp))
      have hrest : ∀ part ∈ parts.dropLast, part.2 ≠ [] := by
        intro part hpart
        refine hgaps part ?_
        cases parts with
        | nil => simp at hpart
        | cons next parts => exact List.mem_cons_of_mem _ hpart
      rw [List.flatMap_cons, List.append_assoc, words_append hwords.1 hhead,
        words_append_of_blanks hblanks.1, ih hwords.2 hblanks.2 hrest, List.map_cons]

theorem words_chars (s : Spacing) : PostfixCalc.words s.chars = s.parts.map Prod.fst := by
  rw [chars, words_append_of_blanks s.front_blank,
    words_flatMap_parts s.part_isWord s.gap_blank s.gap_ne_nil]

theorem lineWords_line (s : Spacing) : lineWords s.line = s.words := by
  rw [lineWords, line, String.toList_ofList, words_chars, List.map_map]
  rfl

def ofBlanks (front : List Char) (hfront : ∀ c ∈ front, isBlank c = true) : Spacing where
  front := front
  parts := []
  front_blank := hfront
  part_isWord := by simp
  gap_blank := by simp
  gap_ne_nil := by simp

/-- Puts a word in front of what is written, and white space in front of that. -/
def cons (front word : List Char) (s : Spacing) (hfront : ∀ c ∈ front, isBlank c = true)
    (hword : IsWord word) (hgap : s.parts ≠ [] → s.front ≠ []) : Spacing where
  front := front
  parts := (word, s.front) :: s.parts
  front_blank := hfront
  part_isWord := List.forall_mem_cons.mpr ⟨hword, s.part_isWord⟩
  gap_blank := List.forall_mem_cons.mpr ⟨s.front_blank, s.gap_blank⟩
  gap_ne_nil := by
    have hparts := s.gap_ne_nil
    cases hs : s.parts with
    | nil => simp
    | cons part parts =>
        rw [hs] at hparts
        exact List.forall_mem_cons.mpr ⟨hgap (by simp [hs]), hparts⟩

theorem front_ne_nil {s : Spacing} (hhead : ∀ c ∈ s.chars.head?, isBlank c = true)
    (hparts : s.parts ≠ []) : s.front ≠ [] := by
  intro hfront
  obtain ⟨part, parts, hs⟩ := List.exists_cons_of_ne_nil hparts
  obtain ⟨hne, hnonblank⟩ := s.part_isWord part (by simp [hs])
  obtain ⟨c, word, hword⟩ := List.exists_cons_of_ne_nil hne
  have hblank := hhead c (by simp [chars, hfront, hs, hword])
  rw [hnonblank c (by simp [hword])] at hblank
  contradiction

theorem exists_chars_eq (cs : List Char) : ∃ s : Spacing, s.chars = cs := by
  induction cs using words.induct with
  | case1 cs hblank =>
      exact ⟨ofBlanks cs (List.dropWhile_eq_nil_iff.mp hblank), List.append_nil cs⟩
  | case2 cs c rest hrest ih =>
      obtain ⟨s, hs⟩ := ih
      have hfront : ∀ d ∈ cs.takeWhile isBlank, isBlank d = true := fun d hd =>
        List.mem_takeWhile_imp hd
      have hhead : ∀ d ∈ s.chars.head?, isBlank d = true := by
        intro d hd
        have hstop := List.head?_dropWhile_not (!isBlank ·) rest
        rw [← hs, Option.mem_def.mp hd] at hstop
        simpa using hstop
      refine ⟨cons _ _ s hfront (isWord_of_dropWhile hrest) (front_ne_nil hhead), ?_⟩
      calc cs.takeWhile isBlank ++
            ((c :: rest.takeWhile (!isBlank ·), s.front) :: s.parts).flatMap
              (fun part => part.1 ++ part.2)
          = cs.takeWhile isBlank ++ (c :: rest.takeWhile (!isBlank ·)) ++ s.chars := by
            rw [List.flatMap_cons, chars, List.append_assoc, List.append_assoc]
        _ = cs.takeWhile isBlank ++ cs.dropWhile isBlank := by
            rw [hs, List.append_assoc, List.cons_append, List.takeWhile_append_dropWhile, hrest]
        _ = cs := List.takeWhile_append_dropWhile

theorem exists_line_eq (line : String) : ∃ s : Spacing, s.line = line := by
  obtain ⟨s, hs⟩ := exists_chars_eq line.toList
  exact ⟨s, by rw [Spacing.line, hs, String.ofList_toList]⟩

theorem filter_chars (s : Spacing) :
    s.chars.filter (!isBlank ·) = s.parts.flatMap Prod.fst := by
  have hnone {cs : List Char} (hcs : ∀ c ∈ cs, isBlank c = true) :
      cs.filter (!isBlank ·) = [] := by
    simpa using hcs
  have hall {cs : List Char} (hcs : IsWord cs) : cs.filter (!isBlank ·) = cs := by
    simpa using hcs.2
  rw [chars, List.filter_append, hnone s.front_blank, List.nil_append, List.filter_flatMap,
    List.flatMap_def, List.flatMap_def]
  congr 1
  refine List.map_congr_left fun part hpart => ?_
  rw [List.filter_append, hall (s.part_isWord part hpart), hnone (s.gap_blank part hpart),
    List.append_nil]

end Spacing

/-- The words of a line are exactly those from which it can be written, with white space of
any kind between them.  They keep all characters that are not white space, in order.  In
particular, joining by single spaces is undone for lists of words, and for no others. -/
theorem lineWords_eq_iff_exists_spacing (line : String) (ts : List String) :
    (lineWords line = ts ↔ ∃ s : Spacing, s.line = line ∧ s.words = ts) ∧
      (lineWords line).flatMap String.toList = line.toList.filter (fun c => !isBlank c) ∧
      (lineWords (" ".intercalate ts) = ts ↔ ∀ t ∈ ts, IsWord t.toList) ∧
      ∀ c, isBlank c = true ↔ c.toNat ∈ blankCodes := by
  obtain ⟨written, rfl⟩ := Spacing.exists_line_eq line
  refine ⟨⟨?_, ?_⟩, ?_, ⟨?_, lineWords_intercalate⟩, fun c => isBlank_iff⟩
  · intro hwords
    exact ⟨written, rfl, by rw [← written.lineWords_line, hwords]⟩
  · rintro ⟨s, hline, rfl⟩
    rw [← hline, s.lineWords_line]
  · rw [written.lineWords_line, Spacing.line, String.toList_ofList, written.filter_chars,
      Spacing.words, List.flatMap_map]
    simp
  · intro hjoined t ht
    rw [← hjoined] at ht
    exact isWord_of_mem_lineWords ht

end PostfixCalc
