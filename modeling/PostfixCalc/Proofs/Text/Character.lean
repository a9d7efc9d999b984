import Mathlib.Data.List.TakeWhile
import PostfixCalc.Token

/-!
# Characters, pieces and words

A digit of any script is neither white space nor a sign.  The digits that are written
are ASCII digits, and they are read back.

Dividing a list at its separators can be done in portions: the last piece is open, and
what follows it is divided together with it.  What is joined with separators is made of
the separators and the pieces.

A word is a non-empty run of characters that are not white space.  Dividing a
line into words undoes the joining of words by single spaces.
-/

namespace PostfixCalc

/-- A digit stands as far after the zero of its script as its value says. -/
theorem eq_ofNat_of_digitValue? {c : Char} {d : Nat} (h : digitValue? c = some d) :
    d < 10 ∧ ∃ z ∈ digitZeros, c = Char.ofNat (z + d) := by
  obtain ⟨z, hfind, rfl⟩ := Option.map_eq_some_iff.mp h
  have hz : z ≤ c.toNat ∧ c.toNat < z + 10 := by
    simpa using List.find?_some hfind
  refine ⟨by omega, z, List.mem_of_find?_eq_some hfind, ?_⟩
  rw [Nat.add_sub_cancel' hz.1, Char.ofNat_toNat]

theorem isBlank_ofNat_digitZeros :
    ∀ z ∈ digitZeros, ∀ d < 10, isBlank (Char.ofNat (z + d)) = false := by
  decide +kernel

theorem isBlank_of_digitValue? {c : Char} {d : Nat} (h : digitValue? c = some d) :
    isBlank c = false := by
  obtain ⟨hd, z, hz, rfl⟩ := eq_ofNat_of_digitValue? h
  exact isBlank_ofNat_digitZeros z hz d hd

theorem digitValue?_digitChar {d : Nat} (hd : d < 10) : digitValue? (digitChar d) = some d := by
  have hdigits : ∀ d < 10, digitValue? (digitChar d) = some d := by decide
  exact hdigits d hd

/-- A run of digits is taken from the front, and its values are those of its digits. -/
theorem exists_taken_spanDigits (value? : Char → Option Nat) (cs : List Char) :
    ∃ taken, cs = taken ++ (spanDigits value? cs).2 ∧
      taken.map value? = (spanDigits value? cs).1.map some := by
  induction cs with
  | nil => exact ⟨[], rfl, rfl⟩
  | cons c cs ih =>
      obtain ⟨taken, hcs, hvalues⟩ := ih
      rw [spanDigits]
      split
      · exact ⟨[], rfl, rfl⟩
      · next d hd =>
        refine ⟨c :: taken, ?_, ?_⟩
        · rw [List.cons_append, ← hcs]
        · rw [List.map_cons, hd, hvalues, List.map_cons]

theorem digitValue?_sign : digitValue? '-' = none ∧ digitValue? '+' = none := by
  decide

section Pieces

variable {α : Type} {isSeparator : α → Bool}

theorem pieces_ne_nil (xs : List α) : pieces isSeparator xs ≠ [] := by
  cases xs with
  | nil => simp [pieces]
  | cons x xs =>
      rw [pieces]
      split
      · simp
      · split
        · simp
        · simp

theorem pieces_cons_of_separator {x : α} (hx : isSeparator x = true) (xs : List α) :
    pieces isSeparator (x :: xs) = [] :: pieces isSeparator xs := by
  rw [pieces, if_pos hx]

theorem pieces_cons_of_not_separator {x : α} {xs piece : List α} {rest : List (List α)}
    (hx : isSeparator x = false) (hxs : pieces isSeparator xs = piece :: rest) :
    pieces isSeparator (x :: xs) = (x :: piece) :: rest := by
  rw [pieces, if_neg (by simp [hx]), hxs]

theorem pieces_of_forall {xs : List α} (hxs : ∀ x ∈ xs, isSeparator x = false) :
    pieces isSeparator xs = [xs] := by
  induction xs with
  | nil => rfl
  | cons x xs ih =>
      rw [List.forall_mem_cons] at hxs
      exact pieces_cons_of_not_separator hxs.1 (ih hxs.2)

/-- All pieces but the last are settled; the last one goes on with what is appended. -/
theorem pieces_append (xs ys : List α) :
    pieces isSeparator (xs ++ ys) =
      (pieces isSeparator xs).dropLast ++
        pieces isSeparator ((pieces isSeparator xs).getLastD [] ++ ys) := by
  induction xs with
  | nil => rfl
  | cons x xs ih =>
      obtain ⟨piece, rest, hxs⟩ := List.exists_cons_of_ne_nil (pieces_ne_nil xs)
      rw [hxs] at ih
      cases hx : isSeparator x with
      | true =>
          rw [List.cons_append, pieces_cons_of_separator hx, pieces_cons_of_separator hx, hxs, ih]
          rfl
      | false =>
          rw [List.cons_append, pieces_cons_of_not_separator hx hxs]
          cases rest with
          | nil =>
              -- `xs` has one piece, so the open piece of `x :: xs` is `x :: piece`
              have hopen : pieces isSeparator (xs ++ ys) = pieces isSeparator (piece ++ ys) := ih
              obtain ⟨first, later, hys⟩ :=
                List.exists_cons_of_ne_nil (pieces_ne_nil (piece ++ ys))
              have hleft := pieces_cons_of_not_separator hx (hopen.trans hys)
              have hright := pieces_cons_of_not_separator hx hys
              exact hleft.trans hright.symm
          | cons next rest => exact pieces_cons_of_not_separator hx ih

theorem not_separator_of_mem_getLastD (xs : List α) :
    ∀ x ∈ (pieces isSeparator xs).getLastD [], isSeparator x = false := by
  induction xs with
  | nil => simp [pieces]
  | cons x xs ih =>
      obtain ⟨piece, rest, hxs⟩ := List.exists_cons_of_ne_nil (pieces_ne_nil xs)
      rw [hxs] at ih
      cases hx : isSeparator x with
      | true =>
          rw [pieces_cons_of_separator hx, hxs]
          exact ih
      | false =>
          rw [pieces_cons_of_not_separator hx hxs]
          cases rest with
          | nil =>
              intro y hy
              rcases List.mem_cons.mp hy with rfl | hy
              · exact hx
              · exact ih y hy
          | cons next rest => exact ih

/-- The pieces stand in the list, the first of them at its start. -/
theorem isInfix_of_pieces {xs piece : List α} {rest : List (List α)}
    (h : pieces isSeparator xs = piece :: rest) : piece <+: xs ∧ ∀ p ∈ rest, p <:+: xs := by
  induction xs generalizing piece rest with
  | nil =>
      obtain ⟨rfl, rfl⟩ := List.cons.inj h
      exact ⟨List.prefix_rfl, List.forall_mem_nil _⟩
  | cons x xs ih =>
      obtain ⟨first, later, hxs⟩ := List.exists_cons_of_ne_nil (pieces_ne_nil xs)
      obtain ⟨hfirst, hlater⟩ := ih hxs
      have hlater : ∀ p ∈ later, p <:+: x :: xs := fun p hp =>
        (hlater p hp).trans (List.suffix_cons x xs).isInfix
      cases hx : isSeparator x with
      | true =>
          rw [pieces_cons_of_separator hx, hxs] at h
          obtain ⟨rfl, rfl⟩ := List.cons.inj h
          refine ⟨List.nil_prefix, List.forall_mem_cons.mpr ⟨?_, hlater⟩⟩
          exact hfirst.isInfix.trans (List.suffix_cons x xs).isInfix
      | false =>
          rw [pieces_cons_of_not_separator hx hxs] at h
          obtain ⟨rfl, rfl⟩ := List.cons.inj h
          exact ⟨(List.prefix_cons_inj x).mpr hfirst, hlater⟩

theorem isInfix_of_mem_pieces {xs piece : List α} (h : piece ∈ pieces isSeparator xs) :
    piece <:+: xs := by
  obtain ⟨first, rest, hxs⟩ := List.exists_cons_of_ne_nil (pieces_ne_nil xs)
  obtain ⟨hfirst, hrest⟩ := isInfix_of_pieces hxs
  rw [hxs] at h
  rcases List.mem_cons.mp h with rfl | hmem
  · exact hfirst.isInfix
  · exact hrest piece hmem

theorem pieces_append_cons {piece : List α} {x : α} (hpiece : ∀ y ∈ piece, isSeparator y = false)
    (hx : isSeparator x = true) (rest : List α) :
    pieces isSeparator (piece ++ x :: rest) = piece :: pieces isSeparator rest := by
  induction piece with
  | nil => exact pieces_cons_of_separator hx rest
  | cons y piece ih =>
      rw [List.forall_mem_cons] at hpiece
      exact pieces_cons_of_not_separator hpiece.1 (ih hpiece.2)

theorem forall_mem_intercalate {p : α → Prop} {separator : List α} {xss : List (List α)}
    (hseparator : ∀ x ∈ separator, p x) (hxss : ∀ xs ∈ xss, ∀ x ∈ xs, p x) :
    ∀ x ∈ separator.intercalate xss, p x := by
  induction xss with
  | nil => simp
  | cons xs xss ih =>
      rw [List.forall_mem_cons] at hxss
      cases xss with
      | nil => simpa using hxss.1
      | cons ys yss =>
          rw [List.intercalate_cons_cons, List.forall_mem_append, List.forall_mem_append]
          exact ⟨⟨hxss.1, hseparator⟩, ih hxss.2⟩

end Pieces

/-- A word of a line, as characters. -/
def IsWord (cs : List Char) : Prop :=
  cs ≠ [] ∧ ∀ c ∈ cs, isBlank c = false

theorem words_nil : words [] = [] := by
  rw [words]
  rfl

theorem words_cons_of_blank {c : Char} {cs : List Char} (hc : isBlank c = true) :
    words (c :: cs) = words cs := by
  rw [words, words, List.dropWhile_cons_of_pos hc]

/-- A run of characters that is not white space is taken off as a whole when white
space follows it, or nothing. -/
theorem words_append {w cs : List Char} (hw : IsWord w)
    (hcs : ∀ c ∈ cs.head?, isBlank c = true) :
    words (w ++ cs) = w :: words cs := by
  obtain ⟨hne, hnonblank⟩ := hw
  obtain ⟨c, w', rfl⟩ := List.exists_cons_of_ne_nil hne
  have hc : ¬isBlank c = true := by
    simp [hnonblank c List.mem_cons_self]
  have htail : ∀ d ∈ w', (!isBlank d) = true := by
    intro d hd
    simp [hnonblank d (List.mem_cons_of_mem c hd)]
  have hstop : cs.takeWhile (!isBlank ·) = [] ∧ cs.dropWhile (!isBlank ·) = cs := by
    cases cs with
    | nil => exact ⟨rfl, rfl⟩
    | cons d rest =>
        have hd : ¬(!isBlank d) = true := by simp [hcs d rfl]
        exact ⟨List.takeWhile_cons_of_neg hd, List.dropWhile_cons_of_neg hd⟩
  rw [words]
  split
  · next h => simp [hc] at h
  · next first rest h =>
    rw [List.cons_append, List.dropWhile_cons_of_neg hc] at h
    obtain ⟨rfl, rfl⟩ := List.cons.inj h
    rw [List.takeWhile_append_of_pos htail, List.dropWhile_append_of_pos htail,
      hstop.1, hstop.2, List.append_nil]

theorem words_append_of_blanks {blanks : List Char} (hblanks : ∀ c ∈ blanks, isBlank c = true)
    (cs : List Char) : words (blanks ++ cs) = words cs := by
  induction blanks with
  | nil => rfl
  | cons c blanks ih =>
      rw [List.forall_mem_cons] at hblanks
      rw [List.cons_append, words_cons_of_blank hblanks.1]
      exact ih hblanks.2

theorem words_of_blanks {blanks : List Char} (hblanks : ∀ c ∈ blanks, isBlank c = true) :
    words blanks = [] := by
  have hnone := words_append_of_blanks hblanks []
  rwa [List.append_nil, words_nil] at hnone

theorem words_of_dropWhile {cs rest : List Char} {c : Char}
    (h : cs.dropWhile isBlank = c :: rest) :
    words cs = (c :: rest.takeWhile (!isBlank ·)) :: words (rest.dropWhile (!isBlank ·)) := by
  rw [words]
  split
  · next hnil => simp [h] at hnil
  · next first others hcons =>
    obtain ⟨rfl, rfl⟩ := List.cons.inj (h.symm.trans hcons)
    rfl

theorem isWord_of_dropWhile {cs rest : List Char} {c : Char}
    (h : cs.dropWhile isBlank = c :: rest) : IsWord (c :: rest.takeWhile (!isBlank ·)) := by
  refine ⟨by simp, ?_⟩
  rw [List.forall_mem_cons]
  constructor
  · have hhead := List.head?_dropWhile_not isBlank cs
    simpa [h] using hhead
  · intro d hd
    simpa using List.mem_takeWhile_imp hd

theorem isWord_of_mem_words {cs w : List Char} (hw : w ∈ words cs) : IsWord w := by
  induction cs using words.induct with
  | case1 cs hblank =>
      rw [words_of_blanks (List.dropWhile_eq_nil_iff.mp hblank)] at hw
      contradiction
  | case2 cs c rest hrest ih =>
      rw [words_of_dropWhile hrest] at hw
      rcases List.mem_cons.mp hw with rfl | hw
      · exact isWord_of_dropWhile hrest
      · exact ih hw

/-- Words are not joined across white space: what follows the white space is divided
on its own. -/
theorem words_append_words (as : List Char) {cs : List Char}
    (hcs : ∀ c ∈ cs.head?, isBlank c = true) : words (as ++ cs) = words as ++ words cs := by
  induction as using words.induct with
  | case1 as hblank =>
      have hblanks : ∀ c ∈ as, isBlank c = true := List.dropWhile_eq_nil_iff.mp hblank
      rw [words_append_of_blanks hblanks, words_of_blanks hblanks, List.nil_append]
  | case2 as c rest hrest ih =>
      -- the first word is taken off on both sides; what is left of `as` is empty or
      -- starts with white space, so the word ends in the same place
      have hblanks : ∀ d ∈ as.takeWhile isBlank, isBlank d = true := by
        intro d hd
        exact List.mem_takeWhile_imp hd
      have hsplit : as = as.takeWhile isBlank ++
          ((c :: rest.takeWhile (!isBlank ·)) ++ rest.dropWhile (!isBlank ·)) := by
        rw [List.cons_append, List.takeWhile_append_dropWhile, ← hrest,
          List.takeWhile_append_dropWhile]
      have hword : IsWord (c :: rest.takeWhile (!isBlank ·)) := isWord_of_dropWhile hrest
      have hend : ∀ d ∈ (rest.dropWhile (!isBlank ·)).head?, isBlank d = true := by
        intro d hd
        have hhead := List.head?_dropWhile_not (!isBlank ·) rest
        rw [Option.mem_def.mp hd] at hhead
        simpa using hhead
      have hendAppend :
          ∀ d ∈ (rest.dropWhile (!isBlank ·) ++ cs).head?, isBlank d = true := by
        intro d hd
        cases htail : rest.dropWhile (!isBlank ·) with
        | nil => exact hcs d (by simpa [htail] using hd)
        | cons e tail => exact hend d (by simpa [htail] using hd)
      rw [hsplit, List.append_assoc, words_append_of_blanks hblanks,
        words_append_of_blanks hblanks, List.append_assoc, words_append hword hendAppend,
        words_append hword hend, ih, List.cons_append]

theorem words_eq_filter_pieces (cs : List Char) :
    words cs = (pieces isBlank cs).filter (!·.isEmpty) := by
  have hblanks {blanks : List Char} (h : ∀ c ∈ blanks, isBlank c = true) (rest : List Char) :
      (pieces isBlank (blanks ++ rest)).filter (!·.isEmpty) =
        (pieces isBlank rest).filter (!·.isEmpty) := by
    induction blanks with
    | nil => rfl
    | cons c blanks ih =>
        rw [List.forall_mem_cons] at h
        rw [List.cons_append, pieces_cons_of_separator h.1]
        exact ih h.2
  induction cs using words.induct with
  | case1 cs hblank =>
      have hall : ∀ c ∈ cs, isBlank c = true := List.dropWhile_eq_nil_iff.mp hblank
      have hnone := hblanks hall []
      rw [List.append_nil] at hnone
      rw [words_of_blanks hall, hnone]
      rfl
  | case2 cs c rest hrest ih =>
      obtain ⟨hne, hword⟩ := isWord_of_dropWhile hrest
      have hsplit : cs = cs.takeWhile isBlank ++
          ((c :: rest.takeWhile (!isBlank ·)) ++ rest.dropWhile (!isBlank ·)) := by
        rw [List.cons_append, List.takeWhile_append_dropWhile, ← hrest,
          List.takeWhile_append_dropWhile]
      have hfront : ∀ d ∈ cs.takeWhile isBlank, isBlank d = true := fun d hd =>
        List.mem_takeWhile_imp hd
      have hpieces := congrArg (fun cs => (pieces isBlank cs).filter (!·.isEmpty)) hsplit
      rw [words_of_dropWhile hrest, ih, hpieces.trans (hblanks hfront _)]
      -- the word is a piece of its own, whether it ends the text or white space follows it
      cases htail : rest.dropWhile (!isBlank ·) with
      | nil =>
          rw [List.append_nil, pieces_of_forall hword]
          rfl
      | cons d tail =>
          have hstop := List.head?_dropWhile_not (!isBlank ·) rest
          rw [htail] at hstop
          have hd : isBlank d = true := by simpa using hstop
          rw [pieces_append_cons hword hd, pieces_cons_of_separator hd]
          rfl

theorem words_intercalate {ws : List (List Char)} (hws : ∀ w ∈ ws, IsWord w) :
    words ([' '].intercalate ws) = ws := by
  induction ws with
  | nil => exact words_nil
  | cons w ws ih =>
      have hw : IsWord w := hws w List.mem_cons_self
      have hrest := ih fun u hu => hws u (List.mem_cons_of_mem w hu)
      cases ws with
      | nil =>
          have hword : words (w ++ []) = w :: words [] := words_append hw (by simp)
          rw [List.append_nil, words_nil] at hword
          rw [List.intercalate_singleton, hword]
      | cons u us =>
          rw [List.intercalate_cons_cons, List.append_assoc,
            words_append hw (by simp [isBlank]), List.singleton_append,
            words_cons_of_blank (by decide), hrest]

theorem pieces_map {α β : Type} {f : α → β} {isSeparator : β → Bool} (xs : List α) :
    pieces isSeparator (xs.map f) = (pieces (isSeparator ∘ f) xs).map (List.map f) := by
  induction xs with
  | nil => rfl
  | cons x xs ih =>
      have hne : pieces (isSeparator ∘ f) xs ≠ [] := pieces_ne_nil xs
      obtain ⟨piece, rest, hxs⟩ := List.exists_cons_of_ne_nil hne
      have hmap : pieces isSeparator (xs.map f) = piece.map f :: rest.map (List.map f) := by
        rw [ih, hxs, List.map_cons]
      cases hx : isSeparator (f x) with
      | true =>
          rw [List.map_cons, pieces_cons_of_separator hx, hmap,
            pieces_cons_of_separator (show (isSeparator ∘ f) x = true from hx), hxs]
          rfl
      | false =>
          rw [List.map_cons, pieces_cons_of_not_separator hx hmap,
            pieces_cons_of_not_separator (show (isSeparator ∘ f) x = false from hx) hxs]
          rfl

theorem words_ofString (line : String) :
    (Text.ofString line).words = (lineWords line).map Text.ofString := by
  have hblank : CodePoint.isBlank ∘ CodePoint.char = isBlank := rfl
  have hempty : (fun t : Text => !t.isEmpty) ∘ List.map CodePoint.char = (!·.isEmpty) := by
    funext cs
    cases cs <;> rfl
  have hchars : Text.ofString ∘ String.ofList = List.map CodePoint.char := by
    funext cs
    simp [Text.ofString]
  rw [Text.words, Text.ofString, pieces_map, hblank, List.filter_map, hempty, lineWords,
    words_eq_filter_pieces, List.map_map, hchars]

theorem isWord_of_mem_lineWords {line word : String} (h : word ∈ lineWords line) :
    IsWord word.toList := by
  obtain ⟨w, hw, rfl⟩ := List.mem_map.mp h
  rw [String.toList_ofList]
  exact isWord_of_mem_words hw

theorem lineWords_intercalate {ws : List String} (hws : ∀ w ∈ ws, IsWord w.toList) :
    lineWords (" ".intercalate ws) = ws := by
  have hchars : ∀ cs ∈ ws.map String.toList, IsWord cs := by
    simpa using hws
  rw [lineWords, String.toList_intercalate]
  change (words ([' '].intercalate (ws.map String.toList))).map String.ofList = ws
  rw [words_intercalate hchars, List.map_map]
  simp [Function.comp_def]

theorem lineWords_append {a b gap : String} (hgap : gap ≠ "")
    (hblanks : ∀ c ∈ gap.toList, isBlank c = true) :
    lineWords (a ++ gap ++ b) = lineWords a ++ lineWords b := by
  have hhead : ∀ c ∈ (gap.toList ++ b.toList).head?, isBlank c = true := by
    intro c hc
    obtain ⟨first, rest, hchars⟩ := List.exists_cons_of_ne_nil (show gap.toList ≠ [] by simpa)
    have hfirst : first = c := by simpa [hchars] using hc
    exact hblanks c (by simp [hchars, hfirst])
  simp only [lineWords, String.toList_append, List.append_assoc]
  rw [words_append_words a.toList hhead, words_append_of_blanks hblanks, List.map_append]

theorem trimBy_eq_nil_iff {α : Type} {drop : α → Bool} {xs : List α} :
    trimBy drop xs = [] ↔ ∀ x ∈ xs, drop x = true := by
  constructor
  · intro htrim
    rw [trimBy, List.reverse_eq_nil_iff, List.dropWhile_eq_nil_iff] at htrim
    have hfront : xs.dropWhile drop = [] := by
      by_contra hne
      have hhead := List.head_dropWhile_not drop hne
      have hdrop := htrim _ (List.mem_reverse.mpr (List.head_mem hne))
      rw [hdrop] at hhead
      contradiction
    exact List.dropWhile_eq_nil_iff.mp hfront
  · intro hxs
    rw [trimBy, List.dropWhile_eq_nil_iff.mpr hxs]
    rfl

theorem trimBy_of_forall {α : Type} {drop : α → Bool} {xs : List α}
    (hxs : ∀ x ∈ xs, drop x = false) : trimBy drop xs = xs := by
  have hstop {ys : List α} (hys : ∀ y ∈ ys, drop y = false) : ys.dropWhile drop = ys := by
    cases ys with
    | nil => rfl
    | cons y ys => exact List.dropWhile_cons_of_neg (by simp [hys y List.mem_cons_self])
  rw [trimBy, hstop hxs, hstop (by simpa using hxs), List.reverse_reverse]

/-- What is trimmed away stood at the two ends. -/
theorem exists_eq_append_trimBy {α : Type} (drop : α → Bool) (xs : List α) :
    ∃ front back, xs = front ++ (trimBy drop xs ++ back) ∧
      (∀ x ∈ front, drop x = true) ∧ ∀ x ∈ back, drop x = true := by
  refine ⟨xs.takeWhile drop, ((xs.dropWhile drop).reverse.takeWhile drop).reverse, ?_, ?_, ?_⟩
  · rw [trimBy, ← List.reverse_append, List.takeWhile_append_dropWhile, List.reverse_reverse,
      List.takeWhile_append_dropWhile]
  · intro x hx
    exact List.mem_takeWhile_imp hx
  · intro x hx
    exact List.mem_takeWhile_imp (List.mem_reverse.mp hx)

theorem words_trimBy (cs : List Char) : words (trimBy isBlank cs) = words cs := by
  obtain ⟨front, back, hcs, hfront, hback⟩ := exists_eq_append_trimBy isBlank cs
  have hhead : ∀ c ∈ back.head?, isBlank c = true := by
    intro c hc
    exact hback c (List.mem_of_head? hc)
  calc words (trimBy isBlank cs)
      = words (trimBy isBlank cs ++ back) := by
        rw [words_append_words _ hhead, words_of_blanks hback, List.append_nil]
    _ = words (front ++ (trimBy isBlank cs ++ back)) := (words_append_of_blanks hfront _).symm
    _ = words cs := congrArg words hcs.symm

theorem lineWords_trim (line : String) : lineWords (trim line) = lineWords line := by
  rw [lineWords, trim, String.toList_ofList, words_trimBy, lineWords]

end PostfixCalc
