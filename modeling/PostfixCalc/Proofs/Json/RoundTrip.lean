import Mathlib.Data.List.Nodup
import PostfixCalc.Proofs.Json.Escape

/-!
# Values that are written are read back

This is shown for values without numbers, which are all that the service exchanges.
What is written for a value is read as that value, with everything after it left over,
by induction on the depth to which values nest; lists of items and fields are read by
induction along the list.  Names of fields have to be distinct, since the reader keeps
one field for each name.
-/

namespace PostfixCalc

namespace Assoc

variable {κ α : Type} [DecidableEq κ]

theorem insert_of_not_mem {key : κ} (a : α) {pairs : List (κ × α)}
    (hkey : key ∉ pairs.map Prod.fst) : insert key a pairs = pairs ++ [(key, a)] := by
  induction pairs with
  | nil => rfl
  | cons pair pairs ih =>
      obtain ⟨k, b⟩ := pair
      rw [List.map_cons, List.mem_cons, not_or] at hkey
      rw [insert, if_neg (Ne.symm hkey.1), ih hkey.2, List.cons_append]

theorem foldl_insert_of_nodup {before pairs : List (κ × α)}
    (hkeys : ((before ++ pairs).map Prod.fst).Nodup) :
    pairs.foldl (fun acc pair => insert pair.1 pair.2 acc) before = before ++ pairs := by
  induction pairs generalizing before with
  | nil => simp
  | cons pair pairs ih =>
      have hfresh : pair.1 ∉ before.map Prod.fst := by
        rw [List.map_append, List.map_cons] at hkeys
        intro hmem
        exact List.disjoint_of_nodup_append hkeys hmem List.mem_cons_self
      have hnext : before ++ pair :: pairs = (before ++ [pair]) ++ pairs := by simp
      rw [List.foldl_cons, insert_of_not_mem _ hfresh, ih (hnext ▸ hkeys), ← hnext]

theorem ofPairs_of_nodup {pairs : List (κ × α)} (hkeys : (pairs.map Prod.fst).Nodup) :
    ofPairs pairs = pairs := by
  have hall : (([] ++ pairs).map Prod.fst).Nodup := hkeys
  exact foldl_insert_of_nodup hall

end Assoc

namespace Json

/-- Truth values, texts, and arrays and objects of such values that nest at most to the
given depth.  The fields of an object have distinct names, and texts and names hold no pairs
of surrogates. -/
def IsTextual : Nat → Json → Prop
  | _, truth _ => True
  | _, text t => t.IsJoined
  | depth + 1, array items => ∀ item ∈ items, IsTextual depth item
  | depth + 1, object fields =>
    (fields.map Prod.fst).Nodup ∧
      ∀ field ∈ fields, field.1.IsJoined ∧ IsTextual depth field.2
  | _, _ => False

theorem skipSpace_cons {c : Char} (hc : isSpace c = false) (cs : List Char) :
    skipSpace (c :: cs) = c :: cs :=
  List.dropWhile_cons_of_neg (by simp [hc])

theorem skipSpace_space (cs : List Char) : skipSpace (' ' :: cs) = skipSpace cs :=
  List.dropWhile_cons_of_pos (by decide)

theorem skipSpace_of_forall {cs : List Char} (hcs : ∀ c ∈ cs, isSpace c = true) :
    skipSpace cs = [] := by
  induction cs with
  | nil => rfl
  | cons c cs ih =>
      rw [List.forall_mem_cons] at hcs
      exact (List.dropWhile_cons_of_pos hcs.1).trans (ih hcs.2)

/-- Characters with which the written form of a textual value begins. -/
def starts : List Char := ['t', 'f', '"', '[', '\x7b']

theorem starts_spec :
    ∀ c ∈ starts, isSpace c = false ∧ c ≠ ']' ∧ c ≠ '\x7d' ∧ c ≠ '\ufeff' := by
  simp [starts, isSpace]

theorem exists_chars_eq_cons {depth : Nat} {j : Json} (hj : IsTextual depth j) :
    ∃ c tail, j.chars = c :: tail ∧ c ∈ starts := by
  cases j with
  | truth b =>
      cases b with
      | true => exact ⟨'t', _, rfl, by decide⟩
      | false => exact ⟨'f', _, rfl, by decide⟩
  | text s => exact ⟨'"', _, rfl, by decide⟩
  | array items => exact ⟨'[', _, rfl, by decide⟩
  | object fields => exact ⟨'\x7b', _, rfl, by decide⟩
  | null => cases depth <;> exact False.elim hj
  | integer n => cases depth <;> exact False.elim hj
  | number x => cases depth <;> exact False.elim hj

/-! ## Items and fields -/

/-- A reader takes exactly what is written for the value. -/
structure ReadsBack (value : Reader Json) (j : Json) : Prop where
  start : ∃ c tail, j.chars = c :: tail ∧ c ∈ starts
  read : ∀ rest, value (j.chars ++ rest) = .ok (j, rest)

/-- White space before a written value is passed over, and no more. -/
theorem ReadsBack.skipSpace_chars {value : Reader Json} {j : Json} (h : ReadsBack value j)
    (rest : List Char) : skipSpace (j.chars ++ rest) = j.chars ++ rest := by
  obtain ⟨c, tail, hchars, hc⟩ := h.start
  rw [hchars, List.cons_append, skipSpace_cons (starts_spec c hc).1]

variable {value : Reader Json}

theorem itemChars_cons_cons (item next : Json) (items : List Json) :
    itemChars (item :: next :: items) =
      item.chars ++ ',' :: ' ' :: itemChars (next :: items) := by
  rw [itemChars]
  simp

theorem fieldChars_cons_cons (field next : Text × Json) (fields : List (Text × Json)) :
    fieldChars (field :: next :: fields) =
      textChars field.1 ++ ':' :: ' ' :: (field.2.chars ++ ',' :: ' ' ::
        fieldChars (next :: fields)) := by
  rw [fieldChars]
  simp

theorem exists_itemChars_eq_cons {items : List Json} (hne : items ≠ [])
    (h : ∀ item ∈ items, ReadsBack value item) :
    ∃ c tail, itemChars items = c :: tail ∧ c ∈ starts := by
  obtain ⟨item, rest, rfl⟩ := List.exists_cons_of_ne_nil hne
  obtain ⟨c, tail, hchars, hc⟩ := (h item List.mem_cons_self).start
  cases rest with
  | nil => exact ⟨c, tail, by rw [itemChars, hchars], hc⟩
  | cons next items =>
      refine ⟨c, tail ++ ',' :: ' ' :: itemChars (next :: items), ?_, hc⟩
      rw [itemChars_cons_cons, hchars, List.cons_append]

theorem exists_fieldChars_eq_cons {fields : List (Text × Json)} (hne : fields ≠ []) :
    ∃ tail, fieldChars fields = '"' :: tail := by
  obtain ⟨field, rest, rfl⟩ := List.exists_cons_of_ne_nil hne
  cases rest with
  | nil =>
      obtain ⟨name, j⟩ := field
      exact ⟨_, rfl⟩
  | cons next fields =>
      rw [fieldChars_cons_cons]
      exact ⟨_, rfl⟩

theorem length_le_length_itemChars {items : List Json}
    (h : ∀ item ∈ items, ReadsBack value item) : items.length ≤ (itemChars items).length := by
  induction items with
  | nil => simp
  | cons item items ih =>
      rw [List.forall_mem_cons] at h
      obtain ⟨c, tail, hchars, -⟩ := h.1.start
      have hrest := ih h.2
      cases items with
      | nil => simp [itemChars, hchars]
      | cons next items =>
          rw [itemChars_cons_cons]
          simp only [List.length_append, List.length_cons] at hrest ⊢
          omega

theorem length_le_length_fieldChars (fields : List (Text × Json)) :
    fields.length ≤ (fieldChars fields).length := by
  induction fields with
  | nil => simp
  | cons field fields ih =>
      cases fields with
      | nil =>
          obtain ⟨name, j⟩ := field
          simp only [fieldChars, List.length_append, List.length_cons, List.length_nil]
          omega
      | cons next fields =>
          rw [fieldChars_cons_cons]
          simp only [List.length_append, List.length_cons] at ih ⊢
          omega

theorem readItems_itemChars {items : List Json} (hne : items ≠ [])
    (h : ∀ item ∈ items, ReadsBack value item) {rounds : Nat} (hrounds : items.length ≤ rounds)
    (rest : List Char) :
    readItems value rounds (itemChars items ++ ']' :: rest) = .ok (items, rest) := by
  induction items generalizing rounds with
  | nil => contradiction
  | cons item items ih =>
      obtain ⟨rounds, rfl⟩ := Nat.exists_eq_succ_of_ne_zero (Nat.ne_of_gt
        (Nat.lt_of_lt_of_le (Nat.succ_pos items.length) hrounds))
      have hitem := h item List.mem_cons_self
      have hitems : ∀ item ∈ items, ReadsBack value item := fun j hj =>
        h j (List.mem_cons_of_mem item hj)
      cases items with
      | nil =>
          rw [itemChars, readItems, hitem.read]
          simp only [skipSpace_cons (show isSpace ']' = false by decide), if_true]
      | cons next items =>
          have hrest := ih (List.cons_ne_nil next items) hitems (Nat.le_of_succ_le_succ hrounds)
          obtain ⟨c, tail, hchars, hc⟩ :=
            exists_itemChars_eq_cons (List.cons_ne_nil next items) hitems
          have hskip : skipSpace (' ' :: (itemChars (next :: items) ++ ']' :: rest)) =
              itemChars (next :: items) ++ ']' :: rest := by
            rw [skipSpace_space, hchars, List.cons_append, skipSpace_cons (starts_spec c hc).1]
          rw [itemChars_cons_cons, List.append_assoc, readItems, hitem.read]
          simp only [List.cons_append, skipSpace_cons (show isSpace ',' = false by decide),
            if_neg (show ',' ≠ ']' by decide), if_true, hskip, hrest]

theorem readFields_fieldChars {fields : List (Text × Json)} (hne : fields ≠ [])
    (h : ∀ field ∈ fields, field.1.IsJoined ∧ ReadsBack value field.2) {rounds : Nat}
    (hrounds : fields.length ≤ rounds) (rest : List Char) :
    readFields value rounds (fieldChars fields ++ '\x7d' :: rest) = .ok (fields, rest) := by
  induction fields generalizing rounds with
  | nil => contradiction
  | cons field fields ih =>
      obtain ⟨rounds, rfl⟩ := Nat.exists_eq_succ_of_ne_zero (Nat.ne_of_gt
        (Nat.lt_of_lt_of_le (Nat.succ_pos fields.length) hrounds))
      obtain ⟨name, j⟩ := field
      obtain ⟨hname, hfield⟩ : name.IsJoined ∧ ReadsBack value j := h (name, j) List.mem_cons_self
      have hfields : ∀ field ∈ fields, field.1.IsJoined ∧ ReadsBack value field.2 :=
        fun field hmem =>
        h field (List.mem_cons_of_mem (name, j) hmem)
      have hhead (after : List Char) : (textChars name ++ after).head? = some '"' := rfl
      have hcolon : isSpace ':' = false := by decide
      cases fields with
      | nil =>
          have hbrace : isSpace '\x7d' = false := by decide
          rw [fieldChars, List.append_assoc, readFields, hhead, readText_textChars hname]
          simp only [List.cons_append, skipSpace_cons hcolon, skipSpace_space,
            hfield.skipSpace_chars, hfield.read, skipSpace_cons hbrace, ne_eq, not_true_eq_false,
            if_true, if_false]
      | cons next fields =>
          have hcomma : isSpace ',' = false := by decide
          have hne : ',' ≠ '\x7d' := by decide
          have hrest := ih (List.cons_ne_nil next fields) hfields (Nat.le_of_succ_le_succ hrounds)
          obtain ⟨tail, hchars⟩ := exists_fieldChars_eq_cons (List.cons_ne_nil next fields)
          have hskip : skipSpace (fieldChars (next :: fields) ++ '\x7d' :: rest) =
              fieldChars (next :: fields) ++ '\x7d' :: rest := by
            rw [hchars, List.cons_append, skipSpace_cons (by decide)]
          rw [fieldChars_cons_cons, List.append_assoc, readFields, hhead, readText_textChars hname]
          simp only [List.cons_append, List.append_assoc, skipSpace_cons hcolon, skipSpace_space,
            hfield.skipSpace_chars, hfield.read, skipSpace_cons hcomma, if_neg hne, hskip, hrest,
            ne_eq, not_true_eq_false, if_true, if_false]

/-! ## Values -/

theorem readArray_itemChars {items : List Json} (h : ∀ item ∈ items, ReadsBack value item)
    (rest : List Char) :
    readArray value (itemChars items ++ ']' :: rest) = .ok (array items, rest) := by
  by_cases hne : items = []
  · subst hne
    rw [itemChars, List.nil_append, readArray, skipSpace_cons (by decide)]
    rfl
  · obtain ⟨c, tail, hchars, hc⟩ := exists_itemChars_eq_cons hne h
    obtain ⟨hspace, hclose, -⟩ := starts_spec c hc
    have hskip : skipSpace (itemChars items ++ ']' :: rest) = itemChars items ++ ']' :: rest := by
      rw [hchars, List.cons_append, skipSpace_cons hspace]
    have hlength := length_le_length_itemChars h
    unfold readArray
    rw [hskip]
    split
    · next after heq =>
      rw [hchars, List.cons_append] at heq
      exact absurd (List.cons.inj heq).1 hclose
    · rw [readItems_itemChars hne h (by simp only [List.length_append]; omega)]

theorem readObject_fieldChars {fields : List (Text × Json)}
    (hnames : (fields.map Prod.fst).Nodup)
    (h : ∀ field ∈ fields, field.1.IsJoined ∧ ReadsBack value field.2)
    (rest : List Char) :
    readObject value (fieldChars fields ++ '\x7d' :: rest) = .ok (object fields, rest) := by
  by_cases hne : fields = []
  · subst hne
    rw [fieldChars, List.nil_append, readObject, skipSpace_cons (by decide)]
    rfl
  · obtain ⟨tail, hchars⟩ := exists_fieldChars_eq_cons hne
    have hskip : skipSpace (fieldChars fields ++ '\x7d' :: rest) =
        fieldChars fields ++ '\x7d' :: rest := by
      rw [hchars, List.cons_append, skipSpace_cons (by decide)]
    have hlength := length_le_length_fieldChars fields
    unfold readObject
    rw [hskip]
    split
    · next after heq =>
      rw [hchars, List.cons_append] at heq
      exact absurd (List.cons.inj heq).1 (by decide)
    · rw [readFields_fieldChars hne h (by simp only [List.length_append]; omega)]
      simp only [ofFields, Assoc.ofPairs_of_nodup hnames]

theorem readValueWith_truth (depth : Nat) (array object : Reader Json) (b : Bool)
    (rest : List Char) :
    readValueWith depth array object ((truth b).chars ++ rest) = .ok (truth b, rest) := by
  cases b with
  | true => rfl
  | false => rfl

theorem within_of_ok {α : Type} {reader : Reader α} {cs : List Char} {result : α × List Char}
    (h : reader cs = .ok result) (depth : Nat) : reader.within depth cs = .ok result := by
  rw [Reader.within, h]

theorem readValueWith_text (depth : Nat) (array object : Reader Json) {t : Text}
    (ht : t.IsJoined) (rest : List Char) :
    readValueWith depth array object ((text t).chars ++ rest) = .ok (text t, rest) := by
  have hread := within_of_ok (readText_textChars ht rest) depth
  rw [chars]
  rw [textChars, List.cons_append] at hread ⊢
  simp only [readValueWith, if_true, hread]

theorem readsBack_readValue {depth : Nat} {j : Json} (hj : IsTextual depth j) :
    ReadsBack (readValue depth) j := by
  refine ⟨exists_chars_eq_cons hj, ?_⟩
  intro rest
  induction depth generalizing j rest with
  | zero =>
      cases j with
      | truth b => exact readValueWith_truth _ _ _ b rest
      | text t => exact readValueWith_text _ _ _ hj rest
      | _ => exact False.elim hj
  | succ depth ih =>
      cases j with
      | truth b => exact readValueWith_truth _ _ _ b rest
      | text t => exact readValueWith_text _ _ _ hj rest
      | array items =>
          have hitems : ∀ item ∈ items, ReadsBack (readValue depth) item := fun item hitem =>
            ⟨exists_chars_eq_cons (hj item hitem), fun rest => ih (hj item hitem) rest⟩
          have hread := within_of_ok (readArray_itemChars hitems rest) depth
          rw [chars, readValue, List.cons_append, List.append_assoc]
          exact hread
      | object fields =>
          obtain ⟨hnames, hfields⟩ := hj
          have hfields : ∀ field ∈ fields,
              field.1.IsJoined ∧ ReadsBack (readValue depth) field.2 :=
            fun field hfield => ⟨(hfields field hfield).1,
              exists_chars_eq_cons (hfields field hfield).2,
              fun rest => ih (hfields field hfield).2 rest⟩
          have hread := within_of_ok (readObject_fieldChars hnames hfields rest) depth
          rw [chars, readValue, List.cons_append, List.append_assoc]
          exact hread
      | _ => exact False.elim hj

/-- A text that is written for a value, with white space after it, spells this value. -/
theorem read_chars {j : Json} (hj : IsTextual nestingLimit j) {blanks : List Char}
    (hblanks : ∀ c ∈ blanks, isSpace c = true) : read (j.chars ++ blanks) = .ok j := by
  have hvalue := readsBack_readValue hj
  obtain ⟨c, tail, hchars, hc⟩ := hvalue.start
  have hmark : (j.chars ++ blanks).head? ≠ some '\ufeff' := by
    rw [hchars, List.cons_append, List.head?_cons]
    exact fun heq => (starts_spec c hc).2.2.2 (Option.some.inj heq)
  rw [read, readWhole, if_neg hmark, hvalue.skipSpace_chars, hvalue.read]
  simp only [skipSpace_of_forall hblanks]

theorem isPlain_itemChars {items : List Json} (h : ∀ item ∈ items, ∀ c ∈ item.chars, IsPlain c) :
    ∀ c ∈ itemChars items, IsPlain c := by
  induction items with
  | nil => simp [itemChars]
  | cons item items ih =>
      rw [List.forall_mem_cons] at h
      cases items with
      | nil =>
          rw [itemChars]
          exact h.1
      | cons next items =>
          rw [itemChars_cons_cons, List.forall_mem_append, List.forall_mem_cons,
            List.forall_mem_cons]
          exact ⟨h.1, by decide, by decide, ih h.2⟩

theorem isPlain_fieldChars {fields : List (Text × Json)}
    (h : ∀ field ∈ fields, ∀ c ∈ field.2.chars, IsPlain c) :
    ∀ c ∈ fieldChars fields, IsPlain c := by
  induction fields with
  | nil => simp [fieldChars]
  | cons field fields ih =>
      rw [List.forall_mem_cons] at h
      have hname := isPlain_textChars field.1
      cases fields with
      | nil =>
          obtain ⟨name, j⟩ := field
          rw [fieldChars, List.forall_mem_append, List.forall_mem_cons, List.forall_mem_cons]
          exact ⟨hname, by decide, by decide, h.1⟩
      | cons next fields =>
          rw [fieldChars_cons_cons, List.forall_mem_append, List.forall_mem_cons,
            List.forall_mem_cons, List.forall_mem_append, List.forall_mem_cons,
            List.forall_mem_cons]
          exact ⟨hname, by decide, by decide, h.1, by decide, by decide, ih h.2⟩

theorem isPlain_chars {depth : Nat} {j : Json} (hj : IsTextual depth j) :
    ∀ c ∈ j.chars, IsPlain c := by
  induction depth generalizing j with
  | zero =>
      cases j with
      | truth b =>
          cases b with
          | true => simp [chars, IsPlain]
          | false => simp [chars, IsPlain]
      | text s => exact isPlain_textChars s
      | _ => exact False.elim hj
  | succ depth ih =>
      cases j with
      | truth b =>
          cases b with
          | true => simp [chars, IsPlain]
          | false => simp [chars, IsPlain]
      | text s => exact isPlain_textChars s
      | array items =>
          rw [chars, List.forall_mem_cons, List.forall_mem_append]
          exact ⟨by decide, isPlain_itemChars fun item hitem => ih (hj item hitem),
            List.forall_mem_singleton.mpr (by decide)⟩
      | object fields =>
          rw [chars, List.forall_mem_cons, List.forall_mem_append]
          exact ⟨by decide, isPlain_fieldChars fun field hfield => ih (hj.2 field hfield).2,
            List.forall_mem_singleton.mpr (by decide)⟩
      | _ => exact False.elim hj

end Json
end PostfixCalc
