import PostfixCalc.Display
import PostfixCalc.Proofs.Display.Rows
import PostfixCalc.Proofs.Function.Text

/-!
# Colours only add escape sequences

A text that is painted is put between an escape sequence that opens the colour and one that
closes it.  Deleting the sequences gives the text back, unless the text itself starts
or completes one, which it cannot do without an escape character.  Values, labels and
numerals have none; keys and names must not have any.
-/

namespace PostfixCalc
namespace Display

/-- One or more digits. -/
def IsCode (cs : List Char) : Prop :=
  cs ≠ [] ∧ ∀ c ∈ cs, '0' ≤ c ∧ c ≤ '9'

theorem afterCode?_append {digits : List Char} (hdigits : ∀ c ∈ digits, '0' ≤ c ∧ c ≤ '9')
    {digitSeen : Bool} (hseen : digits ≠ [] ∨ digitSeen = true) (rest : List Char) :
    afterCode? digitSeen (digits ++ 'm' :: rest) = some rest := by
  induction digits generalizing digitSeen with
  | nil =>
      have hend : ¬('0' ≤ 'm' ∧ 'm' ≤ '9') := by decide
      have hseen : digitSeen = true := by simpa using hseen
      rw [List.nil_append, afterCode?, if_neg hend, if_pos ⟨rfl, hseen⟩]
  | cons c digits ih =>
      rw [List.forall_mem_cons] at hdigits
      rw [List.cons_append, afterCode?, if_pos hdigits.1]
      exact ih hdigits.2 (Or.inr rfl)

theorem afterColour?_escape {code : String} (hcode : IsCode code.toList) (rest : List Char) :
    afterColour? ((escape code).toList ++ rest) = some rest := by
  have hchars : (escape code).toList ++ rest = '\x1b' :: '[' :: (code.toList ++ 'm' :: rest) := by
    simp [escape]
  rw [hchars, afterColour?]
  exact afterCode?_append hcode.2 (Or.inl hcode.1) rest

theorem afterColour?_cons_of_ne {c : Char} (hc : c ≠ '\x1b') (cs : List Char) :
    afterColour? (c :: cs) = none := by
  unfold afterColour?
  split
  · next h => simp_all
  · rfl

theorem plain_nil : plain [] = [] := by
  rw [plain]
  rfl

theorem sequences_nil : sequences [] = [] := by
  rw [sequences]
  rfl

/-- A text begins with some characters, of which `bare` is left over when the colour sequences
`found` are deleted.  This is said with any rest behind them, so that such beginnings can be
put together. -/
structure Scans (begins bare : List Char) (found : List (List Char)) : Prop where
  plain : ∀ rest, plain (begins ++ rest) = bare ++ plain rest
  sequences : ∀ rest, sequences (begins ++ rest) = found ++ sequences rest

namespace Scans

theorem escape {code : String} (hcode : IsCode code.toList) :
    Scans (escape code).toList [] [(escape code).toList] := by
  constructor
  · intro rest
    have hafter := afterColour?_escape hcode rest
    rw [Display.plain]
    split
    · next h =>
      obtain rfl := Option.some.inj (hafter.symm.trans h)
      rfl
    · next hnone => simp [hafter] at hnone
  · intro rest
    have hafter := afterColour?_escape hcode rest
    rw [Display.sequences]
    split
    · next h =>
      obtain rfl := Option.some.inj (hafter.symm.trans h)
      dsimp only
      rw [List.length_append, Nat.add_sub_cancel, List.take_left]
      rfl
    · next hnone => simp [hafter] at hnone

theorem singleton {c : Char} (hc : c ≠ '\x1b') : Scans [c] [c] [] := by
  constructor
  · intro rest
    have hnone := afterColour?_cons_of_ne hc rest
    rw [List.singleton_append, Display.plain]
    split
    · next h => simp [hnone] at h
    · rfl
  · intro rest
    have hnone := afterColour?_cons_of_ne hc rest
    rw [List.singleton_append, Display.sequences]
    split
    · next h => simp [hnone] at h
    · rfl

variable {begins begins' bare bare' : List Char} {found found' : List (List Char)}

theorem append (h : Scans begins bare found) (h' : Scans begins' bare' found') :
    Scans (begins ++ begins') (bare ++ bare') (found ++ found') where
  plain rest := by
    rw [List.append_assoc, h.plain, h'.plain, List.append_assoc]
  sequences rest := by
    rw [List.append_assoc, h.sequences, h'.sequences, List.append_assoc]

theorem of_not_mem {cs : List Char} (h : '\x1b' ∉ cs) : Scans cs cs [] := by
  induction cs with
  | nil => exact ⟨fun _ => rfl, fun _ => rfl⟩
  | cons c cs ih =>
      obtain ⟨hc, hcs⟩ := not_or.mp (mt List.mem_cons.mpr h)
      exact (singleton (Ne.symm hc)).append (ih hcs)

end Scans

/-- Colours by turns with resets. -/
def turns (colours : List Colour) : List (List Char) :=
  colours.flatMap fun c => [(escape c.code).toList, reset.toList]

theorem turns_append (colours colours' : List Colour) :
    turns (colours ++ colours') = turns colours ++ turns colours' := List.flatMap_append

/-- Without its colour sequences a coloured text is another one, and the sequences open and
close these colours, one after the other. -/
def Shows (coloured bare : String) (colours : List Colour) : Prop :=
  Scans coloured.toList bare.toList (turns colours)

theorem isCode_code (c : Colour) : IsCode c.code.toList := by
  cases c with
  | ofType t => cases t <;> simp [IsCode, Colour.code]
  | function | depth => simp [IsCode, Colour.code]

theorem isCode_reset : IsCode "0".toList := by
  simp [IsCode]

namespace Shows

variable {coloured coloured' bare bare' : String} {colours colours' : List Colour}

theorem of_not_mem {text : String} (h : '\x1b' ∉ text.toList) : Shows text text [] :=
  Scans.of_not_mem h

theorem append (h : Shows coloured bare colours) (h' : Shows coloured' bare' colours') :
    Shows (coloured ++ coloured') (bare ++ bare') (colours ++ colours') := by
  unfold Shows
  rw [String.toList_append, String.toList_append, turns_append]
  exact Scans.append h h'

/-- A text that is painted is covered by its colour. -/
theorem paint (c : Colour) {text : String} (h : '\x1b' ∉ text.toList) :
    Shows (paint true c text) text [c] := by
  have hopened := (Scans.escape (isCode_code c)).append (Scans.of_not_mem h)
  have hclosed := hopened.append (Scans.escape isCode_reset)
  rw [List.nil_append, List.append_nil] at hclosed
  unfold Shows
  rw [Display.paint, if_pos rfl, String.toList_append, String.toList_append]
  exact hclosed

end Shows

/-- Coloured texts, one after the other, with the colours of all of them. -/
inductive ShowsAll : List String → List String → List Colour → Prop where
  | nil : ShowsAll [] [] []
  | cons {coloured bare : String} {colours : List Colour} {rest rest' : List String}
      {restColours : List Colour} :
      Shows coloured bare colours → ShowsAll rest rest' restColours →
      ShowsAll (coloured :: rest) (bare :: rest') (colours ++ restColours)

namespace ShowsAll

theorem map {α : Type} {coloured bare : α → String} {colours : α → List Colour} (xs : List α)
    (h : ∀ x ∈ xs, Shows (coloured x) (bare x) (colours x)) :
    ShowsAll (xs.map coloured) (xs.map bare) (xs.flatMap colours) := by
  induction xs with
  | nil => exact .nil
  | cons x xs ih =>
      rw [List.forall_mem_cons] at h
      rw [List.map_cons, List.map_cons, List.flatMap_cons]
      exact .cons h.1 (ih h.2)

theorem intercalate {separator : String} (hseparator : '\x1b' ∉ separator.toList)
    {texts texts' : List String} {colours : List Colour} (h : ShowsAll texts texts' colours) :
    Shows (separator.intercalate texts) (separator.intercalate texts') colours := by
  induction h with
  | nil => exact .of_not_mem (by simp)
  | cons hfirst hrest ih =>
      cases hrest with
      | nil => simpa using hfirst
      | cons hsecond hrest =>
          rw [String.intercalate_cons_cons, String.intercalate_cons_cons]
          have hjoined := (hfirst.append (.of_not_mem hseparator)).append ih
          rwa [List.append_nil] at hjoined

end ShowsAll

/-! ## Listings -/

theorem escape_not_mem_of_isNumeralChar {cs : List Char}
    (h : ∀ c ∈ cs, Grammar.IsNumeralChar c ∨ c ∈ nonfiniteLetters) : '\x1b' ∉ cs := by
  intro hmem
  have hnot : ¬(Grammar.IsNumeralChar '\x1b' ∨ '\x1b' ∈ nonfiniteLetters) := by
    unfold Grammar.IsNumeralChar
    decide
  exact hnot (h _ hmem)

theorem escape_not_mem_label (t : Ty) : '\x1b' ∉ t.label.toList := by
  cases t <;> decide

theorem escape_not_mem_pad {text : String} (h : '\x1b' ∉ text.toList) (width : ℕ) :
    '\x1b' ∉ (padLeft width text).toList ∧ '\x1b' ∉ (padRight width text).toList := by
  simp [padLeft, padRight, h]

theorem escape_not_mem_text {f : Function} (h : '\x1b' ∉ f.name.toList) :
    '\x1b' ∉ f.text.toList := by
  have hsignature : '\x1b' ∉ f.signature.text.toList := by
    intro hmem
    have hnot : '\x1b' ∉ Signature.alphabet := by decide
    exact hnot (f.signature.toList_text_subset hmem)
  simp [Function.text, h, hsignature]

theorem shows_value (v : Value) : Shows (value true v) (value false v) [.ofType v.type] :=
  .paint _ (escape_not_mem_of_isNumeralChar v.isNumeralChar_or_mem)

theorem shows_stack (s : Stack) :
    Shows (stack true s) (stack false s) (s.toList.map fun v => .ofType v.type) := by
  rw [List.map_eq_flatMap]
  exact (ShowsAll.map _ fun v _ => shows_value v).intercalate (by decide)

/-- The colours of the legend. -/
def legendColours : List Colour := [Ty.i32, Ty.f32, Ty.f64].map .ofType

theorem shows_legend : Shows (legend true) (legend false) legendColours := by
  have hlabels := ShowsAll.map [Ty.i32, Ty.f32, Ty.f64] fun t _ =>
    Shows.paint (.ofType t) (escape_not_mem_label t)
  exact (Shows.of_not_mem (by decide)).append (hlabels.intercalate (by decide))

theorem shows_row (width depth : ℕ) (v : Value) :
    Shows (row true width depth v) (row false width depth v) [.depth, .ofType v.type] := by
  have hnumeral := escape_not_mem_of_isNumeralChar fun c hc =>
    Or.inl (isNumeralChar_natText depth c hc)
  have hdepth := Shows.paint .depth (escape_not_mem_pad hnumeral width).1
  have hlabel := Shows.of_not_mem (escape_not_mem_label v.type)
  have hgap : Shows "  " "  " [] := .of_not_mem (by decide)
  exact (((hdepth.append hgap).append hlabel).append hgap).append (shows_value v)

theorem shows_rows (s : Stack) :
    ShowsAll (rows true s) (rows false s)
      (s.fromTop.flatMap fun v => [.depth, .ofType v.type]) := by
  have hrows := ShowsAll.map s.fromTop.zipIdx fun entry _ =>
    shows_row (depthWidth s) entry.2 entry.1
  rw [← List.flatMap_map Prod.fst fun v : Value => [Colour.depth, .ofType v.type],
    List.zipIdx_map_fst] at hrows
  rw [rows, rows, List.mapIdx_eq_zipIdx_map, List.mapIdx_eq_zipIdx_map]
  exact hrows

/-- The colours of a stack in rows: those of the legend, and in each row that of the depth and
that of the value.  Without rows there is no legend. -/
def rowColours (s : Stack) : List Colour :=
  if s.height = 0 then []
  else legendColours ++ s.fromTop.flatMap fun v => [.depth, .ofType v.type]

theorem shows_stackRows (s : Stack) :
    Shows (stackRows true true s) (stackRows false true s) (rowColours s) := by
  unfold stackRows rowColours
  by_cases h : s.height = 0
  · rw [if_pos h, if_pos h, if_pos h]
    exact .of_not_mem (by decide)
  · rw [if_neg h, if_neg h, if_neg h, if_pos rfl, if_pos rfl]
    exact (ShowsAll.cons shows_legend (shows_rows s)).intercalate (by decide)

theorem shows_function {key : String} {f : Function} (hkey : '\x1b' ∉ key.toList)
    (hname : '\x1b' ∉ f.name.toList) :
    Shows (function true key f) (function false key f) [.function] :=
  ((Shows.paint .function (escape_not_mem_pad hkey 8).2).append (.of_not_mem (by decide))).append
    (.of_not_mem (escape_not_mem_text hname))

theorem shows_registry {r : Registry}
    (h : ∀ item ∈ r.items, '\x1b' ∉ item.1.toList ∧ '\x1b' ∉ item.2.name.toList) :
    Shows (registry true r) (registry false r) (r.items.map fun _ => .function) := by
  rw [List.map_eq_flatMap]
  have hfunctions := ShowsAll.map r.items fun item hitem =>
    shows_function (h item hitem).1 (h item hitem).2
  exact hfunctions.intercalate (by decide)

/-- A coloured text and the same text without colours.  Deleting the colour sequences of the
one gives the other, and the sequences are the colours by turns with resets. -/
structure IsColouring (coloured bare : String) (colours : List Colour) : Prop where
  plain_eq : plain coloured.toList = bare.toList
  sequences_eq : sequences coloured.toList = turns colours

theorem Shows.isColouring {coloured bare : String} {colours : List Colour}
    (h : Shows coloured bare colours) : IsColouring coloured bare colours where
  plain_eq := by
    have hplain := h.plain []
    rwa [List.append_nil, plain_nil, List.append_nil] at hplain
  sequences_eq := by
    have hsequences := h.sequences []
    rwa [List.append_nil, sequences_nil, List.append_nil] at hsequences

theorem escape_code_ne_reset (c : Colour) : (escape c.code).toList ≠ reset.toList := by
  cases c with
  | ofType t => cases t <;> decide
  | function => decide
  | depth => decide

/-- Colours only add escape sequences, in a stack on one line, in a stack in rows below the
legend, and in a registry whose keys and names have no escape characters.  In the coloured
texts colours and resets take turns: one colour for each value, in the rows two, and one
for each function.  So no colour is left open. -/
theorem isColouring_listings :
    (∀ s : Stack,
      IsColouring (stack true s) (stack false s) (s.toList.map fun v => .ofType v.type)) ∧
    (∀ s : Stack, IsColouring (stackRows true true s) (stackRows false true s) (rowColours s)) ∧
    (∀ r : Registry,
      (∀ item ∈ r.items, '\x1b' ∉ item.1.toList ∧ '\x1b' ∉ item.2.name.toList) →
        IsColouring (registry true r) (registry false r) (r.items.map fun _ => .function)) ∧
    ∀ c : Colour, (escape c.code).toList ≠ reset.toList :=
  ⟨fun s => (shows_stack s).isColouring, fun s => (shows_stackRows s).isColouring,
    fun _ h => (shows_registry h).isColouring, escape_code_ne_reset⟩

/-- A key and a name that look like the rest of a colour sequence. -/
def misleading : Registry :=
  .ofFunctions [("5m", ⟨"[0m", ⟨[], [.f32]⟩, fun _ => .ok (.bare (.datum .nothing))⟩)]

theorem isColouring_listings_of_misleading :
    (∀ item ∈ misleading.items, '\x1b' ∉ item.1.toList ∧ '\x1b' ∉ item.2.name.toList) ∧
      registry true misleading = "\x1b[95m5m      \x1b[0m [0m :: -> f32" ∧
      IsColouring (registry true misleading) "5m       [0m :: -> f32" [.function] := by
  have hplain : ∀ item ∈ misleading.items,
      '\x1b' ∉ item.1.toList ∧ '\x1b' ∉ item.2.name.toList := by
    decide
  obtain ⟨-, -, hregistry, -⟩ := isColouring_listings
  exact ⟨hplain, by decide +kernel, hregistry misleading hplain⟩

end Display
end PostfixCalc
