import PostfixCalc.Proofs.Decimal
import PostfixCalc.Proofs.Json.Escape
import PostfixCalc.Proofs.Text.Character

/-!
# What the reader finds

A reader leaves a part of the text at its end.  Whatever value it finds can be written
again, in the interchange form and in full.  It exceeds a limit for a reason that stands in
the text: a run of more digits than an integer may have, or more opening brackets than
values may nest.  This is an invariant of every reader, which is carried through lists of
items and fields by induction on the rounds, and through values by induction on the depth.
-/

namespace PostfixCalc
namespace Json

/-- The text holds a run of this many digits. -/
def HasDigitRun (count : Nat) (cs : List Char) : Prop :=
  ∃ digits, digits <:+: cs ∧ digits.length = count ∧
    ∀ c ∈ digits, (asciiDigitValue? c).isSome

def isOpening (c : Char) : Bool := c = '[' || c = '\x7b'

/-- Values that can be written: their integers are not too long, and their texts hold no
pairs of surrogates. -/
inductive IsWritable : Json → Prop where
  | null : IsWritable null
  | truth (b : Bool) : IsWritable (truth b)
  | integer {n : Int} :
      (decimalDigits n.natAbs).length ≤ integerDigitLimit → IsWritable (integer n)
  | number (x : Double) : IsWritable (number x)
  | text {t : Text} : t.IsJoined → IsWritable (text t)
  | array {items : List Json} : (∀ item ∈ items, IsWritable item) → IsWritable (array items)
  | object {fields : List (Text × Json)} :
      (∀ field ∈ fields, IsWritable field.2) → IsWritable (object fields)

/-- If a limit is exceeded, the reason is in the text.  The depth that a report takes is
needed as well. -/
def Stop.IsFounded (depth : Nat) (cs : List Char) : Stop → Prop
  | problem _ _ => True
  | integerTooLong digits => integerDigitLimit < digits ∧ HasDigitRun digits cs
  | nestedTooDeep _ => depth < cs.countP isOpening + reportDepth

/-- What a reader makes of a text: it finds something of a kind and leaves the end of the
text, or it stops with reason. -/
def IsFounded {α : Type} (kind : α → Prop) (depth : Nat) (cs : List Char) :
    Except Stop (α × List Char) → Prop
  | .ok (a, rest) => kind a ∧ rest <:+ cs
  | .error stop => stop.IsFounded depth cs

theorem HasDigitRun.mono {count : Nat} {cs cs' : List Char} (h : HasDigitRun count cs)
    (hpart : cs <:+: cs') : HasDigitRun count cs' := by
  obtain ⟨digits, hdigits, hlength, hall⟩ := h
  exact ⟨digits, hdigits.trans hpart, hlength, hall⟩

theorem Stop.IsFounded.mono {stop : Stop} {depth : Nat} {cs cs' : List Char}
    (h : stop.IsFounded depth cs) (hsuffix : cs <:+ cs') : stop.IsFounded depth cs' := by
  cases stop with
  | problem p left => trivial
  | integerTooLong digits => exact ⟨h.1, h.2.mono hsuffix.isInfix⟩
  | nestedTooDeep overrun =>
      exact Nat.lt_of_lt_of_le h (Nat.add_le_add_right hsuffix.sublist.countP_le reportDepth)

section Founded

variable {α : Type} {kind : α → Prop} {depth : Nat} {cs : List Char}
  {result : Except Stop (α × List Char)}

theorem IsFounded.mono {cs' : List Char} (h : IsFounded kind depth cs result)
    (hsuffix : cs <:+ cs') : IsFounded kind depth cs' result := by
  cases result with
  | error stop => exact Stop.IsFounded.mono h hsuffix
  | ok pair => exact ⟨h.1, h.2.trans hsuffix⟩

theorem IsFounded.found {rest : List Char} {a : α} (h : IsFounded kind depth cs result)
    (hresult : result = .ok (a, rest)) : kind a ∧ rest <:+ cs := by
  subst hresult
  exact h

theorem IsFounded.stop {stop : Stop} (h : IsFounded kind depth cs result)
    (hresult : result = .error stop) : stop.IsFounded depth cs := by
  subst hresult
  exact h

/-- A report that takes more depth than is left is one call too deep. -/
theorem IsFounded.within {reader : Reader α} (h : IsFounded kind depth cs (reader cs)) :
    IsFounded kind depth cs (reader.within depth cs) := by
  rw [Reader.within]
  split
  · next found hfound => exact h.found hfound
  · next stop hstop =>
    have hstop := h.stop hstop
    cases stop with
    | problem p left =>
        rw [Stop.within]
        split
        · next hdepth => exact Nat.lt_add_left _ hdepth.1
        · trivial
    | integerTooLong digits => exact hstop
    | nestedTooDeep overrun => exact hstop

end Founded

theorem Stop.IsFounded.open {stop : Stop} {depth : Nat} {c : Char} {cs : List Char}
    (hc : isOpening c = true) (h : stop.IsFounded depth cs) :
    stop.IsFounded (depth + 1) (c :: cs) := by
  cases stop with
  | problem p left => trivial
  | integerTooLong digits => exact ⟨h.1, h.2.mono (List.suffix_cons c cs).isInfix⟩
  | nestedTooDeep overrun =>
      have hcount : (c :: cs).countP isOpening = cs.countP isOpening + 1 :=
        List.countP_cons_of_pos hc
      have hdepth : depth < cs.countP isOpening + reportDepth := h
      show depth + 1 < (c :: cs).countP isOpening + reportDepth
      omega

theorem IsFounded.open {α : Type} {kind : α → Prop} {depth : Nat} {c : Char} {cs : List Char}
    {result : Except Stop (α × List Char)} (hc : isOpening c = true)
    (h : IsFounded kind depth cs result) : IsFounded kind (depth + 1) (c :: cs) result := by
  cases result with
  | error stop => exact Stop.IsFounded.open hc h
  | ok pair => exact ⟨h.1, h.2.trans (List.suffix_cons c cs)⟩

theorem skipSpace_suffix (cs : List Char) : skipSpace cs <:+ cs := List.dropWhile_suffix _

/-! ## Texts -/

theorem exists_of_prepend {p : CodePoint} {t : Text} {rest : List Char}
    {result : Except TextStop (Text × List Char)}
    (h : prepend p result = .ok (t, rest)) : ∃ t', result = .ok (t', rest) := by
  cases result with
  | error stop => contradiction
  | ok pair =>
      obtain ⟨t', rest'⟩ := pair
      obtain ⟨-, rfl⟩ := Prod.mk.inj (Except.ok.inj h)
      exact ⟨t', rfl⟩

theorem suffix_of_readPoints {cs rest : List Char} {t : Text}
    (h : readPoints cs = .ok (t, rest)) : rest <:+ cs := by
  fun_induction readPoints cs generalizing t rest with
  | case1 | case3 | case4 | case6 | case7 | case9 | case10 => contradiction
  | case2 after =>
      obtain ⟨-, rfl⟩ := Prod.mk.inj (Except.ok.inj h)
      exact List.suffix_cons _ _
  | case5 h₁ h₂ h₃ h₄ after _ n _ _ ih =>
      obtain ⟨t', ht'⟩ := exists_of_prepend h
      have hafter : after <:+ '\\' :: 'u' :: h₁ :: h₂ :: h₃ :: h₄ :: after :=
        ⟨['\\', 'u', h₁, h₂, h₃, h₄], rfl⟩
      exact (ih ht').trans hafter
  | case8 e after _ x _ _ ih =>
      obtain ⟨t', ht'⟩ := exists_of_prepend h
      exact (ih ht').trans ⟨['\\', e], rfl⟩
  | case11 c after _ _ _ ih =>
      obtain ⟨t', ht'⟩ := exists_of_prepend h
      exact (ih ht').trans (List.suffix_cons c after)

theorem isFounded_readText (depth : Nat) (cs : List Char) :
    IsFounded Text.IsJoined depth cs (readText cs) := by
  rw [readText]
  split
  · next t rest hread =>
    exact ⟨isJoined_joinPairs t, (suffix_of_readPoints hread).trans (List.tail_suffix cs)⟩
  · trivial
  · trivial

theorem spanDigits_suffix (value? : Char → Option Nat) (cs : List Char) :
    (spanDigits value? cs).2 <:+ cs := by
  obtain ⟨taken, hcs, -⟩ := exists_taken_spanDigits value? cs
  exact ⟨taken, hcs.symm⟩

theorem scanSign_suffix (cs : List Char) : (Numeral.scanSign cs).2 <:+ cs := by
  cases cs with
  | nil => exact List.suffix_rfl
  | cons c cs =>
      rw [Numeral.scanSign]
      split
      · exact List.suffix_cons c cs
      · split
        · exact List.suffix_cons c cs
        · exact List.suffix_rfl

theorem scanFraction_suffix (digit? : Char → Option Nat) (cs : List Char) :
    (Numeral.scanFraction digit? cs).2 <:+ cs := by
  cases cs with
  | nil => exact List.suffix_rfl
  | cons c cs =>
      rw [Numeral.scanFraction]
      split
      · exact (spanDigits_suffix digit? cs).trans (List.suffix_cons c cs)
      · exact List.suffix_rfl

theorem scanExponent_suffix (digit? : Char → Option Nat) (cs : List Char) :
    (Numeral.scanExponent digit? cs).2 <:+ cs := by
  cases cs with
  | nil => exact List.suffix_rfl
  | cons c cs =>
      have hsign := (scanSign_suffix cs).trans (List.suffix_cons c cs)
      rw [Numeral.scanExponent]
      split
      · dsimp only
        split
        · exact List.suffix_rfl
        · exact (spanDigits_suffix digit? _).trans hsign
      · exact List.suffix_rfl

theorem asciiDigitValue?_lt {c : Char} {d : Nat} (h : asciiDigitValue? c = some d) : d < 10 := by
  unfold asciiDigitValue? at h
  split at h
  · next hrange =>
    obtain rfl := Option.some.inj h
    have hhigh : c.toNat ≤ 57 := hrange.2
    omega
  · contradiction

theorem hasDigitRun_of_values {taken cs : List Char} {ds : List Nat} (htaken : taken <:+: cs)
    (hvalues : taken.map asciiDigitValue? = ds.map some) : HasDigitRun ds.length cs := by
  refine ⟨taken, htaken, by simpa using congrArg List.length hvalues, ?_⟩
  intro c hc
  have hvalue : asciiDigitValue? c ∈ ds.map some := hvalues ▸ List.mem_map_of_mem hc
  obtain ⟨d, -, hd⟩ := List.mem_map.mp hvalue
  rw [← hd]
  rfl

theorem scanNumber?_spec {cs rest : List Char} {x : Numeral}
    (h : scanNumber? cs = some (x, rest)) :
    rest <:+ cs ∧ HasDigitRun x.whole.length cs ∧ x.whole ≠ [] ∧ ∀ d ∈ x.whole, d < 10 := by
  unfold scanNumber? at h
  split at h
  next negative unsigned hsign =>
  split at h
  next whole afterWhole hwhole =>
  split at h
  · contradiction
  · next hempty =>
    split at h
    next fraction? afterFraction hfraction =>
    split at h
    next exponent? afterExponent hexponent =>
    obtain ⟨rfl, rfl⟩ := Prod.mk.inj (Option.some.inj h)
    have hunsigned : unsigned <:+ cs := by
      split at hsign
      · obtain ⟨-, rfl⟩ := Prod.mk.inj hsign
        exact List.suffix_cons _ _
      · obtain ⟨-, rfl⟩ := Prod.mk.inj hsign
        exact List.suffix_rfl
    have hdigits : ∃ taken, unsigned = taken ++ afterWhole ∧
        taken.map asciiDigitValue? = whole.map some := by
      split at hwhole
      · obtain ⟨rfl, rfl⟩ := Prod.mk.inj hwhole
        exact ⟨['0'], rfl, rfl⟩
      · obtain ⟨taken, hunsigned, hvalues⟩ := exists_taken_spanDigits asciiDigitValue? unsigned
        rw [hwhole] at hunsigned hvalues
        exact ⟨taken, hunsigned, hvalues⟩
    have hafterFraction : afterFraction <:+ afterWhole := by
      split at hfraction
      · next d ds after hscan =>
        obtain ⟨-, rfl⟩ := Prod.mk.inj hfraction
        have hafter := scanFraction_suffix asciiDigitValue? afterWhole
        rw [hscan] at hafter
        exact hafter
      · obtain ⟨-, rfl⟩ := Prod.mk.inj hfraction
        exact List.suffix_rfl
    have hafterExponent : afterExponent <:+ afterFraction := by
      have hafter := scanExponent_suffix asciiDigitValue? afterFraction
      rw [hexponent] at hafter
      exact hafter
    obtain ⟨taken, htaken, hvalues⟩ := hdigits
    have hafterWhole : afterWhole <:+ unsigned := ⟨taken, htaken.symm⟩
    have hrest := ((hafterExponent.trans hafterFraction).trans hafterWhole).trans hunsigned
    have htakenPart : taken <:+: unsigned := ⟨[], afterWhole, htaken.symm⟩
    refine ⟨hrest, hasDigitRun_of_values (htakenPart.trans hunsigned.isInfix) hvalues,
      fun hnil => hempty (List.isEmpty_iff.mpr hnil), ?_⟩
    intro d hd
    have hvalue : some d ∈ taken.map asciiDigitValue? := hvalues ▸ List.mem_map_of_mem hd
    obtain ⟨c, -, hc⟩ := List.mem_map.mp hvalue
    exact asciiDigitValue?_lt hc

theorem isFounded_readNumber (depth : Nat) (cs : List Char) :
    IsFounded IsWritable depth cs (readNumber cs) := by
  rw [readNumber]
  split
  · trivial
  · next x rest hscan =>
    obtain ⟨hrest, hrun, hne, hdigits⟩ := scanNumber?_spec hscan
    split
    · split
      · next hlimit =>
        refine ⟨.integer ?_, hrest⟩
        have hmagnitude : x.integer.natAbs = ofDigits x.whole := by
          unfold Numeral.integer Binary.signed
          split <;> simp
        rw [hmagnitude]
        exact (length_decimalDigits_ofDigits_le hne hdigits).trans hlimit
      · next hlimit => exact ⟨Nat.lt_of_not_le hlimit, hrun⟩
    · exact ⟨.number _, hrest⟩

theorem suffix_of_dropFront? {word cs rest : List Char} (h : dropFront? word cs = some rest) :
    rest <:+ cs := by
  fun_induction dropFront? word cs with
  | case1 cs =>
      obtain rfl := Option.some.inj h
      exact List.suffix_rfl
  | case2 => contradiction
  | case3 ws c cs ih => exact (ih h).trans (List.suffix_cons c cs)
  | case4 => contradiction

theorem isWritable_of_mem_names : ∀ name ∈ names, IsWritable name.2 := by
  simp only [names, List.forall_mem_cons, List.not_mem_nil, false_implies, implies_true, and_true]
  exact ⟨.null, .truth true, .truth false, .number _, .number _, .number _⟩

theorem readName?_spec {cs rest : List Char} {j : Json} (h : readName? cs = some (j, rest)) :
    IsWritable j ∧ rest <:+ cs := by
  obtain ⟨name, hname, hfound⟩ := List.exists_of_findSome?_eq_some h
  obtain ⟨after, hafter, heq⟩ := Option.map_eq_some_iff.mp hfound
  obtain ⟨rfl, rfl⟩ := Prod.mk.inj heq
  exact ⟨isWritable_of_mem_names name hname, suffix_of_dropFront? hafter⟩

/-! ## Arrays and objects -/

theorem mem_of_mem_insert {α : Type} {key : Text} {a : α} {pairs : List (Text × α)}
    {pair : Text × α} (h : pair ∈ Assoc.insert key a pairs) :
    pair.2 = a ∨ pair ∈ pairs := by
  induction pairs with
  | nil =>
      obtain rfl : pair = (key, a) := by simpa [Assoc.insert] using h
      exact Or.inl rfl
  | cons first pairs ih =>
      obtain ⟨k, b⟩ := first
      rw [Assoc.insert] at h
      split at h
      · rcases List.mem_cons.mp h with rfl | hrest
        · exact Or.inl rfl
        · exact Or.inr (List.mem_cons_of_mem _ hrest)
      · rcases List.mem_cons.mp h with rfl | hrest
        · exact Or.inr List.mem_cons_self
        · exact (ih hrest).imp_right (List.mem_cons_of_mem _)

theorem isWritable_ofFields {fields : List (Text × Json)}
    (h : ∀ field ∈ fields, IsWritable field.2) : IsWritable (ofFields fields) := by
  have hfold (before : List (Text × Json)) (hbefore : ∀ field ∈ before, IsWritable field.2) :
      ∀ field ∈ fields.foldl (fun acc pair => Assoc.insert pair.1 pair.2 acc) before,
        IsWritable field.2 := by
    induction fields generalizing before with
    | nil => exact hbefore
    | cons first fields ih =>
        rw [List.forall_mem_cons] at h
        refine ih h.2 _ ?_
        intro field hfield
        rcases mem_of_mem_insert hfield with heq | hmem
        · rw [heq]
          exact h.1
        · exact hbefore field hmem
  exact .object (hfold [] (List.forall_mem_nil _))

section Composite

variable {depth : Nat} {value : Reader Json} 
  (hvalue : ∀ cs, IsFounded IsWritable depth cs (value cs))

include hvalue

theorem isFounded_readItems (rounds : Nat) (cs : List Char) :
    IsFounded (∀ item ∈ ·, IsWritable item) depth cs (readItems value rounds cs) := by
  induction rounds generalizing cs with
  | zero => trivial
  | succ rounds ih =>
      have hitem := hvalue cs
      rw [readItems]
      split
      · next stop hstop => exact hitem.stop hstop
      · next item rest hread =>
        obtain ⟨hfirst, hrest⟩ := hitem.found hread
        have hspace : skipSpace rest <:+ cs := (skipSpace_suffix rest).trans hrest
        split
        · trivial
        · next c after hskip =>
          have hafter : after <:+ cs := (List.suffix_cons c after).trans (hskip ▸ hspace)
          split
          · exact ⟨List.forall_mem_singleton.mpr hfirst, hafter⟩
          · split
            · have hlater := (ih (skipSpace after)).mono ((skipSpace_suffix after).trans hafter)
              split
              · next items rest' hread' =>
                obtain ⟨hitems, hend⟩ := hlater.found hread'
                exact ⟨List.forall_mem_cons.mpr ⟨hfirst, hitems⟩, hend⟩
              · next stop hstop => exact hlater.stop hstop
            · trivial

theorem isFounded_readFields (rounds : Nat) (cs : List Char) :
    IsFounded (∀ field ∈ ·, IsWritable field.2) depth cs (readFields value rounds cs) := by
  induction rounds generalizing cs with
  | zero => trivial
  | succ rounds ih =>
      have hname := isFounded_readText depth cs
      rw [readFields]
      split
      · trivial
      · split
        · next stop hstop => exact hname.stop hstop
        · next name rest hread =>
          have hspace : skipSpace rest <:+ cs :=
            (skipSpace_suffix rest).trans (hname.found hread).2
          split
          · trivial
          · next colon after hskip =>
            have hafter : after <:+ cs := (List.suffix_cons colon after).trans (hskip ▸ hspace)
            have hstart : skipSpace after <:+ cs := (skipSpace_suffix after).trans hafter
            -- The value is read from what the name has left, so its reason is in the whole text.
            have hitem := (hvalue (skipSpace after)).mono hstart
            split
            · trivial
            · split
              · next stop hstop => exact hitem.stop hstop
              · next item rest hread =>
                obtain ⟨hfirst, hrest⟩ := hitem.found hread
                have hspace : skipSpace rest <:+ cs := (skipSpace_suffix rest).trans hrest
                split
                · trivial
                · next c after hskip =>
                  have hafter : after <:+ cs := (List.suffix_cons c after).trans (hskip ▸ hspace)
                  split
                  · exact ⟨List.forall_mem_singleton.mpr hfirst, hafter⟩
                  · split
                    · have hlater := (ih (skipSpace after)).mono
                        ((skipSpace_suffix after).trans hafter)
                      split
                      · next fields rest' hread' =>
                        obtain ⟨hfields, hend⟩ := hlater.found hread'
                        exact ⟨List.forall_mem_cons.mpr ⟨hfirst, hfields⟩, hend⟩
                      · next stop hstop => exact hlater.stop hstop
                    · trivial

theorem isFounded_readArray (cs : List Char) :
    IsFounded IsWritable depth cs (readArray value cs) := by
  have hspace := skipSpace_suffix cs
  rw [readArray]
  split
  · next rest hskip =>
    exact ⟨.array (List.forall_mem_nil _), (List.suffix_cons _ rest).trans (hskip ▸ hspace)⟩
  · have hitems := isFounded_readItems hvalue ((skipSpace cs).length + 1) (skipSpace cs)
    have hread := hitems.mono hspace
    split
    · next items rest' hread' =>
      obtain ⟨hall, hrest⟩ := hread.found hread'
      exact ⟨.array hall, hrest⟩
    · next stop hstop => exact hread.stop hstop

theorem isFounded_readObject (cs : List Char) :
    IsFounded IsWritable depth cs (readObject value cs) := by
  have hspace := skipSpace_suffix cs
  rw [readObject]
  split
  · next rest hskip =>
    exact ⟨.object (List.forall_mem_nil _), (List.suffix_cons _ rest).trans (hskip ▸ hspace)⟩
  · have hfields := isFounded_readFields hvalue ((skipSpace cs).length + 1) (skipSpace cs)
    have hread := hfields.mono hspace
    split
    · next fields rest' hread' =>
      obtain ⟨hall, hrest⟩ := hread.found hread'
      exact ⟨isWritable_ofFields hall, hrest⟩
    · next stop hstop => exact hread.stop hstop

end Composite

theorem isFounded_readValueWith {depth : Nat} {array object : Reader Json}
    (harray : ∀ cs, IsFounded IsWritable depth ('[' :: cs) (array cs))
    (hobject : ∀ cs, IsFounded IsWritable depth ('\x7b' :: cs) (object cs)) (cs : List Char) :
    IsFounded IsWritable depth cs (readValueWith depth array object cs) := by
  cases cs with
  | nil => trivial
  | cons c rest =>
      have htext := (isFounded_readText depth (c :: rest)).within
      rw [readValueWith]
      split
      · split
        · next t rest hread =>
          obtain ⟨hjoined, hrest⟩ := htext.found hread
          exact ⟨.text hjoined, hrest⟩
        · next stop hstop => exact htext.stop hstop
      · split
        · next hc =>
          subst hc
          exact harray rest
        · split
          · next hc =>
            subst hc
            exact hobject rest
          · split
            · next x rest hname =>
              split
              · next hdepth =>
                rw [hdepth]
                exact Nat.lt_add_left _ (by decide)
              · exact readName?_spec hname
            · next result _ hname => exact readName?_spec hname
            · exact isFounded_readNumber depth (c :: rest)

/-- A value nests too deep only if the text opens more brackets than that. -/
theorem isFounded_readValue (depth : Nat) (cs : List Char) :
    IsFounded IsWritable depth cs (readValue depth cs) := by
  induction depth generalizing cs with
  | zero =>
      rw [readValue]
      apply isFounded_readValueWith
      · intro rest
        exact Nat.lt_add_left _ (by decide)
      · intro rest
        exact Nat.lt_add_left _ (by decide)
  | succ depth ih =>
      exact isFounded_readValueWith
        (fun cs => (isFounded_readArray ih cs).within.open (by decide))
        (fun cs => (isFounded_readObject ih cs).within.open (by decide)) cs

theorem isFounded_readWhole (cs : List Char) :
    IsFounded IsWritable nestingLimit cs (readWhole cs) := by
  have hread := (isFounded_readValue nestingLimit (skipSpace cs)).mono (skipSpace_suffix cs)
  rw [readWhole]
  split
  · trivial
  · split
    · next stop hstop => exact hread.stop hstop
    · next j rest hvalue =>
      split
      · exact ⟨(hread.found hvalue).1, List.nil_suffix⟩
      · trivial

theorem isWritable_of_read {cs : List Char} {j : Json} (h : read cs = .ok j) : IsWritable j := by
  rw [read] at h
  split at h
  · next j' rest hread =>
    obtain rfl := Except.ok.inj h
    exact ((isFounded_readWhole cs).found hread).1
  · contradiction

theorem exists_stop_of_read {cs : List Char} {e : ReadError} (h : read cs = .error e) :
    ∃ stop : Stop, stop.place cs = e ∧ stop.IsFounded nestingLimit cs := by
  rw [read] at h
  split at h
  · contradiction
  · next stop hstop =>
    exact ⟨stop, Except.error.inj h, (isFounded_readWhole cs).stop hstop⟩

theorem hasDigitRun_of_read {cs : List Char} {digits : Nat}
    (h : read cs = .error (.integerTooLong digits)) :
    integerDigitLimit < digits ∧ HasDigitRun digits cs := by
  obtain ⟨stop, hplace, hfounded⟩ := exists_stop_of_read h
  cases stop with
  | integerTooLong count =>
      obtain rfl := ReadError.integerTooLong.inj hplace
      exact hfounded
  | problem p left => contradiction
  | nestedTooDeep overrun => contradiction

theorem countP_isOpening_of_read {cs : List Char} {overrun : Overrun}
    (h : read cs = .error (.nestedTooDeep overrun)) :
    nestingLimit < cs.countP isOpening + reportDepth := by
  obtain ⟨stop, hplace, hfounded⟩ := exists_stop_of_read h
  cases stop with
  | nestedTooDeep _ => exact hfounded
  | problem p left => contradiction
  | integerTooLong digits => contradiction

/-! ## Full forms -/

theorem eq_of_bind_error {α β : Type} {x : Except Fault α} {f : α → Except Fault β} {fault : Fault}
    (hx : ∀ fault, x = .error fault → fault = .integerTooLong)
    (hf : ∀ a fault, f a = .error fault → fault = .integerTooLong)
    (h : x >>= f = .error fault) : fault = .integerTooLong := by
  cases x with
  | error cause =>
      obtain rfl : cause = fault := Except.error.inj h
      exact hx cause rfl
  | ok a => exact hf a fault h

theorem eq_of_map_error {α β : Type} {x : Except Fault α} {f : α → β} {fault : Fault}
    (hx : ∀ fault, x = .error fault → fault = .integerTooLong)
    (h : x.map f = .error fault) : fault = .integerTooLong := by
  cases x with
  | error cause =>
      obtain rfl : cause = fault := Except.error.inj h
      exact hx cause rfl
  | ok a => contradiction

mutual

/-- The only thing that keeps a value from being written in full is an integer that is too
long. -/
theorem eq_of_fullText_eq_error : ∀ (j : Json) (fault : Fault), j.fullText = .error fault →
    fault = .integerTooLong
  | null, _, h => by simp [fullText] at h
  | truth _, _, h => by simp [fullText] at h
  | integer n, fault, h => (integerText_eq_error_iff.mp (fullText.eq_def (.integer n) ▸ h)).1
  | number _, _, h => by simp [fullText] at h
  | text _, _, h => by simp [fullText] at h
  | array items, _, h => by
      rw [fullText] at h
      exact eq_of_map_error (eq_of_itemTexts_eq_error items) h
  | object fields, _, h => by
      rw [fullText] at h
      exact eq_of_map_error (eq_of_fieldTexts_eq_error fields) h

theorem eq_of_itemTexts_eq_error : ∀ (items : List Json) (fault : Fault),
    itemTexts items = .error fault → fault = .integerTooLong
  | [], _, h => by simp [itemTexts] at h
  | item :: items, _, h => by
      rw [itemTexts] at h
      refine eq_of_bind_error (eq_of_fullText_eq_error item) (fun _ _ h => ?_) h
      refine eq_of_bind_error (eq_of_itemTexts_eq_error items) (fun _ _ h => ?_) h
      contradiction

theorem eq_of_fieldTexts_eq_error : ∀ (fields : List (Text × Json)) (fault : Fault),
    fieldTexts fields = .error fault → fault = .integerTooLong
  | [], _, h => by simp [fieldTexts] at h
  | (_, value) :: fields, _, h => by
      rw [fieldTexts] at h
      refine eq_of_bind_error (eq_of_fullText_eq_error value) (fun _ _ h => ?_) h
      refine eq_of_bind_error (eq_of_fieldTexts_eq_error fields) (fun _ _ h => ?_) h
      contradiction

end

theorem exists_itemTexts {items : List Json}
    (h : ∀ item ∈ items, ∃ s, item.fullText = .ok s) : ∃ ts, itemTexts items = .ok ts := by
  induction items with
  | nil => exact ⟨[], rfl⟩
  | cons item items ih =>
      rw [List.forall_mem_cons] at h
      obtain ⟨s, hs⟩ := h.1
      obtain ⟨ts, hts⟩ := ih h.2
      exact ⟨s :: ts, by rw [itemTexts, hs, hts]; rfl⟩

theorem exists_fieldTexts {fields : List (Text × Json)}
    (h : ∀ field ∈ fields, ∃ s, field.2.fullText = .ok s) :
    ∃ ts, fieldTexts fields = .ok ts := by
  induction fields with
  | nil => exact ⟨[], rfl⟩
  | cons field fields ih =>
      obtain ⟨name, value⟩ := field
      rw [List.forall_mem_cons] at h
      obtain ⟨s, hs⟩ := h.1
      obtain ⟨ts, hts⟩ := ih h.2
      exact ⟨(name.quoted ++ ": " ++ s) :: ts, by rw [fieldTexts, hs, hts]; rfl⟩

theorem IsWritable.exists_fullText {j : Json} (h : IsWritable j) : ∃ s, j.fullText = .ok s := by
  induction h with
  | null => exact ⟨_, rfl⟩
  | truth b => exact ⟨_, rfl⟩
  | @integer n hlength => exact ⟨intText n, if_pos hlength⟩
  | number x => exact ⟨_, rfl⟩
  | text _ => exact ⟨_, rfl⟩
  | array _ ih =>
      obtain ⟨ts, hts⟩ := exists_itemTexts ih
      exact ⟨_, by rw [fullText, hts]; rfl⟩
  | object _ ih =>
      obtain ⟨ts, hts⟩ := exists_fieldTexts ih
      exact ⟨_, by rw [fullText, hts]; rfl⟩

theorem IsWritable.exists_plainText {j : Json} (h : IsWritable j) :
    ∃ t, j.plainText = .ok t ∧ t.IsJoined := by
  obtain ⟨s, hs⟩ := h.exists_fullText
  cases h with
  | text hjoined => exact ⟨_, rfl, hjoined⟩
  | _ => exact ⟨s, by simp only [plainText, hs, Except.map], Text.isJoined_ofString s⟩

/-! ## Texts that exceed a limit -/

theorem spanDigits_of_forall {value? : Char → Option Nat} {cs : List Char}
    (hcs : ∀ c ∈ cs, (value? c).isSome) :
    (spanDigits value? cs).1.length = cs.length ∧ (spanDigits value? cs).2 = [] := by
  induction cs with
  | nil => exact ⟨rfl, rfl⟩
  | cons c cs ih =>
      rw [List.forall_mem_cons] at hcs
      obtain ⟨d, hd⟩ := Option.isSome_iff_exists.mp hcs.1
      obtain ⟨hlength, hrest⟩ := ih hcs.2
      rw [spanDigits, hd]
      exact ⟨congrArg Nat.succ hlength, hrest⟩

theorem scanNumber?_of_digits {c : Char} {cs : List Char} (hzero : c ≠ '0')
    (hcs : ∀ d ∈ c :: cs, (asciiDigitValue? d).isSome) :
    ∃ ds, scanNumber? (c :: cs) = some (⟨false, ds, none, none⟩, []) ∧
      ds.length = (c :: cs).length := by
  obtain ⟨hlength, hrest⟩ := spanDigits_of_forall hcs
  have hminus : c ≠ '-' := by
    rintro rfl
    exact absurd (hcs '-' List.mem_cons_self) (by decide)
  have hne : (spanDigits asciiDigitValue? (c :: cs)).1 ≠ [] := by
    intro hnil
    rw [hnil] at hlength
    contradiction
  refine ⟨(spanDigits asciiDigitValue? (c :: cs)).1, ?_, hlength⟩
  simp [scanNumber?, hminus, hzero, hrest, hne, Numeral.scanFraction, Numeral.scanExponent]

/-- A digit is not one of these characters, with which other values begin. -/
theorem forall_ne_digit {c : Char} (hc : (asciiDigitValue? c).isSome) :
    ∀ other ∈ ['n', 't', 'f', 'N', 'I', '-', '"', '[', '\x7b', ' ', '\t', '\n', '\r', '\ufeff'],
      other ≠ c := by
  have hnone : ∀ other ∈ ['n', 't', 'f', 'N', 'I', '-', '"', '[', '\x7b', ' ', '\t', '\n', '\r',
      '\ufeff'], (asciiDigitValue? other).isSome = false := by
    simp [asciiDigitValue?]
  rintro other hother rfl
  exact absurd hc (Bool.eq_false_iff.mp (hnone other hother))

theorem readName?_of_digit {c : Char} (hc : (asciiDigitValue? c).isSome) (cs : List Char) :
    readName? (c :: cs) = none := by
  have hother := forall_ne_digit hc
  simp only [List.forall_mem_cons] at hother
  simp [readName?, names, dropFront?, hother]

/-- An integer with more digits than the limit allows for cannot be read. -/
theorem read_of_digits {c : Char} {cs : List Char} (hzero : c ≠ '0')
    (hcs : ∀ d ∈ c :: cs, (asciiDigitValue? d).isSome)
    (hlimit : integerDigitLimit < (c :: cs).length) :
    read (c :: cs) = .error (.integerTooLong (c :: cs).length) := by
  have hother := forall_ne_digit (hcs c List.mem_cons_self)
  simp only [List.forall_mem_cons, ne_eq, eq_comm (b := c)] at hother
  obtain ⟨ds, hscan, hlength⟩ := scanNumber?_of_digits hzero hcs
  have hinteger : (Numeral.mk false ds none none).isInteger = true := by
    have hne : ds ≠ [] := List.ne_nil_of_length_eq_add_one hlength
    simpa [Numeral.isInteger] using hne
  have hnumber : readNumber (c :: cs) = .error (.integerTooLong (c :: cs).length) := by
    rw [readNumber, hscan]
    simp only [hinteger, if_true, hlength, if_neg (Nat.not_le_of_lt hlimit)]
  have hspace : isSpace c = false := by
    simp [isSpace, hother]
  have hvalue : readValue nestingLimit (c :: cs) = .error (.integerTooLong (c :: cs).length) := by
    have hname := readName?_of_digit (hcs c List.mem_cons_self) cs
    simp [nestingLimit, readValue, readValueWith, hother, hname, hnumber]
  have hskip : skipSpace (c :: cs) = c :: cs := List.dropWhile_cons_of_neg (by simp [hspace])
  rw [read, readWhole, hskip, hvalue, if_neg (by simp [hother])]
  rfl

end Json
end PostfixCalc
