import Mathlib.Data.List.Induction
import Mathlib.Data.List.Nodup
import PostfixCalc.Display
import PostfixCalc.Function.Builtin
import PostfixCalc.Proofs.Decimal
import PostfixCalc.Registry
import PostfixCalc.Session.Shared

/-!
# Registries are finite maps

Looking up undoes inserting: an entry is found under its own key and hides
nothing under the others.  Of several functions under one key the last one is
found.  If the keys are distinct, everything is found.

The entries of a registry are given as pairs.  Of several entries under one key the last
one counts, in the place of the first one.  If one that counts is not a function there is
no registry, and the first of them is named.  Otherwise all views of the registry show
the same thing: under each key that was given the last function that was given.

A registry is kept in the order of its keys, so that it is determined by what is found in
it.  Entries under distinct keys can therefore be given in any order.
-/

namespace PostfixCalc

namespace Assoc

variable {α : Type} {pairs : List (String × α)} {key : String} {a : α}

theorem mem_of_find? (h : (pairs.find? fun pair => pair.1 == key).map Prod.snd = some a) :
    (key, a) ∈ pairs := by
  obtain ⟨pair, hfind, rfl⟩ := Option.map_eq_some_iff.mp h
  have hkey : pair.1 = key := by simpa using List.find?_some hfind
  rw [← hkey]
  exact List.mem_of_find?_eq_some hfind

theorem find?_eq_some_iff (hkeys : (pairs.map Prod.fst).Nodup) :
    (pairs.find? fun pair => pair.1 == key).map Prod.snd = some a ↔ (key, a) ∈ pairs := by
  refine ⟨mem_of_find?, fun hmem => ?_⟩
  have hsome : (pairs.find? fun pair => pair.1 == key).isSome := by
    rw [List.find?_isSome]
    exact ⟨(key, a), hmem, by simp⟩
  obtain ⟨pair, hfind⟩ := Option.isSome_iff_exists.mp hsome
  have hkey : pair.1 = key := by simpa using List.find?_some hfind
  have heq : pair = (key, a) :=
    List.inj_on_of_nodup_map hkeys (List.mem_of_find?_eq_some hfind) hmem hkey
  rw [hfind, heq]
  rfl

/-- The last value that is given under a key. -/
def last? (key : String) (pairs : List (String × α)) : Option α :=
  (pairs.reverse.find? fun pair => pair.1 == key).map Prod.snd

theorem last?_concat (key : String) (pairs : List (String × α)) (pair : String × α) :
    last? key (pairs ++ [pair]) = if key = pair.1 then some pair.2 else last? key pairs := by
  unfold last?
  rw [List.reverse_concat]
  by_cases hkey : key = pair.1
  · simp [hkey]
  · simp [hkey, Ne.symm hkey]

theorem last?_eq_some_iff (hkeys : (pairs.map Prod.fst).Nodup) :
    last? key pairs = some a ↔ (key, a) ∈ pairs := by
  have hreverse : (pairs.reverse.map Prod.fst).Nodup := by
    rw [List.map_reverse]
    exact List.nodup_reverse.mpr hkeys
  rw [last?, find?_eq_some_iff hreverse, List.mem_reverse]

end Assoc

namespace Registry

theorem find?_insertSorted (key : String) (f : Function) (items : List (String × Function))
    (other : String) :
    (insertSorted key f items).find? (fun item => item.1 == other) =
      if other = key then some (key, f) else items.find? fun item => item.1 == other := by
  induction items with
  | nil =>
      by_cases hother : other = key
      · simp [insertSorted, hother]
      · simp [insertSorted, hother, Ne.symm hother]
  | cons head rest ih =>
      obtain ⟨k, g⟩ := head
      rw [insertSorted]
      split
      · by_cases hother : other = key
        · simp [hother]
        · simp [hother, Ne.symm hother]
      · split
        · next hlt =>
          have hk : (k == key) = false := by simpa using String.ne_of_lt hlt
          rw [List.find?_cons, List.find?_cons, ih]
          by_cases hother : other = key
          · simp [hother, hk]
          · simp [hother]
        · next hge hle =>
          have hk : k = key :=
            String.le_antisymm (String.not_lt.mp hge) (String.not_lt.mp hle)
          by_cases hother : other = key
          · simp [hother]
          · simp [hother, hk, Ne.symm hother]

theorem lookup_insert (r : Registry) (key : String) (f : Function) (other : String) :
    (r.insert key f).lookup other = if other = key then some f else r.lookup other := by
  unfold lookup insert
  rw [find?_insertSorted]
  split
  · rfl
  · rfl

/-- The function that is found under a key is the last one that was given under it. -/
theorem lookup_ofFunctions (pairs : List (String × Function)) (key : String) :
    (ofFunctions pairs).lookup key = Assoc.last? key pairs := by
  induction pairs using List.reverseRecOn with
  | nil => rfl
  | append_singleton pairs pair ih =>
      have hlast : ofFunctions (pairs ++ [pair]) = (ofFunctions pairs).insert pair.1 pair.2 := by
        simp [ofFunctions]
      rw [hlast, lookup_insert, ih, Assoc.last?_concat]

theorem lookup_ofFunctions_eq_some_iff {pairs : List (String × Function)} {key : String}
    {f : Function} (hkeys : (pairs.map Prod.fst).Nodup) :
    (ofFunctions pairs).lookup key = some f ↔ (key, f) ∈ pairs := by
  rw [lookup_ofFunctions, Assoc.last?_eq_some_iff hkeys]

theorem nodup_keys (r : Registry) : (r.items.map Prod.fst).Nodup := by
  rw [List.nodup_iff_pairwise_ne, List.pairwise_map]
  exact r.increasing.imp fun hlt => String.ne_of_lt hlt

theorem lookup_eq_some_iff {r : Registry} {key : String} {f : Function} :
    r.lookup key = some f ↔ (key, f) ∈ r.items :=
  Assoc.find?_eq_some_iff r.nodup_keys

end Registry

/-! ## Entries -/

namespace Assoc

variable {α : Type} {pairs : List (String × α)} {key : String} {a : α}

/-- The keys that are given, each at its first place. -/
def keys (pairs : List (String × α)) : List String := (pairs.map Prod.fst).eraseDups

theorem last?_eq_none_iff : last? key pairs = none ↔ key ∉ pairs.map Prod.fst := by
  simp only [last?, Option.map_eq_none_iff, List.find?_eq_none, List.mem_reverse, beq_iff_eq,
    List.mem_map, not_exists, not_and]

theorem last?_of_perm {pairs' : List (String × α)} (hkeys : (pairs.map Prod.fst).Nodup)
    (hperm : pairs.Perm pairs') : last? key pairs = last? key pairs' := by
  have hkeys' : (pairs'.map Prod.fst).Nodup := (hperm.map Prod.fst).nodup_iff.mp hkeys
  apply Option.ext
  intro a
  rw [last?_eq_some_iff hkeys, last?_eq_some_iff hkeys', hperm.mem_iff]

theorem mem_keys : key ∈ keys pairs ↔ key ∈ pairs.map Prod.fst := List.mem_eraseDups

theorem keys_concat (pairs : List (String × α)) (pair : String × α) :
    keys (pairs ++ [pair]) =
      if pair.1 ∈ keys pairs then keys pairs else keys pairs ++ [pair.1] := by
  have happend : keys (pairs ++ [pair]) =
      keys pairs ++ ([pair.1].removeAll (pairs.map Prod.fst)).eraseDups := by
    rw [keys, List.map_append, List.eraseDups_append]
    rfl
  rw [happend]
  by_cases hmem : pair.1 ∈ pairs.map Prod.fst
  · simp [List.removeAll, mem_keys.mpr hmem, hmem]
  · simp [List.removeAll, List.eraseDups_cons, mt mem_keys.mp hmem, hmem]

theorem nodup_keys (pairs : List (String × α)) : (keys pairs).Nodup := by
  induction pairs using List.reverseRecOn with
  | nil => exact List.nodup_nil
  | append_singleton pairs pair ih =>
      rw [keys_concat]
      split
      · exact ih
      · next hnew => exact List.nodup_append.mpr ⟨ih, List.nodup_singleton _, by
          intro k hk k' hk' heq
          rw [List.mem_singleton.mp hk'] at heq
          exact hnew (heq ▸ hk)⟩

theorem map_fst_insert (key : String) (a : α) (pairs : List (String × α)) :
    (insert key a pairs).map Prod.fst =
      if key ∈ pairs.map Prod.fst then pairs.map Prod.fst else pairs.map Prod.fst ++ [key] := by
  induction pairs with
  | nil => rfl
  | cons pair pairs ih =>
      obtain ⟨k, b⟩ := pair
      rw [insert]
      split
      · next hk => simp [hk]
      · next hk =>
        rw [List.map_cons, ih]
        by_cases hmem : key ∈ pairs.map Prod.fst
        · simp [hmem]
        · simp [hmem, Ne.symm hk]

theorem mem_insert (hkeys : (pairs.map Prod.fst).Nodup) {other : String} {b : α} :
    (other, b) ∈ insert key a pairs ↔ if other = key then b = a else (other, b) ∈ pairs := by
  induction pairs with
  | nil =>
      by_cases hother : other = key
      · simp [insert, hother]
      · simp [insert, hother]
  | cons pair pairs ih =>
      obtain ⟨k, c⟩ := pair
      rw [List.map_cons, List.nodup_cons] at hkeys
      have habsent : ∀ d, (k, d) ∉ pairs := by
        intro d hd
        exact hkeys.1 (List.mem_map.mpr ⟨(k, d), hd, rfl⟩)
      rw [insert]
      split
      · next hk =>
        subst hk
        by_cases hother : other = k
        · simp [hother, habsent]
        · simp [hother]
      · next hk =>
        rw [List.mem_cons, ih hkeys.2]
        by_cases hother : other = key
        · simp [hother, Ne.symm hk]
        · simp [hother]

theorem ofPairs_concat (pairs : List (String × α)) (pair : String × α) :
    ofPairs (pairs ++ [pair]) = insert pair.1 pair.2 (ofPairs pairs) := by
  simp [ofPairs]

theorem map_fst_ofPairs (pairs : List (String × α)) :
    (ofPairs pairs).map Prod.fst = keys pairs := by
  induction pairs using List.reverseRecOn with
  | nil => rfl
  | append_singleton pairs pair ih =>
      rw [ofPairs_concat, map_fst_insert, ih, keys_concat]

theorem mem_ofPairs : (key, a) ∈ ofPairs pairs ↔ last? key pairs = some a := by
  induction pairs using List.reverseRecOn with
  | nil => simp [ofPairs, last?]
  | append_singleton pairs pair ih =>
      have hkeys : ((ofPairs pairs).map Prod.fst).Nodup := by
        rw [map_fst_ofPairs]
        exact nodup_keys pairs
      rw [ofPairs_concat, mem_insert hkeys, ih, last?_concat]
      split
      · rw [Option.some.injEq, eq_comm]
      · rfl

end Assoc

/-! ## Checking the entries -/

namespace Registry

variable {pairs : List (String × Entry)} {r r' : Registry}

theorem functions?_eq_ok {entries : List (String × Entry)} {fs : List (String × Function)}
    (h : functions? entries = .ok fs) :
    entries = fs.map fun pair => (pair.1, .function pair.2) := by
  induction entries generalizing fs with
  | nil =>
      obtain rfl := Except.ok.inj h
      rfl
  | cons entry entries ih =>
      obtain ⟨key, f | d⟩ := entry
      · rw [functions?] at h
        cases hrest : functions? entries with
        | error e =>
            rw [hrest] at h
            contradiction
        | ok rest =>
            rw [hrest] at h
            obtain rfl := Except.ok.inj h
            rw [List.map_cons, ← ih hrest]
      · contradiction

theorem functions?_eq_error {entries : List (String × Entry)} {cause : Fatal}
    (h : functions? entries = .error cause) :
    ∃ before key content after, entries = before ++ (key, .foreign content) :: after ∧
      cause = refusal key content.fullText ∧ ∀ entry ∈ before, ∃ f, entry.2 = .function f := by
  induction entries with
  | nil => contradiction
  | cons entry entries ih =>
      obtain ⟨key, f | content⟩ := entry
      · rw [functions?] at h
        cases hrest : functions? entries with
        | ok rest =>
            rw [hrest] at h
            contradiction
        | error cause' =>
            rw [hrest] at h
            obtain rfl := Except.error.inj h
            obtain ⟨before, key', content', after, rfl, rfl, hbefore⟩ := ih hrest
            refine ⟨(key, .function f) :: before, key', content', after, rfl, rfl, ?_⟩
            exact List.forall_mem_cons.mpr ⟨⟨f, rfl⟩, hbefore⟩
      · exact ⟨[], key, content, entries, rfl, (Except.error.inj h).symm, by simp⟩

theorem ofEntries_eq_ok (h : ofEntries pairs = .ok r) :
    ∃ fs, functions? (Assoc.ofPairs pairs) = .ok fs ∧ r = ofFunctions fs := by
  unfold ofEntries at h
  cases hfs : functions? (Assoc.ofPairs pairs) with
  | error e =>
      rw [hfs] at h
      contradiction
  | ok fs =>
      rw [hfs] at h
      exact ⟨fs, rfl, (Except.ok.inj h).symm⟩

theorem ofEntries_eq_error {cause : Fatal} (h : ofEntries pairs = .error cause) :
    functions? (Assoc.ofPairs pairs) = .error cause := by
  unfold ofEntries at h
  cases hfs : functions? (Assoc.ofPairs pairs) with
  | error e' =>
      rw [hfs] at h
      rw [Except.error.inj h]
  | ok fs =>
      rw [hfs] at h
      contradiction

/-- A registry made of entries finds under each key the last entry, which is a
function. -/
theorem lookup_of_ofEntries (h : ofEntries pairs = .ok r) (key : String) :
    (r.lookup key).map Entry.function = Assoc.last? key pairs := by
  obtain ⟨fs, hfs, rfl⟩ := ofEntries_eq_ok h
  have hentries := functions?_eq_ok hfs
  have hkeys : (fs.map Prod.fst).Nodup := by
    have hnodup := Assoc.nodup_keys pairs
    rw [← Assoc.map_fst_ofPairs, hentries, List.map_map] at hnodup
    exact hnodup
  have hlookup : ∀ f, (ofFunctions fs).lookup key = some f ↔ (key, f) ∈ fs := fun _ =>
    lookup_ofFunctions_eq_some_iff hkeys
  apply Option.ext
  intro entry
  rw [← Assoc.mem_ofPairs, hentries, Option.map_eq_some_iff, List.mem_map]
  constructor
  · rintro ⟨f, hf, rfl⟩
    exact ⟨(key, f), (hlookup f).mp hf, rfl⟩
  · rintro ⟨⟨k, f⟩, hmem, heq⟩
    obtain ⟨rfl, rfl⟩ := Prod.mk.inj heq
    exact ⟨f, (hlookup f).mpr hmem, rfl⟩

theorem ext_of_lookup (h : ∀ key, r.lookup key = r'.lookup key) : r = r' := by
  have hmem : ∀ item, item ∈ r.items ↔ item ∈ r'.items := by
    rintro ⟨key, f⟩
    rw [← lookup_eq_some_iff, ← lookup_eq_some_iff, h key]
  have hperm : r.items.Perm r'.items :=
    (List.perm_ext_iff_of_nodup r.nodup_keys.of_map r'.nodup_keys.of_map).mpr hmem
  have hitems : r.items = r'.items := by
    apply hperm.eq_of_pairwise _ r.increasing r'.increasing
    intro a b _ _ hlt hgt
    exact absurd hgt (String.lt_asymm hlt)
  cases r
  cases r'
  simpa using hitems

theorem mem_keys_iff {key : String} : key ∈ r.keys ↔ (r.lookup key).isSome = true := by
  rw [keys, List.mem_map, Option.isSome_iff_exists]
  constructor
  · rintro ⟨⟨k, f⟩, hmem, rfl⟩
    exact ⟨f, lookup_eq_some_iff.mpr hmem⟩
  · rintro ⟨f, hf⟩
    exact ⟨(key, f), lookup_eq_some_iff.mp hf, rfl⟩

/-! ## All views of a registry -/

/-- The code points of a text. -/
def codePoints (text : String) : List ℕ := text.toList.map Char.toNat

theorem codePoints_lt {a b : String} (h : a < b) : codePoints a < codePoints b :=
  List.map_lt (fun _ _ hlt => hlt) (String.lt_iff.mp h)

/-- All views of a registry show the last entry under each key that was given, and nothing
else. -/
structure Represents (r : Registry) (pairs : List (String × Entry)) : Prop where
  increasing : r.keys.Pairwise fun a b => codePoints a < codePoints b
  keys : r.keys.Perm (Assoc.keys pairs)
  size : r.size = (Assoc.keys pairs).length
  items : r.items.map (fun item => (item.1, some item.2)) =
    r.keys.map fun key => (key, r.lookup key)
  lookup : ∀ key, (r.lookup key).map Entry.function = Assoc.last? key pairs
  contains : ∀ key, r.contains key = (r.lookup key).isSome ∧
    (r.contains key = true ↔ key ∈ pairs.map Prod.fst)

/-- The last entry under this key is not a function, and under every key that has its
place before it the last entry is one. -/
def IsFirstForeign (pairs : List (String × Entry)) (key : String) (content : Item) : Prop :=
  Assoc.last? key pairs = some (.foreign content) ∧
    ∃ before after, Assoc.keys pairs = before ++ key :: after ∧
      ∀ k ∈ before, ∃ f, Assoc.last? k pairs = some (.function f)

theorem represents_of_ofEntries (h : ofEntries pairs = .ok r) : r.Represents pairs := by
  have hlookup := lookup_of_ofEntries h
  have hgiven : ∀ key, (r.lookup key).isSome = true ↔ key ∈ pairs.map Prod.fst := by
    intro key
    rw [← Option.isSome_map (f := Entry.function), hlookup key, Option.isSome_iff_ne_none,
      Ne, Assoc.last?_eq_none_iff, not_not]
  have hkeys : r.keys.Perm (Assoc.keys pairs) := by
    apply (List.perm_ext_iff_of_nodup r.nodup_keys (Assoc.nodup_keys pairs)).mpr
    intro key
    exact mem_keys_iff.trans ((hgiven key).trans Assoc.mem_keys.symm)
  refine ⟨?_, hkeys, ?_, ?_, hlookup, fun key => ⟨rfl, hgiven key⟩⟩
  · rw [Registry.keys, List.pairwise_map]
    exact r.increasing.imp codePoints_lt
  · rw [← hkeys.length_eq, Registry.size, Registry.keys, List.length_map]
  · rw [Registry.keys, List.map_map]
    apply List.map_congr_left
    rintro ⟨key, f⟩ hmem
    exact congrArg (Prod.mk key) (lookup_eq_some_iff.mpr hmem).symm

/-- The first entry that is not a function is named, with how it is written, or else the
fault that arose in writing it is reported. -/
structure Refuses (pairs : List (String × Entry)) (cause : Fatal) (key : String)
    (content : Item) : Prop where
  first : IsFirstForeign pairs key content
  named : ∀ text, content.fullText = .ok text → cause = .signature (.notAFunction key text)
  unwritten : ∀ fault, content.fullText = .error fault → cause = .fault fault

theorem refuses_of_ofEntries {cause : Fatal} (h : ofEntries pairs = .error cause) :
    ∃ key content, Refuses pairs cause key content := by
  obtain ⟨before, key, content, after, hentries, rfl, hbefore⟩ :=
    functions?_eq_error (ofEntries_eq_error h)
  have hmem : ∀ entry ∈ Assoc.ofPairs pairs, Assoc.last? entry.1 pairs = some entry.2 :=
    fun entry hentry => Assoc.mem_ofPairs.mp hentry
  rw [hentries] at hmem
  refine ⟨key, content, ⟨hmem (key, .foreign content) (by simp), before.map Prod.fst,
    after.map Prod.fst, ?_, ?_⟩, ?_, ?_⟩
  · rw [← Assoc.map_fst_ofPairs, hentries, List.map_append, List.map_cons]
  · intro k hk
    obtain ⟨entry, hentry, rfl⟩ := List.mem_map.mp hk
    obtain ⟨f, hf⟩ := hbefore entry hentry
    exact ⟨f, hf ▸ hmem entry (List.mem_append_left _ hentry)⟩
  · intro text htext
    rw [htext, refusal]
  · intro fault hfault
    rw [hfault, refusal]

theorem exists_error_iff :
    (∃ cause, ofEntries pairs = .error cause) ↔
      ∃ key content, Assoc.last? key pairs = some (.foreign content) := by
  constructor
  · rintro ⟨cause, h⟩
    obtain ⟨key, content, hrefuses⟩ := refuses_of_ofEntries h
    exact ⟨key, content, hrefuses.first.1⟩
  · rintro ⟨key, content, hforeign⟩
    cases h : ofEntries pairs with
    | error cause => exact ⟨cause, rfl⟩
    | ok r =>
        have hlookup := lookup_of_ofEntries h key
        rw [hforeign, Option.map_eq_some_iff] at hlookup
        obtain ⟨f, -, hf⟩ := hlookup
        contradiction

theorem ofEntries_of_perm {pairs' : List (String × Entry)} (hkeys : (pairs.map Prod.fst).Nodup)
    (hperm : pairs.Perm pairs') (h : ofEntries pairs = .ok r) : ofEntries pairs' = .ok r := by
  have hlast : ∀ key, Assoc.last? key pairs = Assoc.last? key pairs' := fun _ =>
    Assoc.last?_of_perm hkeys hperm
  cases h' : ofEntries pairs' with
  | error cause =>
      obtain ⟨key, content, hforeign⟩ := exists_error_iff.mp ⟨cause, h'⟩
      obtain ⟨cause', herror⟩ := exists_error_iff.mpr ⟨key, content, (hlast key).trans hforeign⟩
      rw [h] at herror
      contradiction
  | ok r' =>
      have hsame : r' = r := by
        apply ext_of_lookup
        intro key
        have hinjective : Function.Injective (Option.map Entry.function) :=
          Option.map_injective fun _ _ => Entry.function.inj
        apply hinjective
        rw [lookup_of_ofEntries h', lookup_of_ofEntries h, hlast]
      rw [hsame]

/-- A registry is a faithful finite map.  There is none exactly if some entry that counts is
not a function, and then the first such key is named, in the order of first places, unless
its entry cannot be written.  Otherwise all views agree on the last entries.  Entries under
distinct keys make registries in any order that have the same functions, the same listings
and the same sessions. -/
theorem ofEntries_represents (pairs : List (String × Entry)) :
    ((∃ cause, ofEntries pairs = .error cause) ↔
        ∃ key content, Assoc.last? key pairs = some (.foreign content)) ∧
      (∀ cause, ofEntries pairs = .error cause →
        ∃ key content, Refuses pairs cause key content) ∧
      (∀ r, ofEntries pairs = .ok r → r.Represents pairs) ∧
      ∀ (pairs' : List (String × Entry)) (r : Registry), (pairs.map Prod.fst).Nodup →
        pairs.Perm pairs' → ofEntries pairs = .ok r →
        ∃ r', ofEntries pairs' = .ok r' ∧ r'.items = r.items ∧
          (∀ key, r'.lookup key = r.lookup key) ∧
          (∀ colour, Display.registry colour r' = Display.registry colour r) ∧
          (∀ s steps, Session.runAlone r' s steps = Session.runAlone r s steps) ∧
          ∀ (σ : Type) (effect : Effect σ) (outside : σ) moves,
            ((Store.runAll effect moves).run (.ofRegistry r' outside)).1 =
              ((Store.runAll effect moves).run (.ofRegistry r outside)).1 := by
  refine ⟨exists_error_iff, fun cause => refuses_of_ofEntries,
    fun r => represents_of_ofEntries, ?_⟩
  intro pairs' r hkeys hperm h
  exact ⟨r, ofEntries_of_perm hkeys hperm h, rfl, fun _ => rfl, fun _ => rfl, fun _ _ => rfl,
    fun _ _ _ _ => rfl⟩

/-- Entries of which one replaces an entry that is not a function, entries of which the one
that counts under the first key is not a function, and two entries in both orders. -/
theorem ofEntries_represents_of_repeated :
    let one : Function := ⟨"one", ⟨[], [.i32]⟩, Stock.constant (.value (.i32 1))⟩
    let half : Function := ⟨"half", ⟨[], [.f64]⟩, Stock.constant (.datum .nothing)⟩
    let given := [("é", Entry.function one), ("z", Entry.function half)]
    let r := ofFunctions [("é", one), ("z", half)]
    let repaired :=
      [("é", .foreign (.datum .nothing)), ("z", .function half), ("é", .function one)]
    let broken := [("z", .function half), ("é", .foreign (.datum .nothing)),
      ("z", .foreign (.datum (.truth true)))]
    (ofEntries repaired = .ok r ∧ r.Represents repaired ∧ r.keys = ["z", "é"]) ∧
      (ofEntries broken = .error (.signature (.notAFunction "z" "True")) ∧
        ∃ key content, Refuses broken (.signature (.notAFunction "z" "True")) key content) ∧
      (given.map Prod.fst).Nodup ∧ given.Perm given.reverse ∧ ofEntries given = .ok r ∧
        ∃ r', ofEntries given.reverse = .ok r' ∧ r'.items = r.items ∧
          (∀ key, r'.lookup key = r.lookup key) ∧
          (∀ colour, Display.registry colour r' = Display.registry colour r) ∧
          (∀ s steps, Session.runAlone r' s steps = Session.runAlone r s steps) ∧
          ∀ (σ : Type) (effect : Effect σ) (outside : σ) moves,
            ((Store.runAll effect moves).run (.ofRegistry r' outside)).1 =
              ((Store.runAll effect moves).run (.ofRegistry r outside)).1 := by
  intro one half given r repaired broken
  have hrepaired : ofEntries repaired = .ok r := by rfl
  have hbroken : ofEntries broken = .error (.signature (.notAFunction "z" "True")) := by rfl
  have hgiven : ofEntries given = .ok r := by rfl
  have hkeys : (given.map Prod.fst).Nodup := by decide
  have hperm : given.Perm given.reverse := (List.reverse_perm given).symm
  exact ⟨⟨hrepaired, (ofEntries_represents repaired).2.2.1 r hrepaired, by decide +kernel⟩,
    ⟨hbroken, (ofEntries_represents broken).2.1 _ hbroken⟩, hkeys, hperm, hgiven,
    (ofEntries_represents given).2.2.2 _ r hkeys hperm hgiven⟩

/-- An integer that is too long to be written is no function; but this is not what is
reported, for the report cannot be written. -/
theorem ofEntries_of_long_integer :
    let pairs := [("wide", Entry.foreign (.datum (.integer (10 ^ integerDigitLimit))))]
    IsFirstForeign pairs "wide" (.datum (.integer (10 ^ integerDigitLimit))) ∧
      ofEntries pairs = .error (.fault .integerTooLong) := by
  have hlong := integerText_ten_pow
  generalize (10 ^ integerDigitLimit : ℤ) = n at hlong ⊢
  intro pairs
  constructor
  · refine ⟨rfl, [], [], rfl, ?_⟩
    intro key hkey
    contradiction
  · change Except.error (refusal "wide" (integerText n)) = _
    rw [hlong]
    rfl

end Registry

end PostfixCalc
