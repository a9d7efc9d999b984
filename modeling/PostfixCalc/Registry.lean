import PostfixCalc.Application
import PostfixCalc.Function.Builtin

/-!
# Registries of functions

A registry maps keys to functions and never changes.  It is kept sorted by key,
in the order of code points, so that registries with the same entries are equal
whatever the order in which the entries were given.
-/

namespace PostfixCalc

/-- What may be offered as an entry of a registry. -/
inductive Entry where
  | function (f : Function)
  | foreign (content : Item)

/-- Association lists in which a key keeps its first place and its last value. -/
def Assoc.insert {κ α : Type} [DecidableEq κ] (key : κ) (a : α) : List (κ × α) → List (κ × α)
  | [] => [(key, a)]
  | (k, b) :: rest =>
    if k = key then (k, a) :: rest else (k, b) :: insert key a rest

/-- Drops repeated keys: each keeps its first place and its last value. -/
def Assoc.ofPairs {κ α : Type} [DecidableEq κ] (pairs : List (κ × α)) : List (κ × α) :=
  pairs.foldl (fun acc pair => insert pair.1 pair.2 acc) []

/-- The functions of a registry with their keys, in increasing order of keys. -/
structure Registry where
  items : List (String × Function)
  increasing : items.Pairwise fun a b => a.1 < b.1

namespace Registry

/-- Inserts an entry in front of the first greater key, and in place of an equal
one. -/
def insertSorted (key : String) (f : Function) :
    List (String × Function) → List (String × Function)
  | [] => [(key, f)]
  | (k, g) :: rest =>
    if key < k then (key, f) :: (k, g) :: rest
    else if k < key then (k, g) :: insertSorted key f rest
    else (key, f) :: rest

theorem mem_insertSorted {key : String} {f : Function} {items : List (String × Function)}
    {item : String × Function} (h : item ∈ insertSorted key f items) :
    item = (key, f) ∨ item ∈ items := by
  induction items with
  | nil => simpa [insertSorted] using h
  | cons head rest ih =>
    obtain ⟨k, g⟩ := head
    rw [insertSorted] at h
    split at h
    · simpa using h
    · split at h
      · rcases List.mem_cons.mp h with h | h
        · exact Or.inr (by simp [h])
        · rcases ih h with h | h
          · exact Or.inl h
          · exact Or.inr (List.mem_cons_of_mem _ h)
      · rcases List.mem_cons.mp h with h | h
        · exact Or.inl h
        · exact Or.inr (List.mem_cons_of_mem _ h)

theorem pairwise_insertSorted (key : String) (f : Function)
    {items : List (String × Function)}
    (h : items.Pairwise fun a b => a.1 < b.1) :
    (insertSorted key f items).Pairwise fun a b => a.1 < b.1 := by
  induction items with
  | nil => simp [insertSorted]
  | cons head rest ih =>
    obtain ⟨k, g⟩ := head
    obtain ⟨hhead, hrest⟩ := List.pairwise_cons.mp h
    rw [insertSorted]
    split
    · rename_i hlt
      refine List.pairwise_cons.mpr ⟨?_, h⟩
      intro item hitem
      rcases List.mem_cons.mp hitem with rfl | hitem
      · exact hlt
      · exact String.lt_trans hlt (hhead item hitem)
    · split
      · rename_i hlt
        refine List.pairwise_cons.mpr ⟨?_, ih hrest⟩
        intro item hitem
        rcases mem_insertSorted hitem with rfl | hitem
        · exact hlt
        · exact hhead item hitem
      · rename_i hle hge
        have hkey : k = key := String.le_antisymm (String.not_lt.mp hle) (String.not_lt.mp hge)
        subst hkey
        exact List.pairwise_cons.mpr ⟨hhead, hrest⟩

def empty : Registry := ⟨[], List.Pairwise.nil⟩

instance : Inhabited Registry := ⟨empty⟩

/-- Adds an entry; an earlier one under the same key is replaced. -/
def insert (r : Registry) (key : String) (f : Function) : Registry :=
  ⟨insertSorted key f r.items, pairwise_insertSorted key f r.increasing⟩

/-- The registry of functions under their keys; of several functions under one key
the last one counts. -/
def ofFunctions (pairs : List (String × Function)) : Registry :=
  pairs.foldl (fun r pair => r.insert pair.1 pair.2) empty

/-- Reports that an entry is not a function, given how it is written. -/
def refusal (key : String) : Except Fault String → Fatal
  | .ok text => .signature (.notAFunction key text)
  | .error fault => .fault fault

/-- The functions among checked entries.  The first entry that is none is refused. -/
def functions? : List (String × Entry) → Except Fatal (List (String × Function))
  | [] => .ok []
  | (key, .foreign content) :: _ => .error (refusal key content.fullText)
  | (key, .function f) :: rest =>
    match functions? rest with
    | .ok pairs => .ok ((key, f) :: pairs)
    | .error e => .error e

/-- The registry of a list of entries.  Repeated keys are settled first, and the
entries that remain are checked in order. -/
def ofEntries (pairs : List (String × Entry)) : Except Fatal Registry :=
  (functions? (Assoc.ofPairs pairs)).map ofFunctions

def lookup (r : Registry) (key : String) : Option Function :=
  (r.items.find? fun item => item.1 == key).map Prod.snd

def contains (r : Registry) (key : String) : Bool := (r.lookup key).isSome

def keys (r : Registry) : List String := r.items.map Prod.fst

def size (r : Registry) : Nat := r.items.length

def builtin : Registry :=
  ofFunctions (Builtin.table.map fun b => (b.key, b.function))

end Registry

end PostfixCalc
