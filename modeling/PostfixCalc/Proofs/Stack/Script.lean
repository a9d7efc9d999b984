import Mathlib.Data.Int.Basic
import PostfixCalc.Proofs.Application
import PostfixCalc.Stack.Script

/-!
# Stack operations agree with one another

Depths are integers, and each operation has bounds of its own: values are read at depths
below the height, and up to as many values as there are can be removed.  Outside these
bounds an operation is refused and nothing happens.  Within them all operations are
about one row of values: what is read at depths is what slices hold and what is popped,
what is removed is what is popped, and a slice put back restores the stack.
-/

namespace PostfixCalc

namespace Stack

/-- The depths and counts that an operation takes on a stack of a height. -/
def Reach.Admits : Reach → ℕ → ℤ → Prop
  | peek, height, n => 0 ≤ n ∧ n < height
  | slice, height, n => 0 ≤ n ∧ n < height
  | chop, height, n => 0 ≤ n ∧ n ≤ height

theorem Reach.Admits.nonneg {reach : Reach} {height : ℕ} {n : ℤ}
    (h : reach.Admits height n) : 0 ≤ n := by
  cases reach with
  | peek => exact h.1
  | slice => exact h.1
  | chop => exact h.1

variable {s : Stack}

theorem peek_of_not_admits {n : ℤ} (h : ¬Reach.peek.Admits s.height n) :
    s.peek n = .error ⟨.peek, n, s.height⟩ := by
  unfold peek
  split
  · rfl
  · next hnonneg =>
    have hnone : s.fromTop[n.toNat]? = none := by
      rw [List.getElem?_eq_none_iff]
      unfold Reach.Admits height at h
      omega
    rw [hnone]

theorem slice_of_not_admits {n : ℤ} (h : ¬Reach.slice.Admits s.height n) :
    s.slice n = .error ⟨.slice, n, s.height⟩ := by
  unfold Reach.Admits at h
  rw [slice, if_pos (by omega)]

theorem chop_of_not_admits {n : ℤ} (h : ¬Reach.chop.Admits s.height n) :
    s.chop n = .error ⟨.chop, n, s.height⟩ := by
  unfold Reach.Admits at h
  rw [chop, if_pos (by omega)]

variable {n : ℕ}

theorem exists_getElem? (h : n < s.height) : ∃ v, s.fromTop[n]? = some v :=
  ⟨_, List.getElem?_eq_getElem h⟩

theorem peek_natCast {v : Value} (h : s.fromTop[n]? = some v) : s.peek n = .ok v := by
  have hnonneg : ¬(n : ℤ) < 0 := by omega
  rw [peek, if_neg hnonneg, Int.toNat_natCast, h]

theorem slice_natCast (h : n < s.height) : s.slice n = .ok (s.top (n + 1)) := by
  rw [slice, if_neg (by omega), Int.toNat_natCast]

theorem chop_natCast (h : n ≤ s.height) : s.chop n = .ok (s.drop n) := by
  rw [chop, if_neg (by omega), Int.toNat_natCast]

theorem top_eq_drop_toList (s : Stack) (n : ℕ) : s.top n = s.toList.drop (s.height - n) := by
  rw [top, toList, List.reverse_take]
  rfl

theorem getElem?_top (h : n < s.height) {i : ℕ} (hi : i ≤ n) :
    (s.top (n + 1))[i]? = s.fromTop[n - i]? := by
  have hlength : (s.fromTop.take (n + 1)).length = n + 1 := by
    rw [List.length_take]
    exact Nat.min_eq_left h
  rw [top, List.getElem?_reverse (by omega), hlength, List.getElem?_take_of_lt (by omega)]
  rfl

theorem extend_cons (s : Stack) (v : Value) (vs : List Value) :
    s.extend (v :: vs) = (s.push v).extend vs := by
  rw [← List.singleton_append, extend_append, extend_singleton]

end Stack

/-! ## Steps in a row -/

namespace Script

variable {state : State}

/-- The step that carries out an operation at a depth. -/
def Step.reaching (n : ℤ) : Stack.Reach → Step
  | .peek => .peek n
  | .slice => .slice n
  | .chop => .chop n

theorem run_of_error {step : Step} {trouble : Trouble}
    (h : (run state step).1 = .error trouble) : (run state step).2 = state := by
  cases step with
  | push _ | extend _ | pop | clear | keepCursor | drainCursor => contradiction
  | height | list | fullText => rfl
  | peek _ =>
      rw [run]
      split
      · rfl
      · rfl
  | slice _ =>
      rw [run]
      split
      · rfl
      · rfl
  | chop _ =>
      rw [run] at h ⊢
      split at h
      · contradiction
      · rfl
  | apply _ =>
      rw [run] at h ⊢
      split at h
      · contradiction
      · rfl

theorem run_peek {n : ℕ} {v : Value} (h : state.stack.fromTop[n]? = some v) :
    run state (.peek n) = (.ok (.value? (some v)), state) := by
  rw [run, Stack.peek_natCast h]

theorem run_slice {n : ℕ} (h : n < state.stack.height) :
    run state (.slice n) = (.ok (.values (state.stack.top (n + 1))), state) := by
  rw [run, Stack.slice_natCast h]

theorem run_chop {n : ℕ} (h : n ≤ state.stack.height) :
    run state (.chop n) = (.ok .done, { state with stack := state.stack.drop n }) := by
  rw [run, Stack.chop_natCast h]

theorem run_reaching_of_not_admits {reach : Stack.Reach} {n : ℤ}
    (h : ¬reach.Admits state.stack.height n) :
    run state (.reaching n reach) =
      (.error (.outOfReach ⟨reach, n, state.stack.height⟩), state) := by
  cases reach with
  | peek => rw [Step.reaching, run, Stack.peek_of_not_admits h]
  | slice => rw [Step.reaching, run, Stack.slice_of_not_admits h]
  | chop => rw [Step.reaching, run, Stack.chop_of_not_admits h]

theorem exists_answer_of_admits {reach : Stack.Reach} {n : ℤ}
    (h : reach.Admits state.stack.height n) :
    ∃ answer, (run state (.reaching n reach)).1 = .ok answer := by
  obtain ⟨k, rfl⟩ := Int.eq_ofNat_of_zero_le h.nonneg
  cases reach with
  | peek =>
      obtain ⟨v, hv⟩ := Stack.exists_getElem? (Int.ofNat_lt.mp h.2)
      exact ⟨_, congrArg Prod.fst (run_peek hv)⟩
  | slice => exact ⟨_, congrArg Prod.fst (run_slice (Int.ofNat_lt.mp h.2))⟩
  | chop => exact ⟨_, congrArg Prod.fst (run_chop (Int.ofNat_le.mp h.2))⟩

theorem exists_error_iff (state : State) (reach : Stack.Reach) (n : ℤ) :
    (∃ trouble, (run state (.reaching n reach)).1 = .error trouble) ↔
      ¬reach.Admits state.stack.height n := by
  constructor
  · rintro ⟨trouble, herror⟩ hadmits
    obtain ⟨answer, hok⟩ := exists_answer_of_admits hadmits
    rw [hok] at herror
    contradiction
  · intro hnot
    exact ⟨_, congrArg Prod.fst (run_reaching_of_not_admits hnot)⟩

theorem runAll_cons {first : Step} {rest : List Step} {result : Except Trouble Answer}
    {after : State} (h : run state first = (result, after)) :
    runAll state (first :: rest) = (result :: (runAll after rest).1, (runAll after rest).2) := by
  rw [runAll, h]

theorem runAll_pop {n : ℕ} (h : n ≤ state.stack.height) :
    runAll state (List.replicate n .pop) =
      ((List.range n).map fun k : ℕ => (run state (.peek k)).1,
        { state with stack := state.stack.drop n }) := by
  induction n generalizing state with
  | zero => rfl
  | succ n ih =>
      obtain ⟨⟨_ | ⟨v, vs⟩⟩, cursor⟩ := state
      · contradiction
      · have hrest : n ≤ vs.length := Nat.le_of_succ_le_succ h
        -- the value at a depth of what is left lies one deeper in the whole stack
        have hdeeper : ∀ k ∈ List.range n, (run ⟨⟨vs⟩, cursor⟩ (.peek k)).1 =
            (run ⟨⟨v :: vs⟩, cursor⟩ (.peek (k + 1 : ℕ))).1 := by
          intro k hk
          have hlt : k < vs.length := Nat.lt_of_lt_of_le (List.mem_range.mp hk) hrest
          obtain ⟨w, hw⟩ := Stack.exists_getElem? (s := ⟨vs⟩) hlt
          have hrest : run ⟨⟨vs⟩, cursor⟩ (.peek k) = (.ok (.value? (some w)), ⟨⟨vs⟩, cursor⟩) :=
            run_peek hw
          have hwhole : run ⟨⟨v :: vs⟩, cursor⟩ (.peek (k + 1 : ℕ)) =
              (.ok (.value? (some w)), ⟨⟨v :: vs⟩, cursor⟩) := run_peek hw
          rw [hrest, hwhole]
        have hfirst : run ⟨⟨v :: vs⟩, cursor⟩ .pop = (.ok (.value? (some v)), ⟨⟨vs⟩, cursor⟩) := rfl
        have hlater : runAll ⟨⟨vs⟩, cursor⟩ (List.replicate n .pop) = _ := ih hrest
        rw [List.replicate_succ, runAll_cons hfirst, hlater, List.map_congr_left hdeeper,
          List.range_succ_eq_map, List.map_cons, List.map_map]
        rfl

theorem runAll_push (state : State) (vs : List Value) :
    runAll state (vs.map .push) =
      (vs.map fun _ => .ok .done, { state with stack := state.stack.extend vs }) := by
  induction vs generalizing state with
  | nil => rfl
  | cons v vs ih =>
      rw [List.map_cons, runAll, run, ih, Stack.extend_cons]
      rfl

/-- The topmost values, read before they are removed and put back afterwards, restore the
stack. -/
theorem runAll_slice_chop_extend {n : ℕ} (h : n + 1 ≤ state.stack.height) :
    runAll state [.slice n, .chop (n + 1 : ℕ), .extend (state.stack.top (n + 1))] =
      ([.ok (.values (state.stack.top (n + 1))), .ok .done, .ok .done], state) := by
  have hextend : run ⟨state.stack.drop (n + 1), state.cursor⟩ (.extend (state.stack.top (n + 1))) =
      (.ok .done, state) := by
    rw [run, Stack.extend_drop_top]
  rw [runAll_cons (run_slice h), runAll_cons (run_chop h), runAll_cons hextend, runAll]

/-! ## Coherence -/

/-- What the operations at a depth, or with a count, have to do with one another. -/
structure Coherent (state : State) (n : ℤ) : Prop where
  /-- An operation is refused exactly outside its bounds. -/
  refused_iff : ∀ reach, (∃ trouble, (run state (.reaching n reach)).1 = .error trouble) ↔
    ¬reach.Admits state.stack.height n
  /-- An operation that is refused has done nothing. -/
  refused : ∀ reach trouble, (run state (.reaching n reach)).1 = .error trouble →
    trouble = .outOfReach ⟨reach, n, state.stack.height⟩ ∧
      (run state (.reaching n reach)).2 = state
  /-- A slice is made of the last values, oldest first, which are those that are read at its
  depth and above. -/
  slice : 0 ≤ n → n < state.stack.height →
    ∃ vs, run state (.slice n) = (.ok (.values vs), state) ∧
      vs = state.stack.toList.drop (state.stack.height - (n.toNat + 1)) ∧
      vs.length = n.toNat + 1 ∧
      ∀ i : ℕ, i ≤ n → ∃ v, vs[i]? = some v ∧
        run state (.peek (n - i)) = (.ok (.value? (some v)), state)
  /-- Values that are read, removed and put back are there again. -/
  restore : 1 ≤ n → n ≤ state.stack.height →
    ∃ vs, run state (.slice (n - 1)) = (.ok (.values vs), state) ∧
      runAll state [.slice (n - 1), .chop n, .extend vs] =
        ([.ok (.values vs), .ok .done, .ok .done], state)
  /-- Popping reads the values from the top down, and removes as many. -/
  pop : 0 ≤ n → n ≤ state.stack.height →
    (run state (.chop n)).1 = .ok .done ∧
      runAll state (List.replicate n.toNat .pop) =
        ((List.range n.toNat).map fun k : ℕ => (run state (.peek k)).1,
          (run state (.chop n)).2) ∧
      ∀ k : ℕ, k < n → ∃ v, run state (.peek k) = (.ok (.value? (some v)), state)
  /-- Pushing values one by one puts them all on top. -/
  push : ∀ vs, runAll state (vs.map .push) =
    (vs.map fun _ => .ok .done, (run state (.extend vs)).2)
  /-- Removing no values does nothing. -/
  chop_zero : run state (.chop 0) = (.ok .done, state)

/-- The operations on a stack are coherent at every depth, negative ones and those outside
the stack included. -/
theorem coherent (state : State) (n : ℤ) : Coherent state n where
  refused_iff reach := exists_error_iff state reach n
  refused reach trouble herror := by
    have hnot := (exists_error_iff state reach n).mp ⟨trouble, herror⟩
    refine ⟨?_, run_of_error herror⟩
    rw [run_reaching_of_not_admits hnot] at herror
    exact (Except.error.inj herror).symm
  slice := by
    intro hnonneg hlt
    obtain ⟨d, rfl⟩ := Int.eq_ofNat_of_zero_le hnonneg
    have hd : d < state.stack.height := by omega
    rw [Int.toNat_natCast]
    refine ⟨_, run_slice hd, Stack.top_eq_drop_toList _ _, Stack.length_top hd, ?_⟩
    intro i hi
    have hdepth : (d : ℤ) - i = ((d - i : ℕ) : ℤ) := by omega
    obtain ⟨v, hv⟩ := Stack.exists_getElem? (s := state.stack) (n := d - i) (by omega)
    rw [Stack.getElem?_top hd (by omega), hdepth]
    exact ⟨v, hv, run_peek hv⟩
  restore := by
    intro hpos hle
    obtain ⟨d, hd⟩ := Int.eq_ofNat_of_zero_le (by omega : 0 ≤ n - 1)
    obtain rfl : n = (d + 1 : ℕ) := by omega
    have hheight : d + 1 ≤ state.stack.height := by omega
    rw [hd]
    exact ⟨_, run_slice hheight, runAll_slice_chop_extend hheight⟩
  pop := by
    intro hnonneg hle
    obtain ⟨d, rfl⟩ := Int.eq_ofNat_of_zero_le hnonneg
    have hd : d ≤ state.stack.height := by omega
    rw [Int.toNat_natCast, run_chop hd, runAll_pop hd]
    refine ⟨rfl, rfl, ?_⟩
    intro k hk
    obtain ⟨v, hv⟩ := Stack.exists_getElem? (s := state.stack) (n := k) (by omega)
    exact ⟨v, run_peek hv⟩
  push := runAll_push state
  chop_zero := run_chop (n := 0) (Nat.zero_le _)

end Script
end PostfixCalc
