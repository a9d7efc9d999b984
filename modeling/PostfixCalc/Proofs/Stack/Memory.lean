import Mathlib.Data.Nat.Notation
import PostfixCalc.Stack.Memory

/-!
# Cursors are snapshots

In memory the stack is changed in place.  No cursor ever points to it, because the values
that a cursor runs over are copied to a place of their own when it is made.  So what a
cursor has yet to run over is not changed by any step but the making and draining of this
cursor, and the stack is not changed by the making and draining of any.
-/

namespace PostfixCalc

open Script

theorem Script.Step.movesCursor_cases (step : Step) :
    step = .keepCursor ∨ step = .drainCursor ∨ step.movesCursor = false := by
  cases step with
  | keepCursor => exact Or.inl rfl
  | drainCursor => exact Or.inr (Or.inl rfl)
  | _ => exact Or.inr (Or.inr rfl)

theorem Script.run_of_not_movesCursor {step : Step} (h : step.movesCursor = false) (s : Stack)
    (c c' : Cursor) :
    run ⟨s, c⟩ step = ((run ⟨s, c'⟩ step).1, ⟨(run ⟨s, c'⟩ step).2.stack, c⟩) := by
  cases step with
  | keepCursor | drainCursor => contradiction
  | push _ | extend _ | pop | height | clear | list | fullText => rfl
  | peek _ | slice _ | chop _ | apply _ =>
      simp only [run]
      split
      · rfl
      · rfl

namespace Memory

/-- What a script sees of a memory: the stack, and what is left for its own cursor. -/
def view (m : Memory) (script : Nat) : State := ⟨m.stack, ⟨m.remaining script⟩⟩

/-- No cursor points to the stack, and nothing that is pointed to is free. -/
structure IsApart (m : Memory) : Prop where
  stack_lt : m.stackAddress < m.unused
  pointer_lt : ∀ script p, m.pointers script = some p → p.address < m.unused
  pointer_ne : ∀ script p, m.pointers script = some p → p.address ≠ m.stackAddress

variable {m : Memory}

theorem isApart_ofStack (s : Stack) : (ofStack s).IsApart where
  stack_lt := Nat.zero_lt_one
  pointer_lt _ _ h := by contradiction
  pointer_ne _ _ h := by contradiction

theorem IsApart.of_update (h : m.IsApart) {values : ℕ → List Value} {unused script : ℕ}
    {new : Option Pointer} (hunused : m.unused ≤ unused)
    (hnew : ∀ p, new = some p → p.address < unused ∧ p.address ≠ m.stackAddress) :
    IsApart ⟨values, unused, m.stackAddress, Function.update m.pointers script new⟩ := by
  have hpointers : ∀ i p, Function.update m.pointers script new i = some p →
      p.address < unused ∧ p.address ≠ m.stackAddress := by
    intro i p hp
    by_cases hi : i = script
    · subst hi
      rw [Function.update_self] at hp
      exact hnew p hp
    · rw [Function.update_of_ne hi] at hp
      exact ⟨Nat.lt_of_lt_of_le (h.pointer_lt i p hp) hunused, h.pointer_ne i p hp⟩
  exact ⟨Nat.lt_of_lt_of_le h.stack_lt hunused, fun i p hp => (hpointers i p hp).1,
    fun i p hp => (hpointers i p hp).2⟩

theorem stack_ofStack (s : Stack) : (ofStack s).stack = s := by
  simp only [stack, ofStack, Function.update_self, Stack.ofList_toList]

theorem remaining_of_none {script : ℕ} (h : m.pointers script = none) :
    m.remaining script = [] := by
  rw [remaining, h]

theorem remaining_of_some {script : ℕ} {p : Pointer} (h : m.pointers script = some p) :
    m.remaining script = (m.values p.address).drop p.passed := by
  rw [remaining, h]

theorem stack_setStack (m : Memory) (s : Stack) : (m.setStack s).stack = s := by
  simp only [stack, setStack, Function.update_self, Stack.ofList_toList]

theorem remaining_congr {m' : Memory} {script : ℕ}
    (hpointer : m'.pointers script = m.pointers script)
    (hvalues : ∀ p, m.pointers script = some p → m'.values p.address = m.values p.address) :
    m'.remaining script = m.remaining script := by
  cases h : m.pointers script with
  | none => rw [remaining_of_none h, remaining_of_none (hpointer.trans h)]
  | some p => rw [remaining_of_some h, remaining_of_some (hpointer.trans h), hvalues p h]

/-- The stack can be changed in place, since no cursor points to it. -/
theorem remaining_setStack (h : m.IsApart) (s : Stack) (script : ℕ) :
    (m.setStack s).remaining script = m.remaining script :=
  remaining_congr rfl fun p hp => Function.update_of_ne (h.pointer_ne script p hp) ..

theorem isApart_setStack (h : m.IsApart) (s : Stack) : (m.setStack s).IsApart :=
  ⟨h.stack_lt, h.pointer_lt, h.pointer_ne⟩

theorem stack_keepCursor (h : m.IsApart) (script : ℕ) :
    (m.keepCursor script).stack = m.stack := by
  simp only [stack, keepCursor, Function.update_of_ne (Nat.ne_of_lt h.stack_lt)]

theorem remaining_keepCursor_self (m : Memory) (script : ℕ) :
    (m.keepCursor script).remaining script = m.stack.toList := by
  simp only [remaining, keepCursor, Function.update_self, List.drop_zero, stack,
    Stack.toList_ofList]

theorem remaining_keepCursor_of_ne (h : m.IsApart) {script other : ℕ} (hother : other ≠ script) :
    (m.keepCursor script).remaining other = m.remaining other :=
  remaining_congr (Function.update_of_ne hother ..) fun p hp =>
    Function.update_of_ne (Nat.ne_of_lt (h.pointer_lt other p hp)) ..

theorem isApart_keepCursor (h : m.IsApart) (script : ℕ) : (m.keepCursor script).IsApart := by
  refine h.of_update (Nat.le_succ m.unused) fun p hp => ?_
  rw [← Option.some.inj hp]
  exact ⟨Nat.lt_succ_self m.unused, Nat.ne_of_gt h.stack_lt⟩

theorem remaining_drainCursor_self (m : Memory) (script : ℕ) :
    (m.drainCursor script).remaining script = [] := by
  cases h : m.pointers script with
  | none => simp only [remaining, drainCursor, Function.update_self, h, Option.map_none]
  | some p =>
      simp only [remaining, drainCursor, Function.update_self, h, Option.map_some,
        List.drop_length]

theorem remaining_drainCursor_of_ne (m : Memory) {script other : ℕ} (hother : other ≠ script) :
    (m.drainCursor script).remaining other = m.remaining other :=
  remaining_congr (Function.update_of_ne hother ..) fun _ _ => rfl

theorem isApart_drainCursor (h : m.IsApart) (script : ℕ) : (m.drainCursor script).IsApart := by
  refine h.of_update (Nat.le_refl m.unused) fun p hp => ?_
  obtain ⟨q, hq, rfl⟩ := Option.map_eq_some_iff.mp hp
  exact ⟨h.pointer_lt script q hq, h.pointer_ne script q hq⟩

/-! ## One step -/

theorem run_of_not_movesCursor {step : Step} (h : step.movesCursor = false) (m : Memory)
    (script : ℕ) :
    m.run script step =
      ((Script.run (start m.stack) step).1,
        m.setStack (Script.run (start m.stack) step).2.stack) := by
  cases step with
  | keepCursor | drainCursor => contradiction
  | _ => rfl

theorem isApart_run (h : m.IsApart) (script : ℕ) (step : Step) :
    (m.run script step).2.IsApart := by
  rcases step.movesCursor_cases with rfl | rfl | hstep
  · exact isApart_keepCursor h script
  · exact isApart_drainCursor h script
  · rw [run_of_not_movesCursor hstep]
    exact isApart_setStack h _

/-- A step in memory comes to what it comes to for the script alone, and the script sees the
same afterwards. -/
theorem run_view (h : m.IsApart) (script : ℕ) (step : Step) :
    (m.run script step).1 = (Script.run (m.view script) step).1 ∧
      (m.run script step).2.view script = (Script.run (m.view script) step).2 := by
  rcases step.movesCursor_cases with rfl | rfl | hstep
  · refine ⟨rfl, ?_⟩
    rw [run, view, stack_keepCursor h, remaining_keepCursor_self]
    rfl
  · refine ⟨rfl, ?_⟩
    rw [run, view, remaining_drainCursor_self]
    rfl
  · rw [run_of_not_movesCursor hstep, view, view,
      Script.run_of_not_movesCursor hstep m.stack _ .exhausted, stack_setStack,
      remaining_setStack h]
    exact ⟨rfl, rfl⟩

theorem remaining_run_of_ne (h : m.IsApart) {script other : ℕ} (hother : other ≠ script)
    (step : Step) : (m.run script step).2.remaining other = m.remaining other := by
  rcases step.movesCursor_cases with rfl | rfl | hstep
  · exact remaining_keepCursor_of_ne h hother
  · exact remaining_drainCursor_of_ne m hother
  · rw [run_of_not_movesCursor hstep]
    exact remaining_setStack h _ other

theorem stack_run_of_movesCursor (h : m.IsApart) (script : ℕ) {step : Step}
    (hstep : step.movesCursor = true) : (m.run script step).2.stack = m.stack := by
  rcases step.movesCursor_cases with rfl | rfl | hnot
  · exact stack_keepCursor h script
  · rfl
  · rw [hnot] at hstep
    contradiction

theorem isApart_runAll (h : m.IsApart) (steps : List (ℕ × Step)) :
    (m.runAll steps).2.IsApart := by
  induction steps generalizing m with
  | nil => exact h
  | cons entry rest ih => exact ih (isApart_run h entry.1 entry.2)

/-- The steps leave the cursor of a script alone. -/
def Spares (script : ℕ) (steps : List (ℕ × Step)) : Prop :=
  ∀ entry ∈ steps, entry.1 = script → entry.2.movesCursor = false

theorem remaining_run_of_spares (h : m.IsApart) {script : ℕ} {entry : ℕ × Step}
    (hentry : entry.1 = script → entry.2.movesCursor = false) :
    (m.run entry.1 entry.2).2.remaining script = m.remaining script := by
  by_cases hscript : entry.1 = script
  · rw [run_of_not_movesCursor (hentry hscript)]
    exact remaining_setStack h _ script
  · exact remaining_run_of_ne h (Ne.symm hscript) entry.2

theorem remaining_runAll (h : m.IsApart) {script : ℕ} {steps : List (ℕ × Step)}
    (hsteps : Spares script steps) : (m.runAll steps).2.remaining script = m.remaining script := by
  induction steps generalizing m with
  | nil => rfl
  | cons entry rest ih =>
      obtain ⟨hentry, hrest⟩ := List.forall_mem_cons.mp hsteps
      rw [← remaining_run_of_spares h hentry]
      exact ih (isApart_run h entry.1 entry.2) hrest

/-- The steps of one script come to what they come to without memory. -/
theorem runAll_alone (h : m.IsApart) (script : ℕ) (steps : List Step) :
    (m.runAll (steps.map (script, ·))).1 = (Script.runAll (m.view script) steps).1 ∧
      (m.runAll (steps.map (script, ·))).2.view script =
        (Script.runAll (m.view script) steps).2 := by
  induction steps generalizing m with
  | nil => exact ⟨rfl, rfl⟩
  | cons first rest ih =>
      obtain ⟨hresult, hview⟩ := run_view h script first
      obtain ⟨hresults, hviews⟩ := ih (isApart_run h script first)
      rw [hview] at hresults hviews
      simp only [List.map_cons, runAll, Script.runAll, hresult, hresults, hviews]
      exact ⟨trivial, trivial⟩

/-! ## Leaving cursors out -/

/-- All steps but the making and draining of the cursors of some scripts. -/
def isKept (forgotten : ℕ → Bool) (entry : ℕ × Step) : Bool :=
  !(forgotten entry.1 && entry.2.movesCursor)

/-- Memories with the same stack, and with the same values to run over for all cursors but
those of some scripts. -/
structure AgreeBut (forgotten : ℕ → Bool) (m m' : Memory) : Prop where
  stack : m.stack = m'.stack
  remaining : ∀ script, forgotten script = false → m.remaining script = m'.remaining script

variable {m' : Memory} {forgotten : ℕ → Bool}

theorem AgreeBut.run_forgotten (hagree : AgreeBut forgotten m m') (h : m.IsApart)
    {entry : ℕ × Step} (hentry : isKept forgotten entry = false) :
    AgreeBut forgotten (m.run entry.1 entry.2).2 m' := by
  obtain ⟨hforgotten, hmoves⟩ : forgotten entry.1 = true ∧ entry.2.movesCursor = true := by
    simpa [isKept] using hentry
  constructor
  · rw [stack_run_of_movesCursor h entry.1 hmoves, hagree.stack]
  · intro script hscript
    have hother : script ≠ entry.1 := by
      rintro rfl
      rw [hforgotten] at hscript
      contradiction
    rw [remaining_run_of_ne h hother, hagree.remaining script hscript]

theorem AgreeBut.run_kept (hagree : AgreeBut forgotten m m') (h : m.IsApart) (h' : m'.IsApart)
    {entry : ℕ × Step} (hentry : isKept forgotten entry = true) :
    (m.run entry.1 entry.2).1 = (m'.run entry.1 entry.2).1 ∧
      AgreeBut forgotten (m.run entry.1 entry.2).2 (m'.run entry.1 entry.2).2 := by
  obtain ⟨script, step⟩ := entry
  dsimp only
  cases hmoves : step.movesCursor with
  | false =>
      rw [run_of_not_movesCursor hmoves, run_of_not_movesCursor hmoves, hagree.stack]
      refine ⟨rfl, ?_, fun other hother => ?_⟩
      · rw [stack_setStack, stack_setStack]
      · rw [remaining_setStack h, remaining_setStack h', hagree.remaining other hother]
  | true =>
      have hscript : forgotten script = false := by simpa [isKept, hmoves] using hentry
      have hviews : m.view script = m'.view script := by
        rw [view, view, hagree.stack, hagree.remaining script hscript]
      obtain ⟨hresult, hview⟩ := run_view h script step
      obtain ⟨hresult', hview'⟩ := run_view h' script step
      rw [hviews] at hresult hview
      have hafter := hview.trans hview'.symm
      refine ⟨hresult.trans hresult'.symm, congrArg State.stack hafter, fun other hother => ?_⟩
      by_cases hsame : other = script
      · subst hsame
        exact congrArg (fun state => state.cursor.remaining) hafter
      · rw [remaining_run_of_ne h hsame, remaining_run_of_ne h' hsame,
          hagree.remaining other hother]

theorem AgreeBut.runAll (hagree : AgreeBut forgotten m m') (h : m.IsApart) (h' : m'.IsApart)
    (steps : List (ℕ × Step)) :
    ((steps.zip (m.runAll steps).1).filter fun entry => isKept forgotten entry.1).map Prod.snd =
        (m'.runAll (steps.filter (isKept forgotten))).1 ∧
      AgreeBut forgotten (m.runAll steps).2 (m'.runAll (steps.filter (isKept forgotten))).2 := by
  induction steps generalizing m m' with
  | nil => exact ⟨rfl, hagree⟩
  | cons entry rest ih =>
      have hapart := isApart_run h entry.1 entry.2
      rw [Memory.runAll, List.zip_cons_cons]
      cases hentry : isKept forgotten entry with
      | false =>
          rw [List.filter_cons_of_neg (by simp [hentry]),
            List.filter_cons_of_neg (by simp [hentry])]
          exact ih (hagree.run_forgotten h hentry) hapart h'
      | true =>
          obtain ⟨hresult, hagree⟩ := hagree.run_kept h h' hentry
          obtain ⟨hresults, hrest⟩ := ih hagree hapart (isApart_run h' entry.1 entry.2)
          rw [List.filter_cons_of_pos (by simp [hentry]),
            List.filter_cons_of_pos (by simp [hentry]), List.map_cons, hresults, hresult]
          exact ⟨rfl, hrest⟩

theorem run_drainCursor {script : ℕ} {vs : List Value} (h : m.remaining script = vs) :
    m.run script .drainCursor = (.ok (.values vs), m.drainCursor script) := by
  rw [run, h]

/-- How the cursors over a stack in memory behave. -/
structure HasSnapshots (m : Memory) : Prop where
  /-- Making a cursor does not change the stack. -/
  made : ∀ script, (m.run script .keepCursor).1 = .ok .done ∧
    (m.run script .keepCursor).2.stack = m.stack
  /-- Whatever else is done after a cursor was made, it yields the values that the stack had
  then, and draining it does not change the stack. -/
  drained : ∀ script between, Spares script between →
    let changed := ((m.run script .keepCursor).2.runAll between).2
    (changed.run script .drainCursor).1 = .ok (.values m.stack.toList) ∧
      (changed.run script .drainCursor).2.stack = changed.stack
  /-- Whatever else is done after a cursor was drained, it yields nothing more. -/
  exhausted : ∀ script later, Spares script later →
    let changed := ((m.run script .drainCursor).2.runAll later).2
    (changed.run script .drainCursor).1 = .ok (.values []) ∧
      (changed.run script .drainCursor).2.stack = changed.stack
  /-- Without the making and draining of any cursors the other steps come to the same, and
  the stack is the same in the end. -/
  forgotten : ∀ forgotten steps,
    ((steps.zip (m.runAll steps).1).filter fun entry => isKept forgotten entry.1).map Prod.snd =
        (m.runAll (steps.filter (isKept forgotten))).1 ∧
      (m.runAll steps).2.stack = (m.runAll (steps.filter (isKept forgotten))).2.stack
  /-- The steps of a single script come to what they come to without memory. -/
  alone : ∀ script steps,
    (m.runAll (steps.map (script, ·))).1 = (Script.runAll (m.view script) steps).1 ∧
      (m.runAll (steps.map (script, ·))).2.stack = (Script.runAll (m.view script) steps).2.stack

/-- A memory can start with any stack and no cursors, and from there cursors are snapshots
after any interleaving of steps. -/
theorem hasSnapshots_runAll (s : Stack) (earlier : List (ℕ × Step)) :
    (ofStack s).stack = s ∧ HasSnapshots ((ofStack s).runAll earlier).2 := by
  have h := isApart_runAll (isApart_ofStack s) earlier
  refine ⟨stack_ofStack s, ?_⟩
  generalize ((ofStack s).runAll earlier).2 = m at h
  refine ⟨fun script => ⟨rfl, stack_keepCursor h script⟩, ?_, ?_, ?_, ?_⟩
  · intro script between hbetween
    have hremaining := remaining_runAll (isApart_keepCursor h script) hbetween
    rw [remaining_keepCursor_self] at hremaining
    exact ⟨congrArg Prod.fst (run_drainCursor hremaining), rfl⟩
  · intro script later hlater
    have hremaining := remaining_runAll (isApart_drainCursor h script) hlater
    rw [remaining_drainCursor_self] at hremaining
    exact ⟨congrArg Prod.fst (run_drainCursor hremaining), rfl⟩
  · intro forgotten steps
    have hself : AgreeBut forgotten m m := ⟨rfl, fun _ _ => rfl⟩
    obtain ⟨hresults, hagree⟩ := hself.runAll h h steps
    exact ⟨hresults, hagree.stack⟩
  · intro script steps
    obtain ⟨hresults, hview⟩ := runAll_alone h script steps
    exact ⟨hresults, congrArg State.stack hview⟩

/-- Another cursor, a step that fails, and a stack that is cleared. -/
theorem hasSnapshots_runAll_of_cleared :
    let m := ofStack (.ofList [.i32 1, .i32 2])
    let between : List (ℕ × Step) := [(1, .push (.i32 3)), (1, .keepCursor), (1, .chop 4),
      (1, .drainCursor), (0, .clear)]
    let changed := ((m.run 0 .keepCursor).2.runAll between).2
    Spares 0 between ∧
      ((m.run 0 .keepCursor).2.runAll between).1 = [.ok .done, .ok .done,
        .error (.outOfReach ⟨.chop, 4, 3⟩), .ok (.values [.i32 1, .i32 2, .i32 3]), .ok .done] ∧
      changed.stack = .empty ∧
      (changed.run 0 .drainCursor).1 = .ok (.values [.i32 1, .i32 2]) := by
  intro m between changed
  have hspares : Spares 0 between := by
    unfold Spares
    decide
  obtain ⟨-, -, hdrained, -⟩ := hasSnapshots_runAll (.ofList [.i32 1, .i32 2]) []
  exact ⟨hspares, rfl, rfl, (hdrained 0 between hspares).1⟩

/-- A cursor that points to the stack itself runs over what is pushed later. -/
example :
    let m : Memory := { ofStack (.ofList [.i32 1]) with pointers := fun _ => some ⟨0, 0⟩ }
    ((m.run 0 (.push (.i32 2))).2.run 0 .drainCursor).1 = .ok (.values [.i32 1, .i32 2]) := rfl

end Memory

end PostfixCalc
