import PostfixCalc.Application

/-!
# What an application does

An application reads the stack by depth.  Here it is described by the values
themselves: on a stack that ends in as many values as the function has inputs,
the application is decided by these values alone, and what lies below them is
neither read nor changed.  The other two cases are a stack that is too short and
a function that does not declare exactly one output.
-/

namespace PostfixCalc

namespace Stack

@[simp] theorem height_extend (s : Stack) (vs : List Value) :
    (s.extend vs).height = s.height + vs.length := by
  simp only [height, extend, List.length_append, List.length_reverse]
  omega

theorem extend_append (s : Stack) (vs ws : List Value) :
    s.extend (vs ++ ws) = (s.extend vs).extend ws := by
  simp [extend]

theorem extend_singleton (s : Stack) (v : Value) : s.extend [v] = s.push v := rfl

theorem length_top {s : Stack} {count : Nat} (h : count ≤ s.height) :
    (s.top count).length = count := by
  simp only [top, List.length_reverse, List.length_take]
  exact Nat.min_eq_left h

theorem extend_drop_top (s : Stack) (count : Nat) :
    (s.drop count).extend (s.top count) = s := by
  simp [extend, drop, top]

theorem exists_extend {s : Stack} {count : Nat} (h : count ≤ s.height) :
    ∃ (below : Stack) (args : List Value), args.length = count ∧ s = below.extend args :=
  ⟨s.drop count, s.top count, length_top h, (s.extend_drop_top count).symm⟩

theorem peek_extend (s : Stack) (before after : List Value) (v : Value) :
    (s.extend (before ++ v :: after)).peek after.length = .ok v := by
  have hnonneg : ¬(after.length : Int) < 0 := by omega
  simp [peek, extend, hnonneg]

theorem arguments_extend (s : Stack) (args : List Value) :
    (s.extend args).arguments args.length = .ok args := by
  unfold arguments
  split
  · next hlength =>
    rw [List.length_eq_zero_iff.mp hlength]
  · next hlength =>
    have hheight := s.height_extend args
    have hreach : ¬((args.length : Int) - 1 < 0 ∨
        ((s.extend args).height : Int) ≤ (args.length : Int) - 1) := by omega
    have hcount : ((args.length : Int) - 1).toNat + 1 = args.length := by omega
    rw [slice, if_neg hreach, hcount]
    simp [top, extend]

theorem chop_extend (s : Stack) (args : List Value) :
    (s.extend args).chop args.length = .ok s := by
  have hheight := s.height_extend args
  have hreach : ¬((args.length : Int) < 0 ∨
      ((s.extend args).height : Int) < args.length) := by omega
  rw [chop, if_neg hreach]
  simp [drop, extend]

end Stack

/-- The first value that is not of its declared type: its place, counted from the
given one, the type and the value. -/
def mismatchAmong? (place : Nat) : List Ty → List Value → Option (Nat × Ty × Value)
  | t :: ts, v :: vs =>
    if v.hasType t then mismatchAmong? (place + 1) ts vs else some (place, t, v)
  | _, _ => none

/-- Searching a stack by depth is searching the list of arguments.  The arguments
before the given place have been passed over already. -/
theorem Stack.firstMismatch?_extend (s : Stack) {ts : List Ty} (passed : List Value)
    {args : List Value} (hlength : ts.length = args.length) :
    (s.extend (passed ++ args)).firstMismatch? (passed.length + args.length) passed.length ts =
      .ok (mismatchAmong? passed.length ts args) := by
  induction ts generalizing passed args with
  | nil => simp [Stack.firstMismatch?, mismatchAmong?]
  | cons t ts ih =>
      cases args with
      | nil => simp at hlength
      | cons v vs =>
          have hdepth : ((passed.length + (v :: vs).length : Nat) : Int) - passed.length - 1 =
              vs.length := by
            simp only [List.length_cons]
            omega
          rw [Stack.firstMismatch?, hdepth, Stack.peek_extend, mismatchAmong?]
          dsimp only
          split
          · have hrest := ih (passed ++ [v]) (Nat.succ.inj hlength)
            have hcount : (passed ++ [v]).length + vs.length =
                passed.length + (v :: vs).length := by
              simp only [List.length_append, List.length_cons, List.length_nil]
              omega
            rw [hcount] at hrest
            simpa using hrest
          · rfl

theorem Stack.reads_extend (s : Stack) {f : Function} {args : List Value}
    (hargs : args.length = f.signature.arity) :
    (s.extend args).firstMismatch? f.signature.arity 0 f.signature.inputs =
        .ok (mismatchAmong? 0 f.signature.inputs args) ∧
      (s.extend args).arguments f.signature.arity = .ok args ∧
      (s.extend args).chop f.signature.arity = .ok s := by
  have hmismatch := s.firstMismatch?_extend [] hargs.symm
  rw [List.nil_append, List.length_nil, Nat.zero_add] at hmismatch
  rw [← hargs]
  exact ⟨hmismatch, s.arguments_extend args, s.chop_extend args⟩

theorem mismatchAmong?_eq_none {place : Nat} {args : List Value} {ts : List Ty}
    (htypes : args.map Value.type = ts) : mismatchAmong? place ts args = none := by
  induction args generalizing place ts with
  | nil => simp [← htypes, mismatchAmong?]
  | cons v vs ih =>
      rw [← htypes, List.map_cons, mismatchAmong?, if_pos (by simp [Value.hasType])]
      exact ih rfl

theorem types_eq_of_mismatchAmong?_eq_none {place : Nat} {ts : List Ty} {args : List Value}
    (hlength : args.length = ts.length) (h : mismatchAmong? place ts args = none) :
    args.map Value.type = ts := by
  induction ts generalizing place args with
  | nil => simpa using hlength
  | cons t ts ih =>
      obtain ⟨v, vs, rfl⟩ := List.exists_cons_of_length_eq_add_one hlength
      rw [mismatchAmong?] at h
      split at h
      · next htype =>
        have hv : v.type = t := by simpa [Value.hasType] using htype
        rw [List.map_cons, hv, ih (Nat.succ.inj hlength) h]
      · contradiction

/-! ## Replies and breaches -/

/-- What an implementation comes to breaks its contract, and how that is written: it gave
up with a recoverable fault, or it handed back something other than a scalar of the output
type. -/
inductive Breaks (output : Ty) :
    Except Failure Reply → (String → Breach) → Except Fault String → Prop where
  | failed {fault : Fault} : fault.kind.isRecoverable = true →
      Breaks output (.error (.fatal (.fault fault))) (.failed fault) fault.text
  | returned {reply : Reply} :
      (∀ v : Value, v.type = output → reply ≠ .scalar (.value v)) →
      Breaks output (.ok reply) (.returned reply) reply.fullText

theorem Breaks.of_fault {output : Ty} {fault : Fault} {breach : String → Breach}
    {written : Except Fault String}
    (h : Breaks output (.error (.fatal (.fault fault))) breach written) :
    fault.kind.isRecoverable = true ∧ breach = .failed fault ∧ written = fault.text := by
  cases h with
  | failed hrecoverable => exact ⟨hrecoverable, rfl, rfl⟩

theorem Breaks.of_reply {output : Ty} {reply : Reply} {breach : String → Breach}
    {written : Except Fault String} (h : Breaks output (.ok reply) breach written) (v : Value)
    (htype : v.type = output) : reply ≠ .scalar (.value v) := by
  cases h with
  | returned hreply => exact hreply v htype

/-- A failure that is no recoverable fault. -/
def Failure.Passes (failure : Failure) : Prop :=
  ∀ fault, failure = .fatal (.fault fault) → fault.kind.isRecoverable = false

namespace Function

theorem checkReply_of_value? {f : Function} {output : Ty} {reply : Reply} {v : Value}
    (h : reply.value? output = some v) : f.checkReply output (.ok reply) = .ok v := by
  simp only [checkReply, h]

theorem checkReply_eq_ok_iff {f : Function} {output : Ty} {reply : Except Failure Reply}
    {v : Value} :
    f.checkReply output reply = .ok v ↔
      reply = .ok (.scalar (.value v)) ∧ v.type = output := by
  constructor
  · intro h
    unfold checkReply at h
    split at h
    · split at h
      · next hvalue =>
        obtain rfl := Except.ok.inj h
        obtain ⟨rfl, htype⟩ := Reply.value?_eq_some_iff.mp hvalue
        exact ⟨rfl, htype⟩
      · contradiction
    · split at h
      · contradiction
      · contradiction
    · contradiction
  · rintro ⟨rfl, htype⟩
    exact checkReply_of_value? (Reply.value?_eq_some_iff.mpr ⟨rfl, htype⟩)

/-- A reply fails the check for a breach, or because the implementation failed in a way
that passes on. -/
theorem checkReply_error_cases {f : Function} {output : Ty} {reply : Except Failure Reply}
    {failure : Failure} (h : f.checkReply output reply = .error failure) :
    (∃ breach written, Breaks output reply breach written ∧
        failure = f.breachOf breach written) ∨
      (reply = .error failure ∧ failure.Passes) := by
  unfold checkReply at h
  split at h
  · next reply =>
    split at h
    · contradiction
    · next hvalue =>
      refine Or.inl ⟨_, _, .returned ?_, (Except.error.inj h).symm⟩
      rintro v htype rfl
      rw [Reply.value?_eq_some_iff.mpr ⟨rfl, htype⟩] at hvalue
      contradiction
  · next fault =>
    split at h
    · next hrecoverable =>
      exact Or.inl ⟨_, _, .failed hrecoverable, (Except.error.inj h).symm⟩
    · next hfatal =>
      obtain rfl := Except.error.inj h
      refine Or.inr ⟨rfl, ?_⟩
      intro fault' hfault
      cases hfault
      exact Bool.eq_false_iff.mpr hfatal
  · next failure' hne =>
    obtain rfl := Except.error.inj h
    refine Or.inr ⟨rfl, ?_⟩
    rintro fault rfl
    exact absurd rfl (hne fault)

end Function

/-! ## The three cases of an application -/

namespace Function

/-- What a function with the given output answers to as many arguments as it has
inputs: a value, or why there is none. -/
def answer (f : Function) (output : Ty) (args : List Value) : Except Failure Value :=
  match mismatchAmong? 0 f.signature.inputs args with
  | some (position, expected, actual) =>
    .error (.error (.typeMismatch f position expected actual))
  | none => f.checkReply output (f.implementation args)

theorem answer_of_implementation {f : Function} {output : Ty} {args : List Value} {v : Value}
    (htypes : args.map Value.type = f.signature.inputs)
    (hreply : f.implementation args = .ok (.scalar (.value v)))
    (htype : v.hasType output = true) : f.answer output args = .ok v := by
  rw [answer, mismatchAmong?_eq_none htypes]
  exact checkReply_eq_ok_iff.mpr ⟨hreply, by simpa [Value.hasType] using htype⟩

/-- As many arguments as there are inputs are answered exactly if they have the input
types and the implementation honours the output type. -/
theorem answer_eq_ok_iff {f : Function} {output : Ty} {args : List Value} {v : Value}
    (hargs : args.length = f.signature.arity) :
    f.answer output args = .ok v ↔
      args.map Value.type = f.signature.inputs ∧
        f.implementation args = .ok (.scalar (.value v)) ∧ v.type = output := by
  constructor
  · intro h
    unfold answer at h
    split at h
    · contradiction
    · next hnone =>
      exact ⟨types_eq_of_mismatchAmong?_eq_none hargs hnone, checkReply_eq_ok_iff.mp h⟩
  · rintro ⟨htypes, hreply, htype⟩
    exact answer_of_implementation htypes hreply (by simp [Value.hasType, htype])

/-- As many arguments as there are inputs have no answer if one is not of its type, if the
implementation breaks its contract, or if it fails in a way that passes on. -/
theorem answer_error_cases {f : Function} {output : Ty} {args : List Value} {failure : Failure}
    (hargs : args.length = f.signature.arity) (h : f.answer output args = .error failure) :
    (∃ position expected actual,
        failure = .error (.typeMismatch f position expected actual)) ∨
      (args.map Value.type = f.signature.inputs ∧
        ((∃ breach written, Breaks output (f.implementation args) breach written ∧
            failure = f.breachOf breach written) ∨
          (f.implementation args = .error failure ∧ failure.Passes))) := by
  unfold answer at h
  split at h
  · next position expected actual _ =>
    exact Or.inl ⟨position, expected, actual, (Except.error.inj h).symm⟩
  · next hnone =>
    exact Or.inr ⟨types_eq_of_mismatchAmong?_eq_none hargs hnone, checkReply_error_cases h⟩

theorem apply_of_outputs_ne {f : Function} (s : Stack)
    (houtputs : ∀ output, f.signature.outputs ≠ [output]) :
    f.apply s = .error (.fatal (.signature (.outputCount f))) := by
  unfold apply
  split
  · next output h => exact absurd h (houtputs output)
  · rfl

theorem apply_of_height_lt {f : Function} {s : Stack} {output : Ty}
    (houtputs : f.signature.outputs = [output]) (hheight : s.height < f.signature.arity) :
    f.apply s = .error (.error (.wrongArity f s.height)) := by
  simp [apply, houtputs, hheight]

/-- A function that finds its arguments on top of the stack puts its answer in their
place. -/
theorem apply_extend {f : Function} {output : Ty} (s : Stack) {args : List Value}
    (houtputs : f.signature.outputs = [output])
    (hargs : args.length = f.signature.arity) :
    f.apply (s.extend args) = (f.answer output args).map s.push := by
  have hheight : ¬(s.extend args).height < f.signature.arity := by
    rw [Stack.height_extend]
    omega
  obtain ⟨hmismatch, harguments, hchop⟩ := s.reads_extend hargs
  simp only [apply, houtputs, if_neg hheight, hmismatch, harguments, hchop, withinReach, answer]
  cases mismatchAmong? 0 f.signature.inputs args with
  | some found => rfl
  | none =>
      cases hreply : f.checkReply output (f.implementation args) with
      | error failure => simp [bind, Except.bind, Except.map, hreply]
      | ok v => simp [bind, Except.bind, Except.map, hreply]

theorem apply_cases (f : Function) (s : Stack) :
    (∀ output, f.signature.outputs ≠ [output]) ∨
      f.apply s = .error (.error (.wrongArity f s.height)) ∨
      ∃ (output : Ty) (below : Stack) (args : List Value),
        f.signature.outputs = [output] ∧ args.length = f.signature.arity ∧
        s = below.extend args ∧ f.apply s = (f.answer output args).map below.push := by
  by_cases houtputs : ∃ output, f.signature.outputs = [output]
  · obtain ⟨output, houtputs⟩ := houtputs
    rcases Nat.lt_or_ge s.height f.signature.arity with hlt | hge
    · exact Or.inr (Or.inl (apply_of_height_lt houtputs hlt))
    · obtain ⟨below, args, hargs, rfl⟩ := Stack.exists_extend hge
      exact Or.inr (Or.inr ⟨output, below, args, houtputs, hargs, rfl,
        apply_extend below houtputs hargs⟩)
  · left
    intro output houtput
    exact houtputs ⟨output, houtput⟩

/-- What an application fails for: the outputs of the function, a stack that is too short,
or arguments that have no answer. -/
theorem apply_error_cases {f : Function} {s : Stack} {failure : Failure}
    (h : f.apply s = .error failure) :
    failure = .fatal (.signature (.outputCount f)) ∨
      failure = .error (.wrongArity f s.height) ∨
      ∃ (output : Ty) (below : Stack) (args : List Value),
        f.signature.outputs = [output] ∧ args.length = f.signature.arity ∧
        s = below.extend args ∧ f.answer output args = .error failure := by
  rcases f.apply_cases s with
    houtputs | hshort | ⟨output, below, args, houtputs, hargs, hstack, happly⟩
  · rw [apply_of_outputs_ne s houtputs] at h
    exact Or.inl (Except.error.inj h).symm
  · rw [hshort] at h
    exact Or.inr (Or.inl (Except.error.inj h).symm)
  · rw [happly] at h
    refine Or.inr (Or.inr ⟨output, below, args, houtputs, hargs, hstack, ?_⟩)
    cases hanswer : f.answer output args with
    | ok v =>
        rw [hanswer] at h
        contradiction
    | error failure' =>
        rw [hanswer] at h
        rw [Except.error.inj h]

/-- An application succeeds exactly if the stack ends in arguments of the input types and
the implementation makes of them a value of the only output type.  That value takes their
place, and the values below stay. -/
theorem apply_eq_ok_iff {f : Function} {s s' : Stack} :
    f.apply s = .ok s' ↔
      ∃ (below : Stack) (args : List Value) (v : Value),
        s = below.extend args ∧ s' = below.push v ∧ f.signature.outputs = [v.type] ∧
          args.map Value.type = f.signature.inputs ∧
          f.implementation args = .ok (.scalar (.value v)) := by
  constructor
  · intro h
    rcases f.apply_cases s with
      houtputs | hshort | ⟨output, below, args, houtputs, hargs, hstack, happly⟩
    · rw [apply_of_outputs_ne s houtputs] at h
      contradiction
    · rw [hshort] at h
      contradiction
    · rw [happly] at h
      cases hanswer : f.answer output args with
      | error failure =>
          rw [hanswer] at h
          contradiction
      | ok v =>
          rw [hanswer] at h
          obtain ⟨htypes, hreply, htype⟩ := (answer_eq_ok_iff hargs).mp hanswer
          exact ⟨below, args, v, hstack, (Except.ok.inj h).symm, by rw [houtputs, htype],
            htypes, hreply⟩
  · rintro ⟨below, args, v, rfl, rfl, houtputs, htypes, hreply⟩
    have hargs : args.length = f.signature.arity := by
      rw [Signature.arity, ← htypes, List.length_map]
    rw [apply_extend below houtputs hargs, (answer_eq_ok_iff hargs).mpr ⟨htypes, hreply, rfl⟩]
    rfl

end Function

end PostfixCalc
