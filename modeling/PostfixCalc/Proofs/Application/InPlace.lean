import Mathlib.Data.Nat.Find
import PostfixCalc.Application
import PostfixCalc.Function.Builtin
import PostfixCalc.Proofs.Application
import PostfixCalc.Proofs.Decimal

/-!
# An application is decided in one order and leaves no half of it behind

The checks of an application are stated by the places of the values in the stack, oldest
first.  They come in one order, and the first that fails settles the application without
calling the implementation.  If all of them pass, the implementation is called once,
and its reply settles the application.  Whatever the implementation does in between,
the stack is the given one unless the result has taken the place of the arguments.
-/

namespace PostfixCalc

theorem Stack.ofList_append (vs ws : List Value) :
    ofList (vs ++ ws) = (ofList vs).extend ws := by
  simp [ofList, extend]

theorem Stack.ofList_eq_extend (xs : List Value) (count : ℕ) :
    ofList xs = (ofList (xs.take count)).extend (xs.drop count) := by
  rw [← ofList_append, List.take_append_drop]

@[simp] theorem Stack.height_ofList (vs : List Value) : (ofList vs).height = vs.length := by
  simp [ofList, height]

theorem mismatchAmong?_eq_some {place i : ℕ} {ts : List Ty} {args : List Value} {expected : Ty}
    {actual : Value} (hexpected : ts[i]? = some expected) (hactual : args[i]? = some actual)
    (hdiffers : actual.type ≠ expected)
    (hleast : ∀ j < i, args[j]?.map Value.type = ts[j]?) :
    mismatchAmong? place ts args = some (place + i, expected, actual) := by
  induction ts generalizing place i args with
  | nil => simp at hexpected
  | cons t ts ih =>
      cases args with
      | nil => simp at hactual
      | cons v vs =>
          rw [mismatchAmong?]
          cases i with
          | zero =>
              obtain rfl : t = expected := by simpa using hexpected
              obtain rfl : v = actual := by simpa using hactual
              rw [if_neg (by simpa [Value.hasType] using hdiffers)]
              rfl
          | succ i =>
              have hfirst : v.type = t := by simpa using hleast 0 (Nat.succ_pos i)
              rw [if_pos (by simp [Value.hasType, hfirst]),
                ih hexpected hactual fun j hj => hleast (j + 1) (Nat.succ_lt_succ hj)]
              simp [Nat.add_comm 1 i, Nat.add_assoc]

namespace Function

variable {f : Function} {xs : List Value}

/-- The argument for the input at a place.  The arguments are the last values, as many
as there are inputs. -/
def argument? (f : Function) (xs : List Value) (i : ℕ) : Option Value :=
  xs[xs.length - f.signature.arity + i]?

/-- Why an application to the given values is refused.  A check is only made when
those before it have passed. -/
inductive Refuses (f : Function) (xs : List Value) : Failure → Prop where
  | outputs : f.signature.outputs.length ≠ 1 →
      Refuses f xs (.fatal (.signature (.outputCount f)))
  | short : f.signature.outputs.length = 1 → xs.length < f.signature.arity →
      Refuses f xs (.error (.wrongArity f xs.length))
  | mismatch {i : ℕ} {expected : Ty} {actual : Value} :
      f.signature.outputs.length = 1 → f.signature.arity ≤ xs.length →
      f.signature.inputs[i]? = some expected → f.argument? xs i = some actual →
      actual.type ≠ expected →
      (∀ j < i, (f.argument? xs j).map Value.type = f.signature.inputs[j]?) →
      Refuses f xs (.error (.typeMismatch f i expected actual))

/-- An application to the given values passes all checks. -/
structure Admits (f : Function) (xs : List Value) (output : Ty) : Prop where
  outputs : f.signature.outputs = [output]
  tall : f.signature.arity ≤ xs.length
  types : ∀ i < f.signature.arity, (f.argument? xs i).map Value.type = f.signature.inputs[i]?

/-- How what the implementation comes to settles an application to the given values, and
the stack that is left.  A breach is reported in the words in which it is written; if it
cannot be written, the fault that arose in writing it is what ends the application. -/
inductive Settles (f : Function) (xs : List Value) (output : Ty) :
    Except Failure Reply → Except Failure Unit × Stack → Prop where
  | broken {reply : Except Failure Reply} {breach : String → Breach} {text : String} :
      Breaks output reply breach (.ok text) →
      Settles f xs output reply (.error (.error (.brokenCallee f (breach text))), .ofList xs)
  | unwritten {reply : Except Failure Reply} {breach : String → Breach} {cause : Fault} :
      Breaks output reply breach (.error cause) →
      Settles f xs output reply (.error (.fatal (.fault cause)), .ofList xs)
  | passed {failure : Failure} : failure.Passes →
      Settles f xs output (.error failure) (.error failure, .ofList xs)
  | replaced {v : Value} : v.type = output →
      Settles f xs output (.ok (.scalar (.value v)))
        (.ok (), .ofList (xs.take (xs.length - f.signature.arity) ++ [v]))

theorem argument?_eq_getElem?_drop (f : Function) (xs : List Value) (i : ℕ) :
    f.argument? xs i = (xs.drop (xs.length - f.signature.arity))[i]? :=
  List.getElem?_drop.symm

theorem length_drop_arity (htall : f.signature.arity ≤ xs.length) :
    (xs.drop (xs.length - f.signature.arity)).length = f.signature.arity := by
  rw [List.length_drop]
  omega

theorem Admits.map_type_drop {output : Ty} (h : f.Admits xs output) :
    (xs.drop (xs.length - f.signature.arity)).map Value.type = f.signature.inputs := by
  apply List.ext_getElem?
  intro i
  rw [List.getElem?_map, ← argument?_eq_getElem?_drop]
  rcases Nat.lt_or_ge i f.signature.arity with hi | hi
  · exact h.types i hi
  · have hlength := length_drop_arity h.tall
    rw [argument?_eq_getElem?_drop, List.getElem?_eq_none (by omega), List.getElem?_eq_none hi]
    rfl

theorem refuses_or_admits (f : Function) (xs : List Value) :
    (∃ failure, f.Refuses xs failure) ∨ ∃ output, f.Admits xs output := by
  by_cases hcount : f.signature.outputs.length = 1
  · obtain ⟨output, houtputs⟩ := List.length_eq_one_iff.mp hcount
    rcases Nat.lt_or_ge xs.length f.signature.arity with hshort | htall
    · exact Or.inl ⟨_, .short hcount hshort⟩
    · by_cases htypes : ∀ i < f.signature.arity,
          (f.argument? xs i).map Value.type = f.signature.inputs[i]?
      · exact Or.inr ⟨output, houtputs, htall, htypes⟩
      · push Not at htypes
        -- the first place at which the types differ
        classical
        obtain ⟨hi, hne⟩ := Nat.find_spec htypes
        have hleast := fun j (hj : j < Nat.find htypes) => Nat.find_min htypes hj
        generalize Nat.find htypes = i at hi hne hleast
        obtain ⟨expected, hexpected⟩ : ∃ expected, f.signature.inputs[i]? = some expected :=
          ⟨_, List.getElem?_eq_getElem hi⟩
        obtain ⟨actual, hactual⟩ : ∃ actual, f.argument? xs i = some actual :=
          ⟨_, List.getElem?_eq_getElem (by omega)⟩
        refine Or.inl ⟨_, .mismatch hcount htall hexpected hactual ?_ ?_⟩
        · simpa [hexpected, hactual] using hne
        · intro j hj
          by_contra hdiffers
          exact hleast j hj ⟨by omega, hdiffers⟩
  · exact Or.inl ⟨_, .outputs hcount⟩

/-! ## The application -/

section Perform

variable {m : Type → Type} [Monad m]

theorem perform_of_outputs_ne (call : List Value → m (Except Failure Reply)) (s : Stack)
    (houtputs : ∀ output, f.signature.outputs ≠ [output]) :
    (f.perform call).on s = pure (.error (.fatal (.signature (.outputCount f))), s) := by
  unfold perform
  split
  · next output h => exact absurd h (houtputs output)
  · rfl

variable [LawfulMonad m]

theorem perform_of_height_lt (call : List Value → m (Except Failure Reply)) {s : Stack}
    {output : Ty} (houtputs : f.signature.outputs = [output])
    (hheight : s.height < f.signature.arity) :
    (f.perform call).on s = pure (.error (.error (.wrongArity f s.height)), s) := by
  simp [perform, houtputs, hheight]

/-- A value takes the place of the arguments, and a failure leaves everything as it
is. -/
def settle (whole below : Stack) : Except Failure Value → Except Failure Unit × Stack
  | .ok v => (.ok (), below.push v)
  | .error failure => (.error failure, whole)

/-- An application that finds its arguments on top of the stack either comes upon one that
is not of its type or calls the implementation once, with these arguments. -/
theorem perform_extend (call : List Value → m (Except Failure Reply)) (s : Stack) {output : Ty}
    {args : List Value} (houtputs : f.signature.outputs = [output])
    (hargs : args.length = f.signature.arity) :
    (f.perform call).on (s.extend args) =
      match mismatchAmong? 0 f.signature.inputs args with
      | some (position, expected, actual) =>
        pure (.error (.error (.typeMismatch f position expected actual)), s.extend args)
      | none =>
        (fun reply => settle (s.extend args) s (f.checkReply output reply)) <$> call args := by
  have hheight : ¬s.height + args.length < f.signature.arity := by omega
  obtain ⟨hmismatch, harguments, hchop⟩ := s.reads_extend hargs
  cases hfound : mismatchAmong? 0 f.signature.inputs args with
  | some found => simp [perform, houtputs, hheight, hmismatch, hfound, withinReach]
  | none =>
      simp only [perform, houtputs, Command.on_bind, Command.on_get, Command.on_liftM_except,
        Command.on_liftM, Command.on_set, Command.on_modify, Stack.height_extend, if_neg hheight,
        hmismatch, hfound, harguments, withinReach, pure_bind, bind_assoc, map_eq_pure_bind]
      apply bind_congr
      intro reply
      cases f.checkReply output reply with
      | ok v => simp [hchop, settle]
      | error failure => rfl

/-- With its own implementation a function is applied in place as it is applied in a
session. -/
theorem perform_implementation (f : Function) (s : Stack) :
    (f.perform fun args => (pure (f.implementation args) : m (Except Failure Reply))).on s =
      pure (f.outcome s) := by
  by_cases houtputs : ∃ output, f.signature.outputs = [output]
  · obtain ⟨output, houtputs⟩ := houtputs
    rcases Nat.lt_or_ge s.height f.signature.arity with hlt | hge
    · rw [perform_of_height_lt _ houtputs hlt, outcome, apply_of_height_lt houtputs hlt]
    · obtain ⟨below, args, hargs, rfl⟩ := Stack.exists_extend hge
      rw [perform_extend _ below houtputs hargs, outcome, apply_extend below houtputs hargs, answer]
      cases mismatchAmong? 0 f.signature.inputs args with
      | some found => rfl
      | none =>
          rw [map_pure]
          cases f.checkReply output (f.implementation args) with
          | ok v => rfl
          | error failure => rfl
  · have hne : ∀ output, f.signature.outputs ≠ [output] := fun output h => houtputs ⟨output, h⟩
    rw [perform_of_outputs_ne _ s hne, outcome, apply_of_outputs_ne s hne]

theorem perform_of_refuses (call : List Value → m (Except Failure Reply)) {failure : Failure}
    (h : f.Refuses xs failure) :
    (f.perform call).on (.ofList xs) = pure (.error failure, .ofList xs) := by
  cases h with
  | outputs hcount =>
      apply perform_of_outputs_ne
      intro output houtputs
      simp [houtputs] at hcount
  | short hcount hshort =>
      obtain ⟨output, houtputs⟩ := List.length_eq_one_iff.mp hcount
      simpa using perform_of_height_lt call houtputs (s := .ofList xs) (by simpa using hshort)
  | mismatch hcount htall hexpected hactual hdiffers hleast =>
      obtain ⟨output, houtputs⟩ := List.length_eq_one_iff.mp hcount
      simp only [argument?_eq_getElem?_drop] at hactual hleast
      rw [Stack.ofList_eq_extend xs (xs.length - f.signature.arity),
        perform_extend call _ houtputs (length_drop_arity htall),
        mismatchAmong?_eq_some hexpected hactual hdiffers hleast, Nat.zero_add]

theorem settles_settle {output : Ty} (reply : Except Failure Reply) :
    f.Settles xs output reply
      (settle (.ofList xs) (.ofList (xs.take (xs.length - f.signature.arity)))
        (f.checkReply output reply)) := by
  cases hchecked : f.checkReply output reply with
  | ok v =>
      obtain ⟨rfl, htype⟩ := checkReply_eq_ok_iff.mp hchecked
      rw [settle, ← Stack.extend_singleton, ← Stack.ofList_append]
      exact .replaced htype
  | error failure =>
      rcases checkReply_error_cases hchecked with ⟨breach, written, hbreaks, rfl⟩ | ⟨rfl, hpasses⟩
      · cases written with
        | ok text => exact .broken hbreaks
        | error cause => exact .unwritten hbreaks
      · exact .passed hpasses

theorem perform_of_admits (call : List Value → m (Except Failure Reply)) {output : Ty}
    (h : f.Admits xs output) :
    (f.perform call).on (.ofList xs) =
      (fun reply => settle (.ofList xs) (.ofList (xs.take (xs.length - f.signature.arity)))
        (f.checkReply output reply)) <$> call (xs.drop (xs.length - f.signature.arity)) := by
  have hstack := Stack.ofList_eq_extend xs (xs.length - f.signature.arity)
  rw [hstack, perform_extend call _ h.outputs (length_drop_arity h.tall),
    mismatchAmong?_eq_none h.map_type_drop]

end Perform

/-- The implementation is called if all checks pass, and only then. -/
theorem calls_iff (f : Function) (s : Stack) :
    f.Calls s ↔ ∃ output, f.Admits s.toList output := by
  rw [Calls, ← s.ofList_toList, Stack.toList_ofList]
  constructor
  · intro hcalls
    rcases f.refuses_or_admits s.toList with ⟨failure, hrefuses⟩ | hadmits
    · rw [perform_of_refuses _ hrefuses] at hcalls
      contradiction
    · exact hadmits
  · rintro ⟨output, hadmits⟩
    rw [perform_of_admits _ hadmits]
    rfl

theorem arity_le_height_of_calls {s : Stack} (h : f.Calls s) : f.signature.arity ≤ s.height := by
  obtain ⟨output, hadmits⟩ := (f.calls_iff s).mp h
  rw [← s.length_toList]
  exact hadmits.tall

theorem calls_of_apply_ok {s s' : Stack} (h : f.apply s = .ok s') : f.Calls s := by
  rw [calls_iff]
  rcases f.refuses_or_admits s.toList with ⟨failure, hrefuses⟩ | hadmits
  · have hrefused := perform_of_refuses (fun args => (pure (f.implementation args) : Id _)) hrefuses
    rw [perform_implementation, Stack.ofList_toList, outcome, h] at hrefused
    change (Except.ok (), s') = (Except.error failure, s) at hrefused
    simp at hrefused
  · exact hadmits

/-- An application in place is refused or admitted, whatever the effects of the
implementation.  If it is refused, it fails for that reason, with the stack as it was and
the implementation not called.  If it is admitted, the implementation is called once, with
the last values, and what it comes to settles the application.  With the implementation
of the function itself this is the application as sessions make it. -/
theorem perform_decides {m : Type → Type} [Monad m] [LawfulMonad m] (f : Function)
    (call : List Value → m (Except Failure Reply)) (xs : List Value) :
    ((∃ failure, f.Refuses xs failure) ∨ ∃ output, f.Admits xs output) ∧
      (∀ failure, f.Refuses xs failure →
        (f.perform call).on (.ofList xs) = pure (.error failure, .ofList xs)) ∧
      (∀ output, f.Admits xs output →
        ∃ settle : Except Failure Reply → Except Failure Unit × Stack,
          (f.perform call).on (.ofList xs) =
              settle <$> call (xs.drop (xs.length - f.signature.arity)) ∧
            ∀ reply, f.Settles xs output reply (settle reply)) ∧
      (f.perform fun args => (pure (f.implementation args) : m (Except Failure Reply))).on
          (.ofList xs) = pure (f.outcome (.ofList xs)) := by
  refine ⟨f.refuses_or_admits xs, fun failure => perform_of_refuses call, ?_,
    f.perform_implementation _⟩
  intro output hadmits
  exact ⟨_, perform_of_admits call hadmits, settles_settle⟩

/-- A division by zero, by an implementation that counts its calls. -/
theorem perform_decides_of_division :
    let f : Function := ⟨"quotient", ⟨[.i32, .i32], [.i32]⟩, Stock.floorQuotient⟩
    let call : List Value → StateM ℕ (Except Failure Reply) := fun args => do
      modify (· + 1)
      return f.implementation args
    let xs : List Value := [.f64 .nan, .i32 7, .i32 0]
    f.Admits xs .i32 ∧
      ((f.perform call).on (.ofList xs)).run 0 =
        ((.error (.error (.brokenCallee f
          (.failed .divisionByZero "integer division or modulo by zero"))), .ofList xs), 1) := by
  intro f call xs
  have hadmits : f.Admits xs .i32 := ⟨rfl, by decide, by decide⟩
  obtain ⟨-, -, hcalled, -⟩ := perform_decides f call xs
  obtain ⟨settle, hrun, hsettles⟩ := hcalled .i32 hadmits
  have hsettled := hsettles (.error (.fatal (.fault .divisionByZero)))
  refine ⟨hadmits, ?_⟩
  rw [hrun]
  change (settle (.error (.fatal (.fault .divisionByZero))), 1) = _
  generalize settle (.error (.fatal (.fault .divisionByZero))) = result at hsettled
  cases hsettled with
  | broken hbreaks =>
      obtain ⟨-, rfl, hwritten⟩ := hbreaks.of_fault
      obtain rfl := Except.ok.inj hwritten
      rfl
  | unwritten hbreaks =>
      obtain ⟨-, rfl, hwritten⟩ := hbreaks.of_fault
      contradiction
  | passed hfatal => exact absurd (hfatal _ rfl) (by decide)

/-- A scalar of an integer that is too long to be written is no scalar of a value; but this
is not what is reported, for the report cannot be written. -/
theorem outcome_of_long_integer :
    let f : Function :=
      ⟨"wide", ⟨[], [.i32]⟩, Stock.constant (.datum (.integer (10 ^ integerDigitLimit)))⟩
    f.Admits [] .i32 ∧
      (∀ reply v, f.implementation [] = .ok reply → reply ≠ .scalar (.value v)) ∧
      f.outcome .empty = (.error (.fatal (.fault .integerTooLong)), .empty) := by
  have hlong := integerText_ten_pow
  generalize (10 ^ integerDigitLimit : ℤ) = n at hlong ⊢
  intro f
  have hchecked : f.checkReply .i32 (f.implementation []) =
      .error (.fatal (.fault .integerTooLong)) := by
    change Except.error (f.breachOf (.returned _) ((integerText n).map _)) = _
    rw [hlong]
    rfl
  have happly : f.apply (Stack.empty.extend []) = .error (.fatal (.fault .integerTooLong)) := by
    have houtputs : f.signature.outputs = [.i32] := rfl
    rw [apply_extend .empty houtputs rfl, answer]
    change ((f.checkReply .i32 (f.implementation [])).map _) = _
    rw [hchecked]
    rfl
  refine ⟨⟨rfl, Nat.zero_le _, fun i hi => absurd hi (Nat.not_lt_zero i)⟩, ?_, ?_⟩
  · rintro reply v hreply rfl
    have hsame := Reply.scalar.inj (Except.ok.inj hreply)
    contradiction
  · change f.apply .empty = _ at happly
    rw [outcome, happly]

end Function

end PostfixCalc
