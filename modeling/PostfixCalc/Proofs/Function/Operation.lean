import PostfixCalc.Proofs.Binary.Twice
import PostfixCalc.Proofs.Function.Builtin
import PostfixCalc.Proofs.Token.Written

/-!
# Operations honour the output they are built for

An operation can be built for any single output, also for one that its own results do not
have, since a result is converted before it is handed back.  What is converted is of the
output type, and its payload makes the same value again.  So an implementation that is
built in this way breaks its contract only by giving up.
-/

namespace PostfixCalc

namespace Value

/-- A value is made again of its payload: an integer is within the range, and a single is not
moved by its way through a double. -/
theorem make_payload (v : Value) : make v.type v.payload = .ok v := by
  cases v with
  | i32 n =>
      have hfits : fits n.toInt = true := fits_iff.mpr ⟨n.le_toInt, n.toInt_lt⟩
      change ofInt? n.toInt = _
      rw [ofInt?, if_pos hfits, Int32.ofInt_toInt]
  | f32 x =>
      have hback := Binary.convert_convert Format.isProper_double Format.isProper_single
        Format.refines_double_single x
      change Except.ok (f32 ((x.convert .double).convert .single)) = _
      rw [hback]
  | f64 x => rfl

theorem exists_integer_payload {v : Value} (h : v.type = .i32) :
    ∃ n : Int, v.payload = .integer n ∧ -2 ^ 31 ≤ n ∧ n ≤ 2 ^ 31 - 1 := by
  cases v with
  | i32 n =>
      have hupper := n.toInt_lt
      exact ⟨n.toInt, rfl, n.le_toInt, by omega⟩
  | f32 x => contradiction
  | f64 x => contradiction

end Value

namespace Function

variable {f g : Function} {output : Ty} {breach : Breach}

/-- An application fails for a breach only at arguments of the input types: what the
implementation comes to there breaks its contract, or it failed with this very breach. -/
theorem breach_of_apply {s : Stack} (houtputs : f.signature.outputs = [output])
    (h : f.apply s = .error (.error (.brokenCallee g breach))) :
    ∃ (below : Stack) (args : List Value), s = below.extend args ∧
      args.map Value.type = f.signature.inputs ∧
      ((∃ breach' text, Breaks output (f.implementation args) breach' (.ok text) ∧
          breach = breach' text) ∨
        f.implementation args = .error (.error (.brokenCallee g breach))) := by
  rcases apply_error_cases h with
    hfatal | hshort | ⟨output', below, args, hout, hargs, hstack, hanswer⟩
  · contradiction
  · simp at hshort
  · obtain rfl : output' = output := by simpa [hout] using houtputs
    refine ⟨below, args, hstack, ?_⟩
    rcases answer_error_cases hargs hanswer with
      ⟨position, expected, actual, hmismatch⟩ |
        ⟨htypes, ⟨breach', written, hbreaks, hfailure⟩ | ⟨hfailed, -⟩⟩
    · simp at hmismatch
    · refine ⟨htypes, ?_⟩
      cases written with
      | ok text =>
          obtain ⟨-, rfl⟩ : g = f ∧ breach = breach' text := by simpa [breachOf] using hfailure
          exact Or.inl ⟨breach', text, hbreaks, rfl⟩
      | error cause => simp [breachOf] at hfailure
    · exact ⟨htypes, Or.inr hfailed⟩

end Function

namespace Operation

theorem implementation_eq_ok_iff {op : Operation} {output : Ty} {args : List Value}
    {reply : Reply} :
    op.implementation output args = .ok reply ↔
      ∃ result, op.run args = .ok result ∧
        reply = .scalar (.value (result.convertTo output)) := by
  cases hrun : op.run args with
  | ok result => simp [implementation, Implementation.ofFaulting, hrun, Except.map, eq_comm]
  | error fault => simp [implementation, Implementation.ofFaulting, hrun, Except.map]

theorem exists_fault_of_implementation {op : Operation} {output : Ty} {args : List Value}
    {failure : Failure} (h : op.implementation output args = .error failure) :
    ∃ fault, failure = .fatal (.fault fault) := by
  unfold implementation Implementation.ofFaulting at h
  split at h
  · contradiction
  · exact ⟨_, (Except.error.inj h).symm⟩

/-- Every operation can be built for any inputs and any single output.  What is built
replies, if at all, with a scalar of a value of the output type, one that its payload
makes again, and an integer is in the range of 32 bits; this holds of all arguments, also
of those that do not have the input types.  An application of such a function fails for a
breach only because the implementation gave up at its arguments. -/
theorem implement_honours (op : Operation) (inputs : List Ty) (output : Ty) :
    ∃ implementation, op.implement ⟨inputs, [output]⟩ = .ok implementation ∧
      (∀ args reply, implementation args = .ok reply →
        ∃ v, reply = .scalar (.value v) ∧ v.type = output ∧
          Value.make output v.payload = .ok v ∧
          (output = .i32 → ∃ n : Int, v.payload = .integer n ∧ -2 ^ 31 ≤ n ∧ n ≤ 2 ^ 31 - 1)) ∧
      ∀ name s g breach,
        Function.apply ⟨name, ⟨inputs, [output]⟩, implementation⟩ s =
            .error (.error (.brokenCallee g breach)) →
          ∃ below args fault, s = Stack.extend below args ∧ args.map Value.type = inputs ∧
            implementation args = .error (.fatal (.fault fault)) ∧
            fault.kind.isRecoverable = true ∧
            ∃ text, fault.text = .ok text ∧ breach = .failed fault text := by
  have hreplies : ∀ args reply, op.implementation output args = .ok reply →
      ∃ v, reply = .scalar (.value v) ∧ v.type = output := by
    intro args reply hreply
    obtain ⟨result, -, rfl⟩ := implementation_eq_ok_iff.mp hreply
    exact ⟨result.convertTo output, rfl, Value.type_convertTo output result⟩
  refine ⟨op.implementation output, rfl, ?_, ?_⟩
  · intro args reply hreply
    obtain ⟨v, rfl, htype⟩ := hreplies args reply hreply
    refine ⟨v, rfl, htype, ?_, fun hinteger => Value.exists_integer_payload (htype.trans hinteger)⟩
    rw [← htype, Value.make_payload]
  · intro name s g breach happly
    obtain ⟨below, args, hstack, htypes, hbreach⟩ := Function.breach_of_apply rfl happly
    refine ⟨below, args, ?_⟩
    change (∃ breach' text,
        Breaks output (op.implementation output args) breach' (.ok text) ∧ breach = breach' text) ∨
      op.implementation output args = .error (.error (.brokenCallee g breach)) at hbreach
    rcases hbreach with ⟨breach', text, hbreaks, rfl⟩ | hfailed
    · cases hanswer : op.implementation output args with
      | ok reply =>
          obtain ⟨v, rfl, htype⟩ := hreplies args reply hanswer
          rw [hanswer] at hbreaks
          exact absurd rfl (hbreaks.of_reply v htype)
      | error failure =>
          obtain ⟨fault, rfl⟩ := exists_fault_of_implementation hanswer
          rw [hanswer] at hbreaks
          obtain ⟨hrecoverable, rfl, htext⟩ := hbreaks.of_fault
          exact ⟨fault, hstack, htypes, rfl, hrecoverable, text, htext.symm, rfl⟩
    · obtain ⟨fault, hfault⟩ := exists_fault_of_implementation hfailed
      contradiction

/-- A square root of a single that is handed back as an integer, and a power of integers
that is to be handed back as a double but that does not exist. -/
theorem implement_honours_of_other_outputs :
    (∃ implementation, (unary .squareRoot).implement ⟨[.f32], [.i32]⟩ = .ok implementation ∧
      implementation [.f32 (.ofInt .single 7)] = .ok (.scalar (.value (.i32 2))) ∧
      ∃ v, Reply.scalar (.value (.i32 2)) = .scalar (.value v) ∧ v.type = .i32 ∧
        Value.make .i32 v.payload = .ok v) ∧
    ∃ implementation, (binary .power).implement ⟨[.i32, .i32], [.f64]⟩ = .ok implementation ∧
      let f : Function := ⟨"power", ⟨[.i32, .i32], [.f64]⟩, implementation⟩
      f.apply (.ofList [.i32 2, .i32 (-1)]) =
        .error (.error (.brokenCallee f (.failed .negativePower
          "Integers to negative integer powers are not allowed."))) ∧
      ∃ below args, .ofList [.i32 2, .i32 (-1)] = Stack.extend below args ∧
        implementation args = .error (.fatal (.fault .negativePower)) := by
  constructor
  · obtain ⟨implementation, hbuilt, hreplies, -⟩ :=
      implement_honours (unary .squareRoot) [.f32] .i32
    obtain rfl := Except.ok.inj hbuilt
    have htruncated : (UnaryOperation.squareRoot.run (.f32 (.ofInt .single 7))).convertTo .i32 =
        .i32 2 := by
      decide +kernel
    have hroot : (unary .squareRoot).implementation .i32 [.f32 (.ofInt .single 7)] =
        .ok (.scalar (.value (.i32 2))) :=
      implementation_eq_ok_iff.mpr ⟨_, rfl, by rw [htruncated]⟩
    obtain ⟨v, hscalar, htype, hmake, -⟩ := hreplies _ _ hroot
    exact ⟨_, rfl, hroot, v, hscalar, htype, hmake⟩
  · obtain ⟨implementation, hbuilt, -, hbreaches⟩ :=
      implement_honours (binary .power) [.i32, .i32] .f64
    obtain rfl := Except.ok.inj hbuilt
    let f : Function := ⟨"power", ⟨[.i32, .i32], [.f64]⟩, (binary .power).implementation .f64⟩
    have happly : f.apply (.ofList [.i32 2, .i32 (-1)]) =
        .error (.error (.brokenCallee f (.failed .negativePower
          "Integers to negative integer powers are not allowed."))) := rfl
    obtain ⟨below, args, fault, hstack, -, hfault, -, text, -, hbreach⟩ := hbreaches _ _ _ _ happly
    obtain ⟨rfl, -⟩ : Fault.negativePower = fault ∧ _ = text := by simpa using hbreach
    exact ⟨_, rfl, happly, below, args, hstack, hfault⟩

end Operation

end PostfixCalc
