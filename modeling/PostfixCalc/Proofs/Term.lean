import Mathlib.Data.Int.ModEq
import PostfixCalc.Proofs.Function.Builtin
import PostfixCalc.Proofs.Session
import PostfixCalc.Proofs.Token.Scan
import PostfixCalc.Proofs.Token.Written
import PostfixCalc.Term

/-!
# Postfix forms compute the values of terms

Running the words of a term puts its value on the stack, whatever is on the stack
before and whatever runs afterwards; a list of terms leaves its values in order.
Both facts are proved together, along the term.

The integers of the calculator wrap after every operation.  Since taking the
remainder is compatible with sums, differences, products and changes of sign, the
value of an integer term is the remainder of its exact value, reduced once.
-/

namespace PostfixCalc

theorem Function.apply_of_value? {f : Function} {args : List Value} {v : Value} (s : Stack)
    (h : f.value? args = some v) : f.apply (s.extend args) = .ok (s.push v) := by
  unfold Function.value? at h
  split at h
  · next output houtputs =>
    split at h
    · next htypes =>
      have hlength : args.length = f.signature.arity := by
        rw [Signature.arity, ← htypes, List.length_map]
      split at h
      · next w hreply =>
        split at h
        · next htype =>
          obtain rfl := Option.some.inj h
          have hanswer := Function.answer_of_implementation htypes hreply htype
          rw [Function.apply_extend s houtputs hlength, hanswer]
          rfl
        · contradiction
      · contradiction
    · contradiction
  · contradiction

theorem isCallable_iff {key : String} :
    isCallable key = true ↔ IsWord key.toList ∧ literal? key = none := by
  simp only [isCallable, IsWord, Bool.and_eq_true, Bool.not_eq_true', Option.isNone_iff_eq_none,
    List.any_eq_false, Bool.not_eq_true, String.isEmpty_eq_false_iff, ne_eq,
    String.toList_eq_nil_iff]

theorem ofWord_of_isCallable {r : Registry} {key : String} {f : Function}
    (hkey : isCallable key = true) (hlookup : r.lookup key = some f) :
    IsWord key.toList ∧ Token.ofWord r key = .function f := by
  obtain ⟨hword, hliteral⟩ := isCallable_iff.mp hkey
  exact ⟨hword, Token.ofWord_of_lookup hliteral hlookup⟩

namespace Term

variable {r : Registry}

theorem value?_call {key : String} {arguments : List Term} {v : Value}
    (h : (call key arguments).value? r = some v) :
    ∃ f vs, isCallable key = true ∧ r.lookup key = some f ∧
      argumentValues? r arguments = some vs ∧ f.value? vs = some v := by
  rw [value?] at h
  split at h
  · next hkey =>
    split at h
    · next f vs hlookup hvalues => exact ⟨f, vs, hkey, hlookup, hvalues, h⟩
    · contradiction
  · contradiction

theorem value?_call_eq {key : String} {arguments : List Term} {f : Function}
    {vs : List Value} (hkey : isCallable key = true) (hlookup : r.lookup key = some f)
    (hvalues : argumentValues? r arguments = some vs) :
    (call key arguments).value? r = f.value? vs := by
  rw [value?, if_pos hkey, hlookup, hvalues]

theorem argumentValues?_cons {t : Term} {ts : List Term} {vs : List Value}
    (h : argumentValues? r (t :: ts) = some vs) :
    ∃ v rest, t.value? r = some v ∧ argumentValues? r ts = some rest ∧ vs = v :: rest := by
  rw [argumentValues?] at h
  split at h
  · next v rest hv hrest => exact ⟨v, rest, hv, hrest, (Option.some.inj h).symm⟩
  · contradiction

mutual

/-- The words of a term that has a value are words of a line, and none is bad. -/
theorem isWord_of_mem_words {t : Term} {v : Value} (h : t.value? r = some v) :
    ∀ word ∈ t.words, IsWord word.toList ∧ (Token.ofWord r word).badText? = none := by
  cases t with
  | literal word =>
      rw [value?] at h
      rw [words, List.forall_mem_singleton]
      exact ⟨isWord_of_literal? h, by rw [Token.ofWord_of_literal? h]; rfl⟩
  | call key arguments =>
      obtain ⟨f, vs, hkey, hlookup, hvalues, -⟩ := value?_call h
      obtain ⟨hword, hmeaning⟩ := ofWord_of_isCallable hkey hlookup
      rw [words, List.forall_mem_append, List.forall_mem_singleton]
      exact ⟨isWord_of_mem_argumentWords hvalues, hword, by rw [hmeaning]; rfl⟩

theorem isWord_of_mem_argumentWords {ts : List Term} {vs : List Value}
    (h : argumentValues? r ts = some vs) :
    ∀ word ∈ argumentWords ts,
      IsWord word.toList ∧ (Token.ofWord r word).badText? = none := by
  cases ts with
  | nil => simp [argumentWords]
  | cons t ts =>
      obtain ⟨v, rest, hv, hrest, -⟩ := argumentValues?_cons h
      rw [argumentWords, List.forall_mem_append]
      exact ⟨isWord_of_mem_words hv, isWord_of_mem_argumentWords hrest⟩

end

mutual

/-- Running the words of a term puts its value on the stack. -/
theorem run_words (s : Stack) {t : Term} {v : Value} (h : t.value? r = some v)
    (rest : List Token) :
    Session.run s (t.words.map (Token.ofWord r) ++ rest) = Session.run (s.push v) rest := by
  cases t with
  | literal word =>
      rw [value?] at h
      simp only [words, List.map_cons, List.map_nil, List.singleton_append,
        Token.ofWord_of_literal? h]
      exact Session.run_literal s v rest
  | call key arguments =>
      obtain ⟨f, vs, hkey, hlookup, hvalues, hv⟩ := value?_call h
      have happly := f.apply_of_value? s hv
      simp only [words, List.map_append, List.map_cons, List.map_nil, List.append_assoc,
        List.singleton_append, (ofWord_of_isCallable hkey hlookup).2]
      rw [run_argumentWords s hvalues, Session.run_of_apply_ok happly]

theorem run_argumentWords (s : Stack) {ts : List Term} {vs : List Value}
    (h : argumentValues? r ts = some vs) (rest : List Token) :
    Session.run s ((argumentWords ts).map (Token.ofWord r) ++ rest) =
      Session.run (s.extend vs) rest := by
  cases ts with
  | nil =>
      obtain rfl : [] = vs := by simpa [argumentValues?] using h
      rfl
  | cons t ts =>
      obtain ⟨v, ws, hv, hws, rfl⟩ := argumentValues?_cons h
      rw [argumentWords, List.map_append, List.append_assoc, run_words s hv,
        run_argumentWords (s.push v) hws, ← Stack.extend_singleton, ← Stack.extend_append,
        List.singleton_append]

end

theorem eval_line_of_value? (s : Stack) {t : Term} {v : Value} (h : t.value? r = some v) :
    Session.eval r s t.line = .ran ⟨[], s.push v, none⟩ := by
  have hwords := isWord_of_mem_words h
  have hline : lineWords t.line = t.words :=
    lineWords_intercalate fun word hword => (hwords word hword).1
  have haccepts : Session.Accepts r t.line := by
    intro word hword
    rw [hline] at hword
    exact (hwords word hword).2
  have hrun := run_words s h []
  rw [List.append_nil] at hrun
  rw [Session.eval_of_accepts s haccepts, hline, hrun]
  rfl

/-- The postfix form of a term computes its value: evaluating it meets no error and
leaves the stack as it was with the value on top. -/
theorem eval_postfix_form (s : Stack) {t : Term} {v : Value} (h : t.value? r = some v) :
    ∃ s', Session.eval r s t.line = .ran ⟨[], s', none⟩ ∧ s'.toList = s.toList ++ [v] :=
  ⟨s.push v, eval_line_of_value? s h, s.toList_push v⟩

/-- The difference of ten and a difference, in postfix form. -/
theorem eval_postfix_form_of_differences :
    (call "sub" [literal "10", call "sub" [literal "4", call "inc" [literal "2"]]]).value?
        .builtin = some (.i32 9) ∧
      ∃ s', Session.eval .builtin (.ofList [.f64 .nan])
          (call "sub" [literal "10", call "sub" [literal "4", call "inc" [literal "2"]]]).line =
            .ran ⟨[], s', none⟩ ∧
        s'.toList = (Stack.ofList [.f64 .nan]).toList ++ [.i32 9] := by
  have hvalue : (call "sub" [literal "10",
      call "sub" [literal "4", call "inc" [literal "2"]]]).value? .builtin = some (.i32 9) := by
    decide
  exact ⟨hvalue, eval_postfix_form _ hvalue⟩

end Term

/-! ## Integer terms -/

/-- The decimal numeral of an integer of 32 bits, as a literal. -/
def IntegerLiteral.ofInt (n : Int) (h : Value.fits n = true) : IntegerLiteral where
  word := intText n
  negative := decide (n < 0)
  digits := decimalDigits n.natAbs
  spells := by
    rw [intText, String.toList_ofList]
    exact signedDigits_intChars n
  short := length_decimalDigits_of_fits h
  fits := by
    rwa [ofDigits_decimalDigits, signed_natAbs]

theorem IntegerLiteral.literal?_word (l : IntegerLiteral) :
    literal? l.word = some (.i32 (Int32.ofInt l.value)) :=
  literalChars?_of_signedDigits l.spells l.short l.fits

theorem Builtin.value?_call {key : String} {b : Builtin} {ts : List Term}
    {args : List Value} {result : Value} (hkey : isCallable key = true)
    (hfind : Builtin.find? key = some b)
    (hvalues : Term.argumentValues? .builtin ts = some args)
    (htypes : args.map Value.type = b.inputs) (hrun : b.operation.run args = .ok result) :
    (Term.call key ts).value? .builtin = some (result.convertTo b.output) := by
  have hlookup : Registry.builtin.lookup key = some b.function := by
    rw [Registry.lookup_builtin, hfind, Option.map_some]
  rw [Term.value?_call_eq hkey hlookup hvalues, Function.value?]
  simp only [Builtin.implementation_eq hrun]
  simp [Builtin.function, htypes, b.hasType_convertTo]

namespace IntegerUnary

/-- The wrapping operation behind a function of one argument. -/
def operation : IntegerUnary → UnaryOperation
  | negate => .negate
  | increment => .increment
  | decrement => .decrement

theorem find?_key (op : IntegerUnary) :
    ∃ name, Builtin.find? op.key = some ⟨op.key, name, [.i32], .i32, .unary op.operation⟩ := by
  cases op with
  | negate => exact ⟨_, rfl⟩
  | increment => exact ⟨_, rfl⟩
  | decrement => exact ⟨_, rfl⟩

theorem isCallable_key (op : IntegerUnary) : isCallable op.key = true := by
  cases op with
  | negate => decide
  | increment => decide
  | decrement => decide

/-- Wrapping the argument and wrapping the exact result come to the same. -/
theorem onInt32_ofInt (op : IntegerUnary) (n : Int) :
    op.operation.onInt32 (Int32.ofInt n) = .i32 (Int32.ofInt (op.exact n)) := by
  cases op with
  | negate =>
      simp only [operation, exact, UnaryOperation.onInt32, Int32.ofInt_neg]
  | increment =>
      simp only [operation, exact, UnaryOperation.onInt32, Int32.ofInt_add]
      rfl
  | decrement =>
      simp only [operation, exact, UnaryOperation.onInt32, Int32.ofInt_sub]
      rfl

theorem value?_call (op : IntegerUnary) {t : Term} {n : Int}
    (ht : t.value? .builtin = some (.i32 (Int32.ofInt n))) :
    (Term.call op.key [t]).value? .builtin = some (.i32 (Int32.ofInt (op.exact n))) := by
  obtain ⟨name, hfind⟩ := op.find?_key
  have hvalues : Term.argumentValues? .builtin [t] = some [.i32 (Int32.ofInt n)] := by
    simp [Term.argumentValues?, ht]
  have hrun : (Operation.unary op.operation).run [.i32 (Int32.ofInt n)] =
      .ok (.i32 (Int32.ofInt (op.exact n))) :=
    congrArg Except.ok (op.onInt32_ofInt n)
  rw [Builtin.value?_call op.isCallable_key hfind hvalues rfl hrun]
  rfl

end IntegerUnary

namespace IntegerBinary

/-- The wrapping operation behind a function of two arguments. -/
def operation : IntegerBinary → BinaryOperation
  | add => .add
  | subtract => .subtract
  | multiply => .multiply

theorem find?_key (op : IntegerBinary) :
    ∃ name, Builtin.find? op.key =
      some ⟨op.key, name, [.i32, .i32], .i32, .binary op.operation⟩ := by
  cases op with
  | add => exact ⟨_, rfl⟩
  | subtract => exact ⟨_, rfl⟩
  | multiply => exact ⟨_, rfl⟩

theorem isCallable_key (op : IntegerBinary) : isCallable op.key = true := by
  cases op with
  | add => decide
  | subtract => decide
  | multiply => decide

/-- Wrapping both arguments and wrapping the exact result come to the same. -/
theorem onInt32_ofInt (op : IntegerBinary) (m n : Int) :
    op.operation.onInt32 (Int32.ofInt m) (Int32.ofInt n) =
      .ok (.i32 (Int32.ofInt (op.exact m n))) := by
  cases op with
  | add => simp only [operation, exact, BinaryOperation.onInt32, Int32.ofInt_add]
  | subtract => simp only [operation, exact, BinaryOperation.onInt32, Int32.ofInt_sub]
  | multiply => simp only [operation, exact, BinaryOperation.onInt32, Int32.ofInt_mul]

theorem value?_call (op : IntegerBinary) {t u : Term} {m n : Int}
    (ht : t.value? .builtin = some (.i32 (Int32.ofInt m)))
    (hu : u.value? .builtin = some (.i32 (Int32.ofInt n))) :
    (Term.call op.key [t, u]).value? .builtin = some (.i32 (Int32.ofInt (op.exact m n))) := by
  obtain ⟨name, hfind⟩ := op.find?_key
  have hvalues : Term.argumentValues? .builtin [t, u] =
      some [.i32 (Int32.ofInt m), .i32 (Int32.ofInt n)] := by
    simp [Term.argumentValues?, ht, hu]
  have hrun : (Operation.binary op.operation).run
      [.i32 (Int32.ofInt m), .i32 (Int32.ofInt n)] =
        .ok (.i32 (Int32.ofInt (op.exact m n))) :=
    op.onInt32_ofInt m n
  rw [Builtin.value?_call op.isCallable_key hfind hvalues rfl hrun]
  rfl

end IntegerBinary

namespace IntegerTerm

theorem value?_term (t : IntegerTerm) :
    t.term.value? .builtin = some (.i32 (Int32.ofInt t.exact)) := by
  induction t with
  | literal l =>
      rw [term, Term.value?, exact]
      exact l.literal?_word
  | unary op t ih => exact op.value?_call ih
  | binary op t u iht ihu => exact op.value?_call iht ihu

/-- The wrapped integer is the one integer of 32 bits that is congruent to it. -/
theorem eq_toInt_ofInt_iff (m e : Int) :
    m = (Int32.ofInt e).toInt ↔
      -2 ^ 31 ≤ m ∧ m ≤ 2 ^ 31 - 1 ∧ m ≡ e [ZMOD 2 ^ 32] := by
  have hlow := (Int32.ofInt e).le_toInt
  have hhigh := (Int32.ofInt e).toInt_lt
  have hmod : (Int32.ofInt e).toInt % 2 ^ 32 = e % 2 ^ 32 := by
    rw [Int32.toInt_ofInt]
    exact Int.bmod_emod
  unfold Int.ModEq
  constructor
  · rintro rfl
    exact ⟨hlow, by omega, hmod⟩
  · rintro ⟨hm, hm', hcongr⟩
    omega

/-- Evaluating the postfix form of an integer term puts one integer on the stack: the
integer of 32 bits that is congruent to the exact value modulo `2 ^ 32`. -/
theorem eval_postfix_modulo (t : IntegerTerm) (s : Stack) :
    ∃ n : Int32, Session.eval .builtin s t.term.line = .ran ⟨[], s.push (.i32 n), none⟩ ∧
      ∀ m : Int, m = n.toInt ↔
        -2 ^ 31 ≤ m ∧ m ≤ 2 ^ 31 - 1 ∧ m ≡ t.exact [ZMOD 2 ^ 32] :=
  ⟨Int32.ofInt t.exact, Term.eval_line_of_value? s t.value?_term,
    fun m => eq_toInt_ofInt_iff m t.exact⟩

end IntegerTerm

end PostfixCalc
