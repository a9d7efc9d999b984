import PostfixCalc.Function.Builtin
import PostfixCalc.Proofs.Session.Validation
import PostfixCalc.Proofs.Token.Written

/-!
# Where the values of a stack come from

Nothing but a literal or a successful application puts a value on the stack, whatever
implementations hand back.  To say so of every single value, origins are kept beside the
values: a literal is placed with its word, a result with the application that made it,
and a value that stays keeps its origin.  Without the origins this is the stack of the
session, and every origin is what it says.
-/

namespace PostfixCalc

/-- How a value came onto a stack: a word spelled it, or it is the result of the function
that a word means. -/
inductive Origin where
  | literal (word : String)
  | result (word : String) (f : Function) (args : List Value)

/-- A value on a stack with its origin. -/
structure Placed where
  value : Value
  origin : Origin

/-- The stack of placed values, which are listed from the top down. -/
def Stack.ofPlaced (ps : List Placed) : Stack := ⟨ps.map Placed.value⟩

/-- The origin is what it says: the word is one of the given words, and it means the
value, or it means a function whose only output is of the type of the value and whose
implementation made the value of arguments of its input types. -/
inductive Placed.IsAccounted (r : Registry) (words : List String) : Placed → Prop where
  | literal {word : String} {v : Value} :
      word ∈ words → Token.Means r word (.literal v) → IsAccounted r words ⟨v, .literal word⟩
  | result {word : String} {f : Function} {args : List Value} {v : Value} :
      word ∈ words → Token.Means r word (.function f) → f.signature.outputs = [v.type] →
      args.map Value.type = f.signature.inputs →
      f.implementation args = .ok (.scalar (.value v)) →
      IsAccounted r words ⟨v, .result word f args⟩

/-- What a successful application makes of placed values, given the stack after it: it
takes its arguments away and places its result on what lies below them. -/
def Function.place (f : Function) (word : String) (ps : List Placed) (after : Stack) :
    List Placed :=
  let args := ((ps.take f.signature.arity).map Placed.value).reverse
  (after.top 1).map (fun v => ⟨v, .result word f args⟩) ++ ps.drop f.signature.arity

/-- One successful application: without origins the placed values are the stack after
it, and its result is accounted for by the function and its arguments. -/
theorem Function.place_of_apply {f : Function} {ps : List Placed} {s : Stack} (word : String)
    (happly : f.apply (.ofPlaced ps) = .ok s) :
    Stack.ofPlaced (f.place word ps s) = s ∧
      ∃ args v, f.place word ps s = ⟨v, .result word f args⟩ :: ps.drop f.signature.arity ∧
        f.signature.outputs = [v.type] ∧ args.map Value.type = f.signature.inputs ∧
        f.implementation args = .ok (.scalar (.value v)) := by
  obtain ⟨below, args, v, hstack, rfl, houtputs, htypes, hreply⟩ := apply_eq_ok_iff.mp happly
  have hvalues : ps.map Placed.value = args.reverse ++ below.fromTop :=
    congrArg Stack.fromTop hstack
  have harity : f.signature.arity = args.reverse.length := by
    rw [Signature.arity, ← htypes, List.length_map, List.length_reverse]
  have hargs : (ps.take f.signature.arity).map Placed.value = args.reverse := by
    rw [List.map_take, hvalues, harity, List.take_left]
  have hbelow : (ps.drop f.signature.arity).map Placed.value = below.fromTop := by
    rw [List.map_drop, hvalues, harity, List.drop_left]
  have hplace : f.place word ps (below.push v) =
      ⟨v, .result word f args⟩ :: ps.drop f.signature.arity := by
    simp [place, hargs, Stack.top, Stack.push]
  refine ⟨?_, args, v, hplace, houtputs, htypes, hreply⟩
  rw [hplace, Stack.ofPlaced, List.map_cons, hbelow]
  rfl

theorem Value.make_i32_eq_ok_iff (m : Int) (v : Value) :
    Value.make .i32 (.integer m) = .ok v ↔
      (-2 ^ 31 ≤ m ∧ m ≤ 2 ^ 31 - 1) ∧ v = .i32 (Int32.ofInt m) := by
  rw [make, ofInt?]
  have hrange := fits_iff (n := m)
  split
  · next hfits =>
    have hbounds := hrange.mp hfits
    constructor
    · intro h
      exact ⟨by omega, (Except.ok.inj h).symm⟩
    · rintro ⟨-, rfl⟩
      rfl
  · next hfits =>
    constructor
    · intro h
      contradiction
    · rintro ⟨hbounds, -⟩
      exact absurd (hrange.mpr (by omega)) hfits

namespace Session

/-- Runs the tokens of a line on placed values: a literal is placed with its word, and a
successful application places its result.  Failed ones move nothing. -/
def track (ps : List Placed) : List (String × Token) → List Placed
  | [] => ps
  | (word, .literal v) :: rest => track (⟨v, .literal word⟩ :: ps) rest
  | (_, .bad _) :: rest => track ps rest
  | (word, .function f) :: rest =>
    match f.apply (.ofPlaced ps) with
    | .ok s => track (f.place word ps s) rest
    | .error (.error _) => track ps rest
    | .error (.fatal _) => ps

theorem ofPlaced_track (ps : List Placed) (tokens : List (String × Token)) :
    Stack.ofPlaced (track ps tokens) = (run (.ofPlaced ps) (tokens.map Prod.snd)).stack := by
  induction tokens generalizing ps with
  | nil => rfl
  | cons first rest ih =>
      obtain ⟨word, token⟩ := first
      rw [List.map_cons]
      cases token with
      | literal v => exact ih (⟨v, .literal word⟩ :: ps)
      | bad text => exact ih ps
      | function f =>
          cases happly : f.apply (.ofPlaced ps) with
          | ok s =>
              have hplaced := (f.place_of_apply word happly).1
              rw [run_of_apply_ok happly]
              simp only [track, happly]
              rw [ih, hplaced]
          | error failure =>
              cases failure with
              | error e =>
                  rw [run_of_apply_error happly]
                  simp only [track, happly]
                  exact ih ps
              | fatal cause =>
                  rw [run_of_apply_fatal happly]
                  simp only [track, happly]

theorem isAccounted_track {r : Registry} {words : List String} {ps : List Placed}
    {tokens : List (String × Token)} (hps : ∀ p ∈ ps, p.IsAccounted r words)
    (htokens : ∀ token ∈ tokens, token.1 ∈ words ∧ Token.Means r token.1 token.2) :
    ∀ p ∈ track ps tokens, p.IsAccounted r words := by
  induction tokens generalizing ps with
  | nil => exact hps
  | cons first rest ih =>
      obtain ⟨word, token⟩ := first
      rw [List.forall_mem_cons] at htokens
      obtain ⟨⟨hword, hmeans⟩, hrest⟩ := htokens
      cases token with
      | literal v =>
          refine ih ?_ hrest
          rw [List.forall_mem_cons]
          exact ⟨.literal hword hmeans, hps⟩
      | bad text => exact ih hps hrest
      | function f =>
          cases happly : f.apply (.ofPlaced ps) with
          | ok s =>
              obtain ⟨-, args, v, hplace, houtputs, htypes, hreply⟩ :=
                f.place_of_apply word happly
              simp only [track, happly]
              refine ih ?_ hrest
              rw [hplace, List.forall_mem_cons]
              refine ⟨.result hword hmeans houtputs htypes hreply, ?_⟩
              intro p hp
              exact hps p (List.mem_of_mem_drop hp)
          | error failure =>
              cases failure with
              | error e =>
                  simp only [track, happly]
                  exact ih hps hrest
              | fatal cause =>
                  simp only [track, happly]
                  exact hps

/-- The words of a line that a step evaluates and does not reject. -/
def Step.words (r : Registry) : Step → List String
  | .eval line => if badWords r line = [] then lineWords line else []
  | _ => []

/-- Placed values after one step. -/
def trackStep (r : Registry) (ps : List Placed) : Step → List Placed
  | .eval line =>
    match parse r line with
    | .ok tokens => track ps tokens
    | .error _ => ps
  | .parse _ => ps
  | .clear => []

theorem ofPlaced_trackStep (r : Registry) (ps : List Placed) (first : Step) :
    Stack.ofPlaced (trackStep r ps first) = (step r (.ofPlaced ps) first).2 := by
  cases first with
  | eval line =>
      rw [trackStep, step, eval]
      cases parse r line with
      | ok tokens => exact ofPlaced_track ps tokens
      | error e => rfl
  | parse line => rfl
  | clear => rfl

theorem isAccounted_trackStep {r : Registry} {words : List String} {ps : List Placed}
    {first : Step} (hps : ∀ p ∈ ps, p.IsAccounted r words)
    (hwords : ∀ word ∈ first.words r, word ∈ words) :
    ∀ p ∈ trackStep r ps first, p.IsAccounted r words := by
  cases first with
  | eval line =>
      rw [trackStep]
      cases hparse : parse r line with
      | error e => exact hps
      | ok tokens =>
          obtain ⟨hnone, rfl⟩ := eq_ofLine_of_parse hparse
          apply isAccounted_track hps
          intro token htoken
          refine ⟨hwords _ ?_, means_of_mem_ofLine hnone token htoken⟩
          rw [Step.words, if_pos hnone]
          obtain ⟨word, hword, rfl⟩ := List.mem_map.mp htoken
          exact hword
  | parse line => exact hps
  | clear => simp [trackStep]

/-! ## Reachable states -/

/-- The values of a session after steps in a row, each with its origin. -/
def placedAfter (r : Registry) (steps : List Step) : List Placed :=
  steps.foldl (trackStep r) []

theorem foldl_trackStep (r : Registry) {words : List String} {ps : List Placed}
    {steps : List Step} (hps : ∀ p ∈ ps, p.IsAccounted r words)
    (hwords : ∀ next ∈ steps, ∀ word ∈ next.words r, word ∈ words) :
    Stack.ofPlaced (steps.foldl (trackStep r) ps) =
        steps.foldl (fun s next => (step r s next).2) (.ofPlaced ps) ∧
      ∀ p ∈ steps.foldl (trackStep r) ps, p.IsAccounted r words := by
  induction steps generalizing ps with
  | nil => exact ⟨rfl, hps⟩
  | cons first rest ih =>
      rw [List.forall_mem_cons] at hwords
      -- the words are those of the whole run, so that what is accounted for stays so
      have hrest := ih (isAccounted_trackStep hps hwords.1) hwords.2
      rw [ofPlaced_trackStep] at hrest
      exact hrest

/-- In every state that a session can reach, whatever its registry does, every value on
the stack is accounted for by a literal of a line that was run, or by a successful
application of a function that such a line calls and that declares the type of the value
as its only output.  Every integer is in the range of 32 bits; out of this range no
integer value can be made. -/
theorem stackAfter_accounted (r : Registry) (steps : List Step) :
    Stack.ofPlaced (placedAfter r steps) = stackAfter r steps ∧
      (∀ p ∈ placedAfter r steps, p.IsAccounted r (steps.flatMap (Step.words r))) ∧
      (∀ n, Value.i32 n ∈ (stackAfter r steps).toList →
        -2 ^ 31 ≤ n.toInt ∧ n.toInt ≤ 2 ^ 31 - 1) ∧
      ∀ m v, Value.make .i32 (.integer m) = .ok v ↔
        (-2 ^ 31 ≤ m ∧ m ≤ 2 ^ 31 - 1) ∧ v = .i32 (Int32.ofInt m) := by
  have hwords : ∀ next ∈ steps, ∀ word ∈ next.words r, word ∈ steps.flatMap (Step.words r) := by
    intro next hnext word hword
    exact List.mem_flatMap.mpr ⟨next, hnext, hword⟩
  obtain ⟨hstack, haccounted⟩ := foldl_trackStep r (List.forall_mem_nil _) hwords
  refine ⟨hstack, haccounted, ?_, Value.make_i32_eq_ok_iff⟩
  intro n _
  have hupper := n.toInt_lt
  exact ⟨n.le_toInt, by omega⟩

end Session

/-- Functions that break their contracts in different ways: a product that may not fit,
a bare value, plain data, a value of another type, nothing at all, two outputs, and a
fault that is not survived. -/
def Registry.hostile : Registry := .ofFunctions
  [ ("wide", ⟨"wide", ⟨[.i32, .i32], [.i32]⟩, Stock.exactProduct⟩),
    ("bare", ⟨"bare", ⟨[.i32], [.i32]⟩, Stock.bareProjection 0⟩),
    ("raw", ⟨"raw", ⟨[], [.i32]⟩, Stock.constant (.datum (.integer 7))⟩),
    ("other", ⟨"other", ⟨[], [.i32]⟩, Stock.constant (.value (.f64 .nan))⟩),
    ("silent", ⟨"silent", ⟨[], [.i32]⟩, Stock.silence⟩),
    ("pair", ⟨"pair", ⟨[], [.i32, .i32]⟩, Stock.constant (.value (.i32 7))⟩),
    ("ending", ⟨"ending", ⟨[], [.i32]⟩,
      Stock.failing (.fatal (.fault (.raised .runtime "stop")))⟩) ]

/-- What is left of all these attempts are three literals and the product that fits. -/
example :
    (Session.stackAfter .hostile
      [.eval "65536 65536 wide bare raw other silent", .parse "3 wide", .eval "2 3 wide ending 9",
        .eval "8 pair", .eval "10 unknown"]).toList =
      [.i32 65536, .i32 65536, .i32 6, .i32 8] := by
  decide +kernel

end PostfixCalc
