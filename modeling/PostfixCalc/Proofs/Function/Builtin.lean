import PostfixCalc.Function.Builtin
import PostfixCalc.Proofs.Application
import PostfixCalc.Proofs.Registry

/-!
# Built-in functions keep their signatures

Every built-in function answers all arguments of its input types, numbers that are
not finite included, with a value of its output type.  This rests on one property
of each line of the table, that its operation is total at the types of its inputs;
the conversion of the result then fixes the output type.
-/

namespace PostfixCalc

theorem Builtin.keys_nodup : (Builtin.table.map Builtin.key).Nodup := by
  decide

theorem Registry.lookup_builtin (key : String) :
    Registry.builtin.lookup key = (Builtin.find? key).map Builtin.function := by
  have hkeys : ((Builtin.table.map fun b => (b.key, b.function)).map Prod.fst).Nodup := by
    simpa [Function.comp_def] using Builtin.keys_nodup
  have hfound : ∀ f, Registry.builtin.lookup key = some f ↔
      (key, f) ∈ Builtin.table.map fun b => (b.key, b.function) := fun _ =>
    Registry.lookup_ofFunctions_eq_some_iff hkeys
  cases hfind : Builtin.find? key with
  | some b =>
      have hkey : b.key = key := by simpa using List.find?_some hfind
      have hb : b ∈ Builtin.table := List.mem_of_find?_eq_some hfind
      exact (hfound b.function).mpr (List.mem_map.mpr ⟨b, hb, by rw [hkey]⟩)
  | none =>
      cases hlookup : Registry.builtin.lookup key with
      | none => rfl
      | some f =>
          obtain ⟨b, hb, heq⟩ := List.mem_map.mp ((hfound f).mp hlookup)
          have hkey : b.key = key := congrArg Prod.fst heq
          have hne := List.find?_eq_none.mp hfind b hb
          simp [hkey] at hne

theorem Builtin.of_lookup {key : String} {f : Function}
    (h : Registry.builtin.lookup key = some f) : ∃ b ∈ Builtin.table, f = b.function := by
  rw [Registry.lookup_builtin] at h
  obtain ⟨b, hfind, rfl⟩ := Option.map_eq_some_iff.mp h
  exact ⟨b, List.mem_of_find?_eq_some hfind, rfl⟩

theorem Value.type_convertTo (t : Ty) (v : Value) : (v.convertTo t).type = t := by
  cases t with
  | i32 => rfl
  | f32 => rfl
  | f64 => rfl

/-- An operation that has a result at all arguments of the given types.  Only powers
of integers may have none. -/
def Operation.isTotalAt : Operation → List Ty → Bool
  | unary _, [_] => true
  | binary op, [t, u] => op != .power || t != .i32 || u != .i32
  | _, _ => false

theorem BinaryOperation.run_of_isTotalAt {op : BinaryOperation} {v w : Value}
    (h : (Operation.binary op).isTotalAt [v.type, w.type] = true) :
    ∃ result, op.run v w = .ok result := by
  cases v with
  | i32 m =>
      cases w with
      | i32 n =>
          cases op with
          | add => exact ⟨_, rfl⟩
          | subtract => exact ⟨_, rfl⟩
          | multiply => exact ⟨_, rfl⟩
          | divide => exact ⟨_, rfl⟩
          | power => simp [Operation.isTotalAt, Value.type] at h
      | f32 y => exact ⟨_, rfl⟩
      | f64 y => exact ⟨_, rfl⟩
  | f32 x =>
      cases w with
      | i32 n => exact ⟨_, rfl⟩
      | f32 y => exact ⟨_, rfl⟩
      | f64 y => exact ⟨_, rfl⟩
  | f64 x => exact ⟨_, rfl⟩

theorem Operation.run_of_isTotalAt {op : Operation} {args : List Value}
    (h : op.isTotalAt (args.map Value.type) = true) : ∃ result, op.run args = .ok result := by
  cases op with
  | unary op =>
      match args with
      | [] => simp [isTotalAt] at h
      | [v] => exact ⟨op.run v, rfl⟩
      | _ :: _ :: _ => simp [isTotalAt] at h
  | binary op =>
      match args with
      | [] => simp [isTotalAt] at h
      | [_] => simp [isTotalAt] at h
      | [v, w] => exact BinaryOperation.run_of_isTotalAt h
      | _ :: _ :: _ :: _ => simp [isTotalAt] at h

theorem Builtin.isTotalAt_inputs :
    ∀ b ∈ Builtin.table, b.operation.isTotalAt b.inputs = true := by
  decide

namespace Builtin

theorem implementation_eq {b : Builtin} {args : List Value} {result : Value}
    (hrun : b.operation.run args = .ok result) :
    b.function.implementation args = .ok (.scalar (.value (result.convertTo b.output))) := by
  simp [function, Operation.implementation, Implementation.ofFaulting, hrun, Except.map]

theorem hasType_convertTo (b : Builtin) (result : Value) :
    (result.convertTo b.output).hasType b.output = true := by
  simp [Value.hasType, Value.type_convertTo]

/-- A built-in function answers all arguments of its input types with a value of its
output type. -/
theorem exists_answer {b : Builtin} (hb : b ∈ table) {args : List Value}
    (htypes : args.map Value.type = b.inputs) :
    ∃ v, b.function.answer b.output args = .ok v ∧ v.type = b.output := by
  have htotal := isTotalAt_inputs b hb
  rw [← htypes] at htotal
  obtain ⟨result, hrun⟩ := Operation.run_of_isTotalAt htotal
  exact ⟨result.convertTo b.output,
    Function.answer_of_implementation htypes (implementation_eq hrun) (b.hasType_convertTo result),
    Value.type_convertTo b.output result⟩

end Builtin

end PostfixCalc
