import PostfixCalc.Proofs.Registry
import PostfixCalc.Proofs.Service.Asking

/-!
# Responses report the state

A response tells the state that the request leaves: what it lists as the stack is the stack
after the request.  A request that fails changes nothing, unless it is an implementation
that could not read a line.  Of the others only evaluation and clearing change the stack.
-/

namespace PostfixCalc
namespace Service

/-- A field of a response as it is sent. -/
def Response.field? (response : Response) (name : String) : Option Json :=
  response.json.member? name

/-- All ways in which a JSON value is answered by a response, with the stack after it. -/
inductive Answered (r : Registry) (s : Stack) : Json → Response → Stack → Prop where
  | refused {j : Json} {message : Text} :
      Misstated j (.ok message) → Answered r s j (.refused message) s
  | garbled {j : Json} {text : Text} :
      AsksGarbled j text → Answered r s j (.rejected (garbledWords r text) (stackTexts s)) s
  | rejected {j : Json} {line : String} {e : Rejection} :
      Asks j (.eval line) → Session.eval r s line = .rejected e →
      Answered r s j (.rejected e.message (stackTexts s)) s
  | stopped {j : Json} {line : String} {errors : List ApplyError} {s' : Stack} {e : LineError} :
      Asks j (.eval line) → Session.eval r s line = .ran ⟨errors, s', some (.line e)⟩ →
      Answered r s j (.rejected e.message (stackTexts s')) s'
  | evaluated {j : Json} {line : String} {errors : List ApplyError} {s' : Stack} :
      Asks j (.eval line) → Session.eval r s line = .ran ⟨errors, s', none⟩ →
      Answered r s j (.done (stackTexts s') (errors.map ApplyError.message)) s'
  | listed {j : Json} : Asks j .stack → Answered r s j (.done (stackTexts s) []) s
  | cleared {j : Json} : Asks j .clear → Answered r s j (.done (stackTexts .empty) []) .empty
  | functions {j : Json} : Asks j .functions →
      Answered r s j (.functions (r.items.map fun item => (item.1, item.2.signature.text))) s

variable {r : Registry} {s s' : Stack} {j : Json} {response : Response}

namespace Response

theorem field?_stack (response : Response) :
    response.field? "stack" = match response with
      | rejected _ stack | done stack _ => some (texts stack)
      | refused _ | functions _ => none := by
  cases response <;> rfl

theorem field?_errors (response : Response) :
    response.field? "errors" = match response with
      | done _ errors => some (texts errors)
      | refused _ | rejected _ _ | functions _ => none := by
  cases response <;> rfl

end Response

namespace Answered

theorem changed (h : Answered r s j response s') (hne : s' ≠ s) :
    (∃ line, Asks j (.eval line) ∧ s' = (Session.eval r s line).stackFrom s) ∨
      Asks j .clear ∧ s' = .empty := by
  cases h with
  | stopped hasks heval => exact Or.inl ⟨_, hasks, by rw [heval]; rfl⟩
  | evaluated hasks heval => exact Or.inl ⟨_, hasks, by rw [heval]; rfl⟩
  | cleared hasks => exact Or.inr ⟨hasks, rfl⟩
  | _ => contradiction

theorem stack (h : Answered r s j response s') {listed : Json}
    (hlisted : response.field? "stack" = some listed) :
    listed = texts (s'.toList.map Value.text) := by
  rw [Response.field?_stack] at hlisted
  cases h with
  | refused _ => contradiction
  | functions _ => contradiction
  | _ => exact (Option.some.inj hlisted).symm

theorem errors (h : Answered r s j response s') {line : String} (hline : Asks j (.eval line))
    {listed : Json} (hlisted : response.field? "errors" = some listed) :
    ∃ errors, Session.eval r s line = .ran ⟨errors, s', none⟩ ∧
      listed = texts (errors.map ApplyError.message) := by
  rw [Response.field?_errors] at hlisted
  cases h with
  | refused hmisstated => exact absurd hmisstated hline.not_misstated
  | garbled hgarbled => exact absurd hgarbled hline.not_asksGarbled
  | rejected _ _ => contradiction
  | stopped _ _ => contradiction
  | evaluated hasks heval =>
      obtain rfl := Request.eval.inj (hline.unique hasks)
      exact ⟨_, heval, (Option.some.inj hlisted).symm⟩
  | listed hasks => exact absurd (hline.unique hasks) (by simp)
  | cleared hasks => exact absurd (hline.unique hasks) (by simp)
  | functions hasks => exact absurd (hline.unique hasks) (by simp)

end Answered

end Service
end PostfixCalc
