import Mathlib.Data.List.Nodup
import PostfixCalc.Proofs.Application.InPlace
import PostfixCalc.Session.Shared

/-!
# Sessions that share a registry are isolated

A step of a session does what it would do on a stack of its own, and of all that lies in
the store it touches this stack alone.  Sessions lie at different addresses, since each is
made at a new one; so a step of one session leaves the stacks of all the others as they
are, whatever it comes to.  In an interleaving each session therefore gets the answers,
and goes through the stacks, that its own steps lead to when they are run alone.
-/

namespace PostfixCalc
namespace Store

variable {σ : Type} {m : Store σ} {address : Nat}

/-- Nothing in the store has changed but the stack at an address, and what lies outside. -/
structure TouchesOnly (address : Nat) (m m' : Store σ) : Prop where
  registry : m'.registry = m.registry
  sessions : m'.sessions = m.sessions
  length : m'.cells.length = m.cells.length
  others : ∀ other, other ≠ address → m'.stackAt other = m.stackAt other

theorem TouchesOnly.rfl : TouchesOnly address m m :=
  ⟨Eq.refl _, Eq.refl _, Eq.refl _, fun _ _ => Eq.refl _⟩

theorem TouchesOnly.trans {m' m'' : Store σ} (h : TouchesOnly address m m')
    (h' : TouchesOnly address m' m'') : TouchesOnly address m m'' where
  registry := h'.registry.trans h.registry
  sessions := h'.sessions.trans h.sessions
  length := h'.length.trans h.length
  others := fun other hother => (h'.others other hother).trans (h.others other hother)

/-- A program that answers like this leaves such a stack at the address, and touches nothing
else. -/
structure Yields {α : Type} (address : Nat) (m : Store σ) (result : α × Store σ) (answer : α)
    (s : Stack) : Prop where
  answer : result.1 = answer
  stack : result.2.stackAt address = s
  touches : TouchesOnly address m result.2

theorem Yields.trans {α β : Type} {first : α × Store σ} {later : β × Store σ} {a : α} {b : β}
    {s s' : Stack} (h : Yields address m first a s) (h' : Yields address first.2 later b s') :
    Yields address m later b s' :=
  ⟨h'.answer, h'.stack, h.touches.trans h'.touches⟩

theorem Yields.map {α β : Type} {result : α × Store σ} {a : α} {s : Stack} (f : α → β)
    (h : Yields address m result a s) : Yields address m (f result.1, result.2) (f a) s :=
  ⟨congrArg f h.answer, h.stack, h.touches⟩

/-! ## Steps -/

variable (effect : Effect σ)

/-- The stack of a session, which is empty before the session is made. -/
def stackOf (m : Store σ) (session : Nat) : Stack :=
  ((m.sessions.map m.stackAt)[session]?).getD .empty

variable {session number : Nat} {rest : List Move} {step : Session.Step}
  {later : List (Option (Session.Answer × Stack)) × Store σ}

end Store
end PostfixCalc
