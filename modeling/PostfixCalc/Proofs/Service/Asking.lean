import PostfixCalc.Proofs.Service.Wire

/-!
# What a JSON value asks for

A JSON value asks for one of four requests, or it is misstated.  Only its command counts,
and its code when the command is to evaluate; all other fields are passed over.  What asks
for a request is handled like the request, and what is misstated is refused.  Between the
two stand lines to evaluate that hold surrogates and so are no strings.
-/

namespace PostfixCalc

/-- The field of a name in a JSON value.  What is not an object has no fields. -/
def Json.member? (name : String) : Json → Option Json
  | .object fields => field? (Text.ofString name) fields
  | _ => none

namespace Service

/-- The command of a request. -/
def Request.name : Request → String
  | .eval _ => "eval"
  | .stack => "stack"
  | .clear => "clear"
  | .functions => "functions"

/-- A JSON value asks for a request.  Without code the empty line is evaluated. -/
structure Asks (j : Json) (q : Request) : Prop where
  command : j.member? "cmd" = some (.text q.name)
  code : ∀ line, q = .eval line →
    j.member? "code" = some (.text line) ∨ j.member? "code" = none ∧ line = ""

/-- A JSON value asks to evaluate a text that is no string. -/
structure AsksGarbled (j : Json) (text : Text) : Prop where
  command : j.member? "cmd" = some (.text "eval")
  code : j.member? "code" = some (.text text)
  garbled : text.string? = none

/-- JSON values that ask for nothing, with the words in which they are refused, or the fault
that arises in finding these words. -/
inductive Misstated : Json → Except Fault Text → Prop where
  | notAnObject {j : Json} :
      (∀ fields, j ≠ .object fields) → Misstated j (.ok "Request must be a JSON object")
  | unknownCommand {fields : List (Text × Json)} :
      (∀ q : Request, Json.field? "cmd" fields ≠ some (.text q.name)) →
      Misstated (.object fields)
        (((Json.field? "cmd" fields).getD .null).plainText.map fun text =>
          Text.ofString "Unknown cmd: " ++ text)
  | codeNotText {fields : List (Text × Json)} {code : Json} :
      Json.field? "cmd" fields = some (.text "eval") → Json.field? "code" fields = some code →
      (∀ text, code ≠ .text text) → Misstated (.object fields) (.ok "code must be a string")

variable {r : Registry} {s : Stack} {j : Json} {q : Request} {code : Text}
  {words : Except Fault Text}

theorem Asks.exists_object (h : Asks j q) : ∃ fields, j = .object fields := by
  have hcommand := h.command
  cases j with
  | object fields => exact ⟨fields, rfl⟩
  | _ => contradiction

theorem AsksGarbled.exists_object (h : AsksGarbled j code) : ∃ fields, j = .object fields := by
  have hcommand := h.command
  cases j with
  | object fields => exact ⟨fields, rfl⟩
  | _ => contradiction

theorem Asks.unique {q' : Request} (h : Asks j q) (h' : Asks j q') : q = q' := by
  have hname : q.name = q'.name := by
    have hcommand := h.command.symm.trans h'.command
    simpa using hcommand
  -- only evaluation has several requests under one name, which differ in the code
  have heval (line line' : String) (hq : q = .eval line) (hq' : q' = .eval line') :
      line = line' := by
    rcases h.code line hq with hcode | ⟨hcode, rfl⟩
    · rcases h'.code line' hq' with hcode' | ⟨hcode', rfl⟩
      · simpa [hcode] using hcode'
      · simp [hcode] at hcode'
    · rcases h'.code line' hq' with hcode' | ⟨-, rfl⟩
      · simp [hcode] at hcode'
      · rfl
  cases q with
  | eval line =>
      cases q' with
      | eval line' => exact congrArg Request.eval (heval line line' rfl rfl)
      | _ => simp [Request.name] at hname
  | _ => cases q' <;> simp [Request.name] at hname ⊢

theorem Asks.not_asksGarbled (h : Asks j q) : ¬ AsksGarbled j code := by
  intro hgarbled
  have hname : q.name = "eval" := by
    have hcommand := h.command.symm.trans hgarbled.command
    simpa using hcommand
  cases q with
  | eval line =>
      rcases h.code line rfl with hline | ⟨hnone, -⟩
      · obtain rfl : code = Text.ofString line := by simpa using hgarbled.code.symm.trans hline
        simpa using hgarbled.garbled
      · exact absurd (hgarbled.code.symm.trans hnone) (by simp)
  | _ => simp [Request.name] at hname

theorem Asks.not_misstated (h : Asks j q) : ¬ Misstated j words := by
  obtain ⟨fields, rfl⟩ := h.exists_object
  intro hmisstated
  cases hmisstated with
  | notAnObject hobject => exact hobject fields rfl
  | unknownCommand hunknown => exact hunknown q h.command
  | codeNotText hcommand hcode htext =>
      have hname : "eval" = q.name := by
        have hcommands := hcommand.symm.trans h.command
        simpa using hcommands
      cases q with
      | eval line =>
          rcases h.code line rfl with hline | ⟨hnone, -⟩
          · exact htext line (Option.some.inj (hcode.symm.trans hline))
          · exact absurd (hcode.symm.trans hnone) (by simp)
      | _ => simp [Request.name] at hname

theorem asks_or_misstated (j : Json) :
    (∃ q, Asks j q) ∨ (∃ code, AsksGarbled j code) ∨ ∃ words, Misstated j words := by
  by_cases hobject : ∃ fields, j = .object fields
  · obtain ⟨fields, rfl⟩ := hobject
    by_cases hcommand : ∃ q : Request, Json.field? "cmd" fields = some (.text q.name)
    · obtain ⟨q, hq⟩ := hcommand
      cases q with
      | eval _ =>
          cases hcode : Json.field? "code" fields with
          | none =>
              exact Or.inl ⟨.eval "", hq, fun line hline =>
                Or.inr ⟨hcode, (Request.eval.inj hline).symm⟩⟩
          | some code =>
              by_cases htext : ∃ text, code = .text text
              · obtain ⟨text, rfl⟩ := htext
                cases hstring : text.string? with
                | none => exact Or.inr (Or.inl ⟨text, hq, hcode, hstring⟩)
                | some line =>
                    obtain rfl := Text.eq_ofString_of_string? hstring
                    refine Or.inl ⟨.eval line, hq, fun line' hline => Or.inl ?_⟩
                    rw [← Request.eval.inj hline]
                    exact hcode
              · exact Or.inr (Or.inr ⟨_, .codeNotText hq hcode fun text htext' =>
                  htext ⟨text, htext'⟩⟩)
      | stack => exact Or.inl ⟨.stack, hq, by simp⟩
      | clear => exact Or.inl ⟨.clear, hq, by simp⟩
      | functions => exact Or.inl ⟨.functions, hq, by simp⟩
    · exact Or.inr (Or.inr ⟨_, .unknownCommand fun q hq => hcommand ⟨q, hq⟩⟩)
  · exact Or.inr (Or.inr ⟨_, .notAnObject fun fields hfields => hobject ⟨fields, hfields⟩⟩)

/-! ## Handling -/

/-- The words in which a line that is no string is rejected. -/
def garbledWords (r : Registry) (code : Text) : Text :=
  "Invalid token: " ++ List.intercalate (Text.ofString ", ") (badWords r code)

theorem badWords_ofString (r : Registry) (line : String) :
    badWords r line =
      ((Token.ofLine r line).filterMap fun token => token.2.badText?).map Text.ofString := by
  rw [badWords, words_ofString, Token.ofLine, List.filterMap_map, List.filter_map]
  simp only [Function.comp_def, Text.string?_ofString]
  have hbad (word : String) : (Token.ofWord r word).badText?.isSome = true →
      (Token.ofWord r word).badText? = some word := by
    unfold Token.ofWord
    split
    · simp [Token.badText?]
    · split
      · simp [Token.badText?]
      · simp [Token.badText?]
  induction lineWords line with
  | nil => rfl
  | cons word words ih =>
      cases hsome : (Token.ofWord r word).badText?.isSome with
      | true => simp [hbad word hsome, ih]
      | false =>
          have hnone : (Token.ofWord r word).badText? = none := by simpa using hsome
          simp [hnone, ih]

/-- What is refused in some words is answered in these words, and a fault that arises in
finding them passes on.  The stack stays as it is. -/
def refuse (s : Stack) : Except Fault Text → Answer
  | .ok message => .response (.refused message) s
  | .error fault => .aborted (.fault fault) s

theorem unknown_eq (s : Stack) (command : Json) :
    unknown s command =
      refuse s (command.plainText.map fun text => Text.ofString "Unknown cmd: " ++ text) := by
  rw [unknown]
  cases command.plainText with
  | ok text => rfl
  | error fault => rfl

theorem command?_eq_none {name : String} (h : ∀ q : Request, name ≠ q.name) :
    command? name = none := by
  have heval : name ≠ "eval" := h (.eval "")
  have hstack : name ≠ "stack" := h .stack
  have hclear : name ≠ "clear" := h .clear
  have hfunctions : name ≠ "functions" := h .functions
  rw [command?, if_neg heval, if_neg hstack, if_neg hclear, if_neg hfunctions]

theorem bind_command?_eq_none {name : Text} (h : ∀ q : Request, name ≠ Text.ofString q.name) :
    name.string?.bind command? = none := by
  cases hname : name.string? with
  | none => rfl
  | some text =>
      obtain rfl := Text.eq_ofString_of_string? hname
      exact command?_eq_none fun q hq => h q (congrArg Text.ofString hq)

theorem handle_of_misstated (h : Misstated j words) : handle r s j = refuse s words := by
  cases h with
  | notAnObject hobject =>
      cases j with
      | object fields => exact absurd rfl (hobject fields)
      | _ => rfl
  | @unknownCommand fields hunknown =>
      rw [← unknown_eq]
      simp only [handle]
      cases hcommand : Json.field? "cmd" fields with
      | none => rfl
      | some command =>
          rw [Option.getD_some]
          cases command with
          | text name =>
              have hname : name.string?.bind command? = none :=
                bind_command?_eq_none fun q hq => hunknown q (by rw [hcommand, hq])
              simp only [hname]
          | _ => rfl
  | @codeNotText fields code hcommand hcode htext =>
      rw [handle_of_command hcommand rfl, runCommand, hcode, Option.getD_some]
      cases code with
      | text text => exact absurd rfl (htext text)
      | _ => rfl

end Service
end PostfixCalc
