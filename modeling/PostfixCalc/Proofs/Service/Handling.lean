import PostfixCalc.Proofs.Json.Limits
import PostfixCalc.Proofs.Json.RoundTrip
import PostfixCalc.Proofs.Service.Framing
import PostfixCalc.Proofs.Session.Types

/-!
# Requests, responses and the lines that carry them

A response is sent as one line of ASCII, which spells the response as a JSON value.  A
complete line is passed over, answered by one response, or ends the connection; one
equation for each of these cases says what becomes of the connection.
-/

namespace PostfixCalc
namespace Service

/-- The message holds no pairs of surrogates, and the functions that are listed have
distinct keys. -/
def Response.IsSendable : Response → Prop
  | refused message => message.IsJoined
  | rejected message _ => message.IsJoined
  | done _ _ => True
  | functions signatures => (signatures.map Prod.fst).Nodup

theorem isTextual_text (depth : Nat) {t : Text} (ht : t.IsJoined) :
    Json.IsTextual depth (.text t) := by
  cases depth with
  | zero => exact ht
  | succ depth => exact ht

theorem isTextual_string (depth : Nat) (s : String) : Json.IsTextual depth (.text s) :=
  isTextual_text depth (Text.isJoined_ofString s)

theorem isTextual_texts (depth : Nat) (ts : List String) :
    Json.IsTextual (depth + 1) (texts ts) := by
  intro item hitem
  obtain ⟨t, -, rfl⟩ := List.mem_map.mp hitem
  exact isTextual_string depth t

theorem isTextual_object {depth : Nat} (fields : List (String × Json))
    (hnames : (fields.map Prod.fst).Nodup)
    (hfields : ∀ field ∈ fields, Json.IsTextual depth field.2) :
    Json.IsTextual (depth + 1)
      (.object (fields.map fun field => (Text.ofString field.1, field.2))) := by
  constructor
  · rw [List.map_map]
    have hkeys := hnames.map fun _ _ => Text.ofString_inj.mp
    rwa [List.map_map] at hkeys
  · intro field hfield
    obtain ⟨⟨name, value⟩, hmem, rfl⟩ := List.mem_map.mp hfield
    exact ⟨Text.isJoined_ofString name, hfields _ hmem⟩

theorem Response.isTextual_json {response : Response} (h : response.IsSendable)
    (depth : Nat) : Json.IsTextual (depth + 2) response.json := by
  have htruth (b : Bool) : Json.IsTextual (depth + 1) (.truth b) := trivial
  cases response with
  | refused message =>
      refine isTextual_object [("ok", .truth false), ("error", .text message)]
        (by simp) ?_
      rw [List.forall_mem_cons, List.forall_mem_singleton]
      exact ⟨htruth false, isTextual_text _ h⟩
  | rejected message stack =>
      refine isTextual_object [("ok", .truth false), ("error", .text message),
        ("stack", texts stack)] (by simp) ?_
      rw [List.forall_mem_cons, List.forall_mem_cons, List.forall_mem_singleton]
      exact ⟨htruth false, isTextual_text _ h, isTextual_texts depth stack⟩
  | done stack errors =>
      refine isTextual_object [("ok", .truth true), ("stack", texts stack),
        ("errors", texts errors)] (by simp) ?_
      rw [List.forall_mem_cons, List.forall_mem_cons, List.forall_mem_singleton]
      exact ⟨htruth true, isTextual_texts depth stack, isTextual_texts depth errors⟩
  | functions signatures =>
      have hlisted : Json.IsTextual (depth + 1) (.object (signatures.map fun item =>
          (Text.ofString item.1, Json.text (Text.ofString item.2)))) := by
        have hkeys : ((signatures.map fun item => (item.1, Json.text (Text.ofString item.2))).map
            Prod.fst).Nodup := by
          rw [List.map_map]
          exact h
        have hobject : Json.IsTextual (depth + 1) _ := isTextual_object _ hkeys ?_
        · rwa [List.map_map] at hobject
        · intro field hfield
          obtain ⟨item, -, rfl⟩ := List.mem_map.mp hfield
          exact isTextual_string depth item.2
      refine isTextual_object [("ok", .truth true), ("functions", _)]
        (by simp) ?_
      rw [List.forall_mem_cons, List.forall_mem_singleton]
      exact ⟨htruth true, hlisted⟩

/-- The line is one line of ASCII that spells the response. -/
structure Carries (line : String) (response : Response) : Prop where
  single : ∃ text : String, line = text ++ "\n" ∧ ∀ c ∈ text.toList, c.toNat < 0x80 ∧ c ≠ '\n'
  read : Json.read line.toList = .ok response.json

theorem Response.carries_line {response : Response} (h : response.IsSendable) :
    Carries response.line response := by
  have hjson : Json.IsTextual Json.nestingLimit response.json := response.isTextual_json h 990
  have hchars : response.line.toList = response.json.chars ++ ['\n'] := by
    simp [line, Json.render]
  refine ⟨⟨response.json.render, rfl, ?_⟩, ?_⟩
  · intro c hc
    have hplain := Json.isPlain_chars hjson c (by simpa [Json.render] using hc)
    refine ⟨Nat.lt_trans hplain.2 (by decide), ?_⟩
    rintro rfl
    exact absurd hplain.1 (by decide)
  · rw [hchars]
    exact Json.read_chars hjson (List.forall_mem_singleton.mpr (by decide))

/-- What is answered can be sent. -/
def Answer.IsSendable : Answer → Prop
  | response r _ => r.IsSendable
  | aborted _ _ => True

theorem isSendable_respond (s : Stack) (e : Evaluation) : (respond s e).IsSendable := by
  unfold respond
  split
  · exact Text.isJoined_ofString _
  · trivial
  · exact Text.isJoined_ofString _
  · trivial

theorem isSendable_evaluate (r : Registry) (s : Stack) {code : Text} (hcode : code.IsJoined) :
    (evaluate r s code).IsSendable := by
  unfold evaluate
  split
  · exact isSendable_respond s _
  · apply Text.isJoined_ofString_append
    apply Text.isJoined_intercalate (by decide)
    intro word hword
    have hpiece := (List.mem_filter.mp (List.mem_filter.mp hword).1).1
    exact hcode.infix (isInfix_of_mem_pieces hpiece)

theorem isSendable_unknown (s : Stack) {command : Json} (hcommand : command.IsWritable) :
    (unknown s command).IsSendable := by
  obtain ⟨t, ht, hjoined⟩ := hcommand.exists_plainText
  rw [unknown, ht]
  exact Text.isJoined_ofString_append _ hjoined

theorem isWritable_field? {fields : List (Text × Json)} (h : (Json.object fields).IsWritable)
    (name : Text) {default : Json} (hdefault : default.IsWritable) :
    ((Json.field? name fields).getD default).IsWritable := by
  cases h with
  | object hfields =>
      rw [Json.field?]
      cases hfind : fields.find? fun field => field.1 == name with
      | none => exact hdefault
      | some field => exact hfields field (List.mem_of_find?_eq_some hfind)

theorem isSendable_runCommand (r : Registry) (s : Stack) {fields : List (Text × Json)}
    (hfields : (Json.object fields).IsWritable) (command : Command) :
    (runCommand r s fields command).IsSendable := by
  cases command with
  | eval =>
      have hcode := isWritable_field? hfields "code" (.text (Text.isJoined_ofString ""))
      rw [runCommand]
      split
      · next code htext =>
        rw [htext] at hcode
        cases hcode with
        | text hjoined => exact isSendable_evaluate r s hjoined
      · exact Text.isJoined_ofString _
  | stack => trivial
  | clear => trivial
  | functions =>
      have hkeys : ((r.items.map fun item => (item.1, item.2.signature.text)).map
          Prod.fst).Nodup := by
        rw [List.map_map]
        exact r.nodup_keys
      exact hkeys

theorem isSendable_handle (r : Registry) (s : Stack) {j : Json} (hj : j.IsWritable) :
    (handle r s j).IsSendable := by
  unfold handle
  split
  · have hcommand := isWritable_field? hj "cmd" .null
    dsimp only
    split
    · split
      · exact isSendable_runCommand r s hj _
      · exact isSendable_unknown s hcommand
    · exact isSendable_unknown s hcommand
  · exact Text.isJoined_ofString _

/-! ## Built-in functions -/

theorem exists_respond_builtin (s : Stack) (line : String) :
    ∃ response s', respond s (Session.eval .builtin s line) = .response response s' := by
  rcases Session.eval_builtin s line with ⟨e, heval⟩ | ⟨outcome, heval, hfatal⟩
  · exact ⟨_, _, by rw [heval]; rfl⟩
  · obtain ⟨errors, s', fatal?⟩ := outcome
    obtain rfl : fatal? = none := hfatal
    exact ⟨_, _, by rw [heval]; rfl⟩

theorem exists_unknown (s : Stack) {command : Json} (hcommand : command.IsWritable) :
    ∃ message, unknown s command = .response (.refused message) s := by
  obtain ⟨t, ht, -⟩ := hcommand.exists_plainText
  exact ⟨_, by rw [unknown, ht]⟩

/-- With the built-in functions every request is answered. -/
theorem handle_builtin (s : Stack) {j : Json} (hj : j.IsWritable) :
    ∃ response s', handle .builtin s j = .response response s' := by
  unfold handle
  split
  · next fields =>
    have hcommand := isWritable_field? hj "cmd" .null
    have hunknown : ∃ response s',
        unknown s ((Json.field? "cmd" fields).getD .null) = .response response s' := by
      obtain ⟨message, hmessage⟩ := exists_unknown s hcommand
      exact ⟨_, _, hmessage⟩
    dsimp only
    split
    · split
      · next command _ =>
        cases command with
        | eval =>
            rw [runCommand]
            split
            · rw [evaluate]
              split
              · exact exists_respond_builtin s _
              · exact ⟨_, _, rfl⟩
            · exact ⟨_, _, rfl⟩
        | stack => exact ⟨_, _, rfl⟩
        | clear => exact ⟨_, _, rfl⟩
        | functions => exact ⟨_, _, rfl⟩
      · exact hunknown
    · exact hunknown
  · exact ⟨_, _, rfl⟩

namespace Connection

variable {r : Registry} {c : Connection} {line : List UInt8}

theorem handleLine_of_blank (hblank : trimBy isSpaceByte line = []) : handleLine r c line = c := by
  rw [handleLine, hblank]
  split
  · rfl
  · rfl

theorem handleLine_of_invalid {message : String} (hopen : c.ended = none)
    (hline : trimBy isSpaceByte line ≠ [])
    (hdecode : decodeLine (trimBy isSpaceByte line) = .invalid message) :
    handleLine r c line = c.send (.refused ("Invalid request: " ++ message : String)) := by
  obtain ⟨b, bytes, hbytes⟩ := List.exists_cons_of_ne_nil hline
  rw [hbytes] at hdecode
  simp [handleLine, hopen, hbytes, hdecode]

theorem handleLine_of_breakdown {cause : Breakdown} (hopen : c.ended = none)
    (hline : trimBy isSpaceByte line ≠ [])
    (hdecode : decodeLine (trimBy isSpaceByte line) = .breakdown cause) :
    handleLine r c line = { c with ended := some cause } := by
  obtain ⟨b, bytes, hbytes⟩ := List.exists_cons_of_ne_nil hline
  rw [hbytes] at hdecode
  simp [handleLine, hopen, hbytes, hdecode]

theorem handleLine_of_response {j : Json} {response : Response} {s : Stack}
    (hopen : c.ended = none) (hline : trimBy isSpaceByte line ≠ [])
    (hdecode : decodeLine (trimBy isSpaceByte line) = .request j)
    (hhandle : handle r c.stack j = .response response s) :
    handleLine r c line = { c with stack := s }.send response := by
  obtain ⟨b, bytes, hbytes⟩ := List.exists_cons_of_ne_nil hline
  rw [hbytes] at hdecode
  simp [handleLine, hopen, hbytes, hdecode, hhandle]

end Connection
end Service
end PostfixCalc
