import PostfixCalc.Proofs.Json.Limits
import PostfixCalc.Proofs.Service.Asking
import PostfixCalc.Proofs.Text.Utf8
import PostfixCalc.Proofs.Text.Character

/-!
# What a client can do to its connection

With the built-in functions every line that is not blank is answered by one line, and
what is not understood is refused and leaves the stack alone.  There is one exception:
a line that exceeds a limit of the reader of JSON is not answered but ends the
connection.  The lines before it have been served by then, and those after it never
are.
-/

namespace PostfixCalc
namespace Service

def IsBlankLine (line : List UInt8) : Prop := ∀ b ∈ line, isSpaceByte b = true

/-- The line is UTF-8, and the text in it is JSON. -/
def Spells (line : List UInt8) (j : Json) : Prop :=
  ∃ cs, Utf8.decode (trimBy isSpaceByte line) = .ok cs ∧ Json.read cs = .ok j

/-- What becomes of a connection when a text cannot be read: nothing, if the text is at
fault. -/
def breakdown? : Json.ReadError → Option Breakdown
  | .problem _ _ _ _ => none
  | .integerTooLong digits => some (.integerTooLong digits)
  | .nestedTooDeep overrun => some (.nestedTooDeep overrun)

/-- The line is UTF-8, and reading the text in it exceeds a limit. -/
def Exhausts (line : List UInt8) (cause : Breakdown) : Prop :=
  ∃ cs e, Utf8.decode (trimBy isSpaceByte line) = .ok cs ∧ Json.read cs = .error e ∧
    breakdown? e = some cause

/-- The text in the line has more digits in a row, or opens more brackets, than the
reader allows for, with the depth that the report of a problem takes. -/
def IsOversized (line : List UInt8) : Prop :=
  ∃ cs, Utf8.decode (trimBy isSpaceByte line) = .ok cs ∧
    ((∃ count, integerDigitLimit < count ∧ Json.HasDigitRun count cs) ∨
      Json.nestingLimit < cs.countP Json.isOpening + Json.reportDepth)

theorem Exhausts.isOversized {line : List UInt8} {cause : Breakdown} (h : Exhausts line cause) :
    IsOversized line := by
  obtain ⟨cs, e, hdecode, hread, hcause⟩ := h
  refine ⟨cs, hdecode, ?_⟩
  cases e with
  | problem p row column offset => contradiction
  | integerTooLong digits => exact Or.inl ⟨digits, Json.hasDigitRun_of_read hread⟩
  | nestedTooDeep overrun => exact Or.inr (Json.countP_isOpening_of_read hread)

theorem decodeLine_eq_request_iff {bytes : List UInt8} {j : Json} :
    decodeLine bytes = .request j ↔
      ∃ cs, Utf8.decode bytes = .ok cs ∧ Json.read cs = .ok j := by
  unfold decodeLine
  cases Utf8.decode bytes with
  | error fault => simp
  | ok cs =>
      cases hread : Json.read cs with
      | ok j' => simp [hread]
      | error e => cases e <;> simp [hread]

theorem isWritable_of_decodeLine {bytes : List UInt8} {j : Json}
    (h : decodeLine bytes = .request j) : j.IsWritable := by
  obtain ⟨cs, -, hread⟩ := decodeLine_eq_request_iff.mp h
  exact Json.isWritable_of_read hread

theorem decodeLine_eq_breakdown_iff {bytes : List UInt8} {cause : Breakdown} :
    decodeLine bytes = .breakdown cause ↔
      ∃ cs e, Utf8.decode bytes = .ok cs ∧ Json.read cs = .error e ∧
        breakdown? e = some cause := by
  unfold decodeLine
  cases Utf8.decode bytes with
  | error fault => simp
  | ok cs =>
      cases hread : Json.read cs with
      | ok j' => simp [hread]
      | error e => cases e <;> simp [hread, breakdown?]

/-- A request that is understood: its command is known, and a line to evaluate is a
text. -/
def IsKnown : Json → Prop
  | .object fields =>
    ∃ name command, Json.field? "cmd" fields = some (.text (Text.ofString name)) ∧
      command? name = some command ∧
      (command = .eval → ∀ code, Json.field? "code" fields = some code → ∃ line, code = .text line)
  | _ => False

theorem Asks.isKnown {j : Json} {q : Request} (h : Asks j q) : IsKnown j := by
  obtain ⟨fields, rfl⟩ := h.exists_object
  cases q with
  | eval line =>
      refine ⟨"eval", .eval, h.command, rfl, fun _ code hcode => ?_⟩
      rcases h.code line rfl with hline | ⟨hnone, -⟩
      · exact ⟨_, Option.some.inj (hcode.symm.trans hline)⟩
      · exact absurd (hcode.symm.trans hnone) (by simp)
  | stack => exact ⟨"stack", .stack, h.command, rfl, by simp⟩
  | clear => exact ⟨"clear", .clear, h.command, rfl, by simp⟩
  | functions => exact ⟨"functions", .functions, h.command, rfl, by simp⟩

theorem AsksGarbled.isKnown {j : Json} {text : Text} (h : AsksGarbled j text) : IsKnown j := by
  obtain ⟨fields, rfl⟩ := h.exists_object
  exact ⟨"eval", .eval, h.command, rfl, fun _ code hcode =>
    ⟨text, Option.some.inj (hcode.symm.trans h.code)⟩⟩

theorem handle_of_not_isKnown (r : Registry) (s : Stack) {j : Json} (hj : ¬ IsKnown j)
    (hwritable : j.IsWritable) : ∃ message, handle r s j = .response (.refused message) s := by
  rcases asks_or_misstated j with ⟨q, hq⟩ | ⟨text, htext⟩ | ⟨words, hwords⟩
  · exact absurd hq.isKnown hj
  · exact absurd htext.isKnown hj
  · have hrefused := handle_of_misstated (r := r) (s := s) hwords
    cases hwords with
    | notAnObject _ => exact ⟨_, hrefused⟩
    | codeNotText _ _ _ => exact ⟨_, hrefused⟩
    | unknownCommand _ =>
        obtain ⟨t, ht, -⟩ := (isWritable_field? hwritable "cmd" .null).exists_plainText
        rw [ht] at hrefused
        exact ⟨_, hrefused⟩

/-- The response says that the request failed. -/
def Response.IsNegative (response : Response) : Prop :=
  ∃ fields, response.json = .object fields ∧ Json.field? "ok" fields = some (.truth false)

theorem Response.isNegative_refused (message : Text) : (refused message).IsNegative :=
  ⟨_, rfl, rfl⟩

/-! ## Answers -/

/-- The response to a line that is not blank, and the stack after it.  A known request
gets the response that it gets when it is handled directly; every other line is
refused. -/
structure IsAnswered (s : Stack) (line : List UInt8) (response : Response) (s' : Stack) :
    Prop where
  within : ∀ cause, ¬ Exhausts line cause
  carried : Carries response.line response
  known : ∀ j, Spells line j → IsKnown j → handle .builtin s j = .response response s'
  unknown : (∀ j, Spells line j → ¬ IsKnown j) → response.IsNegative ∧ s' = s

theorem IsAnswered.of_invalid {s : Stack} {line : List UInt8} {message : String}
    (hdecode : decodeLine (trimBy isSpaceByte line) = .invalid message) :
    IsAnswered s line (.refused ("Invalid request: " ++ message : String)) s where
  within := by
    intro cause hcause
    rw [decodeLine_eq_breakdown_iff.mpr hcause] at hdecode
    contradiction
  carried := Response.carries_line (Text.isJoined_ofString _)
  known := by
    intro j hj
    rw [decodeLine_eq_request_iff.mpr hj] at hdecode
    contradiction
  unknown := fun _ => ⟨Response.isNegative_refused _, rfl⟩

theorem IsAnswered.of_request {s s' : Stack} {line : List UInt8} {j : Json} {response : Response}
    (hdecode : decodeLine (trimBy isSpaceByte line) = .request j)
    (hhandle : handle .builtin s j = .response response s') : IsAnswered s line response s' where
  within := by
    intro cause hcause
    rw [decodeLine_eq_breakdown_iff.mpr hcause] at hdecode
    contradiction
  carried := by
    have hsendable := isSendable_handle .builtin s (isWritable_of_decodeLine hdecode)
    rw [hhandle] at hsendable
    exact Response.carries_line hsendable
  known := by
    intro j' hj' _
    rw [decodeLine_eq_request_iff.mpr hj'] at hdecode
    obtain rfl := Decoded.request.inj hdecode
    exact hhandle
  unknown := by
    intro hunknown
    have hj := hunknown j (decodeLine_eq_request_iff.mp hdecode)
    obtain ⟨message, hrefused⟩ :=
      handle_of_not_isKnown .builtin s hj (isWritable_of_decodeLine hdecode)
    obtain ⟨rfl, rfl⟩ := Answer.response.inj (hhandle.symm.trans hrefused)
    exact ⟨Response.isNegative_refused message, rfl⟩

/-- The complete lines that a client sends, from a stack on: what is sent in return, the
stack that is left, and the cause that ends the connection before the lines do.  Nothing
is sent for a blank line, and one line for every other line. -/
inductive Dialogue : Stack → List (List UInt8) → List String → Stack → Option Breakdown → Prop where
  | done {s : Stack} : Dialogue s [] [] s none
  | exhausted {s : Stack} {line : List UInt8} {later : List (List UInt8)} {cause : Breakdown} :
      Exhausts line cause → Dialogue s (line :: later) [] s (some cause)
  | blank {s s' : Stack} {line : List UInt8} {lines : List (List UInt8)} {sent : List String}
      {ended : Option Breakdown} :
      IsBlankLine line → Dialogue s lines sent s' ended → Dialogue s (line :: lines) sent s' ended
  | answered {s s' s'' : Stack} {line : List UInt8} {response : Response}
      {lines : List (List UInt8)} {sent : List String} {ended : Option Breakdown} :
      ¬ IsBlankLine line → IsAnswered s line response s' → Dialogue s' lines sent s'' ended →
        Dialogue s (line :: lines) (response.line :: sent) s'' ended

/-- A connection ends early for a reason that stands in one of the lines. -/
theorem Dialogue.isOversized {s s' : Stack} {lines : List (List UInt8)} {sent : List String}
    {ended : Option Breakdown} (h : Dialogue s lines sent s' ended) :
    ended = none ∨ ∃ line ∈ lines, IsOversized line := by
  induction h with
  | done => exact Or.inl rfl
  | exhausted hcause => exact Or.inr ⟨_, List.mem_cons_self, hcause.isOversized⟩
  | blank _ _ ih => exact ih.imp_right fun ⟨line, hline, hsize⟩ =>
      ⟨line, List.mem_cons_of_mem _ hline, hsize⟩
  | answered _ _ _ ih => exact ih.imp_right fun ⟨line, hline, hsize⟩ =>
      ⟨line, List.mem_cons_of_mem _ hline, hsize⟩

namespace Connection

variable {c : Connection}

/-- One line: it is blank, or it is answered, or it ends the connection. -/
theorem handleLine_builtin (hopen : c.ended = none) (line : List UInt8) :
    (IsBlankLine line ∧ handleLine .builtin c line = c) ∨
      (¬ IsBlankLine line ∧ ∃ response s, IsAnswered c.stack line response s ∧
        handleLine .builtin c line = { c with stack := s }.send response) ∨
      ∃ cause, Exhausts line cause ∧
        handleLine .builtin c line = { c with ended := some cause } := by
  by_cases hblank : IsBlankLine line
  · exact Or.inl ⟨hblank, handleLine_of_blank (trimBy_eq_nil_iff.mpr hblank)⟩
  · have hline : trimBy isSpaceByte line ≠ [] := fun hnil => hblank (trimBy_eq_nil_iff.mp hnil)
    cases hdecode : decodeLine (trimBy isSpaceByte line) with
    | invalid message =>
        have hinvalid := handleLine_of_invalid (r := .builtin) hopen hline hdecode
        exact Or.inr (Or.inl ⟨hblank, _, c.stack, IsAnswered.of_invalid hdecode, hinvalid⟩)
    | breakdown cause =>
        have hbreakdown := handleLine_of_breakdown (r := .builtin) hopen hline hdecode
        exact Or.inr (Or.inr ⟨cause, decodeLine_eq_breakdown_iff.mp hdecode, hbreakdown⟩)
    | request j =>
        obtain ⟨response, s, hhandle⟩ := handle_builtin c.stack (isWritable_of_decodeLine hdecode)
        have hresponse := handleLine_of_response hopen hline hdecode hhandle
        exact Or.inr (Or.inl
          ⟨hblank, response, s, IsAnswered.of_request hdecode hhandle, hresponse⟩)

theorem takeLines_builtin (lines : List (List UInt8)) (hopen : c.ended = none) :
    ∃ sent, (takeLines .builtin c lines).sent = c.sent ++ sent ∧
      Dialogue c.stack lines sent (takeLines .builtin c lines).stack
        (takeLines .builtin c lines).ended := by
  induction lines generalizing c with
  | nil =>
      rw [takeLines_nil, hopen]
      exact ⟨[], (List.append_nil _).symm, .done⟩
  | cons line lines ih =>
      rw [takeLines_cons]
      rcases handleLine_builtin hopen line with
        ⟨hblank, hstep⟩ | ⟨hline, response, s, hanswer, hstep⟩ | ⟨cause, hcause, hstep⟩
      · rw [hstep]
        obtain ⟨sent, hsent, hrest⟩ := ih hopen
        exact ⟨sent, hsent, .blank hblank hrest⟩
      · rw [hstep]
        obtain ⟨sent, hsent, hrest⟩ := ih (c := { c with stack := s }.send response) hopen
        refine ⟨response.line :: sent, ?_, .answered hline hanswer hrest⟩
        rw [hsent]
        simp [send]
      · rw [hstep, takeLines_of_ended .builtin rfl]
        exact ⟨[], (List.append_nil _).symm, .exhausted hcause⟩

/-- With the built-in functions a connection answers every line that is not blank by one
line, in order, until a line exceeds a limit of the reader of JSON.  If no line has more
digits in a row, or opens more brackets, than the reader allows for, the connection
lasts to the end of the stream. -/
theorem serve_builtin (chunks : List (List UInt8)) :
    Dialogue .empty (completeLines (received chunks)) (serve .builtin chunks).sent
        (serve .builtin chunks).stack (serve .builtin chunks).ended ∧
      ((serve .builtin chunks).ended = none ∨
        ∃ line ∈ completeLines (received chunks), IsOversized line) := by
  have hsettled := settled_serve .builtin chunks
  obtain ⟨sent, hsent, hdialogue⟩ :=
    takeLines_builtin (c := fresh) (completeLines (received chunks)) rfl
  rw [← hsettled] at hsent hdialogue
  have hsent : (serve .builtin chunks).sent = sent := hsent
  rw [← hsent] at hdialogue
  exact ⟨hdialogue, hdialogue.isOversized⟩

/-! ## Lines that end a connection -/

theorem isSpaceByte_eq_false {b : UInt8} (hb : 0x20 < b.toNat) : isSpaceByte b = false := by
  have hne : b ≠ 0x20 := by
    rintro rfl
    exact absurd hb (by decide)
  have hlimit : ¬ b ≤ 0x0d := by
    rw [UInt8.le_iff_toNat_le]
    exact Nat.not_le_of_lt (Nat.lt_trans (by decide) hb)
  simp [isSpaceByte, hne, hlimit]

theorem handleLine_of_exhausting (r : Registry) {cs : List Char} {e : Json.ReadError}
    {cause : Breakdown} (hopen : c.ended = none) (hne : cs ≠ [])
    (hplain : ∀ c ∈ cs, 0x20 < c.toNat ∧ c.toNat < 0x80)
    (hread : Json.read cs = .error e) (hcause : breakdown? e = some cause) :
    handleLine r c (Utf8.asciiBytes cs) = { c with ended := some cause } := by
  have hdecode : Utf8.decode (Utf8.asciiBytes cs) = .ok cs :=
    Utf8.decode_asciiBytes fun c hc => (hplain c hc).2
  have hspace : ∀ b ∈ Utf8.asciiBytes cs, isSpaceByte b = false := by
    intro b hb
    obtain ⟨c, hc, rfl⟩ := List.mem_map.mp hb
    apply isSpaceByte_eq_false
    rw [Utf8.toNat_ofNat_of_ascii (hplain c hc).2]
    exact (hplain c hc).1
  have htrim := trimBy_of_forall hspace
  have hline : trimBy isSpaceByte (Utf8.asciiBytes cs) ≠ [] := by
    rw [htrim]
    simpa [Utf8.asciiBytes] using hne
  apply handleLine_of_breakdown hopen hline
  rw [htrim]
  exact decodeLine_eq_breakdown_iff.mpr ⟨cs, e, hdecode, hread, hcause⟩

theorem handleLine_of_digits (r : Registry) {d : Char} {ds : List Char} (hopen : c.ended = none)
    (hzero : d ≠ '0') (hdigits : ∀ x ∈ d :: ds, (asciiDigitValue? x).isSome)
    (hlimit : integerDigitLimit < (d :: ds).length) :
    handleLine r c (Utf8.asciiBytes (d :: ds)) =
      { c with ended := some (.integerTooLong (d :: ds).length) } := by
  have hplain : ∀ x ∈ d :: ds, 0x20 < x.toNat ∧ x.toNat < 0x80 := by
    intro x hx
    have hrange : '0' ≤ x ∧ x ≤ '9' := by
      simpa [asciiDigitValue?] using hdigits x hx
    have hlow : 48 ≤ x.toNat := hrange.1
    have hhigh : x.toNat ≤ 57 := hrange.2
    omega
  have hread := Json.read_of_digits hzero hdigits hlimit
  exact handleLine_of_exhausting r hopen (List.cons_ne_nil d ds) hplain hread rfl

/-- A line that is not blank and is not answered: an integer that is too long. -/
theorem serve_of_long_integer (r : Registry) {count : Nat} (hlimit : integerDigitLimit < count) :
    completeLines (received [List.replicate count 0x31 ++ [0x0a]]) = [List.replicate count 0x31] ∧
      ¬ IsBlankLine (List.replicate count 0x31) ∧
      (serve r [List.replicate count 0x31 ++ [0x0a]]).sent = [] ∧
      (serve r [List.replicate count 0x31 ++ [0x0a]]).ended = some (.integerTooLong count) := by
  obtain ⟨count, rfl⟩ := Nat.exists_eq_succ_of_ne_zero (Nat.ne_of_gt (Nat.zero_lt_of_lt hlimit))
  have hbreak : 0x0a ∉ List.replicate (count + 1) (0x31 : UInt8) := by
    intro hmem
    exact absurd (List.eq_of_mem_replicate hmem) (by decide)
  have hlines : completeLines (received [List.replicate (count + 1) 0x31 ++ [0x0a]]) =
      [List.replicate (count + 1) 0x31] := by
    have hchunk : [] ∉ [List.replicate (count + 1) 0x31 ++ [(0x0a : UInt8)]] := by simp
    rw [received_of_not_mem hchunk, List.flatten_singleton, completeLines_line_append hbreak]
    rfl
  have hblank : ¬ IsBlankLine (List.replicate (count + 1) 0x31) := by
    intro hblank
    have hspace := hblank 0x31 (by simp)
    exact absurd hspace (by decide)
  have hbytes : List.replicate (count + 1) 0x31 =
      Utf8.asciiBytes ('1' :: List.replicate count '1') := by
    rw [← List.replicate_succ, Utf8.asciiBytes, List.map_replicate]
    rfl
  have hdigits : ∀ x ∈ '1' :: List.replicate count '1', (asciiDigitValue? x).isSome := by
    intro x hx
    rw [← List.replicate_succ] at hx
    obtain rfl := List.eq_of_mem_replicate hx
    decide
  have hlength : ('1' :: List.replicate count '1').length = count + 1 := by
    rw [List.length_cons, List.length_replicate]
  have hstep := handleLine_of_digits r (c := fresh) rfl (by decide) hdigits (hlength ▸ hlimit)
  rw [← hbytes, hlength] at hstep
  have hsettled := settled_serve r [List.replicate (count + 1) 0x31 ++ [0x0a]]
  rw [hlines, takeLines_cons, takeLines_nil, hstep] at hsettled
  have hsent := congrArg Connection.sent hsettled
  have hended := congrArg Connection.ended hsettled
  exact ⟨hlines, hblank, hsent, hended⟩

/-- An integer of 4301 digits is one digit too long. -/
theorem serve_builtin_of_long_integer :
    completeLines (received [List.replicate 4301 0x31 ++ [0x0a]]) = [List.replicate 4301 0x31] ∧
      ¬ IsBlankLine (List.replicate 4301 0x31) ∧
      (serve .builtin [List.replicate 4301 0x31 ++ [0x0a]]).sent = [] ∧
      (serve .builtin [List.replicate 4301 0x31 ++ [0x0a]]).ended =
        some (.integerTooLong 4301) :=
  serve_of_long_integer .builtin (by decide)

end Connection
end Service
end PostfixCalc
