import PostfixCalc.Proofs.FrontEnds
import PostfixCalc.Proofs.Session.Types

/-!
# The read loop

With the built-in functions no line aborts the loop: a line either stops it or is
handled and followed by the next prompt.  So the loop reads and handles the lines up to
the first one that stops it, and when there is none it comes to the end of its input.

Colour and echo are settings of the printing.  A line that is echoed is read once more
for its tokens, and this takes nothing away from its evaluation.  So a line has one
effect under all settings; colour has a say in the entries it prints, and echo puts one
entry in front of them unless the line is a command.  Over a whole run of the loop this
means the same prompts, the same ending and the same output but for these entries.
-/

namespace PostfixCalc

namespace Console

/-- The stack that lines in a row leave. -/
def stackAfter (c : Console) (s : Stack) (lines : List String) : Stack :=
  lines.foldl (fun s line => (c.handle s line).stack) s

theorem stackAfter_cons (c : Console) (s : Stack) (line : String) (lines : List String) :
    c.stackAfter s (line :: lines) = c.stackAfter (c.handle s line).stack lines := by
  rw [stackAfter, List.foldl_cons, stackAfter]

theorem handleAll_append (c : Console) (s : Stack) (lines later : List String) :
    c.handleAll s (lines ++ later) =
      c.handleAll s lines ++ c.handleAll (c.stackAfter s lines) later := by
  induction lines generalizing s with
  | nil => rfl
  | cons line lines ih =>
      simp only [List.cons_append, handleAll, ih, stackAfter_cons]

theorem length_handleAll (c : Console) (s : Stack) (lines : List String) :
    (c.handleAll s lines).length = lines.length := by
  induction lines generalizing s with
  | nil => rfl
  | cons line lines ih => rw [handleAll, List.length_cons, ih, List.length_cons]

end Console

namespace ReadLoop

/-- A line that is the command to stop. -/
def isStop (line : String) : Bool := trim line == ":q"

/-- The lines before the first one that stops the loop, and this one. -/
def linesRead (lines : List String) : List String :=
  lines.takeWhile (fun line => !isStop line) ++ (lines.find? isStop).toList

theorem linesRead_eq_self {lines : List String} (hlines : ∀ line ∈ lines, isStop line = false) :
    linesRead lines = lines := by
  have hfind : lines.find? isStop = none := by simpa [List.find?_eq_none] using hlines
  rw [linesRead, hfind, Option.toList_none, List.append_nil,
    List.takeWhile_eq_self_iff.mpr (by simpa using hlines)]

theorem linesRead_append {before : List String} (hbefore : ∀ l ∈ before, isStop l = false)
    {line : String} (hline : isStop line = true) (after : List String) :
    linesRead (before ++ line :: after) = before ++ [line] := by
  have hfind : before.find? isStop = none := by simpa [List.find?_eq_none] using hbefore
  rw [linesRead, List.find?_append, hfind, List.takeWhile_append_of_pos (by simpa using hbefore)]
  simp [hline]

theorem handle_of_isStop (c : Console) (s : Stack) {line : String} (hline : isStop line = true) :
    c.handle s line = ⟨[], s, .stop⟩ := by
  have htrim : trim line = ":q" := beq_iff_eq.mp hline
  simp [Console.handle, htrim]

theorem verdict_eval_builtin (s : Stack) (line : String) :
    Console.verdict (Session.eval .builtin s line) = .proceed := by
  rcases Session.eval_builtin s line with ⟨e, heval⟩ | ⟨⟨errors, after, fatal?⟩, heval, hfatal⟩
  · rw [heval]
    rfl
  · obtain rfl : fatal? = none := hfatal
    rw [heval]
    rfl

theorem verdict_of_not_isStop {c : Console} (hc : c.registry = .builtin) (s : Stack)
    {line : String} (hline : isStop line = false) : (c.handle s line).verdict = .proceed := by
  have hstop : trim line ≠ ":q" := beq_eq_false_iff_ne.mp hline
  by_cases hcommand : trim line ∈ [":p", ":r", ":f", ":q"]
  · obtain ⟨entries, after, hhandle⟩ := Console.handle_of_command c.registry s hcommand
    rw [hhandle c.colour c.echo, if_neg hstop]
  · rw [c.handle_of_not_command s hcommand, hc]
    exact verdict_eval_builtin s line

/-! ## The loop -/

/-- A prompt and what is printed for the line that answers it. -/
def exchange (prompt : String) (handled : Handled) : List Event :=
  [.prompted prompt, .printed handled.output]

/-- A prompt that no line answers. -/
def closing (prompt : String) : InputEnd → Run
  | .endOfInput => ⟨[.prompted prompt, .printed "\n"], .returned⟩
  | .interrupt => ⟨[.prompted prompt], .interrupted⟩

theorem run_nil (c : Console) (prompt : String) (inputEnd : InputEnd) (s : Stack) :
    run c prompt inputEnd s [] = closing prompt inputEnd := by
  cases inputEnd with
  | endOfInput => rfl
  | interrupt => rfl

theorem run_of_isStop (c : Console) (prompt : String) (inputEnd : InputEnd) (s : Stack)
    {line : String} (hline : isStop line = true) (rest : List String) :
    run c prompt inputEnd s (line :: rest) =
      ⟨exchange prompt (c.handle s line), .returned⟩ := by
  simp only [run, handle_of_isStop c s hline, next, exchange]

/-- Lines that do not stop the loop are handled one after the other, and the loop goes on
with the stack that they leave. -/
theorem run_append {c : Console} (hc : c.registry = .builtin) (prompt : String)
    (inputEnd : InputEnd) (s : Stack) {lines : List String}
    (hlines : ∀ line ∈ lines, isStop line = false) (rest : List String) :
    run c prompt inputEnd s (lines ++ rest) =
      let later := run c prompt inputEnd (c.stackAfter s lines) rest
      ⟨(c.handleAll s lines).flatMap (exchange prompt) ++ later.events, later.ending⟩ := by
  induction lines generalizing s with
  | nil => rfl
  | cons line lines ih =>
      rw [List.forall_mem_cons] at hlines
      simp only [List.cons_append, run, next, verdict_of_not_isStop hc s hlines.1, ih _ hlines.2,
        c.stackAfter_cons, Console.handleAll, List.flatMap_cons, exchange, List.append_assoc]

theorem run_of_exists_isStop {c : Console} (hc : c.registry = .builtin) (prompt : String)
    (inputEnd : InputEnd) (s : Stack) {lines : List String}
    (hlines : ∃ line ∈ lines, isStop line = true) :
    run c prompt inputEnd s lines =
      ⟨(c.handleAll s (linesRead lines)).flatMap (exchange prompt), .returned⟩ := by
  obtain ⟨line, hfind⟩ := Option.isSome_iff_exists.mp (List.find?_isSome.mpr hlines)
  obtain ⟨hline, before, after, rfl, hnot⟩ := List.find?_eq_some_iff_append.mp hfind
  have hbefore : ∀ l ∈ before, isStop l = false := by simpa using hnot
  rw [run_append hc prompt inputEnd s hbefore, run_of_isStop _ _ _ _ hline,
    linesRead_append hbefore hline, c.handleAll_append, List.flatMap_append]
  simp [Console.handleAll]

theorem run_of_forall_not_isStop {c : Console} (hc : c.registry = .builtin) (prompt : String)
    (inputEnd : InputEnd) (s : Stack) {lines : List String}
    (hlines : ∀ line ∈ lines, isStop line = false) :
    run c prompt inputEnd s lines =
      ⟨(c.handleAll s (linesRead lines)).flatMap (exchange prompt) ++
        (closing prompt inputEnd).events, (closing prompt inputEnd).ending⟩ := by
  have hrun := run_append hc prompt inputEnd s hlines []
  rw [List.append_nil, run_nil] at hrun
  rw [hrun, linesRead_eq_self hlines]

/-- A terminal with lines that are still to be read and events that have been seen. -/
def script (inputEnd : InputEnd) : Terminal (StateM (List String × List Event)) where
  read prompt := do
    let (lines, events) ← get
    set (lines.tail, events ++ [.prompted prompt])
    return (lines.head?).elim (.error inputEnd) .ok
  print text := modify fun (lines, events) => (lines, events ++ [.printed text])

/-- Turns at a terminal until the loop ends, but no more than so many. -/
def turns {m : Type → Type} [Monad m] (t : Terminal m) (c : Console) (prompt : String) :
    ℕ → Stack → m (Option Ending)
  | 0, _ => return none
  | count + 1, s => do
    match ← turn t c prompt s with
    | .ok s' => turns t c prompt count s'
    | .error ending => return some ending

theorem run_turn_nil (c : Console) (prompt : String) (inputEnd : InputEnd) (s : Stack)
    (events : List Event) :
    (turn (script inputEnd) c prompt s).run ([], events) =
      (.error inputEnd.closing.2,
        ([], events ++ .prompted prompt :: inputEnd.closing.1.map .printed)) := by
  cases inputEnd with
  | endOfInput =>
      exact congrArg (fun seen => (Except.error Ending.returned, ([], seen)))
        (List.append_assoc events [.prompted prompt] [.printed "\n"])
  | interrupt => rfl

theorem run_turn_cons (c : Console) (prompt : String) (inputEnd : InputEnd) (s : Stack)
    (line : String) (lines : List String) (events : List Event) :
    (turn (script inputEnd) c prompt s).run (line :: lines, events) =
      (next (c.handle s line), (lines, events ++ exchange prompt (c.handle s line))) :=
  congrArg (fun seen => (next (c.handle s line), (lines, seen)))
    (List.append_assoc events [.prompted prompt] [.printed (c.handle s line).output])

theorem run_turns_succ (c : Console) (prompt : String) (inputEnd : InputEnd) (count : ℕ)
    (s : Stack) (seen : List String × List Event) :
    (turns (script inputEnd) c prompt (count + 1) s).run seen =
      match (turn (script inputEnd) c prompt s).run seen with
      | (.ok s', seen') => (turns (script inputEnd) c prompt count s').run seen'
      | (.error ending, seen') => (some ending, seen') := by
  rw [turns, StateT.run_bind]
  rcases (turn (script inputEnd) c prompt s).run seen with ⟨_ | _, seen'⟩ <;> rfl

/-- Turn by turn at a terminal the loop makes the run over the lines that are there to be
read. -/
theorem run_turns (c : Console) (prompt : String) (inputEnd : InputEnd) (s : Stack)
    (lines : List String) (events : List Event) :
    let result := (turns (script inputEnd) c prompt (lines.length + 1) s).run (lines, events)
    result.1 = some (run c prompt inputEnd s lines).ending ∧
      result.2.2 = events ++ (run c prompt inputEnd s lines).events := by
  induction lines generalizing s events with
  | nil =>
      rw [run_turns_succ, run_turn_nil]
      exact ⟨rfl, rfl⟩
  | cons line lines ih =>
      rw [run_turns_succ, run_turn_cons, run]
      cases hnext : next (c.handle s line) with
      | error ending => exact ⟨rfl, rfl⟩
      | ok s' =>
          obtain ⟨hending, hevents⟩ := ih s' (events ++ exchange prompt (c.handle s line))
          exact ⟨hending, hevents.trans (List.append_assoc ..)⟩

/-! ## Prompts and output -/

theorem prompts_closing (prompt : String) (inputEnd : InputEnd) :
    (closing prompt inputEnd).prompts = [prompt] := by
  cases inputEnd with
  | endOfInput => rfl
  | interrupt => rfl

section Seen

variable (prompt : String) (handled : List Handled) (events : List Event) (ending : Ending)

theorem prompts_exchanges :
    (⟨handled.flatMap (exchange prompt) ++ events, ending⟩ : Run).prompts =
      List.replicate handled.length prompt ++ (⟨events, ending⟩ : Run).prompts := by
  induction handled with
  | nil => rfl
  | cons h handled ih =>
      rw [List.length_cons, List.replicate_succ, List.cons_append, ← ih]
      rfl

theorem output_exchanges :
    (⟨handled.flatMap (exchange prompt) ++ events, ending⟩ : Run).output =
      String.join (handled.map Handled.output) ++ (⟨events, ending⟩ : Run).output := by
  induction handled with
  | nil => simp [Run.output]
  | cons h handled ih =>
      rw [List.map_cons, String.join_cons, String.append_assoc, ← ih]
      simp [Run.output, exchange]

end Seen

/-- With the built-in functions the loop is the handling of lines one after the other, on
one stack and with the settings of the environment.  It prompts once for each line up to
the first one that stops it, and once more than there are lines when none does; what it
prints is what is printed for these lines, with a line break behind it at the end of the
input; and it returns, unless an interrupt comes in place of a line. -/
theorem start_builtin {e : Environment} {path? : Option PathName}
    (hhistory : e.history = .ok path?) (inputEnd : InputEnd) (lines : List String) :
    let c : Console := ⟨.builtin, e.colour, e.echo⟩
    let printed := String.join ((c.handleAll .empty (linesRead lines)).map Handled.output)
    ∃ run, start .builtin e inputEnd lines = .ok run ∧
      ((∃ line ∈ lines, isStop line = true) →
        run.prompts = List.replicate (linesRead lines).length e.prompt ∧
          run.output = printed ∧ run.ending = .returned) ∧
      ((∀ line ∈ lines, isStop line = false) →
        linesRead lines = lines ∧ run.prompts = List.replicate (lines.length + 1) e.prompt ∧
          match inputEnd with
          | .endOfInput => run.output = printed ++ "\n" ∧ run.ending = .returned
          | .interrupt => run.output = printed ∧ run.ending = .interrupted) := by
  intro c printed
  have hlength := c.length_handleAll .empty (linesRead lines)
  refine ⟨run c e.prompt inputEnd .empty lines, by rw [start, hhistory]; rfl, ?_, ?_⟩
  · intro hstop
    rw [run_of_exists_isStop rfl e.prompt inputEnd .empty hstop]
    have hprompts := prompts_exchanges e.prompt (c.handleAll .empty (linesRead lines)) [] .returned
    have houtput := output_exchanges e.prompt (c.handleAll .empty (linesRead lines)) [] .returned
    rw [List.append_nil] at hprompts houtput
    refine ⟨?_, ?_, rfl⟩
    · rw [hprompts, hlength]
      exact List.append_nil _
    · rw [houtput]
      exact String.append_empty
  · intro hlines
    rw [run_of_forall_not_isStop rfl e.prompt inputEnd .empty hlines, prompts_exchanges,
      output_exchanges, prompts_closing, hlength]
    refine ⟨linesRead_eq_self hlines, ?_, ?_⟩
    · rw [linesRead_eq_self hlines, List.replicate_succ']
    · cases inputEnd with
      | endOfInput => exact ⟨rfl, rfl⟩
      | interrupt => exact ⟨String.append_empty, rfl⟩

/-- Lines that fail, are rejected and list the stack, one that stops the loop behind wide
white space, and one that is not read any more. -/
theorem start_builtin_of_session :
    let e : Environment :=
      ⟨"CALC", "/nonexistent", ⟨none, []⟩,
        [("CALC_HISTORY", " "), ("CALC_PROMPT", "? "), ("CALC_COLOR", "off")]⟩
    let lines := ["2 3 add sin", "1 bogus", ":p", "\u3000:q\u0085", "4"]
    let c : Console := ⟨.builtin, e.colour, e.echo⟩
    let printed := String.join ((c.handleAll .empty (linesRead lines)).map Handled.output)
    e.history = .ok none ∧ linesRead lines = lines.take 4 ∧
      ∃ run, start .builtin e .interrupt lines = .ok run ∧
        run.prompts = ["? ", "? ", "? ", "? "] ∧ run.output = printed ∧ run.ending = .returned := by
  intro e lines c printed
  have hhistory : e.history = .ok none := by decide +kernel
  have hread : linesRead lines = lines.take 4 := by decide +kernel
  obtain ⟨run, hrun, hstopped, -⟩ := start_builtin hhistory .interrupt lines
  have hstop : ∃ line ∈ lines, isStop line = true := by decide +kernel
  obtain ⟨hprompts, houtput, hending⟩ := hstopped hstop
  rw [hread] at hprompts
  exact ⟨hhistory, hread, run, hrun, hprompts, houtput, hending⟩

end ReadLoop

/-! ## Settings -/

theorem Json.itemTexts_map_text (texts : List String) :
    itemTexts (texts.map fun t : String => text t) = .ok (texts.map quoted) := by
  induction texts with
  | nil => rfl
  | cons text texts ih =>
      rw [List.map_cons, itemTexts, ih, fullText, Text.quoted_ofString]
      rfl

namespace Console

/-- The entries that echo puts in front of what is printed for a line. -/
def echoEntries (r : Registry) (line : String) : List String :=
  if trim line ∈ [":p", ":r", ":f", ":q"] then [] else [tokenList r line]

theorem fullText_descriptions (r : Registry) (line : String) :
    (Json.array ((Token.ofLine r line).map fun token => .text token.2.description)).fullText =
      .ok (tokenList r line) := by
  have htexts := Json.itemTexts_map_text ((Token.ofLine r line).map fun t => t.2.description)
  simp only [List.map_map, Function.comp_def] at htexts
  rw [Json.fullText, htexts]
  rfl

/-- A line has one effect.  Of the settings, echo decides on the entries in front and
colour on the others. -/
theorem exists_handle_eq (r : Registry) (s : Stack) (line : String) :
    ∃ (entries : Bool → List String) (after : Stack) (verdict : Verdict), ∀ colour echo,
      handle ⟨r, colour, echo⟩ s line =
        ⟨(if echo then echoEntries r line else []) ++ entries colour, after, verdict⟩ := by
  by_cases hcommand : trim line ∈ [":p", ":r", ":f", ":q"]
  · obtain ⟨entries, after, hhandle⟩ := handle_of_command r s hcommand
    simp only [echoEntries, if_pos hcommand, ite_self, List.nil_append]
    exact ⟨entries, after, _, hhandle⟩
  · simp only [echoEntries, if_neg hcommand]
    let evaluation := Session.eval r s line
    exact ⟨fun colour => report colour evaluation, evaluation.stackFrom s,
      Console.verdict evaluation,
      fun colour echo => handle_of_not_command ⟨r, colour, echo⟩ s hcommand⟩

/-- The settings have no effect but on what is printed.  A line comes to the same and
leaves the same stack under all settings, whether it is a command, is rejected, fails in
part or is ended by a fatal cause.  With echo and one colour, a command prints what it
prints without echo, and any other line prints one entry more before the others, the list
of the descriptions of its tokens. -/
theorem handle_settings (r : Registry) (s : Stack) (line : String) :
    (∀ colour echo colour' echo',
      let handled := handle ⟨r, colour, echo⟩ s line
      let handled' := handle ⟨r, colour', echo'⟩ s line
      handled.verdict = handled'.verdict ∧ handled.stack = handled'.stack) ∧
    ∀ colour,
      let echoing := handle ⟨r, colour, true⟩ s line
      let silent := handle ⟨r, colour, false⟩ s line
      let descriptions := (Token.ofLine r line).map fun token => Json.text token.2.description
      ∃ entry, (Json.array descriptions).fullText = .ok entry ∧
        (trim line ∈ [":p", ":r", ":f", ":q"] → echoing.output = silent.output) ∧
        (trim line ∉ [":p", ":r", ":f", ":q"] →
          echoing.printed = entry :: silent.printed ∧
            echoing.output = entry ++ "\n" ++ silent.output) := by
  obtain ⟨entries, after, verdict, hhandle⟩ := exists_handle_eq r s line
  refine ⟨fun colour echo colour' echo' => ?_, fun colour => ?_⟩
  · rw [hhandle, hhandle]
    exact ⟨rfl, rfl⟩
  · rw [hhandle, hhandle]
    refine ⟨_, fullText_descriptions r line, fun hcommand => ?_, fun hcommand => ?_⟩
    · simp [echoEntries, hcommand]
    · simp [echoEntries, hcommand, Handled.output, printedText, String.append_assoc]

/-- Behind wide white space a line that is ended half way, and a command. -/
theorem handle_settings_of_session :
    let s : Stack := .ofList [.i32 5]
    let collapsing := handle ⟨.brittle, true, true⟩ s "\u30004 sin 9 collapse 8 "
    collapsing.stack = (handle ⟨.brittle, false, false⟩ s "\u30004 sin 9 collapse 8 ").stack ∧
      collapsing.output =
        "['Literal(i32 4)', 'Intrinsic(sine :: f64 -> f64)', 'Literal(i32 9)', " ++
          "'Intrinsic(collapse :: i32 -> i32)', 'Literal(i32 8)']\n" ∧
      trim "\u3000:p" = ":p" ∧
      (handle ⟨.brittle, true, true⟩ s "\u3000:p").output =
        (handle ⟨.brittle, true, false⟩ s "\u3000:p").output := by
  intro s collapsing
  obtain ⟨heffect, hecho⟩ := handle_settings .brittle s "\u30004 sin 9 collapse 8 "
  obtain ⟨entry, hentry, -, hline⟩ := hecho true
  have hnot : trim "\u30004 sin 9 collapse 8 " ∉ [":p", ":r", ":f", ":q"] := by decide +kernel
  have hrows : trim "\u3000:p" = ":p" := by decide +kernel
  refine ⟨(heffect true true false false).2, ?_, hrows, ?_⟩
  · obtain rfl := Except.ok.inj ((fullText_descriptions _ _).symm.trans hentry)
    exact (hline hnot).2.trans (by decide +kernel)
  · obtain ⟨-, -, hsilent, -⟩ := (handle_settings .brittle s "\u3000:p").2 true
    exact hsilent (by simp [hrows])

end Console

namespace ReadLoop

/-- The events of a run with echo, made of those of the run without. -/
def withEchoes (r : Registry) : List String → List Event → List Event
  | line :: lines, .prompted prompt :: .printed text :: events =>
    .prompted prompt :: .printed (printedText (Console.echoEntries r line) ++ text) ::
      withEchoes r lines events
  | _, events => events

/-- A run prompts and ends in the same way under all settings, and with echo it prints
what it prints without echo, with the entries of each line that is read in front. -/
theorem run_settings (r : Registry) (prompt : String) (inputEnd : InputEnd) (s : Stack)
    (lines : List String) :
    (∀ colour echo colour' echo',
      let seen := run ⟨r, colour, echo⟩ prompt inputEnd s lines
      let seen' := run ⟨r, colour', echo'⟩ prompt inputEnd s lines
      seen.prompts = seen'.prompts ∧ seen.ending = seen'.ending) ∧
    ∀ colour,
      (run ⟨r, colour, true⟩ prompt inputEnd s lines).events =
        withEchoes r lines (run ⟨r, colour, false⟩ prompt inputEnd s lines).events := by
  induction lines generalizing s with
  | nil =>
      cases inputEnd with
      | endOfInput => exact ⟨fun _ _ _ _ => ⟨rfl, rfl⟩, fun _ => rfl⟩
      | interrupt => exact ⟨fun _ _ _ _ => ⟨rfl, rfl⟩, fun _ => rfl⟩
  | cons line lines ih =>
      obtain ⟨entries, after, verdict, hhandle⟩ := Console.exists_handle_eq r s line
      obtain ⟨hseen, hechoes⟩ := ih after
      simp only [run, hhandle]
      cases verdict with
      | stop =>
          refine ⟨fun _ _ _ _ => ⟨rfl, rfl⟩, fun colour => ?_⟩
          simp [next, withEchoes, Handled.output, printedText]
      | aborted cause =>
          refine ⟨fun _ _ _ _ => ⟨rfl, rfl⟩, fun colour => ?_⟩
          simp [next, withEchoes, Handled.output, printedText]
      | proceed =>
          refine ⟨fun colour echo colour' echo' => ?_, fun colour => ?_⟩
          · obtain ⟨hprompts, hending⟩ := hseen colour echo colour' echo'
            exact ⟨congrArg (prompt :: ·) hprompts, hending⟩
          · simp [next, withEchoes, Handled.output, printedText, hechoes]

end ReadLoop

end PostfixCalc
