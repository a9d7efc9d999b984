import PostfixCalc.Function.Builtin
import PostfixCalc.Proofs.Service.Wire
import PostfixCalc.Proofs.Session.Validation
import PostfixCalc.Proofs.Text.Character
import PostfixCalc.ReadLoop

/-!
# One calculator behind three front ends

The read loop, the request service and a session on its own are given the same lines.
The read loop trims a line and reads it once more when it echoes it, and each of them
puts the results in its own words; but a line has the words that it has without the
white space around it, and it is evaluated in one way.  So all three keep the same
stack, reject the same lines and report the same errors, line after line.  They differ
where an implementation could not read a line of its own: the service answers this like a
line that it cannot read itself, and the read loop does so for unrecognized tokens only.
-/

namespace PostfixCalc

theorem Token.ofLine_trim (r : Registry) (line : String) :
    ofLine r (trim line) = ofLine r line := by
  rw [ofLine, lineWords_trim, ofLine]

theorem Session.eval_trim (r : Registry) (s : Stack) (line : String) :
    eval r s (trim line) = eval r s line := by
  rw [eval, parse, Token.ofLine_trim, eval, parse]

/-- What a line that clears the stack or is evaluated asks of a session. -/
def Session.Step.ofLine (line : String) : Step :=
  if trim line = ":r" then .clear else .eval line

namespace Service

/-- The request for the same. -/
def Request.ofLine (line : String) : Request :=
  if trim line = ":r" then .clear else .eval line

end Service

namespace Console

/-- Handles lines in a row, each on the stack that the one before it left. -/
def handleAll (c : Console) (s : Stack) : List String → List Handled
  | [] => []
  | line :: rest =>
    let handled := c.handle s line
    handled :: c.handleAll handled.stack rest

/-- What is printed before the results of a line. -/
def echoed (c : Console) (line : String) : List String :=
  if c.echo then [tokenList c.registry line] else []

/-- A command has one effect, whatever is coloured and echoed, and only colour has a say in
what it prints. -/
theorem handle_of_command (r : Registry) (s : Stack) {line : String}
    (hline : trim line ∈ [":p", ":r", ":f", ":q"]) :
    ∃ (entries : Bool → List String) (after : Stack), ∀ colour echo,
      handle ⟨r, colour, echo⟩ s line =
        ⟨entries colour, after, if trim line = ":q" then .stop else .proceed⟩ := by
  simp only [List.mem_cons, List.not_mem_nil, or_false] at hline
  rcases hline with hrows | hclear | hlisting | hstop
  · exact ⟨fun colour => [Display.stackRows colour colour s], s,
      fun colour echo => by simp [handle, hrows]⟩
  · exact ⟨fun _ => ["Stack cleared."], .empty, fun colour echo => by simp [handle, hclear]⟩
  · exact ⟨fun colour => [Display.registry colour r], s,
      fun colour echo => by simp [handle, hlisting]⟩
  · exact ⟨fun _ => [], s, fun colour echo => by simp [handle, hstop]⟩

theorem handle_of_not_command (c : Console) (s : Stack) {line : String}
    (hline : trim line ∉ [":p", ":r", ":f", ":q"]) :
    c.handle s line =
      ⟨c.echoed line ++ report c.colour (Session.eval c.registry s line),
        (Session.eval c.registry s line).stackFrom s,
        verdict (Session.eval c.registry s line)⟩ := by
  simp only [List.mem_cons, List.not_mem_nil, or_false, not_or] at hline
  obtain ⟨hrows, hclear, hlisting, hstop⟩ := hline
  simp only [handle, if_neg hrows, if_neg hclear, if_neg hlisting, if_neg hstop, echoed, tokenList,
    Token.ofLine_trim, Session.eval_trim]

end Console

/-- The built-in functions and one that fails with a fault that is not survived. -/
def Registry.brittle : Registry :=
  builtin.insert "collapse" ⟨"collapse", ⟨[.i32], [.i32]⟩, 
    Stock.failing (.fatal (.fault (.raised .runtime "gone")))⟩

end PostfixCalc
