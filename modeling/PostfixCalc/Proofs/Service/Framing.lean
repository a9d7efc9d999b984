import Mathlib.Data.List.TakeWhile
import PostfixCalc.Proofs.Text.Character
import PostfixCalc.Service.Connection

/-!
# Lines do not depend on how bytes arrive

What a connection does is decided by the complete lines among the bytes that were
received: it takes them up one after the other.  The invariant is that after every
chunk the connection has taken up the complete lines of the bytes so far, and that the
pending bytes are those after the last line break, unless the connection has ended.
-/

namespace PostfixCalc
namespace Service

/-- The lines of a stream of bytes that a line break ends, without the line breaks. -/
def completeLines (bytes : List UInt8) : List (List UInt8) :=
  (pieces (· == 0x0a) bytes).dropLast

/-- The bytes of a stream after the last line break. -/
def unfinishedLine (bytes : List UInt8) : List UInt8 :=
  (pieces (· == 0x0a) bytes).getLastD []

theorem completeLines_of_not_mem {bytes : List UInt8} (h : 0x0a ∉ bytes) :
    completeLines bytes = [] := by
  have hseparator : ∀ b ∈ bytes, (b == 0x0a) = false := by
    intro b hb
    exact beq_false_of_ne fun heq => h (heq ▸ hb)
  rw [completeLines, pieces_of_forall hseparator]
  rfl

theorem not_mem_unfinishedLine (bytes : List UInt8) : 0x0a ∉ unfinishedLine bytes := by
  intro h
  simpa using not_separator_of_mem_getLastD bytes 0x0a h

theorem completeLines_append (bytes later : List UInt8) :
    completeLines (bytes ++ later) =
      completeLines bytes ++ completeLines (unfinishedLine bytes ++ later) := by
  rw [completeLines, pieces_append, List.dropLast_append_of_ne_nil (pieces_ne_nil _)]
  rfl

theorem completeLines_line_append {line : List UInt8} (h : 0x0a ∉ line) (rest : List UInt8) :
    completeLines (line ++ 0x0a :: rest) = line :: completeLines rest := by
  have hseparator : ∀ b ∈ line, (b == 0x0a) = false := by
    intro b hb
    exact beq_false_of_ne fun heq => h (heq ▸ hb)
  rw [completeLines, pieces_append_cons hseparator rfl,
    List.dropLast_cons_of_ne_nil (pieces_ne_nil rest)]
  rfl

namespace Connection

/-- A connection without the bytes of the line that is not complete yet. -/
def settled (c : Connection) : Connection := { c with pending := [] }

def takeLines (r : Registry) (c : Connection) (lines : List (List UInt8)) : Connection :=
  lines.foldl (handleLine r) c

@[simp] theorem takeLines_nil (r : Registry) (c : Connection) : takeLines r c [] = c := rfl

theorem takeLines_cons (r : Registry) (c : Connection) (line : List UInt8)
    (lines : List (List UInt8)) :
    takeLines r c (line :: lines) = takeLines r (handleLine r c line) lines := rfl

theorem takeLines_append (r : Registry) (c : Connection) (lines later : List (List UInt8)) :
    takeLines r c (lines ++ later) = takeLines r (takeLines r c lines) later :=
  List.foldl_append

theorem handleLine_of_ended (r : Registry) {c : Connection} (h : c.ended.isSome)
    (line : List UInt8) : handleLine r c line = c := by
  rw [handleLine, if_pos h]

theorem takeLines_of_ended (r : Registry) {c : Connection} (h : c.ended.isSome)
    (lines : List (List UInt8)) : takeLines r c lines = c := by
  induction lines with
  | nil => rfl
  | cons line lines ih => rw [takeLines_cons, handleLine_of_ended r h, ih]

/-- Complete lines are taken up without a look at the pending bytes, and these stay as
they are. -/
theorem handleLine_pending (r : Registry) (c : Connection) (line bytes : List UInt8) :
    handleLine r { c with pending := bytes } line =
      { handleLine r c line with pending := bytes } := by
  unfold handleLine
  split
  · rfl
  · split
    · rfl
    · split
      · rfl
      · rfl
      · cases handle r c.stack _ with
        | response response s => rfl
        | aborted cause s => rfl

theorem takeLines_pending (r : Registry) (c : Connection) (lines : List (List UInt8))
    (bytes : List UInt8) :
    takeLines r { c with pending := bytes } lines =
      { takeLines r c lines with pending := bytes } := by
  induction lines generalizing c with
  | nil => rfl
  | cons line lines ih =>
      rw [takeLines_cons, takeLines_cons, handleLine_pending, ih (handleLine r c line)]

/-- A chunk completes lines, and the rest of it is kept. -/
theorem receive_eq (r : Registry) {c : Connection} (h : c.ended = none) (chunk : List UInt8) :
    receive r c chunk =
      { takeLines r c (completeLines (c.pending ++ chunk)) with
        pending := unfinishedLine (c.pending ++ chunk) } := by
  rw [receive, if_neg (by simp [h])]
  exact takeLines_pending r c _ _

theorem foldl_receive_of_ended (r : Registry) {c : Connection} (h : c.ended.isSome)
    (chunks : List (List UInt8)) : chunks.foldl (receive r) c = c := by
  induction chunks with
  | nil => rfl
  | cons chunk chunks ih => rw [List.foldl_cons, receive, if_pos h, ih]

/-- Receiving chunks is taking up the complete lines of the bytes in them. -/
theorem settled_foldl_receive (r : Registry) (chunks : List (List UInt8)) {c : Connection}
    (hpending : 0x0a ∉ c.pending) :
    (chunks.foldl (receive r) c).settled =
      takeLines r c.settled (completeLines (c.pending ++ chunks.flatten)) := by
  induction chunks generalizing c with
  | nil =>
      rw [List.flatten_nil, List.append_nil, completeLines_of_not_mem hpending]
      rfl
  | cons chunk chunks ih =>
      cases hended : c.ended with
      | some cause =>
          have hsome : c.ended.isSome := by simp [hended]
          have hsettled : c.settled.ended.isSome := hsome
          rw [foldl_receive_of_ended r hsome, takeLines_of_ended r hsettled]
      | none =>
          have hnext := receive_eq r hended chunk
          have hrest : 0x0a ∉ (receive r c chunk).pending := by
            rw [hnext]
            exact not_mem_unfinishedLine _
          have hsettled : (receive r c chunk).settled =
              takeLines r c.settled (completeLines (c.pending ++ chunk)) := by
            rw [hnext]
            exact (takeLines_pending r c _ []).symm
          have hpendingNext : (receive r c chunk).pending =
              unfinishedLine (c.pending ++ chunk) := by
            rw [hnext]
          rw [List.foldl_cons, ih hrest, hsettled, hpendingNext, ← takeLines_append,
            ← completeLines_append, List.flatten_cons, List.append_assoc]

/-- The bytes of a connection up to its end, which an empty chunk marks. -/
def received (chunks : List (List UInt8)) : List UInt8 :=
  (chunks.takeWhile (!·.isEmpty)).flatten

theorem received_of_not_mem {chunks : List (List UInt8)} (h : [] ∉ chunks) :
    received chunks = chunks.flatten := by
  have hchunks : ∀ chunk ∈ chunks, (!chunk.isEmpty) = true := by
    intro chunk hchunk
    have hne : chunk ≠ [] := fun heq => h (heq ▸ hchunk)
    simpa using hne
  rw [received, List.takeWhile_eq_self_iff.mpr hchunks]

theorem settled_serve (r : Registry) (chunks : List (List UInt8)) :
    (serve r chunks).settled = takeLines r fresh (completeLines (received chunks)) :=
  settled_foldl_receive r _ (by simp [fresh])

/-- Two connections that receive the same bytes, up to a fragment that no line break
ends, send the same responses, leave the same stack and end in the same way, however
the bytes are cut into chunks. -/
theorem serve_of_flatten_eq (r : Registry) {chunks chunks' : List (List UInt8)}
    {fragment : List UInt8} (hchunks : [] ∉ chunks) (hchunks' : [] ∉ chunks')
    (hfragment : 0x0a ∉ fragment) (hbytes : chunks'.flatten = chunks.flatten ++ fragment) :
    (serve r chunks').sent = (serve r chunks).sent ∧
      (serve r chunks').stack = (serve r chunks).stack ∧
      (serve r chunks').ended = (serve r chunks).ended := by
  have hopen : 0x0a ∉ unfinishedLine chunks.flatten ++ fragment := by
    rw [List.mem_append, not_or]
    exact ⟨not_mem_unfinishedLine _, hfragment⟩
  have hlines : completeLines (received chunks') = completeLines (received chunks) := by
    rw [received_of_not_mem hchunks, received_of_not_mem hchunks', hbytes,
      completeLines_append, completeLines_of_not_mem hopen, List.append_nil]
  have hsettled : (serve r chunks').settled = (serve r chunks).settled := by
    rw [settled_serve, settled_serve, hlines]
  have hsent := congrArg Connection.sent hsettled
  have hstack := congrArg Connection.stack hsettled
  have hended := congrArg Connection.ended hsettled
  exact ⟨hsent, hstack, hended⟩

/-- A request cut inside a character of three bytes, and the same request in one chunk
with the beginning of another line after it. -/
theorem serve_of_flatten_eq_of_euro :
    [] ∉ ([[0x22, 0xe2], [0x82, 0xac, 0x22, 0x0a]] : List (List UInt8)) ∧
      [] ∉ ([[0x22, 0xe2, 0x82, 0xac, 0x22, 0x0a, 0x7b]] : List (List UInt8)) ∧
      0x0a ∉ ([0x7b] : List UInt8) ∧
      ([[0x22, 0xe2, 0x82, 0xac, 0x22, 0x0a, 0x7b]] : List (List UInt8)).flatten =
        ([[0x22, 0xe2], [0x82, 0xac, 0x22, 0x0a]] : List (List UInt8)).flatten ++ [0x7b] ∧
      (serve .builtin [[0x22, 0xe2, 0x82, 0xac, 0x22, 0x0a, 0x7b]]).sent =
          (serve .builtin [[0x22, 0xe2], [0x82, 0xac, 0x22, 0x0a]]).sent ∧
        (serve .builtin [[0x22, 0xe2, 0x82, 0xac, 0x22, 0x0a, 0x7b]]).stack =
          (serve .builtin [[0x22, 0xe2], [0x82, 0xac, 0x22, 0x0a]]).stack ∧
        (serve .builtin [[0x22, 0xe2, 0x82, 0xac, 0x22, 0x0a, 0x7b]]).ended =
          (serve .builtin [[0x22, 0xe2], [0x82, 0xac, 0x22, 0x0a]]).ended := by
  have hcut : [] ∉ ([[0x22, 0xe2], [0x82, 0xac, 0x22, 0x0a]] : List (List UInt8)) := by decide
  have hwhole : [] ∉ ([[0x22, 0xe2, 0x82, 0xac, 0x22, 0x0a, 0x7b]] : List (List UInt8)) := by
    decide
  have hfragment : 0x0a ∉ ([0x7b] : List UInt8) := by decide
  exact ⟨hcut, hwhole, hfragment, rfl, serve_of_flatten_eq .builtin hcut hwhole hfragment rfl⟩

end Connection
end Service
end PostfixCalc
