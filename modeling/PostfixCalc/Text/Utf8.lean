/-!
# UTF-8

Bytes are decoded from the front.  Decoding stops at the first sequence that is
not well formed; the fault names the bytes that were accepted as its beginning,
and whether the next byte was wrong or missing.
-/

namespace PostfixCalc
namespace Utf8

/-- Why a byte sequence is not well formed. -/
inductive Reason where
  | invalidStart
  | invalidContinuation
  | unexpectedEnd
  deriving DecidableEq, Repr

/-- A sequence that is not well formed: the offset of its first byte, the number of
bytes that form its beginning, the first byte itself and the reason. -/
structure Fault where
  offset : Nat
  count : Nat
  byte : UInt8
  reason : Reason
  deriving DecidableEq, Repr

/-- What a first byte announces: the number of continuation bytes, its own bits of
the code point, and the range of the first continuation byte. -/
structure Lead where
  continuations : Nat
  bits : Nat
  low : Nat
  high : Nat
  deriving DecidableEq, Repr

/-- Meaning of a byte as the first one of a sequence.  The ranges exclude overlong
forms, surrogates and code points past the last one. -/
def lead? (b : Nat) : Option Lead :=
  if b < 0x80 then some ⟨0, b, 0, 0⟩
  else if b < 0xc2 then none
  else if b < 0xe0 then some ⟨1, b - 0xc0, 0x80, 0xbf⟩
  else if b = 0xe0 then some ⟨2, 0, 0xa0, 0xbf⟩
  else if b = 0xed then some ⟨2, 13, 0x80, 0x9f⟩
  else if b < 0xf0 then some ⟨2, b - 0xe0, 0x80, 0xbf⟩
  else if b = 0xf0 then some ⟨3, 0, 0x90, 0xbf⟩
  else if b < 0xf4 then some ⟨3, b - 0xf0, 0x80, 0xbf⟩
  else if b = 0xf4 then some ⟨3, 4, 0x80, 0x8f⟩
  else none

/-- Reads the continuation bytes of a sequence: the code point and the bytes after
it, or the number of bytes accepted before the fault and its reason. -/
def continuations : (count low high code : Nat) → List UInt8 →
    Except (Nat × Reason) (Nat × List UInt8)
  | 0, _, _, code, bytes => .ok (code, bytes)
  | _ + 1, _, _, _, [] => .error (0, .unexpectedEnd)
  | count + 1, low, high, code, b :: bytes =>
    if low ≤ b.toNat ∧ b.toNat ≤ high then
      match continuations count 0x80 0xbf (code * 64 + (b.toNat - 0x80)) bytes with
      | .ok result => .ok result
      | .error (accepted, reason) => .error (accepted + 1, reason)
    else .error (0, .invalidContinuation)

theorem length_le_of_continuations {count low high code : Nat}
    {bytes rest : List UInt8} {result : Nat}
    (h : continuations count low high code bytes = .ok (result, rest)) :
    rest.length ≤ bytes.length := by
  induction count generalizing low high code bytes with
  | zero =>
    simp only [continuations, Except.ok.injEq, Prod.mk.injEq] at h
    simp [h.2]
  | succ count ih =>
    match bytes with
    | [] => simp [continuations] at h
    | b :: bytes =>
      rw [continuations] at h
      split at h
      · split at h
        · rename_i h'
          simp only [Except.ok.injEq] at h
          subst h
          exact Nat.le_succ_of_le (ih h')
        · simp at h
      · simp at h

/-- Decodes bytes that start at the given offset. -/
def decodeFrom (offset : Nat) (bytes : List UInt8) : Except Fault (List Char) :=
  match bytes with
  | [] => .ok []
  | b :: bytes =>
    match lead? b.toNat with
    | none => .error ⟨offset, 1, b, .invalidStart⟩
    | some lead =>
      match h : continuations lead.continuations lead.low lead.high lead.bits bytes with
      | .error (accepted, reason) => .error ⟨offset, accepted + 1, b, reason⟩
      | .ok (code, rest) =>
        match decodeFrom (offset + lead.continuations + 1) rest with
        | .error fault => .error fault
        | .ok cs => .ok (Char.ofNat code :: cs)
termination_by bytes.length
decreasing_by
  have := length_le_of_continuations h
  simp only [List.length_cons]
  omega

def decode (bytes : List UInt8) : Except Fault (List Char) := decodeFrom 0 bytes

end Utf8
end PostfixCalc
