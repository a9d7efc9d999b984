import PostfixCalc.Text.Utf8

/-!
# ASCII in UTF-8

An ASCII character is one byte in UTF-8, its code point, and that byte is decoded to
the character again.
-/

namespace PostfixCalc
namespace Utf8

/-- The bytes of ASCII characters. -/
def asciiBytes (cs : List Char) : List UInt8 := cs.map fun c => UInt8.ofNat c.toNat

theorem toNat_ofNat_of_ascii {c : Char} (hc : c.toNat < 0x80) :
    (UInt8.ofNat c.toNat).toNat = c.toNat := by
  rw [UInt8.toNat_ofNat']
  omega

/-- A byte of ASCII is not part of a longer sequence. -/
theorem decodeFrom_cons_of_ascii (offset : Nat) {b : UInt8} (hb : b.toNat < 0x80)
    (bytes : List UInt8) :
    decodeFrom offset (b :: bytes) =
      (decodeFrom (offset + 1) bytes).map (Char.ofNat b.toNat :: ·) := by
  have hlead : lead? b.toNat = some ⟨0, b.toNat, 0, 0⟩ := by
    rw [lead?, if_pos hb]
  rw [decodeFrom]
  split
  · next hnone => rw [hlead] at hnone; contradiction
  · next lead hsome =>
    obtain rfl := Option.some.inj (hlead.symm.trans hsome)
    simp only [continuations, Nat.add_zero]
    cases decodeFrom (offset + 1) bytes with
    | error fault => rfl
    | ok cs => rfl

theorem decodeFrom_asciiBytes (offset : Nat) {cs : List Char} (hcs : ∀ c ∈ cs, c.toNat < 0x80) :
    decodeFrom offset (asciiBytes cs) = .ok cs := by
  induction cs generalizing offset with
  | nil => rw [asciiBytes, List.map_nil, decodeFrom]
  | cons c cs ih =>
      rw [List.forall_mem_cons] at hcs
      have hbyte := toNat_ofNat_of_ascii hcs.1
      have hrest := ih (offset + 1) hcs.2
      rw [asciiBytes] at hrest ⊢
      rw [List.map_cons, decodeFrom_cons_of_ascii offset (by omega), hrest, hbyte,
        Char.ofNat_toNat]
      rfl

theorem decode_asciiBytes {cs : List Char} (hcs : ∀ c ∈ cs, c.toNat < 0x80) :
    decode (asciiBytes cs) = .ok cs :=
  decodeFrom_asciiBytes 0 hcs

/-- The bytes of a text in UTF-8. -/
def encode (text : String) : List UInt8 := text.toUTF8.data.toList

end Utf8
end PostfixCalc
