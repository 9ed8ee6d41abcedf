/-!
# Bytes and words

A stream of bytes is a list. A 32-bit word travels as four bytes, the least significant first; reading is total, and a
byte that is missing counts as zero.
-/

namespace Peripheral

/-- A run of bytes in the order they travel. -/
abbrev Bytes := List UInt8

/-- The four bytes of a word, the least significant first. -/
def wordBytes (w : UInt32) : Bytes :=
  [UInt8.ofNat w.toNat, UInt8.ofNat (w.toNat / 256), UInt8.ofNat (w.toNat / 65536), UInt8.ofNat (w.toNat / 16777216)]

/-- The word held by the first four bytes, the least significant first. -/
def wordOf : Bytes → UInt32
  | a :: b :: c :: d :: _ => UInt32.ofNat (a.toNat + 256 * b.toNat + 65536 * c.toNat + 16777216 * d.toNat)
  | _ => 0

@[simp] theorem length_wordBytes (w : UInt32) : (wordBytes w).length = 4 := rfl

/-- A word is read back from its bytes, whatever follows. -/
theorem wordOf_wordBytes_append (w : UInt32) (rest : Bytes) : wordOf (wordBytes w ++ rest) = w := by
  have hw := w.toNat_lt
  apply UInt32.toNat_inj.mp
  simp only [wordBytes, List.cons_append, List.nil_append, wordOf, UInt8.toNat_ofNat', UInt32.toNat_ofNat']
  omega

/-- Four bytes are the bytes of their word. -/
theorem wordBytes_wordOf (a b c d : UInt8) : wordBytes (wordOf [a, b, c, d]) = [a, b, c, d] := by
  have ha := a.toNat_lt
  have hb := b.toNat_lt
  have hc := c.toNat_lt
  have hd := d.toNat_lt
  simp only [wordBytes, wordOf, UInt32.toNat_ofNat', List.cons.injEq, and_true]
  refine ⟨?_, ?_, ?_, ?_⟩ <;>
    · apply UInt8.toNat_inj.mp
      simp only [UInt8.toNat_ofNat']
      omega

end Peripheral
