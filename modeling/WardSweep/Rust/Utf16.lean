import WardSweep.Rust.Utf8

/-!
# UTF-16

Wide text reaches a program as bytes, two to a unit.  What does not pair up reads as the replacement
character.
-/

namespace WardSweep.Utf16

open Utf8

/-- `String::from_utf16_lossy`. -/
def fromUtf16Lossy : List ℕ → Text
  | [] => []
  | unit :: units =>
    if unit < 0xD800 ∨ 0xDFFF < unit then Char.ofNat unit :: fromUtf16Lossy units
    else if 0xDC00 ≤ unit then Char.ofNat 0xFFFD :: fromUtf16Lossy units
    else
      match units with
      | [] => [Char.ofNat 0xFFFD]
      | low :: rest =>
        if 0xDC00 ≤ low ∧ low ≤ 0xDFFF then
          Char.ofNat (0x10000 + (unit - 0xD800) * 0x400 + (low - 0xDC00)) :: fromUtf16Lossy rest
        else Char.ofNat 0xFFFD :: fromUtf16Lossy (low :: rest)

/-- The 16-bit units of some bytes, low byte first.  An odd last byte is left out. -/
def units : List UInt8 → List ℕ
  | low :: high :: rest => (low.toNat + 256 * high.toNat) :: units rest
  | _ => []

theorem fromUtf16Lossy_alone {unit : ℕ} (h : unit < 0xD800 ∨ 0xDFFF < unit) (rest : List ℕ) :
    fromUtf16Lossy (unit :: rest) = Char.ofNat unit :: fromUtf16Lossy rest := by
  cases rest <;> simp only [fromUtf16Lossy, if_pos h]

theorem fromUtf16Lossy_pair {high low : ℕ} (hhigh : 0xD800 ≤ high ∧ high < 0xDC00)
    (hlow : 0xDC00 ≤ low ∧ low ≤ 0xDFFF) (rest : List ℕ) :
    fromUtf16Lossy (high :: low :: rest) =
      Char.ofNat (0x10000 + (high - 0xD800) * 0x400 + (low - 0xDC00)) :: fromUtf16Lossy rest := by
  rw [fromUtf16Lossy, if_neg (by omega), if_neg (by omega), if_pos hlow]

end WardSweep.Utf16
