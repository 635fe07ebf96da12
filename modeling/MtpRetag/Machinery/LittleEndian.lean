import Mathlib.Data.Nat.ModEq

/-!
# Machinery/LittleEndian — numbers as bytes, the lowest first

`bytes w n` stores the `w` lowest bytes of `n`; `value` reads any list of bytes back.
-/

namespace LittleEndian

/-- The `w` lowest bytes of `n`. -/
def bytes : ℕ → ℕ → List UInt8
  | 0, _ => []
  | w + 1, n => UInt8.ofNat n :: bytes w (n / 256)

/-- The number stored in a list of bytes. -/
def value : List UInt8 → ℕ
  | [] => 0
  | b :: l => b.toNat + 256 * value l

/-- **Reading back** loses what lies above the width. -/
theorem value_bytes : ∀ w n : ℕ, value (bytes w n) = n % 256 ^ w
  | 0, n => by rw [bytes, value, pow_zero, Nat.mod_one]
  | w + 1, n => by
      have hb : (UInt8.ofNat n).toNat = n % 256 := UInt8.toNat_ofNat'
      rw [bytes, value, value_bytes w, hb, pow_succ', Nat.mod_mul]

theorem value_bytes_of_lt {w n : ℕ} (h : n < 256 ^ w) : value (bytes w n) = n := by
  rw [value_bytes, Nat.mod_eq_of_lt h]

end LittleEndian
