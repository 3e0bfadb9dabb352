import Mathlib.Data.Nat.Digits.Lemmas
import Mathlib.Tactic.NormNum

/-!
# Numbers in little-endian bytes

A number of a fixed width as its bytes, least significant first, and back.
-/

namespace LittleEndian

/-- The last `width` bytes of `n`. -/
def toBytes : ℕ → ℕ → List UInt8
  | 0, _ => []
  | width + 1, n => UInt8.ofNat n :: toBytes width (n / 256)

/-- The number that the bytes stand for. -/
def ofBytes (bytes : List UInt8) : ℕ := Nat.ofDigits 256 (bytes.map UInt8.toNat)

@[simp] theorem length_toBytes (width n : ℕ) : (toBytes width n).length = width := by
  induction width generalizing n with
  | zero => rfl
  | succ width ih => rw [toBytes, List.length_cons, ih]

theorem ofBytes_cons (b : UInt8) (bytes : List UInt8) :
    ofBytes (b :: bytes) = b.toNat + 256 * ofBytes bytes := by
  rw [ofBytes, List.map_cons, Nat.ofDigits_cons, ofBytes]

/-- The bytes keep the number up to their width. -/
theorem ofBytes_toBytes (width n : ℕ) : ofBytes (toBytes width n) = n % 256 ^ width := by
  induction width generalizing n with
  | zero => simp [toBytes, ofBytes, Nat.mod_one]
  | succ width ih =>
    rw [toBytes, ofBytes_cons, ih, pow_succ', Nat.mod_mul]
    simp

theorem ofBytes_toBytes_of_lt {width n : ℕ} (h : n < 256 ^ width) :
    ofBytes (toBytes width n) = n := by
  rw [ofBytes_toBytes, Nat.mod_eq_of_lt h]

/-- A number stored between other bytes is read back from its place. -/
theorem ofBytes_field {width n : ℕ} (h : n < 256 ^ width) (before after : List UInt8) :
    ofBytes (((before ++ (toBytes width n ++ after)).drop before.length).take width) = n := by
  rw [List.drop_left, List.take_left' (length_toBytes width n), ofBytes_toBytes_of_lt h]

end LittleEndian
