/-
# Lib.Bytes — byte memories and little-endian words

A memory is a total map from byte addresses to bytes; a buffer of `n` bytes is a
memory of which only the addresses below `n` are read. `copyBytes` and
`fillBytes` are `memcpy` and `memset`, `putLE`/`getLE` the little-endian words a
C structure stores, with the round trip `getLE_putLE`.
-/
import Mathlib.Data.Nat.ModEq
import Mathlib.Tactic.SplitIfs

namespace FpgaSsd.Lib

set_option autoImplicit false

abbrev Mem := Nat → UInt8

/-- `memcpy (dst + at, src + start, n)`. -/
def copyBytes (dst : Mem) (offset : Nat) (src : Mem) (start n : Nat) : Mem :=
  fun i => if offset ≤ i ∧ i < offset + n then src (start + (i - offset)) else dst i

/-- `memset (dst + at, value, n)`. -/
def fillBytes (dst : Mem) (offset n : Nat) (value : UInt8) : Mem :=
  fun i => if offset ≤ i ∧ i < offset + n then value else dst i

/-- Byte `i` of the little-endian rendering of `w`. -/
def leByte (w i : Nat) : UInt8 := UInt8.ofNat (w / 256 ^ i)

def putLE (m : Mem) (offset n w : Nat) : Mem :=
  fun i => if offset ≤ i ∧ i < offset + n then leByte w (i - offset) else m i

def getLE (m : Mem) (offset : Nat) : Nat → Nat
  | 0 => 0
  | n + 1 => getLE m offset n + (m (offset + n)).toNat * 256 ^ n

theorem copyBytes_inside {dst src : Mem} {offset start n i : Nat} (h : i < n) :
    copyBytes dst offset src start n (offset + i) = src (start + i) := by
  simp only [copyBytes]
  rw [if_pos ⟨by omega, by omega⟩, Nat.add_sub_cancel_left]

theorem copyBytes_outside {dst src : Mem} {offset start n i : Nat}
    (h : i < offset ∨ offset + n ≤ i) : copyBytes dst offset src start n i = dst i := by
  simp only [copyBytes]
  rw [if_neg (by omega)]

theorem fillBytes_outside {dst : Mem} {offset n i : Nat} {value : UInt8}
    (h : i < offset ∨ offset + n ≤ i) : fillBytes dst offset n value i = dst i := by
  simp only [fillBytes]
  rw [if_neg (by omega)]

theorem putLE_outside {m : Mem} {offset n w i : Nat} (h : i < offset ∨ offset + n ≤ i) :
    putLE m offset n w i = m i := by
  simp only [putLE]
  rw [if_neg (by omega)]

theorem getLE_congr {m m' : Mem} {a b n : Nat} (same : ∀ i < n, m (a + i) = m' (b + i)) :
    getLE m a n = getLE m' b n := by
  induction n with
  | zero => rfl
  | succ n ih =>
      simp only [getLE]
      rw [ih fun i h => same i (by omega), same n (by omega)]

theorem getLE_lt (m : Mem) (a n : Nat) : getLE m a n < 256 ^ n := by
  induction n with
  | zero => simp [getLE]
  | succ n ih =>
      have byte : (m (a + n)).toNat < 256 := (m (a + n)).toNat_lt
      have scaled : (m (a + n)).toNat * 256 ^ n ≤ 255 * 256 ^ n :=
        Nat.mul_le_mul_right _ (by omega)
      simp only [getLE, Nat.pow_succ]
      omega

theorem getLE_putLE_le (m : Mem) (a w : Nat) {k n : Nat} (le : k ≤ n) :
    getLE (putLE m a n w) a k = w % 256 ^ k := by
  induction k with
  | zero => simp [getLE, Nat.mod_one]
  | succ k ih =>
      have byte : putLE m a n w (a + k) = leByte w k := by
        simp only [putLE]
        rw [if_pos ⟨by omega, by omega⟩, Nat.add_sub_cancel_left]
      have digit : (leByte w k).toNat = w / 256 ^ k % 256 := UInt8.toNat_ofNat'
      rw [getLE, ih (by omega), byte, digit, Nat.mod_pow_succ, Nat.mul_comm]

/-- A stored word is read back modulo its width. -/
theorem getLE_putLE (m : Mem) (a n w : Nat) : getLE (putLE m a n w) a n = w % 256 ^ n :=
  getLE_putLE_le m a w le_rfl

theorem getLE_putLE_of_lt (m : Mem) {a n w : Nat} (fits : w < 256 ^ n) :
    getLE (putLE m a n w) a n = w := by
  rw [getLE_putLE, Nat.mod_eq_of_lt fits]

/-- A word stored elsewhere does not change a read. -/
theorem getLE_putLE_disjoint (m : Mem) {a b k n w : Nat} (apart : a + k ≤ b ∨ b + n ≤ a) :
    getLE (putLE m b n w) a k = getLE m a k :=
  getLE_congr fun i h => putLE_outside (by omega)

end FpgaSsd.Lib
