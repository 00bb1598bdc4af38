/-
# Theory.Names — the names of ids, there and back

`idtochar` writes the 32 digits of an id from the right, `char2id` reads 32 digits from the
left, in either case.

* `char2id_toUpper` — the case of the digits does not matter to `char2id`;
* `exists_hexName` — every row of 32 upper-case digits is the name of an id;
* `names_round_trip` — an id is read back from its name, and a name is written back in upper case.
-/
import FpgaSsd.Theory.Collect

namespace FpgaSsd.Theory

open FpgaSsd.Lib FpgaSsd.Driver FpgaSsd.Api FpgaSsd.Tools

set_option autoImplicit false

/-! ## Digits -/

/-- The digits `a` to `f`. -/
def lowerHex : List UInt8 := [97, 98, 99, 100, 101, 102]

/-- A hexadecimal digit in either case. -/
def IsHexDigit (c : UInt8) : Prop := c ∈ upperHex ++ lowerHex

/-- `toupper` on letters without accents. -/
def toUpper (c : UInt8) : UInt8 := if 97 ≤ c ∧ c ≤ 122 then c - 32 else c

section Digits

/-- An upper-case digit stands for its index. -/
theorem exists_value {c : UInt8} (digit : IsHexDigit c) : ∃ x < 16, upperHex.getD x 0 = toUpper c := by
  have each : ∀ c ∈ upperHex ++ lowerHex, ∃ x < 16, upperHex.getD x 0 = toUpper c := by decide +kernel
  exact each c digit

theorem char2idDigit_toUpper (sum : UInt64) {c : UInt8} (digit : IsHexDigit c) :
    char2idDigit sum (toUpper c) = char2idDigit sum c := by
  rcases List.mem_append.1 digit with upper | lower
  · have same : ∀ c ∈ upperHex, toUpper c = c := by decide +kernel
    rw [same c upper]
  · simp only [lowerHex, List.mem_cons, List.not_mem_nil, or_false] at lower
    rcases lower with rfl | rfl | rfl | rfl | rfl | rfl <;> simp [char2idDigit, charValue, toUpper] <;> grind

variable {str : List UInt8}

theorem getD_map_toUpper {k : Nat} (inside : k < str.length) : (str.map toUpper).getD k 0 = toUpper (str.getD k 0) := by
  simp [List.getD_eq_getElem?_getD, List.getElem?_map, List.getElem?_eq_getElem inside]

theorem getD_isHexDigit (digits : ∀ c ∈ str, IsHexDigit c) {k : Nat} (inside : k < str.length) :
    IsHexDigit (str.getD k 0) := by
  rw [List.getD_eq_getElem?_getD, List.getElem?_eq_getElem inside]
  exact digits _ (List.getElem_mem inside)

theorem char2idHalf_toUpper {start : Nat} (long : start + 16 ≤ str.length) (digits : ∀ c ∈ str, IsHexDigit c) :
    char2idHalf (str.map toUpper) start = char2idHalf str start := by
  unfold char2idHalf
  apply List.foldl_ext
  intro sum i member
  have inside := List.mem_range.1 member
  rw [getD_map_toUpper (by omega), char2idDigit_toUpper sum (getD_isHexDigit digits (by omega))]

/-- **The case does not matter.** -/
theorem char2id_toUpper (long : 32 ≤ str.length) (digits : ∀ c ∈ str, IsHexDigit c) :
    char2id (str.map toUpper) = char2id str := by
  rw [char2id, char2id, char2idHalf_toUpper (by omega) digits, char2idHalf_toUpper (by omega) digits]

end Digits

/-! ## Numbers -/

/-- Any `n` digits are those of a number. -/
theorem exists_number (n : Nat) (v : Nat → Nat) (digits : ∀ k < n, v k < 16) :
    ∃ m < 16 ^ n, ∀ k < n, m / 16 ^ (n - 1 - k) % 16 = v k := by
  induction n with
  | zero => exact ⟨0, by decide, fun k no => absurd no (Nat.not_lt_zero k)⟩
  | succ n ih =>
      obtain ⟨m, small, before⟩ := ih fun k less => digits k (by omega)
      have last := digits n (Nat.lt_succ_self n)
      refine ⟨m * 16 + v n, ?_, fun k less => ?_⟩
      · rw [Nat.pow_succ]
        omega
      · by_cases new : k = n
        · subst new
          rw [Nat.add_sub_cancel, Nat.sub_self, Nat.pow_zero, Nat.div_one]
          omega
        · have shift : n + 1 - 1 - k = (n - 1 - k) + 1 := by omega
          have tail : (m * 16 + v n) / 16 = m := by omega
          rw [shift, Nat.pow_succ', ← Nat.div_div_eq_div_mul, tail]
          exact before k (by omega)

theorem exists_idNumber {m : Nat} (small : m < 16 ^ 32) : ∃ id, idNumber id = m := by
  refine ⟨⟨.ofNat (m % 2 ^ 64), .ofNat (m / 2 ^ 64)⟩, ?_⟩
  have half : m / 2 ^ 64 < 2 ^ 64 := by omega
  have high : (UInt64.ofNat (m / 2 ^ 64)).toNat = m / 2 ^ 64 := UInt64.toNat_ofNat_of_lt' half
  have low : (UInt64.ofNat (m % 2 ^ 64)).toNat = m % 2 ^ 64 := UInt64.toNat_ofNat_of_lt' (Nat.mod_lt m (by decide))
  rw [idNumber, high, low]
  omega

/-- Every row of 32 digits is a name. -/
theorem exists_hexName {str : List UInt8} (length : str.length = 32) (digits : ∀ c ∈ str, IsHexDigit c) :
    ∃ id, hexName (idNumber id) = str.map toUpper := by
  have values : ∀ k, ∃ x, k < 32 → x < 16 ∧ upperHex.getD x 0 = toUpper (str.getD k 0) := by
    intro k
    by_cases inside : k < 32
    · obtain ⟨x, less, value⟩ := exists_value (getD_isHexDigit digits (by rwa [length]))
      exact ⟨x, fun _ => ⟨less, value⟩⟩
    · exact ⟨0, fun less => absurd less inside⟩
  choose v spec using values
  obtain ⟨m, small, number⟩ := exists_number 32 v fun k less => (spec k less).1
  obtain ⟨id, same⟩ := exists_idNumber small
  refine ⟨id, List.ext_getElem (by simp [hexName, length]) fun k inside inside' => ?_⟩
  have less : k < 32 := by simpa [hexName] using inside
  have digit := (spec k less).2
  rw [← number k less, ← same] at digit
  simp only [hexName, List.getElem_map, List.getElem_range]
  rw [digit, List.getD_eq_getElem?_getD, List.getElem?_eq_getElem (by omega)]
  rfl

/-- **Names round-trip**, whatever the buffer held before. -/
theorem names_round_trip (pbuf : Mem) :
    (∀ id, char2id ((List.range 32).map (idtochar pbuf id)) = id) ∧
    ∀ str : List UInt8, str.length = 32 → (∀ c ∈ str, IsHexDigit c) →
      (List.range 32).map (idtochar pbuf (char2id str)) = str.map toUpper := by
  constructor
  · intro id
    rw [range_idtochar]
    exact char2id_hexName id
  · intro str length digits
    obtain ⟨id, name⟩ := exists_hexName length digits
    have read : char2id str = id := by
      rw [← char2id_toUpper (Nat.le_of_eq length.symm) digits, ← name]
      exact char2id_hexName id
    rw [range_idtochar, read]
    exact name

end FpgaSsd.Theory
