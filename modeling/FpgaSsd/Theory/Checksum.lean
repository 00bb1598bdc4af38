/-
# Theory.Checksum — the checksums agree

Every checksum of `bhp-lib.h` feeds the bits of its bytes, the lowest first, to one register.

* `baiduCrc32Byte_feeds`, `baiduCrc32Qw_feeds`, `crc32cSw_feeds` — bytes, words, the table;
* `Power` — a constant whose product with a register is `n` shifts of the register;
* `mod2_power` — the constants of `mod2` are such from 32 shifts on; before, they are 0;
* `pipelined_is_plain` — three lanes compute what the table does;
* `mergeHolds_iff` — when the checksum of a whole is the one of its parts.
-/
import FpgaSsd.Api.BhpLib
import Mathlib.Data.Nat.Bitwise
import Mathlib.Tactic.Ring

namespace FpgaSsd.Theory

open FpgaSsd.Lib FpgaSsd.Api

set_option autoImplicit false

/-! ## Bytes -/

/-- Bit `i` of the bytes from `src` on. -/
def bytesBit (m : Mem) (src i : Nat) : Bool := (m (src + i / 8)).toNat.testBit (i % 8)

/-- The register behind `n` bytes. -/
def feedBytes (m : Mem) (src n : Nat) (crc : BitVec 32) : BitVec 32 :=
  crcFeed crc32cPoly (bytesBit m src) (8 * n) crc

section Bytes

variable {m : Mem} {src : Nat} {crc : BitVec 32}

theorem feedBytes_add (k l : Nat) :
    feedBytes m src (k + l) crc = feedBytes m (src + k) l (feedBytes m src k crc) := by
  unfold feedBytes
  rw [Nat.mul_add, crcFeed_add]
  apply crcFeed_congr
  intro i _
  unfold bytesBit
  rw [show src + (8 * k + i) / 8 = src + k + i / 8 by omega, show (8 * k + i) % 8 = i % 8 by omega]

theorem feedBytes_one : feedBytes m src 1 crc = crc32 8 crc (m src).toNat := by
  unfold feedBytes crc32
  apply crcFeed_congr
  intro i small
  unfold bytesBit
  rw [show src + i / 8 = src by omega, Nat.mod_eq_of_lt small]

theorem baiduCrc32Byte_feeds (n : Nat) : baiduCrc32Byte m src crc n = feedBytes m src n crc := by
  induction n generalizing src crc with
  | zero => rfl
  | succ n ih => rw [baiduCrc32Byte, ih, Nat.add_comm n 1, feedBytes_add, feedBytes_one]

/-- The bits of a word are those of its bytes. -/
theorem testBit_getLE (n i : Nat) (small : i < 8 * n) : (getLE m src n).testBit i = bytesBit m src i := by
  induction n with
  | zero => omega
  | succ n ih =>
      have low : getLE m src n < 2 ^ (8 * n) := by
        have := getLE_lt m src n
        rwa [show (256 : Nat) = 2 ^ 8 from rfl, ← Nat.pow_mul] at this
      rw [getLE, show (256 : Nat) = 2 ^ 8 from rfl, ← Nat.pow_mul, Nat.add_comm, Nat.mul_comm,
        Nat.testBit_two_pow_mul_add _ low]
      split
      · rename_i before
        exact ih before
      · unfold bytesBit
        rw [show src + i / 8 = src + n by omega, show i - 8 * n = i % 8 by omega]

theorem crc32_getLE : crc32 64 crc (getLE m src 8) = feedBytes m src 8 crc := by
  unfold crc32 feedBytes
  exact crcFeed_congr _ (fun i small => testBit_getLE 8 i small) _

theorem crc32cQw_feeds (n : Nat) : crc32cQw m src crc n = feedBytes m src (8 * n) crc := by
  induction n generalizing src crc with
  | zero => rfl
  | succ n ih => rw [crc32cQw, ih, crc32_getLE, Nat.mul_succ, Nat.add_comm (8 * n) 8, feedBytes_add]

theorem baiduCrc32Qw_feeds (length : Nat) : baiduCrc32Qw m src crc length = feedBytes m src length crc := by
  have words : (if length / 8 ≠ 0 then crc32cQw m src crc (length / 8) else crc) =
      feedBytes m src (8 * (length / 8)) crc := by
    split
    · exact crc32cQw_feeds _
    · rename_i none
      rw [Classical.not_not.1 none]
      rfl
  have split_at : feedBytes m src length crc =
      feedBytes m (src + 8 * (length / 8)) (length % 8) (feedBytes m src (8 * (length / 8)) crc) := by
    rw [← feedBytes_add, Nat.div_add_mod]
  simp only [baiduCrc32Qw]
  rw [words, split_at]
  split
  · rw [baiduCrc32Byte_feeds, show length - length % 8 = 8 * (length / 8) by omega]
  · rename_i none
    rw [Classical.not_not.1 none]
    rfl

end Bytes

/-! ## The table -/

/-- Two registers with the same value wherever the polynomial vanishes are the same. -/
theorem eq_of_reflected {a b : BitVec 32}
    (same : ∀ (R : Type) [CommRing R] [Algebra (ZMod 2) R] (x : R), x ^ 32 = reflected x crc32cPoly →
      reflected x a = reflected x b) : a = b := by
  obtain ⟨R, ring, algebra, x, root, known⟩ := remainders crc32cPoly
  exact known a b (same R x root)

theorem crc32_byte (s : BitVec 32) (b : Nat) :
    crc32 8 s b = crc32 8 0 ((s.toNat ^^^ b) % 256) ^^^ s >>> 8 := by
  apply eq_of_reflected
  intro R _ _ x root
  have bits : ∀ i ∈ Finset.range 8, bitCoeff (((s.toNat ^^^ b) % 256).testBit i) • x ^ (8 - 1 - i) =
      bitCoeff (s.getLsbD i) • x ^ (8 - 1 - i) + bitCoeff (b.testBit i) • x ^ (8 - 1 - i) := by
    intro i inside
    have low : ((s.toNat ^^^ b) % 2 ^ 8).testBit i = (s.getLsbD i ^^ b.testBit i) := by
      rw [Nat.testBit_mod_two_pow, decide_eq_true (Finset.mem_range.1 inside), Bool.true_and, Nat.testBit_xor]
      rfl
    rw [show (256 : Nat) = 2 ^ 8 from rfl, low, bitCoeff_xor, add_smul]
  unfold crc32
  rw [reflected_xor, reflected_crcFeed root, reflected_crcFeed_empty root, reflected_shiftRight,
    Finset.sum_congr rfl bits, Finset.sum_add_distrib]
  ring

theorem crc32cTable_eq : crc32cTable = (List.range 256).map (crc32 8 0) := by decide +kernel

theorem crc32cSw_feeds {m : Mem} (n : Nat) {data : Nat} {crc : BitVec 32} :
    crc32cSw crc m data n = feedBytes m data n crc := by
  induction n generalizing data crc with
  | zero => rfl
  | succ n ih =>
      have entry : crc32cTable.getD ((crc.toNat ^^^ (m data).toNat) % 256) 0 =
          crc32 8 0 ((crc.toNat ^^^ (m data).toNat) % 256) := by
        rw [crc32cTable_eq, List.getD_eq_getElem?_getD, List.getElem?_map,
          List.getElem?_range (Nat.mod_lt _ (by decide))]
        rfl
      rw [crc32cSw, ih, entry, ← crc32_byte, Nat.add_comm n 1, feedBytes_add, feedBytes_one]

/-! ## Products -/

section Products

variable {R : Type} [CommRing R] [Algebra (ZMod 2) R] {x : R} {n : Nat} {k : BitVec 64}

/-- A constant whose product with a register, reduced, is `n` shifts of the register. -/
structure Power (x : R) (n : Nat) (k : BitVec 64) : Prop where
  short : ∀ j ≥ 33, k.getLsbD j = false
  value : weigh k (fun j => x ^ (64 - j)) = x ^ n

/-- A sum over the bits of the constant has no other terms. -/
theorem weigh_short (short : ∀ j ≥ 33, k.getLsbD j = false) (weight : Nat → R) {l : Nat} (large : 33 ≤ l) :
    ∑ j ∈ Finset.range l, bitCoeff (k.getLsbD j) • weight j =
      ∑ j ∈ Finset.range 33, bitCoeff (k.getLsbD j) • weight j := by
  obtain ⟨more, rfl⟩ := Nat.exists_eq_add_of_le large
  rw [Finset.sum_range_add, Finset.sum_eq_zero (s := Finset.range more), add_zero]
  intro j _
  rw [short _ (by omega)]
  simp [bitCoeff]

theorem Power.shifted (power : Power x n k) {i : Nat} (small : i < 32) :
    x ^ 32 * reflected x (k <<< i) = x ^ (31 - i) * x ^ n := by
  have placed : reflected x (k <<< i) = ∑ j ∈ Finset.range 33, bitCoeff (k.getLsbD j) • x ^ (63 - i - j) := by
    have cut (f : Nat → R) : ∑ j ∈ Finset.range 64, f j =
        ∑ j ∈ Finset.range i, f j + ∑ j ∈ Finset.range (64 - i), f (i + j) := by
      rw [← Finset.sum_range_add, Nat.add_sub_cancel' (by omega)]
    unfold reflected weigh
    rw [cut, Finset.sum_eq_zero, zero_add, ← weigh_short power.short _ (show 33 ≤ 64 - i by omega)]
    · apply Finset.sum_congr rfl
      intro j inside
      have := Finset.mem_range.1 inside
      rw [BitVec.getLsbD_shiftLeft, decide_eq_true (show i + j < 64 by omega),
        decide_eq_false (show ¬ i + j < i by omega),
        Nat.add_sub_cancel_left, show 63 - i - j = 64 - 1 - (i + j) by omega]
      rfl
    · intro j inside
      have := Finset.mem_range.1 inside
      rw [BitVec.getLsbD_shiftLeft, decide_eq_true this]
      simp [bitCoeff]
  have value := power.value
  unfold weigh at value
  rw [weigh_short power.short _ (by decide)] at value
  rw [placed, ← value, Finset.mul_sum, Finset.mul_sum]
  apply Finset.sum_congr rfl
  intro j inside
  have := Finset.mem_range.1 inside
  rw [mul_smul_comm, mul_smul_comm, ← pow_add, ← pow_add, show 32 + (63 - i - j) = 31 - i + (64 - j) by omega]

/-- One entry of the table, in its place. -/
theorem genTable_term (crc : BitVec 64) (i j : Nat) (small : j < 8) :
    (BitVec.ofNat 64 (crc.toNat / 2 ^ (8 * i) % 256 &&& 2 ^ j) * k) <<< (8 * i) =
      if crc.getLsbD (8 * i + j) then k <<< (8 * i + j) else 0 := by
  have bit : (crc.toNat / 2 ^ (8 * i) % 256).testBit j = crc.getLsbD (8 * i + j) := by
    rw [show (256 : Nat) = 2 ^ 8 from rfl, Nat.testBit_mod_two_pow, decide_eq_true small, Bool.true_and,
      Nat.testBit_div_two_pow, Nat.add_comm]
    rfl
  rw [Nat.and_two_pow, bit]
  cases crc.getLsbD (8 * i + j) with
  | false => simp
  | true =>
      have power : BitVec.ofNat 64 (2 ^ j) = BitVec.twoPow 64 j := by
        apply BitVec.eq_of_toNat_eq
        simp [BitVec.toNat_twoPow]
      rw [Bool.toNat_true, Nat.one_mul, power, BitVec.twoPow_mul_eq_shiftLeft, ← BitVec.shiftLeft_add,
        Nat.add_comm j, if_pos rfl]

omit [Algebra (ZMod 2) R] in
theorem sum_octets (g : Nat → R) (a : Nat) :
    ∑ i ∈ Finset.range a, ∑ j ∈ Finset.range 8, g (8 * i + j) = ∑ i ∈ Finset.range (8 * a), g i := by
  induction a with
  | zero => rfl
  | succ a ih => rw [Finset.sum_range_succ, ih, Nat.mul_succ, Finset.sum_range_add]

theorem reflected_pclmulLut (crc : BitVec 64) :
    reflected x (pclmulLut crc (genTable k)) =
      ∑ i ∈ Finset.range 64, bitCoeff (crc.getLsbD i) • reflected x (k <<< i) := by
  unfold pclmulLut
  rw [sum_of_xor (reflected x) (reflected_zero x) (reflected_xor x), ← sum_octets _ 8]
  apply Finset.sum_congr rfl
  intro i _
  unfold genTable
  rw [sum_of_xor fun w => reflected x (w <<< (8 * i))]
  · apply Finset.sum_congr rfl
    intro j inside
    rw [genTable_term crc i j (Finset.mem_range.1 inside)]
    cases crc.getLsbD (8 * i + j) with
    | false => simp [bitCoeff]
    | true => simp [bitCoeff]
  · simp
  · intro a b
    rw [BitVec.shiftLeft_xor_distrib, reflected_xor]

/-- **The product of a lane**: with the power `n`, what `n` shifts make of the lane. -/
theorem Power.foldLane (power : Power x n k) (root : x ^ 32 = reflected x crc32cPoly) (lane : BitVec 32) :
    reflected x (foldLane (genTable k) lane) = x ^ n * reflected x lane := by
  have reduced (w : BitVec 64) : reflected x (crc32 64 0 w.toNat) = x ^ 32 * reflected x w := by
    unfold crc32
    rw [reflected_crcFeed_empty root]
    rfl
  have high : ∑ i ∈ Finset.range 32,
      bitCoeff ((lane.setWidth 64).getLsbD (32 + i)) • reflected x (k <<< (32 + i)) = 0 := by
    apply Finset.sum_eq_zero
    intro i _
    rw [BitVec.getLsbD_setWidth, BitVec.getLsbD_of_ge lane _ (by omega)]
    simp [bitCoeff]
  unfold Api.foldLane
  rw [reduced, reflected_pclmulLut, Finset.sum_range_add _ 32 32, high, add_zero, Finset.mul_sum]
  unfold reflected weigh
  rw [Finset.mul_sum]
  apply Finset.sum_congr rfl
  intro i inside
  have small := Finset.mem_range.1 inside
  have bit : (lane.setWidth 64).getLsbD i = lane.getLsbD i := by
    rw [BitVec.getLsbD_setWidth, decide_eq_true (by omega), Bool.true_and]
  have shifted := power.shifted small
  unfold reflected weigh at shifted
  rw [bit, mul_smul_comm, mul_smul_comm, shifted, mul_comm]

end Products

/-! ## Constants -/

/-- The register of `mod2` after `n` shifts; its polynomial is `POL` at the upper end. -/
abbrev regPol : BitVec 64 := crcPol <<< 31

def regShifted (n : Nat) : BitVec 64 := (mod2Round regPol)^[n] 1

theorem regShifted_succ (n : Nat) : regShifted (n + 1) = mod2Round regPol (regShifted n) :=
  Function.iterate_succ_apply' ..

theorem mod2_eq (n : Nat) : mod2 1 crcPol 33 n = mod2Step2 (regShifted n) := rfl

section Registers

variable {R : Type} [CommRing R] [Algebra (ZMod 2) R] {x : R}

theorem straight_regPol (root : x ^ 32 = reflected x crc32cPoly) : straight x regPol = 0 := by
  have low : ∀ i < 31, regPol.getLsbD i = false := by decide
  have high : ∀ i < 32, regPol.getLsbD (31 + (32 - 1 - i)) = crc32cPoly.getLsbD i := by decide
  have top : regPol.getLsbD (31 + 32) = true := by decide
  have tail : ∑ i ∈ Finset.range 32, bitCoeff (regPol.getLsbD (31 + i)) • x ^ (31 + i) = x ^ 31 * x ^ 32 := by
    rw [root, reflected, weigh, ← Finset.sum_range_reflect, Finset.mul_sum]
    apply Finset.sum_congr rfl
    intro i inside
    have small := Finset.mem_range.1 inside
    rw [high i small, mul_smul_comm, ← pow_add]
  unfold straight weigh
  rw [Finset.sum_range_add _ 31 33, Finset.sum_eq_zero, zero_add, Finset.sum_range_succ, tail, top, ← pow_add]
  · simp [bitCoeff, add_self_zero]
  · intro i inside
    rw [low i (Finset.mem_range.1 inside)]
    simp [bitCoeff]

theorem straight_mod2Round (root : x ^ 32 = reflected x crc32cPoly) (r : BitVec 64) :
    straight x (mod2Round regPol r) = x * straight x r := by
  unfold mod2Round
  cases msb : r.msb with
  | false =>
      rw [if_neg (by decide)]
      exact straight_shiftLeft x msb
  | true =>
      have reduced : (r ^^^ regPol).msb = false := by
        rw [BitVec.msb_xor, msb]
        decide
      rw [if_pos rfl, straight_shiftLeft x reduced, straight_xor, straight_regPol root, add_zero]

theorem straight_regShifted (root : x ^ 32 = reflected x crc32cPoly) (n : Nat) :
    straight x (regShifted n) = x ^ n := by
  induction n with
  | zero =>
      unfold straight weigh
      rw [Finset.sum_range_succ']
      simp [regShifted, BitVec.getLsbD_one, bitCoeff]
  | succ n ih => rw [regShifted_succ, straight_mod2Round root, ih, pow_succ']

end Registers

/-- The lower half of the register is empty as soon as the first bit has left it. -/
theorem regShifted_low (n i : Nat) (below : i < 32) (passed : i < n) : (regShifted n).getLsbD i = false := by
  have low : ∀ j < 31, regPol.getLsbD j = false := by decide
  induction n generalizing i with
  | zero => omega
  | succ n ih =>
      rw [regShifted_succ, mod2Round, BitVec.getLsbD_shiftLeft]
      by_cases first : i < 1
      · simp [first]
      · have before := ih (i - 1) (by omega) (by omega)
        split
        · rw [BitVec.getLsbD_xor, before, low _ (by omega)]
          simp
        · rw [before]
          simp

/-- Up to there it holds the one bit. -/
theorem regShifted_early {n : Nat} (early : n < 64) : regShifted n = 1#64 <<< n := by
  induction n with
  | zero => rfl
  | succ n ih =>
      have msb : (1#64 <<< n).msb = false := by
        rw [BitVec.msb_eq_getLsbD_last, BitVec.getLsbD_shiftLeft, BitVec.getLsbD_one]
        simp
        omega
      rw [regShifted_succ, ih (by omega), mod2Round, msb, if_neg (by decide), BitVec.shiftLeft_add]

theorem getLsbD_reflect (w : BitVec 64) (i : Nat) :
    (reflect w 64).getLsbD i = (decide (i < 64) && w.getLsbD (63 - i)) := by
  have first (n : Nat) (small : n ≤ 64) : ((List.range n).foldl
      (fun out k => if w.getLsbD (64 - 1 - k) then out ||| 1#64 <<< k else out) 0).getLsbD i =
      (decide (i < n) && w.getLsbD (63 - i)) := by
    induction n with
    | zero => simp
    | succ n ih =>
        have one : (1#64 <<< n).getLsbD i = decide (i = n) := by
          rw [BitVec.getLsbD_shiftLeft, BitVec.getLsbD_one]
          grind
        rw [List.range_succ, List.foldl_append, List.foldl_cons, List.foldl_nil]
        cases bit : w.getLsbD (64 - 1 - n) with
        | false =>
            rw [if_neg (by decide), ih (by omega)]
            by_cases last : i = n
            · rw [last, show 63 - n = 64 - 1 - n by omega, bit, Bool.and_false, Bool.and_false]
            · simp only [show (i < n + 1) ↔ (i < n) by omega]
        | true =>
            rw [if_pos rfl, BitVec.getLsbD_or, ih (by omega), one]
            by_cases last : i = n
            · rw [last, show 63 - n = 64 - 1 - n by omega, bit]
              simp
            · simp only [last, decide_false, Bool.or_false, show (i < n + 1) ↔ (i < n) by omega]
  exact first 64 (by decide)

theorem getLsbD_mod2Step2 (w : BitVec 64) (j : Nat) :
    (mod2Step2 w).getLsbD j = (decide (0 < j ∧ j < 33) && w.getLsbD (64 - j)) := by
  unfold mod2Step2
  rw [BitVec.getLsbD_shiftLeft, getLsbD_reflect, BitVec.getLsbD_shiftLeft, BitVec.getLsbD_ushiftRight]
  by_cases inside : 0 < j ∧ j < 33
  · simp only [inside, show j < 64 by omega, show ¬ j < 1 by omega, show j - 1 < 64 by omega,
      show 63 - (j - 1) < 64 by omega, show ¬ 63 - (j - 1) < 32 by omega,
      show 32 + (63 - (j - 1) - 32) = 64 - j by omega, decide_true, decide_false, Bool.not_false,
        Bool.true_and, and_self]
  · simp only [inside, decide_false, Bool.false_and]
    by_cases low : j < 1
    · simp [low]
    · by_cases high : j < 64
      · simp [show 63 - (j - 1) < 32 by omega]
      · simp [high]

/-- **The constants of `mod2`** are powers from 32 shifts on. -/
theorem mod2_power {R : Type} [CommRing R] [Algebra (ZMod 2) R] {x : R}
    (root : x ^ 32 = reflected x crc32cPoly) {n : Nat} (enough : 32 ≤ n) : Power x n (mod2 1 crcPol 33 n) := by
  constructor
  · intro j large
    rw [mod2_eq, getLsbD_mod2Step2, decide_eq_false (by omega), Bool.false_and]
  · have mirrored : ∀ j ∈ Finset.range 65, bitCoeff ((mod2 1 crcPol 33 n).getLsbD j) • x ^ (64 - j) =
        bitCoeff ((regShifted n).getLsbD (65 - 1 - j)) • x ^ (65 - 1 - j) := by
      intro j inside
      have small := Finset.mem_range.1 inside
      rw [mod2_eq, getLsbD_mod2Step2]
      by_cases kept : 0 < j ∧ j < 33
      · rw [decide_eq_true kept, Bool.true_and]
      · have empty : (regShifted n).getLsbD (65 - 1 - j) = false := by
          by_cases zero : j = 0
          · exact BitVec.getLsbD_of_ge _ _ (by omega)
          · exact regShifted_low n _ (by omega) (by omega)
        rw [decide_eq_false kept, empty, Bool.false_and]
    have outer (w : BitVec 64) (weight : Nat → R) :
        weigh w weight = ∑ j ∈ Finset.range 65, bitCoeff (w.getLsbD j) • weight j := by
      rw [Finset.sum_range_succ, BitVec.getLsbD_of_ge w 64 le_rfl]
      simp [weigh, bitCoeff]
    rw [outer, Finset.sum_congr rfl mirrored,
      Finset.sum_range_reflect (fun j => bitCoeff ((regShifted n).getLsbD j) • x ^ j), ← outer _ fun j => x ^ j]
    exact straight_regShifted root n

/-- Before, the shifted bit is in the half that is dropped. -/
theorem mod2_early {n : Nat} (early : n < 32) : mod2 1 crcPol 33 n = 0 := by
  apply BitVec.eq_of_getLsbD_eq
  intro j _
  rw [mod2_eq, getLsbD_mod2Step2, regShifted_early (by omega), BitVec.getLsbD_shiftLeft, BitVec.getLsbD_one]
  by_cases kept : 0 < j ∧ j < 33
  · simp [show ¬ 64 - j - n = 0 by omega]
  · simp [kept]

/-! ## Three lanes -/

section Lanes

theorem reflected_feedBytes {R : Type} [CommRing R] [Algebra (ZMod 2) R] {x : R}
    (root : x ^ 32 = reflected x crc32cPoly) (m : Mem) (src n : Nat) (crc : BitVec 32) :
    reflected x (feedBytes m src n crc) = x ^ (8 * n) * reflected x crc + reflected x (feedBytes m src n 0) := by
  unfold feedBytes
  rw [crcFeed_split, reflected_xor, reflected_shifts root]

variable {m : Mem} {src : Nat} {crc : BitVec 32}

theorem pipelineLanes_eq : pipelineLanes m src crc =
    (feedBytes m src 1024 crc, feedBytes m (src + 1024) 1024 0, feedBytes m (src + 2048) 1024 0) := by
  have first (n : Nat) : (List.range n).foldl (fun (lanes : BitVec 32 × BitVec 32 × BitVec 32) k =>
      (crc32 64 lanes.1 (getLE m (src + 8 * k) 8), crc32 64 lanes.2.1 (getLE m (src + 8 * k + 1024) 8),
        crc32 64 lanes.2.2 (getLE m (src + 8 * k + 2048) 8))) (crc, 0, 0) =
      (feedBytes m src (8 * n) crc, feedBytes m (src + 1024) (8 * n) 0, feedBytes m (src + 2048) (8 * n) 0) := by
    induction n with
    | zero => rfl
    | succ n ih =>
        rw [List.range_succ, List.foldl_append, ih, Nat.mul_succ, feedBytes_add, feedBytes_add, feedBytes_add]
        simp only [List.foldl_cons, List.foldl_nil, crc32_getLE]
        rw [show src + 8 * n + 1024 = src + 1024 + 8 * n by omega,
          show src + 8 * n + 2048 = src + 2048 + 8 * n by omega]
  exact first 128

/-- **One round of the pipeline** is 3072 bytes. -/
theorem crc32cQwPipeline_feeds : crc32cQwPipeline m src crc ssdCrcTable = feedBytes m src 3072 crc := by
  apply eq_of_reflected
  intro R _ _ x root
  have power : Power x 8192 (mod2 crcData crcPol crcPolyBit crcDataBit) :=
    mod2_power (n := 8192) root (by decide)
  have whole : feedBytes m src 3072 crc =
      feedBytes m (src + 2048) 1024 (feedBytes m (src + 1024) 1024 (feedBytes m src 1024 crc)) := by
    rw [← feedBytes_add 1024 1024, ← feedBytes_add 1024 2048]
  have third := reflected_feedBytes root m (src + 2048) 1024
    (feedBytes m (src + 1024) 1024 (feedBytes m src 1024 crc))
  have second := reflected_feedBytes root m (src + 1024) 1024 (feedBytes m src 1024 crc)
  unfold crc32cQwPipeline ssdCrcTable
  rw [pipelineLanes_eq, whole, third, second]
  simp only [reflected_xor, power.foldLane root]

theorem fastFrom_feeds {length i : Nat} (inside : i ≤ length) :
    fastFrom m src length ssdCrcTable i crc = feedBytes m (src + i) (length - i) crc := by
  fun_induction fastFrom m src length ssdCrcTable i crc with
  | case1 i crc done =>
      rw [done]
      rfl
  | case2 i crc more enough ih =>
      rw [ih (by omega), crc32cQwPipeline_feeds, ← Nat.add_assoc, ← feedBytes_add,
        show 3072 + (length - (i + 3072)) = length - i by omega]
  | case3 i crc more few => exact baiduCrc32Qw_feeds _

theorem baiduCrc32Fast_feeds (length : Nat) :
    baiduCrc32Fast m src crc length ssdCrcTable = feedBytes m src length crc :=
  fastFrom_feeds (Nat.zero_le _)

end Lanes

/-- **The pipelined checksum is the plain one**: over any bytes, from any start. -/
theorem pipelined_is_plain (m : Mem) (src : Nat) (crc : BitVec 32) (length : Nat) :
    baiduCrc32Fast m src crc length ssdCrcTable = crc32cSw crc m src length := by
  rw [baiduCrc32Fast_feeds, crc32cSw_feeds]

/-! ## Two parts -/

/-- A byte string in memory. -/
def bytesOf (bytes : List UInt8) : Mem := fun i => bytes.getD i 0

/-- The checksum of a byte string. -/
def checksum (bytes : List UInt8) : BitVec 32 := baiduCrc32Qw (bytesOf bytes) 0 0 bytes.length

/-- The checksum of two parts, by either function, is the one of the whole. -/
def MergeHolds (a b : List UInt8) : Prop :=
  mergeChecksum (checksum a) (checksum b) b.length = checksum (a ++ b) ∧
    ∀ tableK, mergeChecksumLut (checksum a) (checksum b) b.length (genK b.length tableK) =
      mergeChecksum (checksum a) (checksum b) b.length

section Parts

variable {a b : List UInt8}

theorem mergeBy_eq (k : BitVec 64) (c1 c2 : BitVec 32) : mergeBy k c1 c2 = foldLane (genTable k) c1 ^^^ c2 := by
  unfold mergeBy foldLane
  have loaded (w : BitVec 64) : baiduCrc32Qw (wordBytes w) 0 0 8 = crc32 64 0 w.toNat := by
    rw [baiduCrc32Qw_feeds, ← crc32_getLE]
    unfold wordBytes
    rw [getLE_putLE_of_lt _ w.isLt]
  simp only [loaded]

theorem feedBytes_congr {m m' : Mem} {src src' n : Nat} {crc : BitVec 32}
    (same : ∀ i < n, m (src + i) = m' (src' + i)) : feedBytes m src n crc = feedBytes m' src' n crc := by
  unfold feedBytes
  apply crcFeed_congr
  intro i inside
  unfold bytesBit
  rw [same (i / 8) (by omega)]

theorem checksum_append : checksum (a ++ b) =
    crcFeed crc32cPoly (fun _ => false) (8 * b.length) (checksum a) ^^^ checksum b := by
  have front (crc : BitVec 32) : feedBytes (bytesOf (a ++ b)) 0 a.length crc =
      feedBytes (bytesOf a) 0 a.length crc := by
    apply feedBytes_congr
    intro i inside
    simp [bytesOf, List.getElem?_append_left inside]
  have back (crc : BitVec 32) :
      feedBytes (bytesOf (a ++ b)) (0 + a.length) b.length crc = feedBytes (bytesOf b) 0 b.length crc := by
    apply feedBytes_congr
    intro i _
    simp [bytesOf, List.getElem?_append_right]
  unfold checksum
  rw [baiduCrc32Qw_feeds, baiduCrc32Qw_feeds, baiduCrc32Qw_feeds, List.length_append, feedBytes_add, front, back]
  exact crcFeed_split ..

theorem mergeBy_append {n : Nat} (enough : 32 ≤ n) (bits : n = 8 * b.length) :
    mergeBy (mod2 1 crcPol 33 n) (checksum a) (checksum b) = checksum (a ++ b) := by
  rw [mergeBy_eq, checksum_append, ← bits]
  congr 1
  apply eq_of_reflected
  intro R _ _ x root
  rw [(mod2_power root enough).foldLane root, reflected_shifts root]

/-- The product with 0 forgets the first checksum. -/
theorem mergeBy_early {n : Nat} (early : n < 32) (c1 c2 : BitVec 32) : mergeBy (mod2 1 crcPol 33 n) c1 c2 = c2 := by
  have forgets : foldLane (genTable 0) c1 = 0 := by
    apply eq_of_reflected
    intro R _ _ x root
    unfold foldLane crc32
    have product : pclmulLut (c1.setWidth 64) (genTable 0) = 0 := by
      simp [pclmulLut, genTable]
    rw [product, reflected_crcFeed_empty root]
    simp [bitCoeff]
  rw [mergeBy_eq, mod2_early early, forgets]
  exact BitVec.zero_xor

theorem genK0_eq (i : Nat) : genK0 i = regShifted (8 * i) := by
  induction i with
  | zero => rfl
  | succ i ih =>
      rw [genK0, ih, Nat.mul_succ, Nat.add_comm (8 * i) 8]
      exact (Function.iterate_add_apply ..).symm

theorem genK_eq (len : Nat) (tableK : Nat → BitVec 64) : genK len tableK len = mod2 1 crcPol 33 (8 * len : Nat) := by
  rw [genK, if_pos le_rfl, genK0_eq, mod2_eq]

theorem mergeChecksum_eq {len : Nat} (short : 8 * len < 2 ^ 31) (c1 c2 : BitVec 32) :
    mergeChecksum c1 c2 len = mergeBy (mod2 1 crcPol 33 (8 * len : Nat)) c1 c2 := by
  have bits : Int.bmod (len * 8) (2 ^ 32) = (8 * len : Nat) := by
    simp only [Int.bmod]
    split <;> omega
  unfold mergeChecksum
  rw [bits]

/-- **Checksums of parts**: they merge to the one of the whole unless the second part is shorter than 4
bytes and the first checksum is not 0. -/
theorem mergeHolds_iff (a b : List UInt8) (short : 8 * b.length < 2 ^ 31) :
    MergeHolds a b ↔ 4 ≤ b.length ∨ checksum a = 0 := by
  have lut (tableK : Nat → BitVec 64) :
      mergeChecksumLut (checksum a) (checksum b) b.length (genK b.length tableK) =
        mergeChecksum (checksum a) (checksum b) b.length := by
    unfold mergeChecksumLut
    rw [genK_eq, mergeChecksum_eq short]
  have same : MergeHolds a b ↔ mergeChecksum (checksum a) (checksum b) b.length = checksum (a ++ b) := by
    constructor
    · intro holds
      exact holds.1
    · intro merged
      exact ⟨merged, lut⟩
  rw [same, mergeChecksum_eq short]
  by_cases enough : 4 ≤ b.length
  · have merged := mergeBy_append (a := a) (b := b) (show 32 ≤ 8 * b.length by omega) rfl
    exact ⟨fun _ => .inl enough, fun _ => merged⟩
  · rw [mergeBy_early (by omega), checksum_append]
    constructor
    · intro merged
      -- what the shifts make of the first checksum is missing, and only that of 0 is 0
      have nothing : crcFeed crc32cPoly (fun _ => false) (8 * b.length) (checksum a) = 0 := by
        have cancelled := congrArg (fun w => w ^^^ checksum b) merged
        simp only [BitVec.xor_assoc, BitVec.xor_self, BitVec.xor_zero] at cancelled
        exact cancelled.symm
      exact .inr (crcFeed_eq_zero crc32cPoly (by decide) nothing)
    · intro either
      have zero := either.resolve_left enough
      rw [zero, crcFeed_zero]
      exact (BitVec.zero_xor).symm

/-- Four bytes are enough. -/
theorem mergeHolds_four : MergeHolds [1] [1, 2, 3, 4] :=
  (mergeHolds_iff [1] [1, 2, 3, 4] (by decide)).2 (.inl (by decide))

/-- An empty second part loses the first one. -/
theorem empty_part_forgets : ¬ MergeHolds [1] [] := by
  intro holds
  exact absurd holds.1 (by decide +kernel)

end Parts

end FpgaSsd.Theory
