/-
# Lib.Crc — cyclic redundancy registers

A register of `n` bits that is shifted towards bit 0, with its polynomial in the same
order: bit `i` stands for the power `n - 1 - i`, and the leading power is left out.

* `crcStep`, `crcFeed` — one shift, and the shifts over a sequence of bits;
* `crcFeed_add` — the bits may come in any number of pieces;
* `weigh` — a word as a sum of weights in a module where two is zero;
* `reflected_crcFeed` — the register is a polynomial division: in a ring where the
  polynomial vanishes, a bit multiplies by the root and adds its leading power;
* `remainders` — there is such a ring, and a register is known from its value there.
-/
import Mathlib.RingTheory.AdjoinRoot
import Mathlib.Algebra.Field.ZMod
import Mathlib.Data.ZMod.Basic

namespace FpgaSsd.Lib

open Polynomial

set_option autoImplicit false

/-! ## The register -/

section Register

variable {n : Nat} (poly : BitVec n)

def crcStep (s : BitVec n) : BitVec n := if s.getLsbD 0 then (s >>> 1) ^^^ poly else s >>> 1

/-- Bit `i` of the register is flipped where the next bit of the input is 1. -/
def flipLow (b : Bool) (s : BitVec n) : BitVec n := if b then s ^^^ 1#n else s

/-- The bits `0`, …, `k - 1`, the first one first. -/
def crcFeed (bit : Nat → Bool) : Nat → BitVec n → BitVec n
  | 0, s => s
  | k + 1, s => crcStep poly (flipLow (bit k) (crcFeed bit k s))

theorem crcFeed_add (bit : Nat → Bool) (k l : Nat) (s : BitVec n) :
    crcFeed poly bit (k + l) s = crcFeed poly (fun i => bit (k + i)) l (crcFeed poly bit k s) := by
  induction l with
  | zero => rfl
  | succ l ih =>
      rw [← Nat.add_assoc, crcFeed, ih]
      rfl

theorem crcFeed_congr {bit bit' : Nat → Bool} {k : Nat} (same : ∀ i < k, bit i = bit' i) (s : BitVec n) :
    crcFeed poly bit k s = crcFeed poly bit' k s := by
  induction k with
  | zero => rfl
  | succ k ih =>
      simp only [crcFeed]
      rw [ih fun i small => same i (by omega), same k (by omega)]

theorem crcStep_xor (a b : BitVec n) : crcStep poly (a ^^^ b) = crcStep poly a ^^^ crcStep poly b := by
  have cancel (p q : BitVec n) : p ^^^ poly ^^^ (q ^^^ poly) = p ^^^ q := by
    rw [BitVec.xor_assoc, BitVec.xor_comm q poly, ← BitVec.xor_assoc poly poly q, BitVec.xor_self, BitVec.zero_xor]
  unfold crcStep
  rw [BitVec.getLsbD_xor, BitVec.ushiftRight_xor_distrib]
  cases a.getLsbD 0 <;> cases b.getLsbD 0 <;> simp [cancel]
  · ac_rfl
  · ac_rfl

/-- What was in the register and what is fed do not mix. -/
theorem crcFeed_split (bit : Nat → Bool) (k : Nat) (s : BitVec n) :
    crcFeed poly bit k s = crcFeed poly (fun _ => false) k s ^^^ crcFeed poly bit k 0 := by
  induction k with
  | zero => simp [crcFeed]
  | succ k ih =>
      have flip (a b : BitVec n) : flipLow (bit k) (a ^^^ b) = a ^^^ flipLow (bit k) b := by
        unfold flipLow
        split
        · exact BitVec.xor_assoc ..
        · rfl
      rw [crcFeed, ih, flip, crcStep_xor]
      rfl

/-- Nothing comes of nothing. -/
theorem crcFeed_zero (k : Nat) : crcFeed poly (fun _ => false) k 0 = 0 := by
  induction k with
  | zero => rfl
  | succ k ih =>
      rw [crcFeed, ih]
      simp [flipLow, crcStep]

/-- A polynomial with a constant loses nothing. -/
theorem crcStep_eq_zero (msb : poly.msb = true) {s : BitVec n} (zero : crcStep poly s = 0) : s = 0 := by
  have top : (s >>> 1).getLsbD (n - 1) = false := by
    rw [BitVec.getLsbD_ushiftRight]
    exact BitVec.getLsbD_of_ge s _ (by omega)
  unfold crcStep at zero
  cases low : s.getLsbD 0 with
  | true =>
      rw [if_pos low] at zero
      have bit := congrArg (fun w : BitVec n => w.getLsbD (n - 1)) zero
      rw [BitVec.msb_eq_getLsbD_last] at msb
      simp [top, msb] at bit
  | false =>
      rw [low, if_neg (by decide)] at zero
      apply BitVec.eq_of_getLsbD_eq
      intro i _
      cases i with
      | zero => simpa using low
      | succ i =>
          have bit := congrArg (fun w : BitVec n => w.getLsbD i) zero
          simpa [BitVec.getLsbD_ushiftRight, Nat.add_comm] using bit

/-- Neither do shifts, nor bits that are fed. -/
theorem crcFeed_eq_zero (msb : poly.msb = true) {k : Nat} {s : BitVec n}
    (zero : crcFeed poly (fun _ => false) k s = 0) : s = 0 := by
  induction k with
  | zero => exact zero
  | succ k ih => exact ih (crcStep_eq_zero poly msb zero)

theorem shifts_xor (k : Nat) (a b : BitVec n) : crcFeed poly (fun _ => false) k (a ^^^ b) =
    crcFeed poly (fun _ => false) k a ^^^ crcFeed poly (fun _ => false) k b := by
  induction k with
  | zero => rfl
  | succ k ih =>
      rw [crcFeed, ih]
      exact crcStep_xor poly _ _

theorem crcFeed_injective (msb : poly.msb = true) (bit : Nat → Bool) (k : Nat) :
    Function.Injective (crcFeed poly bit k) := by
  intro a b same
  rw [crcFeed_split poly bit k a, crcFeed_split poly bit k b] at same
  have shifts : crcFeed poly (fun _ => false) k (a ^^^ b) = 0 := by
    have cancelled := congrArg (fun w => w ^^^ crcFeed poly bit k 0) same
    simp only [BitVec.xor_assoc, BitVec.xor_self, BitVec.xor_zero] at cancelled
    rw [shifts_xor, cancelled]
    exact BitVec.xor_self
  have zero := crcFeed_eq_zero poly msb shifts
  have moved := congrArg (fun w => w ^^^ b) zero
  simpa only [BitVec.xor_assoc, BitVec.xor_self, BitVec.xor_zero, BitVec.ofNat_eq_ofNat, BitVec.zero_xor] using moved

end Register

/-! ## Words as sums -/

/-- A bit as a scalar. -/
def bitCoeff (b : Bool) : ZMod 2 := if b then 1 else 0

theorem bitCoeff_xor (a b : Bool) : bitCoeff (a ^^ b) = bitCoeff a + bitCoeff b := by
  cases a <;> cases b <;> decide

theorem bitCoeff_injective : Function.Injective bitCoeff := by
  intro a b same
  cases a <;> cases b <;> first | rfl | exact absurd same (by decide)

/-- A sum over the words that are combined. -/
theorem sum_of_xor {M : Type} [AddCommMonoid M] {n : Nat} (value : BitVec n → M) (zero : value 0 = 0)
    (xor : ∀ a b, value (a ^^^ b) = value a + value b) (f : Nat → BitVec n) (k : Nat) :
    value ((List.range k).foldl (fun acc i => acc ^^^ f i) 0) = ∑ i ∈ Finset.range k, value (f i) := by
  induction k with
  | zero => simpa using zero
  | succ k ih =>
      rw [List.range_succ, List.foldl_append, Finset.sum_range_succ, ← ih]
      exact xor _ _

section Weigh

variable {M : Type} [AddCommGroup M] [Module (ZMod 2) M] {n : Nat}

/-- The sum of the weights of the bits that are set. -/
def weigh (w : BitVec n) (weight : Nat → M) : M :=
  ∑ i ∈ Finset.range n, bitCoeff (w.getLsbD i) • weight i

theorem weigh_xor (a b : BitVec n) (weight : Nat → M) :
    weigh (a ^^^ b) weight = weigh a weight + weigh b weight := by
  simp only [weigh, BitVec.getLsbD_xor, bitCoeff_xor, add_smul, Finset.sum_add_distrib]

@[simp] theorem weigh_zero (weight : Nat → M) : weigh (0#n) weight = 0 := by
  simp [weigh, bitCoeff]

/-- Twice the same is nothing. -/
theorem add_self_zero (a : M) : a + a = 0 := by
  have two : (1 + 1 : ZMod 2) = 0 := by decide
  rw [← one_smul (ZMod 2) a, ← add_smul, two, zero_smul]

end Weigh

section Ring

variable {R : Type} [CommRing R] [Algebra (ZMod 2) R] {n : Nat}

/-- One more bit raises the powers of those before it. -/
theorem sum_raised (x : R) (bit : Nat → Bool) (k : Nat) :
    ∑ i ∈ Finset.range (k + 1), bitCoeff (bit i) • x ^ (k + 1 - 1 - i) =
      x * ∑ i ∈ Finset.range k, bitCoeff (bit i) • x ^ (k - 1 - i) + bitCoeff (bit k) • 1 := by
  have raised : ∀ i ∈ Finset.range k,
      bitCoeff (bit i) • x ^ (k + 1 - 1 - i) = x * bitCoeff (bit i) • x ^ (k - 1 - i) := by
    intro i small
    have power : k + 1 - 1 - i = k - 1 - i + 1 := by
      have := Finset.mem_range.1 small
      omega
    rw [power, pow_succ', mul_smul_comm]
  rw [Finset.sum_range_succ, Finset.sum_congr rfl raised, ← Finset.mul_sum, Nat.add_sub_cancel, Nat.sub_self, pow_zero]

/-- A word with its bit 0 as the leading power. -/
def reflected (x : R) (w : BitVec n) : R := weigh w fun i => x ^ (n - 1 - i)

/-- A word with its bit 0 as the constant. -/
def straight (x : R) (w : BitVec n) : R := weigh w fun i => x ^ i

theorem reflected_xor (x : R) (a b : BitVec n) :
    reflected x (a ^^^ b) = reflected x a + reflected x b := weigh_xor a b _

@[simp] theorem reflected_zero (x : R) : reflected x (0#n) = 0 := weigh_zero _

theorem straight_xor (x : R) (a b : BitVec n) :
    straight x (a ^^^ b) = straight x a + straight x b := weigh_xor a b _

theorem straight_shiftLeft (x : R) {w : BitVec (n + 1)} (fits : w.msb = false) :
    straight x (w <<< 1) = x * straight x w := by
  have top : w.getLsbD n = false := by simpa [BitVec.msb_eq_getLsbD_last] using fits
  unfold straight weigh
  rw [Finset.sum_range_succ', Finset.sum_range_succ, top, mul_add, Finset.mul_sum]
  have moved : ∀ i ∈ Finset.range n, bitCoeff ((w <<< 1).getLsbD (i + 1)) • x ^ (i + 1) =
      x * bitCoeff (w.getLsbD i) • x ^ i := by
    intro i small
    have inside : i + 1 < n + 1 := by
      have := Finset.mem_range.1 small
      omega
    rw [BitVec.getLsbD_shiftLeft]
    simp [inside, pow_succ']
  rw [Finset.sum_congr rfl moved]
  simp [bitCoeff]

/-- A shift loses bit 0 and moves the others up by a power. -/
theorem reflected_shift (x : R) (s : BitVec (n + 1)) :
    reflected x (s >>> 1) + bitCoeff (s.getLsbD 0) • x ^ (n + 1) = x * reflected x s := by
  have moved : ∀ i ∈ Finset.range n, bitCoeff ((s >>> 1).getLsbD i) • x ^ (n + 1 - 1 - i) =
      x * bitCoeff (s.getLsbD (i + 1)) • x ^ (n + 1 - 1 - (i + 1)) := by
    intro i small
    have power : n + 1 - 1 - i = n + 1 - 1 - (i + 1) + 1 := by
      have := Finset.mem_range.1 small
      omega
    rw [BitVec.getLsbD_ushiftRight, Nat.add_comm 1 i, power, pow_succ', mul_smul_comm]
  have last : (s >>> 1).getLsbD n = false := by
    rw [BitVec.getLsbD_ushiftRight]
    exact BitVec.getLsbD_of_ge s _ (by omega)
  unfold reflected weigh
  rw [Finset.sum_range_succ, last, Finset.sum_congr rfl moved, Finset.sum_range_succ', mul_add, Finset.mul_sum]
  simp only [bitCoeff, Bool.false_eq_true, if_false, zero_smul, add_zero, Nat.sub_zero, mul_smul_comm,
    Nat.add_sub_cancel, pow_succ']

variable {x : R}

theorem reflected_shiftRight (s : BitVec (n + 1)) (k : Nat) :
    x ^ k * reflected x s = reflected x (s >>> k) +
      x ^ (n + 1) * ∑ i ∈ Finset.range k, bitCoeff (s.getLsbD i) • x ^ (k - 1 - i) := by
  induction k with
  | zero => simp
  | succ k ih =>
      have next : x * reflected x (s >>> k) =
          reflected x (s >>> (k + 1)) + bitCoeff (s.getLsbD k) • x ^ (n + 1) := by
        rw [← reflected_shift, BitVec.shiftRight_add, BitVec.getLsbD_ushiftRight]
        rfl
      rw [pow_succ', mul_assoc, ih, mul_add, next, sum_raised, mul_add]
      simp only [mul_smul_comm, mul_one]
      ring

theorem reflected_one : reflected x (1#(n + 1)) = x ^ n := by
  unfold reflected weigh
  rw [Finset.sum_range_succ']
  simp [BitVec.getLsbD_one, bitCoeff]

theorem reflected_crcStep {poly : BitVec (n + 1)} (root : x ^ (n + 1) = reflected x poly)
    (s : BitVec (n + 1)) : reflected x (crcStep poly s) = x * reflected x s := by
  rw [← reflected_shift, crcStep]
  cases low : s.getLsbD 0 with
  | false => simp [bitCoeff]
  | true => simp [bitCoeff, reflected_xor, root]

theorem reflected_flipLow (b : Bool) (s : BitVec (n + 1)) :
    reflected x (flipLow b s) = reflected x s + bitCoeff b • x ^ n := by
  cases b with
  | false => simp [flipLow, bitCoeff]
  | true => simp [flipLow, bitCoeff, reflected_xor, reflected_one]

/-- **The register divides**: each shift multiplies by the root, and each bit adds the power
that the polynomial leads with. -/
theorem reflected_crcFeed {poly : BitVec (n + 1)} (root : x ^ (n + 1) = reflected x poly)
    (bit : Nat → Bool) (k : Nat) (s : BitVec (n + 1)) :
    reflected x (crcFeed poly bit k s) =
      x ^ k * reflected x s + x ^ (n + 1) * ∑ i ∈ Finset.range k, bitCoeff (bit i) • x ^ (k - 1 - i) := by
  induction k with
  | zero => simp [crcFeed]
  | succ k ih =>
      rw [crcFeed, reflected_crcStep root, reflected_flipLow, ih, sum_raised]
      simp only [mul_add, mul_smul_comm, mul_one, pow_succ']
      ring

/-- From an empty register. -/
theorem reflected_crcFeed_empty {poly : BitVec (n + 1)} (root : x ^ (n + 1) = reflected x poly)
    (bit : Nat → Bool) (k : Nat) :
    reflected x (crcFeed poly bit k 0) =
      x ^ (n + 1) * ∑ i ∈ Finset.range k, bitCoeff (bit i) • x ^ (k - 1 - i) := by
  have empty : reflected x (0 : BitVec (n + 1)) = 0 := reflected_zero x
  rw [reflected_crcFeed root, empty, mul_zero, zero_add]

/-- Shifts alone are powers. -/
theorem reflected_shifts {poly : BitVec (n + 1)} (root : x ^ (n + 1) = reflected x poly)
    (k : Nat) (s : BitVec (n + 1)) : reflected x (crcFeed poly (fun _ => false) k s) = x ^ k * reflected x s := by
  rw [reflected_crcFeed root]
  simp [bitCoeff]

end Ring

/-! ## The ring of remainders -/

section Remainders

variable {n : Nat}

/-- The polynomial of a register, its leading power included. -/
noncomputable def crcPolynomial (poly : BitVec n) : (ZMod 2)[X] := X ^ n + reflected X poly

theorem coeff_reflected (w : BitVec n) (m : Nat) :
    (reflected X w : (ZMod 2)[X]).coeff m = if m < n then bitCoeff (w.getLsbD (n - 1 - m)) else 0 := by
  unfold reflected weigh
  simp only [finsetSum_coeff, coeff_smul, coeff_X_pow, smul_eq_mul, mul_ite, mul_one, mul_zero]
  split
  · rename_i small
    rw [Finset.sum_eq_single (n - 1 - m)]
    · rw [if_pos (by omega)]
    · intro i inside other
      have := Finset.mem_range.1 inside
      rw [if_neg (by omega)]
    · intro outside
      exact absurd (Finset.mem_range.2 (by omega)) outside
  · apply Finset.sum_eq_zero
    intro i inside
    have := Finset.mem_range.1 inside
    rw [if_neg (by omega)]

theorem degree_reflected (w : BitVec n) : (reflected X w : (ZMod 2)[X]).degree < n := by
  rw [degree_lt_iff_coeff_zero]
  intro m large
  rw [coeff_reflected, if_neg (by omega)]

theorem monic_crcPolynomial (poly : BitVec n) : (crcPolynomial poly).Monic :=
  monic_X_pow_add (degree_reflected poly)

theorem degree_crcPolynomial (poly : BitVec n) : (crcPolynomial poly).degree = n := by
  unfold crcPolynomial
  rw [degree_add_eq_left_of_degree_lt (by rw [degree_X_pow]; exact degree_reflected poly), degree_X_pow]

theorem reflected_map {R S : Type} [CommRing R] [Algebra (ZMod 2) R] [CommRing S] [Algebra (ZMod 2) S]
    (f : R →ₐ[ZMod 2] S) (x : R) (w : BitVec n) : f (reflected x w) = reflected (f x) w := by
  simp only [reflected, weigh, map_sum, map_smul, map_pow]

/-- **A ring of remainders**: the polynomial of the register vanishes at some `x`, and a register
is known from its value at `x`. -/
theorem remainders (poly : BitVec n) : ∃ (R : Type) (_ : CommRing R) (_ : Algebra (ZMod 2) R) (x : R),
    x ^ n = reflected x poly ∧ ∀ a b : BitVec n, reflected x a = reflected x b → a = b := by
  let P := crcPolynomial poly
  have value (w : BitVec n) : reflected (AdjoinRoot.root P) w = AdjoinRoot.mk P (reflected X w) := by
    have mapped := reflected_map (AdjoinRoot.mkₐ P) X w
    exact mapped.symm
  refine ⟨AdjoinRoot P, inferInstance, inferInstance, AdjoinRoot.root P, ?_, ?_⟩
  · have vanishes : AdjoinRoot.mk P (X ^ n) + AdjoinRoot.mk P (reflected X poly) = 0 := by
      rw [← map_add]
      exact AdjoinRoot.mk_self
    rw [value, ← AdjoinRoot.mk_X, ← map_pow]
    exact add_right_cancel (vanishes.trans (add_self_zero _).symm)
  · intro a b same
    rw [value, value, AdjoinRoot.mk_eq_mk] at same
    -- a difference below the degree of `P` is divisible by it only when it is 0
    have close : (reflected X a - reflected X b : (ZMod 2)[X]).degree < P.degree := by
      rw [degree_crcPolynomial]
      exact lt_of_le_of_lt (degree_sub_le _ _) (max_lt (degree_reflected a) (degree_reflected b))
    have equal : (reflected X a : (ZMod 2)[X]) = reflected X b := by
      apply sub_eq_zero.1
      apply Classical.byContradiction
      intro differ
      exact (monic_crcPolynomial poly).not_dvd_of_degree_lt differ close same
    apply BitVec.eq_of_getLsbD_eq
    intro i small
    have at_i := congrArg (fun p => p.coeff (n - 1 - i)) equal
    simp only [coeff_reflected] at at_i
    rw [if_pos (by omega), if_pos (by omega), show n - 1 - (n - 1 - i) = i by omega] at at_i
    exact bitCoeff_injective at_i

end Remainders

end FpgaSsd.Lib
