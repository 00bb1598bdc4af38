/-
# Lib.Bitmap — bitmaps, and the first-fit search for a run of zero bits

`bitmapSet`, `bitmapClear` and `bitmapFindNextZeroArea` are the kernel's bitmap
operations on a bitmap read as a predicate on bit numbers. `zeros m n` lists the
zero bits below `n`; setting or clearing a run of bits moves exactly that run
between the list and its complement (`zeros_set`, `zeros_clear`), and the search
returns the first run that fits, or a number above the size when there is none
(`findNextZeroArea_spec`).
-/
import Mathlib.Data.List.Nodup
import Mathlib.Data.List.Perm.Basic
import Mathlib.Data.List.Range

namespace FpgaSsd.Lib

set_option autoImplicit false

abbrev Bitmap := Nat → Bool

def bitmapSet (m : Bitmap) (start n : Nat) : Bitmap :=
  fun i => if start ≤ i ∧ i < start + n then true else m i

def bitmapClear (m : Bitmap) (start n : Nat) : Bitmap :=
  fun i => if start ≤ i ∧ i < start + n then false else m i

/-- The first `i` with `start ≤ i < start + count` and `p i`, else `start + count`. -/
def findFrom (p : Nat → Bool) (start : Nat) : Nat → Nat
  | 0 => start
  | count + 1 => if p start then start else findFrom p (start + 1) count

def findNextZeroBit (m : Bitmap) (size start : Nat) : Nat :=
  if start < size then findFrom (fun i => !m i) start (size - start) else size

def findNextBit (m : Bitmap) (size start : Nat) : Nat :=
  if start < size then findFrom m start (size - start) else size

/-- The retry loop of `bitmap_find_next_zero_area` without alignment. Every retry
moves `start` up, so `size` retries are enough. -/
def findZeroAreaLoop (m : Bitmap) (size nr : Nat) : Nat → Nat → Nat
  | 0, start => start + nr + size
  | fuel + 1, start =>
      let index := findNextZeroBit m size start
      let stop := index + nr
      if size < stop then stop
      else
        let i := findNextBit m stop index
        if i < stop then findZeroAreaLoop m size nr fuel (i + 1) else index

def bitmapFindNextZeroArea (m : Bitmap) (size start nr : Nat) : Nat :=
  findZeroAreaLoop m size nr (size + 1) start

/-- The zero bits below `n`. -/
def zeros (m : Bitmap) (n : Nat) : List Nat := (List.range n).filter fun i => !m i

theorem findFrom_spec (p : Nat → Bool) (start count : Nat) :
    start ≤ findFrom p start count ∧ findFrom p start count ≤ start + count ∧
      (findFrom p start count < start + count → p (findFrom p start count) = true) ∧
      ∀ i, start ≤ i → i < findFrom p start count → p i = false := by
  induction count generalizing start with
  | zero => exact ⟨le_rfl, le_rfl, fun h => absurd h (lt_irrefl _), fun i lo hi => by
      simp only [findFrom] at hi; omega⟩
  | succ count ih =>
      simp only [findFrom]
      split
      · rename_i hit
        exact ⟨le_rfl, by omega, fun _ => hit, fun i lo hi => by omega⟩
      · rename_i miss
        obtain ⟨lo, hi, found, before⟩ := ih (start + 1)
        refine ⟨by omega, by omega, fun h => found (by omega), fun i least most => ?_⟩
        by_cases first : i = start
        · subst first
          simpa using miss
        · exact before i (by omega) most

theorem findNextZeroBit_spec (m : Bitmap) (size start : Nat) :
    (start ≤ findNextZeroBit m size start ∨ findNextZeroBit m size start = size) ∧
      (findNextZeroBit m size start ≤ size) ∧
      (findNextZeroBit m size start < size → m (findNextZeroBit m size start) = false) ∧
      ∀ i, start ≤ i → i < findNextZeroBit m size start → m i = true := by
  unfold findNextZeroBit
  split
  · rename_i below
    obtain ⟨lo, hi, found, before⟩ := findFrom_spec (fun i => !m i) start (size - start)
    refine ⟨.inl lo, by omega, fun h => ?_, fun i least most => ?_⟩
    · simpa using found (by omega)
    · simpa using before i least most
  · rename_i above
    exact ⟨.inr rfl, le_rfl, fun h => absurd h (lt_irrefl _), fun i least most => by omega⟩

theorem findNextBit_spec (m : Bitmap) (size start : Nat) (below : start ≤ size) :
    start ≤ findNextBit m size start ∧ findNextBit m size start ≤ size ∧
      (findNextBit m size start < size → m (findNextBit m size start) = true) ∧
      ∀ i, start ≤ i → i < findNextBit m size start → m i = false := by
  unfold findNextBit
  split
  · obtain ⟨lo, hi, found, before⟩ := findFrom_spec m start (size - start)
    exact ⟨lo, by omega, fun h => found (by omega), before⟩
  · exact ⟨below, le_rfl, fun h => absurd h (lt_irrefl _), fun i least most => by omega⟩

/-- What a search for `nr` zero bits from `start` on may answer: the first run
that fits, or a number above `size` when no run fits. -/
def ZeroArea (m : Bitmap) (size start nr index : Nat) : Prop :=
  (index + nr ≤ size ∧ start ≤ index ∧ (∀ i, index ≤ i → i < index + nr → m i = false) ∧
      ∀ k, start ≤ k → k < index → ∃ i, k ≤ i ∧ i < k + nr ∧ m i = true) ∨
    (size < index ∧ ∀ k, start ≤ k → k + nr ≤ size → ∃ i, k ≤ i ∧ i < k + nr ∧ m i = true)

theorem findZeroAreaLoop_spec (m : Bitmap) (size nr : Nat) (positive : 0 < nr) :
    ∀ fuel start, size < start + fuel →
      ZeroArea m size start nr (findZeroAreaLoop m size nr fuel start)
  | 0, start, enough => by
      refine .inr ⟨?_, fun k least most => by omega⟩
      simp only [findZeroAreaLoop]
      omega
  | fuel + 1, start, enough => by
      obtain ⟨lo, hi, found, before⟩ := findNextZeroBit_spec m size start
      simp only [findZeroAreaLoop]
      generalize findNextZeroBit m size start = index at *
      -- below the first zero bit every run starts with a one
      have skipped : ∀ k, start ≤ k → k < index → ∃ i, k ≤ i ∧ i < k + nr ∧ m i = true :=
        fun k least most => ⟨k, le_rfl, by omega, before k least most⟩
      split
      · rename_i overrun
        refine .inr ⟨overrun, fun k least most => skipped k least (by omega)⟩
      · rename_i fits
        have start_le : start ≤ index := by omega
        obtain ⟨lo', hi', found', before'⟩ := findNextBit_spec m (index + nr) index (by omega)
        generalize findNextBit m (index + nr) index = hit at *
        split
        · rename_i blocked
          -- a run starting at or below the blocking one contains it
          have jumped : ∀ k, start ≤ k → k < hit + 1 → ∃ i, k ≤ i ∧ i < k + nr ∧ m i = true := by
            intro k least most
            by_cases early : k < index
            · exact skipped k least early
            · exact ⟨hit, by omega, by omega, found' blocked⟩
          have enough' : size < hit + 1 + fuel := by omega
          rcases findZeroAreaLoop_spec m size nr positive fuel (hit + 1) enough' with
            ⟨within, least', free, first⟩ | ⟨beyond, none⟩
          · refine .inl ⟨within, by omega, free, fun k least most => ?_⟩
            by_cases early : k < hit + 1
            · exact jumped k least early
            · exact first k (by omega) most
          · refine .inr ⟨beyond, fun k least most => ?_⟩
            by_cases early : k < hit + 1
            · exact jumped k least early
            · exact none k (by omega) most
        · rename_i clear
          exact .inl ⟨by omega, by omega, fun i least most => before' i least (by omega), skipped⟩

/-- The search is first fit. -/
theorem findNextZeroArea_spec (m : Bitmap) (size start : Nat) {k : Nat} (positive : 0 < k) :
    ZeroArea m size start k (bitmapFindNextZeroArea m size start k) :=
  findZeroAreaLoop_spec m size k positive (size + 1) start (by omega)

theorem mem_zeros {m : Bitmap} {n i : Nat} : i ∈ zeros m n ↔ i < n ∧ m i = false := by
  simp [zeros]

theorem zeros_nodup (m : Bitmap) (n : Nat) : (zeros m n).Nodup := List.nodup_range.filter _

theorem zeros_eq_nil {m : Bitmap} {n : Nat} (full : ∀ b, b < n → m b = true) : zeros m n = [] := by
  refine List.eq_nil_iff_forall_not_mem.2 fun b member => ?_
  have one := full b (mem_zeros.1 member).1
  rw [(mem_zeros.1 member).2] at one
  cases one

/-- Clearing a run of set bits adds exactly the run to the zero bits. -/
theorem zeros_clear {m : Bitmap} {n s k : Nat} (inside : s + k ≤ n)
    (full : ∀ i, s ≤ i → i < s + k → m i = true) :
    (zeros (bitmapClear m s k) n).Perm (List.range' s k ++ zeros m n) := by
  have apart : (List.range' s k ++ zeros m n).Nodup := by
    refine List.nodup_append.2 ⟨List.nodup_range', zeros_nodup m n, fun a run b zero eq => ?_⟩
    subst eq
    obtain ⟨lo, hi⟩ := List.mem_range'_1.1 run
    have one := full a lo hi
    rw [(mem_zeros.1 zero).2] at one
    cases one
  refine (List.perm_ext_iff_of_nodup (zeros_nodup _ _) apart).2 fun i => ?_
  simp only [mem_zeros, bitmapClear, List.mem_append, List.mem_range'_1]
  split
  · rename_i run
    exact ⟨fun _ => .inl run, fun _ => ⟨by omega, rfl⟩⟩
  · rename_i outside
    exact ⟨.inr, fun h => h.resolve_left outside⟩

/-- Setting a run of zero bits removes exactly the run from the zero bits. -/
theorem zeros_set {m : Bitmap} {n s k : Nat} (inside : s + k ≤ n)
    (free : ∀ i, s ≤ i → i < s + k → m i = false) :
    (zeros m n).Perm (List.range' s k ++ zeros (bitmapSet m s k) n) := by
  have undo : bitmapClear (bitmapSet m s k) s k = m := by
    funext i
    simp only [bitmapClear, bitmapSet]
    split
    · rename_i run
      exact (free i run.1 run.2).symm
    · rfl
  have := zeros_clear (m := bitmapSet m s k) inside fun i lo hi => by
    simp only [bitmapSet]
    rw [if_pos ⟨lo, hi⟩]
  rwa [undo] at this

end FpgaSsd.Lib
