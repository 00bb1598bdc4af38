/-
# Theory.Rates — differences of counters that wrap

The rates are differences modulo `MAXVALUE`. That is meant to be 2³², the modulus of the
counters, and is 2³¹.

* `rate_advanced` — what is stored for a counter that was incremented;
* `rates_exact_iff` — the rates are right when no increment is 2³¹ or more;
* `speed_exact_iff` — also those of the sums, which wrap on their own.
-/
import FpgaSsd.Tools.SsdStat

namespace FpgaSsd.Theory

open FpgaSsd.Driver FpgaSsd.Tools.SsdStat

set_option autoImplicit false

/-- The counters of a row, each incremented; the free blocks are those of the later sample. -/
def advancedRow (row inc : Row) : Row :=
  ⟨row.read + inc.read, row.write + inc.write, row.delete + inc.delete, inc.free⟩

/-- Every increment is stored in its row. -/
def RatesExact (prev inc : Nat → Row) (size : Nat) : Prop := ∀ i < size,
  calcvalue prev (fun i => advancedRow (prev i) (inc i)) size i = inc i

/-- No counter was incremented by 2³¹ or more. -/
def HalfRange (inc : Row) : Prop := inc.read.toNat < 2 ^ 31 ∧ inc.write.toNat < 2 ^ 31 ∧ inc.delete.toNat < 2 ^ 31

section Rates

theorem maxValue_toNat : maxValue.toNat = 2 ^ 31 := rfl

/-- **The increment is stored modulo 2³¹**, on both sides of the wrap. -/
theorem rate_advanced (prev inc : UInt32) : (rate (prev + inc) prev).toNat = inc.toNat % 2 ^ 31 := by
  have small := prev.toNat_lt
  have small' := inc.toNat_lt
  simp only [rate, UInt64.toNat_toUInt32, UInt64.toNat_mod, UInt64.toNat_sub, UInt64.toNat_add, UInt32.toNat_toUInt64,
    UInt32.toNat_add, maxValue_toNat]
  omega

theorem rate_eq_iff (prev inc : UInt32) : rate (prev + inc) prev = inc ↔ inc.toNat < 2 ^ 31 := by
  rw [← UInt32.toNat_inj, rate_advanced]
  omega

variable {arr1 arr2 : Nat → Row} {n i : Nat}

theorem calcvalueFrom_below {j : Nat} (below : j < i) : calcvalueFrom arr2 n i arr1 j = arr1 j := by
  induction n generalizing i arr1 with
  | zero => rfl
  | succ n ih =>
      rw [calcvalueFrom, ih (Nat.lt_succ_of_lt below), Function.update_of_ne (Nat.ne_of_lt below)]

/-- Every row is computed once, from the samples. -/
theorem calcvalueFrom_row {j : Nat} (from_ : i ≤ j) (inside : j < i + n) : calcvalueFrom arr2 n i arr1 j =
    ⟨rate (arr2 j).read (arr1 j).read, rate (arr2 j).write (arr1 j).write, rate (arr2 j).delete (arr1 j).delete,
      (arr2 j).free⟩ := by
  induction n generalizing i arr1 with
  | zero => omega
  | succ n ih =>
      rw [calcvalueFrom]
      by_cases here : i = j
      · subst here
        rw [calcvalueFrom_below (Nat.lt_succ_self i), Function.update_self]
      · rw [ih (by omega) (by omega), Function.update_of_ne (Ne.symm here)]

theorem calcvalue_row {size : Nat} (inside : i < size) : calcvalue arr1 arr2 size i =
    ⟨rate (arr2 i).read (arr1 i).read, rate (arr2 i).write (arr1 i).write, rate (arr2 i).delete (arr1 i).delete,
      (arr2 i).free⟩ := calcvalueFrom_row (Nat.zero_le i) (by omega)

/-- One row, when its counters were incremented. -/
theorem calcvalue_advanced {inc : Row} {size : Nat} (inside : i < size) (later : arr2 i = advancedRow (arr1 i) inc) :
    calcvalue arr1 arr2 size i = inc ↔ HalfRange inc := by
  rw [calcvalue_row inside, later]
  obtain ⟨read, write, delete, free⟩ := inc
  simp only [advancedRow, HalfRange, Row.mk.injEq, rate_eq_iff, and_true]

/-- **The rates are right** exactly when every increment is below 2³¹. -/
theorem rates_exact_iff (prev inc : Nat → Row) (size : Nat) :
    RatesExact prev inc size ↔ ∀ i < size, HalfRange (inc i) := by
  constructor
  · intro right i inside
    exact (calcvalue_advanced inside rfl).1 (right i inside)
  · intro few i inside
    exact (calcvalue_advanced inside rfl).2 (few i inside)

/-- A counter that was incremented by 2³¹ shows no rate at all. -/
theorem half_range_is_lost : ¬ ∀ prev inc : Nat → Row, RatesExact prev inc arrayRows := by
  intro all
  have first := all (fun _ => ⟨0, 0, 0, 0⟩) (fun _ => ⟨2147483648, 0, 0, 0⟩) 0 (by decide)
  exact absurd first (by decide)

end Rates

/-! ## The line of the sums -/

/-- A snapshot of counters, each incremented. -/
def advancedStat (stat inc : ChannelStat) : ChannelStat :=
  ⟨stat.readCount + inc.readCount, stat.writeCount + inc.writeCount, stat.deleteCount + inc.deleteCount, inc.freeBlocks⟩

theorem totalStat_advanced (stat inc : Nat → ChannelStat) (channels : List Nat) :
    totalStat (fun c => advancedStat (stat c) (inc c)) channels =
      advancedStat (totalStat stat channels) (totalStat inc channels) := by
  induction channels with
  | nil => rfl
  | cons c rest ih =>
      simp only [totalStat, ih]
      simp only [advancedStat, ChannelStat.mk.injEq, and_true]
      refine ⟨?_, ?_, ?_⟩ <;> ac_rfl

/-- Every line is incremented, that of the sums by the sum of the increments. -/
theorem procSpeedRead_advanced (stat inc : Nat → ChannelStat) :
    procSpeedRead (fun c => advancedStat (stat c) (inc c)) =
      List.zipWith advancedStat (procSpeedRead stat) (procSpeedRead inc) := by
  simp only [procSpeedRead, totalStat_advanced, List.zipWith_cons_cons, List.zipWith_map, List.zipWith_self]

theorem getvalue_line {lines : List ChannelStat} {i : Nat} {line : ChannelStat} (inside : i < arrayRows)
    (found : lines[i]? = some line) (array : Nat → Row) : getvalue lines array i = Tools.SsdStat.rowOf line := by
  simp [getvalue, inside, found]

/-- A row is on a line of the file. -/
theorem procSpeedRead_inside {stat : Nat → ChannelStat} {i : Nat} {line : ChannelStat}
    (found : (procSpeedRead stat)[i]? = some line) : i < arrayRows := by
  have inside := (List.getElem?_eq_some_iff.1 found).1
  simpa [procSpeedRead] using inside

/-- **What `ssd_stat` shows** of a card whose channels were incremented by `inc` is right, in
the rows of the channels and in that of the sums, when no line was incremented by half of the range. -/
theorem speed_exact_iff (stat inc : Nat → ChannelStat) (prev next : Nat → Row) :
    (∀ i line, (procSpeedRead inc)[i]? = some line → calcvalue (getvalue (procSpeedRead stat) prev)
      (getvalue (procSpeedRead fun c => advancedStat (stat c) (inc c)) next) arrayRows i = Tools.SsdStat.rowOf line) ↔
    ∀ line ∈ procSpeedRead inc, HalfRange (Tools.SsdStat.rowOf line) := by
  have row : ∀ i line, (procSpeedRead inc)[i]? = some line → (calcvalue (getvalue (procSpeedRead stat) prev)
      (getvalue (procSpeedRead fun c => advancedStat (stat c) (inc c)) next) arrayRows i = Tools.SsdStat.rowOf line ↔
        HalfRange (Tools.SsdStat.rowOf line)) := by
    intro i line found
    have inside := procSpeedRead_inside found
    have before : ∃ old, (procSpeedRead stat)[i]? = some old := by
      simp only [procSpeedRead] at found ⊢
      cases i with
      | zero => exact ⟨_, rfl⟩
      | succ c =>
          simp only [List.getElem?_cons_succ, List.getElem?_map, Option.map_eq_some_iff] at found ⊢
          obtain ⟨channel, here, -⟩ := found
          exact ⟨_, channel, here, rfl⟩
    obtain ⟨old, before⟩ := before
    have after : (procSpeedRead fun c => advancedStat (stat c) (inc c))[i]? = some (advancedStat old line) := by
      rw [procSpeedRead_advanced, List.getElem?_zipWith, before, found]
    apply calcvalue_advanced inside
    rw [getvalue_line inside before, getvalue_line inside after]
    rfl
  constructor
  · intro right line member
    obtain ⟨i, found⟩ := List.mem_iff_getElem?.1 member
    exact (row i line found).1 (right i line found)
  · intro few i line found
    exact (row i line found).2 (few line (List.mem_of_getElem? found))

end FpgaSsd.Theory
