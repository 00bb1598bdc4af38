/-
# Theory.IdleSpace — the idle space that is reported

* `liveEntries` — the entries of data blocks that are used and not bad;
* `blockUsed_eq` — the library counts the bad ones among them too;
* `idleSpace_iff` — when the reports are right: no used block is bad, and no more are
  used than there are logical ones.
-/
import FpgaSsd.Api.Util
import Mathlib.Algebra.BigOperators.Group.Finset.Basic
import Mathlib.Algebra.Order.BigOperators.Group.Finset

namespace FpgaSsd.Theory

open FpgaSsd.Lib FpgaSsd.Driver FpgaSsd.Api

set_option autoImplicit false

/-! ## Entries -/

/-- A physical block for metadata. -/
def MetaBlock (i : Nat) : Prop := i < 10 ∨ 4096 ≤ i ∧ i ≤ 4105

instance (i : Nat) : Decidable (MetaBlock i) := inferInstanceAs (Decidable (_ ∨ _))

def entryUsed (table : Mem) (i : Nat) : Bool := tableEntry table i / 16384 % 2 = 1

def entryBad (table : Mem) (i : Nat) : Bool := tableEntry table i / 32768 % 2 = 1

def dataEntries (p : Nat → Bool) : Nat :=
  (List.range ssdMaxPhyblocksPerChannel).countP fun i => !decide (MetaBlock i) && p i

/-- The data blocks that hold something. -/
def liveEntries (table : Mem) : Nat := dataEntries fun i => entryUsed table i && !entryBad table i

/-- The data blocks that count as used although they are bad. -/
def badEntries (table : Mem) : Nat := dataEntries fun i => entryUsed table i && entryBad table i

section Entries

variable {table : Mem}

/-- The complement of a flag is never 0. -/
theorem countsAsUsed_eq : countsAsUsed table = entryUsed table := by
  funext i
  have flag : -((tableEntry table i : Int) / 32768 % 2) - 1 ≠ 0 := by omega
  have bit : tableEntry table i / 16384 % 2 ≠ 0 ↔ tableEntry table i / 16384 % 2 = 1 := by omega
  simp only [countsAsUsed, entryUsed, flag, ne_eq, not_false_eq_true, decide_true, Bool.and_true]
  exact decide_eq_decide.2 bit

/-- The two ranges of the library are the blocks that are not reserved. -/
theorem dataEntries_eq (p : Nat → Bool) :
    dataEntries p = (List.range' 10 4086 ++ List.range' 4106 4086).countP p := by
  have whole : List.range 8192 =
      List.range' 0 10 ++ (List.range' 10 4086 ++ (List.range' 4096 10 ++ List.range' 4106 4086)) := by
    rw [List.range'_append_1 (s := 4096) (m := 10) (n := 4086), List.range'_append_1 (s := 10) (m := 4086) (n := 4096),
      List.range'_append_1 (s := 0) (m := 10) (n := 8182), List.range_eq_range']
  have reserved (start : Nat) {count : Nat} (all : ∀ i, start ≤ i → i < start + count → MetaBlock i) :
      (List.range' start count).countP (fun i => !decide (MetaBlock i) && p i) = 0 := by
    rw [List.countP_eq_zero]
    intro i inside
    have bounds := List.mem_range'_1.1 inside
    simp [all i bounds.1 bounds.2]
  have kept (start : Nat) {count : Nat} (none : ∀ i, start ≤ i → i < start + count → ¬ MetaBlock i) :
      (List.range' start count).countP (fun i => !decide (MetaBlock i) && p i) =
        (List.range' start count).countP p := by
    apply List.countP_congr
    intro i inside
    have bounds := List.mem_range'_1.1 inside
    simp [none i bounds.1 bounds.2]
  unfold dataEntries
  rw [whole, List.countP_append, List.countP_append, List.countP_append, List.countP_append]
  rw [reserved 0, reserved 4096, kept 10, kept 4106]
  · omega
  all_goals
    intro i low high
    unfold MetaBlock
    omega

theorem blockUsed_eq : blockUsed table = liveEntries table + badEntries table := by
  have split_count (l : List Nat) : l.countP (entryUsed table) =
      l.countP (fun i => entryUsed table i && !entryBad table i) +
        l.countP (fun i => entryUsed table i && entryBad table i) := by
    induction l with
    | nil => rfl
    | cons i l ih =>
        simp only [List.countP_cons, ih]
        cases entryUsed table i <;> cases entryBad table i <;> simp <;> omega
  unfold liveEntries badEntries
  rw [dataEntries_eq, dataEntries_eq, ← split_count, ← countsAsUsed_eq]
  rfl

theorem badEntries_eq_zero :
    badEntries table = 0 ↔
      ∀ i < ssdMaxPhyblocksPerChannel, ¬ MetaBlock i → entryUsed table i = true → entryBad table i = false := by
  unfold badEntries dataEntries
  rw [List.countP_eq_zero]
  constructor
  · intro none i inside open_block used
    have not_bad := none i (List.mem_range.2 inside)
    simpa [open_block, used] using not_bad
  · intro sound i inside
    have small := List.mem_range.1 inside
    by_cases reserved : MetaBlock i
    · simp [reserved]
    · cases used : entryUsed table i with
      | false => simp [used]
      | true => simp [sound i small reserved used]

theorem blockUsed_le : blockUsed table ≤ 8172 := by
  have few := List.countP_le_length (p := countsAsUsed table) (l := List.range' 10 4086 ++ List.range' 4106 4086)
  rw [List.length_append, List.length_range', List.length_range'] at few
  exact few

end Entries

/-! ## Reports -/

/-- The number is right only if it was counted right and did not wrap. -/
theorem idleBytes_eq {blocks used live : Nat} (large : blocks ≤ 2 ^ 20) (few : used ≤ 2 ^ 20) (le : live ≤ used) :
    idleBytes blocks used = (blocks - live) * ssdBlockSize ↔ used = live ∧ live ≤ blocks := by
  simp only [idleBytes, ssdBlockSize] at *
  omega

theorem utilLoop_eq (tables : Nat → Mem) (n channel used : Nat) :
    utilLoop (fun c => (ssdOk, tables c)) n channel used =
      idleBytes ssdMaxVirblocks (used + ∑ c ∈ Finset.range n, blockUsed (tables (channel + c))) := by
  induction n generalizing channel used with
  | zero => rfl
  | succ n ih =>
      have shifted : ∀ c ∈ Finset.range n, blockUsed (tables (channel + 1 + c)) =
          blockUsed (tables (channel + (c + 1))) := by
        intro c _
        rw [Nat.add_assoc, Nat.add_comm 1 c]
      rw [utilLoop]
      simp only [ne_eq, not_true, if_false]
      rw [ih, Finset.sum_congr rfl shifted, Finset.sum_range_succ', Nat.add_zero, Nat.add_assoc,
        Nat.add_comm (blockUsed (tables channel))]

/-- What the tables say is what `SSD_util` returns; the difference stops at 0. -/
def UtilReports (u : Caller) (tables : Nat → Mem) : Prop :=
  ssdUtil u (fun c => (ssdOk, tables c)) =
    (ssdMaxVirblocks - ∑ c ∈ Finset.range ssdMaxChannel, liveEntries (tables c)) * ssdBlockSize

def UtilTestReports (table : Mem) : Prop :=
  utilTestAnswer (ssdOk, some table) = (ssdMaxVirblocksPerChannel - liveEntries table) * ssdBlockSize

/-- No block of a table is used and bad. -/
def NoUsedBad (table : Mem) : Prop :=
  ∀ i < ssdMaxPhyblocksPerChannel, ¬ MetaBlock i → entryUsed table i = true → entryBad table i = false

theorem utilTestReports_iff (table : Mem) :
    UtilTestReports table ↔ NoUsedBad table ∧ liveEntries table ≤ ssdMaxVirblocksPerChannel := by
  have counted : blockUsed table = liveEntries table ↔ NoUsedBad table := by
    unfold NoUsedBad
    rw [← badEntries_eq_zero, blockUsed_eq]
    omega
  have few : blockUsed table ≤ 8172 := blockUsed_le
  unfold UtilTestReports utilTestAnswer
  rw [if_neg fun failed => failed rfl, Option.getD_some, idleBytes_eq (by decide) (by omega)
    (by rw [blockUsed_eq]; omega), counted]

/-- `SSD_util_test` returns that number when the driver answers with the table. -/
theorem ssdUtilTest_returns {u : Caller} {channel : Int} (opens : u.opens (devPath channel) = true)
    (memory : u.null = false) {may : Device → UserAct → Outcome → Prop} {d d' : Device} {table : Mem}
    (run : Runs (userPerform 0) may (ioctl .own (.readTable ⟨(channel % 256).toNat, tableEraseType⟩)) d
      (ssdOk, some table) d') :
    Runs (userPerform 0) may (ssdUtilTest u channel) d (utilTestAnswer (ssdOk, some table)) d' := by
  rw [ssdUtilTest_eq opens memory]
  exact runs_bind_iff.2 ⟨_, _, run, .pure _ _⟩

theorem utilReports_iff {u : Caller} (opened : u.opened = true) (memory : u.null = false) (tables : Nat → Mem) :
    UtilReports u tables ↔ (∀ c < ssdMaxChannel, NoUsedBad (tables c)) ∧
      ∑ c ∈ Finset.range ssdMaxChannel, liveEntries (tables c) ≤ ssdMaxVirblocks := by
  have total : ∑ c ∈ Finset.range ssdMaxChannel, blockUsed (tables c) =
      ∑ c ∈ Finset.range ssdMaxChannel, liveEntries (tables c) +
        ∑ c ∈ Finset.range ssdMaxChannel, badEntries (tables c) := by
    rw [← Finset.sum_add_distrib]
    exact Finset.sum_congr rfl fun c _ => blockUsed_eq
  have counted : ∑ c ∈ Finset.range ssdMaxChannel, badEntries (tables c) = 0 ↔
      ∀ c < ssdMaxChannel, NoUsedBad (tables c) := by
    rw [Finset.sum_eq_zero_iff]
    simp only [Finset.mem_range, badEntries_eq_zero, NoUsedBad]
  have few : ∑ c ∈ Finset.range ssdMaxChannel, blockUsed (tables c) ≤ 44 * 8172 := by
    have each : ∀ c ∈ Finset.range ssdMaxChannel, blockUsed (tables c) ≤ 8172 := fun _ _ => blockUsed_le
    have bound := Finset.sum_le_card_nsmul _ _ _ each
    simpa using bound
  unfold UtilReports ssdUtil
  rw [if_neg (by rw [opened]; decide), memory, if_neg (by decide), utilLoop_eq]
  simp only [Nat.zero_add]
  rw [idleBytes_eq (by decide) (by omega) (by omega), ← counted]
  constructor
  · intro right
    exact ⟨by omega, right.2⟩
  · intro right
    exact ⟨by omega, right.2⟩

/-- **The reports of idle space** are right exactly where no used block is bad and no more blocks are used than
there are logical ones. -/
theorem idleSpace_iff {u : Caller} (opened : u.opened = true) (memory : u.null = false)
    (tables : Nat → Mem) (table : Mem) :
    UtilReports u tables ∧ UtilTestReports table ↔
      ((∀ c < ssdMaxChannel, NoUsedBad (tables c)) ∧
          ∑ c ∈ Finset.range ssdMaxChannel, liveEntries (tables c) ≤ ssdMaxVirblocks) ∧
        NoUsedBad table ∧ liveEntries table ≤ ssdMaxVirblocksPerChannel := by
  rw [utilReports_iff opened memory, utilTestReports_iff]

/-- Block 10 is used, block 11 bad, and block 4106 used again. -/
def mixedTable : Mem := putLE (putLE (putLE (fun _ => 0) 20 2 0x4000) 22 2 0x8000) 8212 2 0x4000

theorem mixedTable_entry (i : Nat) : tableEntry mixedTable i =
    if i = 10 ∨ i = 4106 then 0x4000 else if i = 11 then 0x8000 else 0 := by
  have entry : ∀ m b v, v < 256 ^ 2 → tableEntry (putLE m (2 * b) 2 v) i = if i = b then v else tableEntry m i := by
    intro m b v small
    by_cases same : i = b
    · subst same
      rw [if_pos rfl]
      exact getLE_putLE_of_lt _ small
    · rw [if_neg same]
      exact getLE_putLE_disjoint _ (by omega)
  have none : tableEntry (fun _ => 0) i = 0 := by simp [tableEntry, getLE]
  rw [mixedTable, show (8212 : Nat) = 2 * 4106 from rfl, entry _ _ _ (by decide), show (22 : Nat) = 2 * 11 from rfl,
    entry _ _ _ (by decide), show (20 : Nat) = 2 * 10 from rfl, entry _ _ _ (by decide), none]
  split_ifs <;> omega

theorem noUsedBad_mixed : NoUsedBad mixedTable := by
  intro i _ _ used
  unfold entryUsed at used
  unfold entryBad
  rw [mixedTable_entry] at used ⊢
  split_ifs at used ⊢ <;> simp at used ⊢

theorem liveEntries_mixed : liveEntries mixedTable = 2 := by
  unfold liveEntries dataEntries
  have nodup : ((List.range ssdMaxPhyblocksPerChannel).filter fun i =>
      !decide (MetaBlock i) && (entryUsed mixedTable i && !entryBad mixedTable i)).Nodup := List.nodup_range.filter _
  rw [List.countP_eq_length_filter, ← List.toFinset_card_of_nodup nodup]
  have live : ((List.range ssdMaxPhyblocksPerChannel).filter fun i =>
      !decide (MetaBlock i) && (entryUsed mixedTable i && !entryBad mixedTable i)).toFinset = {10, 4106} := by
    ext i
    rw [List.mem_toFinset, List.mem_filter, List.mem_range, Finset.mem_insert, Finset.mem_singleton]
    unfold entryUsed entryBad
    rw [mixedTable_entry]
    constructor
    · rintro ⟨-, counts⟩
      by_contra other
      rw [if_neg other] at counts
      split at counts <;> simp at counts
    · intro either
      rw [if_pos either]
      rcases either with rfl | rfl <;> decide
  rw [live]
  rfl

/-- **Blocks in use, and a bad one that is free**, are reported right. -/
theorem idleSpace_mixed : UtilReports ⟨true, fun _ => true, false, 0⟩ (fun _ => mixedTable) ∧
    UtilTestReports mixedTable := by
  apply (idleSpace_iff rfl rfl _ _).2
  rw [liveEntries_mixed]
  exact ⟨⟨fun _ _ => noUsedBad_mixed, by decide⟩, noUsedBad_mixed, by decide⟩

/-- Block 10 is used and bad. -/
theorem used_bad_block_counts :
    ¬ (UtilReports ⟨true, fun _ => true, false, 0⟩ (fun _ => putLE (fun _ => 0) 20 2 0xC000) ∧
      UtilTestReports (putLE (fun _ => 0) 20 2 0xC000)) := by
  intro reports
  have sound := ((utilTestReports_iff _).1 reports.2).1
  exact absurd (sound 10 (by decide) (by decide) (by decide)) (by decide)

end FpgaSsd.Theory
