/-
# Theory.FailedBits — which blocks are flagged bad after an erase

`update_table` means to count the bits of a page that are 0 after an erase. It looks at bit 0
of a word 32 times instead of at its 32 bits.

* `countErrors_eq` — it counts 32 for each word whose bit 0 is 0;
* `scanBlock_flags` — a dirty block is flagged by that count;
* `counts_failed_bits_iff` — the pages whose failed bits are counted;
* `updateTable_flags` — the flags in the table that is handed to the hardware: in use are the
  blocks of the ids, bad those that were and those that the count of their page retires.
-/
import FpgaSsd.Theory.MarkBad
import FpgaSsd.Theory.Recovery
import FpgaSsd.Tools.SsdUpdateCheck
import Mathlib.Algebra.BigOperators.Group.Finset.Basic
import Mathlib.Algebra.Order.BigOperators.Group.Finset

namespace FpgaSsd.Theory

open FpgaSsd.Lib FpgaSsd.Driver FpgaSsd.Tools FpgaSsd.Tools.SsdUpdateCheck

set_option autoImplicit false

/-! ## Bits -/

/-- The 0 bits among the 32 of a word. -/
def wordZeros (word : Nat) : Nat := (List.range 32).countP fun j => !word.testBit j

/-- The bits of a page that failed to erase. -/
def zeroBits (page : Mem) : Nat := ∑ i ∈ Finset.range pageWords, wordZeros (dataBuf page i)

/-- The 1 bits in the words whose bit 0 is 0. -/
def onesInEven (page : Mem) : Nat :=
  ∑ i ∈ Finset.range pageWords, if dataBuf page i % 2 = 0 then 32 - wordZeros (dataBuf page i) else 0

/-- The 0 bits in the words whose bit 0 is 1. -/
def zerosInOdd (page : Mem) : Nat :=
  ∑ i ∈ Finset.range pageWords, if dataBuf page i % 2 = 0 then 0 else wordZeros (dataBuf page i)

/-- A free block whose first page is read and is not empty. -/
structure FoundDirty (channel : Int) (a : BlockAnswer) (table : Mem) (phyBlock : Nat) : Prop where
  good : badFlag table phyBlock = 0
  free : useFlag table phyBlock = 0
  read : ssdRdPhyBlock channel a.first % 128 = 0
  dirty : ∃ i < pageWords, isDirty (dataBuf a.firstPage i) = true

/-- The count of the page is that of its 0 bits, and it flags a block exactly when more than
128 bits failed. -/
structure CountsFailedBits (page : Mem) : Prop where
  errNum : (countErrors page).2 = zeroBits page
  flags : ∀ channel a table phyBlock, a.secondPage = page → FoundDirty channel a table phyBlock →
    ∃ table', scanBlock channel a table phyBlock = some table' ∧ (badFlag table' phyBlock = 1 ↔ 128 < zeroBits page)

section Counting

variable {page : Mem}

theorem wordZeros_le (word : Nat) : wordZeros word ≤ 32 := by
  have most := List.countP_le_length (p := fun j => !word.testBit j) (l := List.range 32)
  rwa [List.length_range] at most

/-- The loop over the bits sees one bit. -/
theorem countBits_eq (shiftData n errNum : Nat) :
    countBits shiftData n errNum = errNum + if shiftData % 2 = 0 then n else 0 := by
  induction n generalizing errNum with
  | zero => simp [countBits]
  | succ n ih =>
      rw [countBits, ih]
      split <;> omega

/-- A word whose bit 0 is 0 is not -1. -/
theorem isDirty_of_even {word : Nat} (even : word % 2 = 0) : isDirty word = true := by
  unfold isDirty
  apply decide_eq_true
  rintro rfl
  exact absurd even (by decide)

/-- **The count** is 32 for each word whose bit 0 is 0, and any of these makes the page dirty. -/
theorem countErrors_eq (page : Mem) :
    (countErrors page).2 = ∑ i ∈ Finset.range pageWords, (if dataBuf page i % 2 = 0 then 32 else 0) ∧
      (0 < (countErrors page).2 → (countErrors page).1 = true) := by
  unfold countErrors
  generalize pageWords = n
  induction n with
  | zero => exact ⟨rfl, fun no => absurd no (Nat.lt_irrefl 0)⟩
  | succ n ih =>
      obtain ⟨count, dirty⟩ := ih
      rw [List.range_succ, List.foldl_append, List.foldl_cons, List.foldl_nil, Finset.sum_range_succ, countWord]
      by_cases clean : isDirty (dataBuf page n) = true
      · rw [if_pos clean]
        refine ⟨?_, fun _ => rfl⟩
        rw [countBits_eq, count]
      · have odd : dataBuf page n % 2 ≠ 0 := fun even => clean (isDirty_of_even even)
        rw [if_neg clean, if_neg odd, Nat.add_zero]
        exact ⟨count, dirty⟩

/-- The 0 bits of the page, by bit 0 of their words. -/
theorem zeroBits_split (page : Mem) :
    zeroBits page + onesInEven page = (countErrors page).2 + zerosInOdd page := by
  rw [(countErrors_eq page).1, zeroBits, onesInEven, zerosInOdd, ← Finset.sum_add_distrib, ← Finset.sum_add_distrib]
  apply Finset.sum_congr rfl
  intro i _
  have most := wordZeros_le (dataBuf page i)
  generalize dataBuf page i = word at most
  generalize wordZeros word = zeros at most
  by_cases even : word % 2 = 0
  · simp only [if_pos even]
    omega
  · simp only [if_neg even]
    omega

/-- **A dirty block** is flagged by the count of its second page. -/
theorem scanBlock_flags {channel : Int} {a : BlockAnswer} {table : Mem} {phyBlock : Nat}
    (found : FoundDirty channel a table phyBlock) : ∃ table', scanBlock channel a table phyBlock = some table' ∧
      (badFlag table' phyBlock = 1 ↔ 128 < (countErrors a.secondPage).2) := by
  obtain ⟨i, inside, word⟩ := found.dirty
  have any : ((List.range pageWords).any fun i => isDirty (dataBuf a.firstPage i)) = true :=
    List.any_eq_true.2 ⟨i, List.mem_range.2 inside, word⟩
  have counted : badFlag (countErase table phyBlock) phyBlock = badFlag table phyBlock := by
    have entry : tableEntry table phyBlock < 256 ^ 2 := getLE_lt table (2 * phyBlock) 2
    unfold badFlag countErase
    rw [tableEntry, getLE_putLE_of_lt _ (by omega)]
    omega
  have marked := (countErrors_eq a.secondPage).2
  unfold scanBlock
  generalize countErrors a.secondPage = errors at *
  rw [if_neg (by rw [found.good, found.free]; decide), if_neg (not_not.2 found.read), if_neg (by rw [any]; decide)]
  dsimp only
  by_cases many : 128 < errors.2
  · have dirty := marked (by omega)
    rw [if_pos ⟨dirty, many⟩]
    refine ⟨_, rfl, iff_of_true ?_ many⟩
    unfold badFlag
    rw [tableEntry_setBadFlag, if_pos rfl, withBadFlag]
    omega
  · rw [if_neg fun both => many both.2]
    refine ⟨_, rfl, iff_of_false ?_ many⟩
    rw [counted, found.good]
    decide

/-- **The failed bits of a page are counted** exactly when the words whose bit 0 is 0 have as many
1 bits as the words whose bit 0 is 1 have 0 bits. -/
theorem counts_failed_bits_iff (page : Mem) : CountsFailedBits page ↔ onesInEven page = zerosInOdd page := by
  have split := zeroBits_split page
  constructor
  · intro counts
    have same := counts.errNum
    omega
  · intro balanced
    have same : (countErrors page).2 = zeroBits page := by omega
    refine ⟨same, fun channel a table phyBlock second found => ?_⟩
    subst second
    rw [← same]
    exact scanBlock_flags found

end Counting

/-! ## The table -/

/-- The turn of the block ends the loop: it is free, and its first page cannot be read. -/
structure StopsAt (channel : Int) (a : BlockAnswer) (table : Mem) (phyBlock : Nat) : Prop where
  good : badFlag table phyBlock = 0
  free : useFlag table phyBlock = 0
  unread : ssdRdPhyBlock channel a.first % 128 ≠ 0

/-- The scan retires the block. -/
structure Retired (channel : Int) (a : BlockAnswer) (table : Mem) (phyBlock : Nat) : Prop where
  found : FoundDirty channel a table phyBlock
  many : 128 < (countErrors a.secondPage).2

section Scan

variable {channel : Int} {a : BlockAnswer} {answer : Nat → BlockAnswer} {table table' table0 : Mem}
  {phyBlock other : Nat}

instance : Decidable (StopsAt channel a table phyBlock) :=
  decidable_of_iff (badFlag table phyBlock = 0 ∧ useFlag table phyBlock = 0 ∧ ssdRdPhyBlock channel a.first % 128 ≠ 0)
    ⟨fun ⟨good, free, unread⟩ => ⟨good, free, unread⟩, fun stops => ⟨stops.good, stops.free, stops.unread⟩⟩

theorem tableEntry_countErase : tableEntry (countErase table phyBlock) other =
    if other = phyBlock then (tableEntry table phyBlock + 1) % 8192 + tableEntry table phyBlock / 8192 * 8192
    else tableEntry table other := by
  have entry : tableEntry table phyBlock < 256 ^ 2 := getLE_lt table (2 * phyBlock) 2
  unfold countErase
  by_cases same : other = phyBlock
  · subst same
    rw [if_pos rfl]
    exact getLE_putLE_of_lt _ (by omega)
  · rw [if_neg same]
    exact getLE_putLE_disjoint _ (by omega)

/-- The turn of a block. Another entry stays, and so does the `use_flag` of its own. -/
structure ScanStep (channel : Int) (a : BlockAnswer) (table table' : Mem) (phyBlock : Nat) : Prop where
  others : ∀ other, other ≠ phyBlock → tableEntry table' other = tableEntry table other
  use : useFlag table' phyBlock = useFlag table phyBlock
  bad : badFlag table' phyBlock = 1 ↔ badFlag table phyBlock = 1 ∨ Retired channel a table phyBlock

theorem scanBlock_none : scanBlock channel a table phyBlock = none ↔ StopsAt channel a table phyBlock := by
  unfold scanBlock
  constructor
  · intro stopped
    split at stopped
    · cases stopped
    split at stopped
    · rename_i open_block unread
      exact ⟨not_not.1 fun bad => open_block (.inl bad), not_not.1 fun used => open_block (.inr used), unread⟩
    split at stopped
    · cases stopped
    · dsimp only at stopped
      split at stopped <;> cases stopped
  · intro stops
    rw [if_neg (by rw [stops.good, stops.free]; decide), if_pos stops.unread]

/-- **One block.** -/
theorem scanBlock_step (turn : scanBlock channel a table phyBlock = some table') :
    ScanStep channel a table table' phyBlock := by
  by_cases dirty : FoundDirty channel a table phyBlock
  · obtain ⟨table'', turn', marked⟩ := scanBlock_flags dirty
    obtain rfl := Option.some.inj (turn'.symm.trans turn)
    have entries : table'' = countErase table phyBlock ∨ table'' = setBadFlag (countErase table phyBlock) phyBlock := by
      obtain ⟨i, inside, word⟩ := dirty.dirty
      have any : ((List.range pageWords).any fun i => isDirty (dataBuf a.firstPage i)) = true :=
        List.any_eq_true.2 ⟨i, List.mem_range.2 inside, word⟩
      unfold scanBlock at turn
      rw [if_neg (by rw [dirty.good, dirty.free]; decide), if_neg (not_not.2 dirty.read),
        if_neg (by rw [any]; decide)] at turn
      dsimp only at turn
      split at turn
      · exact .inr (Option.some.inj turn).symm
      · exact .inl (Option.some.inj turn).symm
    refine ⟨fun other apart => ?_, ?_, ?_⟩
    · rcases entries with rfl | rfl
      · rw [tableEntry_countErase, if_neg apart]
      · rw [tableEntry_setBadFlag, if_neg apart, tableEntry_countErase, if_neg apart]
    · unfold useFlag
      rcases entries with rfl | rfl
      · rw [tableEntry_countErase, if_pos rfl]
        omega
      · rw [tableEntry_setBadFlag, if_pos rfl, tableEntry_countErase, if_pos rfl, withBadFlag]
        omega
    · rw [marked, dirty.good]
      exact ⟨fun many => .inr ⟨dirty, many⟩, fun either => either.elim (fun bad => absurd bad (by decide)) Retired.many⟩
  · -- the block is in use, bad or empty
    have same : table' = table := by
      unfold scanBlock at turn
      split at turn
      · exact (Option.some.inj turn).symm
      rename_i open_block
      split at turn
      · cases turn
      rename_i read
      split at turn
      · exact (Option.some.inj turn).symm
      rename_i any
      obtain ⟨i, inside, word⟩ := List.any_eq_true.1 ((Bool.not_eq_false _).mp any)
      exact absurd ⟨not_not.1 fun bad => open_block (.inl bad), not_not.1 fun used => open_block (.inr used),
        not_not.1 read, i, List.mem_range.1 inside, word⟩ dirty
    subst same
    exact ⟨fun _ _ => rfl, rfl, fun bad => .inl bad,
      fun either => either.elim id fun retired => absurd retired.found dirty⟩

/-- The blocks whose turn comes and ends. -/
def scanned (channel : Int) (answer : Nat → BlockAnswer) (table : Mem) (blocks : List Nat) : List Nat :=
  blocks.takeWhile fun phyBlock => decide (¬ StopsAt channel (answer phyBlock) table phyBlock)

/-! What happens to a block depends on its own entry only. -/

theorem badFlag_congr (same : tableEntry table' phyBlock = tableEntry table phyBlock) :
    badFlag table' phyBlock = badFlag table phyBlock := congrArg (· / 32768 % 2) same

theorem useFlag_congr (same : tableEntry table' phyBlock = tableEntry table phyBlock) :
    useFlag table' phyBlock = useFlag table phyBlock := congrArg (· / 16384 % 2) same

theorem StopsAt.congr (same : tableEntry table' phyBlock = tableEntry table phyBlock) :
    StopsAt channel a table' phyBlock ↔ StopsAt channel a table phyBlock := by
  have bad := badFlag_congr same
  have use := useFlag_congr same
  exact ⟨fun ⟨good, free, unread⟩ => ⟨bad ▸ good, use ▸ free, unread⟩,
    fun ⟨good, free, unread⟩ => ⟨bad ▸ good, use ▸ free, unread⟩⟩

theorem Retired.congr (same : tableEntry table' phyBlock = tableEntry table phyBlock) :
    Retired channel a table' phyBlock ↔ Retired channel a table phyBlock := by
  have bad := badFlag_congr same
  have use := useFlag_congr same
  exact ⟨fun ⟨⟨good, free, read, dirty⟩, many⟩ => ⟨⟨bad ▸ good, use ▸ free, read, dirty⟩, many⟩,
    fun ⟨⟨good, free, read, dirty⟩, many⟩ => ⟨⟨bad ▸ good, use ▸ free, read, dirty⟩, many⟩⟩

theorem scanned_stop {rest : List Nat} (stops : StopsAt channel (answer phyBlock) table phyBlock) :
    scanned channel answer table (phyBlock :: rest) = [] :=
  List.takeWhile_cons_of_neg (by simpa using stops)

theorem scanned_cons {rest : List Nat} (goes : ¬ StopsAt channel (answer phyBlock) table phyBlock) :
    scanned channel answer table (phyBlock :: rest) = phyBlock :: scanned channel answer table rest :=
  List.takeWhile_cons_of_pos (by simpa using goes)

theorem scanned_congr {blocks : List Nat}
    (same : ∀ phyBlock ∈ blocks, tableEntry table' phyBlock = tableEntry table phyBlock) :
    scanned channel answer table' blocks = scanned channel answer table blocks := by
  induction blocks with
  | nil => rfl
  | cons phyBlock rest ih =>
      have here : StopsAt channel (answer phyBlock) table' phyBlock ↔
          StopsAt channel (answer phyBlock) table phyBlock := StopsAt.congr (same phyBlock (List.mem_cons_self ..))
      by_cases stops : StopsAt channel (answer phyBlock) table phyBlock
      · rw [scanned_stop stops, scanned_stop (here.2 stops)]
      · rw [scanned_cons stops, scanned_cons (mt here.1 stops),
          ih fun other member => same other (List.mem_cons_of_mem _ member)]

/-- **The loop over the blocks**: each entry is what its own turn makes of it. -/
theorem scanBlocks_flags {blocks : List Nat} (nodup : blocks.Nodup) (table : Mem) (phyBlock : Nat) :
    (useFlag (scanBlocks channel answer blocks table) phyBlock = useFlag table phyBlock) ∧
      (badFlag (scanBlocks channel answer blocks table) phyBlock = 1 ↔ badFlag table phyBlock = 1 ∨
        phyBlock ∈ scanned channel answer table blocks ∧ Retired channel (answer phyBlock) table phyBlock) := by
  induction blocks generalizing table with
  | nil => exact ⟨rfl, .inl, fun either => either.elim id fun both => absurd both.1 List.not_mem_nil⟩
  | cons first rest ih =>
      obtain ⟨fresh, nodup⟩ := List.nodup_cons.1 nodup
      cases turn : scanBlock channel (answer first) table first with
      | none =>
          rw [scanBlocks, turn, scanned_stop (scanBlock_none.1 turn)]
          exact ⟨rfl, .inl, fun either => either.elim id fun both => absurd both.1 List.not_mem_nil⟩
      | some table' =>
          have step := scanBlock_step turn
          have goes : ¬ StopsAt channel (answer first) table first := fun stops => by
            rw [scanBlock_none.2 stops] at turn
            cases turn
          have later : scanned channel answer table' rest = scanned channel answer table rest :=
            scanned_congr fun other member => step.others other fun eq => fresh (eq ▸ member)
          obtain ⟨use, bad⟩ := ih nodup table'
          rw [scanBlocks, turn, scanned_cons goes]
          dsimp only
          rw [use, bad, later]
          by_cases same : phyBlock = first
          · subst same
            have absent : phyBlock ∉ scanned channel answer table rest := fun member =>
              fresh ((List.takeWhile_sublist _).mem member)
            refine ⟨step.use, ?_⟩
            rw [step.bad]
            constructor
            · rintro ((bad | retired) | ⟨member, -⟩)
              · exact .inl bad
              · exact .inr ⟨List.mem_cons_self .., retired⟩
              · exact absurd member absent
            · rintro (bad | ⟨-, retired⟩)
              · exact .inl (.inl bad)
              · exact .inl (.inr retired)
          · have entry := step.others phyBlock same
            refine ⟨useFlag_congr entry, ?_⟩
            rw [badFlag_congr entry, Retired.congr entry, List.mem_cons]
            exact or_congr_right (and_congr_left fun _ => ⟨.inr, fun either => either.resolve_left same⟩)

end Scan

section Update

variable {phyBlock : Nat}

theorem useFlag_eq_one (table : Mem) (phyBlock : Nat) : useFlag table phyBlock = 1 ↔ entryUsed table phyBlock = true :=
  (decide_eq_true_iff).symm

theorem dataBlocks_nodup : dataBlocks.Nodup := List.Nodup.filter _ List.nodup_range'

/-- The marks of all ids are those of one list of blocks. -/
theorem rebuildUseFlags_eq (logicBlocks : List Nat) (addrTable eraseTable : Mem) :
    rebuildUseFlags logicBlocks addrTable eraseTable =
      (logicBlocks.flatMap (correctBlocks addrTable)).foldl (fun table i => setEntryUse table i 1)
        (dataBlocks.foldl (fun table i => setEntryUse table i 0) eraseTable) := by
  unfold rebuildUseFlags markCorrectId
  rw [List.foldl_flatMap]

/-- Behind the rebuilding a data block is in use exactly when an id has it. -/
theorem useFlag_rebuilt (logicBlocks : List Nat) (addrTable eraseTable : Mem) (data : phyBlock ∈ dataBlocks) :
    useFlag (rebuildUseFlags logicBlocks addrTable eraseTable) phyBlock = 1 ↔
      ∃ logicBlock ∈ logicBlocks, phyBlock ∈ correctBlocks addrTable logicBlock := by
  rw [useFlag_eq_one, rebuildUseFlags_eq, entryUsed_foldl 1 (by decide), ← List.mem_flatMap]
  by_cases owned : phyBlock ∈ logicBlocks.flatMap (correctBlocks addrTable)
  · rw [if_pos owned]
    exact iff_of_true rfl owned
  · rw [if_neg owned, entryUsed_foldl 0 (by decide), if_pos data]
    exact iff_of_false (by decide) owned

/-- The rebuilding leaves the `bad_flag`s alone. -/
theorem badFlag_foldl (flag : Nat) (bit : flag < 2) (blocks : List Nat) (table : Mem) :
    badFlag (blocks.foldl (fun table i => setEntryUse table i flag) table) phyBlock = badFlag table phyBlock := by
  induction blocks generalizing table with
  | nil => rfl
  | cons i rest ih =>
      rw [List.foldl_cons, ih]
      unfold badFlag
      rw [tableEntry_setEntryUse i flag phyBlock bit]
      split
      · rename_i same
        subst same
        omega
      · rfl

theorem badFlag_rebuilt (logicBlocks : List Nat) (addrTable eraseTable : Mem) :
    badFlag (rebuildUseFlags logicBlocks addrTable eraseTable) phyBlock = badFlag eraseTable phyBlock := by
  rw [rebuildUseFlags_eq, badFlag_foldl 1 (by decide), badFlag_foldl 0 (by decide)]

/-- **The table that is handed to the hardware**, for every list of ids, every table and every
answer of the hardware. -/
theorem updateTable_flags {u : Update} {table : Mem} (written : (updateTable u).written = some table)
    (data : phyBlock ∈ dataBlocks) :
    (useFlag table phyBlock = 1 ↔ ∃ logicBlock ∈ u.logicBlocks, phyBlock ∈ correctBlocks u.addrTable logicBlock) ∧
      (badFlag table phyBlock = 1 ↔ badFlag u.eraseTable phyBlock = 1 ∨
        phyBlock ∈ scanned u.channel u.blocks (rebuildUseFlags u.logicBlocks u.addrTable u.eraseTable) dataBlocks ∧
          Retired u.channel (u.blocks phyBlock) (rebuildUseFlags u.logicBlocks u.addrTable u.eraseTable) phyBlock) := by
  have made : table = scanBlocks u.channel u.blocks dataBlocks
      (rebuildUseFlags u.logicBlocks u.addrTable u.eraseTable) := by
    unfold updateTable at written
    split at written
    · cases written
    split at written
    · cases written
    dsimp only at written
    split at written
    · cases written
    split at written
    · exact (Option.some.inj written).symm
    split at written
    · exact (Option.some.inj written).symm
    split at written <;> exact (Option.some.inj written).symm
  subst made
  obtain ⟨use, bad⟩ := @scanBlocks_flags u.channel u.blocks dataBlocks dataBlocks_nodup
    (rebuildUseFlags u.logicBlocks u.addrTable u.eraseTable) phyBlock
  rw [use, bad, badFlag_rebuilt]
  exact ⟨useFlag_rebuilt _ _ _ data, Iff.rfl⟩

end Update

/-! ## Five bits -/

/-- A page with five failed bits: bit 0 of the first five words. -/
def fiveBits : Mem := fun a => if a < 20 ∧ a % 4 = 0 then 0xfe else 0xff

theorem dataBuf_fiveBits (i : Nat) : dataBuf fiveBits i = if i < 5 then 0xfffffffe else 0xffffffff := by
  have first : 4 * i % 4 = 0 := by omega
  by_cases inside : i < 5
  · have low : 4 * i < 20 := by omega
    simp [dataBuf, getLE, fiveBits, first, low, inside]
  · have high : ¬ 4 * i < 20 := by omega
    simp [dataBuf, getLE, fiveBits, high, inside]

/-- A sum over the words of the page is one over the first five, when the others add nothing. -/
theorem sum_fiveBits (f : Nat → Nat) (clean : f 0xffffffff = 0) :
    ∑ i ∈ Finset.range pageWords, f (dataBuf fiveBits i) = 5 * f 0xfffffffe := by
  have short : ∑ i ∈ Finset.range 5, f (dataBuf fiveBits i) = ∑ i ∈ Finset.range pageWords, f (dataBuf fiveBits i) := by
    apply Finset.sum_subset (Finset.range_mono (by decide))
    intro i _ outside
    rw [dataBuf_fiveBits, if_neg fun less => outside (Finset.mem_range.2 less), clean]
  have same : ∀ i ∈ Finset.range 5, f (dataBuf fiveBits i) = f 0xfffffffe := by
    intro i member
    rw [dataBuf_fiveBits, if_pos (Finset.mem_range.1 member)]
  rw [← short, Finset.sum_congr rfl same, Finset.sum_const, Finset.card_range, smul_eq_mul]

/-- **Five failed bits are counted as 160**, which flags the block. -/
theorem five_failed_bits_flag : (countErrors fiveBits).2 = 160 ∧ zeroBits fiveBits = 5 ∧
    ¬ CountsFailedBits fiveBits := by
  have count : (countErrors fiveBits).2 = 160 :=
    (countErrors_eq fiveBits).1.trans (sum_fiveBits (fun word => if word % 2 = 0 then 32 else 0) (by decide))
  have bits : zeroBits fiveBits = 5 := sum_fiveBits wordZeros (by decide)
  refine ⟨count, bits, fun counts => ?_⟩
  have same := counts.errNum
  rw [count, bits] at same
  exact absurd same (by decide)

end FpgaSsd.Theory
