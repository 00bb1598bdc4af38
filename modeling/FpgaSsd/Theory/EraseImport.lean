/-
# Theory.EraseImport — every erase count arrives, whatever the order

The old controller addresses a block by FPGA, virtual flash and block, the driver by channel
and block. The conversions of `ssd_mark_erase_count` are a bijection between the two: the
plane is `4q + p` for the virtual flash `11p + q`, and the planes of a channel are interleaved
in pairs.

* `place_source`, `source_place` — the two directions;
* `addresses_nodup` — rows with different keys store at different places;
* `erase_import` — what a complete file puts into the tables, in any order of its rows.
-/
import FpgaSsd.Tools.SsdMarkEraseCount
import Mathlib.Data.Set.Function

namespace FpgaSsd.Theory

open FpgaSsd.Lib FpgaSsd.Driver FpgaSsd.Tools.SsdMarkEraseCount

set_option autoImplicit false

/-! ## The two geometries -/

/-- Where the count of a block of the old controller goes: channel and block. -/
def erasePlace (fpga vflash block : Nat) : Nat × Nat :=
  (huaweiFpgaVflashToBaiduChannel fpga vflash % 256,
    huaweiBlockToBaiduBlock (planeOffset (huaweiVflashToBaiduPlane vflash)) block)

/-- FPGA, virtual flash and block that a channel and a block of the driver had before. -/
def eraseSource (channel block : Nat) : Nat × Nat × Nat :=
  (channel / 11, (block / 4096 * 2 + block % 2) * 11 + channel % 11, block % 4096 / 2)

theorem erasePlace_eq {fpga vflash block : Nat} (chip : fpga < 4) (flash : vflash < 44) (inside : block < 2048) :
    erasePlace fpga vflash block =
      (fpga * 11 + vflash % 11, 4096 * (vflash / 11 / 2) + block * 2 + vflash / 11 % 2) := by
  simp only [erasePlace, huaweiFpgaVflashToBaiduChannel, huaweiVflashToBaiduChannel,
    baiduPlaneToBaiduChannel, planeOffset, huaweiVflashToBaiduPlane,
    huaweiBlockToBaiduBlock, pflashPerFpgaHuawei, planePerChannel, vflashPerPflashHuawei, vflashesPerFpgaHuawei,
    blockBaseFlashBaidu]
  -- the virtual flash is `11p + q`, its plane `4q + p`
  have plane : vflash * 4 % (4 * 11) + vflash / 11 = 4 * (vflash % 11) + vflash / 11 := by omega
  have few : vflash / 11 < 4 := by omega
  rw [plane]
  generalize vflash / 11 = p at *
  have small : vflash % 11 < 11 := Nat.mod_lt _ (by decide)
  generalize vflash % 11 = q at *
  have offset : (4 * q + p) % 4 = p := by omega
  have channel : (4 * q + p) / 4 = q := by omega
  rw [offset, channel]
  apply Prod.ext
  · show (fpga * 11 + q) % 256 = fpga * 11 + q
    omega
  · show (4096 * (p / 2) + block * 2 + p % 2) % 65536 = 4096 * (p / 2) + block * 2 + p % 2
    omega

theorem place_bounds {fpga vflash block : Nat} (chip : fpga < 4) (flash : vflash < 44) (inside : block < 2048) :
    (erasePlace fpga vflash block).1 < ssdMaxChannel ∧ (erasePlace fpga vflash block).2 < 8192 := by
  rw [erasePlace_eq chip flash inside]
  simp only [ssdMaxChannel]
  omega

theorem source_bounds {channel block : Nat} (below : channel < ssdMaxChannel) (inside : block < 8192) :
    (eraseSource channel block).1 < 4 ∧ (eraseSource channel block).2.1 < 44 ∧
    (eraseSource channel block).2.2 < 2048 := by
  simp only [eraseSource, ssdMaxChannel] at *
  omega

theorem place_source {channel block : Nat} (below : channel < ssdMaxChannel) (inside : block < 8192) :
    erasePlace (eraseSource channel block).1 (eraseSource channel block).2.1 (eraseSource channel block).2.2 =
      (channel, block) := by
  obtain ⟨chip, flash, small⟩ := source_bounds below inside
  rw [erasePlace_eq chip flash small]
  simp only [eraseSource, ssdMaxChannel] at *
  have plane : ((block / 4096 * 2 + block % 2) * 11 + channel % 11) / 11 = block / 4096 * 2 + block % 2 := by omega
  have rest : ((block / 4096 * 2 + block % 2) * 11 + channel % 11) % 11 = channel % 11 := by omega
  rw [plane, rest]
  apply Prod.ext
  · show channel / 11 * 11 + channel % 11 = channel
    omega
  · show 4096 * ((block / 4096 * 2 + block % 2) / 2) + block % 4096 / 2 * 2 + (block / 4096 * 2 + block % 2) % 2 = block
    omega

theorem source_place {fpga vflash block : Nat} (chip : fpga < 4) (flash : vflash < 44) (inside : block < 2048) :
    eraseSource (erasePlace fpga vflash block).1 (erasePlace fpga vflash block).2 = (fpga, vflash, block) := by
  rw [erasePlace_eq chip flash inside]
  have few : vflash / 11 < 4 := by omega
  have small : vflash % 11 < 11 := Nat.mod_lt _ (by decide)
  have whole : vflash = vflash / 11 * 11 + vflash % 11 := by omega
  simp only [eraseSource, Prod.mk.injEq]
  generalize vflash / 11 = p at *
  generalize vflash % 11 = q at *
  omega

/-- The conversions are a bijection between the two geometries. -/
theorem erasePlace_bijOn : Set.BijOn (fun s : Nat × Nat × Nat => erasePlace s.1 s.2.1 s.2.2)
    {s | s.1 < fpgasHuawei ∧ s.2.1 < vflashesPerFpgaHuawei ∧ s.2.2 < 2048}
    {p | p.1 < ssdMaxChannel ∧ p.2 < ssdMaxPhyblocksPerChannel} := by
  have inverse : Set.InvOn (fun p : Nat × Nat => eraseSource p.1 p.2)
      (fun s : Nat × Nat × Nat => erasePlace s.1 s.2.1 s.2.2)
      {s | s.1 < fpgasHuawei ∧ s.2.1 < vflashesPerFpgaHuawei ∧ s.2.2 < 2048}
      {p | p.1 < ssdMaxChannel ∧ p.2 < ssdMaxPhyblocksPerChannel} := by
    constructor
    · intro s inside
      exact source_place inside.1 inside.2.1 inside.2.2
    · intro p inside
      exact place_source inside.1 inside.2
  apply inverse.bijOn
  · intro s inside
    exact place_bounds inside.1 inside.2.1 inside.2.2
  · intro p inside
    exact source_bounds inside.1 inside.2

/-! ## One row -/

/-- Eight counts of blocks in a row, each -1 or a 13-bit number. -/
structure ValidRow (row : Row) : Prop where
  fpga : row.fpga < fpgasHuawei
  vflash : row.vflash < vflashesPerFpgaHuawei
  startBlock : row.startBlock < 2048
  aligned : row.startBlock % blockPerRow = 0
  eight : row.eraseCount.length = blockPerRow
  counts : ∀ n ∈ row.eraseCount, n = -1 ∨ 0 ≤ n ∧ n ≤ 8191

/-- What tells two rows of the file apart. -/
def rowKey (row : Row) : Nat × Nat × Nat := (row.fpga, row.vflash, row.startBlock)

section Rows

variable {row row' : Row} {rows rows' : List Row}

/-- The loop makes its eight rounds; the counters do not wrap. -/
theorem storesFrom_eq (start : row.startBlock < 2048) (left : Nat) (few : left ≤ blockPerRow) :
    storesFrom row (row.startBlock + (blockPerRow - left)) (blockPerRow - left) =
      (List.range' (blockPerRow - left) left).map fun i => storeAt row (row.startBlock + i) i := by
  induction left with
  | zero =>
      unfold storesFrom
      rw [if_neg fun more => Nat.lt_irrefl _ more.2]
      rfl
  | succ left ih =>
      simp only [blockPerRow] at *
      have more : row.startBlock + (8 - (left + 1)) < row.startBlock + blockPerRow ∧ 8 - (left + 1) < blockPerRow := by
        simp only [blockPerRow]
        omega
      unfold storesFrom
      rw [if_pos more, List.range'_succ, List.map_cons]
      have block : (row.startBlock + (8 - (left + 1)) + 1) % 65536 = row.startBlock + (8 - left) := by omega
      have index : (8 - (left + 1) + 1) % 65536 = 8 - left := by omega
      have next : 8 - (left + 1) + 1 = 8 - left := by omega
      rw [block, index, next, ih (by omega)]

/-- The stores of a row, one for each of its blocks. -/
theorem stores_eq (valid : ValidRow row) :
    stores row = (List.range blockPerRow).map fun i => storeAt row (row.startBlock + i) i := by
  have start := valid.startBlock
  have rounds := storesFrom_eq start blockPerRow (Nat.le_refl _)
  rw [List.range_eq_range']
  have fits : row.startBlock % 65536 = row.startBlock := Nat.mod_eq_of_lt (by omega)
  rw [stores, fits]
  exact rounds

theorem addresses_eq (valid : ValidRow row) : (stores row).map Write.address =
    (List.range blockPerRow).map fun i => erasePlace row.fpga row.vflash (row.startBlock + i) := by
  rw [stores_eq valid, List.map_map]
  rfl

/-- The blocks of a row are blocks of the old controller. -/
theorem block_bounds (valid : ValidRow row) {i : Nat} (round : i < blockPerRow) : row.startBlock + i < 2048 := by
  have start := valid.startBlock
  have aligned := valid.aligned
  simp only [blockPerRow] at *
  omega

/-- A place belongs to a row exactly when the row has the block that was there before. -/
theorem mem_addresses (valid : ValidRow row) {channel block : Nat} (below : channel < ssdMaxChannel)
    (inside : block < 8192) :
    (channel, block) ∈ (stores row).map Write.address ↔
      rowKey row = ((eraseSource channel block).1, (eraseSource channel block).2.1,
        (eraseSource channel block).2.2 / blockPerRow * blockPerRow) := by
  have aligned := valid.aligned
  rw [addresses_eq valid, List.mem_map]
  constructor
  · intro found
    obtain ⟨i, member, place⟩ := found
    have round := List.mem_range.1 member
    have back := source_place valid.fpga valid.vflash (block_bounds valid round)
    rw [place] at back
    show rowKey row = _
    rw [back]
    simp only [rowKey, blockPerRow, Prod.mk.injEq, true_and] at *
    omega
  · intro key
    simp only [rowKey, Prod.mk.injEq] at key
    refine ⟨(eraseSource channel block).2.2 % blockPerRow, List.mem_range.2 (Nat.mod_lt _ (by decide)), ?_⟩
    have whole : row.startBlock + (eraseSource channel block).2.2 % blockPerRow = (eraseSource channel block).2.2 := by
      rw [key.2.2]
      exact Nat.div_add_mod' ..
    rw [whole, key.1, key.2.1]
    exact place_source below inside

/-- A row stores only in the tables. -/
theorem addresses_bounds (valid : ValidRow row) {place : Nat × Nat} (member : place ∈ (stores row).map Write.address) :
    place.1 < ssdMaxChannel ∧ place.2 < 8192 := by
  rw [addresses_eq valid, List.mem_map] at member
  obtain ⟨i, round, rfl⟩ := member
  exact place_bounds valid.fpga valid.vflash (block_bounds valid (List.mem_range.1 round))

/-- A row stores at no place twice. -/
theorem row_nodup (valid : ValidRow row) : ((stores row).map Write.address).Nodup := by
  rw [addresses_eq valid]
  apply List.Nodup.map_on _ List.nodup_range
  intro i member j member' same
  have left := source_place valid.fpga valid.vflash (block_bounds valid (List.mem_range.1 member))
  have right := source_place valid.fpga valid.vflash (block_bounds valid (List.mem_range.1 member'))
  rw [same, right] at left
  simp only [Prod.mk.injEq, true_and] at left
  omega

/-! ## The whole file -/

/-- A file with every row once. -/
structure CompleteRows (rows : List Row) : Prop where
  valid : ∀ row ∈ rows, ValidRow row
  once : (rows.map rowKey).Nodup
  all : ∀ fpga < fpgasHuawei, ∀ vflash < vflashesPerFpgaHuawei, ∀ start < 2048, start % blockPerRow = 0 →
    (fpga, vflash, start) ∈ rows.map rowKey

/-- The file has this count for the block that a channel and a block of the driver were before. -/
def SourceCount (rows : List Row) (channel block : Nat) (n : Int) : Prop :=
  ∃ row ∈ rows, ∃ i < blockPerRow, (row.fpga, row.vflash, row.startBlock + i) = eraseSource channel block ∧
    row.eraseCount[i]? = some n

/-- The entry of a block for its count: the count itself, or the mark of a bad block. -/
def Imported (block : Nat) (n : Int) (entry : EraseEntryMap) : Prop :=
  entry.block = block ∧ if n = -1 then entry.ee.eraseTimes = 8191 ∧ entry.ee.badFlag = 1
    else (entry.ee.eraseTimes : Int) = n ∧ entry.ee.badFlag = 0

theorem main_eq (rows : List Row) (tables : BaiduTable) :
    main rows tables = runWrites (rows.flatMap stores) tables := by
  induction rows generalizing tables with
  | nil => rfl
  | cons row rest ih =>
      rw [List.flatMap_cons, runWrites_append]
      exact ih _

/-- No place is stored at twice: the rows of a place all have the key of its source. -/
theorem addresses_nodup (valid : ∀ row ∈ rows, ValidRow row) (once : (rows.map rowKey).Nodup) :
    ((rows.flatMap stores).map Write.address).Nodup := by
  rw [List.map_flatMap, List.nodup_flatMap]
  constructor
  · intro row member
    exact row_nodup (valid row member)
  · have distinct := List.pairwise_map.1 once
    apply distinct.imp_of_mem
    intro x y member member' different place left right
    obtain ⟨below, inside⟩ := addresses_bounds (valid x member) left
    apply different
    rw [(mem_addresses (valid x member) below inside).1 left, (mem_addresses (valid y member') below inside).1 right]

theorem eraseEntry_imported {block : Nat} {n : Int} (range : n = -1 ∨ 0 ≤ n ∧ n ≤ 8191) :
    Imported block n ⟨block, eraseEntry n⟩ := by
  refine ⟨rfl, ?_⟩
  unfold eraseEntry
  by_cases bad : n = -1
  · rw [if_pos bad, if_pos bad]
    exact ⟨rfl, rfl⟩
  · rw [if_neg bad, if_neg bad]
    constructor
    · show ((n % 8192).toNat : Int) = n
      omega
    · rfl

section Sources

variable {channel block : Nat} {n : Int}

/-- The entry for a count is stored at the place of its block. -/
theorem source_stored (complete : CompleteRows rows) (below : channel < ssdMaxChannel) (inside : block < 8192)
    (source : SourceCount rows channel block n) : ⟨(channel, block), ⟨block, eraseEntry n⟩⟩ ∈ rows.flatMap stores := by
  obtain ⟨row, member, i, round, same, count⟩ := source
  have place : erasePlace row.fpga row.vflash (row.startBlock + i) = (channel, block) := by
    rw [← place_source below inside, ← same]
  have store : storeAt row (row.startBlock + i) i =
      ⟨erasePlace row.fpga row.vflash (row.startBlock + i), (erasePlace row.fpga row.vflash (row.startBlock + i)).2,
        eraseEntry (row.eraseCount.getD i 0)⟩ := rfl
  rw [place, List.getD_eq_getElem?_getD, count] at store
  rw [List.mem_flatMap]
  refine ⟨row, member, ?_⟩
  rw [stores_eq (complete.valid row member), List.mem_map]
  exact ⟨i, List.mem_range.2 round, store⟩

theorem source_range (complete : CompleteRows rows) (source : SourceCount rows channel block n) :
    n = -1 ∨ 0 ≤ n ∧ n ≤ 8191 := by
  obtain ⟨row, member, i, round, same, count⟩ := source
  exact (complete.valid row member).counts n (List.mem_of_getElem? count)

/-- A complete file has a count for every block. -/
theorem exists_source (complete : CompleteRows rows) (below : channel < ssdMaxChannel) (inside : block < 8192) :
    ∃ n, SourceCount rows channel block n := by
  obtain ⟨chip, flash, small⟩ := source_bounds below inside
  have start : (eraseSource channel block).2.2 / blockPerRow * blockPerRow < 2048 :=
    Nat.lt_of_le_of_lt (Nat.div_mul_le_self ..) small
  have key := complete.all _ chip _ flash _ start (Nat.mul_mod_left ..)
  obtain ⟨row, member, key⟩ := List.mem_map.1 key
  simp only [rowKey, Prod.mk.injEq] at key
  have round : (eraseSource channel block).2.2 % blockPerRow < blockPerRow := Nat.mod_lt _ (by decide)
  have length : (eraseSource channel block).2.2 % blockPerRow < row.eraseCount.length := by
    rw [(complete.valid row member).eight]
    exact round
  refine ⟨_, row, member, _, round, ?_, List.getElem?_eq_getElem length⟩
  rw [key.1, key.2.1, key.2.2, Nat.div_add_mod']

end Sources

/-- **The import is a bijection, in any order of the rows**: the conversions are one, every
entry is stored exactly once and holds the count of its source, nothing else is stored, and
a permutation of the rows gives the same tables. -/
theorem erase_import (rows : List Row) (complete : CompleteRows rows) :
    Set.BijOn (fun s : Nat × Nat × Nat => erasePlace s.1 s.2.1 s.2.2)
      {s | s.1 < fpgasHuawei ∧ s.2.1 < vflashesPerFpgaHuawei ∧ s.2.2 < 2048}
      {p | p.1 < ssdMaxChannel ∧ p.2 < ssdMaxPhyblocksPerChannel} ∧
    (∀ channel < ssdMaxChannel, ∀ block < ssdMaxPhyblocksPerChannel,
      ((rows.flatMap stores).map Write.address).count (channel, block) = 1 ∧
      (∃ n, SourceCount rows channel block n) ∧
      ∀ n, SourceCount rows channel block n → ∀ tables, Imported block n (main rows tables (channel, block))) ∧
    (∀ w ∈ rows.flatMap stores, w.address.1 < ssdMaxChannel ∧ w.address.2 < ssdMaxPhyblocksPerChannel) ∧
    ∀ rows', rows'.Perm rows → ∀ tables, main rows' tables = main rows tables := by
  have once := addresses_nodup complete.valid complete.once
  refine ⟨erasePlace_bijOn, fun channel below block inside => ?_, fun w member => ?_, fun rows' same tables => ?_⟩
  · have source := exists_source complete below inside
    refine ⟨?_, source, fun n source tables => ?_⟩
    · obtain ⟨n, source⟩ := source
      exact List.count_eq_one_of_mem once (List.mem_map_of_mem (source_stored complete below inside source))
    · have here := runWrites_of_mem tables once (source_stored complete below inside source)
      rw [main_eq, here]
      exact eraseEntry_imported (source_range complete source)
  · obtain ⟨row, member, stored⟩ := List.mem_flatMap.1 member
    exact addresses_bounds (complete.valid row member) (List.mem_map_of_mem stored)
  · rw [main_eq, main_eq]
    exact (runWrites_perm tables once (same.symm.flatMap_right stores)).symm

/-! ### A file in the order of the old controller -/

/-- The row at a position of the file; the counts repeat, with a bad block in each row. -/
def rowAt (n : Nat) : Row := ⟨n / 11264, n / 256 % 44, n % 256 * 8, [-1, 0, 1, 2, 3, 100, 8190, 8191]⟩

theorem rowAt_complete : CompleteRows ((List.range 45056).map rowAt) := by
  constructor
  · intro row member
    obtain ⟨n, inside, rfl⟩ := List.mem_map.1 member
    have below := List.mem_range.1 inside
    constructor
    · show n / 11264 < 4
      omega
    · exact Nat.mod_lt _ (by decide)
    · show n % 256 * 8 < 2048
      omega
    · show n % 256 * 8 % 8 = 0
      omega
    · rfl
    · show ∀ n ∈ [(-1 : Int), 0, 1, 2, 3, 100, 8190, 8191], n = -1 ∨ 0 ≤ n ∧ n ≤ 8191
      decide
  · rw [List.map_map]
    apply List.Nodup.map_on _ List.nodup_range
    intro n member n' member' same
    simp only [Function.comp_apply, rowKey, rowAt, Prod.mk.injEq] at same
    omega
  · intro fpga chip vflash flash start inside aligned
    simp only [fpgasHuawei, vflashesPerFpgaHuawei, vflashPerPflashHuawei, pflashPerFpgaHuawei, blockPerRow] at *
    rw [List.map_map, List.mem_map]
    refine ⟨fpga * 11264 + vflash * 256 + start / 8, List.mem_range.2 (by omega), ?_⟩
    simp only [Function.comp_apply, rowKey, rowAt, Prod.mk.injEq]
    omega

/-- Read backwards, the file has the same entry: block 8 of channel 0 was block 4 of the first row. -/
theorem rowAt_imported : Imported 8 3 (main ((List.range 45056).map rowAt).reverse
    (fun _ => ⟨0, 0, 0, 0, 0⟩) (0, 8)) := by
  obtain ⟨_, filled, _, ordered⟩ := erase_import _ rowAt_complete
  have source : SourceCount ((List.range 45056).map rowAt) 0 8 3 :=
    ⟨rowAt 0, List.mem_map_of_mem (List.mem_range.2 (by decide)), 4, by decide, rfl, rfl⟩
  rw [ordered _ (List.reverse_perm _)]
  exact (filled 0 (by decide) 8 (by decide)).2.2 3 source _

end Rows

end FpgaSsd.Theory
