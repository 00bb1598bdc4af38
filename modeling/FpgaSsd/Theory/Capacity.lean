/-
# Theory.Capacity — when an allocation fails

The allocator records free blocks in three places, and moves them between these
only when it runs out. What that means for a caller:

* `alloc_iblock_exact` — one block is found whenever any block is free;
* `alloc_dblock_room` — five blocks are found whenever five consecutive ones are
  free on one side of `current_free_area`, in every state that writes and deletes
  reach; `room_across_current` is a state where they lie on both sides.
-/
import FpgaSsd.Theory.Effects

namespace FpgaSsd.Theory

open FpgaSsd.Lib FpgaSsd.Driver

set_option autoImplicit false

/-! ## One block -/

section Iblock

variable {s s' : ChannelSpace} {used : List Extent} {ret : Int}

theorem findBit_full {m : Bitmap} (none : ssdMaxVirblocksPerChannel ≤
    bitmapFindNextZeroArea m ssdMaxVirblocksPerChannel 0 1) {b : Nat}
    (inside : b < ssdMaxVirblocksPerChannel) : m b = true := by
  by_contra zero
  have := findBit_lt_of_zero inside (by simpa using zero)
  omega

theorem findBit_none {m : Bitmap} (full : ∀ b < ssdMaxVirblocksPerChannel, m b = true) :
    ¬ bitmapFindNextZeroArea m ssdMaxVirblocksPerChannel 0 1 < ssdMaxVirblocksPerChannel := by
  intro below
  have zero := findBit_lt below
  rw [full _ below] at zero
  cases zero

theorem zeros_full {m : Bitmap} (none : ssdMaxVirblocksPerChannel ≤
    bitmapFindNextZeroArea m ssdMaxVirblocksPerChannel 0 1) :
    zeros m ssdMaxVirblocksPerChannel = [] := zeros_eq_nil fun _ => findBit_full none

theorem bitmapSplit_none (ok : SpaceOk s used)
    (none : (bitmapSplit s.area.dblock s.area.iblock).1 < 0) :
    ssdMaxVirblocksPerChannel ≤
      bitmapFindNextZeroArea s.area.dblock.areaMap ssdMaxVirblocksPerChannel 0 1 := by
  simp only [bitmapSplit, ok.iblockType, ok.dblockType] at none
  split at none
  · rename_i bad
    simp at bad
  split at none
  · assumption
  · exact absurd none (by simp)

/-- No zero bit, no head bit and no area: nothing is free. -/
theorem nothing_free (ok : SpaceOk s used)
    (iblock : zeros s.area.iblock.areaMap ssdMaxVirblocksPerChannel = [])
    (dblock : zeros s.area.dblock.areaMap ssdMaxVirblocksPerChannel = [])
    (current : s.currentFreeArea = ssdMaxVirblocksPerChannel) : s.freeBlocks = 0 := by
  rw [ok.free, freeExtents, sum_freeExtentsOf, iblock, dblock, current]
  simp

/-- Two passes of the loop are enough, and a third changes nothing. -/
theorem allocIblock_stable {fuel : Nat} (enough : 2 ≤ fuel) :
    allocIblock fuel s = ssdAllocLogicBlock s .iblock := by
  have second : ∀ s' : ChannelSpace, (∃ b, b < ssdMaxVirblocksPerChannel ∧
      s'.area.iblock.areaMap b = false) → ∀ m n, allocIblock (m + 1) s' = allocIblock (n + 1) s' := by
    rintro s' ⟨b, inside, zero⟩ m n
    have found := findBit_lt_of_zero inside zero
    simp only [allocIblock]
    rw [if_pos found, if_pos found]
  obtain ⟨k, rfl⟩ := Nat.exists_eq_add_of_le' enough
  simp only [ssdAllocLogicBlock]
  rw [allocIblock, allocIblock]
  by_cases unit : bitmapFindNextZeroArea s.area.iblock.areaMap ssdMaxVirblocksPerChannel 0 1 <
      ssdMaxVirblocksPerChannel
  · simp only [if_pos unit]
  simp only [if_neg unit]
  by_cases head : 0 ≤ (bitmapSplit s.area.dblock s.area.iblock).1
  · simp only [if_pos head]
    exact second _ (bitmapSplit_zero head) k 0
  · simp only [if_neg head]

/-- An allocation that fails leaves nothing behind, and nothing was free. -/
theorem allocIblock_full {fuel : Nat} (ok : SpaceOk s used)
    (run : allocIblock fuel s = some (-errAllocBlock, s')) : s.freeBlocks = 0 := by
  induction fuel generalizing s with
  | zero => cases run
  | succ fuel ih =>
      simp only [allocIblock] at run
      split at run
      · cases run
      rename_i noUnit
      split at run
      · rename_i found
        have moved := bitmapSplit_spec ok rfl found
        rw [freeBlocks_congr moved ok]
        exact ih moved run
      rename_i noHead
      split at run
      · cases run
      · rename_i noArea
        have current := ok.current
        refine nothing_free ok (zeros_full (by omega)) (zeros_full (bitmapSplit_none ok (by omega))) ?_
        simp only [BlockType.size_iblock] at noArea
        omega

/-- What a 2M allocation takes. -/
theorem alloc_iblock_takes {ret : Int} (ok : SpaceOk s used) (alloc : ssdAllocLogicBlock s .iblock = some (ret, s')) :
    (ret = -errAllocBlock ↔ s.freeBlocks = 0) ∧
      (ret ≠ -errAllocBlock → ∃ b : Nat, ret = b ∧ b ∈ freeSet s ∧ freeSet s' = freeSet s \ {b} ∧
        s'.freeBlocks = s.freeBlocks - 1) := by
  rcases ssdAllocLogicBlock_spec ok alloc with ⟨rfl, -⟩ | ⟨b, rfl, fits, moved⟩
  · exact ⟨⟨fun _ => allocIblock_full ok alloc, fun _ => rfl⟩, fun differs => absurd rfl differs⟩
  have free : b ∈ freeSet s := by
    have once := moved.tiles.separate.append_right b
    rw [multiplicity_cons, if_pos ⟨le_rfl, by simp⟩] at once
    exact (mem_freeSet ok).2 ⟨by simpa using fits, by omega⟩
  have removed : freeSet s' = freeSet s \ {b} := by
    ext b'
    rw [mem_freeSet moved, Set.mem_sdiff, mem_freeSet ok, multiplicity_cons, Set.mem_singleton_iff]
    by_cases same : b' = b
    · simp [same]
    · rw [if_neg (by simp only [BlockType.size_iblock]; omega)]
      simp [same]
  have count := freeBlocks_eq_ncard ok
  have count' := freeBlocks_eq_ncard moved
  have finite := freeSet_finite ok
  have smaller := Set.ncard_sdiff_singleton_add_one free finite
  rw [← removed] at smaller
  refine ⟨⟨fun negative => ?_, fun empty => ?_⟩, fun _ => ⟨b, rfl, free, removed, by omega⟩⟩
  · simp only [errAllocBlock] at negative
    omega
  · omega

/-- **A 2M allocation ends after at most one retry, and fails exactly on a full
channel.** Otherwise it takes one free block. -/
theorem alloc_iblock_exact (ok : SpaceOk s used) : ∃ ret s',
    (∀ fuel, 2 ≤ fuel → allocIblock fuel s = some (ret, s')) ∧
      ssdAllocLogicBlock s .iblock = some (ret, s') ∧
      (ret = -errAllocBlock ↔ s.freeBlocks = 0) ∧
      (ret ≠ -errAllocBlock → ∃ b : Nat, ret = b ∧ b ∈ freeSet s ∧ freeSet s' = freeSet s \ {b} ∧
        s'.freeBlocks = s.freeBlocks - 1) := by
  obtain ⟨⟨ret, s'⟩, alloc⟩ := Option.isSome_iff_exists.1 (ssdAllocLogicBlock_isSome s .iblock)
  exact ⟨ret, s', fun fuel enough => (allocIblock_stable enough).trans alloc, alloc, alloc_iblock_takes ok alloc⟩

/-- A channel with a 2M block at each end of a 10M one, and a hole between. -/
def mixedSpace : ChannelSpace := reloadSpace fun b => decide (b = 0 ∨ 3 ≤ b ∧ b < 8 ∨ b = 9)

theorem mixedSpace_ok : SpaceOk mixedSpace [⟨0, 1⟩, ⟨3, 5⟩, ⟨9, 1⟩] := by
  refine reloadSpace_spec (fun b => ?_) (fun e member => ?_) fun b => ?_
  · simp only [multiplicity_cons, multiplicity_nil]
    split_ifs <;> omega
  · simp only [List.mem_cons, List.not_mem_nil, or_false] at member
    rcases member with rfl | rfl | rfl <;> decide
  · simp only [decide_eq_true_eq, List.mem_cons, List.not_mem_nil, or_false, exists_eq_or_imp, exists_eq_left]
    omega

/-- On that channel a block is free, so one is taken. -/
theorem alloc_iblock_exact_mixed : mixedSpace.freeBlocks ≠ 0 ∧ ∃ ret s',
    (∀ fuel, 2 ≤ fuel → allocIblock fuel mixedSpace = some (ret, s')) ∧
      ssdAllocLogicBlock mixedSpace .iblock = some (ret, s') ∧
      (ret = -errAllocBlock ↔ mixedSpace.freeBlocks = 0) ∧
      (ret ≠ -errAllocBlock → ∃ b : Nat, ret = b ∧ b ∈ freeSet mixedSpace ∧
        freeSet s' = freeSet mixedSpace \ {b} ∧ s'.freeBlocks = mixedSpace.freeBlocks - 1) := by
  have free : 1 ∈ freeSet mixedSpace := (mem_freeSet mixedSpace_ok).2 ⟨by decide, by decide⟩
  have count := freeBlocks_eq_ncard mixedSpace_ok
  have positive := (Set.ncard_pos (freeSet_finite mixedSpace_ok)).2 ⟨1, free⟩
  exact ⟨by omega, alloc_iblock_exact mixedSpace_ok⟩

theorem emptyChannel_space : emptyChannel.space = reloadSpace fun _ => false := by
  -- neither side is to be evaluated
  have field : ∀ s, { emptyChannel with space := s }.space = s := fun _ => rfl
  exact field (reloadSpace fun _ => false)

theorem emptySpace_ok : SpaceOk emptyChannel.space [] := by
  rw [emptyChannel_space]
  exact reloadSpace_spec (fun _ => by simp) (fun _ member => by cases member) (by simp)

end Iblock

/-! ## Workloads -/

/-- The states that writes of some sizes, deletes and a further kind of step reach,
each request with any outcomes. -/
inductive Workload (sizes : WriteParam → Prop) (cycle : Device → Device → Prop) (start : Device) :
    Device → Prop
  | here : Workload sizes cycle start start
  | write {d d' : Device} {ret : Int} (before : Workload sizes cycle start d) (p : WriteParam)
      (size : sizes p) (run : Run anyOutcome (ssdIdWrite p) d ret d') : Workload sizes cycle start d'
  | delete {d d' : Device} {ret : Int} (before : Workload sizes cycle start d) (id : BlockId)
      (run : Run anyOutcome (ssdIdDelete id) d ret d') : Workload sizes cycle start d'
  | cycle {d d' : Device} (before : Workload sizes cycle start d) (step : cycle d d') :
      Workload sizes cycle start d'

/-- Writes of both sizes and deletes, nothing else. -/
abbrev WritesAndDeletes : Device → Device → Prop :=
  Workload (fun _ => True) (fun _ _ => False)

/-- Every channel is partitioned, in every state of a workload. -/
theorem Workload.inv {sizes : WriteParam → Prop} {cycle : Device → Device → Prop}
    {start d : Device} (run : Workload sizes cycle start d) (ready : Inv idle (ledger start))
    (cycles : ∀ d d', cycle d d' → Inv idle (ledger d) → Inv idle (ledger d')) :
    Inv idle (ledger d) := by
  induction run with
  | here => exact ready
  | write _ p _ run ih => exact (ssdIdWrite_inv p ih).runs run
  | delete _ id run ih => exact (ssdIdDelete_inv id ih).runs run
  | cycle _ step ih => exact cycles _ _ step ih

/-! ## Five blocks -/

section Dblock

variable {s s' : ChannelSpace} {used : List Extent} {ret : Int}

theorem mergeLoop_count {blocks fuel start : Nat} {acc : Nat × Bitmap × Bitmap} :
    acc.1 ≤ (mergeLoop blocks fuel start acc).1 := by
  induction fuel generalizing start acc with
  | zero => exact le_rfl
  | succ fuel ih =>
      obtain ⟨count, src, dst⟩ := acc
      simp only [mergeLoop]
      split
      · split
        · exact le_rfl
        · have later := @ih
            (bitmapFindNextZeroArea src ssdMaxVirblocksPerChannel start blocks + blocks)
            (count + 1, bitmapSet src (bitmapFindNextZeroArea src ssdMaxVirblocksPerChannel start blocks)
              blocks, bitmapClear dst
                (bitmapFindNextZeroArea src ssdMaxVirblocksPerChannel start blocks) 1)
          simp only at later
          omega
      · exact le_rfl

/-- A merge that finds nothing saw no five consecutive zero bits. -/
theorem bitmapMerge_none (ok : SpaceOk s used)
    (none : (bitmapMerge s.area.iblock s.area.dblock).1 ≤ 0) (b : Nat)
    (inside : b + 5 ≤ ssdMaxVirblocksPerChannel) :
    ∃ i, b ≤ i ∧ i < b + 5 ∧ s.area.iblock.areaMap i = true := by
  simp only [bitmapMerge, ok.iblockType, ok.dblockType, BlockType.size_dblock] at none
  rw [if_neg (by simp), mergeLoop] at none
  simp only [ssdMaxVirblocksPerChannel, Nat.zero_lt_succ, if_true] at none
  split at none
  · rename_i beyond
    rcases findNextZeroArea_spec s.area.iblock.areaMap 8000 0 (k := 5) (by omega) with
      ⟨fits, -⟩ | ⟨-, full⟩
    · omega
    · exact full b (Nat.zero_le b) inside
  · have := @mergeLoop_count 5 8000 (bitmapFindNextZeroArea s.area.iblock.areaMap 8000 0 5 + 5)
      (0 + 1, bitmapSet s.area.iblock.areaMap (bitmapFindNextZeroArea s.area.iblock.areaMap 8000 0 5) 5,
        bitmapClear s.area.dblock.areaMap (bitmapFindNextZeroArea s.area.iblock.areaMap 8000 0 5) 1)
    simp only at this none
    omega

/-- What is left when an allocation of five blocks fails. -/
structure Cramped (s : ChannelSpace) : Prop where
  heads : ∀ b < ssdMaxVirblocksPerChannel, s.area.dblock.areaMap b = true
  area : ssdMaxVirblocksPerChannel < s.currentFreeArea + 5
  runs : ∀ b, b + 5 ≤ ssdMaxVirblocksPerChannel →
    ∃ i, b ≤ i ∧ i < b + 5 ∧ s.area.iblock.areaMap i = true

theorem alloc_dblock_cramped (ok : SpaceOk s used)
    (run : ssdAllocLogicBlock s .dblock = some (-errAllocBlock, s')) : Cramped s := by
  simp only [ssdAllocLogicBlock, allocDblock, ok.dblockType, BlockType.size_dblock] at run
  split at run
  · cases run
  rename_i noHead
  split at run
  · cases run
  rename_i noArea
  split at run
  · rename_i merged
    obtain ⟨b, inside, zero⟩ := bitmapMerge_zero merged
    rw [if_pos (findBit_lt_of_zero inside zero)] at run
    cases run
  · rename_i noRun
    exact ⟨fun b => findBit_full (by omega), by omega, bitmapMerge_none ok (by omega)⟩

/-- Conversely, such an allocation fails. -/
theorem Cramped.alloc (cramped : Cramped s) (ok : SpaceOk s used) :
    ssdAllocLogicBlock s .dblock = some (-errAllocBlock, s) := by
  have noRun : ssdMaxVirblocksPerChannel ≤
      bitmapFindNextZeroArea s.area.iblock.areaMap ssdMaxVirblocksPerChannel 0 5 := by
    rcases findNextZeroArea_spec s.area.iblock.areaMap ssdMaxVirblocksPerChannel 0 (k := 5)
      (by omega) with ⟨fits, -, free, -⟩ | ⟨beyond, -⟩
    · obtain ⟨i, lo, hi, one⟩ := cramped.runs _ fits
      rw [free i lo hi] at one
      cases one
    · omega
  have noMerge : ¬ 0 < (bitmapMerge s.area.iblock s.area.dblock).1 := by
    simp only [bitmapMerge, ok.iblockType, ok.dblockType, BlockType.size_dblock]
    rw [if_neg (by simp), mergeLoop]
    simp only [if_pos noRun, ite_self]
    exact (by decide : ¬ (0 : Int) < ((0 : Nat) : Int))
  have area := cramped.area
  rw [ssdAllocLogicBlock, allocDblock]
  simp only [ok.dblockType]
  rw [if_neg (findBit_none cramped.heads),
    if_neg (show ¬ s.currentFreeArea + BlockType.dblock.size ≤ _ from by
      simp only [BlockType.size_dblock]; omega), if_neg noMerge]

theorem allocDblock_stable {fuel : Nat} (enough : 2 ≤ fuel) :
    allocDblock fuel s = ssdAllocLogicBlock s .dblock := by
  have second : ∀ s' : ChannelSpace, (∃ b, b < ssdMaxVirblocksPerChannel ∧
      s'.area.dblock.areaMap b = false) → ∀ m n, allocDblock (m + 1) s' = allocDblock (n + 1) s' := by
    rintro s' ⟨b, inside, zero⟩ m n
    have found := findBit_lt_of_zero inside zero
    simp only [allocDblock]
    rw [if_pos found, if_pos found]
  obtain ⟨k, rfl⟩ := Nat.exists_eq_add_of_le' enough
  simp only [ssdAllocLogicBlock]
  rw [allocDblock, allocDblock]
  by_cases head : bitmapFindNextZeroArea s.area.dblock.areaMap ssdMaxVirblocksPerChannel 0 1 <
      ssdMaxVirblocksPerChannel
  · simp only [if_pos head]
  simp only [if_neg head]
  by_cases area : s.currentFreeArea + s.area.dblock.type.size ≤ ssdMaxVirblocksPerChannel
  · simp only [if_pos area]
  simp only [if_neg area]
  by_cases merged : 0 < (bitmapMerge s.area.iblock s.area.dblock).1
  · simp only [if_pos merged]
    exact second _ (bitmapMerge_zero merged) k 0
  · simp only [if_neg merged]

/-- Where an allocation of five blocks fails, every free block below
`current_free_area` is recorded alone. -/
theorem Cramped.free (cramped : Cramped s) {b : Nat} (free : b ∈ freeSet s) :
    s.area.iblock.areaMap b = false ∨ s.currentFreeArea ≤ b := by
  obtain ⟨blocks, member, inside⟩ := free
  have none : dblockFree s = [] := by rw [dblockFree, zeros_eq_nil cramped.heads, List.map_nil]
  rw [freeSets, none] at member
  rcases List.mem_cons.1 member with rfl | member
  · exact .inl inside.2
  · rw [List.mem_singleton] at member
    subst member
    exact .inr inside.1

/-- **A 10M allocation fails only when five consecutive free blocks, if there are
any, lie across `current_free_area`**, in every state that writes and deletes reach. -/
theorem alloc_dblock_room {start d : Device} {c : Nat} (inside : c < ssdMaxChannel)
    (ready : Inv idle (ledger start)) (run : WritesAndDeletes start d) :
    ∃ ret s', (∀ fuel, 2 ≤ fuel → allocDblock fuel (d.ch c).space = some (ret, s')) ∧
      ssdAllocLogicBlock (d.ch c).space .dblock = some (ret, s') ∧
      (ret = -errAllocBlock → ∀ b, (∀ i, b ≤ i → i < b + 5 → i ∈ freeSet (d.ch c).space) →
        b < (d.ch c).space.currentFreeArea ∧ (d.ch c).space.currentFreeArea < b + 5) := by
  have ok : SpaceOk (d.ch c).space (extentsOf (d.ch c).hash) :=
    (run.inv ready (fun _ _ never => never.elim) c inside).space
  obtain ⟨⟨ret, s'⟩, alloc⟩ :=
    Option.isSome_iff_exists.1 (ssdAllocLogicBlock_isSome (d.ch c).space .dblock)
  refine ⟨ret, s', fun fuel enough => (allocDblock_stable enough).trans alloc, alloc, ?_⟩
  rintro rfl b free
  have cramped := alloc_dblock_cramped ok alloc
  have last := ((mem_freeSet ok).1 (free (b + 4) (by omega) (by omega))).1
  have area := cramped.area
  simp only [ssdMaxVirblocksPerChannel] at last area
  obtain ⟨i, lo, hi, set⟩ := cramped.runs b (by simp only [ssdMaxVirblocksPerChannel]; omega)
  rcases cramped.free (free i lo hi) with zero | above
  · rw [zero] at set
    cases set
  · constructor <;> omega

theorem emptyDevice_inv : Inv idle (ledger emptyDevice) := by
  intro c _
  have nodes : nodesOf (ledger emptyDevice c).2 = [] := List.flatMap_eq_nil_iff.2 fun _ _ => rfl
  have space : (ledger emptyDevice c).1 = emptyChannel.space := by simp only [ledger, emptyDevice]
  constructor
  · rw [extentsOf, nodes, space, List.map_nil, List.append_nil]
    exact emptySpace_ok
  · rw [nodes]
    intro node member
    cases member

end Dblock

/-! ## Room across the current free area -/

section Across

variable {s : ChannelSpace}

theorem findBit_eq {m : Bitmap} {b : Nat} (inside : b < ssdMaxVirblocksPerChannel)
    (zero : m b = false) (before : ∀ k < b, m k = true) :
    bitmapFindNextZeroArea m ssdMaxVirblocksPerChannel 0 1 = b := by
  have below := findBit_lt_of_zero inside zero
  have found := findBit_lt below
  rcases findNextZeroArea_spec m ssdMaxVirblocksPerChannel 0 Nat.one_pos with
    ⟨-, -, -, first⟩ | ⟨beyond, -⟩
  · rcases Nat.lt_trichotomy (bitmapFindNextZeroArea m ssdMaxVirblocksPerChannel 0 1) b with
      low | same | high
    · rw [before _ low] at found
      cases found
    · exact same
    · obtain ⟨i, lo, hi, one⟩ := first b (Nat.zero_le b) high
      obtain rfl : i = b := by omega
      rw [zero] at one
      cases one
  · omega

/-- A zero bit is taken at once. -/
theorem alloc_unit {b : Nat} (found : bitmapFindNextZeroArea s.area.iblock.areaMap
      ssdMaxVirblocksPerChannel 0 1 = b) (inside : b < ssdMaxVirblocksPerChannel) :
    ssdAllocLogicBlock s .iblock = some ((b : Int), ⟨{ s.area with
      iblock.areaMap := bitmapSet s.area.iblock.areaMap b 1 }, s.currentFreeArea, s.freeBlocks - 1⟩) := by
  rw [ssdAllocLogicBlock, allocIblock]
  simp only [found]
  rw [if_pos inside]
  rfl

theorem alloc_head {b : Nat} (typed : s.area.dblock.type = .dblock)
    (found : bitmapFindNextZeroArea s.area.dblock.areaMap ssdMaxVirblocksPerChannel 0 1 = b)
    (inside : b < ssdMaxVirblocksPerChannel) :
    ssdAllocLogicBlock s .dblock = some ((b : Int), ⟨{ s.area with
      dblock.areaMap := bitmapSet s.area.dblock.areaMap b 1 }, s.currentFreeArea, s.freeBlocks - 5⟩) := by
  rw [ssdAllocLogicBlock, allocDblock]
  simp only [found, typed]
  rw [if_pos inside]
  rfl

/-- Without zero bits the area is used. -/
theorem alloc_unit_area (iblock : ∀ b < ssdMaxVirblocksPerChannel, s.area.iblock.areaMap b = true)
    (dblock : ∀ b < ssdMaxVirblocksPerChannel, s.area.dblock.areaMap b = true)
    (fits : s.currentFreeArea + 1 ≤ ssdMaxVirblocksPerChannel) :
    ssdAllocLogicBlock s .iblock = some ((s.currentFreeArea : Int),
      ⟨s.area, s.currentFreeArea + 1, s.freeBlocks - 1⟩) := by
  have noHead : ¬ 0 ≤ (bitmapSplit s.area.dblock s.area.iblock).1 := by
    rw [bitmapSplit]
    split
    · exact (by decide : ¬ (0 : Int) ≤ ssdError)
    · rw [if_pos (Nat.not_lt.1 (findBit_none dblock))]
      exact (by decide : ¬ (0 : Int) ≤ ssdError)
  rw [ssdAllocLogicBlock, allocIblock]
  simp only
  rw [if_neg (findBit_none iblock), if_neg noHead,
    if_pos (show s.currentFreeArea + BlockType.iblock.size ≤ _ from fits)]
  rfl

theorem alloc_head_area (typed : s.area.dblock.type = .dblock)
    (dblock : ∀ b < ssdMaxVirblocksPerChannel, s.area.dblock.areaMap b = true)
    (fits : s.currentFreeArea + 5 ≤ ssdMaxVirblocksPerChannel) :
    ssdAllocLogicBlock s .dblock = some ((s.currentFreeArea : Int),
      ⟨s.area, s.currentFreeArea + 5, s.freeBlocks - 5⟩) := by
  rw [ssdAllocLogicBlock, allocDblock]
  simp only [typed]
  rw [if_neg (findBit_none dblock),
    if_pos (show s.currentFreeArea + BlockType.dblock.size ≤ _ from fits)]
  rfl

/-- The bitmaps of a new channel after `i` index blocks and `j` data blocks were taken
from them, with the area from `current` on free. -/
def filled (i j current : Nat) (free : Int) : ChannelSpace :=
  ⟨⟨⟨.iblock, fun b => decide ¬ (i ≤ b ∧ b < 100)⟩,
    ⟨.dblock, fun b => decide ¬ (100 + 5 * j ≤ b ∧ b < 600 ∧ b % 5 = 0)⟩⟩, current, free⟩

theorem scanEnd_zero {m : Bitmap} {n : Nat} (clear : ∀ b < n, m b = false) : scanEnd m n = 0 := by
  induction n with
  | zero => rfl
  | succ n ih =>
      rw [scanEnd, clear n (Nat.lt_succ_self n), if_neg Bool.false_ne_true]
      exact ih fun b low => clear b (by omega)

theorem clearHeads_eq (m : Bitmap) (start n b : Nat) :
    clearHeads m start n b = (m b && decide ¬ (start ≤ b ∧ b < start + 5 * n ∧ (b - start) % 5 = 0)) := by
  induction n generalizing m start with
  | zero =>
      have never : ¬ (start ≤ b ∧ b < start + 5 * 0 ∧ (b - start) % 5 = 0) := by omega
      rw [clearHeads, decide_eq_true never, Bool.and_true]
  | succ n ih =>
      rw [clearHeads, ih, BlockType.size_dblock, bitmapClear]
      by_cases first : b = start
      · subst first
        simp
      · rw [if_neg (by omega)]
        congr 2
        simp only [eq_iff_iff, not_iff_not]
        omega

/-- The allocator of a new channel. -/
theorem reloadSpace_empty : reloadSpace (fun _ => false) = filled 0 0 600 8000 := by
  have none : scanEnd (fun _ => false) ssdMaxVirblocksPerChannel = 0 := scanEnd_zero fun _ _ => rfl
  have units : bitmapClear (fun _ => true) 0 100 = fun b => decide ¬ (0 ≤ b ∧ b < 100) := by
    funext b
    by_cases low : b < 100 <;> simp [bitmapClear, low]
  have heads : clearHeads (fun _ => true) 100 100 =
      fun b => decide ¬ (100 + 5 * 0 ≤ b ∧ b < 600 ∧ b % 5 = 0) := by
    funext b
    rw [clearHeads_eq, Bool.true_and, decide_eq_decide, not_iff_not]
    omega
  simp only [reloadSpace, none, if_true, ssdInitChannelBitmap, filled, preAllocBlocks,
    BlockType.size_iblock, BlockType.size_dblock, Nat.zero_add, Nat.mul_one, units, heads]
  simp only [ssdMaxVirblocksPerChannel, Nat.reduceMul, Nat.reduceAdd, Nat.cast_ofNat]

section Filled

variable {i j current : Nat} {free : Int}

theorem filled_units (k : Nat) : bitmapSet (fun b => decide ¬ (k ≤ b ∧ b < 100)) k 1 =
    fun b => decide ¬ (k + 1 ≤ b ∧ b < 100) := by
  funext b
  rw [bitmapSet]
  split
  · rename_i here
    simp only [true_eq_decide_iff]
    omega
  · simp only [decide_eq_decide, not_iff_not]
    omega

theorem filled_heads (k : Nat) :
    bitmapSet (fun b => decide ¬ (100 + 5 * k ≤ b ∧ b < 600 ∧ b % 5 = 0)) (100 + 5 * k) 1 =
      fun b => decide ¬ (100 + 5 * (k + 1) ≤ b ∧ b < 600 ∧ b % 5 = 0) := by
  funext b
  rw [bitmapSet]
  split
  · rename_i here
    simp only [true_eq_decide_iff]
    omega
  · simp only [decide_eq_decide, not_iff_not]
    omega

/-- A data block from the bitmap. -/
theorem filled_head (more : j < 100) : ssdAllocLogicBlock (filled i j current free) .dblock =
    some (((100 + 5 * j : Nat) : Int), filled i (j + 1) current (free - 5)) := by
  have inside : 100 + 5 * j < ssdMaxVirblocksPerChannel := by
    simp only [ssdMaxVirblocksPerChannel]
    omega
  have found := findBit_eq (m := (filled i j current free).area.dblock.areaMap) inside
    (by simp only [filled, decide_eq_false_iff_not, not_not]; omega) fun k low => by
      simp only [filled, decide_eq_true_eq]
      omega
  rw [alloc_head rfl found inside]
  simp only [filled, filled_heads]

/-- A data block from the area. -/
theorem filled_area (fits : current + 5 ≤ 8000) :
    ssdAllocLogicBlock (filled i 100 current free) .dblock =
      some ((current : Int), filled i 100 (current + 5) (free - 5)) := by
  refine alloc_head_area rfl (fun b _ => ?_) fits
  simp only [filled, decide_eq_true_eq]
  omega

/-- An index block from the bitmap. -/
theorem filled_unit (more : i < 100) : ssdAllocLogicBlock (filled i j current free) .iblock =
    some ((i : Int), filled (i + 1) j current (free - 1)) := by
  have inside : i < ssdMaxVirblocksPerChannel := by
    simp only [ssdMaxVirblocksPerChannel]
    omega
  have found := findBit_eq (m := (filled i j current free).area.iblock.areaMap) inside
    (by simp only [filled, decide_eq_false_iff_not, not_not]; omega) fun k low => by
      simp only [filled, decide_eq_true_eq]
      omega
  rw [alloc_unit found inside]
  simp only [filled, filled_units]

/-- An index block from the area. -/
theorem filled_last (fits : current + 1 ≤ 8000) :
    ssdAllocLogicBlock (filled 100 100 current free) .iblock =
      some ((current : Int), filled 100 100 (current + 1) (free - 1)) := by
  refine alloc_unit_area (fun b _ => ?_) (fun b _ => ?_) fits
  · simp only [filled, decide_eq_true_eq]
    omega
  · simp only [filled, decide_eq_true_eq]
    omega

end Filled

/-- Ids of channel 0 that differ in their high word. -/
def numbered (n : Nat) : BlockId := ⟨0, .ofNat n⟩

theorem numbered_channel (n : Nat) : id2channel (numbered n) = 0 := by simp [id2channel, numbered]

theorem numbered_inj {m n : Nat} (small : m < 2 ^ 64) (small' : n < 2 ^ 64)
    (same : numbered m = numbered n) : m = n := by
  have high := congrArg (fun id : BlockId => id.mNHigh.toNat) same
  simp only [numbered, UInt64.toNat_ofNat'] at high
  omega

/-- `n` ids have been written to channel 0, and its allocator is `s`. -/
structure Grown (n : Nat) (s : ChannelSpace) (d : Device) : Prop where
  run : WritesAndDeletes emptyDevice d
  idle : Mirrors Held.none d
  space : (d.ch 0).space = s
  fresh : ∀ k, n ≤ k → k < 2 ^ 64 → find (d.ch 0).hash (numbered k) = none

theorem grown_empty : Grown 0 (filled 0 0 600 8000) emptyDevice :=
  ⟨.here, emptyDevice_mirrors, emptyChannel_space.trans reloadSpace_empty, fun _ _ _ => rfl⟩

/-- A write that finds blocks and does not fail links its id. -/
theorem WriteEffect.links {c i : Nat} {id : BlockId} {t : BlockType} {s s' : ChannelSpace} {h : Nat → HashHead}
    {ret : Int} {books : Books} (effect : WriteEffect c id t s h ret books) (fine : Refusal ret ∨ ret = ssdOk)
    (fresh : find h id = none) (alloc : ssdAllocLogicBlock s t = some ((i : Int), s')) :
    books = (s', insertNode h id (.at c i t)) := by
  cases effect with
  | known found => rw [fresh] at found; cases found
  | full _ alloc' => rw [alloc] at alloc'; cases alloc'
  | undone _ _ failed other => exact (fine.elim other failed).elim
  | done _ alloc' =>
      rw [alloc] at alloc'
      cases alloc'
      rfl

/-- One more write, that nothing hinders. -/
theorem Grown.write {n i : Nat} {t : BlockType} {s s' : ChannelSpace} {d : Device} (grown : Grown n s d)
    (small : n + 1 < 2 ^ 64) (alloc : ssdAllocLogicBlock s t = some ((i : Int), s')) :
    ∃ d', Grown (n + 1) s' d' ∧ find (d'.ch 0).hash (numbered n) = some (.at 0 i t) := by
  obtain ⟨ret, d', run, idle⟩ := exists_run noFailure_live grown.idle
    (ssdIdWrite_locks free_none ⟨numbered n, fun _ => 0, t.size⟩)
  have fine := (ssdIdWrite_fine t ⟨numbered n, fun _ => 0, t.size⟩ rfl).runs run
  have fresh := grown.fresh n le_rfl (by omega)
  have whole := run_any run
  rcases (ssdIdWrite_effect ⟨numbered n, fun _ => 0, t.size⟩).runs run with
    ⟨rfl, -⟩ | ⟨t', books, len, effect, after⟩
  · simp [Refusal] at fine
  obtain rfl : t' = t := by
    cases t <;> cases t' <;> first | rfl | cases len
  rw [numbered_channel] at effect after
  have here : ledger d' 0 = books := by
    rw [after]
    exact Function.update_self ..
  simp only [ledger, grown.space] at effect
  rw [effect.links fine fresh alloc] at here
  obtain ⟨space, hash⟩ := Prod.mk.inj here
  refine ⟨d', ⟨.write grown.run _ trivial whole, idle, space, fun k least most => ?_⟩, ?_⟩
  · rw [hash, find_insertNode, if_neg fun same => ?_]
    · exact grown.fresh k (by omega) most
    · have := numbered_inj most (by omega) same
      omega
  · rw [hash, find_insertNode, if_pos rfl]

/-- Behind the writes of an index id and of a data id. -/
theorem alloc_dblock_room_two : ∃ d, WritesAndDeletes emptyDevice d ∧ (d.ch 0).space = filled 1 1 600 7994 ∧
    ∃ ret s', (∀ fuel, 2 ≤ fuel → allocDblock fuel (d.ch 0).space = some (ret, s')) ∧
      ssdAllocLogicBlock (d.ch 0).space .dblock = some (ret, s') ∧
      (ret = -errAllocBlock → ∀ b, (∀ i, b ≤ i → i < b + 5 → i ∈ freeSet (d.ch 0).space) →
        b < (d.ch 0).space.currentFreeArea ∧ (d.ch 0).space.currentFreeArea < b + 5) := by
  obtain ⟨d1, grown1, -⟩ := grown_empty.write (by decide) (filled_unit (by decide))
  obtain ⟨d, grown, -⟩ := grown1.write (by decide) (filled_head (by decide))
  exact ⟨d, grown.run, grown.space, alloc_dblock_room (by decide) emptyDevice_inv grown.run⟩

theorem grown_heads (j : Nat) (few : j ≤ 100) : ∃ free d, Grown j (filled 0 j 600 free) d := by
  induction j with
  | zero => exact ⟨8000, emptyDevice, grown_empty⟩
  | succ j ih =>
      obtain ⟨free, d, grown⟩ := ih (by omega)
      obtain ⟨d', grown', -⟩ := grown.write (by omega) (filled_head (by omega))
      exact ⟨free - 5, d', grown'⟩

theorem grown_area (k : Nat) (few : k ≤ 1479) :
    ∃ free d, Grown (100 + k) (filled 0 100 (600 + 5 * k) free) d := by
  induction k with
  | zero => exact grown_heads 100 le_rfl
  | succ k ih =>
      obtain ⟨free, d, grown⟩ := ih (by omega)
      obtain ⟨d', grown', -⟩ := grown.write (by omega) (filled_area (by omega))
      exact ⟨free - 5, d', grown'⟩

theorem grown_units (i : Nat) (few : i ≤ 100) :
    ∃ free d, Grown (1579 + i) (filled i 100 7995 free) d := by
  induction i with
  | zero => exact grown_area 1479 le_rfl
  | succ i ih =>
      obtain ⟨free, d, grown⟩ := ih (by omega)
      obtain ⟨d', grown', -⟩ := grown.write (by omega) (filled_unit (by omega))
      exact ⟨free - 1, d', grown'⟩

/-- The last block below `current_free_area` is freed. -/
theorem grown_freed : ∃ free d, WritesAndDeletes emptyDevice d ∧
    (d.ch 0).space = deleteLogicBlock (filled 100 100 7996 free) (.at 0 7995 .iblock) := by
  obtain ⟨free, d, grown⟩ := grown_units 100 le_rfl
  obtain ⟨d1, grown1, found⟩ := grown.write (by omega) (filled_last (by omega))
  have here : find (ledger d1 (id2channel (numbered 1679))).2 (numbered 1679) =
      some (.at 0 7995 .iblock) := by
    rw [numbered_channel]
    exact found
  obtain ⟨ret, d2, run, -⟩ := exists_run noFailure_live grown1.idle
    (ssdIdDelete_locks free_none (numbered 1679))
  obtain rfl := (ssdIdDelete_fine here (by decide) (by decide)).runs run
  have whole := run_any run
  obtain ⟨books, effect, after⟩ := (ssdIdDelete_effect (numbered 1679) fun info known => by
    rw [here] at known
    cases known
    rw [numbered_channel]
    rfl).runs run
  refine ⟨free - 1, d2, .delete grown1.run _ whole, ?_⟩
  have space : (d2.ch 0).space = books.1 := by
    rw [numbered_channel] at after
    exact congrArg Prod.fst ((congrFun after 0).trans (Function.update_self ..))
  rw [space]
  cases effect with
  | undone _ failed => exact absurd rfl failed
  | done known =>
      rw [here] at known
      cases known
      rw [numbered_channel]
      simp only [ledger, grown1.space]

/-- The five last blocks of a channel are free, one recorded in the `IBLOCK` bitmap
and four beyond `current_free_area`, and an allocation of five fails. -/
theorem room_across_current : ∃ d, WritesAndDeletes emptyDevice d ∧
    (∃ s', ssdAllocLogicBlock (d.ch 0).space .dblock = some (-errAllocBlock, s')) ∧
    ∀ i, 7995 ≤ i → i < 8000 → i ∈ freeSet (d.ch 0).space := by
  obtain ⟨free, d, run, space⟩ := grown_freed
  have iblock : ∀ b, (d.ch 0).space.area.iblock.areaMap b =
      bitmapClear (fun b => decide ¬ (100 ≤ b ∧ b < 100)) 7995 1 b := fun b => by rw [space]; rfl
  have current : (d.ch 0).space.currentFreeArea = 7996 := by rw [space]; rfl
  refine ⟨d, run, ?_, fun i low high => ?_⟩
  · have ok : SpaceOk (d.ch 0).space (extentsOf (d.ch 0).hash) :=
      (run.inv emptyDevice_inv (fun _ _ never => never.elim) 0 (by decide)).space
    have cramped : Cramped (d.ch 0).space := by
      refine ⟨fun b _ => ?_, ?_, fun b fits => ?_⟩
      · rw [space]
        show decide (¬ (100 + 5 * 100 ≤ b ∧ b < 600 ∧ b % 5 = 0)) = true
        simp only [decide_eq_true_eq]
        omega
      · rw [current]
        decide
      · simp only [ssdMaxVirblocksPerChannel] at fits
        -- the run is longer than the one block
        by_cases first : b = 7995
        · refine ⟨b + 1, by omega, by omega, ?_⟩
          rw [iblock, first]
          decide
        · refine ⟨b, by omega, by omega, ?_⟩
          rw [iblock, bitmapClear, if_neg (by omega)]
          simp only [decide_eq_true_eq]
          omega
    exact ⟨_, cramped.alloc ok⟩
  · by_cases last : i = 7995
    · refine ⟨iblockFree (d.ch 0).space, List.mem_cons_self .., high, ?_⟩
      rw [iblock, last]
      decide
    · refine ⟨currentFree (d.ch 0).space, by simp [freeSets], ?_, high⟩
      rw [current]
      omega

end Across

end FpgaSsd.Theory
