/-
# Driver.Space — the logical block allocator of a channel

A channel keeps its free logical blocks in three places: the `IBLOCK` bitmap (a
zero bit is a free 2M block), the `DBLOCK` bitmap (a zero bit is the head of a
free run of five) and the area from `current_free_area` up. This module is the
allocator as pure functions on these three, under the driver's names, and the
invariant they keep:

* `SpaceOk s used` — the free extents of `s` and the extents `used` tile
  `[0, 8000)`, and `free_blocks` is the size of the free ones;
* `ssdAllocLogicBlock_spec` — an allocation moves one extent from free to used,
  or reports failure and moves nothing, through any split, merge and retry;
* `ssdAllocLogicBlock_isSome` — the retry loops end;
* `deleteLogicBlock_spec` — a freed extent returns to its bitmap;
* `reloadSpace_spec` — the greedy rebuild from the extents of an id table.
-/
import FpgaSsd.Driver.Types
import FpgaSsd.Lib.Bitmap
import FpgaSsd.Lib.Tiling
import Mathlib.Algebra.BigOperators.Group.List.Basic

namespace FpgaSsd.Driver

open FpgaSsd.Lib

set_option autoImplicit false

structure FreeAreaBitmap where
  type : BlockType
  areaMap : Bitmap

/-- `fab[IBLOCK]` and `fab[DBLOCK]`. -/
structure FreeAreaList where
  iblock : FreeAreaBitmap
  dblock : FreeAreaBitmap

def FreeAreaList.fab (area : FreeAreaList) : BlockType → FreeAreaBitmap
  | .iblock => area.iblock
  | .dblock => area.dblock

def FreeAreaList.setFab (area : FreeAreaList) (t : BlockType) (fab : FreeAreaBitmap) :
    FreeAreaList :=
  match t with
  | .iblock => { area with iblock := fab }
  | .dblock => { area with dblock := fab }

structure ChannelSpace where
  area : FreeAreaList
  currentFreeArea : Nat
  freeBlocks : Int

/-! ## The functions of the driver -/

/-- The `DBLOCK` loop of `ssd_init_channel_bitmap`: one head bit every five blocks. -/
def clearHeads (m : Bitmap) (start : Nat) : Nat → Bitmap
  | 0 => m
  | n + 1 => clearHeads (bitmapClear m start 1) (start + BlockType.dblock.size) n

def ssdInitChannelBitmap (start preAlloc : Nat) : FreeAreaList × Nat :=
  let full : Bitmap := fun _ => true
  let middle := start + preAlloc * BlockType.iblock.size
  (⟨⟨.iblock, bitmapClear full start preAlloc⟩, ⟨.dblock, clearHeads full middle preAlloc⟩⟩,
    middle + preAlloc * BlockType.dblock.size)

abbrev preAllocBlocks : Nat := 100

/-- One more than the highest set bit below `n`, or zero. -/
def scanEnd (m : Bitmap) : Nat → Nat
  | 0 => 0
  | n + 1 => if m n then n + 1 else scanEnd m n

structure Reclaim where
  areaBitmap : Bitmap
  areaMap : Bitmap
  freeBlocks : Int

/-- The scan of `ssd_reload_bitmap` for free runs of `blocks` blocks below `size`. -/
def reclaimLoop (blocks size : Nat) : Nat → Nat → Reclaim → Reclaim
  | 0, _, r => r
  | fuel + 1, start, r =>
      if start < size then
        let index := bitmapFindNextZeroArea r.areaBitmap size start blocks
        if size ≤ index then r
        else reclaimLoop blocks size fuel (index + blocks)
          ⟨bitmapSet r.areaBitmap index blocks, bitmapClear r.areaMap index 1,
            r.freeBlocks + blocks⟩
      else r

/-- `ssd_reload_bitmap` for one channel, from the bitmap of the blocks its id
table uses. -/
def reloadSpace (areaBitmap : Bitmap) : ChannelSpace :=
  let stop := scanEnd areaBitmap ssdMaxVirblocksPerChannel
  if stop = 0 then
    let (area, current) := ssdInitChannelBitmap 0 preAllocBlocks
    ⟨area, current, ssdMaxVirblocksPerChannel⟩
  else
    let (area, current) := ssdInitChannelBitmap stop
      (if stop ≤ ssdMaxVirblocksPerChannel / 2 then preAllocBlocks else 0)
    let free : Int := ssdMaxVirblocksPerChannel - stop
    let d := reclaimLoop BlockType.dblock.size stop (stop + 1) 0
      ⟨areaBitmap, area.dblock.areaMap, free⟩
    let i := reclaimLoop BlockType.iblock.size stop (stop + 1) 0
      ⟨d.areaBitmap, area.iblock.areaMap, d.freeBlocks⟩
    ⟨⟨{ area.iblock with areaMap := i.areaMap }, { area.dblock with areaMap := d.areaMap }⟩,
      current, i.freeBlocks⟩

/-- `bitmap_split`; the pair is `from`, `to`. -/
def bitmapSplit (src dst : FreeAreaBitmap) : Int × FreeAreaBitmap × FreeAreaBitmap :=
  if src.type ≠ .dblock ∨ dst.type ≠ .iblock then (ssdError, src, dst)
  else
    let ret := bitmapFindNextZeroArea src.areaMap ssdMaxVirblocksPerChannel 0 1
    if ssdMaxVirblocksPerChannel ≤ ret then (ssdError, src, dst)
    else (ret, { src with areaMap := bitmapSet src.areaMap ret 1 },
      { dst with areaMap := bitmapClear dst.areaMap ret src.type.size })

/-- The loop of `bitmap_merge`: the count, `from` and `to`. -/
def mergeLoop (blocks : Nat) : Nat → Nat → Nat × Bitmap × Bitmap → Nat × Bitmap × Bitmap
  | 0, _, acc => acc
  | fuel + 1, start, (count, src, dst) =>
      if start < ssdMaxVirblocksPerChannel then
        let index := bitmapFindNextZeroArea src ssdMaxVirblocksPerChannel start blocks
        if ssdMaxVirblocksPerChannel ≤ index then (count, src, dst)
        else mergeLoop blocks fuel (index + blocks)
          (count + 1, bitmapSet src index blocks, bitmapClear dst index 1)
      else (count, src, dst)

def bitmapMerge (src dst : FreeAreaBitmap) : Int × FreeAreaBitmap × FreeAreaBitmap :=
  if src.type ≠ .iblock ∨ dst.type ≠ .dblock then (ssdError, src, dst)
  else
    let (count, srcMap, dstMap) := mergeLoop dst.type.size (ssdMaxVirblocksPerChannel + 1) 0
      (0, src.areaMap, dst.areaMap)
    (count, { src with areaMap := srcMap }, { dst with areaMap := dstMap })

/-- Take `blocks` blocks off the free count, for the answer `index`. -/
def ChannelSpace.take (s : ChannelSpace) (index blocks : Nat) : Option (Int × ChannelSpace) :=
  some (index, { s with freeBlocks := s.freeBlocks - blocks })

/-- The last resort of both cases: the area above `current_free_area`. -/
def ChannelSpace.takeCurrent (s : ChannelSpace) (blocks : Nat) :
    Option (Int × ChannelSpace) :=
  { s with currentFreeArea := s.currentFreeArea + blocks }.take s.currentFreeArea blocks

/-- The `alloc_iblock_retry` loop; `none` is a loop that has not ended. -/
def allocIblock : Nat → ChannelSpace → Option (Int × ChannelSpace)
  | 0, _ => none
  | fuel + 1, s =>
      let fab := s.area.iblock
      let blocks := BlockType.iblock.size
      let index := bitmapFindNextZeroArea fab.areaMap ssdMaxVirblocksPerChannel 0 1
      if index < ssdMaxVirblocksPerChannel then
        { s with area.iblock.areaMap := bitmapSet fab.areaMap index 1 }.take index blocks
      else
        let (ret, src, dst) := bitmapSplit s.area.dblock fab
        if 0 ≤ ret then allocIblock fuel { s with area := ⟨dst, src⟩ }
        else if s.currentFreeArea + blocks ≤ ssdMaxVirblocksPerChannel then s.takeCurrent blocks
        else some (-errAllocBlock, s)

/-- The `alloc_dblock_retry` loop. -/
def allocDblock : Nat → ChannelSpace → Option (Int × ChannelSpace)
  | 0, _ => none
  | fuel + 1, s =>
      let fab := s.area.dblock
      let blocks := fab.type.size
      let index := bitmapFindNextZeroArea fab.areaMap ssdMaxVirblocksPerChannel 0 1
      if index < ssdMaxVirblocksPerChannel then
        { s with area.dblock.areaMap := bitmapSet fab.areaMap index 1 }.take index blocks
      else if s.currentFreeArea + blocks ≤ ssdMaxVirblocksPerChannel then s.takeCurrent blocks
      else
        let (ret, src, dst) := bitmapMerge s.area.iblock fab
        if 0 < ret then allocDblock fuel { s with area := ⟨src, dst⟩ }
        else some (-errAllocBlock, s)

/-- Two passes are enough: a split or a merge that succeeds leaves a free bit. -/
def ssdAllocLogicBlock (s : ChannelSpace) (type : BlockType) : Option (Int × ChannelSpace) :=
  match type with
  | .iblock => allocIblock 2 s
  | .dblock => allocDblock 2 s

def deleteLogicBlock (s : ChannelSpace) (info : IdInfo) : ChannelSpace :=
  let fab := s.area.fab info.len
  { s with
    area := s.area.setFab info.len { fab with areaMap := bitmapClear fab.areaMap info.block.val 1 }
    freeBlocks := s.freeBlocks + info.len.size }

/-! ## The partition -/

/-- The extent whose head is a zero bit of the `DBLOCK` bitmap. -/
def Extent.five (d : Nat) : Extent := ⟨d, BlockType.dblock.size⟩

def IdInfo.extent (info : IdInfo) : Extent := ⟨info.block.val, info.len.size⟩

def freeExtentsOf (i d : List Nat) (current : Nat) : List Extent :=
  i.map Extent.unit ++ (d.map Extent.five ++ [⟨current, ssdMaxVirblocksPerChannel - current⟩])

/-- The free extents of a channel, from its three representations. -/
def freeExtents (s : ChannelSpace) : List Extent :=
  freeExtentsOf (zeros s.area.iblock.areaMap ssdMaxVirblocksPerChannel)
    (zeros s.area.dblock.areaMap ssdMaxVirblocksPerChannel) s.currentFreeArea

/-- The free extents and the extents `used` partition the channel. -/
structure SpaceOk (s : ChannelSpace) (used : List Extent) : Prop where
  iblockType : s.area.iblock.type = .iblock
  dblockType : s.area.dblock.type = .dblock
  current : s.currentFreeArea ≤ ssdMaxVirblocksPerChannel
  tiles : Tiles ssdMaxVirblocksPerChannel (freeExtents s ++ used)
  free : s.freeBlocks = (((freeExtents s).map Extent.len).sum : Nat)

theorem sum_units (l : List Nat) : ((l.map Extent.unit).map Extent.len).sum = l.length := by
  induction l with
  | nil => rfl
  | cons b l ih =>
      simp only [List.map_cons, List.sum_cons, List.length_cons, ih, Extent.unit]
      omega

theorem sum_fives (l : List Nat) : ((l.map Extent.five).map Extent.len).sum = 5 * l.length := by
  induction l with
  | nil => rfl
  | cons d l ih =>
      simp only [List.map_cons, List.sum_cons, List.length_cons, ih, Extent.five,
        BlockType.size_dblock]
      omega

/-- The size of the free extents, representation by representation. -/
theorem sum_freeExtentsOf (i d : List Nat) (current : Nat) :
    ((freeExtentsOf i d current).map Extent.len).sum =
      i.length + 5 * d.length + (ssdMaxVirblocksPerChannel - current) := by
  rw [freeExtentsOf, List.map_append, List.map_append, List.sum_append, List.sum_append, sum_units,
    sum_fives, List.map_singleton, List.sum_singleton, Nat.add_assoc]

theorem multiplicity_freeExtentsOf (i d : List Nat) (current b : Nat) :
    multiplicity (freeExtentsOf i d current) b =
      multiplicity (i.map Extent.unit) b + multiplicity (d.map Extent.five) b +
        multiplicity [⟨current, ssdMaxVirblocksPerChannel - current⟩] b := by
  rw [freeExtentsOf, multiplicity_append, multiplicity_append, Nat.add_assoc]

section Moves

variable {i i' d d' : List Nat} {current : Nat} {used : List Extent}

/-- A run of single blocks is the extent of the run. -/
theorem multiplicity_run {start k : Nat} (perm : i.Perm (List.range' start k ++ i')) (b : Nat) :
    multiplicity (i.map Extent.unit) b =
      multiplicity [⟨start, k⟩] b + multiplicity (i'.map Extent.unit) b := by
  rw [multiplicity_perm (perm.map Extent.unit), List.map_append, multiplicity_append,
    multiplicity_units, multiplicity_cons, multiplicity_nil, Nat.zero_add]

theorem multiplicity_head {h : Nat} (perm : d.Perm (h :: d')) (b : Nat) :
    multiplicity (d.map Extent.five) b =
      multiplicity [⟨h, 5⟩] b + multiplicity (d'.map Extent.five) b := by
  rw [multiplicity_perm (perm.map Extent.five), List.map_cons, multiplicity_cons,
    multiplicity_cons, multiplicity_nil, Extent.five, BlockType.size_dblock, Nat.zero_add,
    Nat.add_comm]

/-- A run of free blocks becomes used, or the other way round. -/
theorem tiles_moveRun {start k : Nat} (perm : i.Perm (List.range' start k ++ i')) :
    Tiles ssdMaxVirblocksPerChannel (freeExtentsOf i d current ++ used) ↔
      Tiles ssdMaxVirblocksPerChannel (freeExtentsOf i' d current ++ ⟨start, k⟩ :: used) :=
  tiles_congr fun b => by
    rw [multiplicity_append, multiplicity_append, multiplicity_freeExtentsOf,
      multiplicity_freeExtentsOf, multiplicity_run perm, multiplicity_singleton_add _ used]
    omega

theorem tiles_moveHead {h : Nat} (perm : d.Perm (h :: d')) :
    Tiles ssdMaxVirblocksPerChannel (freeExtentsOf i d current ++ used) ↔
      Tiles ssdMaxVirblocksPerChannel (freeExtentsOf i d' current ++ ⟨h, 5⟩ :: used) :=
  tiles_congr fun b => by
    rw [multiplicity_append, multiplicity_append, multiplicity_freeExtentsOf,
      multiplicity_freeExtentsOf, multiplicity_head perm,
      multiplicity_singleton_add _ used]
    omega

theorem tiles_moveCurrent {k : Nat} (fits : current + k ≤ ssdMaxVirblocksPerChannel) :
    Tiles ssdMaxVirblocksPerChannel (freeExtentsOf i d current ++ used) ↔
      Tiles ssdMaxVirblocksPerChannel (freeExtentsOf i d (current + k) ++ ⟨current, k⟩ :: used) :=
  tiles_congr fun b => by
    rw [multiplicity_append, multiplicity_append, multiplicity_freeExtentsOf,
      multiplicity_freeExtentsOf, multiplicity_cons, multiplicity_cons, multiplicity_cons,
      multiplicity_nil]
    simp only [ssdMaxVirblocksPerChannel] at fits ⊢
    split_ifs <;> omega

/-- No bit of an allocated or free extent is also a zero bit of the `IBLOCK` map. -/
theorem units_apart {m : Bitmap} (tiles : Tiles ssdMaxVirblocksPerChannel
      (freeExtentsOf (zeros m ssdMaxVirblocksPerChannel) d current ++ used)) {e : Extent}
    (member : e ∈ d.map Extent.five ++ used) (b : Nat) (lo : e.start ≤ b)
    (hi : b < e.start + e.len) : m b = true := by
  have inside : b < ssdMaxVirblocksPerChannel :=
    tiles.lt (List.mem_append.2 ((List.mem_append.1 member).imp
      (fun h => List.mem_append_right _ (List.mem_append_left _ h)) id)) ⟨lo, hi⟩
  by_contra zero
  have unit : Extent.unit b ∈ (zeros m ssdMaxVirblocksPerChannel).map Extent.unit :=
    List.mem_map_of_mem (mem_zeros.2 ⟨inside, by simpa using zero⟩)
  have separate := tiles.separate
  rw [freeExtentsOf, List.append_assoc] at separate
  refine separate.disjoint_append unit (show e ∈ _ from ?_) (b := b) ⟨le_rfl, by simp [Extent.unit]⟩ ⟨lo, hi⟩
  simp only [List.append_assoc, List.mem_append] at member ⊢
  exact member.imp id .inr

/-- The head bit of an allocated extent is set in the `DBLOCK` map. -/
theorem head_apart {m : Bitmap} (tiles : Tiles ssdMaxVirblocksPerChannel
      (freeExtentsOf i (zeros m ssdMaxVirblocksPerChannel) current ++ used)) {e : Extent}
    (member : e ∈ i.map Extent.unit ++ used) (nonempty : 0 < e.len) : m e.start = true := by
  have inside : e.start < ssdMaxVirblocksPerChannel :=
    tiles.lt (List.mem_append.2 ((List.mem_append.1 member).imp
      (fun h => List.mem_append_left _ h) id)) ⟨le_rfl, by omega⟩
  by_contra zero
  have head : Extent.five e.start ∈ (zeros m ssdMaxVirblocksPerChannel).map Extent.five :=
    List.mem_map_of_mem (mem_zeros.2 ⟨inside, by simpa using zero⟩)
  have separate := tiles.separate
  rcases List.mem_append.1 member with free | allocated
  · rw [freeExtentsOf, List.append_assoc] at separate
    exact separate.disjoint_append free
      (List.mem_append_left _ (List.mem_append_left _ head)) (b := e.start) ⟨le_rfl, by omega⟩
      ⟨le_rfl, by simp [Extent.five]⟩
  · refine separate.disjoint_append ?_ allocated (b := e.start) (e := Extent.five e.start)
      ⟨le_rfl, by simp [Extent.five]⟩ ⟨le_rfl, by omega⟩
    exact List.mem_append_right _ (List.mem_append_left _ head)

end Moves

/-! ## Allocation and release -/

theorem findBit_lt {m : Bitmap} (h : bitmapFindNextZeroArea m ssdMaxVirblocksPerChannel 0 1 <
    ssdMaxVirblocksPerChannel) :
    m (bitmapFindNextZeroArea m ssdMaxVirblocksPerChannel 0 1) = false := by
  rcases findNextZeroArea_spec m ssdMaxVirblocksPerChannel 0 Nat.one_pos with
    ⟨-, -, free, -⟩ | ⟨beyond, -⟩
  · exact free _ le_rfl (Nat.lt_succ_self _)
  · omega

theorem findBit_lt_of_zero {m : Bitmap} {b : Nat} (inside : b < ssdMaxVirblocksPerChannel)
    (zero : m b = false) :
    bitmapFindNextZeroArea m ssdMaxVirblocksPerChannel 0 1 < ssdMaxVirblocksPerChannel := by
  rcases findNextZeroArea_spec m ssdMaxVirblocksPerChannel 0 Nat.one_pos with
    ⟨within, -⟩ | ⟨-, full⟩
  · omega
  · obtain ⟨i, lo, hi, one⟩ := full b (Nat.zero_le _) (by omega)
    have same : i = b := by omega
    rw [same, zero] at one
    cases one

/-- The answer of an allocation: failure with nothing moved, or an extent moved
from the free to the used ones. -/
def Allocates (t : BlockType) (used : List Extent) (ret : Int) (s : ChannelSpace) : Prop :=
  (ret = -errAllocBlock ∧ SpaceOk s used) ∨
    ∃ index : Nat, ret = index ∧ index + t.size ≤ ssdMaxVirblocksPerChannel ∧
      SpaceOk s (⟨index, t.size⟩ :: used)

section Alloc

variable {s s' : ChannelSpace} {used : List Extent} {ret : Int}

theorem takeIblock_spec (ok : SpaceOk s used) {index : Nat}
    (inside : index < ssdMaxVirblocksPerChannel) (zero : s.area.iblock.areaMap index = false) :
    SpaceOk ⟨{ s.area with iblock.areaMap := bitmapSet s.area.iblock.areaMap index 1 },
      s.currentFreeArea, s.freeBlocks - 1⟩ (⟨index, 1⟩ :: used) := by
  have perm := zeros_set (m := s.area.iblock.areaMap) (n := ssdMaxVirblocksPerChannel)
    (s := index) (k := 1) (by omega) fun i lo hi => by rwa [show i = index by omega]
  refine ⟨ok.iblockType, ok.dblockType, ok.current, (tiles_moveRun perm).1 ok.tiles, ?_⟩
  have length := perm.length_eq
  have free := ok.free
  simp only [freeExtents, sum_freeExtentsOf, List.length_append, List.length_range'] at free length ⊢
  omega

theorem takeDblock_spec (ok : SpaceOk s used) {index : Nat}
    (inside : index < ssdMaxVirblocksPerChannel) (zero : s.area.dblock.areaMap index = false) :
    SpaceOk ⟨⟨s.area.iblock, ⟨.dblock, bitmapSet s.area.dblock.areaMap index 1⟩⟩,
      s.currentFreeArea, s.freeBlocks - 5⟩ (⟨index, 5⟩ :: used) := by
  have perm := zeros_set (m := s.area.dblock.areaMap) (n := ssdMaxVirblocksPerChannel)
    (s := index) (k := 1) (by omega) fun i lo hi => by rwa [show i = index by omega]
  rw [List.range'_one, List.singleton_append] at perm
  refine ⟨ok.iblockType, rfl, ok.current, (tiles_moveHead perm).1 ok.tiles, ?_⟩
  have length := perm.length_eq
  have free := ok.free
  simp only [freeExtents, sum_freeExtentsOf, List.length_cons] at free length ⊢
  omega

theorem takeCurrent_spec (ok : SpaceOk s used) {blocks : Nat}
    (fits : s.currentFreeArea + blocks ≤ ssdMaxVirblocksPerChannel) :
    SpaceOk ⟨s.area, s.currentFreeArea + blocks, s.freeBlocks - blocks⟩
      (⟨s.currentFreeArea, blocks⟩ :: used) := by
  refine ⟨ok.iblockType, ok.dblockType, fits, (tiles_moveCurrent fits).1 ok.tiles, ?_⟩
  have free := ok.free
  simp only [freeExtents, sum_freeExtentsOf, ssdMaxVirblocksPerChannel] at free fits ⊢
  omega

/-- A split moves a run of five from the `DBLOCK` to the `IBLOCK` bitmap. -/
theorem bitmapSplit_spec (ok : SpaceOk s used) {src dst : FreeAreaBitmap}
    (split : bitmapSplit s.area.dblock s.area.iblock = (ret, src, dst)) (found : 0 ≤ ret) :
    SpaceOk { s with area := ⟨dst, src⟩ } used := by
  simp only [bitmapSplit, ok.iblockType, ok.dblockType] at split
  split at split
  · rename_i bad
    simp at bad
  split at split
  · obtain ⟨rfl, -⟩ := Prod.mk.inj split
    exact absurd found (by decide)
  rename_i inside
  obtain ⟨-, pair⟩ := Prod.mk.inj split
  obtain ⟨rfl, rfl⟩ := Prod.mk.inj pair
  have zero := findBit_lt (m := s.area.dblock.areaMap) (by omega)
  generalize bitmapFindNextZeroArea s.area.dblock.areaMap ssdMaxVirblocksPerChannel 0 1 = h at *
  have heads := zeros_set (m := s.area.dblock.areaMap) (n := ssdMaxVirblocksPerChannel)
    (s := h) (k := 1) (by omega) fun i lo hi => by rwa [show i = h by omega]
  rw [List.range'_one, List.singleton_append] at heads
  have tiles := (tiles_moveHead heads).1 ok.tiles
  have fits := tiles.end_le (e := ⟨h, 5⟩) (by simp) (by simp)
  have runs := zeros_clear (m := s.area.iblock.areaMap) fits
    fun b lo hi => units_apart tiles (e := ⟨h, 5⟩) (by simp) b lo hi
  refine ⟨rfl, rfl, ok.current, ?_, ?_⟩
  · exact (tiles_moveRun runs).2 tiles
  · have free := ok.free
    have lengthHeads := heads.length_eq
    have lengthRuns := runs.length_eq
    simp only [freeExtents, sum_freeExtentsOf, List.length_cons, List.length_append,
      List.length_range', BlockType.size_dblock] at free lengthHeads lengthRuns ⊢
    omega

/-- A merge moves runs of five from the `IBLOCK` to the `DBLOCK` bitmap. -/
theorem mergeLoop_spec {current : Nat} {fuel start count count' : Nat} {src src' dst dst' : Bitmap}
    (tiles : Tiles ssdMaxVirblocksPerChannel
      (freeExtentsOf (zeros src ssdMaxVirblocksPerChannel) (zeros dst ssdMaxVirblocksPerChannel)
        current ++ used))
    (run : mergeLoop 5 fuel start (count, src, dst) = (count', src', dst')) :
    Tiles ssdMaxVirblocksPerChannel
        (freeExtentsOf (zeros src' ssdMaxVirblocksPerChannel)
          (zeros dst' ssdMaxVirblocksPerChannel) current ++ used) ∧
      (zeros src' ssdMaxVirblocksPerChannel).length + 5 * (zeros dst' ssdMaxVirblocksPerChannel).length =
        (zeros src ssdMaxVirblocksPerChannel).length +
          5 * (zeros dst ssdMaxVirblocksPerChannel).length := by
  induction fuel generalizing start count src dst with
  | zero =>
      cases run
      exact ⟨tiles, rfl⟩
  | succ fuel ih =>
      simp only [mergeLoop] at run
      split at run
      case isFalse => cases run; exact ⟨tiles, rfl⟩
      split at run
      case isTrue => cases run; exact ⟨tiles, rfl⟩
      rename_i inside
      rcases findNextZeroArea_spec src ssdMaxVirblocksPerChannel start (k := 5) (by omega) with
        ⟨fits, -, free, -⟩ | ⟨beyond, -⟩
      case inr => omega
      generalize bitmapFindNextZeroArea src ssdMaxVirblocksPerChannel start 5 = h at *
      have runs := zeros_set fits free
      have moved := (tiles_moveRun runs).1 tiles
      have one := head_apart moved (e := ⟨h, 5⟩) (by simp) (by simp)
      have heads := zeros_clear (m := dst) (n := ssdMaxVirblocksPerChannel) (s := h) (k := 1)
        (by omega) fun i lo hi => by rw [show i = h by omega]; exact one
      rw [List.range'_one, List.singleton_append] at heads
      obtain ⟨tiles', length⟩ := ih ((tiles_moveHead heads).2 moved) run
      refine ⟨tiles', length.trans ?_⟩
      have lengthHeads := heads.length_eq
      have lengthRuns := runs.length_eq
      simp only [List.length_cons, List.length_append, List.length_range'] at lengthHeads lengthRuns
      omega

theorem bitmapMerge_spec (ok : SpaceOk s used) {src dst : FreeAreaBitmap}
    (merge : bitmapMerge s.area.iblock s.area.dblock = (ret, src, dst)) :
    SpaceOk { s with area := ⟨src, dst⟩ } used := by
  simp only [bitmapMerge, ok.iblockType, ok.dblockType] at merge
  split at merge
  · rename_i bad
    simp at bad
  obtain ⟨-, pair⟩ := Prod.mk.inj merge
  obtain ⟨rfl, rfl⟩ := Prod.mk.inj pair
  obtain ⟨tiles, length⟩ := mergeLoop_spec ok.tiles (by rfl)
  refine ⟨rfl, rfl, ok.current, tiles, ?_⟩
  have free := ok.free
  simp only [freeExtents, sum_freeExtentsOf, BlockType.size_dblock] at free length ⊢
  omega

theorem allocIblock_spec {fuel : Nat} (ok : SpaceOk s used)
    (run : allocIblock fuel s = some (ret, s')) : Allocates .iblock used ret s' := by
  induction fuel generalizing s with
  | zero => cases run
  | succ fuel ih =>
      simp only [allocIblock] at run
      split at run
      · rename_i inside
        cases run
        exact .inr ⟨_, rfl, Nat.succ_le_of_lt inside, takeIblock_spec ok inside (findBit_lt inside)⟩
      split at run
      · rename_i found
        exact ih (bitmapSplit_spec ok rfl found) run
      split at run
      · rename_i fits
        cases run
        exact .inr ⟨_, rfl, fits, takeCurrent_spec ok fits⟩
      · cases run
        exact .inl ⟨rfl, ok⟩

theorem allocDblock_spec {fuel : Nat} (ok : SpaceOk s used)
    (run : allocDblock fuel s = some (ret, s')) : Allocates .dblock used ret s' := by
  induction fuel generalizing s with
  | zero => cases run
  | succ fuel ih =>
      simp only [allocDblock, ok.dblockType] at run
      split at run
      · rename_i inside
        cases run
        have taken := takeDblock_spec ok inside (findBit_lt inside)
        exact .inr ⟨_, rfl, taken.tiles.end_le (List.mem_append_right _ (List.mem_cons_self ..))
          (by simp), taken⟩
      split at run
      · rename_i fits
        cases run
        exact .inr ⟨_, rfl, fits, takeCurrent_spec ok fits⟩
      split at run
      · exact ih (bitmapMerge_spec ok rfl) run
      · cases run
        exact .inl ⟨rfl, ok⟩

/-- **An allocation moves one extent**, or none. -/
theorem ssdAllocLogicBlock_spec {t : BlockType} (ok : SpaceOk s used)
    (run : ssdAllocLogicBlock s t = some (ret, s')) : Allocates t used ret s' := by
  cases t with
  | iblock => exact allocIblock_spec ok run
  | dblock => exact allocDblock_spec ok run

end Alloc

/-! ## The retry loops end -/

theorem bitmapSplit_zero {src dst : FreeAreaBitmap} (found : 0 ≤ (bitmapSplit src dst).1) :
    ∃ b, b < ssdMaxVirblocksPerChannel ∧ (bitmapSplit src dst).2.2.areaMap b = false := by
  have positive := src.type.size_pos
  simp only [bitmapSplit] at found ⊢
  split at found
  · exact absurd found (show ¬ _ by simp)
  split at found
  · exact absurd found (show ¬ _ by simp)
  rename_i typed inside
  rw [if_neg typed, if_neg inside]
  refine ⟨bitmapFindNextZeroArea src.areaMap ssdMaxVirblocksPerChannel 0 1, by omega, ?_⟩
  simp only [bitmapClear]
  rw [if_pos ⟨le_rfl, by omega⟩]

theorem mergeLoop_zero {blocks fuel start : Nat} {acc acc' : Nat × Bitmap × Bitmap}
    (run : mergeLoop blocks fuel start acc = acc')
    (zero : 0 < acc.1 → ∃ b, b < ssdMaxVirblocksPerChannel ∧ acc.2.2 b = false) :
    0 < acc'.1 → ∃ b, b < ssdMaxVirblocksPerChannel ∧ acc'.2.2 b = false := by
  induction fuel generalizing start acc with
  | zero =>
      cases run
      exact zero
  | succ fuel ih =>
      obtain ⟨count, src, dst⟩ := acc
      simp only [mergeLoop] at run
      split at run
      case isFalse => cases run; exact zero
      split at run
      case isTrue => cases run; exact zero
      rename_i inside
      refine ih run fun _ => ⟨_, Nat.lt_of_not_le inside, ?_⟩
      simp only [bitmapClear]
      rw [if_pos ⟨le_rfl, Nat.lt_succ_self _⟩]

theorem bitmapMerge_zero {src dst : FreeAreaBitmap} (found : 0 < (bitmapMerge src dst).1) :
    ∃ b, b < ssdMaxVirblocksPerChannel ∧ (bitmapMerge src dst).2.2.areaMap b = false := by
  simp only [bitmapMerge] at found ⊢
  split at found
  · exact absurd found (show ¬ _ by simp)
  rename_i typed
  rw [if_neg typed]
  exact mergeLoop_zero rfl (fun none => absurd none (lt_irrefl _)) (by simpa using found)

/-- **An allocation always answers.** -/
theorem ssdAllocLogicBlock_isSome (s : ChannelSpace) (t : BlockType) :
    (ssdAllocLogicBlock s t).isSome := by
  cases t with
  | iblock =>
      simp only [ssdAllocLogicBlock, allocIblock]
      split
      · rfl
      split
      · rename_i found
        obtain ⟨b, inside, zero⟩ := bitmapSplit_zero found
        rw [if_pos (findBit_lt_of_zero inside zero)]
        rfl
      · split <;> rfl
  | dblock =>
      simp only [ssdAllocLogicBlock, allocDblock]
      split
      · rfl
      split
      · rfl
      split
      · rename_i found
        obtain ⟨b, inside, zero⟩ := bitmapMerge_zero found
        rw [if_pos (findBit_lt_of_zero inside zero)]
        rfl
      · rfl

/-! ## Release and reload -/

theorem SpaceOk.perm {s : ChannelSpace} {used used' : List Extent} (ok : SpaceOk s used)
    (perm : used.Perm used') : SpaceOk s used' :=
  { ok with tiles := ok.tiles.perm (perm.append_left _) }

/-- **A freed extent returns to the free ones.** -/
theorem deleteLogicBlock_spec {s : ChannelSpace} {used : List Extent} {info : IdInfo}
    (ok : SpaceOk s (info.extent :: used)) : SpaceOk (deleteLogicBlock s info) used := by
  obtain ⟨channel, block, len⟩ := info
  have free := ok.free
  have fits := ok.tiles.end_le (List.mem_append_right _ (List.mem_cons_self ..)) len.size_pos
  simp only [IdInfo.extent] at fits
  cases len with
  | iblock =>
      have runs := zeros_clear (m := s.area.iblock.areaMap) fits fun b lo hi =>
        units_apart ok.tiles (List.mem_append_right _ (List.mem_cons_self ..)) b lo hi
      refine ⟨ok.iblockType, ok.dblockType, ok.current, (tiles_moveRun runs).2 ok.tiles, ?_⟩
      have length := runs.length_eq
      simp only [deleteLogicBlock, FreeAreaList.fab, FreeAreaList.setFab, freeExtents,
        sum_freeExtentsOf, List.length_append, List.length_range',
        BlockType.size_iblock] at free length ⊢
      omega
  | dblock =>
      have one := head_apart ok.tiles (List.mem_append_right _ (List.mem_cons_self ..))
        (Nat.succ_pos 4)
      simp only [BlockType.size_dblock] at fits
      have heads := zeros_clear (m := s.area.dblock.areaMap) (n := ssdMaxVirblocksPerChannel)
        (s := block.val) (k := 1) (by omega) fun i lo hi => by
          rw [show i = block.val by omega]; exact one
      rw [List.range'_one, List.singleton_append] at heads
      refine ⟨ok.iblockType, ok.dblockType, ok.current, (tiles_moveHead heads).2 ok.tiles, ?_⟩
      have length := heads.length_eq
      simp only [deleteLogicBlock, FreeAreaList.fab, FreeAreaList.setFab, freeExtents,
        sum_freeExtentsOf, List.length_cons, BlockType.size_dblock] at free length ⊢
      omega

theorem clearHeads_spec {m : Bitmap} {a n : Nat} (fresh : ∀ b, a ≤ b → m b = true)
    (fits : a + 5 * n ≤ ssdMaxVirblocksPerChannel) :
    (zeros (clearHeads m a n) ssdMaxVirblocksPerChannel).length =
        (zeros m ssdMaxVirblocksPerChannel).length + n ∧
      ∀ b, multiplicity ((zeros (clearHeads m a n) ssdMaxVirblocksPerChannel).map Extent.five) b =
        multiplicity ((zeros m ssdMaxVirblocksPerChannel).map Extent.five) b +
          multiplicity [⟨a, 5 * n⟩] b := by
  induction n generalizing m a with
  | zero => exact ⟨by simp only [clearHeads, Nat.add_zero], fun b => by simp [clearHeads]⟩
  | succ n ih =>
      have heads := zeros_clear (m := m) (n := ssdMaxVirblocksPerChannel) (s := a) (k := 1)
        (by omega) fun i lo hi => fresh i lo
      rw [List.range'_one, List.singleton_append] at heads
      have fresh' : ∀ b, a + 5 ≤ b → bitmapClear m a 1 b = true := fun b lo => by
        simp only [bitmapClear]
        rw [if_neg (by omega), fresh b (by omega)]
      obtain ⟨length, covered⟩ := ih fresh' (by omega)
      refine ⟨?_, fun b => ?_⟩
      · rw [clearHeads, BlockType.size_dblock, length, heads.length_eq, List.length_cons]
        omega
      · rw [clearHeads, BlockType.size_dblock, covered, multiplicity_head heads]
        simp only [multiplicity_cons, multiplicity_nil]
        split_ifs <;> omega

/-- The prepared bitmaps and the area above them cover everything from `start` on. -/
theorem ssdInitChannelBitmap_spec {start pre : Nat}
    (fits : start + 6 * pre ≤ ssdMaxVirblocksPerChannel) {area : FreeAreaList} {current : Nat}
    (init : ssdInitChannelBitmap start pre = (area, current)) :
    area.iblock.type = .iblock ∧ area.dblock.type = .dblock ∧ current = start + 6 * pre ∧
      (zeros area.iblock.areaMap ssdMaxVirblocksPerChannel).length +
        5 * (zeros area.dblock.areaMap ssdMaxVirblocksPerChannel).length = 6 * pre ∧
      ∀ b, multiplicity (freeExtentsOf (zeros area.iblock.areaMap ssdMaxVirblocksPerChannel)
          (zeros area.dblock.areaMap ssdMaxVirblocksPerChannel) current) b =
        multiplicity [⟨start, ssdMaxVirblocksPerChannel - start⟩] b := by
  have nothing : zeros (fun _ => true) ssdMaxVirblocksPerChannel = [] := zeros_eq_nil fun _ _ => rfl
  have runs := zeros_clear (m := fun _ => true) (n := ssdMaxVirblocksPerChannel) (s := start)
    (k := pre) (by omega) fun _ _ _ => rfl
  obtain ⟨length, covered⟩ := clearHeads_spec (m := fun _ => true) (a := start + pre) (n := pre)
    (fun _ _ => rfl) (by omega)
  rw [nothing] at length covered runs
  simp only [ssdInitChannelBitmap, BlockType.size_iblock, BlockType.size_dblock, Nat.mul_one] at init
  obtain ⟨rfl, rfl⟩ := Prod.mk.inj init
  refine ⟨rfl, rfl, by omega, ?_, fun b => ?_⟩
  · have lengthRuns := runs.length_eq
    simp only [List.length_append, List.length_range', List.length_nil] at lengthRuns length ⊢
    omega
  · rw [multiplicity_freeExtentsOf, covered, multiplicity_run runs]
    simp only [List.map_nil, multiplicity_cons, multiplicity_nil, ssdMaxVirblocksPerChannel] at fits ⊢
    split_ifs <;> omega

section Reload

variable {used : List Extent} {current stop : Nat}

theorem scanEnd_spec (m : Bitmap) (n : Nat) :
    scanEnd m n ≤ n ∧ ∀ b, scanEnd m n ≤ b → b < n → m b = false := by
  induction n with
  | zero => exact ⟨le_rfl, fun b _ hi => by omega⟩
  | succ n ih =>
      simp only [scanEnd]
      split
      · exact ⟨le_rfl, fun b lo hi => by omega⟩
      · rename_i zero
        refine ⟨by omega, fun b lo hi => ?_⟩
        by_cases last : b = n
        · subst last
          simpa using zero
        · exact ih.2 b lo (by omega)

/-- The scan for runs of five moves them to the `DBLOCK` bitmap. -/
theorem reclaimLoop_dblock {i : List Nat} (fuel start : Nat) {r : Reclaim}
    (tiles : Tiles ssdMaxVirblocksPerChannel (freeExtentsOf (zeros r.areaBitmap stop ++ i)
      (zeros r.areaMap ssdMaxVirblocksPerChannel) current ++ used))
    (below : stop ≤ ssdMaxVirblocksPerChannel) :
    let r' := reclaimLoop 5 stop fuel start r
    Tiles ssdMaxVirblocksPerChannel (freeExtentsOf (zeros r'.areaBitmap stop ++ i)
        (zeros r'.areaMap ssdMaxVirblocksPerChannel) current ++ used) ∧
      r'.freeBlocks + 5 * (zeros r.areaMap ssdMaxVirblocksPerChannel).length =
        r.freeBlocks + 5 * (zeros r'.areaMap ssdMaxVirblocksPerChannel).length := by
  induction fuel generalizing start r with
  | zero => exact ⟨tiles, rfl⟩
  | succ fuel ih =>
      simp only [reclaimLoop]
      split
      case isFalse => exact ⟨tiles, rfl⟩
      split
      case isTrue => exact ⟨tiles, rfl⟩
      rename_i inside
      rcases findNextZeroArea_spec r.areaBitmap stop start (k := 5) (by omega) with
        ⟨fits, -, free, -⟩ | ⟨beyond, -⟩
      case inr => omega
      generalize bitmapFindNextZeroArea r.areaBitmap stop start 5 = h at *
      have runs := (zeros_set fits free).append_right i
      rw [List.append_assoc] at runs
      have moved := (tiles_moveRun runs).1 tiles
      have one := head_apart moved (e := ⟨h, 5⟩) (by simp) (by simp)
      have heads := zeros_clear (m := r.areaMap) (n := ssdMaxVirblocksPerChannel) (s := h)
        (k := 1) (by omega) fun i lo hi => by rw [show i = h by omega]; exact one
      rw [List.range'_one, List.singleton_append] at heads
      obtain ⟨tiles', count⟩ := ih (h + 5)
        (r := ⟨bitmapSet r.areaBitmap h 5, bitmapClear r.areaMap h 1, r.freeBlocks + (5 : Nat)⟩)
        ((tiles_moveHead heads).2 moved)
      refine ⟨tiles', ?_⟩
      have length := heads.length_eq
      simp only [List.length_cons] at length
      simp only at count
      omega

/-- The scan for single blocks moves all that are left to the `IBLOCK` bitmap. -/
theorem reclaimLoop_iblock {d : List Nat} (fuel start : Nat) {r : Reclaim}
    (tiles : Tiles ssdMaxVirblocksPerChannel (freeExtentsOf (zeros r.areaBitmap stop ++
      zeros r.areaMap ssdMaxVirblocksPerChannel) d current ++ used))
    (below : stop ≤ ssdMaxVirblocksPerChannel) (enough : stop < start + fuel)
    (done : ∀ b, b < start → b < stop → r.areaBitmap b = true) :
    let r' := reclaimLoop 1 stop fuel start r
    Tiles ssdMaxVirblocksPerChannel
        (freeExtentsOf (zeros r'.areaMap ssdMaxVirblocksPerChannel) d current ++ used) ∧
      r'.freeBlocks + (zeros r.areaMap ssdMaxVirblocksPerChannel).length =
        r.freeBlocks + (zeros r'.areaMap ssdMaxVirblocksPerChannel).length := by
  have finish : (∀ b, b < stop → r.areaBitmap b = true) →
      Tiles ssdMaxVirblocksPerChannel
        (freeExtentsOf (zeros r.areaMap ssdMaxVirblocksPerChannel) d current ++ used) := fun full => by
    rwa [zeros_eq_nil full, List.nil_append] at tiles
  induction fuel generalizing start r with
  | zero => exact ⟨finish fun b h => done b (by omega) h, rfl⟩
  | succ fuel ih =>
      simp only [reclaimLoop]
      split
      case isFalse => exact ⟨finish fun b h => done b (by omega) h, rfl⟩
      rename_i more
      rcases findNextZeroArea_spec r.areaBitmap stop start Nat.one_pos with
        ⟨fits, least, free, first⟩ | ⟨beyond, none⟩
      · rw [if_neg (by omega)]
        generalize bitmapFindNextZeroArea r.areaBitmap stop start 1 = h at *
        have runs := zeros_set fits free
        have zero : h ∈ zeros r.areaBitmap stop := mem_zeros.2 ⟨by omega, free h le_rfl (by omega)⟩
        have one : r.areaMap h = true := by
          by_contra clear
          have other : h ∈ zeros r.areaMap ssdMaxVirblocksPerChannel :=
            mem_zeros.2 ⟨by omega, by simpa using clear⟩
          have separate := tiles.separate.append_left
          rw [freeExtentsOf, List.map_append, List.append_assoc] at separate
          exact separate.disjoint_append (List.mem_map_of_mem zero)
            (List.mem_append_left _ (List.mem_map_of_mem other)) (b := h)
            ⟨le_rfl, by simp [Extent.unit]⟩ ⟨le_rfl, by simp [Extent.unit]⟩
        have heads := zeros_clear (m := r.areaMap) (n := ssdMaxVirblocksPerChannel) (s := h)
          (k := 1) (by omega) fun i lo hi => by rw [show i = h by omega]; exact one
        -- the block leaves one list of zero bits and enters the other
        have perm : (zeros r.areaBitmap stop ++ zeros r.areaMap ssdMaxVirblocksPerChannel).Perm
            (zeros (bitmapSet r.areaBitmap h 1) stop ++
              zeros (bitmapClear r.areaMap h 1) ssdMaxVirblocksPerChannel) := by
          refine ((runs.trans List.perm_append_comm).append_right _).trans ?_
          rw [List.append_assoc]
          exact heads.symm.append_left _
        have tiles' : Tiles ssdMaxVirblocksPerChannel (freeExtentsOf
            (zeros (bitmapSet r.areaBitmap h 1) stop ++
              zeros (bitmapClear r.areaMap h 1) ssdMaxVirblocksPerChannel) d current ++ used) :=
          tiles.perm (((perm.map Extent.unit).append_right _).append_right _)
        have done' : ∀ b, b < h + 1 → b < stop → bitmapSet r.areaBitmap h 1 b = true := by
          intro b low inside
          simp only [bitmapSet]
          split
          · rfl
          by_cases old : b < start
          · exact done b old inside
          · obtain ⟨i, lo, hi, set⟩ := first b (by omega) (by omega)
            rwa [show b = i by omega]
        obtain ⟨final, count⟩ := ih (h + 1)
          (r := ⟨bitmapSet r.areaBitmap h 1, bitmapClear r.areaMap h 1, r.freeBlocks + (1 : Nat)⟩)
          tiles' (by omega) done' (fun full => by
            rwa [zeros_eq_nil full, List.nil_append] at tiles')
        refine ⟨final, ?_⟩
        have length := heads.length_eq
        simp only [List.length_append, List.length_range'] at length
        simp only at count
        omega
      · rw [if_pos (by omega)]
        refine ⟨finish fun b inside => ?_, rfl⟩
        by_cases old : b < start
        · exact done b old inside
        · obtain ⟨i, lo, hi, set⟩ := none b (by omega) (by omega)
          rwa [show b = i by omega]

theorem multiplicity_zeros (m : Bitmap) (n b : Nat) :
    multiplicity ((zeros m n).map Extent.unit) b = if b < n ∧ m b = false then 1 else 0 := by
  rw [multiplicity_map_unit (zeros_nodup m n)]
  simp only [mem_zeros]

/-- **A reload from a table of disjoint extents partitions the channel.** -/
theorem reloadSpace_spec {m : Bitmap} (separate : Separate used)
    (inside : ∀ e ∈ used, e.start + e.len ≤ ssdMaxVirblocksPerChannel)
    (bits : ∀ b, m b = true ↔ ∃ e ∈ used, e.start ≤ b ∧ b < e.start + e.len) :
    SpaceOk (reloadSpace m) used := by
  obtain ⟨below, above⟩ := scanEnd_spec m ssdMaxVirblocksPerChannel
  have covered : ∀ b, multiplicity used b = if m b = true then 1 else 0 := by
    intro b
    have once := separate b
    have positive := (multiplicity_pos_iff (l := used) (b := b)).trans (bits b).symm
    split
    · rename_i one
      have := positive.2 one
      omega
    · rename_i zero
      have := mt positive.1 zero
      omega
  have clear : ∀ b, ssdMaxVirblocksPerChannel ≤ b → m b = false := by
    intro b high
    by_contra one
    obtain ⟨e, member, lo, hi⟩ := (bits b).1 (by simpa using one)
    have := inside e member
    omega
  -- the blocks below the scan end, the prepared areas above it and the table tile the channel
  have start : ∀ {area : FreeAreaList} {current pre : Nat},
      scanEnd m ssdMaxVirblocksPerChannel + 6 * pre ≤ ssdMaxVirblocksPerChannel →
      ssdInitChannelBitmap (scanEnd m ssdMaxVirblocksPerChannel) pre = (area, current) →
      Tiles ssdMaxVirblocksPerChannel (freeExtentsOf
        (zeros m (scanEnd m ssdMaxVirblocksPerChannel) ++
          zeros area.iblock.areaMap ssdMaxVirblocksPerChannel)
        (zeros area.dblock.areaMap ssdMaxVirblocksPerChannel) current ++ used) := by
    intro area current pre fits init
    obtain ⟨-, -, -, -, prepared⟩ := ssdInitChannelBitmap_spec fits init
    intro b
    have free := prepared b
    have low := multiplicity_zeros m (scanEnd m ssdMaxVirblocksPerChannel) b
    have high := above b
    have out := clear b
    rw [multiplicity_freeExtentsOf] at free
    rw [multiplicity_append, multiplicity_freeExtentsOf, List.map_append, multiplicity_append, low,
      covered b]
    simp only [multiplicity_cons, multiplicity_nil] at free ⊢
    generalize m b = bit at *
    cases bit
    · simp only [Bool.false_eq_true, if_false, and_true]
      split_ifs at free ⊢ <;> omega
    · simp only [Bool.true_eq_false, imp_false, and_false, if_true, if_false] at high out ⊢
      split_ifs at free ⊢ <;> omega
  simp only [reloadSpace, BlockType.size_iblock, BlockType.size_dblock]
  split
  · rename_i empty
    rcases init : ssdInitChannelBitmap 0 preAllocBlocks with ⟨area, high⟩
    obtain ⟨iType, dType, current, count, -⟩ :=
      ssdInitChannelBitmap_spec (show 0 + 6 * preAllocBlocks ≤ _ by decide) init
    have tiles := @start area high preAllocBlocks (by rw [empty]; decide) (by rw [empty]; exact init)
    rw [empty, show zeros m 0 = [] from rfl, List.nil_append] at tiles
    refine ⟨iType, dType, by simp only [current]; decide, tiles, ?_⟩
    simp only [freeExtents, sum_freeExtentsOf, ssdMaxVirblocksPerChannel, preAllocBlocks] at current count ⊢
    omega
  · rename_i nonempty
    generalize preEq : (if scanEnd m ssdMaxVirblocksPerChannel ≤ ssdMaxVirblocksPerChannel / 2
      then preAllocBlocks else 0) = pre
    have fits : scanEnd m ssdMaxVirblocksPerChannel + 6 * pre ≤ ssdMaxVirblocksPerChannel := by
      simp only [ssdMaxVirblocksPerChannel, preAllocBlocks] at preEq below ⊢
      split at preEq <;> omega
    rcases init : ssdInitChannelBitmap (scanEnd m ssdMaxVirblocksPerChannel) pre with ⟨area, high⟩
    obtain ⟨iType, dType, current, count, -⟩ := ssdInitChannelBitmap_spec fits init
    have tiles := start fits init
    clear init start
    generalize scanEnd m ssdMaxVirblocksPerChannel = stop at *
    obtain ⟨tilesD, countD⟩ := reclaimLoop_dblock (stop + 1) 0
      (r := ⟨m, area.dblock.areaMap, ((ssdMaxVirblocksPerChannel : Nat) : Int) - stop⟩) tiles below
    generalize reclaimLoop 5 stop (stop + 1) 0
      ⟨m, area.dblock.areaMap, ((ssdMaxVirblocksPerChannel : Nat) : Int) - stop⟩ = rd at *
    obtain ⟨tilesI, countI⟩ := reclaimLoop_iblock (stop + 1) 0
      (r := ⟨rd.areaBitmap, area.iblock.areaMap, rd.freeBlocks⟩) tilesD below (by omega)
      fun b low _ => by omega
    refine ⟨iType, dType, ?_, tilesI, ?_⟩
    · exact current.le.trans fits
    · simp only [freeExtents, sum_freeExtentsOf] at *
      omega

end Reload

end FpgaSsd.Driver
