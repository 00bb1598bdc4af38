/-
# Theory.Alignment — the capacity of a channel for 10M ids

A channel whose writes all take five blocks keeps everything in aligned fives: the
zero bits of the `IBLOCK` bitmap, the heads of the `DBLOCK` bitmap, the current
free area and the extents of its ids. So nothing is lost to fragmentation:

* `Aligned` — the invariant of the allocator;
* `alloc_aligned`, `reloadSpace_aligned` — allocation, with its merges, and the
  rebuild of the bitmaps keep it;
* `full_capacity` — a write finds no blocks only when 1600 ids are stored.
-/
import FpgaSsd.Theory.Capacity

namespace FpgaSsd.Theory

open FpgaSsd.Lib FpgaSsd.Driver

set_option autoImplicit false

/-! ## Aligned bitmaps -/

/-- Below `n` the bits of an aligned five are equal. -/
def Fives (n : Nat) (m : Bitmap) : Prop := ∀ b < n, m b = m (b / 5 * 5)

/-- Below the end of the channel only the first of an aligned five has a zero bit. -/
def Heads (m : Bitmap) : Prop := ∀ b < ssdMaxVirblocksPerChannel, m b = false → b % 5 = 0

section Bitmaps

variable {m : Bitmap} {n start index : Nat}

/-- The first run of five zero bits is an aligned five. -/
theorem Fives.first (fives : Fives n m) (aligned : start % 5 = 0)
    (found : bitmapFindNextZeroArea m n start 5 = index) (fits : index + 5 ≤ n) : index % 5 = 0 := by
  rcases findNextZeroArea_spec m n start (k := 5) (by omega) with ⟨-, least, free, first⟩ | ⟨beyond, -⟩
  · rw [found] at least free first
    by_contra off
    -- the aligned five around `index` is free and comes before it
    obtain ⟨i, lo, hi, one⟩ := first (index / 5 * 5) (by omega) (by omega)
    have same : m i = m index := by
      rw [fives i (by omega), fives index (by omega), show i / 5 = index / 5 by omega]
    rw [same, free index le_rfl (by omega)] at one
    cases one
  · omega

theorem Fives.set (fives : Fives n m) (aligned : index % 5 = 0) : Fives n (bitmapSet m index 5) := by
  intro b below
  simp only [bitmapSet]
  by_cases inside : index ≤ b ∧ b < index + 5
  · rw [if_pos inside, if_pos (by omega)]
  · rw [if_neg inside, if_neg (by omega)]
    exact fives b below

theorem Heads.clear (heads : Heads m) (aligned : index % 5 = 0) : Heads (bitmapClear m index 1) := by
  intro b below zero
  simp only [bitmapClear] at zero
  by_cases here : index ≤ b ∧ b < index + 1
  · omega
  · rw [if_neg here] at zero
    exact heads b below zero

theorem Heads.set (heads : Heads m) : Heads (bitmapSet m index 1) := by
  intro b below zero
  simp only [bitmapSet] at zero
  split at zero
  · cases zero
  · exact heads b below zero

theorem Heads.cleared (heads : Heads m) (k : Nat) (aligned : start % 5 = 0) :
    Heads (clearHeads m start k) := by
  induction k generalizing m start with
  | zero => exact heads
  | succ k ih =>
      rw [clearHeads]
      exact ih (heads.clear aligned) (by simp only [BlockType.size_dblock]; omega)

/-- The runs that a merge moves are aligned fives. -/
theorem mergeLoop_aligned {fuel count : Nat} {src dst : Bitmap}
    (fives : Fives ssdMaxVirblocksPerChannel src) (heads : Heads dst) (aligned : start % 5 = 0) :
    Fives ssdMaxVirblocksPerChannel (mergeLoop 5 fuel start (count, src, dst)).2.1 ∧
      Heads (mergeLoop 5 fuel start (count, src, dst)).2.2 := by
  induction fuel generalizing start count src dst with
  | zero => exact ⟨fives, heads⟩
  | succ fuel ih =>
      simp only [mergeLoop]
      split
      case isFalse => exact ⟨fives, heads⟩
      split
      case isTrue => exact ⟨fives, heads⟩
      rename_i inside
      rcases findNextZeroArea_spec src ssdMaxVirblocksPerChannel start (k := 5) (by omega) with
        ⟨fits, -⟩ | ⟨beyond, -⟩
      · have index := fives.first aligned rfl fits
        exact ih (fives.set index) (heads.clear index) (by omega)
      · omega

/-- The scan for free fives takes aligned ones, and leaves none. -/
theorem reclaimLoop_aligned {fuel stop : Nat} {r : Reclaim} (fives : Fives stop r.areaBitmap)
    (heads : Heads r.areaMap) (aligned : start % 5 = 0) (whole : stop % 5 = 0)
    (enough : stop < start + fuel) (done : ∀ b < start, b < stop → r.areaBitmap b = true) :
    Heads (reclaimLoop 5 stop fuel start r).areaMap ∧
      ∀ b < stop, (reclaimLoop 5 stop fuel start r).areaBitmap b = true := by
  induction fuel generalizing start r with
  | zero => exact ⟨heads, fun b below => done b (by omega) below⟩
  | succ fuel ih =>
      simp only [reclaimLoop]
      split
      case isFalse => exact ⟨heads, fun b below => done b (by omega) below⟩
      rcases findNextZeroArea_spec r.areaBitmap stop start (k := 5) (by omega) with
        ⟨fits, least, free, first⟩ | ⟨beyond, none⟩
      · rw [if_neg (by omega)]
        have index := fives.first aligned rfl fits
        generalize bitmapFindNextZeroArea r.areaBitmap stop start 5 = h at *
        refine ih (fives.set index) (heads.clear index) (by omega) (by omega) fun b low below => ?_
        simp only [bitmapSet]
        split
        · rfl
        by_cases old : b < start
        · exact done b old below
        -- the five of `b` was passed over, so one of its bits is set, and all are
        · obtain ⟨i, lo, hi, one⟩ := first (b / 5 * 5) (by omega) (by omega)
          rw [fives i (by omega), show i / 5 = b / 5 by omega] at one
          exact (fives b below).trans one
      · rw [if_pos (by omega)]
        refine ⟨heads, fun b below => ?_⟩
        by_cases old : b < start
        · exact done b old below
        · obtain ⟨i, lo, hi, one⟩ := none (b / 5 * 5) (by omega) (by omega)
          rw [fives i (by omega), show i / 5 = b / 5 by omega] at one
          exact (fives b below).trans one

/-- A scan of a full bitmap does nothing. -/
theorem reclaimLoop_full {blocks fuel stop : Nat} {r : Reclaim} (positive : 0 < blocks)
    (full : ∀ b < stop, r.areaBitmap b = true) : reclaimLoop blocks stop fuel start r = r := by
  cases fuel with
  | zero => rfl
  | succ fuel =>
      simp only [reclaimLoop]
      split
      · rcases findNextZeroArea_spec r.areaBitmap stop start positive with
          ⟨fits, -, free, -⟩ | ⟨beyond, -⟩
        · have zero := free _ le_rfl (by omega)
          rw [full _ (by omega)] at zero
          cases zero
        · rw [if_pos (by omega)]
      · rfl

theorem scanEnd_top (more : 0 < scanEnd m n) : m (scanEnd m n - 1) = true := by
  induction n with
  | zero => cases more
  | succ n ih =>
      simp only [scanEnd] at more ⊢
      split
      · simpa
      · rename_i zero
        rw [if_neg zero] at more
        exact ih more

/-- The scan of the blocks in use ends behind an aligned five. -/
theorem Fives.scanEnd (fives : Fives ssdMaxVirblocksPerChannel m) :
    scanEnd m ssdMaxVirblocksPerChannel % 5 = 0 := by
  obtain ⟨below, above⟩ := scanEnd_spec m ssdMaxVirblocksPerChannel
  have top := scanEnd_top (m := m) (n := ssdMaxVirblocksPerChannel)
  generalize FpgaSsd.Driver.scanEnd m ssdMaxVirblocksPerChannel = stop at *
  simp only [ssdMaxVirblocksPerChannel] at below above fives
  by_contra off
  have one := top (by omega)
  -- the last block of the five that holds the end would be in use
  have last : m (stop / 5 * 5 + 4) = false := above _ (by omega) (by omega)
  rw [fives _ (by omega), show (stop / 5 * 5 + 4) / 5 = (stop - 1) / 5 by omega,
    ← fives (stop - 1) (by omega), one] at last
  cases last

end Bitmaps

/-! ## The allocator -/

/-- Everything free is recorded in aligned fives. -/
structure Aligned (s : ChannelSpace) : Prop where
  runs : Fives ssdMaxVirblocksPerChannel s.area.iblock.areaMap
  heads : Heads s.area.dblock.areaMap
  current : s.currentFreeArea % 5 = 0

section Allocator

variable {s s' : ChannelSpace} {used : List Extent} {i : Nat}

theorem allocDblock_aligned {fuel : Nat} (ok : SpaceOk s used) (aligned : Aligned s)
    (run : allocDblock fuel s = some ((i : Int), s')) : Aligned s' ∧ i % 5 = 0 := by
  induction fuel generalizing s with
  | zero => cases run
  | succ fuel ih =>
      simp only [allocDblock, ok.dblockType, BlockType.size_dblock] at run
      split at run
      · rename_i inside
        obtain ⟨index, rfl⟩ := Prod.mk.inj (Option.some.inj run)
        obtain rfl := Int.ofNat.inj index
        exact ⟨⟨aligned.runs, aligned.heads.set, aligned.current⟩,
          aligned.heads _ inside (findBit_lt inside)⟩
      split at run
      · obtain ⟨index, rfl⟩ := Prod.mk.inj (Option.some.inj run)
        obtain rfl := Int.ofNat.inj index
        have current := aligned.current
        exact ⟨⟨aligned.runs, aligned.heads, by simp only; omega⟩, current⟩
      split at run
      · refine ih (bitmapMerge_spec ok rfl) ?_ run
        have merged := @mergeLoop_aligned 0 (ssdMaxVirblocksPerChannel + 1) 0 _ _ aligned.runs
          aligned.heads rfl
        have shape : (bitmapMerge s.area.iblock s.area.dblock).2.1.areaMap =
              (mergeLoop 5 (ssdMaxVirblocksPerChannel + 1) 0
                (0, s.area.iblock.areaMap, s.area.dblock.areaMap)).2.1 ∧
            (bitmapMerge s.area.iblock s.area.dblock).2.2.areaMap =
              (mergeLoop 5 (ssdMaxVirblocksPerChannel + 1) 0
                (0, s.area.iblock.areaMap, s.area.dblock.areaMap)).2.2 := by
          rw [bitmapMerge, if_neg (by simp [ok.iblockType, ok.dblockType]), ok.dblockType]
          exact ⟨rfl, rfl⟩
        rw [← shape.1, ← shape.2] at merged
        exact ⟨merged.1, merged.2, aligned.current⟩
      · cases run

/-- **An allocation of five blocks takes an aligned five** and keeps the others. -/
theorem alloc_aligned (ok : SpaceOk s used) (aligned : Aligned s)
    (run : ssdAllocLogicBlock s .dblock = some ((i : Int), s')) : Aligned s' ∧ i % 5 = 0 :=
  allocDblock_aligned ok aligned run

/-- An aligned five can be given back. -/
theorem deleteLogicBlock_aligned {info : IdInfo} (aligned : Aligned s) (five : info.len = .dblock)
    (block : info.block.val % 5 = 0) : Aligned (deleteLogicBlock s info) := by
  obtain ⟨channel, block', len⟩ := info
  subst five
  exact ⟨aligned.runs, aligned.heads.clear block, aligned.current⟩

/-- **The bitmaps rebuilt from aligned fives** are aligned. -/
theorem reloadSpace_aligned {m : Bitmap} (fives : Fives ssdMaxVirblocksPerChannel m) :
    Aligned (reloadSpace m) := by
  have ones : Fives ssdMaxVirblocksPerChannel fun _ => true := fun _ _ => rfl
  have none : Heads fun _ => true := fun _ _ zero => by cases zero
  -- the prepared fives of the `IBLOCK` bitmap
  have prepared : ∀ start pre, start % 5 = 0 → pre % 5 = 0 →
      Fives ssdMaxVirblocksPerChannel (bitmapClear (fun _ => true) start pre) := by
    intro start pre first count b _
    simp only [bitmapClear]
    by_cases inside : start ≤ b ∧ b < start + pre
    · rw [if_pos inside, if_pos (by omega)]
    · rw [if_neg inside, if_neg (by omega)]
  have whole := fives.scanEnd
  obtain ⟨below, -⟩ := scanEnd_spec m ssdMaxVirblocksPerChannel
  simp only [reloadSpace, ssdInitChannelBitmap, BlockType.size_iblock, BlockType.size_dblock,
    Nat.mul_one]
  split
  · exact ⟨prepared 0 _ rfl rfl, none.cleared _ rfl, rfl⟩
  generalize scanEnd m ssdMaxVirblocksPerChannel = stop at *
  have pre : (if stop ≤ ssdMaxVirblocksPerChannel / 2 then preAllocBlocks else 0) % 5 = 0 := by
    split <;> rfl
  generalize (if stop ≤ ssdMaxVirblocksPerChannel / 2 then preAllocBlocks else 0) = count at *
  obtain ⟨heads, full⟩ := @reclaimLoop_aligned 0 (stop + 1) stop
    (⟨m, clearHeads (fun _ => true) (stop + count) count,
      ((ssdMaxVirblocksPerChannel : Nat) : Int) - stop⟩)
    (fun b low => fives b (by omega)) (none.cleared _ (by omega)) rfl whole (by omega)
    fun b low _ => by omega
  generalize reclaimLoop 5 stop (stop + 1) 0 ⟨m, clearHeads (fun _ => true) (stop + count) count,
    ((ssdMaxVirblocksPerChannel : Nat) : Int) - stop⟩ = scanned at *
  have rest := fun map => @reclaimLoop_full 0 1 (stop + 1) stop
    (⟨scanned.areaBitmap, map, scanned.freeBlocks⟩) Nat.one_pos full
  rw [rest]
  exact ⟨prepared stop count whole pre, heads, by simp only; omega⟩

/-- Where an aligned channel has no five blocks left, it has none. -/
theorem Cramped.exhausted (cramped : Cramped s) (ok : SpaceOk s used) (aligned : Aligned s)
    (nonempty : ∀ e ∈ used, 0 < e.len) : (used.map Extent.len).sum = ssdMaxVirblocksPerChannel := by
  have area := cramped.area
  have runs := cramped.runs
  have fives := aligned.runs
  have whole := aligned.current
  have current := ok.current
  simp only [ssdMaxVirblocksPerChannel] at area runs fives current
  have full : ∀ b < ssdMaxVirblocksPerChannel, s.area.iblock.areaMap b = true := by
    intro b below
    simp only [ssdMaxVirblocksPerChannel] at below
    obtain ⟨i, lo, hi, one⟩ := runs (b / 5 * 5) (by omega)
    rw [fives b below, ← one, fives i (by omega), show i / 5 = b / 5 by omega]
  have nothing : ((freeExtents s).map Extent.len).sum = 0 := by
    rw [freeExtents, sum_freeExtentsOf, zeros_eq_nil full, zeros_eq_nil cramped.heads,
      List.length_nil]
    simp only [ssdMaxVirblocksPerChannel]
    omega
  have all := ok.tiles.sum_len fun e member => by
    rcases List.mem_append.1 member with free | taken
    · exact freeExtents_inside ok e free
    · exact ok.tiles.end_le member (nonempty e taken)
  rw [List.map_append, List.sum_append, nothing, Nat.zero_add] at all
  exact all

end Allocator

/-! ## The channel -/

/-- A channel that stores 10M ids only, in aligned fives. -/
structure Wide (c : Nat) (books : Books) : Prop where
  inv : ChannelInv c [] books
  placed : ChannelPlaced c books.2
  aligned : Aligned books.1
  nodes : ∀ node ∈ nodesOf books.2, node.info.len = .dblock ∧ node.info.block.val % 5 = 0

section Channels

variable {c : Nat} {id : BlockId} {b books : Books} {ret : Int}

theorem at_block {i : Nat} (fits : i + 5 ≤ ssdMaxVirblocksPerChannel) (t : BlockType) :
    (IdInfo.at c i t).block.val = i := by
  simp only [ssdMaxVirblocksPerChannel] at fits
  simp only [IdInfo.at, Fin.val_ofNat]
  exact Nat.mod_eq_of_lt (by omega)

theorem WriteEffect.wide (effect : WriteEffect c id .dblock b.1 b.2 ret books)
    (channel : id2channel id = c) (wide : Wide c b) : Wide c books := by
  have inside : c < ssdMaxChannel := channel ▸ id2channel_lt id
  refine ⟨effect.inv inside wide.inv, effect.placed channel wide.placed, ?_, ?_⟩
  · cases effect with
    | known => exact wide.aligned
    | full fresh alloc =>
        have same := (alloc_dblock_cramped wide.inv.space alloc).alloc wide.inv.space
        rw [alloc] at same
        cases same
        exact wide.aligned
    | undone fresh alloc =>
        obtain ⟨aligned, index⟩ := alloc_aligned wide.inv.space wide.aligned alloc
        refine deleteLogicBlock_aligned aligned rfl ?_
        rw [at_block (alloc_moves wide.inv.space alloc).1]
        exact index
    | done fresh alloc => exact (alloc_aligned wide.inv.space wide.aligned alloc).1
  · cases effect with
    | known | full | undone => exact wide.nodes
    | done fresh alloc =>
        intro node member
        rcases List.mem_cons.1 ((nodesOf_insertNode _).mem_iff.1 member) with rfl | old
        · refine ⟨rfl, ?_⟩
          rw [at_block (alloc_moves wide.inv.space alloc).1]
          exact (alloc_aligned wide.inv.space wide.aligned alloc).2
        · exact wide.nodes node old

theorem DeleteEffect.wide (effect : DeleteEffect id b.1 b.2 ret books) (channel : id2channel id = c)
    (wide : Wide c b) : Wide c books := by
  refine ⟨effect.inv wide.inv, effect.placed channel wide.placed, ?_, ?_⟩
  · cases effect with
    | absent | undone => exact wide.aligned
    | done found =>
        obtain ⟨five, block⟩ := wide.nodes _
          ((nodesOf_removeNode found).mem_iff.2 (List.mem_cons_self ..))
        exact deleteLogicBlock_aligned wide.aligned five block
  · cases effect with
    | absent => exact wide.nodes
    | undone found =>
        exact fun node member => wide.nodes node ((nodesOf_restored found).mem_iff.1 member)
    | done found =>
        exact fun node member => wide.nodes node
          ((nodesOf_removeNode found).mem_iff.2 (List.mem_cons_of_mem _ member))

/-- The buckets that opening fills from the ids of `h`, in any order. -/
def SameIds (h h' : Nat → HashHead) : Prop := ∀ b,
  (h' b).first.Perm (h b).first ∧ (h' b).count = (h' b).first.length

theorem SameIds.nodes {h h' : Nat → HashHead} (same : SameIds h h') :
    (nodesOf h').Perm (nodesOf h) := List.Perm.flatMap_left _ fun b _ => (same b).1

theorem SameIds.placed {h h' : Nat → HashHead} (same : SameIds h h') (placed : ChannelPlaced c h) :
    ChannelPlaced c h' := by
  refine ⟨fun b below node member => ?_, fun b below => ?_, fun b _ => (same b).2⟩
  · exact placed.node b below node ((same b).1.mem_iff.1 member)
  · exact ((same b).1.map HashNode.id).nodup_iff.2 (placed.distinct b below)

theorem tableOk_of_inv {h h' : Nat → HashHead} {s : ChannelSpace} (inv : ChannelInv c [] (s, h))
    (perm : (nodesOf h').Perm (nodesOf h)) : TableOk h' := by
  have ok : SpaceOk s (extentsOf h') := (inv.perm perm).space
  refine ⟨ok.tiles.separate.append_right.pairwise, fun e member => ?_⟩
  obtain ⟨node, -, rfl⟩ := List.mem_map.1 member
  exact ok.tiles.end_le (List.mem_append_right _ member) node.info.len.size_pos

/-- Opening rebuilds the bitmaps from aligned fives. -/
theorem Reloaded.wide {s : ChannelSpace} {h : Nat → HashHead} (reloaded : Reloaded c (s, h) books)
    (wide : Wide c b) (same : SameIds b.2 h) : Wide c books := by
  obtain ⟨⟨m, space, bits⟩, hash, own⟩ := reloaded
  have ok := tableOk_of_inv wide.inv same.nodes
  have nodes : ∀ node ∈ nodesOf h, node.info.len = .dblock ∧ node.info.block.val % 5 = 0 :=
    fun node member => wide.nodes node (same.nodes.mem_iff.1 member)
  simp only at hash own bits
  refine ⟨⟨?_, ?_⟩, ?_, ?_, ?_⟩
  · rw [space, hash]
    exact reloadSpace_spec (separate_of_pairwise ok.disjoint) ok.inside bits
  · rw [hash]
    exact own
  · rw [hash]
    exact same.placed wide.placed
  · rw [space]
    refine reloadSpace_aligned fun block _ => ?_
    -- an aligned five is used as a whole
    rw [Bool.eq_iff_iff, bits, bits]
    refine exists_congr fun e => and_congr_right fun member => ?_
    obtain ⟨node, inTable, rfl⟩ := List.mem_map.1 member
    obtain ⟨five, start⟩ := nodes node inTable
    simp only [Extent.mem_blocks, IdInfo.extent, five, BlockType.size_dblock]
    omega
  · rw [hash]
    exact nodes

/-- The ids of 10M that lookups find in a channel. -/
def liveFives (h : Nat → HashHead) : Set BlockId :=
  {id | ∃ info, find h id = some info ∧ info.len = .dblock}

theorem Wide.live (wide : Wide c b) : (liveFives b.2).ncard = (nodesOf b.2).length := by
  have same : liveFives b.2 = (((nodesOf b.2).map HashNode.id).toFinset : Set BlockId) := by
    ext id
    simp only [liveFives, Set.mem_ofPred_eq, List.coe_toFinset, List.mem_map]
    constructor
    · rintro ⟨info, found, -⟩
      exact ⟨⟨id, info⟩, (nodesOf_removeNode found).mem_iff.2 (List.mem_cons_self ..), rfl⟩
    · rintro ⟨node, member, rfl⟩
      obtain ⟨bucket, below, inBucket⟩ := List.mem_flatMap.1 member
      obtain ⟨-, -, hash⟩ := wide.placed.node bucket (List.mem_range.1 below) node inBucket
      have some : find b.2 node.id ≠ none := by
        rw [find, hash]
        exact fun none => lookup_eq_none.1 none (List.mem_map_of_mem inBucket)
      obtain ⟨info, found⟩ := Option.ne_none_iff_exists'.1 some
      refine ⟨info, found, (wide.nodes ⟨node.id, info⟩ ?_).1⟩
      exact (nodesOf_removeNode found).mem_iff.2 (List.mem_cons_self ..)
  have nodup : ((nodesOf b.2).map HashNode.id).Nodup := wide.placed.nodup
  rw [same, Set.ncard_coe_finset, List.toFinset_card_of_nodup nodup, List.length_map]

/-- Where such a channel has no five blocks left, it holds 1600 ids. -/
theorem Wide.full (wide : Wide c b) (cramped : Cramped b.1) : (liveFives b.2).ncard = 1600 := by
  have used := cramped.exhausted wide.inv.space wide.aligned fun e member => by
    obtain ⟨node, -, rfl⟩ := List.mem_map.1 member
    exact node.info.len.size_pos
  have fives : ∀ nodes : List HashNode, (∀ node ∈ nodes, node.info.len = .dblock) →
      ((nodes.map fun node => node.info.extent).map Extent.len).sum = 5 * nodes.length := by
    intro nodes all
    induction nodes with
    | nil => rfl
    | cons node rest ih =>
        have first := all node (List.mem_cons_self ..)
        have later := ih fun n member => all n (List.mem_cons_of_mem _ member)
        rw [List.map_cons, List.map_cons, List.sum_cons, later, List.length_cons]
        simp only [IdInfo.extent, first, BlockType.size_dblock]
        omega
  rw [List.nil_append, extentsOf, fives _ fun node member => (wide.nodes node member).1] at used
  rw [wide.live]
  simp only [ssdMaxVirblocksPerChannel] at used
  omega

end Channels

/-! ## Runs -/

/-- Closing and opening the card: the buckets hold the ids they held, and
`ssd_reload_bitmap` succeeds on them. -/
def Reopens (d d' : Device) : Prop := ∃ d1,
  (∀ c < ssdMaxChannel, SameIds (d.ch c).hash (d1.ch c).hash) ∧
    Run anyOutcome ssdReloadBitmap d1 ssdOk d'

section Runs

variable {c : Nat} {start d d' : Device}

theorem Reopens.inv (reopens : Reopens d d') (inv : Inv idle (ledger d)) : Inv idle (ledger d') := by
  obtain ⟨d1, same, run⟩ := reopens
  exact (ssdReloadBitmap_inv fun c inside =>
    tableOk_of_inv (inv c inside) (same c inside).nodes).runs run rfl

/-- A channel with no ids, as opening sets it up. -/
structure EmptyChannel (c : Nat) (d : Device) : Prop where
  space : (d.ch c).space = reloadSpace fun _ => false
  hash : ∀ b, (d.ch c).hash b = ⟨0, []⟩

theorem EmptyChannel.wide (empty : EmptyChannel c start) (inv : ChannelInv c [] (ledger start c)) :
    Wide c (ledger start c) := by
  have bucket : ∀ b, (ledger start c).2 b = ⟨0, []⟩ := empty.hash
  have nodes : nodesOf (ledger start c).2 = [] :=
    List.flatMap_eq_nil_iff.2 fun b _ => by rw [bucket]
  refine ⟨inv, ⟨fun b _ node member => ?_, fun b _ => ?_, fun b _ => ?_⟩, ?_, fun node member => ?_⟩
  · rw [bucket] at member
    cases member
  · rw [bucket]
    exact List.nodup_nil
  · rw [bucket]
    rfl
  · rw [show (ledger start c).1 = reloadSpace fun _ => false from empty.space]
    exact reloadSpace_aligned fun _ _ => rfl
  · rw [nodes] at member
    cases member

/-- The channel stays wide while its writes take five blocks. -/
theorem Workload.wide (inside : c < ssdMaxChannel) (ready : Inv idle (ledger start))
    (empty : EmptyChannel c start)
    (run : Workload (fun p => id2channel p.id = c → p.len = BlockType.dblock.size) Reopens start d) :
    Wide c (ledger d c) := by
  induction run with
  | here => exact empty.wide (ready c inside)
  | write before p size run ih =>
      rcases (ssdIdWrite_effect p).runs run with ⟨-, same⟩ | ⟨t, books, len, effect, after⟩
      · rwa [same]
      rw [after]
      by_cases here : id2channel p.id = c
      · subst here
        obtain rfl : t = .dblock := by
          have five := len.symm.trans (size rfl)
          cases t with
          | iblock => cases five
          | dblock => rfl
        rw [Function.update_self]
        exact effect.wide rfl ih
      · rwa [Function.update_of_ne (Ne.symm here)]
  | delete before id run ih =>
      have inv := before.inv ready fun _ _ => Reopens.inv
      obtain ⟨books, effect, after⟩ := (ssdIdDelete_effect id fun info found =>
        (inv _ (id2channel_lt id)).own ⟨id, info⟩
          ((nodesOf_removeNode found).mem_iff.2 (List.mem_cons_self ..))).runs run
      rw [after]
      by_cases here : id2channel id = c
      · subst here
        rw [Function.update_self]
        exact effect.wide rfl ih
      · rwa [Function.update_of_ne (Ne.symm here)]
  | cycle before reopens ih =>
      obtain ⟨d1, same, run⟩ := reopens
      have reloads := ssdReloadBitmap_reloads.runs run rfl c inside
      exact reloads.wide ih (same c inside)

/-- **A channel has room for 1600 ids of 10M.** Whatever was written, deleted and
reopened before, with whatever failures, a write finds blocks while fewer are stored. -/
theorem full_capacity (inside : c < ssdMaxChannel) (ready : Inv idle (ledger start))
    (empty : EmptyChannel c start)
    (run : Workload (fun p => id2channel p.id = c → p.len = BlockType.dblock.size) Reopens start d)
    (few : (liveFives (d.ch c).hash).ncard < 1600) (p : WriteParam) (here : id2channel p.id = c)
    (len : p.len = BlockType.dblock.size) {ret : Int}
    (write : Run anyOutcome (ssdIdWrite p) d ret d') : ret ≠ -errNoInvalidBlocks := by
  rintro rfl
  have wide := run.wide inside ready empty
  rcases (ssdIdWrite_effect p).runs write with ⟨other, -⟩ | ⟨t, books, size, effect, -⟩
  · cases other
  obtain rfl : t = .dblock := by
    have five := size.symm.trans len
    cases t with
    | iblock => cases five
    | dblock => rfl
  rw [here] at effect
  generalize answer : -errNoInvalidBlocks = ret at effect
  cases effect with
  | known => cases answer
  | full fresh alloc =>
      have stored : (liveFives (d.ch c).hash).ncard = 1600 :=
        wide.full (alloc_dblock_cramped wide.inv.space alloc)
      omega
  | undone _ _ _ other => exact other (.inr answer.symm)
  | done => cases answer

/-- A first data id on a new card. -/
theorem exists_one_five : ∃ d, Mirrors Held.none d ∧
    Workload (fun p => id2channel p.id = 0 → p.len = BlockType.dblock.size) Reopens emptyDevice d ∧
    ∀ id, find (d.ch 0).hash id = if id = numbered 0 then some (.at 0 100 .dblock) else none := by
  obtain ⟨first, d, run, idle⟩ := exists_run noFailure_live emptyDevice_mirrors
    (ssdIdWrite_locks free_none ⟨numbered 0, fun _ => 0, 5⟩)
  have whole := run_any run
  have fine := (ssdIdWrite_fine .dblock ⟨numbered 0, fun _ => 0, 5⟩ rfl).runs run
  obtain ⟨t, books, size, effect, after⟩ := ((ssdIdWrite_effect ⟨numbered 0, fun _ => 0, 5⟩).runs run).resolve_left
    fun refused => by
      rw [refused.1] at fine
      simp [Refusal] at fine
  obtain rfl : t = .dblock := by
    cases t with
    | iblock => cases size
    | dblock => rfl
  rw [numbered_channel] at effect after
  have space : (ledger emptyDevice 0).1 = filled 0 0 600 8000 := by
    simp only [ledger, emptyDevice]
    exact emptyChannel_space.trans reloadSpace_empty
  have here : ledger d 0 = books := by
    rw [after]
    exact Function.update_self ..
  rw [space] at effect
  rw [effect.links fine rfl (filled_head (by decide))] at here
  have hash : (d.ch 0).hash = insertNode emptyChannel.hash (numbered 0) (.at 0 100 .dblock) := congrArg Prod.snd here
  refine ⟨d, idle, .write .here _ (fun _ => rfl) whole, fun id => ?_⟩
  rw [hash, find_insertNode]
  rfl

/-- The second write of a new card. -/
theorem full_capacity_second : ∃ d ret d', find (d.ch 0).hash (numbered 0) = some (.at 0 100 .dblock) ∧
    Run anyOutcome (ssdIdWrite ⟨numbered 1, fun _ => 0, 5⟩) d ret d' ∧ ret ≠ -errNoInvalidBlocks := by
  obtain ⟨d, idle, work, found⟩ := exists_one_five
  have one : liveFives (d.ch 0).hash ⊆ {numbered 0} := by
    rintro id ⟨info, known, -⟩
    rw [found] at known
    by_contra other
    rw [if_neg fun same => other (Set.mem_singleton_iff.2 same)] at known
    cases known
  have few := Set.ncard_le_ncard one (Set.finite_singleton _)
  rw [Set.ncard_singleton] at few
  obtain ⟨ret, d', run, -⟩ := exists_run anyOutcome_live idle (ssdIdWrite_locks free_none ⟨numbered 1, fun _ => 0, 5⟩)
  have small : (liveFives (d.ch 0).hash).ncard < 1600 := by omega
  exact ⟨d, ret, d', (found _).trans (if_pos rfl), run, full_capacity (c := 0) (by decide) emptyDevice_inv
    ⟨emptyChannel_space, fun _ => rfl⟩ work small ⟨numbered 1, fun _ => 0, 5⟩ (numbered_channel 1) rfl run⟩

end Runs

end FpgaSsd.Theory
