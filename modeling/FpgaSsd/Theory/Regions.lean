/-
# Theory.Regions — the flush stays inside its reserved regions

The metadata records live in ten groups of four positions, 0 to 39, and the table
blocks in the ring 40 to 459 with their duplicates 420 further up. All 880
positions are blocks 0 to 9 and 4096 to 4105 of the channels.

* `Reserved` — the position of the record and the positions in the record are
  where they belong; every step of a flush keeps it (`ssdSysFlush_reserved`);
* `flush_stays_reserved` — at every moment of every history of flushes, with any
  failures, that holds, and what is about to be erased or programmed is a metadata
  block of channel 0 or 1 or a table block of channels 2 to 43.
-/
import FpgaSsd.Theory.Globals
import FpgaSsd.Theory.Durable

namespace FpgaSsd.Theory

open FpgaSsd.Lib FpgaSsd.Driver

set_option autoImplicit false

/-- The position of the record, and the positions of the table blocks it names. -/
structure Reserved (g : Globals) : Prop where
  aligned : g.metaPos.blockPos % ssdMaxPlanes = 0
  group : g.metaPos.blockPos < reserveBlocksMeta
  page : g.metaPos.page < ssdPagesPerBlock
  nonempty : 0 < g.metadata.blockNum.toNat
  few : g.metadata.blockNum.toNat ≤ 5
  first : ∀ k < g.metadata.blockNum.toNat, reserveBlocksMeta ≤ g.metadata.pos (k * 2) ∧
    g.metadata.pos (k * 2) < reserveBlocksTotal - tableBitmapSize
  second : ∀ k < g.metadata.blockNum.toNat,
    g.metadata.pos (k * 2 + 1) = g.metadata.pos (k * 2) + tableBitmapSize

theorem Reserved.congr {g g' : Globals} (reserved : Reserved g) (metaPos : g'.metaPos = g.metaPos)
    (metadata : g'.metadata = g.metadata) : Reserved g' := by
  obtain ⟨p, r, opened, hash⟩ := g'
  subst metaPos metadata
  exact ⟨reserved.aligned, reserved.group, reserved.page, reserved.nonempty, reserved.few,
    reserved.first, reserved.second⟩

/-- The table positions and their duplicates. -/
def TableRegion (pos : Nat) : Prop := reserveBlocksMeta ≤ pos

/-- The metadata positions. -/
def MetaRegion (pos : Nat) : Prop := pos < reserveBlocksMeta

/-! ## Every step keeps it -/

theorem reserved_keepsPlaced : KeepsPlaced Reserved := by
  intro g i cur k small reserved
  obtain ⟨low, high⟩ := ringPos_range cur k
  have pos : ∀ j < 10, (setTablePosInMeta i (ringPos cur (k + 1)) g.metadata).pos j =
      if j = i * 2 then ringPos cur (k + 1)
      else if j = i * 2 + 1 then ringPos cur (k + 1) + tableBitmapSize else g.metadata.pos j :=
    fun j inside => setTablePosInMeta_pos _ inside high
  refine ⟨reserved.aligned, reserved.group, reserved.page, reserved.nonempty, reserved.few, ?_, ?_⟩
  · intro l less
    have few := Nat.lt_of_lt_of_le less reserved.few
    simp only [pos (l * 2) (by omega)]
    split
    · exact ⟨low, high⟩
    · rw [if_neg (by omega)]
      exact reserved.first l less
  · intro l less
    have few := Nat.lt_of_lt_of_le less reserved.few
    simp only [pos (l * 2) (by omega), pos (l * 2 + 1) (by omega)]
    by_cases here : l = i
    · subst here
      rw [if_neg (by omega), if_pos rfl, if_pos rfl]
    · rw [if_neg (by omega), if_neg (by omega), if_neg (by omega), if_neg (by omega)]
      exact reserved.second l less

theorem reserved_flushed {g : Globals} {n cur : Nat} {m m' : SsdMetadata} {off : Nat → Nat}
    (few : n ≤ ssdMaxIdNum) (type : FlushType) (now : UInt64)
    (reserved : Reserved { g with metadata := m })
    (placed : Placed m' m 0 (tableBlockNum n) cur off) :
    Reserved { g with metadata := flushed n type now m } := by
  have num := flushed_blockNum few type now m
  have entry : ∀ k < tableBlockNum n, ∃ j, m.pos (k * 2) = ringPos cur (j + 1) ∧
      m.pos (k * 2 + 1) = ringPos cur (j + 1) + tableBitmapSize := by
    intro k less
    have step := (placed.step k less).1
    have entered := placed.placed k less
    rw [Nat.zero_add, show off (k + 1) = off (k + 1) - 1 + 1 by omega] at entered
    exact ⟨_, entered⟩
  refine ⟨reserved.aligned, reserved.group, reserved.page, ?_, ?_, ?_, ?_⟩
  · simp only [num]
    exact tableBlockNum_pos n
  · simp only [num]
    exact tableBlockNum_le few
  · simp only [num]
    intro k less
    obtain ⟨j, pos, -⟩ := entry k less
    rw [flushed_pos, pos]
    exact ringPos_range cur j
  · simp only [num]
    intro k less
    obtain ⟨j, pos, pos'⟩ := entry k less
    rw [flushed_pos, flushed_pos, pos, pos']

theorem findNewMetaBlock_aligned (pos : Nat) : findNewMetaBlock pos % ssdMaxPlanes = 0 ∧
    findNewMetaBlock pos < reserveBlocksMeta := by
  simp only [findNewMetaBlock, ssdMaxPlanes, metaBitmapSize, reserveBlocksMeta]
  omega

theorem nextMetaPos_page {p : MetaPosition} (ret : Int) (low : p.page < ssdPagesPerBlock) :
    (nextMetaPos ret p).page < ssdPagesPerBlock := by
  simp only [nextMetaPos]
  split
  · exact (by decide : 0 < ssdPagesPerBlock)
  split
  · exact (by decide : 0 < ssdPagesPerBlock)
  · simp only [ssdPagesPerBlock] at *
    omega

theorem reserved_moves (g : Globals) (ret : Int) (reserved : Reserved g) :
    Reserved { g with metaPos := nextMetaPos ret g.metaPos } := by
  have low := nextMetaPos_page ret reserved.page
  have position : (nextMetaPos ret g.metaPos).blockPos % ssdMaxPlanes = 0 ∧
      (nextMetaPos ret g.metaPos).blockPos < reserveBlocksMeta := by
    simp only [nextMetaPos]
    split
    · exact findNewMetaBlock_aligned _
    split
    · exact findNewMetaBlock_aligned _
    · exact ⟨reserved.aligned, reserved.group⟩
  exact ⟨position.1, position.2, low, reserved.nonempty, reserved.few, reserved.first, reserved.second⟩

theorem reserved_inArea : InArea Reserved MetaRegion := by
  intro g reserved
  refine ⟨reserved.page, fun plane less => ?_⟩
  have aligned := reserved.aligned
  have group := reserved.group
  simp only [MetaRegion, ssdMaxPlanes, reserveBlocksMeta] at *
  omega

theorem flushTabledata_reserved {g : Globals} (n : Nat) (type : FlushType) (reserved : Reserved g) :
    OnGlobals Reserved TableRegion (flushTabledata n type) (fun _ => Reserved) g := by
  refine (flushTabledata_globals n type reserved_keepsPlaced ?_ ?_ reserved).weaken ?_
  · intro few m off now kept placed
    exact reserved_flushed few type now kept placed
  · exact fun _ p member => ring_range member
  · exact fun ret g' after => after.1

theorem flushMetadata_reserved {g : Globals} (reserved : Reserved g) :
    OnGlobals Reserved MetaRegion flushMetadata (fun _ => Reserved) g :=
  (flushMetadata_globals reserved_inArea reserved_moves reserved).weaken fun _ _ after => after.1

theorem OnGlobals.anywhere {α : Type} {Q : Globals → Prop} {R : Nat → Prop} {p : Drv α}
    {post : α → Globals → Prop} {g : Globals} (triple : OnGlobals Q R p post g) :
    OnGlobals Q (fun _ => True) p post g :=
  Via.relax triple fun _ _ both => ⟨both.1, both.2.mono fun _ _ => trivial⟩

theorem ssdSysFlush_reserved {g : Globals} (type : FlushType) (reserved : Reserved g) :
    OnGlobals Reserved (fun _ => True) (ssdSysFlush type) (fun _ => Reserved) g := by
  have one : ∀ {α : Type} {p : Drv α} {g : Globals}, p.All (Within fun _ => True) → Reserved g →
      OnGlobals Reserved (fun _ => True) p (fun _ => Reserved) g := by
    intro α p g all here
    refine (OnGlobals.within all here).weaken ?_
    rintro _ g' rfl
    exact here
  refine Via.seq (one (.perform trivial) reserved) ?_
  intro flag g1 reserved1
  split
  · exact Via.pure reserved1
  refine Via.seq (one (.perform trivial) reserved1) ?_
  intro _ g2 reserved2
  refine Via.seq (M := fun _ => Reserved) ?_ ?_
  · refine Via.seq (one (.perform trivial) reserved2) ?_
    intro _ g3 reserved3
    refine Via.seq (one copyRamTables_within reserved3) ?_
    intro found g4 reserved4
    cases found with
    | some ret => exact Via.pure reserved4
    | none =>
        refine Via.seq (one copyIdHash_within reserved4) ?_
        intro n g5 reserved5
        refine Via.seq (flushTabledata_reserved n type reserved5).anywhere ?_
        intro ret g6 reserved6
        split
        · exact Via.pure reserved6
        · exact (flushMetadata_reserved reserved6).anywhere
  · intro ret g3 reserved3
    refine Via.seq (one (.perform trivial) reserved3) ?_
    intro _ g4 reserved4
    exact Via.pure reserved4

/-! ## Where the flush erases and programs -/

/-- The action erases or programs something on the flash. -/
def IsChange (a : Act) : Prop := ∃ c cmd, a = .chan c (.issue cmd) ∧ Changes cmd

theorem Within.not_change {a : Act} (within : Within (fun _ => False) a) : ¬ IsChange a := by
  rintro ⟨c, cmd, rfl, changes⟩
  obtain ⟨pos, page, no, -⟩ := within changes
  exact no

/-- The two functions of a flush that change the flash. -/
def FlushCall (type : FlushType) (call : Drv Int) : Prop :=
  (∃ n, call = flushTabledata n type) ∨ call = flushMetadata

theorem ssdSysFlush_onlyIn (type : FlushType) (d : Device) :
    OnlyIn (Device.perform 0) anyOutcome (FlushCall type) IsChange (ssdSysFlush type) d := by
  have one : ∀ {α : Type} {p : Drv α} {d : Device}, p.All (Within fun _ => False) →
      OnlyIn (Device.perform 0) anyOutcome (FlushCall type) IsChange p d :=
    fun all => OnlyIn.of_all (all.mono fun _ => Within.not_change)
  refine OnlyIn.bind (one (.perform trivial)) fun flag d1 _ => ?_
  split
  · exact one trivial
  refine OnlyIn.bind (one (.perform trivial)) fun _ d2 _ => ?_
  refine OnlyIn.bind ?_ fun ret d3 _ => one (.bind (.perform trivial) fun _ => trivial)
  refine OnlyIn.bind (one (.perform trivial)) fun _ d3 _ => ?_
  refine OnlyIn.bind (one copyRamTables_within) fun found d4 _ => ?_
  cases found with
  | some ret => exact one trivial
  | none =>
      refine OnlyIn.bind (one copyIdHash_within) fun n d5 _ => ?_
      refine OnlyIn.bind (OnlyIn.self (.inl ⟨n, rfl⟩)) fun ret d6 _ => ?_
      split
      · exact one trivial
      · exact OnlyIn.self (.inr rfl)

/-- The physical blocks behind the reserved positions. -/
def ReservedBlock (block : Nat) : Prop := block < 10 ∨ 4096 ≤ block ∧ block < 4106

theorem physBlock_reserved (pos : Nat) : ReservedBlock (physBlock pos) := by
  have plane := planeTableStart_cases (pos % 4)
  simp only [ReservedBlock, physBlock]
  omega

/-- The block that a targeted command erases or programs. -/
theorem Targets.block {R : Nat → Prop} {c cmd : Nat} (targets : Targets R c cmd) : ∃ pos, R pos ∧
    pos < reserveBlocksTotal ∧ c = pos / 20 ∧
    (Command.ofWord cmd).start / ssdPagesPerBlock = physBlock pos := by
  obtain ⟨pos, page, member, inside, low, rfl, rfl | rfl⟩ := targets
  · refine ⟨pos, member, inside, posChannel_eq inside, ?_⟩
    rw [ofWord_tableCmd low (by decide), pageAddr_div pos low]
  · refine ⟨pos, member, inside, posChannel_eq inside, ?_⟩
    rw [ofWord_tableCmd low (by decide), pageAddr_div pos low]

/-! ## Histories -/

/-- The states between the flushes of a history. It starts behind `ssd_init_meta`,
or behind a search that found a record: the driver writes what it has in memory, so
the record is one that some earlier flush had there, on any page of any group.
Between two flushes everything but the record and its position may change. -/
inductive FlushHistory : Device → Prop
  | init {d : Device} (m : SsdMetadata) (metadata : d.metadata = initMeta m)
      (metaPos : d.metaPos = initMetaPos) : FlushHistory d
  | found {d d1 d2 : Device} {type : FlushType} {q : Drv Int} (before : FlushHistory d1)
      (run : Reaches (Device.perform 0) anyOutcome (ssdSysFlush type) d1 q d2)
      (metadata : d.metadata = d2.metadata)
      (group : ∃ b < metaBitmapSize, d.metaPos.blockPos = b * ssdMaxPlanes)
      (page : d.metaPos.page < ssdPagesPerBlock) : FlushHistory d
  | between {d d' : Device} (before : FlushHistory d) (metadata : d'.metadata = d.metadata)
      (metaPos : d'.metaPos = d.metaPos) : FlushHistory d'
  | flush {d d' : Device} {type : FlushType} {ret : Int} (before : FlushHistory d)
      (run : Run anyOutcome (ssdSysFlush type) d ret d') : FlushHistory d'

theorem reserved_initMeta (m : SsdMetadata) {g : Globals} (metadata : g.metadata = initMeta m)
    (metaPos : g.metaPos = initMetaPos) : Reserved g := by
  obtain ⟨p, r, opened, hash⟩ := g
  subst metadata metaPos
  have first : (initMeta m).pos 0 = 40 := rfl
  have second : (initMeta m).pos 1 = 460 := rfl
  refine ⟨(by decide : initMetaPos.blockPos % ssdMaxPlanes = 0),
    (by decide : initMetaPos.blockPos < reserveBlocksMeta),
    (by decide : initMetaPos.page < ssdPagesPerBlock), (by decide : 0 < 1), (by decide : 1 ≤ 5), ?_, ?_⟩
  · intro k less
    have zero : k = 0 := Nat.lt_one_iff.1 less
    subst zero
    exact (by decide : 40 ≤ 40 ∧ 40 < 460)
  · intro k less
    have zero : k = 0 := Nat.lt_one_iff.1 less
    subst zero
    rfl

/-- A moment of a flush from a reserved state. -/
theorem Reserved.moment {d d' : Device} {type : FlushType} {q : Drv Int} (reserved : Reserved (globals d))
    (run : Reaches (Device.perform 0) anyOutcome (ssdSysFlush type) d q d') : Reserved (globals d') := by
  have safe := Safe.reaches (fun _ => rfl) (ssdSysFlush_reserved type reserved d rfl) run
  cases q with
  | pure ret => exact safe d' rfl
  | act a rest => exact (safe d' rfl).1.1

theorem FlushHistory.reserved {d : Device} (history : FlushHistory d) : Reserved (globals d) := by
  induction history with
  | @init d m metadata metaPos =>
      exact reserved_initMeta m metadata metaPos
  | @found d d1 d2 type q before run metadata group page ih =>
      have moment := ih.moment run
      obtain ⟨b, less, eq⟩ := group
      refine ⟨?_, ?_, page, ?_, ?_, ?_, ?_⟩
      · simp only [globals, eq, ssdMaxPlanes]
        omega
      · simp only [globals, eq, ssdMaxPlanes, reserveBlocksMeta, metaBitmapSize] at *
        omega
      · simp only [globals, metadata]
        exact moment.nonempty
      · simp only [globals, metadata]
        exact moment.few
      · simp only [globals, metadata]
        exact moment.first
      · simp only [globals, metadata]
        exact moment.second
  | between before metadata metaPos ih => exact ih.congr metaPos metadata
  | flush before run ih => exact ih.moment run.reaches

/-- **The flush stays inside its reserved regions.** -/
theorem flush_stays_reserved {d d' : Device} {type : FlushType} {q : Drv Int}
    (history : FlushHistory d)
    (run : Reaches (Device.perform 0) anyOutcome (ssdSysFlush type) d q d') :
    -- the globals, at every moment
    Reserved (globals d') ∧
    -- the positions that `calc_phyblock` is asked for
    (∀ plane < ssdMaxPlanes, 0 ≤ calcPhyblock (d'.metaPos.blockPos + plane)) ∧
    (∀ cur, ∀ i < tableDuplicate, 0 ≤ calcPhyblock (findNewTablePos cur + i * tableBitmapSize)) ∧
    -- what is about to be erased or programmed
    (∀ c cmd rest, q = .act (.chan c (.issue cmd)) rest → Changes cmd →
      ReservedBlock ((Command.ofWord cmd).start / ssdPagesPerBlock) ∧
      ((∃ n, PerformsIn (Device.perform 0) anyOutcome (flushTabledata n type) (ssdSysFlush type) d
          (.chan c (.issue cmd)) d' ∧ 2 ≤ c ∧ c < ssdMaxChannel) ∨
        PerformsIn (Device.perform 0) anyOutcome flushMetadata (ssdSysFlush type) d
          (.chan c (.issue cmd)) d' ∧ c < 2)) ∧
    -- distinct positions are distinct blocks
    ∀ pos < reserveBlocksTotal, ∀ pos' < reserveBlocksTotal, pos ≠ pos' →
      (posChannel pos, calcPhyblock pos) ≠ (posChannel pos', calcPhyblock pos') := by
  have reserved := history.reserved
  have now := reserved.moment run
  have valid : ∀ {pos : Nat}, pos < reserveBlocksTotal → 0 ≤ calcPhyblock pos := by
    intro pos inside
    rw [calcPhyblock_eq inside]
    exact Int.natCast_nonneg _
  refine ⟨now, fun plane less => valid ?_, fun cur i less => valid ?_, ?_, ?_⟩
  · exact metaPos_inside ((reserved_inArea _ now).2 plane less)
  · have range := (findNewTablePos_range cur).2
    simp only [reserveBlocksTotal, tableBitmapSize, tableDuplicate] at *
    omega
  · intro c cmd rest eq changes
    subst eq
    have isChange : IsChange (.chan c (.issue cmd)) := ⟨c, cmd, rfl, changes⟩
    obtain ⟨call, isCall, performs⟩ := ssdSysFlush_onlyIn type d _ rest d' run isChange
    obtain ⟨next, d1, rest1, before, inside⟩ := performs
    have begun := reserved.moment before
    rcases isCall with ⟨n, rfl⟩ | rfl
    · have targets := ((flushTabledata_reserved n type begun).reaches inside).2 changes
      obtain ⟨pos, low, high, rfl, block⟩ := targets.block
      rw [block]
      refine ⟨physBlock_reserved pos, .inl ⟨n, ⟨next, d1, rest1, before, inside⟩, ?_⟩⟩
      simp only [TableRegion, reserveBlocksMeta, reserveBlocksTotal, ssdMaxChannel] at *
      omega
    · have targets := ((flushMetadata_reserved begun).reaches inside).2 changes
      obtain ⟨pos, low, high, rfl, block⟩ := targets.block
      rw [block]
      refine ⟨physBlock_reserved pos, .inr ⟨⟨next, d1, rest1, before, inside⟩, ?_⟩⟩
      simp only [MetaRegion, reserveBlocksMeta] at low
      omega
  · intro pos inside pos' inside' apart same
    rw [calcPhyblock_eq inside, calcPhyblock_eq inside', Prod.mk.injEq] at same
    exact apart (physBlock_inj inside inside' same.1 (Int.ofNat.inj same.2))

theorem newCard_history : FlushHistory newCard := .init _ rfl rfl

/-- After the first flush of a new card, which has a run. -/
theorem first_flush_stays_reserved : ∃ ret d, Run anyOutcome (ssdSysFlush .normal) newCard ret d ∧
    Reserved (globals d) := by
  obtain ⟨ret, d, run, -⟩ := exists_run noFailure_live newCard_mirrors
    (ssdSysFlush_locks free_none rfl .normal)
  have any : Run anyOutcome (ssdSysFlush .normal) newCard ret d := run.mono fun _ _ _ _ => trivial
  exact ⟨ret, d, any, (flush_stays_reserved newCard_history any.reaches).1⟩

end FpgaSsd.Theory
