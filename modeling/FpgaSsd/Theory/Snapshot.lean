/-
# Theory.Snapshot — the blocks of the durable record and the ring

The next table position follows the last position in memory, also when that was
entered by a flush that failed later. A record is durable when its flush returned
success; the failed flushes after it move on along the ring of 420 positions.

* `ssdSysFlush_ahead` — a flush moves at most 25 positions and touches none but the
  next 25;
* `snapshot_survives` — with up to fourteen failed flushes in a row, no block that
  the durable record names is erased or programmed;
* `snapshot_is_lapped` — a history in which the ring has come round.
-/
import FpgaSsd.Theory.Regions

namespace FpgaSsd.Theory

open FpgaSsd.Lib FpgaSsd.Driver

set_option autoImplicit false

/-! ## A record and the ring -/

/-- The table blocks that a record names lie at most twenty positions behind the
last of them. -/
structure Snapshot (r : SsdMetadata) : Prop where
  first : ∀ k < r.blockNum.toNat, reserveBlocksMeta ≤ r.pos (k * 2) ∧
    r.pos (k * 2) < reserveBlocksTotal - tableBitmapSize
  second : ∀ k < r.blockNum.toNat, r.pos (k * 2 + 1) = r.pos (k * 2) + tableBitmapSize
  span : ∀ k < r.blockNum.toNat, ∃ b ≤ 20, ringPos (r.pos (k * 2)) b = tableCur r

/-- The positions of both copies of the blocks that a record names. -/
def Names (r : SsdMetadata) (pos : Nat) : Prop :=
  ∃ k < r.blockNum.toNat, pos = r.pos (k * 2) ∨ pos = r.pos (k * 2 + 1)

theorem Snapshot.range {r : SsdMetadata} {pos : Nat} (snapshot : Snapshot r) (named : Names r pos) :
    reserveBlocksMeta ≤ pos ∧ pos < reserveBlocksTotal := by
  obtain ⟨k, less, named⟩ := named
  obtain ⟨low, high⟩ := snapshot.first k less
  rw [snapshot.second k less] at named
  simp only [reserveBlocksMeta, reserveBlocksTotal, tableBitmapSize] at *
  omega

/-- One flush writes at most five blocks, each at one of the next five positions. -/
abbrev maxMoves : Nat := 25

/-- The next positions behind the last one in memory, up to `maxMoves` of them. -/
def Ahead (m : SsdMetadata) (pos : Nat) : Prop := Ring (tableCur m) maxMoves pos

/-- From `m` on the last position moved by at most `n`. -/
def Moved (n : Nat) (m m' : SsdMetadata) : Prop := ∃ a ≤ n, tableCur m' = ringPos (tableCur m) a

theorem Moved.refl (m : SsdMetadata) : Moved 0 m m := ⟨0, Nat.le_refl 0, rfl⟩

theorem Moved.trans {n n' : Nat} {m m' m'' : SsdMetadata} (first : Moved n m m')
    (second : Moved n' m' m'') : Moved (n + n') m m'' := by
  obtain ⟨a, le, eq⟩ := first
  obtain ⟨b, le', eq'⟩ := second
  refine ⟨a + b, Nat.add_le_add le le', ?_⟩
  rw [eq', eq, ringPos_add]

/-- Before the ring has come round, the next positions are not those of the record. -/
theorem Snapshot.apart {r m : SsdMetadata} {n pos : Nat} (snapshot : Snapshot r) (moved : Moved n r m)
    (short : n + maxMoves + 20 < tableBitmapSize) (ahead : Ahead m pos) : ¬ Names r pos := by
  rintro ⟨k, less, named⟩
  obtain ⟨low, high⟩ := snapshot.first k less
  obtain ⟨b, near, last⟩ := snapshot.span k less
  obtain ⟨a, le, eq⟩ := moved
  have behind : Ring (r.pos (k * 2)) (b + (a + maxMoves)) pos := by
    rw [Ahead, eq, ← last] at ahead
    exact Ring.later (Ring.later ahead)
  obtain ⟨out, out'⟩ := not_ring low high (show b + (a + maxMoves) < tableBitmapSize by omega)
  rw [snapshot.second k less] at named
  rcases named with rfl | rfl
  · exact out behind
  · exact out' behind

theorem Placed.span {m m' : SsdMetadata} {i j cur : Nat} {off : Nat → Nat}
    (placed : Placed m m' i j cur off) {k : Nat} (n : Nat) (le : k + n ≤ j) :
    off (k + n) ≤ off k + ssdMaxFlushTableRetry * n := by
  induction n with
  | zero => exact Nat.le_refl _
  | succ n ih =>
      have step := (placed.step (k + n) (by omega)).2
      have before := ih (by omega)
      simp only [ssdMaxFlushTableRetry, ← Nat.add_assoc] at *
      omega

theorem Placed.mono {m m' : SsdMetadata} {i j cur : Nat} {off : Nat → Nat}
    (placed : Placed m m' i j cur off) {k : Nat} (n : Nat) (le : k + n ≤ j) : off k ≤ off (k + n) := by
  induction n with
  | zero => exact Nat.le_refl _
  | succ n ih =>
      have step := (placed.step (k + n) (by omega)).1
      have before := ih (by omega)
      simp only [← Nat.add_assoc] at *
      omega

theorem tableCur_eq {m : SsdMetadata} (nonempty : 0 < m.blockNum.toNat) :
    tableCur m = m.pos ((m.blockNum.toNat - 1) * 2) := by
  have index : tableDuplicate * m.blockNum.toNat - tableDuplicate = (m.blockNum.toNat - 1) * 2 := by
    simp only [tableDuplicate]
    omega
  rw [tableCur, index]

/-- The positions entered so far, in a record that is not renewed. -/
theorem Placed.moved {m m' : SsdMetadata} {j : Nat} {off : Nat → Nat}
    (placed : Placed m m' 0 j (tableCur m) off) (nonempty : 0 < m.blockNum.toNat)
    (five : m.blockNum.toNat ≤ 5) : Moved maxMoves m m' := by
  have sameNum : m'.blockNum = m.blockNum := by rw [placed.only]
  rw [Moved, tableCur_eq (m := m') (by rwa [sameNum]), sameNum]
  by_cases reached : m.blockNum.toNat ≤ j
  · have entry := (placed.placed (m.blockNum.toNat - 1) (by omega)).1
    have far := placed.off_le (k := m.blockNum.toNat - 1 + 1) (by omega)
    rw [Nat.zero_add] at entry
    refine ⟨_, ?_, entry⟩
    simp only [ssdMaxFlushTableRetry, maxMoves] at *
    omega
  · refine ⟨0, Nat.zero_le _, ?_⟩
    rw [placed.others _ (by omega) (.inr (by omega)), ← tableCur_eq nonempty, ringPos]

section Renewed

variable {m m' : SsdMetadata} {n : Nat} {off : Nat → Nat} (type : FlushType) (now : UInt64)
  (few : n ≤ ssdMaxIdNum) (placed : Placed m m' 0 (tableBlockNum n) (tableCur m) off)

include few placed

theorem tableCur_flushed :
    tableCur (flushed n type now m') = ringPos (tableCur m) (off (tableBlockNum n)) := by
  have some := tableBlockNum_pos n
  have num := flushed_blockNum few type now m'
  have entry := (placed.placed (tableBlockNum n - 1) (by omega)).1
  rw [Nat.zero_add, show tableBlockNum n - 1 + 1 = tableBlockNum n by omega] at entry
  rw [tableCur_eq (by rwa [num]), num, flushed_pos, entry]

theorem moved_flushed : Moved maxMoves m (flushed n type now m') := by
  have five := tableBlockNum_le few
  have far := placed.off_le (Nat.le_refl _)
  refine ⟨_, ?_, tableCur_flushed type now few placed⟩
  simp only [ssdMaxFlushTableRetry, maxMoves] at *
  omega

theorem snapshot_flushed : Snapshot (flushed n type now m') := by
  have five := tableBlockNum_le few
  have num := flushed_blockNum few type now m'
  have entry : ∀ k < tableBlockNum n, ∃ a, off (k + 1) = a + 1 ∧
      m'.pos (k * 2) = ringPos (tableCur m) (a + 1) ∧
      m'.pos (k * 2 + 1) = ringPos (tableCur m) (a + 1) + tableBitmapSize := by
    intro k less
    have step := (placed.step k less).1
    have entered := placed.placed k less
    have shift : off (k + 1) = off (k + 1) - 1 + 1 := by omega
    rw [Nat.zero_add, shift] at entered
    exact ⟨_, shift, entered⟩
  refine ⟨?_, ?_, ?_⟩
  · intro k less
    rw [num] at less
    obtain ⟨a, -, pos, -⟩ := entry k less
    rw [flushed_pos, pos]
    exact ringPos_range _ a
  · intro k less
    rw [num] at less
    obtain ⟨a, -, pos, pos'⟩ := entry k less
    rw [flushed_pos, flushed_pos, pos, pos']
  · intro k less
    rw [num] at less
    obtain ⟨a, shift, pos, -⟩ := entry k less
    have total : k + 1 + (tableBlockNum n - (k + 1)) = tableBlockNum n := by omega
    have wide := placed.span (k := k + 1) (tableBlockNum n - (k + 1)) (by omega)
    have above := placed.mono (k := k + 1) (tableBlockNum n - (k + 1)) (by omega)
    rw [total] at wide above
    refine ⟨off (tableBlockNum n) - off (k + 1), ?_, ?_⟩
    · simp only [ssdMaxFlushTableRetry] at wide
      omega
    · rw [tableCur_flushed type now few placed, flushed_pos, pos, ringPos_add]
      congr 1
      omega

end Renewed

/-! ## One flush -/

theorem flushTabledata_ahead {g : Globals} (n : Nat) (type : FlushType) (reserved : Reserved g) :
    OnGlobals Reserved (Ahead g.metadata) (flushTabledata n type) (fun ret g' => Reserved g' ∧
      g' = { g with metadata := g'.metadata } ∧ Moved maxMoves g.metadata g'.metadata ∧
      (ret = ssdOk → Snapshot g'.metadata)) g := by
  refine (flushTabledata_globals n type reserved_keepsPlaced ?_ ?_ reserved).weaken ?_
  · intro few m off now kept placed
    exact reserved_flushed few type now kept placed
  · intro few p member
    have five := tableBlockNum_le few
    exact member.mono (by simp only [ssdMaxFlushTableRetry, maxMoves]; omega)
  · rintro ret g' ⟨kept, same, m, j, off, placed, le, ⟨-, few, rfl, now, record⟩ | ⟨bad, record⟩⟩
    · refine ⟨kept, same, ?_, fun _ => ?_⟩
      · rw [record]
        exact moved_flushed type now few placed
      · rw [record]
        exact snapshot_flushed type now few placed
    · refine ⟨kept, same, ?_, fun ok => absurd ok bad⟩
      rw [record]
      exact placed.moved reserved.nonempty reserved.few

/-- The flush does not open or close the card, and it does not change the ids. -/
def SameRest (g g' : Globals) : Prop := g'.opened = g.opened ∧ g'.hash = g.hash

/-- What a flush may erase or program: the next table positions and the metadata blocks. -/
def FlushRegion (m : SsdMetadata) (pos : Nat) : Prop := Ahead m pos ∨ MetaRegion pos

theorem ssdSysFlushBody_ahead {g : Globals} (type : FlushType) (reserved : Reserved g) :
    OnGlobals Reserved (FlushRegion g.metadata) (ssdSysFlushBody type) (fun ret g' => Reserved g' ∧
      SameRest g g' ∧ Moved maxMoves g.metadata g'.metadata ∧
      (ret = ssdOk → Snapshot g'.metadata)) g := by
  have still : Moved maxMoves g.metadata g.metadata := ⟨0, Nat.zero_le _, rfl⟩
  rw [ssdSysFlushBody]
  refine Via.seq (OnGlobals.within (.perform trivial) reserved) ?_
  rintro _ g rfl
  refine Via.seq (OnGlobals.untilError (fun channel _ => copyRamTable_within channel _) reserved) ?_
  rintro found g ⟨rfl, bad⟩
  cases found with
  | some ret => exact Via.pure ⟨reserved, ⟨rfl, rfl⟩, still, fun ok => absurd ok (bad ret rfl)⟩
  | none =>
      refine Via.seq (OnGlobals.within copyIdHash_within reserved) ?_
      rintro n g rfl
      refine Via.seq (Via.relax (flushTabledata_ahead n type reserved) fun _ _ both =>
        ⟨both.1, both.2.mono fun _ => .inl⟩) ?_
      rintro ret g1 ⟨reserved1, same1, moved, snapshot⟩
      have rest : SameRest g g1 := by
        rw [same1]
        exact ⟨rfl, rfl⟩
      split
      · rename_i failed
        exact Via.pure ⟨reserved1, rest, moved, fun ok => absurd ok failed⟩
      rename_i done
      have named := snapshot (not_not.1 done)
      refine (Via.relax (flushMetadata_globals reserved_inArea reserved_moves reserved1) fun _ _ both =>
        ⟨both.1, both.2.mono fun _ => .inr⟩).weaken ?_
      rintro ret g2 ⟨reserved2, same⟩
      rw [same]
      exact ⟨same ▸ reserved2, rest, moved, fun _ => named⟩

theorem ssdSysFlush_ahead {g : Globals} (type : FlushType) (reserved : Reserved g) :
    OnGlobals Reserved (FlushRegion g.metadata) (ssdSysFlush type) (fun ret g' => Reserved g' ∧
      SameRest g g' ∧ Moved maxMoves g.metadata g'.metadata ∧
      (g.opened = true → ret = ssdOk → Snapshot g'.metadata)) g := by
  rw [ssdSysFlush]
  refine Via.seq (M := fun flag g' => flag = g.opened ∧ g' = g) ?_ ?_
  · apply Via.act ⟨reserved, trivial⟩
    intro d o r d' shows _ step
    cases step
    subst shows
    exact ⟨rfl, rfl⟩
  rintro flag g ⟨rfl, rfl⟩
  split
  · rename_i closed
    exact Via.pure ⟨reserved, ⟨rfl, rfl⟩, ⟨0, Nat.zero_le _, rfl⟩, fun opened =>
      absurd opened (by simp [closed])⟩
  refine Via.seq (OnGlobals.within (.perform trivial) reserved) ?_
  rintro _ g rfl
  refine Via.seq (ssdSysFlushBody_ahead type reserved) ?_
  rintro ret g1 ⟨reserved1, rest, moved, snapshot⟩
  refine Via.seq (OnGlobals.within (.perform trivial) reserved1) ?_
  rintro _ g1 rfl
  exact Via.pure ⟨reserved1, rest, moved, fun _ => snapshot⟩

/-! ## Histories -/

/-- A history of flushes, with the record that is durable and the number of flushes
that failed since it became so. It starts behind `ssd_init_meta` with no durable
record, or behind a search that found the durable record of an earlier history. A
flush on a closed card does nothing; between two flushes everything but the record
in memory and its position may change. -/
inductive Snapshots : Option SsdMetadata → Nat → Device → Prop
  | init {d : Device} (m : SsdMetadata) (metadata : d.metadata = initMeta m)
      (metaPos : d.metaPos = initMetaPos) : Snapshots none 0 d
  | found {r : SsdMetadata} {k : Nat} {d1 d : Device} (before : Snapshots (some r) k d1)
      (metadata : d.metadata = r) (group : ∃ b < metaBitmapSize, d.metaPos.blockPos = b * ssdMaxPlanes)
      (page : d.metaPos.page < ssdPagesPerBlock) : Snapshots (some r) 0 d
  | between {durable : Option SsdMetadata} {k : Nat} {d d' : Device} (before : Snapshots durable k d)
      (metadata : d'.metadata = d.metadata) (metaPos : d'.metaPos = d.metaPos) :
      Snapshots durable k d'
  | durable {durable : Option SsdMetadata} {k : Nat} {d d' : Device} {type : FlushType}
      (before : Snapshots durable k d) (opened : d.opened = true)
      (run : Run anyOutcome (ssdSysFlush type) d ssdOk d') : Snapshots (some d'.metadata) 0 d'
  | failed {durable : Option SsdMetadata} {k : Nat} {d d' : Device} {type : FlushType} {ret : Int}
      (before : Snapshots durable k d) (run : Run anyOutcome (ssdSysFlush type) d ret d')
      (bad : ret ≠ ssdOk) : Snapshots durable (k + 1) d'

/-- What holds between the flushes of a history. -/
structure Kept (durable : Option SsdMetadata) (k : Nat) (d : Device) : Prop where
  reserved : Reserved (globals d)
  snapshot : ∀ r, durable = some r → Snapshot r ∧ 0 < r.blockNum.toNat ∧ r.blockNum.toNat ≤ 5 ∧
    Moved (maxMoves * k) r d.metadata

theorem Snapshots.kept {durable : Option SsdMetadata} {k : Nat} {d : Device}
    (history : Snapshots durable k d) : Kept durable k d := by
  induction history with
  | init m metadata metaPos => exact ⟨reserved_initMeta m metadata metaPos, fun r no => nomatch no⟩
  | @found r k d1 d before metadata group page ih =>
      obtain ⟨snapshot, nonempty, few, -⟩ := ih.snapshot r rfl
      obtain ⟨b, less, eq⟩ := group
      refine ⟨⟨?_, ?_, page, ?_, ?_, ?_, ?_⟩, ?_⟩
      · simp only [globals, eq, ssdMaxPlanes]
        omega
      · simp only [globals, eq, ssdMaxPlanes, reserveBlocksMeta, metaBitmapSize] at *
        omega
      · simpa only [globals, metadata] using nonempty
      · simpa only [globals, metadata] using few
      · simpa only [globals, metadata] using snapshot.first
      · simpa only [globals, metadata] using snapshot.second
      · intro r' eq
        cases eq
        rw [metadata]
        exact ⟨snapshot, nonempty, few, Moved.refl r⟩
  | between before metadata metaPos ih =>
      refine ⟨ih.reserved.congr metaPos metadata, ?_⟩
      rw [metadata]
      exact ih.snapshot
  | @durable durable k d d' type before opened run ih =>
      obtain ⟨reserved, -, -, snapshot⟩ := (ssdSysFlush_ahead type ih.reserved).runs run
      refine ⟨reserved, fun r eq => ?_⟩
      cases eq
      exact ⟨snapshot opened rfl, reserved.nonempty, reserved.few, Moved.refl _⟩
  | @failed durable k d d' type ret before run bad ih =>
      obtain ⟨reserved, -, moved, -⟩ := (ssdSysFlush_ahead type ih.reserved).runs run
      refine ⟨reserved, fun r eq => ?_⟩
      obtain ⟨snapshot, nonempty, few, before⟩ := ih.snapshot r eq
      exact ⟨snapshot, nonempty, few, before.trans moved⟩

/-- **The durable snapshot survives** up to fourteen failed flushes in a row: at no
moment of the next flush is a block of it about to be erased or programmed. -/
theorem snapshot_survives {r : SsdMetadata} {k : Nat} {d d' : Device} {type : FlushType} {c cmd : Nat}
    {rest : Unit → Drv Int} (history : Snapshots (some r) k d) (few : k ≤ 14)
    (run : Reaches (Device.perform 0) anyOutcome (ssdSysFlush type) d
      (.act (.chan c (.issue cmd)) rest) d') (changes : Changes cmd) :
    ∀ pos, Names r pos →
      ¬ (c = posChannel pos ∧ (Command.ofWord cmd).start / ssdPagesPerBlock = physBlock pos) := by
  intro pos named
  obtain ⟨reserved, kept⟩ := history.kept
  obtain ⟨snapshot, nonempty, five, moved⟩ := kept r rfl
  obtain ⟨low, high⟩ := snapshot.range named
  have targets := ((ssdSysFlush_ahead type reserved).reaches run).2 changes
  obtain ⟨pos', region, inside, channel, block⟩ := targets.block
  rintro ⟨here, here'⟩
  rw [posChannel_eq high, channel] at here
  have same : pos' = pos := by
    apply physBlock_inj inside high
    · rw [posChannel_eq inside, posChannel_eq high, here]
    · rw [← block, here']
  subst same
  rcases region with ahead | area
  · exact snapshot.apart moved (by simp only [maxMoves, tableBitmapSize]; omega) ahead named
  · exact Nat.not_lt.2 low area

/-! ## A lap of failed flushes -/

/-- Every command fails. -/
def allFail : May := fun _ a o => o.failed = false ∧ ∀ c, a = .chan c .await → o.ret ≠ .ok

theorem allFail_live : Live allFail := by
  refine ⟨fun d c cmd issued => ⟨ramTimesOut, ⟨rfl, fun _ _ => nofun⟩, ?_⟩,
    fun d a other => ⟨ramTimesOut, ⟨rfl, fun _ _ => nofun⟩, rfl⟩⟩
  simp only [Flash.exec]
  split <;> rfl

/-- From every state the program answers with an error. -/
def Fails (p : Drv Int) : Prop := ∀ d, Holds allFail p (fun ret _ => ret ≠ ssdOk) d

theorem anything {α : Type} (p : Drv α) (d : Device) : Holds allFail p (fun _ _ => True) d := by
  induction p generalizing d with
  | pure value => exact fun _ _ => trivial
  | act a rest ih => exact fun d' _ => ⟨trivial, fun _ r d'' _ _ => ih r d''⟩

theorem fails_after {α : Type} (p : Drv α) {next : α → Drv Int} (rest : ∀ value, Fails (next value)) :
    Fails (p >>= next) := fun d => Holds.seq (anything p d) fun value d' _ => rest value d'

theorem fails_error {ret : Int} (bad : ret ≠ ssdOk) : Fails (.pure ret) := fun _ => Holds.pure bad

/-- A sequence that goes on after a success only. -/
theorem fails_first {p : Drv Int} {next : Int → Drv Int} (first : Fails p)
    (error : ∀ ret, ret ≠ ssdOk → Fails (next ret)) : Fails (p >>= next) := fun d =>
  Holds.seq (first d) fun ret d' bad => error ret bad d'

theorem channelOp_fails (c cmd : Nat) : Fails (channelOp c cmd) := by
  apply fails_after
  intro _ d
  apply Holds.chan
  intro o r ch allowed step
  obtain ⟨cmd, kbuf, flash, -, -, rfl, rfl⟩ := Channel.perform_await step
  exact fun ok => allowed.2 c rfl (ChannelRet.toInt_eq_zero.1 ok)

theorem withSema_fails {c : Nat} {body : Drv Int} (inner : Fails body) : Fails (Drv.withSema c body) := by
  apply fails_after
  intro _
  apply fails_first inner
  intro ret bad
  exact fails_after _ fun _ => fails_error bad

theorem onReserveBlock_fails {pos : Nat} {body : Nat → Nat → Drv Int}
    (inner : ∀ c block, Fails (body c block)) : Fails (onReserveBlock pos body) := by
  simp only [onReserveBlock]
  split
  · rename_i negative
    exact fails_error (Int.ne_of_lt negative)
  · exact withSema_fails (inner _ _)

theorem writeOneReservePage_fails (pos page : Nat) : Fails (writeOneReservePage pos page) :=
  onReserveBlock_fails fun _ _ => fails_after _ fun _ => fails_after _ fun _ => channelOp_fails _ _

theorem writeMetaPage_fails (plane : Nat) : Fails (writeMetaPage plane) := by
  apply fails_after
  intro p
  split
  · exact fails_error (by decide)
  apply fails_after
  intro ret
  split
  · rename_i bad
    exact fails_error bad
  apply fails_first (writeOneReservePage_fails _ _)
  intro ret bad
  rw [if_pos bad]
  exact fails_error bad

theorem flushMetadata_fails : Fails flushMetadata := by
  have planes : ∀ (l : List Nat) n d, Holds allFail (writeMetaPages l n) (fun n' _ => n' = n) d := by
    intro l
    induction l with
    | nil => exact fun n d => Holds.pure rfl
    | cons plane rest ih =>
        intro n d
        refine Holds.seq (writeMetaPage_fails plane d) fun ret d' bad => ?_
        rw [if_neg bad]
        exact ih n d'
  have attempt : Fails writeMetadataPageDuplicate := fun d =>
    Holds.seq (planes _ 0 d) fun n d' none => Holds.pure (by rw [none]; decide)
  have loop : ∀ n ret, ret ≠ ssdOk → Fails (flushMetadataLoop n ret) := by
    intro n
    induction n with
    | zero => exact fun ret bad => fails_error bad
    | succ n ih =>
        intro last _
        apply fails_after
        intro ret
        split
        · rename_i bad
          exact fails_error bad
        apply fails_first attempt
        intro ret bad
        rw [if_neg bad]
        exact ih ret bad
  apply fails_after
  intro ret
  split
  · rename_i bad
    exact fails_error bad
  apply fails_first attempt
  intro ret bad
  rw [if_neg bad]
  exact loop _ ret bad

/-- An open card without ids, at rest. -/
structure IdleCard (d : Device) : Prop where
  idle : Mirrors Held.none d
  opened : d.opened = true
  empty : ∀ c b, ((d.ch c).hash b).first = []
  reserved : Reserved (globals d)

theorem tableBlockNum_zero : tableBlockNum 0 = 1 := by decide

theorem IdleCard.nodes {d : Device} (card : IdleCard d) : (view d).nodes.length = 0 := by
  rw [nodes_nil (v := view d) card.empty]
  rfl

/-- **A flush whose record fails** moves the next position by one. -/
theorem failed_flush {d : Device} (card : IdleCard d) : ∃ ret d',
    Run anyOutcome (ssdSysFlush .normal) d ret d' ∧ ret ≠ ssdOk ∧ IdleCard d' ∧
      tableCur d'.metadata = ringPos (tableCur d.metadata) 1 := by
  have count := card.nodes
  have few : (view d).nodes.length ≤ ssdMaxIdNum := by
    rw [count]
    exact Nat.zero_le _
  obtain ⟨d1, image, idle1, frame, ⟨m, off, now, placed, steady, record⟩, finish⟩ :=
    exists_tables card.idle card.opened few .normal
  obtain ⟨ret, d2, run2, idle2⟩ := exists_run allFail_live idle1 (flushMetadata_locks free_flushing)
  have bad : ret ≠ ssdOk := (flushMetadata_fails d1).runs run2
  have whole := finish (run_any run2)
  obtain ⟨reserved, ⟨opened, hash⟩, -⟩ := (ssdSysFlush_ahead .normal card.reserved).runs whole
  have pages : InArea (fun g => g.metaPos.page < ssdPagesPerBlock) fun _ => True :=
    fun g low => ⟨low, fun _ _ => trivial⟩
  have samePos : d1.metaPos = d.metaPos := frame.metaPos
  have low : (globals d1).metaPos.page < ssdPagesPerBlock := by
    simp only [globals, samePos]
    exact card.reserved.page
  obtain ⟨-, same⟩ := (flushMetadata_globals pages (fun _ ret low => nextMetaPos_page ret low) low).runs
    (run_any run2)
  have sameMeta : d2.metadata = d1.metadata := congrArg Globals.metadata same
  refine ⟨ret, _, whole, bad, ⟨⟨idle2.sema, rfl, idle2.issued⟩, opened.trans card.opened, ?_,
    reserved⟩, ?_⟩
  · intro c b
    rw [show (({ d2 with flushSema := none } : Device).ch c).hash = (d.ch c).hash from congrFun hash c]
    exact card.empty c b
  · rw [count] at placed steady record few
    simp only [sameMeta, record]
    rw [tableCur_flushed .normal now few placed, tableBlockNum_zero, steady 1 (Nat.le_refl 1)]

theorem failed_flushes {r : SsdMetadata} {d : Device} (history : Snapshots (some r) 0 d)
    (card : IdleCard d) (cur : tableCur d.metadata = tableCur r) (k : Nat) :
    ∃ d', Snapshots (some r) k d' ∧ IdleCard d' ∧ tableCur d'.metadata = ringPos (tableCur r) k := by
  induction k with
  | zero => exact ⟨d, history, card, cur⟩
  | succ k ih =>
      obtain ⟨d1, history1, card1, cur1⟩ := ih
      obtain ⟨ret, d2, run, bad, card2, cur2⟩ := failed_flush card1
      refine ⟨d2, .failed history1 run bad, card2, ?_⟩
      rw [cur2, cur1, ringPos_add]

/-- The program is about to perform the action. -/
def Pending {α : Type} (a : Act) (q : Drv α) (_ : Device) : Prop := ∃ rest, q = .act a rest

/-- A run that is cut before the action. -/
abbrev LeadsTo {α : Type} (a : Act) (p : Drv α) (d : Device) : Prop :=
  Leads (Device.perform 0) anyOutcome (Pending a) p d

theorem LeadsTo.first {α β : Type} {a : Act} {p : Drv α} {next : α → Drv β} {d : Device}
    (leads : LeadsTo a p d) : LeadsTo a (p >>= next) d := by
  apply Leads.bind leads
  rintro q t ⟨rest, rfl⟩
  exact ⟨_, rfl⟩

theorem LeadsTo.after {α β : Type} {a : Act} {p : Drv α} {next : α → Drv β} {d d' : Device} {value : α}
    (run : Run anyOutcome p d value d') (leads : LeadsTo a (next value) d') :
    LeadsTo a (p >>= next) d := Leads.seq run leads

theorem LeadsTo.step {β : Type} {a b : Act} {next : b.Reply → Drv β} {d e : Device} {r : b.Reply}
    (step : d.perform 0 b succeeds = some (r, e)) (leads : LeadsTo a (next r) e) :
    LeadsTo a (Program.perform b >>= next) d := Leads.act succeeds trivial step leads

/-- The erase of the block at a position. -/
def eraseAt (pos : Nat) : Act :=
  .chan (posChannel pos) (.issue (tableCmd (physBlock pos) 0 flagErasetables))

theorem flushTabledata_erases {d : Device} (idle : Mirrors Held.flushing d) (type : FlushType) :
    LeadsTo (eraseAt (findNewTablePos (tableCur d.metadata))) (flushTabledata 0 type) d := by
  have high := (findNewTablePos_range (tableCur d.metadata)).2
  have inside : findNewTablePos (tableCur d.metadata) + 0 * tableBitmapSize < reserveBlocksTotal := by
    simp only [reserveBlocksTotal, tableBitmapSize] at *
    omega
  rw [flushTabledata, if_neg (by decide), tableBlockNum_zero]
  refine LeadsTo.step (e := d) rfl (LeadsTo.first ?_)
  refine LeadsTo.first (LeadsTo.first (LeadsTo.first (LeadsTo.first (LeadsTo.first ?_))))
  rw [writeTabledataBlock, ← tableCur]
  apply LeadsTo.first
  rw [eraseOneReserveBlock, onReserveBlock_eq inside, Nat.zero_mul, Nat.add_zero]
  have free : (d.ch (posChannel (findNewTablePos (tableCur d.metadata)))).sema = none := idle.sema _
  refine LeadsTo.step (by simp only [Device.perform]; rw [if_pos free]) (LeadsTo.first ?_)
  exact Leads.here ⟨_, rfl⟩

theorem ssdSysFlush_erases {d : Device} (card : IdleCard d) (type : FlushType) :
    LeadsTo (eraseAt (findNewTablePos (tableCur d.metadata))) (ssdSysFlush type) d := by
  have count := card.nodes
  let d1 : Device := { d with flushSema := some 0 }
  let d2 : Device := { d1 with kbufFlush := fillBytes d1.kbufFlush 0 ssdMaxFlushSize 0 }
  have idle2 : Mirrors Held.flushing d2 := ⟨card.idle.sema, rfl, card.idle.issued⟩
  have blindImage : BlindImage always := fun _ _ _ => trivial
  obtain ⟨found, d3, run3, idle3⟩ := exists_run noFailure_live idle2 (copyRamTables_locks free_flushing)
  obtain ⟨image3, view3, -, -, fine3⟩ := (copyRamTables_spec (v := view d2) blindImage trivial).runs run3
  obtain rfl := fine3 fun _ _ _ => id
  obtain ⟨n, d4, run4, idle4⟩ := exists_run noFailure_live idle3 copyIdHash_locks
  obtain ⟨none, view4⟩ := (copyIdHash_spec (v := view d3) blindImage trivial).runs run4
  have sameNodes : (view d3).nodes = (view d).nodes := by
    rw [view3]
    rfl
  have sameMeta : d4.metadata = d.metadata := by
    rw [show d4.metadata = (view d4).metadata from rfl, view4, view3]
    rfl
  rw [sameNodes, count] at none
  subst none
  have free : d.perform 0 .downFlush succeeds = some ((), d1) := by
    simp only [Device.perform]
    rw [if_pos (show d.flushSema = none from card.idle.flush)]
  refine LeadsTo.step (r := true) (e := d) (by rw [← card.opened]; rfl) ?_
  rw [if_neg (by decide)]
  refine LeadsTo.step (e := d1) free (LeadsTo.first ?_)
  refine LeadsTo.step (e := d2) rfl ?_
  refine LeadsTo.after (run_any run3) (LeadsTo.after (run_any run4) (LeadsTo.first ?_))
  rw [← sameMeta]
  exact flushTabledata_erases idle4 type

theorem newCard_card : IdleCard newCard :=
  ⟨newCard_mirrors, rfl, fun _ _ => rfl, newCard_history.reserved⟩

/-- A flush of the new card that succeeds. -/
theorem first_snapshot : ∃ d, Run anyOutcome (ssdSysFlush .normal) newCard ssdOk d ∧ IdleCard d := by
  have none : NoRecords (view newCard) := fun pos inside pg low => newCard_new.bare.record inside low
  have few : (view newCard).nodes.length ≤ ssdMaxIdNum := by
    rw [newCard_card.nodes]
    exact Nat.zero_le _
  obtain ⟨ret, d, run, idle⟩ := exists_run noFailure_live newCard_mirrors
    (ssdSysFlush_locks free_none rfl .normal)
  obtain ⟨rfl, -⟩ := (first_flush none rfl few rfl .normal).runs run
  obtain ⟨reserved, ⟨opened, hash⟩, -⟩ :=
    (ssdSysFlush_ahead .normal newCard_card.reserved).runs (run_any run)
  refine ⟨d, run_any run, idle, opened, fun c b => ?_, reserved⟩
  rw [show (d.ch c).hash = (newCard.ch c).hash from congrFun hash c]
  rfl

/-- The flush behind a snapshot, with a command of its own. -/
theorem snapshot_survives_next : ∃ d d' c cmd rest, Snapshots (some d.metadata) 0 d ∧
    Reaches (Device.perform 0) anyOutcome (ssdSysFlush .normal) d
      (.act (.chan c (.issue cmd)) rest) d' ∧ Changes cmd ∧
    ∀ pos, Names d.metadata pos →
      ¬ (c = posChannel pos ∧ (Command.ofWord cmd).start / ssdPagesPerBlock = physBlock pos) := by
  obtain ⟨d, run, card⟩ := first_snapshot
  have history : Snapshots (some d.metadata) 0 d := .durable (.init _ rfl rfl) rfl run
  obtain ⟨q, d', reach, rest, rfl⟩ := ssdSysFlush_erases card .normal
  have changes : Changes (tableCmd (physBlock (findNewTablePos (tableCur d.metadata))) 0 flagErasetables) := by
    rw [Changes, ofWord_tableCmd (by decide) (by decide)]
    simp
  exact ⟨d, d', _, _, rest, history, reach, changes,
    snapshot_survives history (Nat.zero_le 14) reach changes⟩

/-- **The ring comes round.** After 419 failed flushes the next one erases a block of
the durable record. -/
theorem snapshot_is_lapped : ∃ r k d d' c cmd rest pos, Snapshots (some r) k d ∧
    Reaches (Device.perform 0) anyOutcome (ssdSysFlush .normal) d
      (.act (.chan c (.issue cmd)) rest) d' ∧ Changes cmd ∧ Names r pos ∧
    c = posChannel pos ∧ (Command.ofWord cmd).start / ssdPagesPerBlock = physBlock pos := by
  obtain ⟨d0, run0, card0⟩ := first_snapshot
  have history0 : Snapshots (some d0.metadata) 0 d0 := .durable (.init _ rfl rfl) rfl run0
  obtain ⟨snapshot, nonempty, -⟩ := history0.kept.snapshot _ rfl
  obtain ⟨d, history, card, cur⟩ := failed_flushes history0 card0 rfl 419
  -- the last of the blocks of the durable record
  have less : d0.metadata.blockNum.toNat - 1 < d0.metadata.blockNum.toNat := Nat.sub_lt nonempty one_pos
  obtain ⟨low, high⟩ := snapshot.first _ less
  rw [← tableCur_eq nonempty] at low high
  have lap : findNewTablePos (tableCur d.metadata) = tableCur d0.metadata := by
    rw [cur, ← ringPos, ringPos_eq low high]
    simp only [reserveBlocksMeta, reserveBlocksTotal, tableBitmapSize] at *
    omega
  have leads := ssdSysFlush_erases card .normal
  rw [lap] at leads
  obtain ⟨q, d', reach, rest, rfl⟩ := leads
  refine ⟨d0.metadata, 419, d, d', _, _, rest, tableCur d0.metadata, history, reach, ?_, ?_, rfl, ?_⟩
  · rw [Changes, ofWord_tableCmd (by decide) (by decide)]
    simp
  · exact ⟨_, less, .inl (tableCur_eq nonempty)⟩
  · rw [ofWord_tableCmd (by decide) (by decide), pageAddr_div _ (by decide)]

end FpgaSsd.Theory
