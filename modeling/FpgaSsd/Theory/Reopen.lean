/-
# Theory.Reopen — closing, losing power and opening again

The life of a card whose commands do not fail: flushes, work on the data between them, and
openings after a close or a loss of power, in any order and number.

* `LastFlush` — what the last flush of a table has left on the card;
* `Flushed.settled`, `Settled.works` — between two requests the record in memory is the one
  that the search will select;
* `ssdSysClose_saves`, `ssdSysOpen_restores` — a close and the next opening succeed, and every
  id and every table is where it was;
* `LastFlush.opens` — behind a loss of power opening succeeds exactly when the last flush was a
  close, with the ids of that close.
-/
import FpgaSsd.Theory.Copies
import FpgaSsd.Theory.Reload

namespace FpgaSsd.Theory

open FpgaSsd.Lib FpgaSsd.Driver

set_option autoImplicit false

/-! ## What a flush leaves -/

/-- The state of an open card between two requests; `b` is the group of the position. -/
structure Settled (v : View) (b : Nat) : Prop where
  area : Area v b
  headed : Headed v
  opened : v.opened = true

/-- The record in memory is the one of a flush of `v0`, and the card holds it. -/
structure LastFlush (type : FlushType) (v0 v : View) (b : Nat) (image : Mem) : Prop where
  holds : HoldsRecord v v.metadata image b v.metaPos.page
  image : ImageOf image v0
  ids : idMax v.metadata = v0.nodes.length
  magic : normalUninstall v.metadata = true ↔ type = .close
  snapshot : Snapshot v.metadata
  newer : v0.metadata.version < v.metadata.version

section Flush

variable {v v1 v' : View} {b b' : Nat} {type : FlushType}

theorem normalUninstall_flushed (n : Nat) (type : FlushType) (now : UInt64) (m : SsdMetadata) :
    normalUninstall (flushed n type now m) = true ↔ type = .close := by
  cases type with
  | normal =>
      have other : flushMagicNormal ≠ flushMagicClose := by decide
      simp [normalUninstall, flushed, updateMeta, FlushType.magic, other]
  | close => simp [normalUninstall, flushed, updateMeta, FlushType.magic]

theorem idMax_flushed {n : Nat} (few : n ≤ ssdMaxIdNum) (type : FlushType) (now : UInt64) (m : SsdMetadata) :
    idMax (flushed n type now m) = n := by
  have num : (flushed n type now m).idNum.toNat = n := by
    simp only [flushed, updateMeta, ssdMaxIdNum] at *
    rw [UInt32.toNat_ofNat']
    omega
  rw [idMax_eq (by rw [num]; simp only [ssdMaxIdNum] at few; omega), num]

/-- The record of the tables in memory is newer than every record on the card. -/
theorem Tabled.newer (tabled : Tabled type v v1) (room : v.metadata.version.toNat + 1 < 2 ^ 64) :
    v.metadata.version < v1.metadata.version := by
  obtain ⟨now, m, off, placed, record⟩ := tabled.record
  have version : m.version = v.metadata.version := placed.only.version
  rw [UInt64.lt_iff_toNat_lt, record, flushed_version _ _ _ (by rw [version]; exact room), version]
  omega

/-- The tables leave the metadata blocks alone. -/
theorem Tabled.pages (tabled : Tabled type v v1) : ∀ pos < reserveBlocksMeta, ∀ pg < ssdPagesPerBlock,
    v1.page pos pg = v.page pos pg ∧ v1.suspect pos pg = v.suspect pos pg := fun pos inside pg low =>
  tabled.frame.page pos (metaPos_inside inside) (fun member => Nat.not_lt.2 (ring_range member) inside) pg low

section Tables

variable (few : v.nodes.length ≤ ssdMaxIdNum) (tabled : Tabled type v v1)

include few tabled

theorem Tabled.num : v1.metadata.blockNum.toNat = tableBlockNum v.nodes.length := by
  obtain ⟨now, m, -, -, record⟩ := tabled.record
  rw [record]
  exact flushed_blockNum few type now m

theorem Tabled.ids : idMax v1.metadata = v.nodes.length := by
  obtain ⟨now, m, -, -, record⟩ := tabled.record
  rw [record]
  exact idMax_flushed few type now m

theorem Tabled.snapshot : Snapshot v1.metadata := by
  obtain ⟨now, m, off, placed, record⟩ := tabled.record
  rw [record]
  exact snapshot_flushed type now few placed

/-- The image is in the blocks that the record names. -/
theorem Tabled.copies : FirstCopies v1 v1.metadata v1.kbufFlush := fun k less =>
  ⟨((tabled.snapshot few).range ⟨k, less, .inl rfl⟩).2, tabled.blocks k less _ (.inl rfl)⟩

/-- The blocks hold the whole list of the ids. -/
theorem Tabled.list : tabledataBytes (idMax v1.metadata) ≤ v1.metadata.blockNum.toNat * ssdBlockSize := by
  rw [tabled.ids few, tabled.num few]
  exact tableBlockNum_covers _

end Tables

theorem Tabled.magic (tabled : Tabled type v v1) : normalUninstall v1.metadata = true ↔ type = .close := by
  obtain ⟨now, m, -, -, record⟩ := tabled.record
  rw [record]
  exact normalUninstall_flushed ..

/-- Blocks of other positions than those of a frame. -/
theorem FirstCopies.frame {P : Nat → Prop} {r : SsdMetadata} {image : Mem} (copies : FirstCopies v r image)
    (frame : Frame P v v') (apart : ∀ pos, Names r pos → ¬ P pos) : FirstCopies v' r image := fun k less =>
  ⟨(copies k less).1, (copies k less).2.frame frame (copies k less).1 (apart _ ⟨k, less, .inl rfl⟩)⟩

/-- The blocks of a record are none of the planes of a group. -/
theorem Snapshot.offMeta {r : SsdMetadata} {b pos : Nat} (snapshot : Snapshot r) (group : b < metaBitmapSize)
    (named : Names r pos) : ¬ ∃ plane < ssdMaxPlanes, pos = b * ssdMaxPlanes + plane := by
  rintro ⟨plane, inside, rfl⟩
  exact Nat.not_lt.2 (snapshot.range named).1 (groupPos_lt group inside)

theorem Tabled.records (tabled : Tabled type v v1) {pos pg : Nat} (inside : pos < reserveBlocksMeta)
    (low : pg < ssdPagesPerBlock) : v1.record pos pg = v.record pos pg :=
  View.record_congr (tabled.pages pos inside pg low).1

theorem Tabled.next (tabled : Tabled type v v1) : v1.moved.metaPos = nextMetaPos ssdOk v.metaPos := by
  have samePos : v1.metaPos = v.metaPos := tabled.frame.metaPos
  rw [View.moved, samePos]

theorem Tabled.valid (tabled : Tabled type v v1) : metadataCheckVal v1.metadata = ssdOk := by
  obtain ⟨now, m, -, -, record⟩ := tabled.record
  rw [record]
  exact updateMeta_valid ..

/-- The area behind a flush, and the group of its record. -/
theorem Flushed.settled (settled : Settled v b) (room : v.metadata.version.toNat + 1 < 2 ^ 64)
    (atGroup : (nextMetaPos ssdOk v.metaPos).blockPos = b' * ssdMaxPlanes) (flushed : Flushed type v v' b') :
    Settled v' b' ∧ Wins v' b' v'.metaPos.page v'.metadata := by
  obtain ⟨v1, tabled, attempt, shown⟩ := flushed
  obtain ⟨area, headed, opened⟩ := settled
  have newer := tabled.newer room
  have samePos : v1.metaPos = v.metaPos := tabled.frame.metaPos
  have area1 : Area v1 b := area.keep tabled.pages samePos (UInt64.le_of_lt newer)
  have opened' : v'.opened = true := attempt.frame.opened.trans (tabled.frame.opened.trans opened)
  have page : v'.metaPos = nextMetaPos ssdOk v.metaPos := attempt.frame.metaPos.trans tabled.next
  have metadata : v'.metadata = v1.metadata := attempt.metadata
  -- the record is the only one of its page
  have there : ∃ plane < ssdMaxPlanes, v'.record (b' * ssdMaxPlanes + plane) v'.metaPos.page = some v1.metadata := by
    rw [page]
    exact ⟨0, by decide, shown 0 (by decide)⟩
  have agree : ∀ plane < ssdMaxPlanes, ∀ x, v'.record (b' * ssdMaxPlanes + plane) v'.metaPos.page = some x →
      x = v1.metadata := by
    intro plane inside x found
    rw [page, shown plane inside] at found
    exact (Option.some.inj found).symm
  rw [metadata]
  rcases nextMetaPos_cases ssdOk area.page area.atGroup with ⟨-, more, next⟩ | ⟨g, group, next⟩
  · -- the next page of the group
    obtain rfl : b = b' := by
      rw [next, area.atGroup] at atGroup
      exact Nat.eq_of_mul_eq_mul_right (by decide) atGroup
    have after : Area v' b := area1.nextPage (by rwa [samePos]) (by rw [View.moved, samePos, next]) attempt
    have first : ∃ plane < ssdMaxPlanes, ∃ x, v'.record (b * ssdMaxPlanes + plane) 0 = some x := by
      obtain ⟨plane, inside, x, found⟩ := headed more
      rw [area.atGroup] at found
      have zero : v1.moved.metaPos.page ≠ 0 := by
        rw [View.moved, samePos, next]
        exact Nat.succ_ne_zero _
      refine ⟨plane, inside, x, ?_⟩
      rw [attempt.others plane inside 0 (by decide) zero.symm, if_neg zero]
      exact (tabled.records (groupPos_lt area.group inside) (by decide)).trans found
    refine ⟨⟨after, fun _ => ?_, opened'⟩, after.wins first there agree⟩
    rw [after.atGroup]
    exact first
  · -- the first page of a group
    obtain rfl : g = b' := by
      rw [next] at atGroup
      exact Nat.eq_of_mul_eq_mul_right (by decide) atGroup
    have fresher : Fresher v1.moved := by
      intro pos inside other y found
      have old := (area.versions pos inside 0 (by decide) y ?_).2
      · exact UInt64.lt_of_le_of_lt old newer
      · rw [← found]
        exact (tabled.records inside (by decide)).symm
    have moved : v1.moved = { v1 with metaPos := ⟨0, g * ssdMaxPlanes⟩ } := by
      rw [View.moved, samePos, next]
    have after : Area v' g := area1.nextGroup group moved fresher attempt
    have first : ∃ plane < ssdMaxPlanes, ∃ x, v'.record (g * ssdMaxPlanes + plane) 0 = some x := by
      refine ⟨0, by decide, v1.metadata, ?_⟩
      have record := shown 0 (by decide)
      rwa [next] at record
    refine ⟨⟨after, fun _ => ?_, opened'⟩, after.wins first there agree⟩
    rw [after.atGroup]
    exact first

/-- Where the record of a flush wins, the card holds it with the tables. -/
theorem Flushed.holds (few : v.nodes.length ≤ ssdMaxIdNum) (group : b' < metaBitmapSize) (clean : v'.Clean)
    (wins : Wins v' b' v'.metaPos.page v'.metadata) (flushed : Flushed type v v' b') :
    ∃ image, HoldsRecord v' v'.metadata image b' v'.metaPos.page ∧ ImageOf image v ∧
      idMax v'.metadata = v.nodes.length ∧ (normalUninstall v'.metadata = true ↔ type = .close) := by
  obtain ⟨v1, tabled, attempt, -⟩ := flushed
  have metadata : v'.metadata = v1.metadata := attempt.metadata
  have moved : FirstCopies v1.moved v1.metadata v1.kbufFlush := (tabled.copies few).keep (.of_flash rfl)
  have copies : FirstCopies v' v1.metadata v1.kbufFlush :=
    moved.frame attempt.frame fun _ => (tabled.snapshot few).offMeta group
  refine ⟨v1.kbufFlush, ⟨clean, wins, ?_, ?_⟩, tabled.image, ?_, ?_⟩
  all_goals rw [metadata]
  · exact copies
  · exact tabled.list few
  · exact tabled.ids few
  · exact tabled.magic

/-- The card holds the record of a flush, and the blocks that the record names. -/
theorem Flushed.last (settled : Settled v b) (few : v.nodes.length ≤ ssdMaxIdNum)
    (room : v.metadata.version.toNat + 1 < 2 ^ 64)
    (atGroup : (nextMetaPos ssdOk v.metaPos).blockPos = b' * ssdMaxPlanes) (flushed : Flushed type v v' b') :
    ∃ image, LastFlush type v v' b' image := by
  obtain ⟨after, wins⟩ := Flushed.settled settled room atGroup flushed
  obtain ⟨image, holds, imaged, num, magic⟩ := flushed.holds few after.area.group after.area.clean wins
  obtain ⟨v1, tabled, attempt, -⟩ := flushed
  have metadata : v'.metadata = v1.metadata := attempt.metadata
  refine ⟨image, holds, imaged, num, magic, ?_, ?_⟩
  all_goals rw [metadata]
  · exact tabled.snapshot few
  · exact tabled.newer room

/-- What a flush leaves alone. -/
structure TablesKept (v v' : View) : Prop where
  hash : v'.hash = v.hash
  space : v'.space = v.space
  opened : v'.opened = v.opened
  addrTable : ∀ c, (v'.flash c).addrTable = (v.flash c).addrTable
  eraseTable : ∀ c, (v'.flash c).eraseTable = (v.flash c).eraseTable
  data : ∀ c, (v'.flash c).data = (v.flash c).data

theorem Flushed.kept (flushed : Flushed type v v' b') : TablesKept v v' := by
  obtain ⟨v1, tabled, attempt, -⟩ := flushed
  have tables := tabled.frame
  have record := attempt.frame
  exact ⟨record.hash.trans tables.hash, record.space.trans tables.space, record.opened.trans tables.opened,
    fun c => (record.addrTable c).trans (tables.addrTable c),
    fun c => (record.eraseTable c).trans (tables.eraseTable c),
    fun c => (record.data c).trans (tables.data c)⟩

/-- Each flush has the next version. -/
theorem Flushed.version (room : v.metadata.version.toNat + 1 < 2 ^ 64) (flushed : Flushed type v v' b') :
    v'.metadata.version.toNat = v.metadata.version.toNat + 1 := by
  obtain ⟨v1, tabled, attempt, -⟩ := flushed
  obtain ⟨now, m, off, placed, record⟩ := tabled.record
  have version : m.version = v.metadata.version := placed.only.version
  rw [attempt.metadata, show v1.moved.metadata = v1.metadata from rfl, record,
    flushed_version _ _ _ (by rw [version]; exact room), version]

/-- A flush of a settled card. -/
structure Saved (type : FlushType) (v v' : View) : Prop where
  kept : TablesKept v v'
  version : v'.metadata.version.toNat = v.metadata.version.toNat + 1
  last : ∃ b image, Settled v' b ∧ LastFlush type v v' b image
  flushed : ∃ b, (nextMetaPos ssdOk v.metaPos).blockPos = b * ssdMaxPlanes ∧ Flushed type v v' b

/-- Where the next record goes. -/
theorem Settled.next (settled : Settled v b) : ∃ b' < metaBitmapSize,
    (nextMetaPos ssdOk v.metaPos).blockPos = b' * ssdMaxPlanes ∧
      (nextMetaPos ssdOk v.metaPos).page < ssdPagesPerBlock := by
  rcases nextMetaPos_cases ssdOk settled.area.page settled.area.atGroup with ⟨-, more, next⟩ | ⟨g, group, next⟩
  · rw [next]
    exact ⟨b, settled.area.group, settled.area.atGroup, more⟩
  · rw [next]
    exact ⟨g, group, rfl, Nat.zero_lt_of_lt settled.area.page⟩

theorem Flushed.saved (settled : Settled v b) (few : v.nodes.length ≤ ssdMaxIdNum)
    (room : v.metadata.version.toNat + 1 < 2 ^ 64)
    (atGroup : (nextMetaPos ssdOk v.metaPos).blockPos = b' * ssdMaxPlanes) (flushed : Flushed type v v' b') :
    Saved type v v' := by
  obtain ⟨image, last⟩ := Flushed.last settled few room atGroup flushed
  exact ⟨flushed.kept, flushed.version room, ⟨b', image, (flushed.settled settled room atGroup).1, last⟩,
    b', atGroup, flushed⟩

theorem ssdSysFlush_flushes {may : May} (flawless : Flawless may) (opened : v.opened = true)
    (few : v.nodes.length ≤ ssdMaxIdNum) (group : b' < metaBitmapSize)
    (atGroup : (nextMetaPos ssdOk v.metaPos).blockPos = b' * ssdMaxPlanes)
    (low : (nextMetaPos ssdOk v.metaPos).page < ssdPagesPerBlock) (type : FlushType) :
    OnView always may (ssdSysFlush type) (fun ret v' => ret = ssdOk ∧ Flushed type v v' b') v :=
  ssdSysFlush_flawless flawless type opened few group atGroup low (fun _ _ _ => trivial)
    (fun _ _ => trivial) trivial (fun _ _ => trivial) (fun _ _ _ _ => trivial) fun _ _ => trivial

/-- **A flush without failures** succeeds, and the card holds the tables. -/
theorem ssdSysFlush_saves {may : May} (flawless : Flawless may) (settled : Settled v b)
    (few : v.nodes.length ≤ ssdMaxIdNum) (room : v.metadata.version.toNat + 1 < 2 ^ 64) (type : FlushType) :
    OnView always may (ssdSysFlush type) (fun ret v' => ret = ssdOk ∧ Saved type v v') v := by
  obtain ⟨b', group, atGroup, low⟩ := settled.next
  refine (ssdSysFlush_flushes flawless settled.opened few group atGroup low type).weaken ?_
  rintro ret v' ⟨rfl, flushed⟩
  exact ⟨rfl, flushed.saved settled few room atGroup⟩

end Flush

/-! ## Closing -/

section Close

variable {may : May} {v : View} {b : Nat}

/-- A close is a flush, behind which the table is freed. -/
def Closed (v v' : View) : Prop :=
  ∃ v1, Saved .close v v1 ∧ v' = { v1 with opened := false, hash := freedHash v1.hash }

theorem ssdSysClose_flushes (flawless : Flawless may) (opened : v.opened = true)
    (few : v.nodes.length ≤ ssdMaxIdNum) (group : b < metaBitmapSize)
    (atGroup : (nextMetaPos ssdOk v.metaPos).blockPos = b * ssdMaxPlanes)
    (low : (nextMetaPos ssdOk v.metaPos).page < ssdPagesPerBlock) :
    OnView always may ssdSysClose (fun ret v' => ret = ssdOk ∧ ∃ v1, Flushed .close v v1 b ∧
      v' = { v1 with opened := false, hash := freedHash v1.hash }) v := by
  unfold ssdSysClose
  refine OnView.seq (OnView.getOpened trivial) ?_
  rintro flag v ⟨rfl, rfl⟩
  rw [opened, if_neg (by decide)]
  refine OnView.seq (ssdSysFlush_flushes flawless opened few group atGroup low .close) ?_
  rintro _ v1 ⟨rfl, flushed⟩
  rw [if_neg (by decide)]
  refine OnView.seq (OnView.setOpened trivial false) ?_
  rintro _ _ rfl
  refine OnView.seq (ssdDestorySlab_spec fun _ => trivial) ?_
  rintro _ _ rfl
  exact OnView.pure ⟨rfl, v1, flushed, rfl⟩

/-- **Closing without failures.** -/
theorem ssdSysClose_saves (flawless : Flawless may) (settled : Settled v b) (few : v.nodes.length ≤ ssdMaxIdNum)
    (room : v.metadata.version.toNat + 1 < 2 ^ 64) :
    OnView always may ssdSysClose (fun ret v' => ret = ssdOk ∧ Closed v v') v := by
  obtain ⟨b', group, atGroup, low⟩ := settled.next
  refine (ssdSysClose_flushes flawless settled.opened few group atGroup low).weaken ?_
  rintro _ v' ⟨rfl, v1, flushed, shut⟩
  exact ⟨rfl, v1, flushed.saved settled few room atGroup, shut⟩

end Close

/-! ## Opening again -/

namespace SamePages

variable {v v' v'' : View}

theorem refl (v : View) : SamePages v v := fun _ _ _ _ => ⟨rfl, rfl⟩

theorem trans (first : SamePages v v') (second : SamePages v' v'') : SamePages v v'' := fun pos inside pg low =>
  ⟨(second pos inside pg low).1.trans (first pos inside pg low).1,
    (second pos inside pg low).2.trans (first pos inside pg low).2⟩

/-- The tables of the RAM are not pages. -/
theorem loaded {image : Mem} {n : Nat} (flash : v'.flash = loadedBefore image v.flash n) : SamePages v v' := by
  intro pos _ pg _
  have same : (v'.flash (posChannel pos)).page = (v.flash (posChannel pos)).page ∧
      (v'.flash (posChannel pos)).suspect = (v.flash (posChannel pos)).suspect := by
    rw [flash, loadedBefore]
    split <;> exact ⟨rfl, rfl⟩
  rw [View.page, View.suspect, same.1, same.2]
  exact ⟨rfl, rfl⟩

end SamePages

/-- The record and the pages are what they were. -/
structure Works (v v' : View) : Prop where
  pages : SamePages v v'
  metadata : v'.metadata = v.metadata
  metaPos : v'.metaPos = v.metaPos
  opened : v'.opened = v.opened

section Works

variable {v v' : View} {b : Nat} {image : Mem} {type : FlushType} {v0 : View}

theorem Area.works (area : Area v b) (works : Works v v') : Area v' b :=
  area.keep (fun pos inside pg low => works.pages pos (metaPos_inside inside) pg low) works.metaPos
    (UInt64.le_of_eq (by rw [works.metadata]))

theorem Settled.works (settled : Settled v b) (works : Works v v') : Settled v' b := by
  obtain ⟨area, headed, opened⟩ := settled
  refine ⟨area.works works, fun more => ?_, works.opened.trans opened⟩
  rw [works.metaPos] at more ⊢
  obtain ⟨plane, inside, x, found⟩ := headed more
  refine ⟨plane, inside, x, ?_⟩
  have low : v.metaPos.blockPos + plane < reserveBlocksMeta := by
    rw [area.atGroup]
    exact groupPos_lt area.group inside
  rw [← found]
  exact View.record_congr (works.pages _ (metaPos_inside low) 0 (by decide)).1

theorem LastFlush.works (last : LastFlush type v0 v b image) (works : Works v v') : LastFlush type v0 v' b image := by
  obtain ⟨holds, tables, ids, magic, snapshot, newer⟩ := last
  constructor
  · rw [works.metadata, works.metaPos]
    exact holds.keep works.pages
  · exact tables
  all_goals rwa [works.metadata]

end Works

/-- The table and the allocators of `v` are in `v'` again. -/
structure Restored (v v' : View) : Prop where
  hash : Reversed v.hash v'.hash
  tables : ∀ c < ssdMaxChannel, ∀ i < ssdTableSize, (v'.flash c).addrTable i = (v.flash c).addrTable i ∧
    (v'.flash c).eraseTable i = (v.flash c).eraseTable i
  space : ∀ c < ssdMaxChannel, ∃ s, Reloaded c (s, v'.hash c) (v'.space c, v'.hash c)

section Restore

variable {v0 v v1 v2 : View} {b : Nat} {image : Mem} {type : FlushType}

/-- The list of an image has the nodes of the table, in their order. -/
theorem IdsIn.listNodes (ids : IdsIn image v) (placed : ∀ c < ssdMaxChannel, ChannelPlaced c (v.hash c)) :
    listNodes image v.nodes.length = v.nodes := by
  apply List.ext_getElem
  · simp only [Theory.listNodes, List.length_map, List.length_range']
  intro k inside inside'
  simp only [Theory.listNodes, List.getElem_map, List.getElem_range', Nat.zero_add, Nat.one_mul]
  rw [listed, ids k inside']
  obtain ⟨c, member, inChannel⟩ := List.mem_flatMap.1 (List.getElem_mem inside')
  obtain ⟨bucket, below, inBucket⟩ := List.mem_flatMap.1 inChannel
  obtain ⟨channel, own, -⟩ := (placed c (List.mem_range.1 member)).node bucket (List.mem_range.1 below) _ inBucket
  generalize v.nodes[k] = node at *
  have home : node.info.channel.val = id2channel node.id := own.trans channel.symm
  rw [flushIdInfoOf, if_neg (not_not.2 home), entryNode]
  have same : Fin.ofNat 64 (id2channel node.id) = node.info.channel := by
    rw [← home]
    exact Fin.ofNat_val_eq_self _
  rw [same]

/-- **The ids** that are opened are those of the list. -/
theorem Opened.reversed (opened : Opened v.metadata image b v.metaPos.page v1 v2) (ids : IdsIn image v0)
    (num : idMax v.metadata = v0.nodes.length) (placed : ∀ c < ssdMaxChannel, ChannelPlaced c (v0.hash c)) :
    Reversed v0.hash v2.hash := by
  intro c inside bucket below
  have cleared := @clearedHash_bucket v1.hash c bucket inside below
  rw [opened.hash, linkNodes_bucket, num, ids.listNodes placed, nodes_filter placed inside below, cleared]
  simp

/-- **What is opened is what was flushed.** -/
theorem Opened.restores (opened : Opened v.metadata image b v.metaPos.page v1 v2) (imaged : ImageOf image v0)
    (num : idMax v.metadata = v0.nodes.length) (placed : ∀ c < ssdMaxChannel, ChannelPlaced c (v0.hash c)) :
    Restored v0 v2 := by
  constructor
  · exact opened.reversed imaged.ids num placed
  · intro c inside i small
    obtain ⟨addr, erase⟩ := imaged.tables c inside i small
    rw [opened.flash, loadedBefore, if_pos inside, loadTables]
    have fromImage : ∀ (old : Mem) offset, copyBytes old 0 image offset ssdTableSize i = image (offset + i) := by
      intro old offset
      rw [copyBytes, if_pos ⟨Nat.zero_le i, by rwa [Nat.zero_add]⟩, Nat.sub_zero]
    dsimp only
    rw [fromImage, fromImage]
    exact ⟨addr, erase⟩
  · intro c inside
    obtain ⟨spaces, reloaded⟩ := opened.space
    exact ⟨spaces c, reloaded c inside⟩

/-- The position and the record are those of the search. -/
theorem Opened.works (opened : Opened v.metadata image b v.metaPos.page v1 v2)
    (atGroup : v.metaPos.blockPos = b * ssdMaxPlanes) (open' : v.opened = true) (pages : SamePages v v1) :
    Works v v2 := by
  refine ⟨pages.trans (SamePages.loaded opened.flash), opened.metadata, ?_, opened.opened.trans open'.symm⟩
  rw [opened.metaPos, ← atGroup]

end Restore

/-- The card without power: RAM keeps nothing, and the reserved pages stay. -/
structure PowerCycle (v v' : View) : Prop where
  pages : SamePages v v'
  opened : v'.opened = false

section Reopen

variable {may : May} {v0 v v1 : View} {b : Nat} {image : Mem} {type : FlushType}

/-- **Opening behind a loss of power**: the tables of the last flush when it was a close, and a
failure when it was not. -/
theorem LastFlush.opens (flawless : Flawless may) (last : LastFlush type v0 v b image)
    (placed : ∀ c < ssdMaxChannel, ChannelPlaced c (v0.hash c)) (off : PowerCycle v v1) :
    OnView always may ssdSysOpen (fun ret v2 => if type = .close then
        ret = ssdOk ∧ Opened v.metadata image b v.metaPos.page v1 v2 ∧ Restored v0 v2
      else ret = ssdError) v1 := by
  refine (ssdSysOpen_flawless flawless (last.holds.keep off.pages) off.opened).weaken fun ret v2 after => ?_
  by_cases close : type = .close
  · rw [if_pos (last.magic.2 close)] at after
    rw [if_pos close]
    exact ⟨after.1, after.2, after.2.restores last.image last.ids placed⟩
  · rw [if_neg fun magic => close (last.magic.1 magic)] at after
    rw [if_neg close]
    exact after.1

/-- The same of a card that is settled, which it is again. -/
theorem ssdSysOpen_restores (flawless : Flawless may) (settled : Settled v b) (last : LastFlush type v0 v b image)
    (placed : ∀ c < ssdMaxChannel, ChannelPlaced c (v0.hash c)) (off : PowerCycle v v1) :
    OnView always may ssdSysOpen (fun ret v2 => if type = .close then
        ret = ssdOk ∧ Works v v2 ∧ Restored v0 v2 ∧ ∀ c, (v2.flash c).data = (v1.flash c).data
      else ret = ssdError) v1 := by
  refine (last.opens flawless placed off).weaken fun ret v2 after => ?_
  by_cases close : type = .close
  · rw [if_pos close] at after ⊢
    obtain ⟨answer, opened, restored⟩ := after
    refine ⟨answer, opened.works settled.area.atGroup settled.opened off.pages, restored, fun c => ?_⟩
    rw [opened.flash, loadedBefore]
    split <;> rfl
  · rw [if_neg close] at after ⊢
    exact after

end Reopen

end FpgaSsd.Theory
