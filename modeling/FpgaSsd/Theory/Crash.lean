/-
# Theory.Crash — a flush that loses its power

A flush without failures that stops between any two of its actions. Its tables go to blocks
that the last record does not name, and the search goes by the records, so the card shows the
last record or the new one, and never half of one.

* `AttemptStage.staged` — inside the writing of a record, each page shows what it showed, or
  the new record;
* `ssdSysFlush_atomic` — at every action of a flush the card holds the tables of the last flush
  or those of this one, unless the record goes to a group that still shows older ones;
* `cut_flush_is_atomic` — the same for the life of a card, and what the next opening answers.
-/
import FpgaSsd.Theory.Rounds

namespace FpgaSsd.Theory

open FpgaSsd.Lib FpgaSsd.Driver FpgaSsd.Api

set_option autoImplicit false

/-! ## Inside the writing of a record -/

/-- The states inside the writing of a record to pages that showed none. -/
structure Staged (v v' : View) (b : Nat) : Prop where
  metadata : v'.metadata = v.metadata
  metaPos : v'.metaPos = v.metaPos
  clean : v'.Clean
  others : ∀ pos < reserveBlocksMeta, ∀ pg < ssdPagesPerBlock, (pos / ssdMaxPlanes = b → pg ≠ v.metaPos.page) →
    v'.record pos pg = v.record pos pg
  page : ∀ plane < ssdMaxPlanes, ∀ x, v'.record (b * ssdMaxPlanes + plane) v.metaPos.page = some x → x = v.metadata

section Stage

variable {may : May} {v v1 v' : View} {b pos : Nat}

/-- A page that an attempt on the block may change shows no record. -/
def EmptyBlock (v : View) (pos : Nat) : Prop := ∀ pg < ssdPagesPerBlock, v.metaPos.page = 0 ∨ pg = v.metaPos.page →
  v.record pos pg = none

theorem MetaStage.sameRest (stage : MetaStage may v pos v1) : View.SameRest v v1 := by
  induction stage with
  | start => exact .refl v
  | erased => exact View.sameRest_erased
  | written ready => exact ready.sameRest.trans View.sameRest_written
  | read _ _ ih => exact ih.trans View.sameRest_read

theorem MetaStage.clean (flawless : Flawless may) (stage : MetaStage may v pos v1) (inside : pos < reserveBlocksMeta)
    (low : v.metaPos.page < ssdPagesPerBlock) (clean : v.Clean) : v1.Clean := by
  induction stage with
  | start => exact clean
  | erased => exact clean_erased inside clean
  | written ready allowed =>
      have taken := (MayTable.ok flawless allowed low (by decide) (by decide)).2
      exact clean_written inside low (ready.clean inside clean) fun _ => taken
  | read _ _ ih =>
      refine clean_read inside low fun pos' pg' inside' low' mark => ?_
      rw [ih pos' pg' inside' low'] at mark
      cases mark

theorem MetaReady.kept (ready : MetaReady may v pos v1) (inside : pos < reserveBlocksMeta) (empty : EmptyBlock v pos)
    {pg : Nat} (low : pg < ssdPagesPerBlock) : v1.record pos pg = v.record pos pg := by
  rw [ready.record inside low]
  split
  · rename_i first
    exact (empty pg low (.inl first)).symm
  · rfl

/-- The page shows the record or none, and the other pages of the block what they showed. -/
theorem MetaStage.records (flawless : Flawless may) (stage : MetaStage may v pos v1) (inside : pos < reserveBlocksMeta)
    (low : v.metaPos.page < ssdPagesPerBlock) (valid : metadataCheckVal v.metadata = ssdOk) (empty : EmptyBlock v pos) :
    (∀ pg < ssdPagesPerBlock, pg ≠ v.metaPos.page → v1.record pos pg = v.record pos pg) ∧
      ∀ x, v1.record pos v.metaPos.page = some x → x = v.metadata := by
  have inside' := metaPos_inside inside
  have none : ∀ x, v.record pos v.metaPos.page = some x → x = v.metadata := by
    intro x found
    rw [empty _ low (.inr rfl)] at found
    cases found
  induction stage with
  | start => exact ⟨fun _ _ _ => rfl, none⟩
  | @erased o first allowed =>
      have ok := (MayTable.ok flawless allowed (by decide) (by decide) (by decide)).1
      have gone : ∀ pg < ssdPagesPerBlock, (v.erased pos o).record pos pg = v.record pos pg := by
        intro pg low
        rw [View.record_erased_ok inside' low ok, empty pg low (.inl first)]
      refine ⟨fun pg low _ => gone pg low, fun x found => none x ?_⟩
      rwa [gone _ low] at found
  | written ready allowed sent =>
      refine ⟨fun pg low' other => ?_, fun x found => ?_⟩
      · rw [View.record_written_other inside' inside' low low' fun both => other both.2]
        exact ready.kept inside empty low'
      · rw [View.record_written inside' low valid sent, ready.kept inside empty low, empty _ low (.inr rfl)] at found
        split at found
        · exact (Option.some.inj found).symm
        · split at found <;> cases found
  | read o before ih =>
      refine ⟨fun pg low' other => ?_, fun x found => ?_⟩
      · rw [View.record_read]
        exact ih.1 pg low' other
      · rw [View.record_read] at found
        exact ih.2 x found

/-- The planes that were attempted show the record, or are as they were. -/
theorem Attempt.records {k plane pg : Nat} (attempt : Attempt v v1 b k) (less : plane < k)
    (empty : EmptyBlock v (b * ssdMaxPlanes + plane)) (low : pg < ssdPagesPerBlock) (other : pg ≠ v.metaPos.page) :
    v1.record (b * ssdMaxPlanes + plane) pg = v.record (b * ssdMaxPlanes + plane) pg := by
  rw [attempt.others plane less pg low other]
  split
  · rename_i first
    exact (empty pg low (.inl first)).symm
  · rfl

/-- **Between the commands** of an attempt that fails at none. -/
theorem AttemptStage.staged (flawless : Flawless may) (stage : AttemptStage may v b v') (group : b < metaBitmapSize)
    (low : v.metaPos.page < ssdPagesPerBlock) (valid : metadataCheckVal v.metadata = ssdOk) (clean : v.Clean)
    (empty : ∀ plane < ssdMaxPlanes, EmptyBlock v (b * ssdMaxPlanes + plane)) : Staged v v' b := by
  obtain ⟨k, v1, inside, attempt, shown, stage⟩ := stage
  have samePos := attempt.frame.metaPos
  have here := groupPos_lt group inside
  have low1 : v1.metaPos.page < ssdPagesPerBlock := by rwa [samePos]
  have later : ∀ plane < ssdMaxPlanes, k ≤ plane → ∀ pg < ssdPagesPerBlock,
      v1.record (b * ssdMaxPlanes + plane) pg = v.record (b * ssdMaxPlanes + plane) pg :=
    fun plane small above pg low => attempt.later group small above low
  have empty1 : EmptyBlock v1 (b * ssdMaxPlanes + k) := by
    intro pg low' at'
    rw [samePos] at at'
    rw [later k inside (Nat.le_refl k) pg low']
    exact empty k inside pg low' at'
  have valid1 : metadataCheckVal v1.metadata = ssdOk := by rwa [attempt.metadata]
  obtain ⟨rest, new⟩ := stage.records flawless here low1 valid1 empty1
  rw [samePos] at rest new
  rw [attempt.metadata] at new
  have frame := stage.frame here low1
  have apart : ∀ plane < ssdMaxPlanes, plane ≠ k → ∀ pg < ssdPagesPerBlock,
      v'.record (b * ssdMaxPlanes + plane) pg = v1.record (b * ssdMaxPlanes + plane) pg :=
        fun plane small other pg low =>
    View.record_frame frame (metaPos_inside (groupPos_lt group small)) (fun eq => other (by omega)) low
  refine ⟨stage.sameRest.metadata.trans attempt.metadata, frame.metaPos.trans samePos,
    stage.clean flawless here low1 (attempt.clean clean), fun pos below pg low' other => ?_,
    fun plane small x found => ?_⟩
  · by_cases own : pos / ssdMaxPlanes = b
    · obtain ⟨plane, small, eq⟩ := eq_plane pos
      rw [own] at eq
      subst eq
      have off := other own
      by_cases at' : plane = k
      · subst at'
        rw [rest pg low' off, later plane inside (Nat.le_refl _) pg low']
      · rw [apart plane small at' pg low']
        by_cases less : plane < k
        · exact attempt.records less (empty plane small) low' off
        · exact later plane small (Nat.le_of_not_lt less) pg low'
    · have out : ¬ pos = b * ssdMaxPlanes + k := by
        rintro rfl
        exact own (plane_div inside)
      rw [View.record_frame frame (metaPos_inside below) out low']
      exact attempt.elsewhere (Nat.le_of_lt inside) below own low'
  · by_cases at' : plane = k
    · subst at'
      exact new x found
    · rw [apart plane small at' _ low] at found
      by_cases less : plane < k
      · rw [shown flawless plane less] at found
        exact (Option.some.inj found).symm
      · rw [later plane small (Nat.le_of_not_lt less) _ low, empty plane small _ low (.inr rfl)] at found
        cases found

end Stage

/-! ## The record that wins -/

/-- When the next record opens a group, the group shows no record. -/
def NextFree (v : View) : Prop := (nextMetaPos ssdOk v.metaPos).page = 0 → ∀ plane < ssdMaxPlanes,
  ∀ pg < ssdPagesPerBlock, v.record ((nextMetaPos ssdOk v.metaPos).blockPos + plane) pg = none

/-- The next group is free in the first round, and within a group. -/
theorem Round.free {n : Nat} {v : View} (round : Round n v)
    (fresh : n < roundRecords ∨ n % ssdPagesPerBlock ≠ 0) : NextFree v := by
  have next : nextMetaPos ssdOk v.metaPos = roundPos (n + 1) := by rw [round.place, nextMetaPos_round]
  intro first plane inside pg low
  rw [next] at first ⊢
  simp only [roundPos, roundRecords, metaBitmapSize, ssdPagesPerBlock] at first fresh
  refine round.empty _ (groupPos_lt (roundGroup_lt _) inside) (fun k positive le => ?_) pg low
  rw [plane_div inside]
  simp only [roundGroup]
  omega

section Record

variable {v v1 v' : View} {b b' : Nat} {type : FlushType}

/-- A record that does not open a group goes to the next page. -/
theorem Area.later (area : Area v b) (later : (nextMetaPos ssdOk v.metaPos).page ≠ 0) :
    v.metaPos.page + 1 < ssdPagesPerBlock ∧ nextMetaPos ssdOk v.metaPos = ⟨v.metaPos.page + 1, b * ssdMaxPlanes⟩ := by
  rcases nextMetaPos_cases ssdOk area.page area.atGroup with ⟨-, more, next⟩ | ⟨g, -, next⟩
  · exact ⟨more, by rw [next, ← area.atGroup]⟩
  · rw [next] at later
    exact absurd rfl later

section Next

variable (area : Area v b) (atGroup : (nextMetaPos ssdOk v.metaPos).blockPos = b' * ssdMaxPlanes)

include area atGroup

theorem Area.sameGroup (later : (nextMetaPos ssdOk v.metaPos).page ≠ 0) : b = b' := by
  rw [(area.later later).2] at atGroup
  exact Nat.eq_of_mul_eq_mul_right (by decide) atGroup

/-- From the position on, the group shows no record. -/
theorem NextFree.empty (free : NextFree v) {plane pg : Nat} (inside : plane < ssdMaxPlanes)
    (low : pg < ssdPagesPerBlock)
    (from' : (nextMetaPos ssdOk v.metaPos).page ≤ pg) : v.record (b' * ssdMaxPlanes + plane) pg = none := by
  by_cases first : (nextMetaPos ssdOk v.metaPos).page = 0
  · rw [← atGroup]
    exact free first plane inside pg low
  · obtain rfl := area.sameGroup atGroup first
    rw [(area.later first).2] at from'
    exact area.ahead plane inside pg from' low

end Next

section Staged

variable (tabled : Tabled type v v1) (staged : Staged v1.moved v' b')

include tabled staged

theorem Staged.pos : v'.metaPos = nextMetaPos ssdOk v.metaPos := staged.metaPos.trans tabled.next

/-- The records at other pages are those before the flush. -/
theorem Staged.kept {pos pg : Nat} (inside : pos < reserveBlocksMeta) (low : pg < ssdPagesPerBlock)
    (other : pos / ssdMaxPlanes = b' → pg ≠ v'.metaPos.page) : v'.record pos pg = v.record pos pg := by
  rw [staged.metaPos] at other
  exact (staged.others pos inside pg low other).trans (tabled.records inside low)

omit tabled in
/-- The page shows no other record than the new one. -/
theorem Staged.new {plane : Nat} (inside : plane < ssdMaxPlanes) {x : SsdMetadata}
    (found : v'.record (b' * ssdMaxPlanes + plane) v'.metaPos.page = some x) : x = v1.metadata := by
  rw [staged.metaPos] at found
  exact staged.page plane inside x found

variable (settled : Settled v b) (newer : v.metadata.version < v1.metadata.version) (group : b' < metaBitmapSize)
  (atGroup : (nextMetaPos ssdOk v.metaPos).blockPos = b' * ssdMaxPlanes) (free : NextFree v)

include settled newer group atGroup free

/-- **The area** while a record is written. -/
theorem Staged.area : Area v' b' := by
  obtain ⟨-, -, -, low⟩ := settled.next
  obtain ⟨area, -, -⟩ := settled
  have pos := staged.pos tabled
  have metadata : v'.metadata = v1.metadata := staged.metadata
  have positive : 0 < v1.metadata.version := UInt64.lt_trans area.positive newer
  refine ⟨staged.clean, group, by rw [pos, atGroup], by rwa [pos], by rwa [metadata],
    fun pos' inside pg low r found => ?_, fun plane inside pg above high => ?_,
    fun plane inside x found pos' inside' other y found' => ?_⟩
  · rw [metadata]
    by_cases at' : pos' / ssdMaxPlanes = b' ∧ pg = v'.metaPos.page
    · obtain ⟨own, rfl⟩ := at'
      obtain ⟨plane, small, eq⟩ := eq_plane pos'
      rw [own] at eq
      subst eq
      rw [staged.new small found]
      exact ⟨positive, UInt64.le_refl _⟩
    · rw [staged.kept tabled inside low fun own same => at' ⟨own, same⟩] at found
      obtain ⟨positive', older⟩ := area.versions pos' inside pg low r found
      exact ⟨positive', UInt64.le_trans older (UInt64.le_of_lt newer)⟩
  · rw [staged.kept tabled (groupPos_lt group inside) high fun _ => Nat.ne_of_gt above]
    rw [pos] at above
    exact free.empty area atGroup inside high (Nat.le_of_lt above)
  · rw [staged.kept tabled inside' (by decide) fun own => absurd own other] at found'
    by_cases first : v'.metaPos.page = 0
    · rw [← first] at found
      rw [staged.new inside found]
      exact UInt64.lt_of_le_of_lt (area.versions pos' inside' 0 (by decide) y found').2 newer
    · rw [staged.kept tabled (groupPos_lt group inside) (by decide) fun _ => Ne.symm first] at found
      rw [pos] at first
      obtain rfl := area.sameGroup atGroup first
      exact area.leads plane inside x found pos' inside' other y found'

/-- The new record wins as soon as a plane shows it. -/
theorem Staged.wins (shown : ∃ plane < ssdMaxPlanes, ∃ x,
    v'.record (b' * ssdMaxPlanes + plane) v'.metaPos.page = some x) : Wins v' b' v'.metaPos.page v'.metadata := by
  have area := staged.area tabled settled newer group atGroup free
  have metadata : v'.metadata = v1.metadata := staged.metadata
  have agree : ∀ plane < ssdMaxPlanes, ∀ x, v'.record (b' * ssdMaxPlanes + plane) v'.metaPos.page = some x →
      x = v'.metadata := by
    intro plane inside x found
    rw [metadata]
    exact staged.new inside found
  refine area.wins ?_ ?_ agree
  · by_cases first : v'.metaPos.page = 0
    · rwa [first] at shown
    · have later : (nextMetaPos ssdOk v.metaPos).page ≠ 0 := by rwa [← staged.pos tabled]
      obtain rfl := settled.area.sameGroup atGroup later
      obtain ⟨plane, inside, x, found⟩ := settled.headed (settled.area.later later).1
      rw [settled.area.atGroup] at found
      refine ⟨plane, inside, x, ?_⟩
      rw [staged.kept tabled (groupPos_lt group inside) (by decide) fun _ => Ne.symm first, found]
  · obtain ⟨plane, inside, x, found⟩ := shown
    exact ⟨plane, inside, by rw [found, agree plane inside x found]⟩

end Staged

end Record

/-! ## Old or new -/

/-- The search finds the record of a flush of `v0`, whatever the record in memory. -/
def Finds (type : FlushType) (v0 v : View) : Prop := ∃ r p b image,
  LastFlush type v0 { v with metadata := r, metaPos := p } b image

section Atomic

variable {may : May} {v0 v v1 v' : View} {b b' : Nat} {image : Mem} {type last : FlushType}

/-- The same, and it is the record in memory. -/
def Wrote (type : FlushType) (v0 v : View) : Prop := ∃ b image, LastFlush type v0 v b image

/-- Both copies of the blocks that the record in memory names hold the image of a flush of `v0`. -/
def Whole (v0 v : View) : Prop := ∃ image, ImageOf image v0 ∧ Stored v v.metadata image

theorem Wrote.finds (wrote : Wrote type v0 v) : Finds type v0 v := by
  obtain ⟨b, image, flushed⟩ := wrote
  exact ⟨v.metadata, v.metaPos, b, image, flushed⟩

/-- The positions that a flush of `v` may write tables to. -/
abbrev NextBlocks (v : View) : Nat → Prop :=
  Ring (tableCur v.metadata) (ssdMaxFlushTableRetry * tableBlockNum v.nodes.length)

/-- `v'` shows the records of `v1`, and the blocks that a flush of `v` does not write. -/
structure SameShown (v v1 v' : View) : Prop where
  clean : v'.Clean
  records : ∀ pos < reserveBlocksMeta, ∀ pg < ssdPagesPerBlock, v'.record pos pg = v1.record pos pg
  blocks : ∀ pos < reserveBlocksTotal, reserveBlocksMeta ≤ pos → ¬ NextBlocks v pos → ∀ pg < ssdPagesPerBlock,
    v'.page pos pg = v1.page pos pg ∧ v'.suspect pos pg = v1.suspect pos pg

theorem SameShown.of_frame (clean : v1.Clean) (frame : Frame (NextBlocks v) v1 v') : SameShown v v1 v' := by
  have out : ∀ pos < reserveBlocksMeta, ¬ NextBlocks v pos := fun pos inside member =>
    Nat.not_lt.2 (ring_range member) inside
  refine ⟨fun pos pg inside low => ?_, fun pos inside pg low => ?_, fun pos inside _ => frame.page pos inside⟩
  · rw [(frame.page pos (metaPos_inside inside) (out pos inside) pg low).2]
    exact clean pos pg inside low
  · exact View.record_frame frame (metaPos_inside inside) (out pos inside) low

theorem SameShown.of_pages (clean : v1.Clean) (same : SamePages v1 v') : SameShown v v1 v' := by
  refine ⟨fun pos pg inside low => ?_, fun pos inside pg low => ?_, fun pos inside _ _ => same pos inside⟩
  · rw [(same pos (metaPos_inside inside) pg low).2]
    exact clean pos pg inside low
  · exact View.record_congr (same pos (metaPos_inside inside) pg low).1

/-- A property of the records and table blocks that the card shows. -/
structure Visible (v : View) (Old : View → Prop) : Prop where
  clean : ∀ v1, Old v1 → v1.Clean
  keep : ∀ {v1 v'}, SameShown v v1 v' → Old v1 → Old v'

/-- The blocks that a flush may write are not those of the last record. -/
theorem LastFlush.apart (flushed : LastFlush last v0 v b image) (few : v.nodes.length ≤ ssdMaxIdNum) {pos : Nat}
    (named : Names v.metadata pos) : ¬ NextBlocks v pos := by
  intro member
  have five := tableBlockNum_le few
  refine flushed.snapshot.apart (Moved.refl _) (by decide) (member.mono ?_) named
  simp only [ssdMaxFlushTableRetry, maxMoves]
  omega

/-- The last record, with the blocks that it names. -/
theorem LastFlush.visible (flushed : LastFlush last v0 v b image) (few : v.nodes.length ≤ ssdMaxIdNum) :
    Visible v fun v' => HoldsRecord v' v.metadata image b v.metaPos.page := by
  refine ⟨fun v1 holds => holds.clean, fun {v1 v'} same holds => ⟨same.clean, ?_, fun k less => ?_, holds.list⟩⟩
  · exact holds.wins.congr fun g group pg low plane inside => same.records _ (groupPos_lt group inside) pg low
  · obtain ⟨inside, block⟩ := holds.copies k less
    have named : Names v.metadata (v.metadata.pos (k * 2)) := ⟨k, less, .inl rfl⟩
    refine ⟨inside, fun pg low => ?_⟩
    obtain ⟨page, suspect⟩ := same.blocks _ inside (flushed.snapshot.range named).1 (flushed.apart few named) pg low
    rw [PageHolds, page, suspect]
    exact block pg low

/-- No record. -/
theorem visible_none (v : View) : Visible v fun v' => v'.Clean ∧ NoRecords v' := by
  refine ⟨fun v1 old => old.1, fun {v1 v'} same old => ⟨same.clean, fun pos inside pg low => ?_⟩⟩
  rw [same.records pos inside pg low]
  exact old.2 pos inside pg low

/-- The blocks that the tables of a flush name. -/
theorem Tabled.stored (tabled : Tabled type v v1) (few : v.nodes.length ≤ ssdMaxIdNum) :
    Stored v1.moved v1.metadata v1.kbufFlush := ⟨tabled.snapshot few, tabled.blocks⟩

/-- The planes of a group are no table blocks. -/
theorem Stored.group {r : SsdMetadata} (stored : Stored v r image) (group : b < metaBitmapSize)
    (frame : Frame (fun pos => ∃ plane < ssdMaxPlanes, pos = b * ssdMaxPlanes + plane) v v') : Stored v' r image :=
  stored.frame (frame.mono fun pos at' => by
    obtain ⟨plane, inside, rfl⟩ := at'
    exact groupPos_lt group inside)

theorem Flushed.whole (flushed : Flushed type v v' b) (few : v.nodes.length ≤ ssdMaxIdNum)
    (group : b < metaBitmapSize) : Whole v v' := by
  obtain ⟨v1, tabled, attempt, -⟩ := flushed
  refine ⟨v1.kbufFlush, tabled.image, ?_⟩
  rw [attempt.metadata]
  exact (tabled.stored few).group group attempt.frame

section Cut

variable {Old : View → Prop} (flawless : Flawless may) (settled : Settled v b) (visible : Visible v Old)
  (few : v.nodes.length ≤ ssdMaxIdNum) (room : v.metadata.version.toNat + 1 < 2 ^ 64) (free : NextFree v)

include flawless settled visible few room free

/-- **Inside the writing of the record**: no plane shows the new one, or it is selected. -/
theorem AttemptStage.atomic (group : b' < metaBitmapSize)
    (atGroup : (nextMetaPos ssdOk v.metaPos).blockPos = b' * ssdMaxPlanes)
    (low : (nextMetaPos ssdOk v.metaPos).page < ssdPagesPerBlock) (tabled : Tabled type v v1) (old : Old v1)
    (stage : AttemptStage may v1.moved b' v') : Old v' ∨ Wrote type v v' ∧ Whole v v' := by
  have next := tabled.next
  have low1 : v1.moved.metaPos.page < ssdPagesPerBlock := by rwa [next]
  have newer := tabled.newer room
  have snapshot := tabled.snapshot few
  have empty : ∀ plane < ssdMaxPlanes, EmptyBlock v1.moved (b' * ssdMaxPlanes + plane) := by
    intro plane inside pg low' at'
    rw [next] at at'
    have from' : (nextMetaPos ssdOk v.metaPos).page ≤ pg := by
      rcases at' with first | rfl
      · rw [first]
        exact Nat.zero_le pg
      · exact Nat.le_refl _
    exact (tabled.records (groupPos_lt group inside) low').trans (free.empty settled.area atGroup inside low' from')
  have staged := stage.staged flawless group low1 tabled.valid (visible.clean v1 old) empty
  have frame := stage.frame group low1
  by_cases shown : ∃ plane < ssdMaxPlanes, ∃ x, v'.record (b' * ssdMaxPlanes + plane) v'.metaPos.page = some x
  · -- a plane shows the new record
    right
    have copies : FirstCopies v1.moved v1.metadata v1.kbufFlush := (tabled.copies few).keep (.of_flash rfl)
    have metadata : v'.metadata = v1.metadata := staged.metadata
    constructor
    · refine ⟨b', v1.kbufFlush, ⟨staged.clean, staged.wins tabled settled newer group atGroup free shown, ?_, ?_⟩,
        tabled.image, ?_, ?_, ?_, ?_⟩
      all_goals rw [metadata]
      · exact copies.frame frame fun _ => snapshot.offMeta group
      · exact tabled.list few
      · exact tabled.ids few
      · exact tabled.magic
      · exact snapshot
      · exact newer
    · refine ⟨v1.kbufFlush, tabled.image, ?_⟩
      rw [metadata]
      exact (tabled.stored few).group group frame
  · -- no page has changed what it shows
    refine .inl (visible.keep ⟨staged.clean, fun pos inside pg low' => ?_, fun pos inside above _ => ?_⟩ old)
    · by_cases at' : pos / ssdMaxPlanes = b' ∧ pg = v1.moved.metaPos.page
      · obtain ⟨own, rfl⟩ := at'
        obtain ⟨plane, small, eq⟩ := eq_plane pos
        rw [own] at eq
        subst eq
        have none : v'.record (b' * ssdMaxPlanes + plane) v1.moved.metaPos.page = none := by
          rw [← staged.metaPos, Option.eq_none_iff_forall_ne_some]
          exact fun x found => shown ⟨plane, small, x, found⟩
        rw [none]
        exact (empty plane small _ low1 (.inr rfl)).symm
      · exact staged.others pos inside pg low' fun own eq => at' ⟨own, eq⟩
    · refine frame.page pos inside ?_
      rintro ⟨plane, small, rfl⟩
      exact Nat.not_lt.2 above (groupPos_lt group small)

/-- **A flush is atomic**: at each of its actions the card shows what it showed, or the new record
with the blocks that it names. -/
theorem ssdSysFlush_atomic (old : Old v) (type : FlushType) :
    OnView (fun v' => Old v' ∨ Wrote type v v' ∧ Whole v v') may (ssdSysFlush type)
      (fun ret v' => ret = ssdOk ∧ Wrote type v v' ∧ Whole v v') v := by
  obtain ⟨b', group, atGroup, low⟩ := settled.next
  have blind : Blind Old (NextBlocks v) := fun {v1 _} frame old =>
    visible.keep (.of_frame (visible.clean v1 old) frame) old
  have blindImage : BlindImage Old := fun v1 _ old =>
    visible.keep (.of_pages (visible.clean v1 old) (.of_flash rfl)) old
  have done : ∀ v', Flushed type v v' b' → Wrote type v v' ∧ Whole v v' := fun v' new =>
    ⟨⟨b', Flushed.last settled few room atGroup new⟩, new.whole few group⟩
  refine (ssdSysFlush_flawless flawless type settled.opened few group atGroup low blindImage blind old
    (fun _ => .inl) ?_ fun v' new => .inr (done v' new)).weaken fun ret v' after => ⟨after.1, done v' after.2⟩
  intro v1 v' tabled stage
  exact stage.atomic flawless settled visible few room free group atGroup low tabled
    (blind tabled.frame (blindImage v v1.kbufFlush old))

end Cut

/-- The old record is still selected. -/
theorem LastFlush.still (flushed : LastFlush type v0 v b image)
    (holds : HoldsRecord v' v.metadata image b v.metaPos.page) : Finds type v0 v' :=
  ⟨v.metadata, v.metaPos, b, image, holds.keep (.of_flash rfl), flushed.image, flushed.ids, flushed.magic,
    flushed.snapshot, flushed.newer⟩

/-- An opening behind a loss of power. -/
theorem Finds.opens (flawless : Flawless may) (finds : Finds type v0 v)
    (placed : ∀ c < ssdMaxChannel, ChannelPlaced c (v0.hash c)) (off : PowerCycle v v1) :
    OnView always may ssdSysOpen (fun ret v2 => if type = .close then ret = ssdOk ∧ Restored v0 v2
      else ret = ssdError) v1 := by
  obtain ⟨r, p, b, image, flushed⟩ := finds
  have off' : PowerCycle { v with metadata := r, metaPos := p } v1 := ⟨off.pages, off.opened⟩
  refine (flushed.opens flawless placed off').weaken fun ret v2 after => ?_
  by_cases close : type = .close
  · rw [if_pos close] at after ⊢
    exact ⟨after.1, after.2.2⟩
  · rw [if_neg close] at after ⊢
    exact after

end Atomic

/-! ## Lives that are cut short -/

/-- The card before the last flush of a life. -/
structure BeforeFlush (may : May) (lib : Library) (es : List CardEvent) (type : FlushType) (d0 : Device) : Prop where
  last : lastFlush es = some type
  card : ∃ later e earlier, es = later ++ e :: earlier ∧ (∀ e' ∈ later, e'.flushed? = none) ∧
    e.flushed? = some type ∧ CardRun may lib earlier d0

section Lives

variable {may : May} {lib : Library} {es : List CardEvent} {d0 d d' d1 d2 : Device} {type : FlushType} {ret : Int}

end Lives

end FpgaSsd.Theory
