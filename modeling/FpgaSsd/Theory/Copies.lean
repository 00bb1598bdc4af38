/-
# Theory.Copies — reading the image back with one copy of a block lost

Every table block is stored twice. A copy is lost from some page on when its reads
fail from there on, with any error but the timer.

* `ssdSysFlush_stores` — after a flush that succeeded, both copies of every block
  that the record names hold the image, whatever failed on the way;
* `readTableCopies_spec` — one intact copy is enough: what was copied from the other
  one is overwritten;
* `one_copy_is_enough` — the image is read back with at most one copy of each block
  lost.
-/
import FpgaSsd.Theory.Snapshot

namespace FpgaSsd.Theory

open FpgaSsd.Lib FpgaSsd.Driver

set_option autoImplicit false

/-! ## The flush -/

/-- The position of the record is a page of a group. -/
structure InGroup (p : MetaPosition) : Prop where
  aligned : p.blockPos % ssdMaxPlanes = 0
  group : p.blockPos < reserveBlocksMeta
  page : p.page < ssdPagesPerBlock

theorem nextMetaPos_inGroup {p : MetaPosition} (ret : Int) (inGroup : InGroup p) :
    InGroup (nextMetaPos ret p) := by
  obtain ⟨aligned, group⟩ := findNewMetaBlock_aligned p.blockPos
  refine ⟨?_, ?_, nextMetaPos_page ret inGroup.page⟩
  · simp only [nextMetaPos]
    split
    · exact aligned
    split
    · exact aligned
    · exact inGroup.aligned
  · simp only [nextMetaPos]
    split
    · exact group
    split
    · exact group
    · exact inGroup.group

/-- The program changes pages of the metadata blocks only, and not the record in memory. -/
def OnMetadata (p : Drv Int) (v : View) : Prop :=
  OnView always anyOutcome p (fun _ v' => Frame MetaRegion v v' ∧ v'.metadata = v.metadata) v

section Metadata

variable {v : View} {pos pg : Nat}

theorem onMetadata_pure (ret : Int) : OnMetadata (.pure ret) v :=
  OnView.pure ⟨.refl _ v, rfl⟩

theorem onMetadata_seq {p : Drv Int} {next : Int → Drv Int} (first : OnMetadata p v)
    (rest : ∀ ret v', v'.metaPos = v.metaPos → OnMetadata (next ret) v') :
    OnMetadata (p >>= next) v := by
  refine OnView.seq first ?_
  rintro ret v1 ⟨frame, same⟩
  refine (rest ret v1 frame.metaPos).weaken ?_
  rintro ret v2 ⟨frame', same'⟩
  exact ⟨frame.trans frame', same'.trans same⟩

theorem onMetadata_block (inside : pos < reserveBlocksMeta) {v' : View} (frame : Frame (· = pos) v v')
    (same : v'.metadata = v.metadata) : Frame MetaRegion v v' ∧ v'.metadata = v.metadata := by
  refine ⟨frame.mono ?_, same⟩
  rintro _ rfl
  exact inside

theorem eraseOneReserveBlock_onMetadata (inside : pos < reserveBlocksMeta) :
    OnMetadata (eraseOneReserveBlock pos) v := by
  refine (eraseOneReserveBlock_spec (fun _ _ _ => trivial) trivial (metaPos_inside inside)).weaken ?_
  rintro ret v' ⟨o, -, -, rfl⟩
  exact onMetadata_block inside (frame_erased (metaPos_inside inside)) View.sameRest_erased.metadata

theorem writeOneReservePage_onMetadata (inside : pos < reserveBlocksMeta) (low : pg < ssdPagesPerBlock) :
    OnMetadata (writeOneReservePage pos pg) v := by
  refine (writeOneReservePage_spec (fun _ _ _ _ _ => trivial) trivial (metaPos_inside inside) low).weaken ?_
  rintro ret v' ⟨o, kbuf, -, -, -, rfl⟩
  exact onMetadata_block inside (frame_written (metaPos_inside inside) low) View.sameRest_written.metadata

theorem readOneReservePage_onMetadata (inside : pos < reserveBlocksMeta) (low : pg < ssdPagesPerBlock) :
    OnMetadata (readOneReservePage pos pg) v := by
  refine (readOneReservePage_spec (fun _ _ _ => trivial) trivial (metaPos_inside inside) low).weaken ?_
  rintro ret v' ⟨o, -, -, rfl, -⟩
  exact onMetadata_block inside (frame_read (metaPos_inside inside) low) View.sameRest_read.metadata

theorem writeMetaPage_onMetadata {plane : Nat} (less : plane < ssdMaxPlanes)
    (inGroup : InGroup v.metaPos) : OnMetadata (writeMetaPage plane) v := by
  have inside : v.metaPos.blockPos + plane < reserveBlocksMeta := by
    have aligned := inGroup.aligned
    have group := inGroup.group
    simp only [ssdMaxPlanes, reserveBlocksMeta] at *
    omega
  rw [writeMetaPage]
  refine OnView.seq (OnView.getMetaPos trivial) ?_
  rintro p v' ⟨rfl, rfl⟩
  split
  · exact onMetadata_pure _
  have erase : OnMetadata (eraseIfFirstPage (v'.metaPos.blockPos + plane) v'.metaPos.page) v' := by
    rw [eraseIfFirstPage]
    split
    · exact eraseOneReserveBlock_onMetadata inside
    · exact onMetadata_pure _
  apply onMetadata_seq erase
  intro ret v1 same1
  split
  · exact onMetadata_pure _
  apply onMetadata_seq (writeOneReservePage_onMetadata inside inGroup.page)
  intro ret v2 same2
  split
  · exact onMetadata_pure _
  · exact readOneReservePage_onMetadata inside inGroup.page

theorem writeMetaPages_onMetadata (planes : List Nat) (inside : ∀ plane ∈ planes, plane < ssdMaxPlanes)
    (n : Nat) (inGroup : InGroup v.metaPos) : OnView always anyOutcome (writeMetaPages planes n)
      (fun _ v' => Frame MetaRegion v v' ∧ v'.metadata = v.metadata) v := by
  induction planes generalizing v n with
  | nil => exact OnView.pure ⟨.refl _ v, rfl⟩
  | cons plane rest ih =>
      refine OnView.seq (writeMetaPage_onMetadata (inside plane (List.mem_cons_self ..)) inGroup) ?_
      rintro ret v1 ⟨frame, same⟩
      refine (ih (fun other member => inside other (List.mem_cons_of_mem _ member)) _
        (by rwa [frame.metaPos])).weaken ?_
      rintro n v2 ⟨frame', same'⟩
      exact ⟨frame.trans frame', same'.trans same⟩

/-- **The record of a flush** changes pages of the metadata blocks only. -/
theorem flushMetadata_onMetadata (inGroup : InGroup v.metaPos) :
    OnView always anyOutcome flushMetadata (fun _ v' =>
      Frame MetaRegion { v with metaPos := v'.metaPos } v' ∧ v'.metadata = v.metadata) v := by
  have loop : ∀ n ret v, InGroup v.metaPos → OnView always anyOutcome (flushMetadataLoop n ret)
      (fun _ v' => Frame MetaRegion { v with metaPos := v'.metaPos } v' ∧ v'.metadata = v.metadata) v := by
    intro n
    induction n with
    | zero => exact fun ret v _ => OnView.pure ⟨.refl _ v, rfl⟩
    | succ n ih =>
        intro last v inGroup
        have moved := nextMetaPos_inGroup last inGroup
        rw [flushMetadataLoop, findNewMetaPos]
        refine OnView.seq (M := fun _ v' => v' = { v with metaPos := nextMetaPos last v.metaPos }) ?_ ?_
        · refine OnView.seq (OnView.modMetaPos trivial _) ?_
          rintro _ v' ⟨rfl, -⟩
          exact OnView.pure rfl
        rintro ret _ rfl
        split
        · exact OnView.pure ⟨.refl _ _, rfl⟩
        refine OnView.seq (M := fun _ v' => Frame MetaRegion { v with metaPos := v'.metaPos } v' ∧
          v'.metadata = v.metadata ∧ InGroup v'.metaPos) ?_ ?_
        · rw [writeMetadataPageDuplicate]
          refine OnView.seq (writeMetaPages_onMetadata (v := { v with metaPos := nextMetaPos last v.metaPos })
            _ (fun plane member => List.mem_range.1 member) 0 moved) ?_
          rintro n v' ⟨frame, same⟩
          have samePos : v'.metaPos = nextMetaPos last v.metaPos := frame.metaPos
          refine OnView.pure ⟨?_, same, ?_⟩
          · rwa [samePos]
          · rwa [samePos]
        rintro ret v1 ⟨frame, same, inGroup1⟩
        split
        · exact OnView.pure ⟨frame, same⟩
        refine (ih ret v1 inGroup1).weaken ?_
        rintro ret v2 ⟨frame', same'⟩
        refine ⟨?_, same'.trans same⟩
        have shifted : Frame MetaRegion { v with metaPos := v2.metaPos } { v1 with metaPos := v2.metaPos } :=
          ⟨frame.hash, frame.space, frame.kbufFlush, rfl, frame.opened, frame.addrTable,
            frame.eraseTable, frame.data, frame.page⟩
        exact shifted.trans frame'
  exact loop _ _ v inGroup

end Metadata

/-- Both copies of every block that the record names hold the image, in the table region. -/
structure Stored (v : View) (m : SsdMetadata) (image : Mem) : Prop where
  snapshot : Snapshot m
  blocks : TablesHold v m image

theorem Stored.frame {v v' : View} {m : SsdMetadata} {image : Mem} (stored : Stored v m image)
    (frame : Frame MetaRegion v v') : Stored v' m image := by
  refine ⟨stored.snapshot, fun k less pos named => ?_⟩
  obtain ⟨low, high⟩ := stored.snapshot.range ⟨k, less, named⟩
  exact (stored.blocks k less pos named).frame frame high (Nat.not_lt.2 low)

/-- What holds for every outcome holds for those of `may`. -/
theorem OnView.ofAny {α : Type} {must : View → Prop} {may : May} {p : Drv α} {post : α → View → Prop} {v : View}
    (triple : OnView must anyOutcome p post v) : OnView must may p post v := fun d shows =>
  Safe.relax (triple d shows) id (fun _ _ => id) fun _ _ _ _ => trivial

/-- What the image of a flush has of the card: all ids, and the tables of the channels where
the reads of these took effect. -/
structure ImageShows (may : May) (image : Mem) (v : View) : Prop where
  ids : IdsIn image v
  all : EffectiveTables may → ImageOf image v

/-- The record is one of the tables of `v`, which are not too many. -/
structure RecordOf (type : FlushType) (v : View) (r : SsdMetadata) : Prop where
  few : v.nodes.length ≤ ssdMaxIdNum
  made : ∃ now m, r = flushed v.nodes.length type now m

/-- **What a flush that succeeded has stored**, for every outcome of its commands. -/
theorem ssdSysFlush_stores {may : May} {v : View} (type : FlushType) (opened : v.opened = true)
    (inGroup : InGroup v.metaPos) :
    OnView always may (ssdSysFlush type) (fun ret v' => ret = ssdOk →
      ImageShows may v'.kbufFlush v ∧ Stored v' v'.metadata v'.kbufFlush ∧ RecordOf type v v'.metadata) v := by
  have blindImage : BlindImage always := fun _ _ _ => trivial
  rw [ssdSysFlush]
  refine OnView.seq (OnView.getOpened trivial) ?_
  rintro flag v' ⟨rfl, rfl⟩
  rw [opened, if_neg (by decide)]
  refine OnView.seq (OnView.silent (a := .downFlush) trivial trivial) ?_
  rintro _ v rfl
  refine OnView.seq (M := fun ret v' => ret = ssdOk →
    ImageShows may v'.kbufFlush v ∧ Stored v' v'.metadata v'.kbufFlush ∧ RecordOf type v v'.metadata) ?_ ?_
  · rw [ssdSysFlushBody]
    refine OnView.seq (M := fun _ v' => ∃ image, v' = v.setImage image) ?_ ?_
    · refine (OnView.modFlush trivial _).weaken fun _ v' eq => ?_
      exact ⟨_, eq⟩
    rintro _ _ ⟨image, rfl⟩
    refine OnView.seq (copyRamTables_spec blindImage trivial) ?_
    rintro found _ ⟨image, rfl, tables, bad, -⟩
    cases found with
    | some ret => exact OnView.pure fun ok => absurd ok (bad ret rfl)
    | none =>
        refine OnView.seq (copyIdHash_spec blindImage trivial) ?_
        rintro n _ ⟨rfl, rfl⟩
        have imaged : ImageShows may (putNodes v.nodes 0 image) v :=
          ⟨idsIn_putNodes image, fun effective => imageOf_putNodes (tables effective rfl)⟩
        refine OnView.seq (flushTabledata_spec (v := v.setImage (putNodes v.nodes 0 image)) v.nodes.length
          type (fun _ _ => trivial) trivial) ?_
        rintro ret v2 ⟨frame, ⟨m, j, off, placed, -, -, answer⟩, -⟩
        obtain ⟨rfl, few, rfl, ⟨now, record⟩, blocks⟩ | ⟨bad, -⟩ := answer
        swap
        · rw [if_pos bad]
          exact OnView.pure fun ok => absurd ok bad
        rw [if_neg (by decide)]
        have image2 : v2.kbufFlush = putNodes v.nodes 0 image := frame.kbufFlush
        have stored : Stored v2 v2.metadata v2.kbufFlush := by
          refine ⟨?_, by rwa [image2]⟩
          rw [record]
          exact snapshot_flushed type now few placed
        have samePos : v2.metaPos = v.metaPos := frame.metaPos
        refine ((flushMetadata_onMetadata (by rwa [samePos])).ofAny).weaken ?_
        rintro ret v3 ⟨frame3, same3⟩ _
        have image3 : v3.kbufFlush = v2.kbufFlush := frame3.kbufFlush
        rw [same3, image3]
        have shifted : Stored { v2 with metaPos := v3.metaPos } v2.metadata v2.kbufFlush :=
          ⟨stored.snapshot, stored.blocks⟩
        exact ⟨by rwa [image2], shifted.frame frame3, few, now, m, record⟩
  · rintro ret v2 holds
    refine OnView.seq (OnView.silent (a := .upFlush) trivial trivial) ?_
    rintro _ v3 rfl
    exact OnView.pure holds

/-! ## Reading one copy -/

/-- The pages from which on a copy is lost, by its position. -/
abbrev Losses := Nat → Option Nat

def LostPage (lost : Losses) (pos pg : Nat) : Prop := ∃ start, lost pos = some start ∧ start ≤ pg

/-- Reads of lost pages fail, but not with the timer; all others succeed where the
page can be read. -/
def readsExcept (lost : Losses) : May := fun d a o =>
  o.failed = false ∧ ∀ pos < reserveBlocksTotal, ∀ pg < ssdPagesPerBlock,
    a = .chan (posChannel pos) .await →
    (d.ch (posChannel pos)).outstanding = some (tableCmd (physBlock pos) pg flagReadtablesFromFlash) →
    (LostPage lost pos pg → o.ret ≠ .ok ∧ o.ret ≠ .timeout) ∧
    (¬ LostPage lost pos pg → o.ret = .ok ∨ Unreadable (d.ch (posChannel pos)))

/-- The intact pages of a copy hold the bytes of `src` from `start` on. -/
def CopyHolds (lost : Losses) (v : View) (pos : Nat) (src : Mem) (start : Nat) : Prop :=
  ∀ pg < ssdPagesPerBlock, ¬ LostPage lost pos pg →
    PageHolds v pos pg src (start + pg * ssdPageSize)

/-- Reading changes the buffer of the image only, inside one range, and clears marks. -/
structure Reads (low high : Nat) (v v' : View) : Prop where
  metadata : v'.metadata = v.metadata
  page : ∀ pos pg, v'.page pos pg = v.page pos pg
  clean : ∀ pos < reserveBlocksTotal, ∀ pg < ssdPagesPerBlock, v.suspect pos pg = false →
    v'.suspect pos pg = false
  outside : ∀ i, i < low ∨ high ≤ i → v'.kbufFlush i = v.kbufFlush i

theorem Reads.refl (low high : Nat) (v : View) : Reads low high v v :=
  ⟨rfl, fun _ _ => rfl, fun _ _ _ _ => id, fun _ _ => rfl⟩

theorem Reads.trans {low high : Nat} {v v' v'' : View} (first : Reads low high v v')
    (second : Reads low high v' v'') : Reads low high v v'' :=
  ⟨second.metadata.trans first.metadata, fun pos pg => (second.page pos pg).trans (first.page pos pg),
    fun pos inside pg low fine => second.clean pos inside pg low (first.clean pos inside pg low fine),
    fun i out => (second.outside i out).trans (first.outside i out)⟩

section Reading

variable {lost : Losses} {v : View} {pos pg start offset : Nat} {src : Mem} {α : Type}

theorem CopyHolds.reads {low high : Nat} {v' : View} (holds : CopyHolds lost v pos src start)
    (inside : pos < reserveBlocksTotal) (reads : Reads low high v v') :
    CopyHolds lost v' pos src start := by
  intro pg small intact
  obtain ⟨fine, m, found, same⟩ := holds pg small intact
  refine ⟨reads.clean pos inside pg small fine, m, ?_, same⟩
  rw [reads.page, found]

theorem reads_read {low high : Nat} {o : Outcome} (inside : pos < reserveBlocksTotal)
    (small : pg < ssdPagesPerBlock) : Reads low high v (v.read pos pg o) := by
  have rest : View.SameRest v (v.read pos pg o) := View.sameRest_read
  refine ⟨rest.metadata, fun _ _ => View.page_read, fun pos' inside' pg' small' fine => ?_, fun i _ => ?_⟩
  · rw [View.suspect_read inside inside' small small', fine]
    exact ite_self _
  · rw [rest.kbufFlush]

/-- One page: its bytes are in the DMA buffer, or it is lost. -/
theorem ssdReadTabledata_spec (inside : pos < reserveBlocksTotal) (small : pg < ssdPagesPerBlock)
    (holds : ¬ LostPage lost pos pg → PageHolds v pos pg src start) {next : Int → Drv α}
    {post : α → View → Prop}
    (found : ∀ d, view d = v → (∀ i < ssdPageSize, (d.ch (posChannel pos)).kbuf i = src (start + i)) →
      OnDevice always (readsExcept lost) (next ssdOk) post d)
    (missed : ∀ ret o, LostPage lost pos pg → ret ≠ ssdOk → ret ≠ -errTimeout →
      OnView always (readsExcept lost) (next ret) post (v.read pos pg o)) :
    OnView always (readsExcept lost) (ssdReadTabledata pos pg >>= next) post v := by
  rintro d rfl
  rw [ssdReadTabledata, physBlock_mod inside]
  refine Safe.seq (solo_steady _ _) (OnView.op trivial) ?_
  rintro ret d' ⟨o, kbuf, flash, allowed, done, rfl, rfl⟩
  rw [ofWord_tableCmd small (by decide)] at done
  simp only [Flash.exec] at done
  obtain ⟨-, answers⟩ := allowed
  obtain ⟨fails, succeeds⟩ := answers pos inside pg small rfl (by rw [Device.setCh_ch_same])
  by_cases isLost : LostPage lost pos pg
  · obtain ⟨failed, notTimeout⟩ := fails isLost
    rw [if_neg failed] at done
    cases done
    refine missed o.ret.toInt o isLost (fun eq => failed (ChannelRet.toInt_eq_zero.1 eq))
      (fun eq => notTimeout (ChannelRet.toInt_eq_timeout.1 eq)) _ ?_
    rw [View.read, if_neg failed]
    exact view_setCh_flash rfl rfl
  · obtain ⟨fine, m, content, bytes⟩ := holds isLost
    simp only [View.page, View.suspect, view] at content fine
    have ok : o.ret = .ok := by
      rcases succeeds isLost with ok | ⟨cmd, issued, -, unreadable⟩
      · exact ok
      · rw [Device.setCh_ch_same] at issued unreadable
        cases issued
        rw [ofWord_tableCmd small (by decide)] at unreadable
        simp only [content, fine] at unreadable
        simp at unreadable
    rw [if_pos ok, content, fine] at done
    cases done
    rw [ok]
    refine found _ (view_setCh rfl rfl rfl) fun i less => ?_
    rw [Device.setCh_ch_same]
    have copied := @copyBytes_inside (d.ch (posChannel pos)).kbuf m 0 0 ssdPageSize i less
    rw [Nat.zero_add] at copied
    exact copied.trans (bytes i less)

/-- The bytes of a block so far, in the buffer from `offset` on. -/
def Copied (v : View) (offset : Nat) (src : Mem) (start n : Nat) : Prop :=
  ∀ i < n, v.kbufFlush (offset + i) = src (start + i)

/-- **One copy**: it is read whole, or it is lost and no timeout. -/
theorem readTableCopy_spec (inside : pos < reserveBlocksTotal) (holds : CopyHolds lost v pos src start) :
    OnView always (readsExcept lost) (readTableCopy pos offset) (fun found v' =>
      Reads offset (offset + ssdBlockSize) v v' ∧
      (found = none → Copied v' offset src start ssdBlockSize) ∧
      ∀ ret, found = some ret → ret ≠ ssdOk ∧ ret ≠ -errTimeout ∧ lost pos ≠ none) v := by
  refine (OnView.forRange (I := fun k v' => Reads offset (offset + ssdBlockSize) v v' ∧
      Copied v' offset src start (k * ssdPageSize))
    (R := fun ret v' => Reads offset (offset + ssdBlockSize) v v' ∧ ret ≠ ssdOk ∧
      ret ≠ -errTimeout ∧ lost pos ≠ none) ?_ ?_).weaken ?_
  · rintro k v1 low ⟨reads, copied⟩
    refine ssdReadTabledata_spec inside low (holds.reads inside reads k low) ?_ ?_
    · intro d shows bytes
      rw [if_neg (by decide)]
      refine Safe.seq (solo_steady _ _) (OnView.readKbuf trivial) ?_
      rintro kbuf d' ⟨rfl, same⟩
      refine OnView.seq (v := v1) (OnView.modFlush trivial _) ?_ d' (same.trans shows)
      rintro _ v2 rfl
      refine OnView.pure ⟨reads.trans ⟨rfl, fun _ _ => rfl, fun _ _ _ _ => id, fun i out => ?_⟩, ?_⟩
      · simp only [ssdPagesPerBlock] at low
        refine copyBytes_outside ?_
        simp only [ssdBlockSize, ssdPageSize] at *
        omega
      · intro i less
        by_cases new : k * ssdPageSize ≤ i
        · have shift : offset + i = offset + ssdPageSize * k + (i - k * ssdPageSize) := by
            simp only [ssdPageSize] at *
            omega
          have few : i - k * ssdPageSize < ssdPageSize := by
            simp only [ssdPageSize] at *
            omega
          have byte := @copyBytes_inside v1.kbufFlush (d.ch (posChannel pos)).kbuf
            (offset + ssdPageSize * k) 0 ssdPageSize _ few
          simp only
          rw [shift, byte, Nat.zero_add, bytes _ few]
          congr 1
          omega
        · rw [← copied i (Nat.lt_of_not_le new)]
          refine copyBytes_outside (.inl ?_)
          simp only [ssdPageSize] at *
          omega
    · intro ret o isLost bad notTimeout
      rw [if_pos bad]
      refine OnView.pure ⟨reads.trans (reads_read inside low), bad, notTimeout, ?_⟩
      obtain ⟨first, eq, -⟩ := isLost
      rw [eq]
      exact Option.some_ne_none first
  · exact ⟨.refl _ _ v, fun i no => absurd no (by omega)⟩
  · intro found v' after
    cases found with
    | none => exact ⟨after.1, fun _ => after.2, fun ret no => nomatch no⟩
    | some ret =>
        refine ⟨after.1, fun no => (nomatch no), fun ret' eq => ?_⟩
        cases eq
        exact after.2

/-- Both copies of a block of the record. -/
structure BlockKept (lost : Losses) (v : View) (m : SsdMetadata) (k : Nat) (image : Mem) : Prop where
  inside : ∀ i < tableDuplicate, m.pos (k * tableDuplicate + i) < reserveBlocksTotal
  holds : ∀ i < tableDuplicate, CopyHolds lost v (m.pos (k * tableDuplicate + i)) image (k * ssdBlockSize)
  one : lost (m.pos (k * tableDuplicate)) = none ∨ lost (m.pos (k * tableDuplicate + 1)) = none

/-- **Both copies**: one that is not lost is enough. -/
theorem readTableCopies_spec {k : Nat} {image : Mem} (kept : BlockKept lost v v.metadata k image) :
    OnView always (readsExcept lost) (readTableCopies k (List.range tableDuplicate)) (fun found v' =>
      found = none ∧ Reads (ssdBlockSize * k) (ssdBlockSize * k + ssdBlockSize) v v' ∧
      Copied v' (ssdBlockSize * k) image (k * ssdBlockSize) ssdBlockSize) v := by
  rw [show List.range tableDuplicate = [0, 1] from rfl, readTableCopies]
  refine OnView.seq (OnView.getMeta trivial) ?_
  rintro record v ⟨rfl, rfl⟩
  refine OnView.seq (readTableCopy_spec (kept.inside 0 (by decide)) (kept.holds 0 (by decide))) ?_
  rintro found v1 ⟨reads, done, bad⟩
  cases found with
  | none => exact OnView.pure ⟨rfl, reads, done rfl⟩
  | some ret =>
      obtain ⟨-, notTimeout, isLost⟩ := bad ret rfl
      simp only
      rw [if_neg notTimeout, readTableCopies]
      refine OnView.seq (OnView.getMeta trivial) ?_
      rintro record v1 ⟨rfl, rfl⟩
      rw [reads.metadata]
      have second := kept.inside 1 (by decide)
      refine OnView.seq (readTableCopy_spec second ((kept.holds 1 (by decide)).reads second reads)) ?_
      rintro found v2 ⟨reads', done', bad'⟩
      cases found with
      | none => exact OnView.pure ⟨rfl, reads.trans reads', done' rfl⟩
      | some ret' =>
          obtain ⟨-, -, isLost'⟩ := bad' ret' rfl
          exact absurd kept.one (not_or.2 ⟨isLost, isLost'⟩)

theorem BlockKept.reads {k low high : Nat} {m : SsdMetadata} {image : Mem} {v' : View}
    (kept : BlockKept lost v m k image) (reads : Reads low high v v') : BlockKept lost v' m k image :=
  ⟨kept.inside, fun i less => (kept.holds i less).reads (kept.inside i less) reads, kept.one⟩

/-- **All blocks**: the image up to the block, and from there on to the last one. -/
theorem readFlushLoop_spec {image : Mem} (fuel k : Nat) (enough : v.metadata.blockNum.toNat < fuel + k)
    (kept : ∀ j < v.metadata.blockNum.toNat, BlockKept lost v v.metadata j image)
    (copied : ∀ i < k * ssdBlockSize, v.kbufFlush i = image i) :
    OnView always (readsExcept lost) (readFlushLoop fuel k) (fun ret v' => ret = ssdOk ∧
      ∀ i < v.metadata.blockNum.toNat * ssdBlockSize, v'.kbufFlush i = image i) v := by
  induction fuel generalizing v k with
  | zero =>
      refine OnView.pure ⟨rfl, fun i less => copied i (Nat.lt_of_lt_of_le less ?_)⟩
      exact Nat.mul_le_mul_right _ (by omega)
  | succ fuel ih =>
      rw [readFlushLoop]
      refine OnView.seq (OnView.getMeta trivial) ?_
      rintro record v ⟨rfl, rfl⟩
      split
      · rename_i more
        refine OnView.seq (readTableCopies_spec (kept k more)) ?_
        rintro found v1 ⟨rfl, reads, block⟩
        have same := reads.metadata
        refine (ih (v := v1) (k + 1) (by rw [same]; omega) ?_ ?_).weaken ?_
        · rw [same]
          exact fun j less => (kept j less).reads reads
        · intro i less
          by_cases new : k * ssdBlockSize ≤ i
          · have few : i - ssdBlockSize * k < ssdBlockSize := by
              simp only [ssdBlockSize] at *
              omega
            have byte := block _ few
            rwa [show ssdBlockSize * k + (i - ssdBlockSize * k) = i by simp only [ssdBlockSize] at *; omega,
              show k * ssdBlockSize + (i - ssdBlockSize * k) = i by simp only [ssdBlockSize] at *; omega]
              at byte
          · rw [reads.outside i (.inl (by simp only [ssdBlockSize] at *; omega))]
            exact copied i (Nat.lt_of_not_le new)
        · rw [same]
          exact fun _ _ => id
      · rename_i done
        refine OnView.pure ⟨rfl, fun i less => copied i (Nat.lt_of_lt_of_le less ?_)⟩
        exact Nat.mul_le_mul_right _ (Nat.le_of_not_lt done)

end Reading

/-! ## A flush and a read -/

theorem tableCmd_inj {pos pos' pg pg' flag : Nat} (inside : pos < reserveBlocksTotal)
    (inside' : pos' < reserveBlocksTotal) (low : pg < ssdPagesPerBlock) (low' : pg' < ssdPagesPerBlock)
    (small : flag < 32) (channel : posChannel pos = posChannel pos')
    (same : tableCmd (physBlock pos) pg flag = tableCmd (physBlock pos') pg' flag) :
    pos = pos' ∧ pg = pg' := by
  have start : pageAddr pos pg = pageAddr pos' pg' := by
    have read := congrArg Command.ofWord same
    rw [ofWord_tableCmd low small, ofWord_tableCmd low' small] at read
    exact congrArg Command.start read
  exact pageAddr_inj inside inside' channel low low' start

theorem readsExcept_live (lost : Losses) : Live (readsExcept lost) := by
  refine ⟨fun d c cmd issued => ?_, fun d a other => ⟨succeeds, ⟨rfl, ?_⟩, rfl⟩⟩
  · by_cases hit : ∃ pos pg, pos < reserveBlocksTotal ∧ pg < ssdPagesPerBlock ∧ LostPage lost pos pg ∧
        c = posChannel pos ∧ cmd = tableCmd (physBlock pos) pg flagReadtablesFromFlash
    · obtain ⟨pos, pg, inside, low, isLost, rfl, rfl⟩ := hit
      refine ⟨{ succeeds with ret := .hardware 0 }, ⟨rfl, ?_⟩, ?_⟩
      · intro pos' inside' pg' low' eq issued'
        have channel : posChannel pos = posChannel pos' := (Act.chan.inj eq).1
        rw [← channel, issued] at issued'
        obtain ⟨rfl, rfl⟩ := tableCmd_inj inside inside' low low' (by decide) channel
          (Option.some.inj issued')
        exact ⟨fun _ => ⟨by simp, by simp⟩, fun intact => absurd isLost intact⟩
      · rw [ofWord_tableCmd low (by decide)]
        rfl
    · obtain ⟨o, ⟨fine, -, answers⟩, done⟩ := noFailure_live.command d c cmd issued
      refine ⟨o, ⟨fine, ?_⟩, done⟩
      intro pos inside pg low eq issued'
      obtain rfl := (Act.chan.inj eq).1
      rw [issued] at issued'
      refine ⟨fun isLost => absurd ?_ hit, fun _ => (answers _ rfl).imp id And.left⟩
      exact ⟨pos, pg, inside, low, isLost, rfl, Option.some.inj issued'⟩
  · exact fun pos _ _ _ eq => absurd eq (other _)

/-- **One lost copy never loses the tables.** After a flush that succeeded, with any
failures on the way, and with at most one copy of each block of its record lost from
some page on, the read back answers with success and restores the image. That image has all
ids of the card, and its tables where their reads took effect as they say. -/
theorem one_copy_is_enough {d d1 d2 : Device} {type : FlushType} (history : FlushHistory d)
    (opened : d.opened = true) (flush : Run anyOutcome (ssdSysFlush type) d ssdOk d1) (lost : Losses)
    (one : ∀ k < d1.metadata.blockNum.toNat,
      lost (d1.metadata.pos (k * 2)) = none ∨ lost (d1.metadata.pos (k * 2 + 1)) = none)
    (pages : ∀ pos, Names d1.metadata pos → ∀ pg < ssdPagesPerBlock, ¬ LostPage lost pos pg →
      (view d2).page pos pg = (view d1).page pos pg ∧ (view d2).suspect pos pg = (view d1).suspect pos pg)
    (metadata : d2.metadata = d1.metadata) (idle : Mirrors Held.none d2) :
    (IdsIn d1.kbufFlush (view d) ∧
      (Run effectiveTables (ssdSysFlush type) d ssdOk d1 → ImageOf d1.kbufFlush (view d))) ∧
    (∃ ret d3, Run (readsExcept lost) ssdReadFlushTabledata d2 ret d3) ∧
    ∀ ret d3, Run (readsExcept lost) ssdReadFlushTabledata d2 ret d3 → ret = ssdOk ∧
      ∀ i < d1.metadata.blockNum.toNat * ssdBlockSize, d3.kbufFlush i = d1.kbufFlush i := by
  have reserved := history.reserved
  have inGroup : InGroup (view d).metaPos := ⟨reserved.aligned, reserved.group, reserved.page⟩
  obtain ⟨imaged, stored, -⟩ := (ssdSysFlush_stores (v := view d) type opened inGroup).runs flush rfl
  have tables : Run effectiveTables (ssdSysFlush type) d ssdOk d1 → ImageOf d1.kbufFlush (view d) := fun flush =>
    ((ssdSysFlush_stores (v := view d) type opened inGroup).runs flush rfl).1.all fun _ _ _ allowed => allowed
  refine ⟨⟨imaged.ids, tables⟩, ?_, fun ret d3 run => ?_⟩
  · obtain ⟨ret, d3, run, -⟩ := exists_run (readsExcept_live lost) idle
      (ssdReadFlushTabledata_locks free_none.plain)
    exact ⟨ret, d3, run⟩
  · have sameMeta : (view d2).metadata = (view d1).metadata := metadata
    have kept : ∀ k < (view d2).metadata.blockNum.toNat,
        BlockKept lost (view d2) (view d2).metadata k d1.kbufFlush := by
      rw [sameMeta]
      intro k less
      have named : ∀ i < tableDuplicate, (view d1).metadata.pos (k * tableDuplicate + i) =
          (view d1).metadata.pos (k * 2) ∨ (view d1).metadata.pos (k * tableDuplicate + i) =
          (view d1).metadata.pos (k * 2 + 1) := by
        intro i small
        simp only [tableDuplicate] at small ⊢
        have two : i = 0 ∨ i = 1 := by omega
        rcases two with rfl | rfl
        · exact .inl rfl
        · exact .inr rfl
      refine ⟨fun i small => (stored.snapshot.range ⟨k, less, named i small⟩).2, fun i small pg low intact => ?_,
        one k less⟩
      obtain ⟨samePage, sameMark⟩ := pages _ ⟨k, less, named i small⟩ pg low intact
      have holds := stored.blocks k less _ (named i small) pg low
      rwa [PageHolds, samePage, sameMark]
    have loop := readFlushLoop_spec (v := view d2) 65536 0 (UInt16.toNat_lt _) kept
      (fun i no => absurd no (by omega))
    obtain ⟨ok, restored⟩ := loop.runs run
    refine ⟨ok, ?_⟩
    rw [sameMeta] at restored
    exact restored

/-- The first flush of a card, with the first copy of every block lost at once. -/
theorem first_flush_one_copy : ∃ d1 lost, Run anyOutcome (ssdSysFlush .normal) newCard ssdOk d1 ∧
    (∀ k < d1.metadata.blockNum.toNat, lost (d1.metadata.pos (k * 2)) = some 0) ∧
    ∀ ret d3, Run (readsExcept lost) ssdReadFlushTabledata d1 ret d3 → ret = ssdOk ∧
      ∀ i < d1.metadata.blockNum.toNat * ssdBlockSize, d3.kbufFlush i = d1.kbufFlush i := by
  obtain ⟨d1, run, card⟩ := first_snapshot
  have history : Snapshots (some d1.metadata) 0 d1 := .durable (.init _ rfl rfl) rfl run
  obtain ⟨snapshot, -⟩ := history.kept.snapshot _ rfl
  let lost : Losses := fun pos => if pos < reserveBlocksTotal - tableBitmapSize then some 0 else none
  refine ⟨d1, lost, run, fun k less => if_pos (snapshot.first k less).2, ?_⟩
  refine (one_copy_is_enough newCard_history rfl run lost (fun k less => .inr ?_)
    (fun _ _ _ _ _ => ⟨rfl, rfl⟩) rfl card.idle).2.2
  obtain ⟨low, high⟩ := snapshot.first k less
  refine if_neg ?_
  rw [snapshot.second k less]
  simp only [reserveBlocksMeta, reserveBlocksTotal, tableBitmapSize] at *
  omega

end FpgaSsd.Theory
