/-
# Theory.TableBlocks — writing the image to the table blocks

The image in `kbuf_flush` goes to the ring of positions 40 to 459, each block
twice. For every outcome the pages of other positions are as they were (`Frame`),
and a block that was written and read back without an error holds the image
(`BlockHolds`).

* `writeTabledataBlock_spec`, `retryWriteTabledataBlock_spec` — one block, with
  its retries;
* `flushTableBlocks_spec` — all blocks of the image, each at one of the next five
  positions of the ring behind the one before (`Placed`).
-/
import FpgaSsd.Theory.Reserve

namespace FpgaSsd.Theory

open FpgaSsd.Lib FpgaSsd.Driver

set_option autoImplicit false

/-! ## Frames -/

/-- Everything apart from the pages of the positions in `P` and the metadata record. -/
structure Frame (P : Nat → Prop) (v v' : View) : Prop where
  hash : v'.hash = v.hash
  space : v'.space = v.space
  kbufFlush : v'.kbufFlush = v.kbufFlush
  metaPos : v'.metaPos = v.metaPos
  opened : v'.opened = v.opened
  addrTable : ∀ c, (v'.flash c).addrTable = (v.flash c).addrTable
  eraseTable : ∀ c, (v'.flash c).eraseTable = (v.flash c).eraseTable
  data : ∀ c, (v'.flash c).data = (v.flash c).data
  page : ∀ pos, pos < reserveBlocksTotal → ¬ P pos → ∀ pg, pg < ssdPagesPerBlock →
    v'.page pos pg = v.page pos pg ∧ v'.suspect pos pg = v.suspect pos pg

namespace Frame

variable {P Q : Nat → Prop} {v v' v'' : View}

theorem refl (P : Nat → Prop) (v : View) : Frame P v v :=
  ⟨rfl, rfl, rfl, rfl, rfl, fun _ => rfl, fun _ => rfl, fun _ => rfl, fun _ _ _ _ _ => ⟨rfl, rfl⟩⟩

/-- The metadata record is not framed. -/
theorem setMeta (P : Nat → Prop) (v : View) (m : SsdMetadata) : Frame P v { v with metadata := m } :=
  ⟨rfl, rfl, rfl, rfl, rfl, fun _ => rfl, fun _ => rfl, fun _ => rfl, fun _ _ _ _ _ => ⟨rfl, rfl⟩⟩

theorem trans (first : Frame P v v') (second : Frame P v' v'') : Frame P v v'' :=
  ⟨second.hash.trans first.hash, second.space.trans first.space,
    second.kbufFlush.trans first.kbufFlush, second.metaPos.trans first.metaPos,
    second.opened.trans first.opened, fun c => (second.addrTable c).trans (first.addrTable c),
    fun c => (second.eraseTable c).trans (first.eraseTable c),
    fun c => (second.data c).trans (first.data c),
    fun pos inside out pg low => by
      obtain ⟨page, suspect⟩ := second.page pos inside out pg low
      obtain ⟨page', suspect'⟩ := first.page pos inside out pg low
      exact ⟨page.trans page', suspect.trans suspect'⟩⟩

theorem mono (frame : Frame P v v') (sub : ∀ pos, P pos → Q pos) : Frame Q v v' :=
  { frame with page := fun pos inside out => frame.page pos inside fun yes => out (sub pos yes) }

theorem of_sameRest (rest : View.SameRest v v')
    (page : ∀ pos, pos < reserveBlocksTotal → ¬ P pos → ∀ pg, pg < ssdPagesPerBlock →
      v'.page pos pg = v.page pos pg ∧ v'.suspect pos pg = v.suspect pos pg) : Frame P v v' :=
  ⟨rest.hash, rest.space, rest.kbufFlush, rest.metaPos, rest.opened, rest.addrTable,
    rest.eraseTable, rest.data, page⟩

end Frame

section Frames

variable {v : View} {pos pg : Nat} {o : Outcome} {kbuf : Mem}

theorem frame_erased (inside : pos < reserveBlocksTotal) : Frame (· = pos) v (v.erased pos o) :=
  .of_sameRest View.sameRest_erased fun pos' inside' apart pg low => by
    rw [View.page_erased inside inside' low, View.suspect_erased inside inside' low,
      if_neg fun both => apart both.1, if_neg fun both => apart both.1]
    exact ⟨rfl, rfl⟩

theorem frame_written (inside : pos < reserveBlocksTotal) (low : pg < ssdPagesPerBlock) :
    Frame (· = pos) v (v.written pos pg o kbuf) :=
  .of_sameRest View.sameRest_written fun pos' inside' apart pg' low' => by
    rw [View.page_written inside inside' low low', View.suspect_written inside inside' low low',
      if_neg fun both => apart both.1, if_neg fun both => apart both.1]
    exact ⟨rfl, rfl⟩

theorem frame_read (inside : pos < reserveBlocksTotal) (low : pg < ssdPagesPerBlock) :
    Frame (· = pos) v (v.read pos pg o) :=
  .of_sameRest View.sameRest_read fun pos' inside' apart pg' low' => by
    rw [View.page_read, View.suspect_read inside inside' low low',
      if_neg fun both => apart both.2.1]
    exact ⟨rfl, rfl⟩

end Frames

/-! ## One block -/

/-- The page can be read, and holds the bytes of `src` from `start` on. -/
def PageHolds (v : View) (pos pg : Nat) (src : Mem) (start : Nat) : Prop :=
  v.suspect pos pg = false ∧ ∃ m, v.page pos pg = some m ∧ ∀ i < ssdPageSize, m i = src (start + i)

/-- All pages of a block hold the bytes of `src` from `start` on. -/
def BlockHolds (v : View) (pos : Nat) (src : Mem) (start : Nat) : Prop :=
  ∀ pg, pg < ssdPagesPerBlock → PageHolds v pos pg src (start + pg * ssdPageSize)

theorem BlockHolds.frame {P : Nat → Prop} {v v' : View} {pos start : Nat} {src : Mem}
    (holds : BlockHolds v pos src start) (frame : Frame P v v') (inside : pos < reserveBlocksTotal)
    (out : ¬ P pos) : BlockHolds v' pos src start := by
  intro pg low
  obtain ⟨page, suspect⟩ := frame.page pos inside out pg low
  rw [PageHolds, page, suspect]
  exact holds pg low

/-- All pages of a block were sent: each holds its bytes, or is marked. -/
def BlockSent (v : View) (pos : Nat) (src : Mem) (start : Nat) : Prop :=
  ∀ pg, pg < ssdPagesPerBlock → v.suspect pos pg = false →
    PageHolds v pos pg src (start + pg * ssdPageSize)

/-- `must` sees neither the blocks in `P` nor the metadata record. -/
def Blind (must : View → Prop) (P : Nat → Prop) : Prop :=
  ∀ {v v' : View}, Frame P v v' → must v → must v'

theorem Blind.mono {must : View → Prop} {P Q : Nat → Prop} (blind : Blind must Q)
    (sub : ∀ pos, P pos → Q pos) : Blind must P := fun frame => blind (frame.mono sub)

section Block

variable {must : View → Prop} {may : May} {v : View} {pos : Nat}

/-- A program that reports success leaves its page marked or with the bytes. -/
theorem pageHolds_written {pg start : Nat} {o : Outcome} {kbuf src : Mem}
    (inside : pos < reserveBlocksTotal) (low : pg < ssdPagesPerBlock) (ok : o.ret = .ok)
    (copied : ∀ i < ssdPageSize, kbuf i = src (start + i))
    (fine : (v.written pos pg o kbuf).suspect pos pg = false) :
    PageHolds (v.written pos pg o kbuf) pos pg src start := by
  have taken : o.taken = true := by
    rw [View.suspect_written inside inside low low, if_pos ⟨rfl, rfl⟩, ok] at fine
    simpa using fine
  refine ⟨fine, clip ssdPageSize kbuf, ?_, fun i small => ?_⟩
  · rw [View.page_written inside inside low low, if_pos ⟨rfl, rfl⟩, View.programmed, ok, taken]
    rfl
  · rw [clip, if_pos small]
    exact copied i small

theorem pageHolds_written_other {pg pg' start : Nat} {o : Outcome} {kbuf src : Mem}
    (inside : pos < reserveBlocksTotal) (low : pg < ssdPagesPerBlock) (low' : pg' < ssdPagesPerBlock)
    (apart : pg' ≠ pg) (holds : v.suspect pos pg' = false → PageHolds v pos pg' src start)
    (fine : (v.written pos pg o kbuf).suspect pos pg' = false) :
    PageHolds (v.written pos pg o kbuf) pos pg' src start := by
  rw [View.suspect_written inside inside low low', if_neg fun both => apart both.2] at fine
  rw [PageHolds, View.suspect_written inside inside low low', View.page_written inside inside low low',
    if_neg fun both => apart both.2, if_neg fun both => apart both.2]
  exact holds fine

theorem writeOneReserveBlock_spec (blind : Blind must (· = pos)) (here : must v)
    (inside : pos < reserveBlocksTotal) (offset : Nat) :
    OnView must may (writeOneReserveBlock pos offset) (fun ret v' => Frame (· = pos) v v' ∧
      v'.metadata = v.metadata ∧ (ret = ssdOk → BlockSent v' pos v.kbufFlush offset) ∧
      (Flawless may → ret = ssdOk ∧ ∀ pg < ssdPagesPerBlock, v'.suspect pos pg = false)) v := by
  rw [writeOneReserveBlock, onReserveBlock_eq inside]
  refine OnView.withSema here (fun ret v' after => blind after.1 here) ?_
  -- the pages below `k` were sent
  let inv : Nat → View → Prop := fun k v' => Frame (· = pos) v v' ∧ v'.metadata = v.metadata ∧
    (∀ pg < k, v'.suspect pos pg = false →
      PageHolds v' pos pg v.kbufFlush (offset + pg * ssdPageSize)) ∧
    (Flawless may → ∀ pg < k, v'.suspect pos pg = false)
  have page : ∀ k v', k < ssdPagesPerBlock → inv k v' → OnView must may (do
      let image ← Drv.readFlush
      Drv.modKbuf (posChannel pos) fun m => copyBytes m 0 image (offset + k * ssdPageSize) ssdPageSize
      channelOp (posChannel pos) (tableCmd (physBlock pos) k flagWritetableToFlash))
      (fun ret v'' => Frame (· = pos) v v'' ∧ v''.metadata = v.metadata ∧
        (ret = ssdOk → inv (k + 1) v'') ∧ (Flawless may → ret = ssdOk)) v' := by
    rintro k v' low ⟨frame, same, sent, fine⟩
    have still := blind frame here
    refine OnView.seq (OnView.readFlush still) ?_
    rintro image v' ⟨rfl, rfl⟩
    refine (OnView.loadedOp _ still).weaken ?_
    rintro ret v2 ⟨d, o, kbuf, kbuf', flash, shows, issued, allowed, ran, rfl, rfl⟩
    rw [ofWord_tableCmd low (by decide)] at ran
    cases ran
    have now : ∀ kbuf, Frame (· = pos) v (v'.written pos k o kbuf) := fun _ =>
      frame.trans (frame_written inside low)
    have answer : Flawless may → o.ret = .ok ∧ o.taken = true := fun flawless =>
      MayTable.ok flawless ⟨d, shows, issued, allowed⟩ low (by decide) (by decide)
    refine ⟨now _, same, fun ok => ⟨now _, same, fun pg lower fine => ?_, fun flawless pg lower => ?_⟩,
      fun flawless => by rw [(answer flawless).1]; rfl⟩
    · have ok := ChannelRet.toInt_eq_zero.1 ok
      by_cases last : pg = k
      · subst last
        refine pageHolds_written inside low ok (fun i small => ?_) fine
        have copied := @copyBytes_inside kbuf v'.kbufFlush 0 (offset + pg * ssdPageSize) ssdPageSize i small
        rw [Nat.zero_add] at copied
        rw [copied, frame.kbufFlush]
      · exact pageHolds_written_other inside low (by omega) last (sent pg (by omega)) fine
    · have less : pg < ssdPagesPerBlock := Nat.lt_of_lt_of_le lower low
      have marked : (v'.written pos k o (copyBytes kbuf 0 v'.kbufFlush (offset + k * ssdPageSize)
          ssdPageSize)).suspect pos pg = _ := View.suspect_written inside inside low less
      refine marked.trans ?_
      split
      · rw [(answer flawless).1, (answer flawless).2]
        rfl
      · exact fine flawless pg (by omega)
  refine OnView.seq (OnView.forRange (I := inv) (R := fun ret v' => Frame (· = pos) v v' ∧
    v'.metadata = v.metadata ∧ ret ≠ ssdOk ∧ ¬ Flawless may) (fun k v' low holds => ?_)
    ⟨.refl _ v, rfl, fun pg none => absurd none (Nat.not_lt_zero pg), fun _ pg none =>
      absurd none (Nat.not_lt_zero pg)⟩) fun found v' after => ?_
  · refine OnView.seq (page k v' low holds) ?_
    rintro ret v'' ⟨frame, same, done, fine⟩
    by_cases ok : ret = ssdOk
    · rw [if_neg (not_not.2 ok)]
      exact OnView.pure (done ok)
    · rw [if_pos ok]
      exact OnView.pure ⟨frame, same, ok, fun flawless => ok (fine flawless)⟩
  · cases found with
    | some ret =>
        exact OnView.pure ⟨after.1, after.2.1, fun ok => absurd ok after.2.2.1, fun flawless =>
          absurd flawless after.2.2.2⟩
    | none =>
        exact OnView.pure ⟨after.1, after.2.1, fun _ => after.2.2.1, fun flawless =>
          ⟨rfl, after.2.2.2 flawless⟩⟩

/-- A block that is read back without an error had no marked page. -/
theorem readOneReserveBlock_spec (blind : Blind must (· = pos)) (here : must v)
    (inside : pos < reserveBlocksTotal) :
    OnView must may (readOneReserveBlock pos) (fun ret v' => Frame (· = pos) v v' ∧
      v'.metadata = v.metadata ∧
      (ret = ssdOk → v' = v ∧ ∀ pg < ssdPagesPerBlock, v.suspect pos pg = false) ∧
      (Flawless may → (∀ pg < ssdPagesPerBlock, (v.page pos pg).isSome ∧ v.suspect pos pg = false) →
        ret = ssdOk)) v := by
  rw [readOneReserveBlock, onReserveBlock_eq inside]
  refine OnView.withSema here (fun ret v' after => blind after.1 here) ?_
  refine OnView.seq (OnView.forRange
    (I := fun k v' => v' = v ∧ ∀ pg < k, v.suspect pos pg = false)
    (R := fun ret v' => Frame (· = pos) v v' ∧ v'.metadata = v.metadata ∧ ret ≠ ssdOk ∧
      ¬ (Flawless may ∧ ∀ pg < ssdPagesPerBlock, (v.page pos pg).isSome ∧ v.suspect pos pg = false))
    (fun k v' low holds => ?_) ⟨rfl, fun pg none => absurd none (Nat.not_lt_zero pg)⟩)
    fun found v' after => ?_
  · obtain ⟨rfl, clean⟩ := holds
    refine OnView.seq (OnView.channelOp here) ?_
    rintro ret v'' ⟨d, o, kbuf, kbuf', flash, shows, issued, allowed, ran, rfl, rfl⟩
    rw [ofWord_tableCmd low (by decide)] at ran
    simp only [Flash.exec] at ran
    by_cases ok : o.ret = .ok
    · rw [if_pos ok] at ran
      have intact : flash = v'.flash (posChannel pos) ∧ v'.suspect pos k = false := by
        split at ran
        · rename_i found mark
          cases ran
          exact ⟨rfl, mark⟩
        · cases ran
      rw [ok, if_neg (by simp), intact.1, View.setFlash_same]
      refine OnView.pure ⟨rfl, fun pg lower => ?_⟩
      rcases Nat.lt_succ_iff_lt_or_eq.1 lower with below | rfl
      · exact clean pg below
      · exact intact.2
    · rw [if_neg ok] at ran
      cases ran
      have bad : o.ret.toInt ≠ ssdOk := fun eq => ok (ChannelRet.toInt_eq_zero.1 eq)
      rw [if_pos bad]
      have step : Frame (· = pos) v' (v'.read pos k o) := frame_read inside low
      rw [View.read, if_neg ok] at step
      refine OnView.pure ⟨step, rfl, bad, fun both => ok ?_⟩
      obtain ⟨there, mark⟩ := both.2 k low
      obtain ⟨m, found⟩ := Option.isSome_iff_exists.1 there
      exact MayTable.ok_read both.1 ⟨d, shows, issued, allowed⟩ low found mark
  · cases found with
    | some ret =>
        exact OnView.pure ⟨after.1, after.2.1, fun ok => absurd ok after.2.2.1, fun flawless good =>
          absurd ⟨flawless, good⟩ after.2.2.2⟩
    | none =>
        obtain ⟨rfl, clean⟩ := after
        exact OnView.pure ⟨.refl _ _, rfl, fun _ => ⟨rfl, clean⟩, fun _ _ => rfl⟩

/-- **One copy of a block.** When it reports success the block holds the image. -/
theorem writeTabledataBlock_spec (blind : Blind must (· = pos)) (here : must v)
    (inside : pos < reserveBlocksTotal) (offset : Nat) :
    OnView must may (writeTabledataBlock pos offset) (fun ret v' => Frame (· = pos) v v' ∧
      v'.metadata = v.metadata ∧ (ret = ssdOk → BlockHolds v' pos v.kbufFlush offset) ∧
      (Flawless may → ret = ssdOk)) v := by
  have stable : ∀ o, MayTable may v pos 0 flagErasetables o → must v → must (v.erased pos o) :=
    fun o _ => blind (frame_erased inside)
  refine OnView.seq (eraseOneReserveBlock_spec stable here inside) ?_
  rintro ret v1 ⟨o, allowed, rfl, rfl⟩
  have erased : Frame (· = pos) v (v.erased pos o) := frame_erased inside
  have same : (v.erased pos o).metadata = v.metadata := View.sameRest_erased.metadata
  split
  · rename_i failed
    refine OnView.pure ⟨erased, same, fun ok => absurd ok failed, fun flawless => absurd ?_ failed⟩
    rw [(MayTable.ok flawless allowed (by decide) (by decide) (by decide)).1]
    rfl
  refine OnView.seq (writeOneReserveBlock_spec blind (blind erased here) inside offset) ?_
  rintro ret v2 ⟨frame, same', sent, fine⟩
  split
  · rename_i failed
    exact OnView.pure ⟨erased.trans frame, same'.trans same, fun ok => absurd ok failed,
      fun flawless => absurd (fine flawless).1 failed⟩
  rename_i done
  have so := erased.trans frame
  have held : ∀ pg < ssdPagesPerBlock, v2.suspect pos pg = false →
      PageHolds v2 pos pg v.kbufFlush (offset + pg * ssdPageSize) := fun pg low mark => by
    have sent := sent (not_not.1 done) pg low mark
    rwa [erased.kbufFlush] at sent
  refine (readOneReserveBlock_spec blind (blind so here) inside).weaken ?_
  rintro ret v3 ⟨frame', same'', read, answer⟩
  refine ⟨so.trans frame', same''.trans (same'.trans same), fun ok pg low => ?_, fun flawless =>
    answer flawless fun pg low => ?_⟩
  · obtain ⟨rfl, clean⟩ := read ok
    exact held pg low (clean pg low)
  · have mark := (fine flawless).2 pg low
    obtain ⟨-, m, found, -⟩ := held pg low mark
    exact ⟨by rw [found]; rfl, mark⟩

/-- The block at a position and its duplicate. -/
def Twice (pos : Nat) : Nat → Prop := fun p => p = pos ∨ p = pos + tableBitmapSize

/-- **Both copies of a block.** -/
theorem writeTabledataBlockDuplicate_spec (blind : Blind must (Twice pos)) (here : must v)
    (inside : pos < reserveBlocksTotal - tableBitmapSize) (offset : Nat) :
    OnView must may (writeTabledataBlockDuplicate pos offset) (fun ret v' => Frame (Twice pos) v v' ∧
      v'.metadata = v.metadata ∧
      (ret = ssdOk → ∀ p, Twice pos p → BlockHolds v' p v.kbufFlush offset) ∧
      (Flawless may → ret = ssdOk)) v := by
  simp only [reserveBlocksTotal, tableBitmapSize] at inside
  let inv : Nat → View → Prop := fun k v' => Frame (Twice pos) v v' ∧ v'.metadata = v.metadata ∧
    ∀ j < k, BlockHolds v' (pos + j * tableBitmapSize) v.kbufFlush offset
  refine OnView.seq (OnView.forRange (I := inv) (R := fun ret v' => Frame (Twice pos) v v' ∧
    v'.metadata = v.metadata ∧ ret ≠ ssdOk ∧ ¬ Flawless may) (fun k v' low holds => ?_)
    ⟨.refl _ v, rfl, fun j none => absurd none (Nat.not_lt_zero j)⟩) fun found v' after => ?_
  · obtain ⟨frame, same, held⟩ := holds
    have here' := blind frame here
    have inside' : pos + k * tableBitmapSize < reserveBlocksTotal := by
      simp only [tableDuplicate, tableBitmapSize, reserveBlocksTotal] at *
      omega
    have mine : ∀ p, p = pos + k * tableBitmapSize → Twice pos p := by
      rintro p rfl
      have two : k = 0 ∨ k = 1 := by
        simp only [tableDuplicate] at low
        omega
      rcases two with rfl | rfl
      · exact .inl (by rw [Nat.zero_mul, Nat.add_zero])
      · exact .inr (by rw [Nat.one_mul])
    refine OnView.seq (writeTabledataBlock_spec (blind.mono mine) here' inside' offset) ?_
    rintro ret v'' ⟨frame', same', done, fine⟩
    have now := frame.trans (frame'.mono mine)
    by_cases ok : ret = ssdOk
    · rw [if_neg (not_not.2 ok)]
      refine OnView.pure ⟨now, same'.trans same, fun j lower => ?_⟩
      by_cases last : j = k
      · subst last
        have new := done ok
        rwa [frame.kbufFlush] at new
      · have below : j * tableBitmapSize ≤ k * tableBitmapSize :=
          Nat.mul_le_mul_right _ (Nat.le_of_lt_succ lower)
        refine (held j (by omega)).frame frame'
          (Nat.lt_of_le_of_lt (Nat.add_le_add_left below pos) inside') fun eq => last ?_
        exact Nat.eq_of_mul_eq_mul_right (by decide) (Nat.add_left_cancel eq)
    · rw [if_pos ok]
      exact OnView.pure ⟨now, same'.trans same, ok, fun flawless => ok (fine flawless)⟩
  · cases found with
    | some ret =>
        exact OnView.pure ⟨after.1, after.2.1, fun ok => absurd ok after.2.2.1, fun flawless =>
          absurd flawless after.2.2.2⟩
    | none =>
        refine OnView.pure ⟨after.1, after.2.1, fun _ p twice => ?_, fun _ => rfl⟩
        rcases twice with rfl | rfl
        · have first := after.2.2 0 (by decide)
          rwa [Nat.zero_mul, Nat.add_zero] at first
        · have second := after.2.2 1 (by decide)
          rwa [Nat.one_mul] at second

/-! ## The ring -/

theorem findNewTablePos_range (cur : Nat) :
    reserveBlocksMeta ≤ findNewTablePos cur ∧
      findNewTablePos cur < reserveBlocksTotal - tableBitmapSize := by
  simp only [findNewTablePos, reserveBlocksMeta, reserveBlocksTotal, tableBitmapSize]
  omega

/-- Only the positions in the metadata record differ. -/
def OnlyPositions (m m' : SsdMetadata) : Prop := m' = { m with tableBlockPos := m'.tableBlockPos }

theorem OnlyPositions.trans {m m' m'' : SsdMetadata} (first : OnlyPositions m m')
    (second : OnlyPositions m' m'') : OnlyPositions m m'' := by
  rw [OnlyPositions] at *
  rw [second, first]

/-- The position after `k` moves along the ring. -/
def ringPos (cur : Nat) : Nat → Nat
  | 0 => cur
  | k + 1 => findNewTablePos (ringPos cur k)

theorem ringPos_succ (cur k : Nat) : ringPos cur (k + 1) = ringPos (findNewTablePos cur) k := by
  induction k with
  | zero => rfl
  | succ k ih => rw [ringPos, ih, ringPos]

theorem ringPos_eq {cur : Nat} (low : reserveBlocksMeta ≤ cur)
    (high : cur < reserveBlocksTotal - tableBitmapSize) (k : Nat) :
    ringPos cur k = reserveBlocksMeta + (cur - reserveBlocksMeta + k) % tableBitmapSize := by
  simp only [reserveBlocksMeta, reserveBlocksTotal, tableBitmapSize] at *
  induction k with
  | zero =>
      rw [ringPos]
      omega
  | succ k ih =>
      rw [ringPos, ih]
      simp only [findNewTablePos, reserveBlocksMeta, tableBitmapSize]
      omega

theorem ringPos_range (cur k : Nat) : reserveBlocksMeta ≤ ringPos cur (k + 1) ∧
    ringPos cur (k + 1) < reserveBlocksTotal - tableBitmapSize := findNewTablePos_range _

/-- The positions of `n` blocks behind `cur`, with their duplicates. -/
def Ring (cur n : Nat) : Nat → Prop := fun p => ∃ k < n, Twice (ringPos cur (k + 1)) p

theorem ring_range {cur n p : Nat} (member : Ring cur n p) : reserveBlocksMeta ≤ p := by
  obtain ⟨k, -, rfl | rfl⟩ := member
  · exact (ringPos_range cur k).1
  · exact Nat.le_add_right_of_le (ringPos_range cur k).1

/-- A lap of the ring is longer than an image. -/
theorem not_ring {cur n : Nat} (low : reserveBlocksMeta ≤ cur)
    (high : cur < reserveBlocksTotal - tableBitmapSize) (short : n < tableBitmapSize) :
    ¬ Ring cur n cur ∧ ¬ Ring cur n (cur + tableBitmapSize) := by
  have away : ∀ k < n, ringPos cur (k + 1) ≠ cur := by
    intro k less eq
    rw [ringPos_eq low high] at eq
    simp only [reserveBlocksMeta, reserveBlocksTotal, tableBitmapSize] at *
    omega
  constructor
  · rintro ⟨k, less, eq | eq⟩
    · exact away k less eq.symm
    · have := (ringPos_range cur k).1
      simp only [reserveBlocksMeta, reserveBlocksTotal, tableBitmapSize] at *
      omega
  · rintro ⟨k, less, eq | eq⟩
    · have := (ringPos_range cur k).2
      simp only [reserveBlocksMeta, reserveBlocksTotal, tableBitmapSize] at *
      omega
    · exact away k less (Nat.add_right_cancel eq).symm

theorem setTablePosInMeta_pos {i cur j : Nat} (m : SsdMetadata) (inside : j < 10)
    (high : cur < reserveBlocksTotal - tableBitmapSize) : (setTablePosInMeta i cur m).pos j =
      if j = i * 2 then cur else if j = i * 2 + 1 then cur + tableBitmapSize else m.pos j := by
  simp only [reserveBlocksTotal, tableBitmapSize] at high
  simp only [SsdMetadata.pos, dif_pos inside, setTablePosInMeta]
  split
  · rw [UInt16.toNat_ofNat']
    exact Nat.mod_eq_of_lt (by omega)
  split
  · rw [UInt16.toNat_ofNat']
    exact Nat.mod_eq_of_lt (by simp only [tableBitmapSize]; omega)
  · rfl

theorem setTablePosInMeta_only (i cur : Nat) (m : SsdMetadata) :
    OnlyPositions m (setTablePosInMeta i cur m) := rfl

theorem ringPos_add (cur a b : Nat) : ringPos (ringPos cur a) b = ringPos cur (a + b) := by
  induction b with
  | zero => rfl
  | succ b ih => rw [ringPos, ih, ← Nat.add_assoc, ringPos]

theorem Ring.mono {cur n n' p : Nat} (member : Ring cur n p) (le : n ≤ n') : Ring cur n' p := by
  obtain ⟨k, less, twice⟩ := member
  exact ⟨k, Nat.lt_of_lt_of_le less le, twice⟩

/-- The ring behind a later position. -/
theorem Ring.later {cur a n p : Nat} (member : Ring (ringPos cur a) n p) : Ring cur (a + n) p := by
  obtain ⟨k, less, twice⟩ := member
  rw [ringPos_add] at twice
  exact ⟨a + k, Nat.add_lt_add_left less a, twice⟩

/-! ## The image -/

/-- **One block of the image**, with its retries: both copies at one of the next `n`
positions, or an error. -/
theorem retryWriteTabledataBlock_spec (i offset n cur : Nat) (blind : Blind must (Ring cur n))
    (here : must v) : OnView must may (retryWriteTabledataBlock i offset n cur) (fun ret v' =>
      Frame (Ring cur n) v v' ∧
      ((∃ k < n, (Flawless may → k = 0) ∧ ret = (ringPos cur (k + 1) : Int) ∧
          v'.metadata = setTablePosInMeta i (ringPos cur (k + 1)) v.metadata ∧
          ∀ p, Twice (ringPos cur (k + 1)) p → BlockHolds v' p v.kbufFlush offset) ∨
        ret < 0 ∧ v'.metadata = v.metadata) ∧
      (Flawless may → 0 < n → 0 ≤ ret)) v := by
  induction n generalizing v cur with
  | zero =>
      exact OnView.pure ⟨.refl _ v, .inr ⟨by decide, rfl⟩, fun _ no => absurd no (Nat.lt_irrefl 0)⟩
  | succ n ih =>
      have first : ∀ p, Twice (findNewTablePos cur) p → Ring cur (n + 1) p := fun p twice =>
        ⟨0, Nat.succ_pos n, twice⟩
      have later : ∀ p, Ring (findNewTablePos cur) n p → Ring cur (n + 1) p := fun p member =>
        (Ring.later (a := 1) member).mono (by omega)
      refine OnView.seq (writeTabledataBlockDuplicate_spec (blind.mono first) here
        (findNewTablePos_range cur).2 offset) ?_
      rintro ret v1 ⟨frame, same, done, fine⟩
      have now := frame.mono first
      split
      · rename_i ok
        refine OnView.seq (OnView.modMeta (blind now here) _) ?_
        rintro _ v2 ⟨rfl, -⟩
        refine OnView.pure ⟨now.trans (.setMeta ..), .inl ⟨0, Nat.succ_pos n, fun _ => rfl, rfl,
          by rw [same]; rfl, done ok⟩, fun _ _ => Int.natCast_nonneg _⟩
      · rename_i failed
        refine (ih (findNewTablePos cur) (blind.mono later) (blind now here)).weaken ?_
        rintro ret v2 ⟨frame2, answer, -⟩
        refine ⟨now.trans (frame2.mono later), ?_, fun flawless => absurd (fine flawless) failed⟩
        rcases answer with ⟨k, less, -, rfl, record, held⟩ | ⟨bad, record⟩
        · rw [frame.kbufFlush] at held
          rw [← ringPos_succ] at record held ⊢
          exact .inl ⟨k + 1, Nat.succ_lt_succ less, fun flawless => absurd (fine flawless) failed, rfl,
            by rw [record, same], held⟩
        · exact .inr ⟨bad, record.trans same⟩

/-- The positions of `j` blocks from block `i` on are in the record, in the order of
the ring behind `cur`, each at most five positions behind the one before. -/
structure Placed (m m' : SsdMetadata) (i j cur : Nat) (off : Nat → Nat) : Prop where
  only : OnlyPositions m m'
  start : off 0 = 0
  step : ∀ k < j, off k < off (k + 1) ∧ off (k + 1) ≤ off k + ssdMaxFlushTableRetry
  placed : ∀ k < j, m'.pos ((i + k) * 2) = ringPos cur (off (k + 1)) ∧
    m'.pos ((i + k) * 2 + 1) = ringPos cur (off (k + 1)) + tableBitmapSize
  others : ∀ q < 10, q < i * 2 ∨ (i + j) * 2 ≤ q → m'.pos q = m.pos q

theorem Placed.zero (m : SsdMetadata) (i cur : Nat) : Placed m m i 0 cur fun _ => 0 :=
  ⟨rfl, rfl, fun _ no => absurd no (Nat.not_lt_zero _), fun _ no => absurd no (Nat.not_lt_zero _),
    fun _ _ _ => rfl⟩

/-- The offsets after one more block in front. -/
def offsetsBehind (k : Nat) (off : Nat → Nat) : Nat → Nat
  | 0 => 0
  | j + 1 => k + off j

theorem Placed.cons {m m' : SsdMetadata} {i j cur k : Nat} {off : Nat → Nat}
    (few : k < ssdMaxFlushTableRetry) (fits : i + (j + 1) ≤ 5)
    (placed : Placed (setTablePosInMeta i (ringPos cur (k + 1)) m) m' (i + 1) j
      (ringPos cur (k + 1)) off) : Placed m m' i (j + 1) cur (offsetsBehind (k + 1) off) := by
  have high := (ringPos_range cur k).2
  refine ⟨(setTablePosInMeta_only ..).trans placed.only, rfl, fun l less => ?_, fun l less => ?_,
    fun q small apart => ?_⟩
  · cases l with
    | zero =>
        simp only [offsetsBehind, placed.start, ssdMaxFlushTableRetry] at *
        omega
    | succ l =>
        have step := placed.step l (Nat.lt_of_succ_lt_succ less)
        simp only [offsetsBehind]
        omega
  · cases l with
    | zero =>
        have mine : offsetsBehind (k + 1) off (0 + 1) = k + 1 := by
          rw [offsetsBehind, placed.start, Nat.add_zero]
        rw [mine, Nat.add_zero, placed.others _ (by omega) (.inl (by omega)),
          placed.others _ (by omega) (.inl (by omega)), setTablePosInMeta_pos m (by omega) high,
          setTablePosInMeta_pos m (by omega) high, if_pos rfl, if_neg (by omega), if_pos rfl]
        exact ⟨rfl, rfl⟩
    | succ l =>
        have later := placed.placed l (Nat.lt_of_succ_lt_succ less)
        rw [ringPos_add, show i + 1 + l = i + (l + 1) by omega] at later
        exact later
  · rw [placed.others q small (by omega), setTablePosInMeta_pos m small high, if_neg (by omega),
      if_neg (by omega)]

theorem Placed.off_le {m m' : SsdMetadata} {i j cur : Nat} {off : Nat → Nat}
    (placed : Placed m m' i j cur off) {k : Nat} (le : k ≤ j) : off k ≤ ssdMaxFlushTableRetry * k := by
  induction k with
  | zero => rw [placed.start]; exact Nat.zero_le _
  | succ k ih =>
      have step := (placed.step k le).2
      have before := ih (Nat.le_of_succ_le le)
      simp only [ssdMaxFlushTableRetry] at *
      omega

/-- **All blocks of the image.** For every outcome the pages outside the next
positions of the ring are as they were, and every block whose positions are entered
holds the image. -/
theorem flushTableBlocks_spec (n i cur : Nat) (fits : i + n ≤ 5)
    (blind : Blind must (Ring cur (ssdMaxFlushTableRetry * n))) (here : must v) :
    OnView must may (flushTableBlocks n i cur) (fun ret v' =>
      Frame (Ring cur (ssdMaxFlushTableRetry * n)) v v' ∧ (ret = ssdOk ∨ ret < 0) ∧
      (∃ j off, j ≤ n ∧ (ret = ssdOk → j = n) ∧ Placed v.metadata v'.metadata i j cur off ∧
        (Flawless may → ∀ k ≤ j, off k = k) ∧ ∀ k < j, ∀ p, Twice (ringPos cur (off (k + 1))) p →
          BlockHolds v' p v.kbufFlush ((i + k) * ssdBlockSize)) ∧
      (Flawless may → ret = ssdOk)) v := by
  induction n generalizing v i cur with
  | zero =>
      exact OnView.pure ⟨.refl _ v, .inl rfl, ⟨0, _, Nat.le_refl 0, fun _ => rfl, .zero ..,
        fun _ k none => (Nat.le_zero.1 none).symm, fun k no => absurd no (Nat.not_lt_zero k)⟩,
        fun _ => rfl⟩
  | succ n ih =>
      have few : ssdMaxFlushTableRetry ≤ ssdMaxFlushTableRetry * (n + 1) := by
        simp only [ssdMaxFlushTableRetry]
        omega
      have first : ∀ p, Ring cur ssdMaxFlushTableRetry p → Ring cur (ssdMaxFlushTableRetry * (n + 1)) p :=
        fun p member => member.mono few
      refine OnView.seq (retryWriteTabledataBlock_spec i _ ssdMaxFlushTableRetry cur (blind.mono first)
        here) ?_
      rintro ret v1 ⟨frame, answer, fine⟩
      have now := frame.mono first
      rcases answer with ⟨k, less, atOnce, rfl, record, held⟩ | ⟨bad, same⟩
      · have later : ∀ p, Ring (ringPos cur (k + 1)) (ssdMaxFlushTableRetry * n) p →
            Ring cur (ssdMaxFlushTableRetry * (n + 1)) p := fun p member => member.later.mono (by
          simp only [ssdMaxFlushTableRetry] at *
          omega)
        rw [if_neg (Int.not_lt.2 (Int.natCast_nonneg _)), Int.toNat_natCast]
        refine (ih (i + 1) _ (by omega) (blind.mono later) (blind now here)).weaken ?_
        rintro ret' v2 ⟨frame', sign, ⟨j, off, le, all, placed, steady, holds⟩, fine'⟩
        rw [record] at placed
        refine ⟨now.trans (frame'.mono later), sign, ⟨j + 1, offsetsBehind (k + 1) off,
          Nat.succ_le_succ le, fun ok => by rw [all ok], placed.cons less (by omega), ?_, ?_⟩, fine'⟩
        · intro flawless l le
          cases l with
          | zero => rfl
          | succ l =>
              rw [offsetsBehind, atOnce flawless, steady flawless l (Nat.le_of_succ_le_succ le)]
              omega
        intro l lower p twice
        cases l with
        | zero =>
            have mine : offsetsBehind (k + 1) off (0 + 1) = k + 1 := by
              rw [offsetsBehind, placed.start, Nat.add_zero]
            rw [mine] at twice
            obtain ⟨low, high⟩ := ringPos_range cur k
            obtain ⟨outside, outside'⟩ := not_ring (n := ssdMaxFlushTableRetry * n) low high (by
              simp only [ssdMaxFlushTableRetry, tableBitmapSize]
              omega)
            refine (held p twice).frame frame' ?_ ?_
            · simp only [reserveBlocksTotal, tableBitmapSize] at high ⊢
              rcases twice with rfl | rfl
              · omega
              · simp only [tableBitmapSize]
                omega
            · rcases twice with rfl | rfl
              · exact outside
              · exact outside'
        | succ l =>
            rw [offsetsBehind, ← ringPos_add] at twice
            have block := holds l (Nat.lt_of_succ_lt_succ lower) p twice
            rwa [frame.kbufFlush, show i + 1 + l = i + (l + 1) by omega] at block
      · rw [if_pos bad]
        refine OnView.pure ⟨now, .inr bad, ⟨0, fun _ => 0, Nat.zero_le _, fun ok => ?_, ?_,
          fun _ k none => (Nat.le_zero.1 none).symm, fun k no => absurd no (Nat.not_lt_zero k)⟩,
          fun flawless => ?_⟩
        · rw [ok] at bad
          exact absurd bad (by decide)
        · rw [same]
          exact .zero ..
        · exact absurd (fine flawless (by decide)) (Int.not_le.2 bad)

end Block

end FpgaSsd.Theory
