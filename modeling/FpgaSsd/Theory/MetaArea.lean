/-
# Theory.MetaArea — writing a record to a group of metadata blocks

`write_meta_page` and `write_metadata_page_duplicate` on the records that the ten
groups of four metadata blocks show.

* `MetaStage` — the states between the commands of `write_meta_page`;
* `PageWrite` — what it leaves in its block, for every outcome: the new record,
  nothing, or what was there;
* `writeMetadataPageDuplicate_spec` — the four planes of a group (`Attempt`).
-/
import FpgaSsd.Theory.TableBlocks
import FpgaSsd.Theory.Search

namespace FpgaSsd.Theory

open FpgaSsd.Lib FpgaSsd.Driver

set_option autoImplicit false

/-! ## Records after a command -/

namespace View

section Records

variable {v v' : View} {pos pos' pg pg' : Nat} {o : Outcome} {kbuf : Mem}

theorem record_congr (same : v'.page pos pg = v.page pos pg) : v'.record pos pg = v.record pos pg := by
  rw [record, record, same]

/-- An erase that succeeds leaves no record in its block. -/
theorem record_erased_ok (inside : pos < reserveBlocksTotal) (low : pg < ssdPagesPerBlock)
    (ok : o.ret = .ok) : (v.erased pos o).record pos pg = none := by
  rw [record, page_erased inside inside low, if_pos ⟨rfl, .inl ok⟩]
  rfl

theorem record_written_other (inside : pos < reserveBlocksTotal) (inside' : pos' < reserveBlocksTotal)
    (low : pg < ssdPagesPerBlock) (low' : pg' < ssdPagesPerBlock) (apart : ¬ (pos' = pos ∧ pg' = pg)) :
    (v.written pos pg o kbuf).record pos' pg' = v.record pos' pg' := by
  refine record_congr ?_
  rw [page_written inside inside' low low', if_neg apart]

/-- A program leaves the record it sends, nothing, or what was there. -/
theorem record_written (inside : pos < reserveBlocksTotal) (low : pg < ssdPagesPerBlock)
    {m : SsdMetadata} (valid : metadataCheckVal m = ssdOk) (sent : IsRecord m kbuf) :
    (v.written pos pg o kbuf).record pos pg =
      if o.ret = .ok ∧ o.taken = true then some m
      else if o.keep (pageAddr pos pg) = true then v.record pos pg else none := by
  rw [record, page_written inside inside low low, if_pos ⟨rfl, rfl⟩, programmed]
  by_cases done : o.ret = .ok ∧ o.taken = true
  · rw [if_pos done, if_pos (by rw [done.1, done.2]; rfl), Option.bind_some, validRecord, sent.decode,
      if_pos valid]
  · rw [if_neg done, if_neg (by simpa using done)]
    split
    · rfl
    · rfl

theorem record_read : (v.read pos pg o).record pos' pg' = v.record pos' pg' := record_congr page_read

theorem record_frame {P : Nat → Prop} (frame : Frame P v v') (inside : pos < reserveBlocksTotal)
    (out : ¬ P pos) (low : pg < ssdPagesPerBlock) : v'.record pos pg = v.record pos pg :=
  record_congr (frame.page pos inside out pg low).1

end Records

end View

theorem metaPos_inside {pos : Nat} (inside : pos < reserveBlocksMeta) : pos < reserveBlocksTotal :=
  Nat.lt_of_lt_of_le inside (by decide)

/-! ## One plane -/

/-- The block is ready for the page: erased when the page is the first one. -/
def MetaReady (may : May) (v : View) (pos : Nat) (v1 : View) : Prop :=
  if v.metaPos.page = 0 then
    ∃ o, MayTable may v pos 0 flagErasetables o ∧ o.ret = .ok ∧ v1 = v.erased pos o
  else v1 = v

/-- The states between the commands of `write_meta_page` on the block `pos`. -/
inductive MetaStage (may : May) (v : View) (pos : Nat) : View → Prop
  | start : MetaStage may v pos v
  | erased {o : Outcome} (first : v.metaPos.page = 0)
      (allowed : MayTable may v pos 0 flagErasetables o) : MetaStage may v pos (v.erased pos o)
  | written {v1 : View} {o : Outcome} {kbuf : Mem} (ready : MetaReady may v pos v1)
      (allowed : MayTable may v1 pos v.metaPos.page flagWritetableToFlash o)
      (sent : IsRecord v.metadata kbuf) : MetaStage may v pos (v1.written pos v.metaPos.page o kbuf)
  | read {v1 : View} (o : Outcome) (before : MetaStage may v pos v1) :
      MetaStage may v pos (v1.read pos v.metaPos.page o)

/-- An erase of a metadata block that fails leaves no record in it. -/
def Wipes (may : May) : Prop := ∀ v pos o, pos < reserveBlocksMeta →
  MayTable may v pos 0 flagErasetables o → o.ret ≠ .ok →
    ∀ pg < ssdPagesPerBlock, (v.erased pos o).record pos pg = none

theorem Flawless.wipes {may : May} (flawless : Flawless may) : Wipes may :=
  fun _ _ _ _ allowed failed =>
    absurd (MayTable.ok flawless allowed (by decide) (by decide) (by decide)).1 failed

/-- What an attempt to write the record leaves in the block `pos`. -/
structure PageWrite (v v' : View) (pos : Nat) : Prop where
  frame : Frame (· = pos) v v'
  metadata : v'.metadata = v.metadata
  clean : v.Clean → v'.Clean
  others : ∀ pg < ssdPagesPerBlock, pg ≠ v.metaPos.page →
    v'.record pos pg = if v.metaPos.page = 0 then none else v.record pos pg
  page : v'.record pos v.metaPos.page = some v.metadata ∨ v'.record pos v.metaPos.page = none ∨
    v.metaPos.page ≠ 0 ∧ v'.record pos v.metaPos.page = v.record pos v.metaPos.page

section Plane

variable {must : View → Prop} {may : May} {v v1 : View} {pos : Nat}

theorem clean_erased {o : Outcome} (inside : pos < reserveBlocksMeta) (clean : v.Clean) :
    (v.erased pos o).Clean := fun pos' pg inside' low => by
  rw [View.suspect_erased (metaPos_inside inside) (metaPos_inside inside') low]
  split
  · rfl
  · exact clean pos' pg inside' low

/-- A program that took effect leaves no page marked. -/
theorem clean_written {pg : Nat} {o : Outcome} {kbuf : Mem} (inside : pos < reserveBlocksMeta)
    (low : pg < ssdPagesPerBlock) (clean : v.Clean) (effect : o.ret = .ok → o.taken = true) :
    (v.written pos pg o kbuf).Clean := fun pos' pg' inside' low' => by
  rw [View.suspect_written (metaPos_inside inside) (metaPos_inside inside') low low']
  split
  · by_cases ok : o.ret = .ok
    · rw [effect ok]
      simp
    · simp [ok]
  · exact clean pos' pg' inside' low'

theorem clean_read {pg : Nat} {o : Outcome} (inside : pos < reserveBlocksMeta)
    (low : pg < ssdPagesPerBlock)
    (marked : ∀ pos' pg', pos' < reserveBlocksMeta → pg' < ssdPagesPerBlock →
      v.suspect pos' pg' = true → o.ret ≠ .ok ∧ pos' = pos ∧ pg' = pg) :
    (v.read pos pg o).Clean := fun pos' pg' inside' low' => by
  rw [View.suspect_read (metaPos_inside inside) (metaPos_inside inside') low low']
  split
  · rfl
  · rename_i other
    cases mark : v.suspect pos' pg' with
    | false => rfl
    | true => exact absurd (marked pos' pg' inside' low' mark) other

theorem MetaReady.erase (ready : MetaReady may v pos v1) (first : v.metaPos.page = 0) :
    ∃ o, MayTable may v pos 0 flagErasetables o ∧ o.ret = .ok ∧ v1 = v.erased pos o := by
  rwa [MetaReady, if_pos first] at ready

theorem MetaReady.same (ready : MetaReady may v pos v1) (later : v.metaPos.page ≠ 0) : v1 = v := by
  rwa [MetaReady, if_neg later] at ready

theorem MetaReady.sameRest (ready : MetaReady may v pos v1) : View.SameRest v v1 := by
  by_cases first : v.metaPos.page = 0
  · obtain ⟨o, -, -, rfl⟩ := ready.erase first
    exact View.sameRest_erased
  · rw [ready.same first]
    exact .refl v

theorem MetaReady.frame (ready : MetaReady may v pos v1) (inside : pos < reserveBlocksMeta) :
    Frame (· = pos) v v1 := by
  by_cases first : v.metaPos.page = 0
  · obtain ⟨o, -, -, rfl⟩ := ready.erase first
    exact frame_erased (metaPos_inside inside)
  · rw [ready.same first]
    exact .refl _ v

theorem MetaReady.clean (ready : MetaReady may v pos v1) (inside : pos < reserveBlocksMeta)
    (clean : v.Clean) : v1.Clean := by
  by_cases first : v.metaPos.page = 0
  · obtain ⟨o, -, -, rfl⟩ := ready.erase first
    exact clean_erased inside clean
  · rwa [ready.same first]

theorem MetaReady.record (ready : MetaReady may v pos v1) (inside : pos < reserveBlocksMeta)
    {pg : Nat} (low : pg < ssdPagesPerBlock) :
    v1.record pos pg = if v.metaPos.page = 0 then none else v.record pos pg := by
  by_cases first : v.metaPos.page = 0
  · obtain ⟨o, -, ok, rfl⟩ := ready.erase first
    rw [if_pos first, View.record_erased_ok (metaPos_inside inside) low ok]
  · rw [if_neg first, ready.same first]

theorem MetaStage.frame (stage : MetaStage may v pos v1) (inside : pos < reserveBlocksMeta)
    (low : v.metaPos.page < ssdPagesPerBlock) : Frame (· = pos) v v1 := by
  induction stage with
  | start => exact .refl _ v
  | erased => exact frame_erased (metaPos_inside inside)
  | written ready => exact (ready.frame inside).trans (frame_written (metaPos_inside inside) low)
  | read _ _ ih => exact ih.trans (frame_read (metaPos_inside inside) low)

/-- An erase that fails is an attempt that leaves nothing. -/
theorem pageWrite_erased {o : Outcome} (wipes : Wipes may) (inside : pos < reserveBlocksMeta)
    (first : v.metaPos.page = 0) (allowed : MayTable may v pos 0 flagErasetables o)
    (failed : o.ret ≠ .ok) : PageWrite v (v.erased pos o) pos := by
  have gone := wipes v pos o inside allowed failed
  refine ⟨frame_erased (metaPos_inside inside), View.sameRest_erased.metadata, clean_erased inside,
    fun pg low _ => ?_, .inr (.inl ?_)⟩
  · rw [if_pos first]
    exact gone pg low
  · exact gone _ (by rw [first]; decide)

/-- A program, whatever its outcome, is an attempt, up to the mark of its page. -/
theorem pageWrite_written {o u : Outcome} {kbuf : Mem} (inside : pos < reserveBlocksMeta)
    (low : v.metaPos.page < ssdPagesPerBlock) (valid : metadataCheckVal v.metadata = ssdOk)
    (ready : MetaReady may v pos v1) (sent : IsRecord v.metadata kbuf)
    (answer : o.ret = .ok → o.taken = false → u.ret ≠ .ok) :
    PageWrite v ((v1.written pos v.metaPos.page o kbuf).read pos v.metaPos.page u) pos := by
  have inside' := metaPos_inside inside
  refine ⟨((ready.frame inside).trans (frame_written inside' low)).trans (frame_read inside' low), ?_,
    fun clean => ?_, fun pg low' other => ?_, ?_⟩
  · exact View.sameRest_read.metadata.trans
      (View.sameRest_written.metadata.trans ready.sameRest.metadata)
  · refine clean_read inside low fun pos' pg' inside'' low' mark => ?_
    rw [View.suspect_written inside' (metaPos_inside inside'') low low'] at mark
    split at mark
    · rename_i same
      simp only [Bool.and_eq_true, decide_eq_true_eq, Bool.not_eq_true'] at mark
      exact ⟨answer mark.1 mark.2, same⟩
    · rw [ready.clean inside clean pos' pg' inside'' low'] at mark
      cases mark
  · rw [View.record_read, View.record_written_other inside' inside' low low' fun both => other both.2,
      ready.record inside low']
  · rw [View.record_read, View.record_written inside' low valid sent, ready.record inside low]
    split
    · exact .inl rfl
    · split
      · split
        · exact .inr (.inl rfl)
        · rename_i later
          exact .inr (.inr ⟨later, rfl⟩)
      · exact .inr (.inl rfl)

/-- **One plane**, for every outcome. -/
theorem writeMetaPage_spec {b plane : Nat} (wipes : Wipes may) (group : b < metaBitmapSize)
    (inside : plane < ssdMaxPlanes) (atGroup : v.metaPos.blockPos = b * ssdMaxPlanes)
    (low : v.metaPos.page < ssdPagesPerBlock) (valid : metadataCheckVal v.metadata = ssdOk)
    (each : ∀ v', MetaStage may v (b * ssdMaxPlanes + plane) v' → must v') :
    OnView must may (writeMetaPage plane) (fun ret v' => PageWrite v v' (b * ssdMaxPlanes + plane) ∧
      (v.metaPos.page = 0 → ∃ o, MayTable may v (b * ssdMaxPlanes + plane) 0 flagErasetables o) ∧
      (ret = ssdOk → v'.record (b * ssdMaxPlanes + plane) v.metaPos.page = some v.metadata) ∧
      (Flawless may → ret = ssdOk)) v := by
  have insidePos := groupPos_lt group inside
  have insideTotal := metaPos_inside insidePos
  rw [writeMetaPage]
  refine OnView.seq (OnView.getMetaPos (each v .start)) ?_
  rintro p v' ⟨rfl, rfl⟩
  rw [atGroup, if_neg (by simp only [ssdMaxPlanes]; omega)]
  generalize atPos : b * ssdMaxPlanes + plane = pos at *
  -- the block is ready, or its erase has failed
  refine OnView.seq (M := fun ret v1 => must v1 ∧
      (v'.metaPos.page = 0 → ∃ o, MayTable may v' pos 0 flagErasetables o) ∧
      (ret = ssdOk ∧ MetaReady may v' pos v1 ∨
        ret ≠ ssdOk ∧ ¬ Flawless may ∧ PageWrite v' v1 pos)) ?_ ?_
  · rw [eraseIfFirstPage]
    by_cases first : v'.metaPos.page = 0
    · rw [if_pos first]
      refine (eraseOneReserveBlock_spec (fun o allowed _ => each _ (.erased first allowed))
        (each v' .start) insideTotal).weaken ?_
      rintro ret v1 ⟨o, allowed, rfl, rfl⟩
      refine ⟨each _ (.erased first allowed), fun _ => ⟨o, allowed⟩, ?_⟩
      by_cases ok : o.ret = .ok
      · refine .inl ⟨by rw [ok]; rfl, ?_⟩
        rw [MetaReady, if_pos first]
        exact ⟨o, allowed, ok, rfl⟩
      · refine .inr ⟨fun eq => ok (ChannelRet.toInt_eq_zero.1 eq), fun flawless => ok ?_,
          pageWrite_erased wipes insidePos first allowed ok⟩
        exact (MayTable.ok flawless allowed (by decide) (by decide) (by decide)).1
    · rw [if_neg first]
      exact OnView.pure ⟨each v' .start, fun no => absurd no first, .inl ⟨rfl, by
        rw [MetaReady, if_neg first]⟩⟩
  · rintro ret v1 ⟨still, asked, ⟨rfl, ready⟩ | ⟨failed, flaw, wrote⟩⟩
    · rw [if_neg (by decide)]
      have metadata := ready.sameRest.metadata
      refine OnView.seq (writeOneReservePage_spec (fun o kbuf allowed sent _ =>
        each _ (.written ready allowed (by rwa [metadata] at sent))) still insideTotal low) ?_
      rintro ret v2 ⟨o, kbuf, allowed, sent, rfl, rfl⟩
      rw [metadata] at sent
      have stage : MetaStage may v' pos (v1.written pos v'.metaPos.page o kbuf) :=
        .written ready allowed sent
      split
      · rename_i failed
        have bad : o.ret ≠ .ok := fun ok => failed (by rw [ok]; rfl)
        have wrote := pageWrite_written (u := succeeds) insidePos low valid ready sent
          (fun ok => absurd ok bad)
        rw [View.read, if_pos (show succeeds.ret = .ok from rfl)] at wrote
        refine OnView.pure ⟨wrote, asked, fun ok => absurd ok failed, fun flawless => ?_⟩
        exact absurd (MayTable.ok flawless allowed low (by decide) (by decide)).1 bad
      · rename_i done
        have ok : o.ret = .ok := ChannelRet.toInt_eq_zero.1 (not_not.1 done)
        refine (readOneReservePage_spec (fun o' _ _ => each _ (.read o' stage)) (each _ stage)
          insideTotal low).weaken ?_
        rintro ret v3 ⟨o', allowed', rfl, rfl, intact⟩
        have effect : o'.ret = .ok → o.taken = true := by
          intro ok'
          have unmarked := (intact ok').2
          rw [View.suspect_written insideTotal insideTotal low low, if_pos ⟨rfl, rfl⟩, ok] at unmarked
          simpa using unmarked
        refine ⟨pageWrite_written insidePos low valid ready sent fun _ lost ok' => ?_, asked,
          fun ok' => ?_, fun flawless => ?_⟩
        · rw [effect ok'] at lost
          cases lost
        · rw [View.record_read, View.record_written insideTotal low valid sent,
            if_pos ⟨ok, effect (ChannelRet.toInt_eq_zero.1 ok')⟩]
        · have taken := (MayTable.ok flawless allowed low (by decide) (by decide)).2
          have read := MayTable.ok_read (m := clip ssdPageSize kbuf) flawless allowed' low (by
            rw [View.page_written insideTotal insideTotal low low, if_pos ⟨rfl, rfl⟩, View.programmed,
              ok, taken]
            rfl) (by
            rw [View.suspect_written insideTotal insideTotal low low, if_pos ⟨rfl, rfl⟩, ok, taken]
            rfl)
          rw [read]
          rfl
    · rw [if_pos failed]
      exact OnView.pure ⟨wrote, asked, fun ok => absurd ok failed, fun flawless =>
        absurd flawless flaw⟩

/-! ## Four planes -/

/-- What the attempts on the planes below `k` leave in group `b`. -/
structure Attempt (v v' : View) (b k : Nat) : Prop where
  frame : Frame (fun pos => ∃ plane < k, pos = b * ssdMaxPlanes + plane) v v'
  metadata : v'.metadata = v.metadata
  clean : v.Clean → v'.Clean
  others : ∀ plane < k, ∀ pg < ssdPagesPerBlock, pg ≠ v.metaPos.page →
    v'.record (b * ssdMaxPlanes + plane) pg =
      if v.metaPos.page = 0 then none else v.record (b * ssdMaxPlanes + plane) pg
  page : ∀ plane < k, v'.record (b * ssdMaxPlanes + plane) v.metaPos.page = some v.metadata ∨
    v'.record (b * ssdMaxPlanes + plane) v.metaPos.page = none ∨
    v.metaPos.page ≠ 0 ∧ v'.record (b * ssdMaxPlanes + plane) v.metaPos.page =
      v.record (b * ssdMaxPlanes + plane) v.metaPos.page

theorem Attempt.zero (v : View) (b : Nat) : Attempt v v b 0 :=
  ⟨.refl _ v, rfl, id, fun _ no => absurd no (Nat.not_lt_zero _), fun _ no =>
    absurd no (Nat.not_lt_zero _)⟩

/-- A plane that has not been attempted is as it was. -/
theorem Attempt.later {b k plane pg : Nat} (attempt : Attempt v v1 b k) (group : b < metaBitmapSize)
    (inside : plane < ssdMaxPlanes) (above : k ≤ plane) (low : pg < ssdPagesPerBlock) :
    v1.record (b * ssdMaxPlanes + plane) pg = v.record (b * ssdMaxPlanes + plane) pg := by
  refine View.record_frame attempt.frame (metaPos_inside (groupPos_lt group inside)) ?_ low
  rintro ⟨other, less, eq⟩
  omega

theorem Attempt.succ {b k : Nat} {v' : View} (attempt : Attempt v v1 b k) (group : b < metaBitmapSize)
    (inside : k < ssdMaxPlanes) (low : v.metaPos.page < ssdPagesPerBlock)
    (wrote : PageWrite v1 v' (b * ssdMaxPlanes + k)) : Attempt v v' b (k + 1) := by
  have samePos := attempt.frame.metaPos
  have kept : ∀ plane < k, ∀ pg < ssdPagesPerBlock, v'.record (b * ssdMaxPlanes + plane) pg =
      v1.record (b * ssdMaxPlanes + plane) pg := fun plane less pg low =>
    View.record_frame wrote.frame (metaPos_inside (groupPos_lt group (Nat.lt_trans less inside)))
      (fun eq => by omega) low
  refine ⟨?_, wrote.metadata.trans attempt.metadata, fun clean => wrote.clean (attempt.clean clean),
    fun plane less pg low' other => ?_, fun plane less => ?_⟩
  · refine (attempt.frame.mono ?_).trans (wrote.frame.mono ?_)
    · rintro pos ⟨plane, less, rfl⟩
      exact ⟨plane, Nat.lt_succ_of_lt less, rfl⟩
    · rintro pos rfl
      exact ⟨k, Nat.lt_succ_self k, rfl⟩
  · rcases Nat.lt_succ_iff_lt_or_eq.1 less with below | rfl
    · rw [kept plane below pg low', attempt.others plane below pg low' other]
    · rw [wrote.others pg low' (by rwa [samePos]), samePos,
        attempt.later group inside (Nat.le_refl _) low']
  · rcases Nat.lt_succ_iff_lt_or_eq.1 less with below | rfl
    · rw [kept plane below _ low]
      exact attempt.page plane below
    · have page := wrote.page
      rwa [samePos, attempt.metadata, attempt.later group inside (Nat.le_refl _) low] at page

/-- The states between two commands of an attempt. -/
def AttemptStage (may : May) (v : View) (b : Nat) (v' : View) : Prop :=
  ∃ k v1, k < ssdMaxPlanes ∧ Attempt v v1 b k ∧
    (Flawless may → ∀ plane < k, v1.record (b * ssdMaxPlanes + plane) v.metaPos.page = some v.metadata) ∧
    MetaStage may v1 (b * ssdMaxPlanes + k) v'

/-- Only the group of the attempt changes. -/
theorem AttemptStage.frame {b : Nat} (stage : AttemptStage may v b v1) (group : b < metaBitmapSize)
    (low : v.metaPos.page < ssdPagesPerBlock) :
    Frame (fun pos => ∃ plane < ssdMaxPlanes, pos = b * ssdMaxPlanes + plane) v v1 := by
  obtain ⟨k, v2, inside, attempt, -, stage⟩ := stage
  refine (attempt.frame.mono ?_).trans ((stage.frame (groupPos_lt group inside) ?_).mono ?_)
  · rintro pos ⟨plane, less, rfl⟩
    exact ⟨plane, Nat.lt_trans less inside, rfl⟩
  · rw [attempt.frame.metaPos]
    exact low
  · rintro pos rfl
    exact ⟨k, inside, rfl⟩

theorem writeMetaPages_spec {b k m success : Nat} (wipes : Wipes may) (group : b < metaBitmapSize)
    (atGroup : v.metaPos.blockPos = b * ssdMaxPlanes) (low : v.metaPos.page < ssdPagesPerBlock)
    (valid : metadataCheckVal v.metadata = ssdOk) (each : ∀ v', AttemptStage may v b v' → must v')
    (total : k + m = ssdMaxPlanes) (attempt : Attempt v v1 b k)
    (asked : k = 0 ∧ v1 = v ∨
      (v.metaPos.page = 0 → ∃ o, MayTable may v (b * ssdMaxPlanes) 0 flagErasetables o))
    (some' : 0 < success → ∃ plane < k, v1.record (b * ssdMaxPlanes + plane) v.metaPos.page =
      some v.metadata)
    (all : Flawless may → success = k ∧
      ∀ plane < k, v1.record (b * ssdMaxPlanes + plane) v.metaPos.page = some v.metadata) :
    OnView must may (writeMetaPages (List.range' k m) success) (fun success' v' =>
      Attempt v v' b ssdMaxPlanes ∧
      (v.metaPos.page = 0 → ∃ o, MayTable may v (b * ssdMaxPlanes) 0 flagErasetables o) ∧
      (0 < success' → ∃ plane < ssdMaxPlanes, v'.record (b * ssdMaxPlanes + plane) v.metaPos.page =
        some v.metadata) ∧
      (Flawless may → success' = ssdMaxPlanes ∧ ∀ plane < ssdMaxPlanes,
        v'.record (b * ssdMaxPlanes + plane) v.metaPos.page = some v.metadata)) v1 := by
  induction m generalizing k success v1 with
  | zero =>
      obtain rfl : k = ssdMaxPlanes := total
      refine OnView.pure ⟨attempt, ?_, some', all⟩
      rcases asked with ⟨no, -⟩ | asked
      · cases no
      · exact asked
  | succ m ih =>
      have inside : k < ssdMaxPlanes := by omega
      have samePos := attempt.frame.metaPos
      rw [List.range'_succ, writeMetaPages]
      refine OnView.seq (writeMetaPage_spec wipes group inside (by rw [samePos, atGroup])
        (by rwa [samePos]) (by rwa [attempt.metadata]) fun v' stage =>
          each v' ⟨k, v1, inside, attempt, fun flawless => (all flawless).2, stage⟩) ?_
      rintro ret v2 ⟨wrote, erased, done, fine⟩
      rw [samePos] at erased done
      rw [attempt.metadata] at done
      have kept : ∀ plane < k, v2.record (b * ssdMaxPlanes + plane) v.metaPos.page =
          v1.record (b * ssdMaxPlanes + plane) v.metaPos.page := fun plane less =>
        View.record_frame wrote.frame (metaPos_inside (groupPos_lt group (Nat.lt_trans less inside)))
          (fun eq => by omega) low
      refine ih (by omega) (attempt.succ group inside low wrote) (.inr fun first => ?_)
        (fun positive => ?_) fun flawless => ?_
      · rcases asked with ⟨rfl, rfl⟩ | asked
        · exact erased first
        · exact asked first
      · split at positive
        · rename_i ok
          exact ⟨k, Nat.lt_succ_self k, done ok⟩
        · obtain ⟨plane, less, shown⟩ := some' positive
          exact ⟨plane, Nat.lt_succ_of_lt less, (kept plane less).trans shown⟩
      · obtain ⟨count, shown⟩ := all flawless
        have ok := fine flawless
        rw [if_pos ok, count]
        refine ⟨rfl, fun plane less => ?_⟩
        rcases Nat.lt_succ_iff_lt_or_eq.1 less with below | rfl
        · exact (kept plane below).trans (shown plane below)
        · exact done ok

theorem writeMetadataPageDuplicate_spec {b : Nat} (wipes : Wipes may) (group : b < metaBitmapSize)
    (atGroup : v.metaPos.blockPos = b * ssdMaxPlanes) (low : v.metaPos.page < ssdPagesPerBlock)
    (valid : metadataCheckVal v.metadata = ssdOk) (each : ∀ v', AttemptStage may v b v' → must v') :
    OnView must may writeMetadataPageDuplicate (fun ret v' => Attempt v v' b ssdMaxPlanes ∧
      (v.metaPos.page = 0 → ∃ o, MayTable may v (b * ssdMaxPlanes) 0 flagErasetables o) ∧
      (ret = ssdOk → ∃ plane < ssdMaxPlanes, v'.record (b * ssdMaxPlanes + plane) v.metaPos.page =
        some v.metadata) ∧
      (Flawless may → ret = ssdOk ∧ ∀ plane < ssdMaxPlanes,
        v'.record (b * ssdMaxPlanes + plane) v.metaPos.page = some v.metadata)) v := by
  rw [writeMetadataPageDuplicate, List.range_eq_range']
  refine OnView.seq (writeMetaPages_spec wipes group atGroup low valid each (Nat.zero_add _) (.zero v b)
    (.inl ⟨rfl, rfl⟩) (fun no => absurd no (Nat.lt_irrefl 0))
    fun _ => ⟨rfl, fun _ no => absurd no (Nat.not_lt_zero _)⟩) ?_
  rintro success v' ⟨attempt, asked, found, all⟩
  refine OnView.pure ⟨attempt, asked, fun ok => ?_, fun flawless => ?_⟩
  · split at ok
    · rename_i enough
      exact found (by simp only [ssdMinMetaDuplicate] at enough; omega)
    · cases ok
  · obtain ⟨rfl, shown⟩ := all flawless
    exact ⟨rfl, shown⟩

end Plane

end FpgaSsd.Theory
