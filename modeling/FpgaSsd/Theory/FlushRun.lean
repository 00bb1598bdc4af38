/-
# Theory.FlushRun — one flush without failures

The course of `ssd_sys_flush` when nothing fails: the image and its blocks
(`Tabled`), then one attempt to write the record, which succeeds on all planes
(`Flushed`).

* `ssdSysFlush_flawless` — the triple, with what must hold where the power can
  fail: `early` up to the new record in memory, `must` from then on;
* `exists_tables` — such runs exist up to the record.
-/
import FpgaSsd.Theory.Image
import FpgaSsd.Theory.MetaArea

namespace FpgaSsd.Theory

open FpgaSsd.Lib FpgaSsd.Driver

set_option autoImplicit false

/-- The state after `flush_tabledata`: the image of `v` is in the next blocks of the
ring, and the record that names them in memory. -/
structure Tabled (type : FlushType) (v v1 : View) : Prop where
  image : ImageOf v1.kbufFlush v
  frame : Frame (Ring (tableCur v.metadata) (ssdMaxFlushTableRetry * tableBlockNum v.nodes.length))
    (v.setImage v1.kbufFlush) v1
  record : ∃ now m off,
    Placed v.metadata m 0 (tableBlockNum v.nodes.length) (tableCur v.metadata) off ∧
      v1.metadata = flushed v.nodes.length type now m
  blocks : TablesHold v1 v1.metadata v1.kbufFlush

/-- The position of the next record moves on as after a success. -/
def View.moved (v : View) : View := { v with metaPos := nextMetaPos ssdOk v.metaPos }

/-- All planes of group `b` show the record at the position. -/
def AllPlanes (v : View) (b page : Nat) (m : SsdMetadata) : Prop :=
  ∀ plane < ssdMaxPlanes, v.record (b * ssdMaxPlanes + plane) page = some m

/-- The state after a flush that succeeds at once; `b` is the group of its record. -/
def Flushed (type : FlushType) (v v' : View) (b : Nat) : Prop := ∃ v1, Tabled type v v1 ∧
  Attempt v1.moved v' b ssdMaxPlanes ∧ AllPlanes v' b (nextMetaPos ssdOk v.metaPos).page v1.metadata

theorem updateMeta_valid (blockNum lastUsed : Nat) (type : FlushType) (n : Nat) (now : UInt64)
    (m : SsdMetadata) : metadataCheckVal (updateMeta blockNum lastUsed type n now m) = ssdOk := by
  cases type with
  | normal => exact if_neg fun both => both.1 rfl
  | close => exact if_neg fun both => both.2 rfl

theorem OnView.relax {α : Type} {must must' : View → Prop} {may : May} {p : Drv α}
    {post : α → View → Prop} {v : View} (triple : OnView must may p post v)
    (sub : ∀ v, must v → must' v) : OnView must' may p post v := fun d shows =>
  Safe.relax (triple d shows) id (fun d _ => sub (view d)) fun _ _ _ => id

section Flush

variable {early must : View → Prop} {may : May} {v : View} {b : Nat}

/-- The record of a flush without failures. -/
theorem flushMetadata_flawless (flawless : Flawless may) (group : b < metaBitmapSize)
    (atGroup : (nextMetaPos ssdOk v.metaPos).blockPos = b * ssdMaxPlanes)
    (low : (nextMetaPos ssdOk v.metaPos).page < ssdPagesPerBlock)
    (valid : metadataCheckVal v.metadata = ssdOk) (here : must v)
    (each : ∀ v', AttemptStage may v.moved b v' → must v') :
    OnView must may flushMetadata (fun ret v' => ret = ssdOk ∧ Attempt v.moved v' b ssdMaxPlanes ∧
      AllPlanes v' b (nextMetaPos ssdOk v.metaPos).page v.metadata) v := by
  rw [flushMetadata, flushMetadataLoop, findNewMetaPos]
  refine OnView.seq (M := fun ret v1 => ret = ssdOk ∧ v1 = v.moved) ?_ ?_
  · refine OnView.seq (OnView.modMetaPos here _) ?_
    rintro _ v1 ⟨rfl, -⟩
    exact OnView.pure ⟨rfl, rfl⟩
  rintro _ v1 ⟨rfl, rfl⟩
  rw [if_neg (by decide)]
  refine OnView.seq (writeMetadataPageDuplicate_spec (v := v.moved) flawless.wipes group atGroup low
    valid each) ?_
  rintro ret v2 ⟨attempt, -, -, all⟩
  obtain ⟨rfl, shown⟩ := all flawless
  rw [if_pos rfl]
  exact OnView.pure ⟨rfl, attempt, shown⟩

/-- **A flush without failures.** -/
theorem ssdSysFlush_flawless (flawless : Flawless may) (type : FlushType) (opened : v.opened = true)
    (few : v.nodes.length ≤ ssdMaxIdNum) (group : b < metaBitmapSize)
    (atGroup : (nextMetaPos ssdOk v.metaPos).blockPos = b * ssdMaxPlanes)
    (low : (nextMetaPos ssdOk v.metaPos).page < ssdPagesPerBlock) (blindImage : BlindImage early)
    (blind : Blind early
      (Ring (tableCur v.metadata) (ssdMaxFlushTableRetry * tableBlockNum v.nodes.length)))
    (here : early v) (sub : ∀ v, early v → must v)
    (late : ∀ v1 v', Tabled type v v1 → AttemptStage may v1.moved b v' → must v')
    (done : ∀ v', Flushed type v v' b → must v') :
    OnView must may (ssdSysFlush type) (fun ret v' => ret = ssdOk ∧ Flushed type v v' b) v := by
  rw [ssdSysFlush]
  refine OnView.seq (OnView.getOpened (sub v here)) ?_
  rintro flag v' ⟨rfl, rfl⟩
  rw [opened, if_neg (by decide)]
  refine OnView.seq (OnView.silent (a := .downFlush) (sub _ here) trivial) ?_
  rintro _ v1 rfl
  refine OnView.seq (M := fun ret v' => ret = ssdOk ∧ Flushed type v1 v' b) ?_ ?_
  · rw [ssdSysFlushBody]
    refine OnView.seq (M := fun _ v' => ∃ image, v' = v1.setImage image) ?_ ?_
    · refine (OnView.modFlush (sub _ here) _).weaken fun _ v' eq => ?_
      exact ⟨_, eq⟩
    rintro _ _ ⟨image, rfl⟩
    refine OnView.seq ((copyRamTables_spec blindImage (blindImage v1 image here)).relax sub) ?_
    rintro found _ ⟨image, rfl, tables, -, fine⟩
    obtain rfl := fine flawless
    refine OnView.seq ((copyIdHash_spec blindImage (blindImage v1 image here)).relax sub) ?_
    rintro n _ ⟨rfl, rfl⟩
    have imaged : ImageOf (putNodes v1.nodes 0 image) v1 := imageOf_putNodes (tables flawless.effective.tables rfl)
    refine OnView.seq ((flushTabledata_spec (v := v1.setImage (putNodes v1.nodes 0 image))
      v1.nodes.length type blind (blindImage v1 _ here)).relax sub) ?_
    rintro ret v2 ⟨frame, ⟨m, j, off, placed, -, -, answer⟩, fine⟩
    obtain rfl := fine flawless few
    obtain ⟨-, -, rfl, ⟨now, record⟩, blocks⟩ | ⟨bad, -⟩ := answer
    swap
    · exact absurd rfl bad
    rw [if_neg (by decide)]
    have image2 : v2.kbufFlush = putNodes v1.nodes 0 image := frame.kbufFlush
    have tabled : Tabled type v1 v2 :=
      ⟨by rwa [image2], by rwa [image2], ⟨now, m, off, placed, record⟩, by rwa [image2]⟩
    have samePos : v2.metaPos = v1.metaPos := frame.metaPos
    have valid : metadataCheckVal v2.metadata = ssdOk := by
      rw [record]
      exact updateMeta_valid ..
    refine (flushMetadata_flawless flawless group (by rwa [samePos]) (by rwa [samePos]) valid
      (sub v2 (blind frame (blindImage v1 _ here))) fun v' stage => late v2 v' tabled stage).weaken ?_
    rintro ret v' ⟨rfl, attempt, shown⟩
    rw [samePos] at shown
    exact ⟨rfl, v2, tabled, attempt, shown⟩
  · rintro ret v2 ⟨rfl, flushed⟩
    refine OnView.seq (OnView.silent (a := .upFlush) (done v2 flushed) trivial) ?_
    rintro _ v3 rfl
    exact OnView.pure ⟨rfl, flushed⟩

end Flush

/-! ## Such runs exist -/

/-- What a thread holds inside a flush. -/
def Held.flushing : Held := { Held.none with flush := true }

theorem free_flushing : Free Held.flushing := ⟨fun _ => rfl, fun _ => rfl⟩

/-- The end of a flush. -/
def flushRelease (ret : Int) : Drv Int := do
  Program.perform Act.upFlush
  pure ret

/-- What is left of a flush behind its image. -/
def flushImage (type : FlushType) (idNum : Nat) : Drv Int := do
  let ret ← flushTabledata idNum type
  if ret ≠ ssdOk then pure ret else flushMetadata

/-- What is left of a flush behind its tables. -/
def flushRest : Drv Int := do
  let ret ← flushMetadata
  Program.perform Act.upFlush
  pure ret

section Exists

variable {may : May} {d : Device}

/-- A flush up to its ids: the tables of all channels are in the image. -/
theorem reaches_ids (more : ∀ d a o, noFailure d a o → may d a o) (idle : Mirrors Held.none d)
    (opened : d.opened = true) (type : FlushType) : ∃ d1 image, Mirrors Held.flushing d1 ∧
      view d1 = (view d).setImage image ∧ TablesIn image (view d) ssdMaxChannel ∧
      Reaches (Device.perform 0) may (ssdSysFlush type) d (copyIdHash >>= flushImage type >>= flushRelease) d1 := by
  have flawless : Flawless noFailure := fun _ _ _ => id
  have blindImage : BlindImage always := fun _ _ _ => trivial
  -- the semaphore and the cleared image
  let d1 : Device := { d with flushSema := some 0 }
  let d2 : Device := { d1 with kbufFlush := fillBytes d1.kbufFlush 0 ssdMaxFlushSize 0 }
  have idle2 : Mirrors Held.flushing d2 := ⟨idle.sema, rfl, idle.issued⟩
  obtain ⟨found, d3, run3, idle3⟩ := exists_run noFailure_live idle2 (copyRamTables_locks free_flushing)
  obtain ⟨image3, view3, tables, -, fine3⟩ := (copyRamTables_spec (v := view d2) blindImage trivial).runs run3
  obtain rfl := fine3 flawless
  refine ⟨d3, image3, idle3, view3, tables flawless.effective.tables rfl, ?_⟩
  have one : ∀ {a : Act} {d d' : Device} {r : a.Reply}, d.perform 0 a succeeds = some (r, d') →
      Run may (Program.perform a) d r d' := fun step =>
    .act (more _ _ _ ⟨rfl, rfl, fun _ _ => .inl rfl⟩) step (.pure _ _)
  have free : d.perform 0 .downFlush succeeds = some ((), d1) := by
    simp only [Device.perform]
    rw [if_pos (show d.flushSema = none from idle.flush)]
  have cleared : Run may (Drv.modFlush fun m => fillBytes m 0 ssdMaxFlushSize 0) d1 () d2 := one rfl
  have body : Reaches (Device.perform 0) may (ssdSysFlushBody type) d1 (copyIdHash >>= flushImage type) d3 :=
    cleared.then_reaches ((Runs.mono run3 more).then_reaches (.here _ _))
  have open' : d.perform 0 .getOpened succeeds = some (true, d) := by
    rw [← opened]
    rfl
  refine (one open').then_reaches ?_
  rw [if_neg (by decide)]
  exact (one free).then_reaches (body.bind _)

/-- A flush up to its record: every block at once at the next position. -/
theorem reaches_record (more : ∀ d a o, noFailure d a o → may d a o) (idle : Mirrors Held.none d)
    (opened : d.opened = true) (few : (view d).nodes.length ≤ ssdMaxIdNum) (type : FlushType) :
    ∃ d1, Mirrors Held.flushing d1 ∧ Tabled type (view d) (view d1) ∧
      (∃ m off now, Placed d.metadata m 0 (tableBlockNum (view d).nodes.length) (tableCur d.metadata) off ∧
        (∀ k ≤ tableBlockNum (view d).nodes.length, off k = k) ∧
        d1.metadata = flushed (view d).nodes.length type now m) ∧
      Reaches (Device.perform 0) may (ssdSysFlush type) d flushRest d1 := by
  have flawless : Flawless noFailure := fun _ _ _ => id
  have blindImage : BlindImage always := fun _ _ _ => trivial
  have blind : ∀ P, Blind always P := fun _ _ _ _ _ => trivial
  obtain ⟨d3, image3, idle3, view3, tables, reach⟩ := reaches_ids more idle opened type
  -- the id list and the blocks of the image
  obtain ⟨n, d4, run4, idle4⟩ := exists_run noFailure_live idle3 copyIdHash_locks
  obtain ⟨count, view4⟩ := (copyIdHash_spec (v := view d3) blindImage trivial).runs run4
  have sameNodes : (view d3).nodes = (view d).nodes := by
    rw [view3]
    rfl
  rw [sameNodes] at count view4
  obtain ⟨ret, d5, run5, idle5⟩ := exists_run noFailure_live idle4
    (flushTabledata_locks free_flushing n type)
  obtain ⟨frame, ⟨m, j, off, placed, -, steady, answer⟩, fine⟩ :=
    (flushTabledata_spec (v := view d4) n type (blind _) trivial).runs run5
  obtain rfl := fine flawless (by rwa [count])
  obtain ⟨-, -, rfl, ⟨now, record⟩, blocks⟩ | ⟨bad, -⟩ := answer
  swap
  · exact absurd rfl bad
  have image4 : (view d4).kbufFlush = putNodes (view d).nodes 0 image3 := by
    rw [view4, view3]
    rfl
  have same4 : view d4 = (view d).setImage (view d4).kbufFlush := by
    rw [view4, view3]
    rfl
  have sameMeta : (view d4).metadata = d.metadata := by
    rw [same4]
    rfl
  have image5 : (view d5).kbufFlush = (view d4).kbufFlush := frame.kbufFlush
  replace steady := steady flawless
  rw [sameMeta] at placed frame
  rw [count] at placed frame steady record
  rw [← image5] at blocks
  refine ⟨d5, idle5, ⟨?_, ?_, ⟨now, m, off, placed, record⟩, blocks⟩, ⟨m, off, now, placed, steady, record⟩, ?_⟩
  · rw [image5, image4]
    exact imageOf_putNodes tables
  · rw [image5, ← same4]
    exact frame
  · have rest : Reaches (Device.perform 0) may (copyIdHash >>= flushImage type) d3 flushMetadata d5 :=
      (Runs.mono run4 more).then_reaches ((Runs.mono run5 more).then_reaches (.here _ _))
    exact reach.trans (rest.bind _)

/-- The same with the end of the flush: what `flush_metadata` then answers is its answer. -/
theorem exists_tables (idle : Mirrors Held.none d) (opened : d.opened = true)
    (few : (view d).nodes.length ≤ ssdMaxIdNum) (type : FlushType) :
    ∃ d1 image, Mirrors Held.flushing d1 ∧
      Frame (Ring (tableCur d.metadata) (ssdMaxFlushTableRetry * tableBlockNum (view d).nodes.length))
        ((view d).setImage image) (view d1) ∧
      (∃ m off now, Placed d.metadata m 0 (tableBlockNum (view d).nodes.length)
          (tableCur d.metadata) off ∧
        (∀ k ≤ tableBlockNum (view d).nodes.length, off k = k) ∧
        d1.metadata = flushed (view d).nodes.length type now m) ∧
      ∀ {ret d2}, Run anyOutcome flushMetadata d1 ret d2 →
        Run anyOutcome (ssdSysFlush type) d ret { d2 with flushSema := none } := by
  obtain ⟨d1, idle1, tabled, record, reach⟩ := reaches_record (fun _ _ _ _ => trivial) idle opened few
    type
  refine ⟨d1, _, idle1, tabled.frame, record, fun {ret d2} run => (reach.trans (Runs.reaches ?_)).runs⟩
  have up : Run anyOutcome (Program.perform Act.upFlush) d2 () { d2 with flushSema := none } :=
    .act trivial (show d2.perform 0 .upFlush succeeds = _ from rfl) (.pure _ _)
  exact runs_bind_iff.2 ⟨ret, d2, run, runs_bind_iff.2 ⟨(), _, up, .pure _ _⟩⟩

end Exists

end FpgaSsd.Theory
