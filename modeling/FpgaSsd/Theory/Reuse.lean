/-
# Theory.Reuse — a group of metadata blocks that is used again

The ten groups are used in turn, 256 records each. A group that is used again is erased plane by
plane, each just before its first page is written, and the search takes the group by its first
page but the record by the last page of any plane.

* `leads_first_plane` — a flush can be cut behind the first plane of its record;
* `reused_group_shows_older` — the search then selects a record of the last round;
* `atomicFlush_iff` — a flush is atomic exactly when it does not open a group that was used before.
-/
import FpgaSsd.Theory.Crash

namespace FpgaSsd.Theory

open FpgaSsd.Lib FpgaSsd.Driver FpgaSsd.Api

set_option autoImplicit false

/-! ## Between two planes -/

section Reuse

variable {v v1 v' : View} {b b' : Nat} {type : FlushType} {d : Device}

/-- The record that wins is that of the card without power. -/
theorem Wins.cycled {p : Nat} {r : SsdMetadata} (wins : Wins v b p r) (clean : v.Clean) (off : PowerCycle v v') :
    v'.Clean ∧ Wins v' b p r := by
  refine ⟨fun pos pg inside low => ?_, wins.congr fun g group pg low plane inside =>
    View.record_congr (off.pages _ (metaPos_inside (groupPos_lt group inside)) pg low).1⟩
  rw [(off.pages pos (metaPos_inside inside) pg low).2]
  exact clean pos pg inside low

/-- A search behind a loss of power. -/
theorem Wins.search {d1 d2 : Device} {ret : Int} {p : Nat} {r : SsdMetadata} (wins : Wins v b p r) (clean : v.Clean)
    (off : PowerCycle v (view d1)) (search : Run noFailure ssdSearchMetadata d1 ret d2) :
    ret = ssdOk ∧ d2.metadata = r := by
  obtain ⟨clean1, wins1⟩ := wins.cycled clean off
  obtain ⟨answer, selected⟩ := (ssdSearchMetadata_spec noFailure_flawless clean1 wins1).runs search
  exact ⟨answer, congrArg View.metadata selected⟩

/-- A cut behind the first plane of a record. -/
theorem leads_first_plane {d1 : Device} (idle : Mirrors Held.flushing d1) (group : b' < metaBitmapSize)
    (atGroup : (nextMetaPos ssdOk d1.metaPos).blockPos = b' * ssdMaxPlanes)
    (low : (nextMetaPos ssdOk d1.metaPos).page < ssdPagesPerBlock) (valid : metadataCheckVal d1.metadata = ssdOk) :
    ∃ rest d', Reaches (Device.perform 0) noFailure flushRest d1 rest d' ∧
      PageWrite (view d1).moved (view d') (b' * ssdMaxPlanes) ∧
      (view d').record (b' * ssdMaxPlanes) (nextMetaPos ssdOk d1.metaPos).page = some d1.metadata := by
  let d2 : Device := { d1 with metaPos := nextMetaPos ssdOk d1.metaPos }
  have idle2 : Mirrors Held.flushing d2 := ⟨idle.sema, idle.flush, idle.issued⟩
  obtain ⟨ret, d3, run, -⟩ := exists_run noFailure_live idle2 (writeMetaPage_locks free_flushing 0)
  obtain ⟨wrote, -, shown, fine⟩ := (writeMetaPage_spec (v := view d2) noFailure_flawless.wipes group
    (by decide) atGroup low valid (fun _ _ => trivial : ∀ v', _ → always v')).runs run
  have leads : Leads (Device.perform 0) noFailure (fun _ t => t = d3) flushRest d1 := by
    refine Leads.bind ?_ fun _ _ => id
    rw [flushMetadata, flushMetadataLoop]
    have moved : Run noFailure (findNewMetaPos ssdOk) d1 ssdOk d2 :=
      .act (o := succeeds) ⟨rfl, rfl, fun _ _ => .inl rfl⟩ rfl (.pure _ _)
    refine Leads.seq moved ?_
    rw [if_neg (by decide)]
    refine Leads.bind ?_ fun _ _ => id
    refine Leads.bind ?_ fun _ _ => id
    exact Leads.seq run (Leads.here rfl)
  obtain ⟨rest, _, reach, rfl⟩ := leads
  exact ⟨rest, _, reach, wrote, shown (fine noFailure_flawless)⟩

/-- The last page of a group that shows a record. -/
theorem View.exists_last {pg : Nat} {y : SsdMetadata} (low : pg < ssdPagesPerBlock)
    (found : v.firstRecord b pg = some y) :
    ∃ p r, pg ≤ p ∧ p < ssdPagesPerBlock ∧ v.firstRecord b p = some r ∧
      ∀ q, p < q → q < ssdPagesPerBlock → v.firstRecord b q = none := by
  let shows : Nat → Bool := fun q => (v.firstRecord b q).isSome
  have here : shows pg = true := by simp only [shows, found, Option.isSome_some]
  have bound : pg ≤ ssdPagesPerBlock - 1 := Nat.le_pred_of_lt low
  have top := Nat.findGreatest_spec (P := fun q => shows q = true) bound here
  have le := Nat.findGreatest_le (P := fun q => shows q = true) (ssdPagesPerBlock - 1)
  obtain ⟨r, shown⟩ := Option.isSome_iff_exists.1 top
  refine ⟨_, r, Nat.le_findGreatest bound here, Nat.lt_of_le_pred (by decide) le, shown, fun q beyond below => ?_⟩
  have none := Nat.findGreatest_is_greatest beyond (Nat.le_pred_of_lt below)
  simpa [shows] using none

/-- **What the search selects there**: the first plane shows the new record, and the others still
show the pages of the last round, which are above it. -/
theorem PageWrite.reused (settled : Settled v b) (tabled : Tabled type v v1)
    (newer : v.metadata.version < v1.metadata.version)
    (group : b' < metaBitmapSize) (first : (nextMetaPos ssdOk v.metaPos).page = 0)
    (wrote : PageWrite v1.moved v' (b' * ssdMaxPlanes)) (new : v'.record (b' * ssdMaxPlanes) 0 = some v1.metadata)
    {plane pg : Nat} {x : SsdMetadata} (inside : plane < ssdMaxPlanes) (later : plane ≠ 0) (low : pg < ssdPagesPerBlock)
    (above : 0 < pg) (shown : v.record (b' * ssdMaxPlanes + plane) pg = some x) :
    ∃ p r, Wins v' b' p r ∧ ∃ k < ssdMaxPlanes, v.record (b' * ssdMaxPlanes + k) p = some r := by
  have first1 : v1.moved.metaPos.page = 0 := by rw [tabled.next, first]
  have positive : 0 < v1.metadata.version := UInt64.lt_trans settled.area.positive newer
  have kept : ∀ pos < reserveBlocksMeta, pos ≠ b' * ssdMaxPlanes → ∀ q < ssdPagesPerBlock,
      v'.record pos q = v.record pos q := fun pos below other q low =>
    (View.record_frame wrote.frame (metaPos_inside below) other low).trans
      (tabled.records below low)
  have wiped : ∀ q < ssdPagesPerBlock, q ≠ 0 → v'.record (b' * ssdMaxPlanes) q = none := by
    intro q low other
    rw [wrote.others q low (by rwa [first1]), if_pos first1]
  have still : v'.record (b' * ssdMaxPlanes + plane) pg = some x := by
    rw [kept _ (groupPos_lt group inside) (fun eq => later (by omega)) pg low, shown]
  obtain ⟨y, onPage⟩ := View.firstRecord_isSome inside still
  obtain ⟨p, r, high, small, found, last⟩ := View.exists_last low onPage
  obtain ⟨k, less, source⟩ := View.firstRecord_mem found
  have notFirst : k ≠ 0 := by
    rintro rfl
    rw [Nat.add_zero, wiped p small (by omega)] at source
    cases source
  refine ⟨p, r, ⟨group, small, ⟨v1.metadata, ?_, positive, fun g y group' other found' => ?_⟩, last, found⟩,
    k, less, ?_⟩
  · rw [View.firstRecord, show List.range ssdMaxPlanes = 0 :: [1, 2, 3] from rfl,
      List.findSome?_cons, Nat.add_zero, new]
  · obtain ⟨k', less', source'⟩ := View.firstRecord_mem found'
    have below := groupPos_lt group' less'
    rw [kept _ below (fun eq => other ?_) 0 (by decide)] at source'
    · exact UInt64.lt_of_le_of_lt (settled.area.versions _ below 0 (by decide) y source').2 newer
    · simp only [ssdMaxPlanes] at *
      omega
  · rw [← kept _ (groupPos_lt group less) (fun eq => notFirst (by omega)) p small]
    exact source

/-- **A flush that uses a group again.** When a plane behind the first still shows a
later page of the last round, the flush can be cut so that the search selects a record of that
round instead of the last one or the new one. -/
theorem reused_group_shows_older (idle : Mirrors Held.none d) (settled : Settled (view d) b)
    (few : (view d).nodes.length ≤ ssdMaxIdNum) (room : d.metadata.version.toNat + 1 < 2 ^ 64) (type : FlushType)
    (first : (nextMetaPos ssdOk d.metaPos).page = 0) {plane pg : Nat} {x : SsdMetadata} (inside : plane < ssdMaxPlanes)
    (later : plane ≠ 0) (low : pg < ssdPagesPerBlock) (above : 0 < pg)
    (shown : (view d).record ((nextMetaPos ssdOk d.metaPos).blockPos + plane) pg = some x)
    (older : ∀ k < ssdMaxPlanes, ∀ q < ssdPagesPerBlock, ∀ y,
      (view d).record ((nextMetaPos ssdOk d.metaPos).blockPos + k) q = some y → y.version < d.metadata.version) :
    ∃ rest d', Reaches (Device.perform 0) noFailure (ssdSysFlush type) d rest d' ∧
      ∀ {d1 d2 ret}, PowerCycle (view d') (view d1) → Run noFailure ssdSearchMetadata d1 ret d2 →
        ret = ssdOk ∧ d2.metadata.version < d.metadata.version ∧ ∃ k < ssdMaxPlanes, ∃ q < ssdPagesPerBlock,
          (view d).record ((nextMetaPos ssdOk d.metaPos).blockPos + k) q = some d2.metadata := by
  obtain ⟨b', group, atGroup, below⟩ := settled.next
  obtain ⟨d1, idle1, tabled, -, reach⟩ := reaches_record (fun _ _ _ => id) idle settled.opened few type
  have samePos : d1.metaPos = d.metaPos := tabled.frame.metaPos
  have newer := tabled.newer room
  obtain ⟨rest, d', reach', wrote, new⟩ := leads_first_plane idle1 group (by rw [samePos]; exact atGroup)
    (by rw [samePos]; exact below) tabled.valid
  rw [samePos, first] at new
  have base : (nextMetaPos ssdOk d.metaPos).blockPos = b' * ssdMaxPlanes := atGroup
  rw [base] at shown older ⊢
  obtain ⟨p, r, wins, k, less, source⟩ := wrote.reused settled tabled newer group first new inside later low above shown
  have clean : (view d').Clean := wrote.clean (settled.area.keep tabled.pages samePos (UInt64.le_of_lt newer)).clean
  refine ⟨rest, d', reach.trans reach', fun {d2 d3 ret} off search => ?_⟩
  obtain ⟨answer, record⟩ := wins.search clean off search
  rw [record]
  exact ⟨answer, older k less p wins.page r source, k, less, p, wins.page, source⟩

end Reuse

/-! ## Lives -/

/-- The search selects the last record, or the one that the flush has made at `d'`. -/
def SelectsOldOrNew (es : List CardEvent) (d d' d2 : Device) : Prop :=
  lastFlush es ≠ none ∧ d2.metadata = d.metadata ∨
    d.metadata.version < d'.metadata.version ∧ d2.metadata = d'.metadata

/-- Behind every cut of the flush and a loss of power, the search answers the last record or the
new one; without a record before, it may also find none. -/
def AtomicFlush (es : List CardEvent) (d : Device) (type : FlushType) : Prop := ∀ {rest d' d1 d2 ret},
  Reaches (Device.perform 0) noFailure (ssdSysFlush type) d rest d' → PowerCycle (view d') (view d1) →
    Run noFailure ssdSearchMetadata d1 ret d2 →
      ret = ssdOk ∧ SelectsOldOrNew es d d' d2 ∨ lastFlush es = none ∧ ret ≠ ssdOk

/-- Behind some cut of the flush and a loss of power, the search answers a record that the group of
the next record shows from the round before. -/
def SelectsOlder (d : Device) (type : FlushType) : Prop := ∃ rest d',
  Reaches (Device.perform 0) noFailure (ssdSysFlush type) d rest d' ∧
    ∀ {d1 d2 ret}, PowerCycle (view d') (view d1) → Run noFailure ssdSearchMetadata d1 ret d2 →
      ret = ssdOk ∧ d2.metadata.version < d.metadata.version ∧ ∃ k < ssdMaxPlanes, ∃ q < ssdPagesPerBlock,
        (view d).record ((nextMetaPos ssdOk d.metaPos).blockPos + k) q = some d2.metadata

section Lives

variable {may : May} {lib : Library} {es : List CardEvent} {d : Device}

/-- A card without power. -/
def offDevice (d : Device) : Device :=
  { emptyDevice with ch := fun c => { emptyChannel with flash := (d.ch c).flash }, opened := false }

theorem offDevice_mirrors (d : Device) : Mirrors Held.none (offDevice d) := ⟨fun _ => rfl, rfl, fun _ => rfl⟩

theorem offDevice_cycle (d : Device) : PowerCycle (view d) (view (offDevice d)) := ⟨.of_flash rfl, rfl⟩

/-- In the first round, and within a group, a flush is atomic. -/
theorem NextFree.atomic (run : CardRun may lib es d) (few : es.length + 2 < 2 ^ 64) (free : NextFree (view d))
    (type : FlushType) : AtomicFlush es d type := by
  intro rest d' d1 d2 ret cut off search
  have inv := run.inv (Nat.lt_of_succ_lt few)
  obtain ⟨ids, room⟩ := inv.room few
  have new : Wrote type (view d) (view d') → ret = ssdOk ∧ SelectsOldOrNew es d d' d2 := by
    rintro ⟨b, image, flushed⟩
    obtain ⟨answer, record⟩ := flushed.holds.wins.search flushed.holds.clean off search
    exact ⟨answer, .inr ⟨flushed.newer, record⟩⟩
  cases inv.recorded with
  | unflushed never bare =>
      obtain ⟨b, settled⟩ := inv.settled
      have none : NoRecords (view d) := fun pos inside pg low => bare.record inside low
      have atomic := ssdSysFlush_atomic noFailure_flawless settled (visible_none _) ids room free
        ⟨settled.area.clean, none⟩ type
      rcases atomic.cut cut with (old | ⟨wrote, -⟩) | ⟨_, -, -, wrote, -⟩
      · obtain ⟨clean, empty⟩ := (visible_none (view d')).keep (.of_pages old.1 off.pages) old
        have found := (ssdSearchMetadata_none noFailure_flawless clean fun g group =>
          View.firstRecord_none fun plane inside => empty _ (groupPos_lt group inside) 0 (by decide)).runs search
        refine .inr ⟨never, ?_⟩
        rw [found.1]
        decide
      · exact .inl (new wrote)
      · exact .inl (new wrote)
  | @flushed later earlier e last d0 _ b image quiet kind before written settled flushed =>
      have atomic :=
        ssdSysFlush_atomic noFailure_flawless settled (flushed.visible ids) ids room free flushed.holds type
      rcases atomic.cut cut with (old | ⟨wrote, -⟩) | ⟨_, -, -, wrote, -⟩
      · obtain ⟨answer, record⟩ := old.wins.search old.clean off search
        refine .inl ⟨answer, .inl ⟨?_, record⟩⟩
        rw [lastFlush, List.findSome?_append, List.findSome?_eq_none_iff.2 quiet, List.findSome?_cons, kind]
        exact Option.some_ne_none _
      · exact .inl (new wrote)
      · exact .inl (new wrote)

/-- Behind whole groups of a later round a record of the round before is selected. -/
theorem Round.older_selected {n : Nat} (round : Round n (view d)) (few : (view d).nodes.length ≤ ssdMaxIdNum)
    (room : n + 2 < 2 ^ 64) (mirrors : Mirrors Held.none d) (later : roundRecords ≤ n)
    (whole : n % ssdPagesPerBlock = 0) (type : FlushType) : SelectsOlder d type := by
  have next : nextMetaPos ssdOk d.metaPos = roundPos (n + 1) := by
    rw [show d.metaPos = roundPos n from round.place, nextMetaPos_round]
  simp only [roundRecords, metaBitmapSize, ssdPagesPerBlock] at later whole
  -- the group was filled nine groups ago
  have group : roundGroup (n + 1) = roundGroup (n - 2304) := by
    simp only [roundGroup]
    omega
  have block : (nextMetaPos ssdOk d.metaPos).blockPos = roundGroup (n + 1) * ssdMaxPlanes := by
    rw [next]
    rfl
  have first : (nextMetaPos ssdOk d.metaPos).page = 0 := by
    rw [next]
    simp only [roundPos]
    omega
  obtain ⟨x, shown⟩ := round.shows (n - 2304) (by omega) (by omega) (by omega) (by omega)
  rw [← group, ← block] at shown
  have older : ∀ k < ssdMaxPlanes, ∀ q < ssdPagesPerBlock, ∀ y,
      (view d).record ((nextMetaPos ssdOk d.metaPos).blockPos + k) q = some y → y.version < d.metadata.version := by
    intro k less q low y found
    rw [block] at found
    refine round.older _ (groupPos_lt (roundGroup_lt _) less) ?_ q low y found
    rw [plane_div less]
    simp only [roundGroup]
    omega
  have room' : d.metadata.version.toNat + 1 < 2 ^ 64 := by
    rw [show d.metadata.version.toNat = n + 1 from round.version]
    exact room
  exact reused_group_shows_older mirrors round.settled few room' type first (by decide) (by decide) (by decide)
    (by decide) shown older

/-- Such a flush is not atomic. -/
theorem SelectsOlder.not_atomic {type : FlushType} (selects : SelectsOlder d type) : ¬ AtomicFlush es d type := by
  intro atomic
  obtain ⟨rest, d', cut, selects⟩ := selects
  obtain ⟨ret, d2, search, -⟩ := exists_run noFailure_live (offDevice_mirrors d') (ssdSearchMetadata_locks free_none)
  obtain ⟨answer, old, -⟩ := selects (offDevice_cycle d') search
  rcases atomic cut (offDevice_cycle d') search with ⟨-, ⟨-, same⟩ | ⟨newer, same⟩⟩ | ⟨-, failed⟩
  · rw [same] at old
    exact UInt64.lt_irrefl _ old
  · rw [same] at old
    exact UInt64.lt_asymm newer old
  · exact failed answer

/-- **When a flush is atomic**: exactly when it does not open a group that was used before, and
otherwise a record of the round before may be selected. -/
theorem atomicFlush_iff (run : CardRun may lib es d) (few : es.length + 2 < 2 ^ 64) (mirrors : Mirrors Held.none d)
    (type : FlushType) :
    (AtomicFlush es d type ↔ flushes es < roundRecords ∨ flushes es % ssdPagesPerBlock ≠ 0) ∧
      (¬ (flushes es < roundRecords ∨ flushes es % ssdPagesPerBlock ≠ 0) → SelectsOlder d type) := by
  have round := run.round (Nat.lt_of_succ_lt few)
  have inv := run.inv (Nat.lt_of_succ_lt few)
  have le := flushes_le es
  have older : ¬ (flushes es < roundRecords ∨ flushes es % ssdPagesPerBlock ≠ 0) → SelectsOlder d type := by
    intro reused
    rw [not_or, not_not, Nat.not_lt] at reused
    exact round.older_selected (inv.room few).1 (by omega) mirrors reused.1 reused.2 type
  refine ⟨⟨fun atomic => ?_, fun fresh => (round.free fresh).atomic run few type⟩, older⟩
  by_contra reused
  exact (older reused).not_atomic atomic

/-- A life with `n` flushes. -/
theorem exists_flushes (n : Nat) : ∃ es d, CardRun anyOutcome openLibrary es d ∧
    Mirrors Held.none d ∧ es.length = n ∧ flushes es = n := by
  induction n with
  | zero =>
      obtain ⟨d, run, -, mirrors⟩ := exists_initialised anyOutcome openLibrary
      exact ⟨[], d, run, mirrors, rfl, rfl⟩
  | succ n ih =>
      obtain ⟨es, d, run, mirrors, length, count⟩ := ih
      obtain ⟨ret, d', flush, mirrors'⟩ := exists_run noFailure_live mirrors (ssdSysFlush_locks free_none rfl .normal)
      refine ⟨_, d', run.flush flush, mirrors', by rw [List.length_cons, length], ?_⟩
      rw [← count]
      rfl

/-- **A life that opens a group again**: 2560 flushes. -/
theorem flush_of_second_round : ∃ es d, CardRun anyOutcome openLibrary es d ∧ flushes es = 2560 ∧
    ¬ AtomicFlush es d .normal ∧ SelectsOlder d .normal := by
  obtain ⟨es, d, run, mirrors, length, count⟩ := exists_flushes 2560
  have few : es.length + 2 < 2 ^ 64 := by
    rw [length]
    decide
  obtain ⟨atomic_iff, older⟩ := atomicFlush_iff run few mirrors .normal
  rw [count] at atomic_iff older
  have reused : ¬ (2560 < roundRecords ∨ 2560 % ssdPagesPerBlock ≠ 0) := by decide
  exact ⟨es, d, run, count, fun atomic => reused (atomic_iff.1 atomic), older reused⟩

end Lives

end FpgaSsd.Theory
