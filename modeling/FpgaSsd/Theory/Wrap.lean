/-
# Theory.Wrap — closing and opening, up to the wrap of the version

The search finds the newest group by the version of its first page, a counter of 64 bits that starts
again at 1. Inside a group it goes by the pages alone, so the records behind the wrap are found up to
the end of their group, and the first one of the next group is not.

* `Cycles` — flushes, and closes with an opening behind them; between two of them the ids, the tables
  and the data may become anything;
* `Newest.flush` — a flush inside a group, whatever its version;
* `close_then_open_restores` — behind fewer than 2^64 of them a close and an opening bring back every
  id and every table;
* `wrapped_close_is_lost` — behind 2^64 of them the opening finds the record before.
-/
import FpgaSsd.Theory.Rounds
import FpgaSsd.Theory.Unclean

namespace FpgaSsd.Theory

open FpgaSsd.Lib FpgaSsd.Driver FpgaSsd.Api

set_option autoImplicit false

/-! ## The newest group -/

/-- The group of the position shows the newest first page, and no page behind the position. -/
structure Newest (v : View) (b : Nat) : Prop where
  clean : v.Clean
  group : b < metaBitmapSize
  atGroup : v.metaPos.blockPos = b * ssdMaxPlanes
  ahead : ∀ plane < ssdMaxPlanes, ∀ pg, v.metaPos.page < pg → pg < ssdPagesPerBlock →
    v.record (b * ssdMaxPlanes + plane) pg = none
  first : ∃ x, v.firstRecord b 0 = some x ∧ 0 < x.version ∧ ∀ g y, g < metaBitmapSize → g ≠ b →
    v.firstRecord g 0 = some y → y.version < x.version

section Newest

variable {v v1 v' : View} {b : Nat} {type : FlushType}

theorem Area.newest {p : Nat} {r : SsdMetadata} (area : Area v b) (wins : Wins v b p r) : Newest v b :=
  ⟨area.clean, area.group, area.atGroup, area.ahead, wins.newest⟩

theorem Newest.works (newest : Newest v b) (works : Works v v') : Newest v' b := by
  have same : ∀ g < metaBitmapSize, ∀ plane < ssdMaxPlanes, ∀ pg < ssdPagesPerBlock,
      v'.record (g * ssdMaxPlanes + plane) pg = v.record (g * ssdMaxPlanes + plane) pg :=
    fun g group plane inside pg low =>
      View.record_congr (works.pages _ (metaPos_inside (groupPos_lt group inside)) pg low).1
  have first : ∀ g < metaBitmapSize, v'.firstRecord g 0 = v.firstRecord g 0 := fun g group =>
    View.firstRecord_congr fun plane inside => same g group plane inside 0 (by decide)
  obtain ⟨clean, group, atGroup, ahead, x, shown, positive, newest⟩ := newest
  refine ⟨fun pos pg inside low => ?_, group, by rw [works.metaPos, atGroup], fun plane inside pg above high => ?_,
    x, by rw [first b group, shown], positive, fun g y group' other found => ?_⟩
  · rw [(works.pages pos (metaPos_inside inside) pg low).2]
    exact clean pos pg inside low
  · rw [works.metaPos] at above
    rw [same b group plane inside pg high]
    exact ahead plane inside pg above high
  · rw [first g group'] at found
    exact newest g y group' other found

theorem Tabled.clean (tabled : Tabled type v v1) (clean : v.Clean) : v1.moved.Clean := fun pos pg inside low => by
  rw [show v1.moved.suspect pos pg = v1.suspect pos pg from rfl, (tabled.pages pos inside pg low).2]
  exact clean pos pg inside low

/-- **A flush inside a group**: its record wins, whatever its version. -/
theorem Newest.flush (newest : Newest v b) (more : v.metaPos.page + 1 < ssdPagesPerBlock)
    (flushed : Flushed type v v' b) : Newest v' b ∧ Wins v' b v'.metaPos.page v'.metadata ∧
      v'.firstRecord b 0 = v.firstRecord b 0 := by
  obtain ⟨v1, tabled, attempt, shown⟩ := flushed
  have next : nextMetaPos ssdOk v.metaPos = { v.metaPos with page := v.metaPos.page + 1 } := by
    rw [nextMetaPos, if_neg (by decide), if_neg (by omega)]
  have moved : v1.moved.metaPos = { v.metaPos with page := v.metaPos.page + 1 } := tabled.next.trans next
  have place : v'.metaPos = { v.metaPos with page := v.metaPos.page + 1 } := attempt.frame.metaPos.trans moved
  have later : v1.moved.metaPos.page ≠ 0 := by
    rw [moved]
    exact Nat.succ_ne_zero _
  have first : ∀ g < metaBitmapSize, v'.firstRecord g 0 = v.firstRecord g 0 := fun g group =>
    View.firstRecord_congr fun plane inside => (attempt.first later (groupPos_lt group inside)).trans
      (tabled.records (groupPos_lt group inside) (by decide))
  obtain ⟨clean, group, atGroup, ahead, x, head, positive, leads⟩ := newest
  have clear : ∀ plane < ssdMaxPlanes, ∀ pg, v'.metaPos.page < pg → pg < ssdPagesPerBlock →
      v'.record (b * ssdMaxPlanes + plane) pg = none := by
    intro plane inside pg above high
    rw [place] at above
    rw [attempt.others plane inside pg high (by rw [moved]; exact Nat.ne_of_gt above), if_neg later]
    exact (tabled.records (groupPos_lt group inside) high).trans
      (ahead plane inside pg (Nat.lt_of_succ_lt above) high)
  have newest' : Newest v' b := by
    refine ⟨attempt.clean (tabled.clean clean), group, by rw [place]; exact atGroup, clear, x, by rw [first b group, head],
      positive, fun g y group' other found => ?_⟩
    rw [first g group'] at found
    exact leads g y group' other found
  refine ⟨newest', ⟨group, by rw [place]; exact more, newest'.first, fun pg above high => ?_, ?_⟩, first b group⟩
  · exact View.firstRecord_none fun plane inside => clear plane inside pg above high
  · have planes : ∀ plane < ssdMaxPlanes, v'.record (b * ssdMaxPlanes + plane) v'.metaPos.page = some v'.metadata := by
      intro plane inside
      rw [place, attempt.metadata, ← next]
      exact shown plane inside
    refine View.firstRecord_eq (by decide) (planes 0 (by decide)) fun plane inside y found => ?_
    rw [planes plane inside] at found
    exact (Option.some.inj found).symm

/-- The version of a flush; the counter starts again at 1. -/
theorem Flushed.nextVersion (flushed : Flushed type v v' b) : v'.metadata.version =
    if v.metadata.version + 1 = 0 then 1 else v.metadata.version + 1 := by
  obtain ⟨v1, tabled, attempt, -⟩ := flushed
  obtain ⟨now, m, off, placed, record⟩ := tabled.record
  rw [attempt.metadata, show v1.moved.metadata = v1.metadata from rfl, record, ← placed.only.version]
  rfl

/-- **Opening behind a close** whose record wins. -/
theorem Flushed.opens {may : May} (flawless : Flawless may) (flushed : Flushed .close v v' b)
    (few : v.nodes.length ≤ ssdMaxIdNum) (newest : Newest v' b) (wins : Wins v' b v'.metaPos.page v'.metadata)
    (opened : v'.opened = true) (placed : ∀ c < ssdMaxChannel, ChannelPlaced c (v.hash c)) (off : PowerCycle v' v1) :
    OnView always may ssdSysOpen (fun ret v2 => ret = ssdOk ∧ Works v' v2 ∧ Restored v v2) v1 := by
  obtain ⟨image, holds, imaged, num, magic⟩ := flushed.holds few newest.group newest.clean wins
  refine (ssdSysOpen_flawless flawless (holds.keep off.pages) off.opened).weaken fun ret v2 after => ?_
  rw [if_pos (magic.2 rfl)] at after
  obtain ⟨answer, there⟩ := after
  exact ⟨answer, there.works newest.atGroup opened off.pages, there.restores imaged num placed⟩

end Newest

/-! ## The turns of the groups -/

/-- A card behind `n` flushes, as far as the end of the group in which the version starts again. -/
structure Turn (n : Nat) (v : View) : Prop where
  opened : v.opened = true
  place : v.metaPos = roundPos n
  early : n + 1 < 2 ^ 64 → Round n v
  late : 2 ^ 64 ≤ n + 1 → v.metadata.version.toNat + 2 ^ 64 = n + 2
  newest : 0 < n → Newest v (roundGroup n)
  head : 0 < n → ∃ x, v.firstRecord (roundGroup n) 0 = some x ∧ x.version.toNat + (roundPos n).page = n + 1

section Turn

variable {n : Nat} {v v' : View} {type : FlushType}

theorem Round.turn (round : Round 0 v) : Turn 0 v :=
  ⟨round.settled.opened, round.place, fun _ => round, fun late => absurd late (by decide),
    fun no => absurd no (Nat.lt_irrefl 0), fun no => absurd no (Nat.lt_irrefl 0)⟩

theorem Turn.works (turn : Turn n v) (works : Works v v') : Turn n v' := by
  obtain ⟨opened, place, early, late, newest, head⟩ := turn
  refine ⟨works.opened.trans opened, works.metaPos.trans place, fun few => (early few).works works, fun wrapped => ?_,
    fun some => (newest some).works works, fun some => ?_⟩
  · rw [works.metadata]
    exact late wrapped
  · obtain ⟨x, shown, version⟩ := head some
    refine ⟨x, ?_, version⟩
    rw [← shown]
    exact View.firstRecord_congr fun plane inside =>
      View.record_congr (works.pages _ (metaPos_inside (groupPos_lt (roundGroup_lt n) inside)) 0 (by decide)).1

theorem Turn.next (turn : Turn n v) : nextMetaPos ssdOk v.metaPos = roundPos (n + 1) := by
  rw [turn.place, nextMetaPos_round]

/-- **The next flush.** -/
theorem Turn.flush (turn : Turn n v) (few : n < 2 ^ 64) (flushed : Flushed type v v' (roundGroup (n + 1))) :
    Turn (n + 1) v' ∧ Wins v' (roundGroup (n + 1)) v'.metaPos.page v'.metadata := by
  have atGroup : (nextMetaPos ssdOk v.metaPos).blockPos = roundGroup (n + 1) * ssdMaxPlanes := by
    rw [turn.next]
    rfl
  have place : v'.metaPos = roundPos (n + 1) := by
    obtain ⟨v1, tabled, attempt, -⟩ := id flushed
    rw [attempt.frame.metaPos, tabled.next, turn.next]
  have opened : v'.opened = true := flushed.kept.opened.trans turn.opened
  have early : n + 1 + 1 < 2 ^ 64 → Round (n + 1) v' := fun room =>
    (turn.early (Nat.lt_of_succ_lt room)).next room atGroup flushed
  have late : 2 ^ 64 ≤ n + 1 + 1 → v'.metadata.version.toNat + 2 ^ 64 = n + 1 + 2 := by
    intro wrapped
    have version := flushed.nextVersion
    by_cases last : n + 1 < 2 ^ 64
    · -- the version before was the greatest one
      have greatest := (turn.early last).version
      have zero : v.metadata.version + 1 = 0 := by
        apply UInt64.toNat_inj.1
        rw [UInt64.toNat_add, greatest]
        show (n + 1 + 1) % 2 ^ 64 = 0
        omega
      rw [version, if_pos zero]
      show 1 + 2 ^ 64 = n + 1 + 2
      omega
    · have before := turn.late (Nat.le_of_not_lt last)
      have sum : (v.metadata.version + 1).toNat = v.metadata.version.toNat + 1 := by
        rw [UInt64.toNat_add, show (1 : UInt64).toNat = 1 from rfl, Nat.mod_eq_of_lt (by omega)]
      have nonzero : v.metadata.version + 1 ≠ 0 := fun zero => by
        rw [zero] at sum
        exact absurd sum (Nat.succ_ne_zero _).symm
      rw [version, if_neg nonzero, sum]
      omega
  by_cases inside : 0 < n ∧ n % 256 ≠ 0
  · -- the next page of the group
    have same : roundGroup (n + 1) = roundGroup n := by
      simp only [roundGroup]
      omega
    have more : v.metaPos.page + 1 < ssdPagesPerBlock := by
      rw [turn.place]
      simp only [roundPos, ssdPagesPerBlock]
      omega
    rw [same] at flushed ⊢
    obtain ⟨newest, wins, first⟩ := (turn.newest inside.1).flush more flushed
    refine ⟨⟨opened, place, early, late, fun _ => by rwa [same], fun _ => ?_⟩, wins⟩
    obtain ⟨x, shown, version⟩ := turn.head inside.1
    refine ⟨x, by rw [same, first, shown], ?_⟩
    simp only [roundPos] at version ⊢
    omega
  · -- the first page of the next group, before the version starts again
    have room : n + 2 < 2 ^ 64 := by omega
    have round := turn.early (Nat.lt_of_succ_lt room)
    have room' : v.metadata.version.toNat + 1 < 2 ^ 64 := by rwa [round.version]
    obtain ⟨settled, wins⟩ := Flushed.settled round.settled room' atGroup flushed
    refine ⟨⟨opened, place, early, late, fun _ => settled.area.newest wins, fun _ => ?_⟩, wins⟩
    have zero : (roundPos (n + 1)).page = 0 := by
      simp only [roundPos]
      omega
    refine ⟨v'.metadata, ?_, ?_⟩
    · have shown := wins.shows
      rwa [place, zero] at shown
    · rw [zero, flushed.version room', round.version]

/-- **The first record behind the wrap** that opens a group: the one before it still wins. -/
theorem Turn.lost {r : SsdMetadata} (turn : Turn (2 ^ 64) v) (wins : Wins v (roundGroup (2 ^ 64)) v.metaPos.page r)
    (flushed : Flushed type v v' (roundGroup (2 ^ 64 + 1))) :
    v'.Clean ∧ Wins v' (roundGroup (2 ^ 64)) v.metaPos.page r := by
  have next := turn.next
  have version := flushed.nextVersion
  have before := turn.late (Nat.le_succ _)
  obtain ⟨v1, tabled, attempt, shown⟩ := flushed
  have other : roundGroup (2 ^ 64) ≠ roundGroup (2 ^ 64 + 1) := by decide
  refine ⟨attempt.clean (tabled.clean (turn.newest (by decide)).clean), wins.elsewhere other ?_ ?_⟩
  · intro x y first found
    obtain ⟨x', first', head⟩ := turn.head (by decide)
    obtain rfl : x' = x := Option.some.inj (first'.symm.trans first)
    -- the group that is opened shows the new record alone
    have metadata : v'.metadata = v1.metadata := attempt.metadata
    rw [next, show (roundPos (2 ^ 64 + 1)).page = 0 by decide, ← metadata] at shown
    have new := View.firstRecord_eq (by decide) (shown 0 (by decide)) fun plane inside z there =>
      (Option.some.inj ((shown plane inside).symm.trans there)).symm
    obtain rfl : v'.metadata = y := Option.some.inj (new.symm.trans found)
    have two : v.metadata.version = 2 := by
      apply UInt64.toNat_inj.1
      show v.metadata.version.toNat = 2
      omega
    rw [two, if_neg (by decide)] at version
    rw [show (roundPos (2 ^ 64)).page = 255 by decide] at head
    rw [UInt64.lt_iff_toNat_lt, version]
    show 3 < x'.version.toNat
    omega
  · exact fun pos inside other pg low => (attempt.elsewhere (Nat.le_refl _) inside other low).trans
      (tabled.records inside low)

end Turn

/-! ## Histories -/

/-- The list of an image has room for the ids, and each node is in the channel of its id. -/
structure LegalTable (d : Device) : Prop where
  placed : TablePlaced d
  few : (tableNodes d).length ≤ ssdMaxIdNum

/-- Behind `n` flushes, with those of the closes, each of which an opening follows; none of them meets
a failure. Between two of them the ids, the tables and the data may become anything. -/
inductive Cycles : Nat → Device → Prop
  | initialised {d0 d : Device} (run : Run anyOutcome ssdSysOpenNewcard d0 ssdOk d) : Cycles 0 d
  | between {n : Nat} {d d' : Device} (before : Cycles n d) (works : Works (view d) (view d')) : Cycles n d'
  | flush {n : Nat} {d d' : Device} {ret : Int} (before : Cycles n d) (legal : LegalTable d)
      (run : Run noFailure (ssdSysFlush .normal) d ret d') : Cycles (n + 1) d'
  | cycle {n : Nat} {d d1 d2 d3 : Device} {closed opened : Int} (before : Cycles n d) (legal : LegalTable d)
      (close : Run noFailure ssdSysClose d closed d1) (off : PowerCycle (view d1) (view d2))
      (start : Run noFailure ssdSysOpen d2 opened d3) : Cycles (n + 1) d3

/-- The card `d2` opens with the ids and the tables of `d`. -/
def OpensAs (d d2 : Device) : Prop := (Mirrors Held.none d2 → ∃ ret d3, Run noFailure ssdSysOpen d2 ret d3) ∧
  ∀ {ret d3}, Run noFailure ssdSysOpen d2 ret d3 → ret = ssdOk ∧ SameTables d d3

section Histories

variable {n : Nat} {d d' d1 d2 d3 : Device} {ret : Int} {type : FlushType}

theorem Turn.flushes (turn : Turn n (view d)) (legal : LegalTable d) (run : Run noFailure (ssdSysFlush type) d ret d') :
    ret = ssdOk ∧ Flushed type (view d) (view d') (roundGroup (n + 1)) :=
  (ssdSysFlush_flushes noFailure_flawless turn.opened legal.few (roundGroup_lt (n + 1)) (by rw [turn.next]; rfl)
    (by rw [turn.next]; exact Nat.mod_lt _ (by decide)) type).runs run

theorem Turn.closes (turn : Turn n (view d)) (legal : LegalTable d) (run : Run noFailure ssdSysClose d ret d1) :
    ret = ssdOk ∧ ∃ v1, Flushed .close (view d) v1 (roundGroup (n + 1)) ∧ (view d1).opened = false ∧
      ∀ {d2}, PowerCycle (view d1) (view d2) → PowerCycle v1 (view d2) := by
  obtain ⟨answer, v1, flushed, shut⟩ := (ssdSysClose_flushes noFailure_flawless turn.opened legal.few
    (roundGroup_lt (n + 1)) (by rw [turn.next]; rfl) (by rw [turn.next]; exact Nat.mod_lt _ (by decide))).runs run
  have flash : (view d1).flash = v1.flash := by rw [shut]
  exact ⟨answer, v1, flushed, by rw [shut], fun off => ⟨(SamePages.of_flash flash).trans off.pages, off.opened⟩⟩

/-- **A close and the next opening.** -/
theorem Turn.cycle (turn : Turn n (view d)) (few : n < 2 ^ 64) (legal : LegalTable d)
    (close : Run noFailure ssdSysClose d ret d1) : ret = ssdOk ∧ ∀ {d2 d3 ret}, PowerCycle (view d1) (view d2) →
      Run noFailure ssdSysOpen d2 ret d3 → ret = ssdOk ∧ Restored (view d) (view d3) ∧ Turn (n + 1) (view d3) := by
  obtain ⟨answer, v1, flushed, -, power⟩ := turn.closes legal close
  obtain ⟨turn1, wins⟩ := turn.flush few flushed
  refine ⟨answer, fun off start => ?_⟩
  obtain ⟨opens, works, restored⟩ := (flushed.opens noFailure_flawless legal.few (turn1.newest (Nat.succ_pos n)) wins
    turn1.opened legal.placed (power off)).runs start
  exact ⟨opens, restored, turn1.works works⟩

/-- **The invariant of a history.** -/
theorem Cycles.turn (history : Cycles n d) (few : n ≤ 2 ^ 64) : Turn n (view d) := by
  induction history with
  | initialised run => exact ((ssdSysOpenNewcard_spec.runs run).1 rfl).round.turn
  | between before works ih => exact (ih few).works works
  | flush before legal run ih =>
      have turn := ih (Nat.le_of_succ_le few)
      exact (turn.flush few (turn.flushes legal run).2).1
  | cycle before legal close off start ih =>
      obtain ⟨-, opens⟩ := (ih (Nat.le_of_succ_le few)).cycle few legal close
      exact (opens off start).2.2

/-- **Close, then open**: behind fewer than 2^64 flushes both succeed, with any ids and tables, and every
id and every table is where it was. -/
theorem close_then_open_restores (history : Cycles n d) (few : n < 2 ^ 64) (legal : LegalTable d)
    (idle : Mirrors Held.none d) : (∃ ret d1, Run noFailure ssdSysClose d ret d1) ∧
      ∀ {ret d1}, Run noFailure ssdSysClose d ret d1 → ret = ssdOk ∧ (view d1).opened = false ∧
        ∀ {d2}, PowerCycle (view d1) (view d2) → OpensAs d d2 := by
  have turn := history.turn (Nat.le_of_lt few)
  refine ⟨?_, fun {ret d1} close => ?_⟩
  · obtain ⟨ret, d1, close, -⟩ := exists_run noFailure_live idle (ssdSysClose_locks free_none rfl)
    exact ⟨ret, d1, close⟩
  obtain ⟨answer, opens⟩ := turn.cycle few legal close
  obtain ⟨-, v1, -, shut, -⟩ := turn.closes legal close
  refine ⟨answer, shut, fun {d2} off => ⟨fun idle => ?_, fun {ret d3} start => ?_⟩⟩
  · obtain ⟨ret, d3, start, -⟩ := exists_run noFailure_live idle (ssdSysOpen_locks free_none rfl)
    exact ⟨ret, d3, start⟩
  · obtain ⟨opened, restored, -⟩ := opens off start
    exact ⟨opened, restored.hash.find legal.placed, restored.tables⟩

/-! ### Histories exist -/

theorem WrittenTable.legal (written : WrittenTable d) : LegalTable d := ⟨written.table, written.few⟩

/-- `n` flushes of a card without ids. -/
theorem exists_cycles (n : Nat) : ∃ d, Cycles n d ∧ WrittenTable d ∧ Mirrors Held.none d := by
  induction n with
  | zero =>
      obtain ⟨d, run, card, mirrors⟩ := exists_initialised anyOutcome openLibrary
      cases run with
      | initialised run => exact ⟨d, .initialised run, card.written, mirrors⟩
  | succ n ih =>
      obtain ⟨d, history, written, mirrors⟩ := ih
      obtain ⟨ret, d', flush, mirrors'⟩ := exists_run noFailure_live mirrors (ssdSysFlush_locks free_none rfl .normal)
      exact ⟨d', history.flush written.legal flush, written.congr (ssdSysFlush_ledger written.few flush), mirrors'⟩

/-- A card with an id, behind a flush. -/
theorem flushed_id_comes_back : ∃ d d1 d2 d3, Cycles 1 d ∧ tableLookup d ⟨0, 0⟩ ≠ none ∧
    Run noFailure ssdSysClose d ssdOk d1 ∧ PowerCycle (view d1) (view d2) ∧ Run noFailure ssdSysOpen d2 ssdOk d3 ∧
    SameTables d d3 := by
  obtain ⟨d0, run, mirrors⟩ := @exists_stored effective fun _ _ _ allowed _ => allowed.2.1
  have inv := run.inv (by decide)
  obtain ⟨info, found, -⟩ := inv.store.bytes effective_effective ⟨0, 0⟩ sevens (.written _ _)
  have written := inv.store.table
  have history : Cycles 0 d0 := by
    cases run with
    | call before run =>
        cases before with
        | initialised first => exact .between (.initialised first) (((Unrecorded.call _ _).holds _).runs run)
  obtain ⟨ret, d, flush, idle⟩ := exists_run noFailure_live mirrors (ssdSysFlush_locks free_none rfl .normal)
  have books := ssdSysFlush_ledger written.few flush
  have history1 := history.flush written.legal flush
  obtain ⟨⟨ret, d1, close⟩, closes⟩ :=
    close_then_open_restores history1 (by decide) (written.congr books).legal idle
  obtain ⟨rfl, shut, opens⟩ := closes close
  have off := offDevice_cycle d1
  obtain ⟨starts, same⟩ := opens off
  obtain ⟨ret, d3, start⟩ := starts (offDevice_mirrors d1)
  obtain ⟨rfl, tables⟩ := same start
  refine ⟨d, d1, offDevice d1, d3, history1, ?_, close, off, start, tables⟩
  show find (ledger d (id2channel ⟨0, 0⟩)).2 ⟨0, 0⟩ ≠ none
  rw [books, found]
  exact Option.some_ne_none info

/-- **Behind 2^64 flushes** a close that succeeds is not found: the opening sees the flush before it. -/
theorem wrapped_close_is_lost : ∃ d d1 d2 d3 ret, Cycles (2 ^ 64) d ∧ LegalTable d ∧
    Run noFailure ssdSysClose d ssdOk d1 ∧ PowerCycle (view d1) (view d2) ∧ Run noFailure ssdSysOpen d2 ret d3 ∧
    ret ≠ ssdOk := by
  obtain ⟨d0, history0, written0, mirrors0⟩ := exists_cycles (2 ^ 64 - 1)
  have turn0 := history0.turn (Nat.sub_le _ _)
  obtain ⟨ret, d, flush, mirrors⟩ := exists_run noFailure_live mirrors0 (ssdSysFlush_locks free_none rfl .normal)
  have history : Cycles (2 ^ 64) d := history0.flush written0.legal flush
  have written := written0.congr (ssdSysFlush_ledger written0.few flush)
  obtain ⟨rfl, flushed⟩ := turn0.flushes written0.legal flush
  obtain ⟨turn, wins⟩ : Turn (2 ^ 64) (view d) ∧ _ := turn0.flush (by decide) flushed
  have few : (view d0).nodes.length ≤ ssdMaxIdNum := written0.few
  obtain ⟨-, -, -, -, magic⟩ := flushed.holds few (roundGroup_lt _) (turn.newest (by decide)).clean wins
  have normal : normalUninstall (view d).metadata = false := by
    rw [← Bool.not_eq_true, magic]
    exact FlushType.noConfusion
  obtain ⟨ret, d1, close, -⟩ := exists_run noFailure_live mirrors (ssdSysClose_locks free_none rfl)
  obtain ⟨rfl, v1, closed, shut, power⟩ := turn.closes written.legal close
  obtain ⟨clean, wins1⟩ := turn.lost wins closed
  have off := offDevice_cycle d1
  obtain ⟨clean2, wins2⟩ := wins1.cycled clean (power off)
  obtain ⟨ret, d3, start, -⟩ := exists_run noFailure_live (offDevice_mirrors d1) (ssdSysOpen_locks free_none rfl)
  exact ⟨d, d1, offDevice d1, d3, ret, history, written.legal, close, off, start,
    (ssdSysOpen_refuses noFailure_flawless clean2 wins2 normal off.opened).runs start⟩

end Histories

end FpgaSsd.Theory
