/-
# Theory.Unclean — a loss of power without a close, where flushes may fail

What tells a card that was closed from one that was not is the magic of the newest record. An
opening writes no record and a call writes none, so up to the first flush the record of the last
close still stands.

* `ssdSysFlush_tries` — what a flush leaves that may fail: the area in order, and a record that
  wins unless the flush has written a newer one;
* `ssdSysOpen_refuses` — a card whose record is that of a normal flush is not opened;
* `unclean_is_detected` — behind a flush that succeeded a loss of power is detected; before the
  first flush exactly when no call has changed the ids;
* `unflushed_delete_is_undone` — a delete without a flush behind it, and an opening that answers
  `SSD_OK` and has the id again.
-/
import FpgaSsd.Theory.FlushBounds
import FpgaSsd.Theory.Reuse

namespace FpgaSsd.Theory

open FpgaSsd.Lib FpgaSsd.Driver FpgaSsd.Api

set_option autoImplicit false

/-! ## A flush that may fail -/

/-- The record in memory is one of the ids of `v0`, and the card holds it with the list. -/
structure IdsFlushed (type : FlushType) (v0 v : View) (b : Nat) (image : Mem) : Prop where
  holds : HoldsRecord v v.metadata image b v.metaPos.page
  ids : IdsIn image v0
  num : idMax v.metadata = v0.nodes.length
  magic : normalUninstall v.metadata = true ↔ type = .close

/-- What a flush of `v` leaves with the answer `ret`. -/
structure Tried (type : FlushType) (v : View) (b : Nat) (ret : Int) (v' : View) (b' : Nat) : Prop where
  area : Area v' b'
  opened : v'.opened = true
  keeps : FlushKeeps type v b v' b'
  done : ret = ssdOk → Settled v' b' ∧ ∃ image, IdsFlushed type v v' b' image

section Flush

variable {may : May} {v v' : View} {b g p : Nat} {r : SsdMetadata}

theorem Area.inGroup (area : Area v b) : InGroup v.metaPos := by
  have group := area.group
  refine ⟨?_, ?_, area.page⟩
  · rw [area.atGroup, Nat.mul_mod_left]
  · rw [area.atGroup]
    simp only [metaBitmapSize, ssdMaxPlanes, reserveBlocksMeta] at group ⊢
    omega

/-- The group of the record that wins shows its page 0. -/
theorem Area.settled (area : Area v b) (opened : v.opened = true) (wins : Wins v b p r) : Settled v b := by
  refine ⟨area, fun _ => ?_, opened⟩
  obtain ⟨x, shown, -⟩ := wins.newest
  obtain ⟨plane, inside, found⟩ := View.firstRecord_mem shown
  rw [area.atGroup]
  exact ⟨plane, inside, x, found⟩

/-- **A flush**, whatever fails in it. -/
theorem ssdSysFlush_tries (careful : Careful may) (area : Area v b) (opened : v.opened = true) (ready : FlushReady v)
    (type : FlushType) :
    OnView always may (ssdSysFlush type) (fun ret v' => ∃ b', Tried type v b ret v' b') v := by
  rintro d rfl
  refine Safe.weaken (Safe.and (ssdSysFlush_durable careful area opened ready type d rfl)
    (ssdSysFlush_stores type opened area.inGroup d rfl)) ?_
  rintro ret d' ⟨⟨b', area', opened', wins, keeps⟩, stores⟩
  refine ⟨b', area', opened', keeps, fun ok => ?_⟩
  obtain ⟨imaged, stored, few, now, m, made⟩ := stores ok
  have wins := wins ok
  have num : idMax (view d').metadata = (view d).nodes.length := by
    rw [made]
    exact idMax_flushed few type now m
  refine ⟨area'.settled opened' wins, (view d').kbufFlush, ⟨area'.clean, wins, fun k less => ?_, ?_⟩, imaged.ids,
    num, ?_⟩
  · exact ⟨(stored.snapshot.range ⟨k, less, .inl rfl⟩).2, stored.blocks k less _ (.inl rfl)⟩
  · rw [num, made, flushed_blockNum few]
    exact tableBlockNum_covers _
  · rw [made]
    exact normalUninstall_flushed ..

/-- **A close** that succeeds, whatever failed in it. -/
theorem ssdSysClose_done (careful : Careful may) (area : Area v b) (opened : v.opened = true) (ready : FlushReady v) :
    OnView always may ssdSysClose (fun ret v' => ret = ssdOk → ∃ v1 b', Tried .close v b ssdOk v1 b' ∧
      v' = { v1 with opened := false, hash := freedHash v1.hash }) v := by
  unfold ssdSysClose
  refine OnView.seq (OnView.getOpened trivial) ?_
  rintro flag v ⟨rfl, rfl⟩
  rw [opened, if_neg (by decide)]
  refine OnView.seq (ssdSysFlush_tries careful area opened ready .close) ?_
  rintro ret v1 ⟨b', tried⟩
  split
  · rename_i failed
    exact OnView.pure fun ok => absurd ok failed
  rename_i ok
  obtain rfl : ret = ssdOk := not_not.1 ok
  refine OnView.seq (OnView.setOpened trivial false) ?_
  rintro _ _ rfl
  refine OnView.seq (ssdDestorySlab_spec fun _ => trivial) ?_
  rintro _ _ rfl
  exact OnView.pure fun _ => ⟨v1, b', tried, rfl⟩

end Flush

/-! ## Openings -/

section Opening

variable {may : May} {v0 v v1 v' : View} {b p : Nat} {r : SsdMetadata} {image : Mem} {type : FlushType}

/-- **A record of a normal flush** is refused. -/
theorem ssdSysOpen_refuses (flawless : Flawless may) (clean : v.Clean) (wins : Wins v b p r)
    (normal : normalUninstall r = false) (off : v.opened = false) :
    OnView always may ssdSysOpen (fun ret _ => ret ≠ ssdOk) v := by
  unfold ssdSysOpen openWith
  refine OnView.seq (OnView.getOpened trivial) ?_
  rintro _ v ⟨rfl, rfl⟩
  rw [off, if_neg Bool.false_ne_true]
  refine OnView.seq (OnView.silent (a := .kmalloc) trivial trivial) ?_
  rintro failed v rfl
  split
  · exact OnView.pure (by decide)
  refine OnView.seq (ssdInitHash_spec fun _ => trivial) ?_
  rintro _ _ rfl
  refine OnView.seq (M := fun ret _ => ret ≠ ssdOk) ?_ ?_
  · unfold ssdSysInit
    refine OnView.seq (ssdSearchMetadata_spec (v := { v with hash := clearedHash v.hash }) flawless clean
      (wins.congr fun _ _ _ _ _ _ => rfl)) ?_
    rintro _ _ ⟨rfl, rfl⟩
    rw [if_neg (by decide)]
    refine OnView.seq (OnView.getMeta trivial) ?_
    rintro _ _ ⟨-, rfl⟩
    refine OnView.seq (OnView.modFlush trivial _) ?_
    rintro _ _ rfl
    refine OnView.seq ssdReadFlushTabledata_glimpsed ?_
    intro ret v2 glimpsed
    split
    · rename_i failed
      exact OnView.pure failed
    refine OnView.seq (OnView.getMeta trivial) ?_
    rintro record v2 ⟨rfl, rfl⟩
    rw [glimpsed.metadata, if_pos normal]
    exact OnView.pure (by decide)
  · intro ret v2 failed
    rw [if_pos failed]
    refine OnView.seq (ssdDestorySlab_spec fun _ => trivial) fun _ _ _ => ?_
    exact OnView.pure (by decide)

/-- What an opening makes of the ids of `v0`. -/
structure IdsOpened (v0 v v' : View) : Prop where
  works : Works v v'
  hash : Reversed v0.hash v'.hash
  space : ∀ c < ssdMaxChannel, ∃ s, Reloaded c (s, v'.hash c) (v'.space c, v'.hash c)

/-- **The record of a close** is opened, with its ids. -/
theorem IdsFlushed.opens (flawless : Flawless may) (flushed : IdsFlushed .close v0 v b image) (settled : Settled v b)
    (placed : ∀ c < ssdMaxChannel, ChannelPlaced c (v0.hash c)) (off : PowerCycle v v1) :
    OnView always may ssdSysOpen (fun ret v2 => ret = ssdOk ∧ IdsOpened v0 v v2) v1 := by
  refine (ssdSysOpen_flawless flawless (flushed.holds.keep off.pages) off.opened).weaken fun ret v2 after => ?_
  rw [if_pos (flushed.magic.2 rfl)] at after
  obtain ⟨answer, opened⟩ := after
  obtain ⟨spaces, reloaded⟩ := opened.space
  exact ⟨answer, opened.works settled.area.atGroup settled.opened off.pages,
    opened.reversed flushed.ids flushed.num placed, fun c inside => ⟨spaces c, reloaded c inside⟩⟩

theorem IdsFlushed.works (flushed : IdsFlushed type v0 v b image) (works : Works v v') :
    IdsFlushed type v0 v' b image := by
  obtain ⟨holds, ids, num, magic⟩ := flushed
  constructor
  · rw [works.metadata, works.metaPos]
    exact holds.keep works.pages
  · exact ids
  all_goals rwa [works.metadata]

end Opening

/-! ## Runs -/

/-- Calls with any outcomes and flushes that may fail, on the open card `d0`; the newest event first. -/
inductive OpenRun (lib : Library) (d0 : Device) : List CardEvent → Device → Prop
  | start : OpenRun lib d0 [] d0
  | call {es : List CardEvent} {d d' : Device} {call : StoreCall} {ret : Int} {data : Option Mem}
      (before : OpenRun lib d0 es d) (run : Run anyOutcome (call.run lib) d (ret, data) d') :
      OpenRun lib d0 (.call ⟨call, ret⟩ :: es) d'
  | flush {es : List CardEvent} {d d' : Device} {ret : Int} (before : OpenRun lib d0 es d)
      (ready : FlushReady (view d)) (run : Run durable (ssdSysFlush .normal) d ret d') :
      OpenRun lib d0 (.flush ret :: es) d'

/-- A close that succeeds, whatever fails in it, a loss of power, and an opening without failures. -/
structure CloseCycle (d d0 : Device) : Prop where
  ready : FlushReady (view d)
  close : ∃ d1 d2, Run durable ssdSysClose d ssdOk d1 ∧ PowerCycle (view d1) (view d2) ∧
    Run noFailure ssdSysOpen d2 ssdOk d0

/-- An open card, in a life whose commands may fail. -/
inductive OpenCard (lib : Library) : Device → Prop
  | initialised {d0 d : Device} (run : Run anyOutcome ssdSysOpenNewcard d0 ssdOk d) : OpenCard lib d
  | works {es : List CardEvent} {d d' : Device} (before : OpenCard lib d) (run : OpenRun lib d es d') : OpenCard lib d'
  | reopened {d d' : Device} (before : OpenCard lib d) (cycle : CloseCycle d d') : OpenCard lib d'

/-- Behind a loss of power an opening that succeeds has the ids of `d`. -/
def Detected (d : Device) : Prop := ∀ {d1 d2 ret}, PowerCycle (view d) (view d1) → Run noFailure ssdSysOpen d1 ret d2 →
  ret = ssdOk → ∀ id, tableLookup d2 id = tableLookup d id

/-- The table and the area of an open card. -/
structure CardReady (d : Device) : Prop where
  written : WrittenTable d
  area : ∃ b, Area (view d) b
  opened : (view d).opened = true

section Runs

variable {lib : Library} {es : List CardEvent} {d d0 d1 d2 d' : Device} {ret : Int}

theorem careful_durable : Careful durable := fun _ _ _ => id

theorem CardReady.call (card : CardReady d) {call : StoreCall} {data : Option Mem}
    (run : Run anyOutcome (call.run lib) d (ret, data) d') : CardReady d' ∧ Works (view d) (view d') := by
  have works := ((Unrecorded.call lib call).holds d).runs run
  have stored : StoreInv anyOutcome [] d := ⟨card.written, fun _ _ _ promised => by cases promised⟩
  obtain ⟨b, area⟩ := card.area
  exact ⟨⟨(stored.step run).table, ⟨b, area.works works⟩, works.opened.trans card.opened⟩, works⟩

/-- A flush that may fail leaves the ids alone. -/
theorem ssdSysFlush_ledger {may : May} (few : (tableNodes d).length ≤ ssdMaxIdNum) {type : FlushType}
    (run : Run may (ssdSysFlush type) d ret d') : ledger d' = ledger d := by
  have confined := ssdSysFlush_confined (l := ledger d) few type
  exact (Program.Fenced.reaches (flushFence_truthful (ledger d)) confined rfl run.reaches).2

theorem CardReady.flush {b : Nat} (card : CardReady d) (area : Area (view d) b) (ready : FlushReady (view d))
    {type : FlushType} (run : Run durable (ssdSysFlush type) d ret d') :
    CardReady d' ∧ ∃ b', Tried type (view d) b ret (view d') b' := by
  obtain ⟨b', tried⟩ := (ssdSysFlush_tries careful_durable area card.opened ready type).runs run
  have books := ssdSysFlush_ledger card.written.few run
  exact ⟨⟨card.written.congr books, ⟨b', tried.area⟩, tried.opened⟩, b', tried⟩

/-- What a close, a loss of power and an opening lead to. -/
structure Recycled (d d0 : Device) : Prop where
  ready : CardReady d0
  flushed : ∃ b image, Settled (view d0) b ∧ IdsFlushed .close (view d) (view d0) b image
  lookup : ∀ id, tableLookup d0 id = tableLookup d id

theorem CloseCycle.recycled (cycle : CloseCycle d d0) (card : CardReady d) : Recycled d d0 := by
  obtain ⟨ready, d1, d2, close, off, start⟩ := cycle
  obtain ⟨b, area⟩ := card.area
  obtain ⟨v1, b', tried, shut⟩ := (ssdSysClose_done careful_durable area card.opened ready).runs close rfl
  obtain ⟨settled, image, flushed⟩ := tried.done rfl
  have flash : (view d1).flash = v1.flash := by rw [shut]
  have power : PowerCycle v1 (view d2) := ⟨(SamePages.of_flash flash).trans off.pages, off.opened⟩
  have placed : TablePlaced d := card.written.table
  obtain ⟨-, opened⟩ := (flushed.opens noFailure_flawless settled placed power).runs start
  have settled0 := settled.works opened.works
  exact ⟨⟨opened.hash.written opened.space card.written, ⟨b', settled0.area⟩, settled0.opened⟩,
    ⟨b', image, settled0, flushed.works opened.works⟩, opened.hash.find placed⟩

/-- While the record of the close stands, the card opens with its ids. -/
theorem Recycled.opens (recycled : Recycled d d0) (card : CardReady d) (works : Works (view d0) (view d'))
    (off : PowerCycle (view d') (view d1)) (start : Run noFailure ssdSysOpen d1 ret d2) :
    ret = ssdOk ∧ ∀ id, tableLookup d2 id = tableLookup d0 id := by
  obtain ⟨-, ⟨b, image, settled, flushed⟩, lookup⟩ := recycled
  have placed : TablePlaced d := card.written.table
  obtain ⟨answer, opened⟩ :=
    ((flushed.works works).opens noFailure_flawless (settled.works works) placed off).runs start
  exact ⟨answer, fun id => (opened.hash.find placed id).trans (lookup id).symm⟩

/-- The records that a normal flush writes. -/
abbrev NormalRecord (r : SsdMetadata) : Prop := normalUninstall r = false

theorem flushed_normal (n : Nat) (now : UInt64) (m : SsdMetadata) : NormalRecord (flushed n .normal now m) := by
  rw [NormalRecord, ← Bool.not_eq_true, normalUninstall_flushed]
  exact FlushType.noConfusion

/-- The invariant of a run on the open card `d0`: behind a flush that succeeded a record of a normal
flush wins, and before the first flush the metadata blocks are as they were. -/
structure OpenInv (es : List CardEvent) (d0 d : Device) : Prop where
  ready : CardReady d
  normal : .flush ssdOk ∈ es → ∃ b k, Area (view d) b ∧ WonBy NormalRecord (view d) b k
  quiet : (∀ e ∈ es, e.flushed? = none) → Works (view d0) (view d)

theorem WonBy.works {P : SsdMetadata → Prop} {v v' : View} {b k : Nat} (won : WonBy P v b k) (area : Area v b)
    (works : Works v v') : WonBy P v' b k :=
  won.congr area.group works.metaPos fun pos inside pg low =>
    View.record_congr (works.pages pos (metaPos_inside inside) pg low).1

/-- The record of a normal flush that succeeded wins. -/
theorem Tried.wonBy {v v' : View} {b b' : Nat} (tried : Tried .normal v b ssdOk v' b') :
    WonBy NormalRecord v' b' 0 := by
  obtain ⟨-, image, flushed⟩ := tried.done rfl
  refine ⟨⟨b', _, _, flushed.holds.wins, ?_, ?_⟩, fun no => absurd no (Nat.lt_irrefl 0)⟩
  · rw [NormalRecord, ← Bool.not_eq_true, flushed.magic]
    exact FlushType.noConfusion
  · rw [Nat.add_zero, Nat.mod_eq_of_lt tried.area.group]

/-- Another flush keeps a record of a normal flush, whatever fails in it. -/
theorem Tried.keepsNormal {v v' : View} {b b' k : Nat} (tried : Tried .normal v b ret v' b') (area : Area v b)
    (ready : FlushReady v) (won : WonBy NormalRecord v b k) : ∃ k', WonBy NormalRecord v' b' k' := by
  obtain rfl := won.here area ready.2
  obtain ⟨k', -, won'⟩ := tried.keeps NormalRecord flushed_normal won
  exact ⟨k', won'⟩

/-- **The invariant of every run.** -/
theorem OpenRun.inv (run : OpenRun lib d0 es d) (card : CardReady d0) : OpenInv es d0 d := by
  induction run with
  | start => exact ⟨card, fun no => absurd no List.not_mem_nil, fun _ => .refl _⟩
  | @call es d d' call ret data before run ih =>
      obtain ⟨ready, works⟩ := ih.ready.call run
      refine ⟨ready, fun flushed => ?_, fun quiet => ?_⟩
      · obtain ⟨b, k, area, won⟩ := ih.normal ((List.mem_cons.1 flushed).resolve_left (fun no => nomatch no))
        exact ⟨b, k, area.works works, won.works area works⟩
      · exact (ih.quiet (List.forall_mem_cons.1 quiet).2).trans works
  | @flush es d d' ret before fit run ih =>
      obtain ⟨b, area⟩ := ih.ready.area
      obtain ⟨ready, b', tried⟩ := ih.ready.flush area fit run
      refine ⟨ready, fun flushed => ?_, fun quiet => ?_⟩
      · rcases List.mem_cons.1 flushed with now | earlier
        · cases now
          exact ⟨b', 0, tried.area, tried.wonBy⟩
        · obtain ⟨b0, k, area0, won⟩ := ih.normal earlier
          obtain rfl : b0 = b := Nat.eq_of_mul_eq_mul_right (by decide) (area0.atGroup.symm.trans area.atGroup)
          obtain ⟨k', won'⟩ := tried.keepsNormal area fit won
          exact ⟨b', k', tried.area, won'⟩
      · exact absurd (List.forall_mem_cons.1 quiet).1 (fun no => nomatch no)

/-- **Every open card** is ready, whatever failed in its life. -/
theorem OpenCard.ready (card : OpenCard lib d) : CardReady d := by
  induction card with
  | @initialised d0 d run =>
      have fresh := (ssdSysOpenNewcard_spec.runs run).1 rfl
      have inv : CardInv anyOutcome lib [] d := fresh.inv
      exact ⟨inv.store.table, ⟨0, fresh.card.area⟩, fresh.card.opened⟩
  | works before run ih => exact (run.inv ih).ready
  | reopened before cycle ih => exact (cycle.recycled ih).ready

theorem WonBy.detected {b k : Nat} (area : Area (view d) b) (won : WonBy NormalRecord (view d) b k) : Detected d := by
  intro d1 d2 ret off start ok
  obtain ⟨⟨g, p, r, wins, normal, -⟩, -⟩ := won
  obtain ⟨clean, wins1⟩ := wins.cycled area.clean off
  exact absurd ok ((ssdSysOpen_refuses noFailure_flawless clean wins1 normal off.opened).runs start)

/-- **An unclean shutdown** is detected behind a flush that succeeded, and before the first flush
exactly when no call has changed the ids since the opening. -/
theorem unclean_is_detected (card : OpenCard lib d) (cycle : CloseCycle d d0) (run : OpenRun lib d0 es d') :
    (.flush ssdOk ∈ es → Detected d') ∧ ((∀ e ∈ es, e.flushed? = none) →
      (Detected d' ↔ ∀ id, tableLookup d' id = tableLookup d0 id)) := by
  have recycled := cycle.recycled card.ready
  have inv := run.inv recycled.ready
  refine ⟨fun normal => ?_, fun quiet => ?_⟩
  · obtain ⟨b', k, area, won⟩ := inv.normal normal
    exact won.detected area
  have works := inv.quiet quiet
  constructor
  · intro detected id
    obtain ⟨ret, d2, start, -⟩ := exists_run noFailure_live (offDevice_mirrors d') (ssdSysOpen_locks free_none rfl)
    obtain ⟨answer, same⟩ := recycled.opens card.ready works (offDevice_cycle d') start
    exact (detected (offDevice_cycle d') start answer id).symm.trans (same id)
  · intro same d1 d2 ret off start _ id
    exact ((recycled.opens card.ready works off start).2 id).trans (same id).symm

/-! ### Runs exist -/

theorem durable_of_lone {α : Type} {p : Drv α} {post : α → View → Prop} {value : α}
    (triple : OnView Lone noFailure p post (view d)) (run : Run noFailure p d value d') : Run durable p d value d' :=
  (Safe.runs_must (fun _ => rfl) (triple d rfl) run).mono fun _ _ _ both => durable_of_noFailure both.1 both.2.fresher

/-- The first close of a card. -/
theorem first_close {v : View} (none : NoRecords v) (opened : v.opened = true) (few : v.nodes.length ≤ ssdMaxIdNum)
    (start : v.metaPos = initMetaPos) : OnView Lone noFailure ssdSysClose (fun ret _ => ret = ssdOk) v := by
  have atGroup : (nextMetaPos ssdOk v.metaPos).blockPos = 1 * ssdMaxPlanes := by
    rw [start]
    rfl
  unfold ssdSysClose
  refine OnView.seq (OnView.getOpened (NoRecords.lone (b := 1) none).lone) ?_
  rintro flag v ⟨rfl, rfl⟩
  rw [opened, if_neg (by decide)]
  refine OnView.seq (first_flush none opened few start .close) ?_
  rintro _ v1 ⟨rfl, flushed⟩
  have lone := flushed.lone none.lone atGroup
  rw [if_neg (by decide)]
  refine OnView.seq (OnView.setOpened lone false) ?_
  rintro _ _ rfl
  refine OnView.seq (ssdDestorySlab_spec fun _ => lone) fun _ _ _ => ?_
  exact OnView.pure rfl

/-- An id that was stored before a close. -/
theorem exists_cycle : ∃ d d0, OpenCard openLibrary d ∧ CloseCycle d d0 ∧ Mirrors Held.none d0 ∧
    tableLookup d ⟨0, 0⟩ ≠ none ∧ LoneIn 1 (view d0) ∧ (view d0).metaPos = ⟨0, 1 * ssdMaxPlanes⟩ ∧
    (view d0).metadata.version.toNat = 2 := by
  obtain ⟨d, run, mirrors⟩ := @exists_stored effective fun _ _ _ allowed _ => allowed.2.1
  have inv := run.inv (by decide)
  obtain ⟨info, found, -⟩ := inv.store.bytes effective_effective ⟨0, 0⟩ sevens (.written _ _)
  have round := run.round (by decide)
  have none : NoRecords (view d) := fun pos inside => round.empty pos inside fun k positive le =>
    absurd positive (Nat.not_lt.2 le)
  obtain ⟨ids, room⟩ := inv.room (by decide)
  have card : OpenCard openLibrary d := by
    cases run with
    | call before run =>
        cases before with
        | initialised first => exact .works (.initialised first) (.call .start (run_any run))
  obtain ⟨ret, d1, close, mirrors1⟩ := exists_run noFailure_live mirrors (ssdSysClose_locks free_none rfl)
  obtain ⟨rfl, shut, -, opens⟩ := close_spec round.settled inv.store.table.table ids room close
  have off : PowerCycle (view d1) (view d1) := ⟨.refl _, shut⟩
  obtain ⟨ret, d0, start, mirrors0⟩ := exists_run noFailure_live mirrors1 (ssdSysOpen_locks free_none rfl)
  obtain ⟨rfl, reopened⟩ := opens off start
  have closes := durable_of_lone (first_close none round.settled.opened ids round.place) close
  -- the record of the close is in group 1
  have next : nextMetaPos ssdOk (view d).metaPos = ⟨0, 1 * ssdMaxPlanes⟩ := by
    rw [round.place]
    rfl
  obtain ⟨v1, saved, works⟩ := reopened.works
  obtain ⟨b, atGroup, flushed⟩ := saved.flushed
  obtain rfl : 1 = b := by
    rw [next] at atGroup
    exact Nat.eq_of_mul_eq_mul_right (by decide) atGroup
  have place : (view d0).metaPos = ⟨0, 1 * ssdMaxPlanes⟩ := by
    obtain ⟨v2, tabled, attempt, -⟩ := id flushed
    rw [works.metaPos, attempt.frame.metaPos, tabled.next, next]
  refine ⟨d, d0, card, ⟨⟨room, round.settled.headed⟩, d1, d1, closes, off, start⟩, mirrors0, ?_, ?_, place, ?_⟩
  · rw [show tableLookup d ⟨0, 0⟩ = some info from found]
    exact Option.some_ne_none info
  · intro pos inside other
    have apart : pos / ssdMaxPlanes * ssdMaxPlanes ≠ v1.metaPos.blockPos := by
      rw [← works.metaPos, place]
      rw [place] at other
      exact other.elim id fun off eq => off (Nat.eq_of_mul_eq_mul_right (by decide) eq)
    rw [View.record_congr (works.pages pos (metaPos_inside inside) 0 (by decide)).1]
    exact flushed.lone none.lone atGroup pos inside apart
  · rw [reopened.version, round.version]
    rfl

/-- The event of a delete of that id that succeeds. -/
def firstDelete : CardEvent := .call ⟨.delete ⟨0, 0⟩, ssdOk⟩

theorem first_delete (mirrors : Mirrors Held.none d) (written : WrittenTable d) {id : BlockId}
    (there : tableLookup d id ≠ none) : ∃ d', Run noFailure (noData (ssdDelete openLibrary id)) d (ssdOk, none) d' ∧
      Mirrors Held.none d' ∧ tableLookup d' id = none := by
  obtain ⟨info, found⟩ := Option.ne_none_iff_exists'.1 there
  have valid := written.valid found
  have bounds := checkIdInfo_bounds valid
  have positive := info.len.size_pos
  have placed : ChannelPlaced (id2channel id) (ledger d (id2channel id)).2 := written.table _ (id2channel_lt id)
  have section' : Holds noFailure (ssdIdDelete id) (fun ret d' => ret = ssdOk ∧ tableLookup d' id = none) d := by
    refine ((ssdIdDelete_fine found valid (by omega)).and
      (ssdIdDelete_effect id fun info known => find_mem placed known)).weaken ?_
    rintro _ d1 ⟨rfl, books, effect, moved⟩
    refine ⟨rfl, ?_⟩
    show find (ledger d1 (id2channel id)).2 id = none
    rw [moved, Function.update_self]
    generalize answered : ssdOk = ret at effect
    cases effect with
    | absent => exact absurd answered (by decide)
    | undone known failed => exact absurd answered.symm failed
    | done known =>
        rw [find_removeNode placed]
        exact if_pos rfl
  have spec : Holds noFailure (noData (ssdDelete openLibrary id)) (fun r d' => r = (ssdOk, none) ∧
      tableLookup d' id = none) d := by
    refine noData_holds ?_
    unfold ssdDelete
    refine Holds.seq (M := fun r d' => r.1 = ssdOk ∧ tableLookup d' id = none) ?_ ?_
    · refine ssdBlockIoctl_unfaulted noFailure_unfaulted rfl (Holds.seq section' ?_)
      rintro _ d1 ⟨rfl, gone⟩
      exact Holds.pure ⟨rfl, gone⟩
    · rintro ⟨ret, data⟩ d1 ⟨rfl, gone⟩
      exact Holds.pure ⟨rfl, gone⟩
  have locks : Locks false anyReply (noData (ssdDelete openLibrary id)) Held.none := ssdDelete_locks free_none
  obtain ⟨r, d', run, after⟩ := exists_run noFailure_live mirrors locks
  obtain ⟨rfl, gone⟩ := spec.runs run
  exact ⟨d', run, after, gone⟩

theorem LoneIn.works {v v' : View} {b : Nat} (lone : LoneIn b v) (works : Works v v') : LoneIn b v' := by
  intro pos inside other
  rw [works.metaPos] at other
  rw [View.record_congr (works.pages pos (metaPos_inside inside) 0 (by decide)).1]
  exact lone pos inside other

/-- The id is deleted and the card flushed: the loss of power is detected. -/
theorem flushed_delete_is_detected : ∃ d d0 d', OpenCard openLibrary d ∧ CloseCycle d d0 ∧
    OpenRun openLibrary d0 [.flush ssdOk, firstDelete] d' ∧ tableLookup d0 ⟨0, 0⟩ ≠ none ∧ Detected d' := by
  obtain ⟨d, d0, card, cycle, mirrors0, there, lone, place, version⟩ := exists_cycle
  have recycled := cycle.recycled card.ready
  rw [← recycled.lookup] at there
  obtain ⟨d1, delete, mirrors1, -⟩ := first_delete mirrors0 recycled.ready.written there
  have step : Run anyOutcome ((StoreCall.delete ⟨0, 0⟩).run openLibrary) d0 (ssdOk, none) d1 := run_any delete
  have run1 : OpenRun openLibrary d0 [firstDelete] d1 := .call .start step
  obtain ⟨ready, works⟩ := recycled.ready.call step
  -- the flush goes to the next page
  obtain ⟨b, -, settled, -⟩ := recycled.flushed
  have fit : FlushReady (view d1) := by
    refine ⟨?_, (settled.works works).headed⟩
    rw [works.metadata, version]
    decide
  have place1 : (view d1).metaPos = ⟨0, 1 * ssdMaxPlanes⟩ := works.metaPos.trans place
  have next : nextMetaPos ssdOk (view d1).metaPos = ⟨1, 1 * ssdMaxPlanes⟩ := by
    rw [place1]
    rfl
  have triple := lone_flush (lone.works works) (by rw [next]) ready.opened ready.written.few (by decide)
    (by rw [next]; decide) .normal
  obtain ⟨ret, d2, flush, -⟩ := exists_run noFailure_live mirrors1 (ssdSysFlush_locks free_none rfl .normal)
  obtain ⟨rfl, -⟩ := triple.runs flush
  have run := run1.flush fit (durable_of_lone triple flush)
  exact ⟨d, d0, d2, card, cycle, run, there, (unclean_is_detected card cycle run).1 (List.mem_cons_self ..)⟩

/-- **A delete without a flush** behind it: the card loses its power, opens with `SSD_OK`, and the
id is there again. -/
theorem unflushed_delete_is_undone : ∃ d d0 d' d1 d2, OpenCard openLibrary d ∧ CloseCycle d d0 ∧
    OpenRun openLibrary d0 [firstDelete] d' ∧ PowerCycle (view d') (view d1) ∧
    Run noFailure ssdSysOpen d1 ssdOk d2 ∧ tableLookup d' ⟨0, 0⟩ = none ∧ tableLookup d2 ⟨0, 0⟩ ≠ none := by
  obtain ⟨d, d0, card, cycle, mirrors0, there, -⟩ := exists_cycle
  have recycled := cycle.recycled card.ready
  rw [← recycled.lookup] at there
  obtain ⟨d', delete, -, gone⟩ := first_delete mirrors0 recycled.ready.written there
  have step : Run anyOutcome ((StoreCall.delete ⟨0, 0⟩).run openLibrary) d0 (ssdOk, none) d' := run_any delete
  obtain ⟨-, works⟩ := recycled.ready.call step
  obtain ⟨ret, d2, start, -⟩ := exists_run noFailure_live (offDevice_mirrors d') (ssdSysOpen_locks free_none rfl)
  obtain ⟨rfl, same⟩ := recycled.opens card.ready works (offDevice_cycle d') start
  refine ⟨d, d0, d', offDevice d', d2, card, cycle, .call .start step, offDevice_cycle d', start, gone, ?_⟩
  rw [same]
  exact there

end Runs

end FpgaSsd.Theory
