/-
# Theory.Lifetime — a card from its initialisation on

Calls of the library, flushes, and closes with a loss of power and an opening behind them, in
any order and number. The calls may fail as they like; flushes, closes and openings run without
failures. What the store promises needs more: that a command of a call that is answered
`SSD_OK` takes effect (`effective`), and that the hardware finds the data through the address
table (`Mapped`).

* `Unrecorded` — calls on the data of ids leave the record and the reserved pages alone;
* `CardRun.inv` — the invariant of a life: the table, the promised bytes, the metadata blocks;
* `card_keeps_writes` — every flush, close and opening answers `SSD_OK`, and a read that succeeds
  returns the bytes that were promised, however often the card was opened since;
* `close_then_open` — a close and the next opening are the identity on the tables;
* `opening_after_power_loss` — without a close the card opens exactly when nothing was flushed
  since the last one, and then it has the table of that close.
-/
import FpgaSsd.Theory.Format
import FpgaSsd.Theory.Reopen
import FpgaSsd.Theory.Store

namespace FpgaSsd.Theory

open FpgaSsd.Lib FpgaSsd.Driver FpgaSsd.Api

set_option autoImplicit false

/-! ## Calls and the record -/

/-- Every action but the completion of a command and a change of the record. -/
def Act.Outside : Act → Prop
  | .chan _ .await | .setOpened _ | .modMeta _ | .modMetaPos _ => False
  | _ => True

/-- Whatever happens, the record and the reserved pages stay as they are. -/
structure Unrecorded {α : Type} (may : May) (p : Drv α) : Prop where
  holds : ∀ d, Holds may p (fun _ d' => Works (view d) (view d')) d

theorem Works.refl (v : View) : Works v v := ⟨.refl v, rfl, rfl, rfl⟩

theorem Works.trans {v v' v'' : View} (first : Works v v') (second : Works v' v'') : Works v v'' :=
  ⟨first.pages.trans second.pages, second.metadata.trans first.metadata, second.metaPos.trans first.metaPos,
    second.opened.trans first.opened⟩

section Unrecorded

variable {α β : Type} {may : May} {c : Nat} {d d' : Device}

/-- A channel whose reserved pages stay. -/
theorem works_setCh {ch : Channel} (page : ch.flash.page = (d.ch c).flash.page)
    (suspect : ch.flash.suspect = (d.ch c).flash.suspect) : Works (view d) (view (d.setCh c ch)) := by
  have pages := channels_setCh (fun ch => ch.flash.page) page
  have suspects := channels_setCh (fun ch => ch.flash.suspect) suspect
  refine ⟨fun pos _ pg _ => ⟨?_, ?_⟩, rfl, rfl, rfl⟩
  · exact congrFun (congrFun pages (posChannel pos)) (pageAddr pos pg)
  · exact congrFun (congrFun suspects (posChannel pos)) (pageAddr pos pg)

theorem act_outside {a : Act} {t : Nat} {o : Outcome} {r : a.Reply} (outside : Act.Outside a)
    (step : d.perform t a o = some (r, d')) : Works (view d) (view d') := by
  cases a
  case chan c a =>
      obtain ⟨⟨r', ch⟩, acted, eq⟩ := Option.map_eq_some_iff.1 step
      cases eq
      have other : a ≠ .await := by
        rintro rfl
        cases outside
      have flash := chanAct_still other acted
      exact works_setCh (congrArg Flash.page flash) (congrArg Flash.suspect flash)
  case down c =>
      simp only [Device.perform] at step
      split at step
      · cases step
        exact works_setCh rfl rfl
      · cases step
  case up c =>
      cases step
      exact works_setCh rfl rfl
  case downFlush =>
      simp only [Device.perform] at step
      split at step
      · cases step
        exact .refl _
      · cases step
  case setOpened | modMeta | modMetaPos => cases outside
  all_goals
    cases step
    exact ⟨.refl _, rfl, rfl, rfl⟩

namespace Unrecorded

theorem pure (value : α) : Unrecorded may (Program.pure value) := ⟨fun _ => Holds.pure (.refl _)⟩

theorem bind {p : Drv α} {next : α → Drv β} (first : Unrecorded may p) (rest : ∀ value, Unrecorded may (next value)) :
    Unrecorded may (p >>= next) :=
  ⟨fun d => Holds.seq (first.holds d) fun value d1 works => ((rest value).holds d1).weaken fun _ _ => works.trans⟩

theorem all {p : Drv α} (all : p.All Act.Outside) : Unrecorded may p := by
  constructor
  intro d
  refine Safe.all (I := fun d' => Works (view d) (view d')) (fun d1 d2 moved works => ?_) (fun _ _ _ _ => trivial)
    (fun _ _ _ _ _ outside _ step works => works.trans (act_outside outside step)) all (.refl _)
  have same : d1 = d2 := moved
  rwa [← same]

/-- A command on data: a read, a write or an erase. -/
theorem channelOp (c start len : Nat) {flag : Nat} (data : flag < 3) :
    Unrecorded may (channelOp c (cmdValue start len flag)) := by
  constructor
  intro d
  refine (channelOp_holds may c _ d).weaken ?_
  rintro ret d' ⟨o, kbuf, flash, -, done, rfl, rfl⟩
  have word : (Command.ofWord (cmdValue start len flag)).flag = flag := by
    rw [cmdValue_flag]
    omega
  have same : flash.page = (d.ch c).flash.page ∧ flash.suspect = (d.ch c).flash.suspect := by
    obtain rfl | rfl | rfl : flag = 0 ∨ flag = 1 ∨ flag = 2 := by omega
    all_goals
      simp only [Flash.exec, word] at done
      cases done
      exact ⟨rfl, rfl⟩
  exact works_setCh same.1 same.2

theorem writeRetry (c start len start' len' n : Nat) (ret : Int) : Unrecorded may
    (writeRetry c (cmdValue start len flagWrite) (cmdValue start' len' flagErase) n ret) := by
  induction n generalizing ret with
  | zero => exact pure ret
  | succ n ih =>
      refine bind (channelOp c start len (by decide)) fun ret => ?_
      split
      · exact pure ret
      refine bind (channelOp c start' len' (by decide)) fun erased => ?_
      split
      · exact pure ret
      · exact ih ret

theorem withSema {body : Drv α} (inner : Unrecorded may body) : Unrecorded may (Drv.withSema c body) :=
  bind (all ⟨trivial, fun _ => trivial⟩) fun _ => bind inner fun value =>
    bind (all ⟨trivial, fun _ => trivial⟩) fun _ => pure value

theorem ssdIdWriteBody (t : BlockType) (p : WriteParam) : Unrecorded may (ssdIdWriteBody c t p) := by
  refine bind (all ⟨trivial, fun _ => trivial⟩) fun known => ?_
  split
  · exact pure _
  refine bind (all ⟨trivial, fun _ => trivial⟩) fun index => ?_
  split
  · exact pure _
  refine bind (all ⟨trivial, fun _ => trivial⟩) fun _ => bind (all ⟨trivial, fun _ => trivial⟩) fun _ => ?_
  refine bind (all ⟨trivial, fun _ => trivial⟩) fun failed => ?_
  split
  · exact bind (all ⟨trivial, fun _ => trivial⟩) fun _ => pure _
  refine bind (writeRetry ..) fun ret => ?_
  split
  · exact bind (all ⟨trivial, fun _ => trivial⟩) fun _ => pure _
  refine bind (all ⟨trivial, fun _ => trivial⟩) fun ret => ?_
  split
  · exact bind (channelOp _ _ _ (by decide)) fun _ => bind (all ⟨trivial, fun _ => trivial⟩) fun _ => pure _
  · exact pure _

theorem ssdIdWrite (p : WriteParam) : Unrecorded may (ssdIdWrite p) := by
  unfold Driver.ssdIdWrite
  split
  · exact withSema (ssdIdWriteBody ..)
  split
  · exact withSema (ssdIdWriteBody ..)
  · exact pure _

theorem ssdIdDelete (id : BlockId) : Unrecorded may (ssdIdDelete id) := by
  refine withSema (bind (all ⟨trivial, fun _ => trivial⟩) fun found => ?_)
  cases found with
  | none => exact pure _
  | some info =>
      dsimp only
      split
      · exact bind (all ⟨trivial, fun _ => trivial⟩) fun _ => pure _
      refine bind (all ⟨trivial, fun _ => trivial⟩) fun _ => bind (channelOp _ _ _ (by decide)) fun ret => ?_
      split
      · exact bind (all ⟨trivial, fun _ => trivial⟩) fun _ => pure _
      · exact bind (all ⟨trivial, fun _ => trivial⟩) fun _ => bind (all ⟨trivial, fun _ => trivial⟩) fun _ => pure _

theorem ssdIdRead (p : ReadParam) : Unrecorded may (ssdIdRead p) := by
  refine withSema (bind (all ⟨trivial, fun _ => trivial⟩) fun found => ?_)
  cases found with
  | none => exact pure _
  | some info =>
      dsimp only
      split
      · exact pure _
      refine bind (all ⟨trivial, fun _ => trivial⟩) fun _ => bind (channelOp _ _ _ (by decide)) fun ret => ?_
      split
      · exact pure _
      refine bind (all ⟨trivial, fun _ => trivial⟩) fun reply => ?_
      cases reply with
      | none => exact pure _
      | some bytes => exact pure _

/-- A request behind the copy of its parameters. -/
theorem ssdBlockIoctl {request : Ioctl} {body : Drv (Int × Option Mem)}
    (same : ioctlBody request = withParam (-errCopyFromUser, none) body) (inner : Unrecorded may body) :
    Unrecorded may (ssdBlockIoctl request) := by
  unfold Driver.ssdBlockIoctl
  rw [same]
  refine bind (bind (all ⟨trivial, fun _ => trivial⟩) fun failed => ?_) fun _ => pure _
  split
  · exact pure _
  · exact inner

theorem readAttempts (p : ReadParam) (n : Nat) (ret : Int) (old : Option Mem) :
    Unrecorded may (readAttempts p n ret old) := by
  induction n generalizing ret old with
  | zero => exact pure _
  | succ n ih =>
      refine bind (ssdBlockIoctl rfl (ssdIdRead p)) fun r => ?_
      dsimp only
      split
      · exact pure _
      · exact ih _ _

/-- **Calls of the library** on the data of ids. -/
theorem call (lib : Library) (call : StoreCall) : Unrecorded may (call.run lib) := by
  cases call with
  | write id buffer count =>
      refine bind ?_ fun _ => pure _
      unfold ssdWrite
      split
      · exact pure _
      split
      · exact pure _
      cases buffer with
      | none => exact pure _
      | some bytes =>
          dsimp only
          split
          · exact pure _
          · exact bind (ssdBlockIoctl rfl (bind (ssdIdWrite _) fun _ => pure _)) fun _ => pure _
  | read id null count offset =>
      show Unrecorded may (ssdRead lib id null count offset)
      unfold ssdRead
      split
      · exact pure _
      · exact bind (readAttempts _ 3 _ _) fun _ => pure _
  | delete id =>
      refine bind ?_ fun _ => pure _
      unfold ssdDelete
      split
      · exact pure _
      · exact bind (ssdBlockIoctl rfl (bind (ssdIdDelete id) fun _ => pure _)) fun _ => pure _

end Unrecorded

end Unrecorded

/-! ## Lives -/

/-- What has happened to a card, and the answers. -/
inductive CardEvent where
  | call (e : StoreEvent)
  | flush (ret : Int)
  /-- A close, a loss of power, and an opening. -/
  | reopen (closed opened : Int)

def CardEvent.call? : CardEvent → Option StoreEvent
  | .call e => some e
  | _ => none

/-- The flush that the event has left on the card. -/
def CardEvent.flushed? : CardEvent → Option FlushType
  | .call _ => none
  | .flush _ => some .normal
  | .reopen .. => some .close

/-- Flushes, closes and openings answer `SSD_OK`. -/
def CardEvent.Succeeded : CardEvent → Prop
  | .call _ => True
  | .flush ret => ret = ssdOk
  | .reopen closed opened => closed = ssdOk ∧ opened = ssdOk

/-- The calls of a life, the newest first. -/
def calls (es : List CardEvent) : List StoreEvent := es.filterMap CardEvent.call?

/-- The last flush of a life. -/
def lastFlush (es : List CardEvent) : Option FlushType := es.findSome? CardEvent.flushed?

/-- The hardware finds the logical pages through the address table: where the table is the same,
so are the pages. -/
def Mapped (d d' : Device) : Prop := ∀ c < ssdMaxChannel,
  (∀ i < ssdTableSize, (d'.ch c).flash.addrTable i = (d.ch c).flash.addrTable i) →
    (d'.ch c).flash.data = (d.ch c).flash.data

/-- The life of a card, from its initialisation on; `may` are the outcomes of the calls. -/
inductive CardRun (may : May) (lib : Library) : List CardEvent → Device → Prop
  | initialised {d0 d : Device} (run : Run anyOutcome ssdSysOpenNewcard d0 ssdOk d) : CardRun may lib [] d
  | call {es : List CardEvent} {d d' : Device} {call : StoreCall} {ret : Int} {data : Option Mem}
      (before : CardRun may lib es d) (run : Run may (call.run lib) d (ret, data) d') :
      CardRun may lib (.call ⟨call, ret⟩ :: es) d'
  | flush {es : List CardEvent} {d d' : Device} {ret : Int} (before : CardRun may lib es d)
      (run : Run noFailure (ssdSysFlush .normal) d ret d') : CardRun may lib (.flush ret :: es) d'
  | reopen {es : List CardEvent} {d d1 d2 d3 : Device} {closed opened : Int} (before : CardRun may lib es d)
      (close : Run noFailure ssdSysClose d closed d1) (off : PowerCycle (view d1) (view d2))
      (start : Run noFailure ssdSysOpen d2 opened d3) (mapped : Mapped d1 d3) :
      CardRun may lib (.reopen closed opened :: es) d3

section Lives

variable {may : May} {lib : Library} {es : List CardEvent} {d d' d1 d2 d3 : Device} {id : BlockId} {bytes : Mem}

theorem noFailure_flawless : Flawless noFailure := fun _ _ _ => id

/-! ### What is restored -/

/-- The buckets and the allocators that were built again keep the invariants of the table. -/
theorem Reversed.written (hash : Reversed (view d).hash (view d').hash) (space : ∀ c < ssdMaxChannel,
    ∃ s, Reloaded c (s, (view d').hash c) ((view d').space c, (view d').hash c)) (before : WrittenTable d) :
    WrittenTable d' := by
  have nodes : ∀ c < ssdMaxChannel, (nodesOf (ledger d' c).2).Perm (nodesOf (ledger d c).2) := fun c inside =>
    hash.nodes inside
  constructor
  · intro c inside
    obtain ⟨s, reloaded⟩ := space c inside
    exact reloaded.inv (tableOk_of_inv (before.space c inside) (nodes c inside))
  · exact fun c inside => hash.placed inside (before.table c inside)
  · exact fun c inside node member => before.sized c inside node ((nodes c inside).mem_iff.1 member)

/-- **The table** has its invariants again. -/
theorem Restored.written (restored : Restored (view d) (view d')) (before : WrittenTable d) : WrittenTable d' :=
  restored.hash.written restored.space before

/-- Every id is where it was. -/
theorem Restored.lookup (restored : Restored (view d) (view d')) (before : WrittenTable d) (id : BlockId) :
    tableLookup d' id = tableLookup d id := restored.hash.find before.table id

/-- The bytes of an id. -/
theorem Restored.keeps (restored : Restored (view d) (view d')) (before : WrittenTable d)
    (data : ∀ c < ssdMaxChannel, contents d' c = contents d c) (keeps : Keeps id bytes (ledger d) (contents d)) :
    Keeps id bytes (ledger d') (contents d') := by
  obtain ⟨info, found, carries⟩ := keeps
  refine ⟨info, (restored.lookup before id).trans found, fun i inside => ?_⟩
  rw [data _ (id2channel_lt id)]
  exact carries i inside

/-- What a flush leaves alone is what the store is about. -/
theorem StoreInv.kept {calls : List StoreEvent} (stored : StoreInv may calls d)
    (kept : TablesKept (view d) (view d')) : StoreInv may calls d' := by
  have books : ledger d' = ledger d := by
    funext c
    exact Prod.ext (congrFun kept.space c) (congrFun kept.hash c)
  have data : contents d' = contents d := funext kept.data
  refine ⟨stored.table.congr books, ?_⟩
  rw [books, data]
  exact stored.bytes

/-! ### A close and an opening -/

/-- What an opening behind a close and a loss of power leads to; `d` is the card before the close. -/
structure Reopened (d d2 d3 : Device) : Prop where
  settled : ∃ b image, Settled (view d3) b ∧ LastFlush .close (view d) (view d3) b image
  version : (view d3).metadata.version.toNat = (view d).metadata.version.toNat + 1
  restored : Restored (view d) (view d3)
  data : ∀ c, (d3.ch c).flash.data = (d2.ch c).flash.data
  works : ∃ v1, Saved .close (view d) v1 ∧ Works v1 (view d3)

/-- **A close**, and the opening that may follow. -/
theorem close_spec {b : Nat} (settled : Settled (view d) b) (placed : TablePlaced d)
    (few : (tableNodes d).length ≤ ssdMaxIdNum) (room : d.metadata.version.toNat + 1 < 2 ^ 64) {closed : Int}
    (close : Run noFailure ssdSysClose d closed d1) : closed = ssdOk ∧ (view d1).opened = false ∧
      (∀ c, (d1.ch c).flash.addrTable = (d.ch c).flash.addrTable ∧ (d1.ch c).flash.data = (d.ch c).flash.data) ∧
      ∀ {d2 d3 opened}, PowerCycle (view d1) (view d2) → Run noFailure ssdSysOpen d2 opened d3 →
        opened = ssdOk ∧ Reopened d d2 d3 := by
  obtain ⟨rfl, v1, saved, shut⟩ := (ssdSysClose_saves noFailure_flawless settled few room).runs close
  obtain ⟨b', image, settled', last⟩ := saved.last
  have flash : (view d1).flash = v1.flash := by rw [shut]
  have same : ∀ c, (d1.ch c).flash = v1.flash c := fun c => congrFun flash c
  refine ⟨rfl, by rw [shut], fun c => ?_, fun {d2 d3 opened} off start => ?_⟩
  · rw [same]
    exact ⟨saved.kept.addrTable c, saved.kept.data c⟩
  · have power : PowerCycle v1 (view d2) := ⟨(SamePages.of_flash flash).trans off.pages, off.opened⟩
    have opens := (ssdSysOpen_restores noFailure_flawless settled' last placed power).runs start
    rw [if_pos rfl] at opens
    obtain ⟨rfl, works, restored, data⟩ := opens
    refine ⟨rfl, ⟨b', image, settled'.works works, last.works works⟩, ?_, restored, data, v1, saved, works⟩
    rw [works.metadata, saved.version]

/-- The tables of `d'` are those of `d`. -/
structure SameTables (d d' : Device) : Prop where
  lookup : ∀ id, tableLookup d' id = tableLookup d id
  ram : ∀ c < ssdMaxChannel, ∀ i < ssdTableSize, (d'.ch c).flash.addrTable i = (d.ch c).flash.addrTable i ∧
    (d'.ch c).flash.eraseTable i = (d.ch c).flash.eraseTable i

/-! ### The invariant -/

/-- The record on the card is that of the last flush, which is the last event but calls. -/
inductive Recorded (may : May) (lib : Library) : List CardEvent → Device → Prop
  | unflushed {es : List CardEvent} {d : Device} (never : lastFlush es = none)
      (bare : Bare (view d)) : Recorded may lib es d
  | flushed {later earlier : List CardEvent} {e : CardEvent} {type : FlushType} {d0 d : Device} {b : Nat} {image : Mem}
      (quiet : ∀ e' ∈ later, e'.flushed? = none) (kind : e.flushed? = some type) (run : CardRun may lib earlier d0)
      (written : WrittenTable d0) (settled : Settled (view d) b) (last : LastFlush type (view d0) (view d) b image) :
      Recorded may lib (later ++ e :: earlier) d

/-- The table and the bytes, the metadata blocks, and what was answered. -/
structure CardInv (may : May) (lib : Library) (es : List CardEvent) (d : Device) : Prop where
  store : StoreInv may (calls es) d
  settled : ∃ b, Settled (view d) b
  version : (view d).metadata.version.toNat ≤ es.length + 1
  recorded : Recorded may lib es d
  answers : ∀ e ∈ es, e.Succeeded

theorem Bare.keep {v v' : View} (bare : Bare v) (same : SamePages v v') : Bare v' := by
  constructor
  · intro pos pg inside low
    rw [(same pos (metaPos_inside inside) pg low).2]
    exact bare.clean pos pg inside low
  · intro pos inside pg low
    rw [(same pos (metaPos_inside inside) pg low).1]
    exact bare.empty pos inside pg low

/-- The event is a flush. -/
theorem Recorded.last {e : CardEvent} {type : FlushType} {b : Nat} {image : Mem} (kind : e.flushed? = some type)
    (run : CardRun may lib es d) (written : WrittenTable d) (settled : Settled (view d') b)
    (last : LastFlush type (view d) (view d') b image) : Recorded may lib (e :: es) d' :=
  @Recorded.flushed may lib [] es e type d d' b image (fun _ member => absurd member List.not_mem_nil) kind run written
    settled last

/-- The event is none. -/
theorem Recorded.quiet {e : CardEvent} (recorded : Recorded may lib es d) (kind : e.flushed? = none)
    (works : Works (view d) (view d')) : Recorded may lib (e :: es) d' := by
  cases recorded with
  | unflushed never bare =>
      refine .unflushed ?_ (bare.keep works.pages)
      rw [lastFlush, List.findSome?_cons, kind]
      exact never
  | @flushed later earlier f type d0 _ b image quiet kind' run written settled last =>
      exact @Recorded.flushed may lib (e :: later) earlier f type d0 d' b image
        (List.forall_mem_cons.2 ⟨kind, quiet⟩) kind' run written (settled.works works) (last.works works)

/-- A new card. -/
theorem Initialised.inv (card : Initialised (view d)) : CardInv may lib [] d := by
  obtain ⟨m, first⟩ := card.card.metadata
  refine ⟨⟨card.written, fun _ id bytes promised => by cases promised⟩,
    ⟨0, card.card.area, fun more => ?_, card.card.opened⟩,
    ?_, .unflushed rfl card.card.bare, fun e member => absurd member List.not_mem_nil⟩
  · rw [card.card.metaPos] at more
    exact absurd more (by decide)
  · rw [first]
    exact Nat.le_refl _

/-- **A call**, with any outcomes. -/
theorem CardInv.call (inv : CardInv may lib es d) {call : StoreCall} {ret : Int} {data : Option Mem}
    (run : Run may (call.run lib) d (ret, data) d') : CardInv may lib (.call ⟨call, ret⟩ :: es) d' := by
  have works := ((Unrecorded.call lib call).holds d).runs run
  obtain ⟨store, ⟨b, settled⟩, version, recorded, answers⟩ := inv
  refine ⟨store.step run, ⟨b, settled.works works⟩, ?_, ?_, ?_⟩
  · rw [works.metadata]
    exact Nat.le_succ_of_le version
  · exact recorded.quiet rfl works
  · exact List.forall_mem_cons.2 ⟨trivial, answers⟩

/-- The list of the ids has room, and so has the version. -/
theorem CardInv.room (inv : CardInv may lib es d) (few : es.length + 2 < 2 ^ 64) :
    (view d).nodes.length ≤ ssdMaxIdNum ∧ (view d).metadata.version.toNat + 1 < 2 ^ 64 := by
  refine ⟨inv.store.table.few, ?_⟩
  have version := inv.version
  omega

/-- **A flush.** -/
theorem CardInv.flush (inv : CardInv may lib es d) (few : es.length + 2 < 2 ^ 64)
    (before : CardRun may lib es d) {ret : Int}
    (run : Run noFailure (ssdSysFlush .normal) d ret d') : CardInv may lib (.flush ret :: es) d' := by
  obtain ⟨ids, room⟩ := inv.room few
  obtain ⟨b, settled⟩ := inv.settled
  obtain ⟨rfl, saved⟩ := (ssdSysFlush_saves noFailure_flawless settled ids room .normal).runs run
  obtain ⟨b', image, settled', last⟩ := saved.last
  refine ⟨inv.store.kept saved.kept, ⟨b', settled'⟩, ?_, ?_, ?_⟩
  · rw [saved.version]
    exact Nat.succ_le_succ inv.version
  · exact .last rfl before inv.store.table settled' last
  · exact List.forall_mem_cons.2 ⟨rfl, inv.answers⟩

/-- **A close and an opening.** -/
theorem CardInv.reopen (inv : CardInv may lib es d) (few : es.length + 2 < 2 ^ 64) (before : CardRun may lib es d)
    {closed opened : Int} (close : Run noFailure ssdSysClose d closed d1) (off : PowerCycle (view d1) (view d2))
    (start : Run noFailure ssdSysOpen d2 opened d3) (mapped : Mapped d1 d3) :
    CardInv may lib (.reopen closed opened :: es) d3 := by
  obtain ⟨ids, room⟩ := inv.room few
  obtain ⟨b0, settled0⟩ := inv.settled
  obtain ⟨rfl, -, kept, opens⟩ := close_spec settled0 inv.store.table.table ids room close
  obtain ⟨rfl, ⟨b, image, settled, last⟩, version, restored, -, -⟩ := opens off start
  have written := inv.store.table
  have data : ∀ c < ssdMaxChannel, contents d3 c = contents d c := by
    intro c inside
    refine (mapped c inside fun i small => ?_).trans (kept c).2
    rw [(kept c).1]
    exact (restored.tables c inside i small).1
  refine ⟨⟨restored.written written, fun effective id bytes promised => ?_⟩, ⟨b, settled⟩, ?_, ?_, ?_⟩
  · exact restored.keeps written data (inv.store.bytes effective id bytes promised)
  · rw [version]
    exact Nat.succ_le_succ inv.version
  · exact .last rfl before written settled last
  · exact List.forall_mem_cons.2 ⟨⟨rfl, rfl⟩, inv.answers⟩

/-- **The invariant of a life.** -/
theorem CardRun.inv (run : CardRun may lib es d) (few : es.length + 1 < 2 ^ 64) : CardInv may lib es d := by
  induction run with
  | initialised run => exact Initialised.inv ((ssdSysOpenNewcard_spec.runs run).1 rfl)
  | call before run ih =>
      rw [List.length_cons] at few
      exact (ih (by omega)).call run
  | flush before run ih =>
      rw [List.length_cons] at few
      exact (ih (by omega)).flush few before run
  | reopen before close off start mapped ih =>
      rw [List.length_cons] at few
      exact (ih (by omega)).reopen few before close off start mapped

/-- **Closing and opening again** is the identity on the tables, wherever in the life of a card:
every id keeps its blocks and every channel its two tables, and the card is as good as before. -/
theorem close_then_open (run : CardRun may lib es d) (few : es.length + 2 < 2 ^ 64) {closed opened : Int}
    (close : Run noFailure ssdSysClose d closed d1) (off : PowerCycle (view d1) (view d2))
    (start : Run noFailure ssdSysOpen d2 opened d3) :
    closed = ssdOk ∧ opened = ssdOk ∧ SameTables d d3 ∧ WrittenTable d3 ∧ ∃ b', Settled (view d3) b' := by
  have inv := run.inv (Nat.lt_of_succ_lt few)
  obtain ⟨ids, room⟩ := inv.room few
  obtain ⟨b, settled⟩ := inv.settled
  have written := inv.store.table
  obtain ⟨closes, -, -, opens⟩ := close_spec settled written.table ids room close
  obtain ⟨answers, ⟨b', -, settled', -⟩, -, restored, -, -⟩ := opens off start
  exact ⟨closes, answers, ⟨restored.hash.find written.table, restored.tables⟩, restored.written written, b', settled'⟩

/-! ### Lives exist -/

/-- A closed card that can be initialised. -/
def closedDevice : Device := { emptyDevice with opened := false }

/-- A life in which fewer outcomes are allowed. -/
theorem CardRun.any (run : CardRun may lib es d) : CardRun anyOutcome lib es d := by
  induction run with
  | initialised run => exact .initialised run
  | call before run ih => exact .call ih (run_any run)
  | flush before run ih => exact .flush ih run
  | reopen before close off start mapped ih => exact .reopen ih close off start mapped

theorem exists_initialised (may : May) (lib : Library) :
    ∃ d, CardRun may lib [] d ∧ Initialised (view d) ∧ Mirrors Held.none d := by
  have mirrors : Mirrors Held.none closedDevice := ⟨fun _ => rfl, rfl, fun _ => rfl⟩
  obtain ⟨ret, d, run, after⟩ := exists_run noFailure_live mirrors (ssdSysOpenNewcard_locks free_none rfl)
  obtain ⟨card, fine⟩ := ssdSysOpenNewcard_spec.runs run
  obtain rfl := fine noFailure_flawless rfl
  exact ⟨d, .initialised (run_any run), card rfl, after⟩

/-- A first id that is written on a new card. -/
def firstStore : CardEvent := .call ⟨.write ⟨0, 0⟩ (some sevens) 2097152, ssdOk⟩

theorem exists_stored (more : ∀ d a o, noFailure d a o → may d a o) :
    ∃ d, CardRun may openLibrary [firstStore] d ∧ Mirrors Held.none d := by
  obtain ⟨d0, run0, card, mirrors0⟩ := exists_initialised may openLibrary
  have absent : find (ledger d0 0).2 ⟨0, 0⟩ = none := by
    have bucket := card.hash 0 (by decide) (idHash ⟨0, 0⟩) (idHash_lt _)
    rw [find, show (ledger d0 0).2 (idHash ⟨0, 0⟩) = ⟨0, []⟩ from bucket]
    rfl
  obtain ⟨d1, write, mirrors1⟩ := first_store mirrors0 (card.space_eq (by decide)) absent
  exact ⟨d1, run0.call (write.mono more), mirrors1⟩

/-- A card with one id that is closed and opened. -/
theorem close_then_open_new : ∃ d d3 info, CardRun anyOutcome openLibrary [firstStore] d ∧
    tableLookup d ⟨0, 0⟩ = some info ∧ SameTables d d3 ∧ d3.opened = true := by
  obtain ⟨d, run, mirrors⟩ := @exists_stored effective fun _ _ _ allowed _ => allowed.2.1
  have stored := (run.inv (by decide)).store
  obtain ⟨info, found, -⟩ := stored.bytes effective_effective ⟨0, 0⟩ sevens (.written _ _)
  obtain ⟨closed, d1, close, mirrors1⟩ := exists_run noFailure_live mirrors (ssdSysClose_locks free_none rfl)
  have inv := run.inv (by decide)
  obtain ⟨ids, room⟩ := inv.room (by decide)
  obtain ⟨b, settled⟩ := inv.settled
  have shut := (close_spec settled stored.table.table ids room close).2.1
  have off : PowerCycle (view d1) (view d1) := ⟨.refl _, shut⟩
  obtain ⟨opened, d3, start, -⟩ := exists_run noFailure_live mirrors1 (ssdSysOpen_locks free_none rfl)
  obtain ⟨-, -, same, -, b', settled'⟩ := close_then_open run (by decide) close off start
  exact ⟨d, d3, info, run.any, found, same, settled'.opened⟩

end Lives

end FpgaSsd.Theory
