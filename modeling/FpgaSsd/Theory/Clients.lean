/-
# Theory.Clients — one flush among writes and deletes

One flush, that of thread 0, runs while the other threads write and delete ids. A
`Watch` marks what the flush has begun to copy and keeps the states that the card has
been in.

* `quietSteps` — no step links or unlinks an id of a bucket between the tables of its
  channel and the bucket;
* `threadContract` — what a thread may do, and what it relies on; the flush relies on the
  hardware of the channels it has, on its image and on the buckets in their windows;
* `client_spares`, `threads_guarantee` — the clients leave it that.
-/
import FpgaSsd.Theory.Contents
import FpgaSsd.Theory.Exclusive
import FpgaSsd.Lib.History

namespace FpgaSsd.Theory

open FpgaSsd.Lib FpgaSsd.Driver

set_option autoImplicit false

/-! ## The system -/

/-- What the threads apart from the flush ask for. -/
inductive Client where
  | write (p : WriteParam)
  | delete (id : BlockId)

def Client.run : Client → Drv Int
  | .write p => ssdIdWrite p
  | .delete id => ssdIdDelete id

/-- The channels whose tables the flush has begun to copy, the buckets that it has copied,
and the states of the card before every step. -/
structure Watch where
  tables : Nat → Bool
  copied : Nat → Nat → Bool
  past : List Device

def Watch.none : Watch := ⟨fun _ => false, fun _ _ => false, []⟩

/-- What an action of the flush marks. The tables of a channel are the first thing for which
the flush takes the semaphore. -/
def Watch.mark (w : Watch) : Act → Watch
  | .down c => { w with tables := Function.update w.tables c true }
  | .chan c (.copyBucket b) =>
      { w with copied := Function.update w.copied c (Function.update (w.copied c) b true) }
  | _ => w

def watch (t : Nat) (a : Act) (_ : a.Reply) (d _ : Device) (w : Watch) : Watch :=
  { (if t = 0 then w.mark a else w) with past := d :: w.past }

abbrev Watched := Device × Watch

/-- The card, with what is marked. -/
abbrev watched (t : Nat) : Perform Act Act.Reply Watched Outcome := recorded (Device.perform t) (watch t)

abbrev FlushSystem := Pool Act Act.Reply Client Int Watched

/-- The tables of channel `c` are in the image, or about to be, and its bucket `b` is not. -/
def Watch.Window (w : Watch) (c b : Nat) : Prop := w.tables c = true ∧ w.copied c b = false

/-- The action links or unlinks no id of a bucket in its window. -/
def Waits (s : Watched) : Act → Prop
  | .chan c (.setIdInfo id _) => ¬ s.2.Window c (idHash id)
  | .chan c (.delIdInfo id) =>
      lookup ((s.1.ch c).hash (idHash id)).first id = none ∨ ¬ s.2.Window c (idHash id)
  | _ => True

/-- Commands on RAM tables that are answered `SSD_OK` take effect. -/
def tablesRead : Watched → Act → Outcome → Prop := fun s a o => effectiveTables s.1 a o

/-- The same, and every id waits. -/
def quietSteps : Watched → Act → Outcome → Prop := fun s a o => effectiveTables s.1 a o ∧ Waits s a

/-- The runs up to the return of the flush: any thread at any time. -/
abbrev FlushRuns (may : Watched → Act → Outcome → Prop) : FlushSystem → FlushSystem → Prop :=
  Pool.While 0 watched (fun _ => may) Client.run

/-- An open card with every semaphore free; thread 0 is about to flush, and the others
about to begin. -/
structure FlushAtRest (p : FlushSystem) : Prop where
  opened : p.state.1.opened = true
  sema : ∀ c, (p.state.1.ch c).sema = none
  idle : ∀ c, (p.state.1.ch c).outstanding = none
  free : p.state.1.flushSema = none
  unmarked : p.state.2 = .none
  flush : ∃ type, p.prog 0 = ssdSysFlush type
  begins : ∀ t, t ≠ 0 → p.prog t = (p.job t).run

/-! ## The clients -/

/-- Actions on one channel that create and destroy no bucket. -/
def KeepsBuckets : Act → Prop
  | .chan _ (.initBucket _) | .chan _ (.freeBucket _) => False
  | .chan .. | .down _ | .up _ => True
  | _ => False

section Clients

variable {α : Type}

theorem withSema_all {P : Act → Prop} {c : Nat} {body : Drv α} (down : P (.down c)) (up : P (.up c))
    (inner : body.All P) : (Drv.withSema c body).All P := by
  apply Program.All.bind (p := Drv.down c) (.perform down)
  intro _
  apply inner.bind
  intro ret
  exact Program.All.bind (p := Drv.up c) (.perform up) fun _ => trivial

theorem channelOp_keepsBuckets (c cmd : Nat) : (channelOp c cmd).All KeepsBuckets :=
  ⟨trivial, fun _ => ⟨trivial, fun _ => trivial⟩⟩

theorem deleteLogicBlock_keepsBuckets (info : IdInfo) : (Drv.deleteLogicBlock info).All KeepsBuckets :=
  ⟨trivial, fun _ => trivial⟩

theorem setIdInfo_keepsBuckets (id : BlockId) (info : IdInfo) : (Drv.setIdInfo id info).All KeepsBuckets :=
  .perform trivial

theorem writeRetry_keepsBuckets (channel writeCmd eraseCmd n : Nat) (ret : Int) :
    (writeRetry channel writeCmd eraseCmd n ret).All KeepsBuckets := by
  induction n generalizing ret with
  | zero => trivial
  | succ n ih =>
      apply (channelOp_keepsBuckets ..).bind
      intro ret
      split
      · trivial
      apply (channelOp_keepsBuckets ..).bind
      intro erased
      split
      · trivial
      · exact ih ret

theorem ssdIdWriteBody_keepsBuckets (channel : Nat) (type : BlockType) (p : WriteParam) :
    (ssdIdWriteBody channel type p).All KeepsBuckets := by
  apply Program.All.bind (p := Drv.getIdInfo ..) (.perform trivial)
  intro known
  split
  · trivial
  apply Program.All.bind (p := Drv.allocLogicBlock ..) (.perform trivial)
  intro index
  split
  · trivial
  apply Program.All.bind (p := Drv.addWriteCount ..) (.perform trivial)
  intro _
  apply Program.All.bind (p := Drv.publishFreeBlocks ..) (.perform trivial)
  intro _
  apply Program.All.bind (p := Drv.copyFromUser ..) (.perform trivial)
  intro failed
  split
  · exact (deleteLogicBlock_keepsBuckets _).bind fun _ => trivial
  apply (writeRetry_keepsBuckets ..).bind
  intro ret
  split
  · exact (deleteLogicBlock_keepsBuckets _).bind fun _ => trivial
  apply (setIdInfo_keepsBuckets ..).bind
  intro ret
  split
  · exact (channelOp_keepsBuckets ..).bind fun _ => (deleteLogicBlock_keepsBuckets _).bind fun _ => trivial
  · trivial

theorem ssdIdDeleteBody_keepsBuckets (channel : Nat) (id : BlockId) :
    (ssdIdDeleteBody channel id).All KeepsBuckets := by
  apply Program.All.bind (p := Drv.delIdInfo ..) (.perform trivial)
  intro found
  cases found with
  | none => trivial
  | some info =>
      dsimp only
      split
      · exact (setIdInfo_keepsBuckets ..).bind fun _ => trivial
      apply Program.All.bind (p := Drv.addDeleteCount ..) (.perform trivial)
      intro _
      apply (channelOp_keepsBuckets ..).bind
      intro ret
      split
      · exact (setIdInfo_keepsBuckets ..).bind fun _ => trivial
      apply (deleteLogicBlock_keepsBuckets _).bind
      intro _
      exact Program.All.bind (p := Drv.publishFreeBlocks ..) (.perform trivial) fun _ => trivial

theorem client_keepsBuckets (client : Client) : client.run.All KeepsBuckets := by
  cases client with
  | write p =>
      simp only [Client.run, ssdIdWrite]
      split
      · exact withSema_all trivial trivial (ssdIdWriteBody_keepsBuckets ..)
      split
      · exact withSema_all trivial trivial (ssdIdWriteBody_keepsBuckets ..)
      · trivial
  | delete id => exact withSema_all trivial trivial (ssdIdDeleteBody_keepsBuckets ..)

/-- Writes, deletes and the flush look at no record of an image. -/
theorem no_image (a : Act) (r : a.Reply) : harmlessReply .flush a r := by
  cases a
  case chan c a =>
      cases a
      case readKbuf => exact fun v named => absurd named Ioctl.noConfusion
      case issue => exact fun p named => absurd named Ioctl.noConfusion
      all_goals trivial
  all_goals trivial

theorem client_locks (client : Client) : Locks true (harmlessReply .flush) client.run Held.none := by
  cases client with
  | write p => exact ssdIdWrite_locks free_none p
  | delete id => exact ssdIdDelete_locks free_none id

end Clients

/-! ## Contracts -/

/-- What the flush relies on, apart from what every thread does. -/
structure Spared (s s' : Watched) : Prop where
  flash : ∀ c, (s.1.ch c).sema = some 0 → (s'.1.ch c).flash = (s.1.ch c).flash
  hash : ∀ c b, s.2.Window c b → (s'.1.ch c).hash b = (s.1.ch c).hash b
  kbufFlush : s'.1.kbufFlush = s.1.kbufFlush
  metadata : s'.1.metadata = s.1.metadata
  opened : s'.1.opened = s.1.opened
  tables : s'.2.tables = s.2.tables
  copied : s'.2.copied = s.2.copied
  past : ∀ d ∈ s.2.past, d ∈ s'.2.past

structure Moves (t : Nat) (s s' : Watched) : Prop where
  undisturbed : Undisturbed t s.1 s'.1
  spared : t = 0 → Spared s s'

/-- What thread `t` may do, and what it relies on. -/
def threadContract (t : Nat) : Contract Act Watched Outcome :=
  ⟨Moves t, fun s a => Permitted t .flush s.1 a ∧ (t ≠ 0 → KeepsBuckets a), quietSteps⟩

theorem moves_steady (t : Nat) (must : Watched → Act → Prop) (may : Watched → Act → Outcome → Prop) :
    Contract.Steady ⟨Moves t, must, may⟩ where
  refl s := ⟨(contract_steady t firstWrite).refl s.1, fun _ =>
    ⟨fun _ _ => rfl, fun _ _ _ => rfl, rfl, rfl, rfl, rfl, rfl, fun _ => id⟩⟩
  trans first second := by
    refine ⟨(contract_steady t firstWrite).trans first.undisturbed second.undisturbed, ?_⟩
    rintro rfl
    have early := first.spared rfl
    have late := second.spared rfl
    refine ⟨fun c held => ?_, fun c b window => ?_, late.kbufFlush.trans early.kbufFlush,
      late.metadata.trans early.metadata, late.opened.trans early.opened, late.tables.trans early.tables,
      late.copied.trans early.copied, fun d member => late.past d (early.past d member)⟩
    · exact (late.flash c ((first.undisturbed.sema c).1 held)).trans (early.flash c held)
    · refine (late.hash c b ?_).trans (early.hash c b window)
      rw [Watch.Window, early.tables, early.copied]
      exact window

section Steps

variable {t c : Nat} {s : Watched} {a : Act} {o : Outcome}

/-- What happens to the buckets of a channel. -/
theorem chanAct_buckets {a : ChanAct} {ch ch' : Channel} {r : a.Reply} {b : Nat} (on : KeepsBuckets (.chan c a))
    (step : ch.perform a o = some (r, ch')) : ch'.hash b = ch.hash b ∨
      (∃ id info, a = .setIdInfo id info ∧ b = idHash id) ∨
      ∃ id, a = .delIdInfo id ∧ b = idHash id ∧ lookup (ch.hash (idHash id)).first id ≠ none := by
  cases a
  case initBucket | freeBucket => cases on
  case setIdInfo id info =>
      by_cases here : b = idHash id
      · exact .inr (.inl ⟨id, info, rfl, here⟩)
      simp only [Channel.perform] at step
      split at step
      · cases step
      · cases step
        exact .inl (Function.update_of_ne here ..)
  case delIdInfo id =>
      simp only [Channel.perform] at step
      split at step
      · cases step
        exact .inl rfl
      · rename_i info found
        cases step
        by_cases here : b = idHash id
        · exact .inr (.inr ⟨id, rfl, here, by rw [found]; exact Option.some_ne_none info⟩)
        · exact .inl (Function.update_of_ne here ..)
  case await =>
      obtain ⟨-, -, -, -, -, -, rfl⟩ := Channel.perform_await step
      exact .inl rfl
  case space f =>
      obtain ⟨⟨r', space⟩, -, eq⟩ := Option.map_eq_some_iff.1 step
      cases eq
      exact .inl rfl
  all_goals
    cases step
    exact .inl rfl

/-- Actions that link and unlink no id. -/
def LinksNone : Act → Prop
  | .chan _ (.setIdInfo ..) | .chan _ (.delIdInfo _) => False
  | .chan _ (.initBucket _) | .chan _ (.freeBucket _) => False
  | _ => True

theorem linksNone_hash {r : a.Reply} {d d' : Device} (nothing : LinksNone a) (step : d.perform t a o = some (r, d')) :
    ∀ c, (d'.ch c).hash = (d.ch c).hash := by
  have channel : ∀ c' ch, ch.hash = (d.ch c').hash → ∀ c, ((d.setCh c' ch).ch c).hash = (d.ch c).hash := by
    intro c' ch hash c
    by_cases same : c = c'
    · subst same
      rwa [Device.setCh_ch_same]
    · rw [Device.setCh_ch_other _ _ same]
  cases a
  case chan c' a =>
      obtain ⟨⟨r', ch⟩, acted, eq⟩ := Option.map_eq_some_iff.1 step
      cases eq
      refine channel c' ch (funext fun b => ?_)
      have on : KeepsBuckets (.chan c' a) := by
        cases a
        case initBucket | freeBucket => cases nothing
        all_goals trivial
      rcases chanAct_buckets (b := b) on acted with same | ⟨id, info, rfl, -⟩ | ⟨id, rfl, -⟩
      · exact same
      · cases nothing
      · cases nothing
  case down c' =>
      simp only [Device.perform] at step
      split at step
      · cases step
        exact channel c' _ rfl
      · cases step
  case up c' =>
      cases step
      exact channel c' _ rfl
  case downFlush =>
      simp only [Device.perform] at step
      split at step
      · cases step
        exact fun _ => rfl
      · cases step
  all_goals
    cases step
    exact fun _ => rfl

/-- **A client spares the flush.** -/
theorem client_spares {r : a.Reply} {d : Device} (other : t ≠ 0) (permitted : Permitted t .flush s.1 a)
    (on : KeepsBuckets a) (waits : Waits s a) (step : s.1.perform t a o = some (r, d)) :
    Spared s (d, watch t a r s.1 d s.2) := by
  have marks : watch t a r s.1 d s.2 = { s.2 with past := s.1 :: s.2.past } := by
    rw [watch, if_neg other]
  -- one channel changes, and only what its action may
  have channel : ∀ c ch, d = s.1.setCh c ch → ((s.1.ch c).sema = some 0 → ch.flash = (s.1.ch c).flash) →
      (∀ b, s.2.Window c b → ch.hash b = (s.1.ch c).hash b) → Spared s (d, watch t a r s.1 d s.2) := by
    rintro c ch rfl flash hash
    rw [marks]
    refine ⟨fun c' held => ?_, fun c' b window => ?_, rfl, rfl, rfl, rfl, rfl, fun _ => List.mem_cons_of_mem _⟩
    · by_cases same : c' = c
      · subst same
        rw [Device.setCh_ch_same]
        exact flash held
      · rw [Device.setCh_ch_other _ _ same]
    · by_cases same : c' = c
      · subst same
        rw [Device.setCh_ch_same]
        exact hash b window
      · rw [Device.setCh_ch_other _ _ same]
  cases a
  case chan c a =>
      obtain ⟨⟨r', ch⟩, acted, eq⟩ := Option.map_eq_some_iff.1 step
      cases eq
      refine channel c ch rfl (fun held => ?_) fun b window => ?_
      · by_cases wait : a = .await
        · subst wait
          exact absurd (Option.some.inj ((permitted.1 rfl).symm.trans held)) other
        · exact chanAct_still wait acted
      · rcases chanAct_buckets (b := b) on acted with same | ⟨id, info, rfl, rfl⟩ | ⟨id, rfl, rfl, found⟩
        · exact same
        · exact absurd window waits
        · exact absurd window (waits.resolve_left found)
  case down c =>
      simp only [Device.perform] at step
      split at step
      · cases step
        exact channel c _ rfl (fun _ => rfl) fun _ _ => rfl
      · cases step
  case up c =>
      cases step
      exact channel c _ rfl (fun _ => rfl) fun _ _ => rfl
  all_goals cases on

/-- What a thread does is interference that the others rely on. -/
theorem threads_guarantee : Guarantees watched fun t (_ : Client) => threadContract t := by
  intro t t' _ _ s s' a o r other must may step
  obtain ⟨acted, told⟩ := recorded_eq_some.1 step
  have fitting : harmless ⟨.flush, trivial⟩ s.1 a o :=
    ⟨fun v c named => absurd named Ioctl.noConfusion, fun p c cmd named => absurd named Ioctl.noConfusion⟩
  refine ⟨permitted_undisturbed other must.1 fitting acted, ?_⟩
  rintro rfl
  obtain ⟨d, w⟩ := s'
  change w = watch t a r s.1 d s.2 at told
  subst told
  exact client_spares (Ne.symm other) must.1 (must.2 (Ne.symm other)) may.2 acted

/-- A thread that obeys the locks does what it may. -/
theorem watched_permitted {p : Drv Int} (obeys : Locks true (harmlessReply .flush) p Held.none)
    (rest : Resting t s.1) :
    Safe (watched t) ⟨Moves t, fun s a => Permitted t .flush s.1 a, quietSteps⟩ p (fun _ s => Resting t s.1) s := by
  refine (Safe.ofObeys (K := ⟨Moves t, fun s a => Permitted t .flush s.1 a, quietSteps⟩) (R := fun h s => Shows t h s.1)
    (fun shows later => shows.env later.undisturbed) (fun shows allowed => shows.permitted allowed)
    (fun shows allowed _ step => ?_) obeys rest).weaken ?_
  · exact ⟨no_image _ _, shows.next allowed (no_image _ _) (recorded_eq_some.1 step).1⟩
  · rintro value s' ⟨h, rfl, shows⟩
    exact shows

theorem client_safe (client : Client) (rest : Resting t s.1) :
    Safe (watched t) (threadContract t) client.run (fun _ s => Resting t s.1) s := by
  have all : Safe (watched t) ⟨Moves t, fun _ a => t ≠ 0 → KeepsBuckets a, quietSteps⟩ client.run
      (fun _ _ => True) s :=
    Safe.all (fun _ _ _ _ => trivial) (fun _ _ on _ _ => on) (fun _ _ _ _ _ _ _ _ _ => trivial)
      (client_keepsBuckets client) trivial
  exact ((watched_permitted (client_locks client) rest).both all).weaken fun _ _ both => both.1

end Steps

end FpgaSsd.Theory
