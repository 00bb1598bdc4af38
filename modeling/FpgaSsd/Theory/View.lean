/-
# Theory.View — the driver's programs on what they keep

A `View` is the part of a device that matters beyond one command: the hardware
behind each channel, the hash buckets and allocators, and the globals of the
flush. Semaphores, DMA buffers, counters and the command that is out are not in
it.

* `OnView must may p post v` — run alone from any device with view `v`, the
  program keeps `must` at every action and ends as `post` says; the outcomes are
  those of `may`. `must` is what has to hold where the power can fail;
* `OnView.seq`, `OnView.act`, `OnView.withSema`, `OnView.channelOp` are its rules;
* `OnView.runs`, `OnView.cut` — what it says of complete runs and of cut ones.
-/
import FpgaSsd.Theory.Discipline

namespace FpgaSsd.Theory

open FpgaSsd.Lib FpgaSsd.Driver

set_option autoImplicit false

structure View where
  flash : Nat → Flash
  hash : Nat → Nat → HashHead
  space : Nat → ChannelSpace
  kbufFlush : Mem
  metadata : SsdMetadata
  metaPos : MetaPosition
  opened : Bool

def view (d : Device) : View where
  flash c := (d.ch c).flash
  hash c := (d.ch c).hash
  space c := (d.ch c).space
  kbufFlush := d.kbufFlush
  metadata := d.metadata
  metaPos := d.metaPos
  opened := d.opened

def View.setFlash (v : View) (c : Nat) (f : Flash) : View :=
  { v with flash := Function.update v.flash c f }

@[simp] theorem View.setFlash_same (v : View) (c : Nat) : v.setFlash c (v.flash c) = v := by
  simp only [View.setFlash, Function.update_eq_self]

/-! ## Silent actions -/

/-- Actions that the view does not show. -/
def ChanAct.Silent : ChanAct → Prop
  | .await | .setIdInfo .. | .delIdInfo _ | .initBucket _ | .freeBucket _ | .space _ => False
  | _ => True

def Act.Silent : Act → Prop
  | .chan _ a => ChanAct.Silent a
  | .setOpened _ | .modMeta _ | .modMetaPos _ | .modFlush _ => False
  | _ => True

theorem view_setCh {d : Device} {c : Nat} {ch : Channel} (flash : ch.flash = (d.ch c).flash)
    (hash : ch.hash = (d.ch c).hash) (space : ch.space = (d.ch c).space) :
    view (d.setCh c ch) = view d := by
  have same : ∀ {α : Type} (f : Channel → α), f ch = f (d.ch c) →
      (fun c' => f ((d.setCh c ch).ch c')) = fun c' => f (d.ch c') := by
    intro α f eq
    funext c'
    by_cases here : c' = c
    · subst here
      rw [Device.setCh_ch_same, eq]
    · rw [Device.setCh_ch_other _ _ here]
  simp only [view, View.mk.injEq]
  exact ⟨same _ flash, same _ hash, same _ space, rfl, rfl, rfl, rfl⟩

/-- The view after a change of the hardware of one channel. -/
theorem view_setCh_flash {d : Device} {c : Nat} {ch : Channel} (hash : ch.hash = (d.ch c).hash)
    (space : ch.space = (d.ch c).space) :
    view (d.setCh c ch) = (view d).setFlash c ch.flash := by
  have same : ∀ {α : Type} (f : Channel → α), f ch = f (d.ch c) →
      (fun c' => f ((d.setCh c ch).ch c')) = fun c' => f (d.ch c') := by
    intro α f eq
    funext c'
    by_cases here : c' = c
    · subst here
      rw [Device.setCh_ch_same, eq]
    · rw [Device.setCh_ch_other _ _ here]
  simp only [view, View.setFlash, View.mk.injEq]
  refine ⟨?_, same _ hash, same _ space, rfl, rfl, rfl, rfl⟩
  funext c'
  by_cases here : c' = c
  · subst here
    rw [Device.setCh_ch_same, Function.update_self]
  · rw [Device.setCh_ch_other _ _ here, Function.update_of_ne here]

/-- A command that is out has not changed anything yet. -/
theorem view_issue (d : Device) (c cmd : Nat) :
    view (d.setCh c { d.ch c with outstanding := some cmd }) = view d := view_setCh rfl rfl rfl

theorem chanAct_silent {a : ChanAct} {o : Outcome} {ch ch' : Channel} {r : a.Reply}
    (silent : ChanAct.Silent a) (step : ch.perform a o = some (r, ch')) :
    ch'.flash = ch.flash ∧ ch'.hash = ch.hash ∧ ch'.space = ch.space := by
  cases a
  case await | setIdInfo | delIdInfo | initBucket | freeBucket | space => cases silent
  all_goals
    cases step
    exact ⟨rfl, rfl, rfl⟩

theorem act_silent {a : Act} {tid : Nat} {o : Outcome} {d d' : Device} {r : a.Reply}
    (silent : Act.Silent a) (step : d.perform tid a o = some (r, d')) : view d' = view d := by
  cases a
  case chan c a =>
      obtain ⟨⟨r', ch⟩, acted, eq⟩ := Option.map_eq_some_iff.1 step
      cases eq
      obtain ⟨flash, hash, space⟩ := chanAct_silent silent acted
      exact view_setCh flash hash space
  case down c =>
      simp only [Device.perform] at step
      split at step
      · cases step
        exact view_setCh rfl rfl rfl
      · cases step
  case up c =>
      cases step
      exact view_setCh rfl rfl rfl
  case downFlush =>
      simp only [Device.perform] at step
      split at step
      · cases step; rfl
      · cases step
  case setOpened | modMeta | modMetaPos | modFlush => cases silent
  all_goals
    cases step
    rfl

/-! ## Triples -/

/-- Alone, with `must` at every action. -/
def Solo (must : View → Prop) (may : May) : Contract Act Device Outcome :=
  ⟨Eq, fun d _ => must (view d), may⟩

theorem solo_steady (must : View → Prop) (may : May) : (Solo must may).Steady :=
  ⟨fun _ => rfl, Eq.trans⟩

/-- The triple from one device. -/
def OnDevice {α : Type} (must : View → Prop) (may : May) (p : Drv α) (post : α → View → Prop)
    (d : Device) : Prop :=
  Safe (Device.perform 0) (Solo must may) p (fun r d' => post r (view d')) d

def OnView {α : Type} (must : View → Prop) (may : May) (p : Drv α) (post : α → View → Prop)
    (v : View) : Prop :=
  ∀ d, view d = v → OnDevice must may p post d

namespace OnView

variable {α β : Type} {must : View → Prop} {may : May} {v : View}

theorem pure {value : α} {post : α → View → Prop} (holds : post value v) :
    OnView must may (Program.pure value) post v := by
  rintro d rfl d' rfl
  exact holds

theorem weaken {p : Drv α} {post post' : α → View → Prop} (triple : OnView must may p post v)
    (implies : ∀ value v', post value v' → post' value v') : OnView must may p post' v :=
  fun d shows => (triple d shows).weaken fun value _ => implies value _

theorem seq {p : Drv α} {next : α → Drv β} {M : α → View → Prop} {post : β → View → Prop}
    (first : OnView must may p M v)
    (rest : ∀ value v', M value v' → OnView must may (next value) post v') :
    OnView must may (p >>= next) post v :=
  fun d shows => Safe.seq (solo_steady must may) (first d shows) fun value d' holds =>
    rest value _ holds d' rfl

/-- One action. -/
theorem act {a : Act} {post : a.Reply → View → Prop} (here : must v)
    (each : ∀ d o r d', view d = v → may d a o → d.perform 0 a o = some (r, d') →
      post r (view d')) : OnView must may (Program.perform a) post v := by
  rintro d rfl d' rfl
  refine ⟨here, fun o r d'' allowed step => ?_⟩
  rintro t rfl
  exact each _ o r d'' rfl allowed step

/-- A `for` loop over `0, 1, .., n - 1` with a `return` in it. -/
theorem forRange {n : Nat} {body : Nat → Drv (Option α)} {I : Nat → View → Prop}
    {R : α → View → Prop}
    (step : ∀ k v, k < n → I k v → OnView must may (body k) (fun
      | none => I (k + 1)
      | some x => R x) v) (start : I 0 v) :
    OnView must may (Program.firstSome body (List.range n)) (fun
      | none => I n
      | some x => R x) v := by
  have loop : ∀ m k v, k + m = n → I k v →
      OnView must may (Program.firstSome body (List.range' k m)) (fun
        | none => I n
        | some x => R x) v := by
    intro m
    induction m with
    | zero =>
        rintro k v rfl holds
        exact pure holds
    | succ m ih =>
        intro k v total holds
        rw [List.range'_succ]
        refine seq (step k v (by omega) holds) fun r v' after => ?_
        cases r with
        | some x => exact pure after
        | none => exact ih (k + 1) v' (by omega) after
  rw [List.range_eq_range']
  exact loop n 0 v (Nat.zero_add n) start

/-- The same from `n - 1` down to `0`. -/
theorem forRangeDown {n : Nat} {body : Nat → Drv (Option α)} {I : Nat → View → Prop}
    {R : α → View → Prop}
    (step : ∀ k v, k < n → I (k + 1) v → OnView must may (body k) (fun
      | none => I k
      | some x => R x) v) (start : I n v) :
    OnView must may (Program.firstSome body (List.range n).reverse) (fun
      | none => I 0
      | some x => R x) v := by
  induction n generalizing v with
  | zero => exact pure start
  | succ n ih =>
      rw [List.range_succ, List.reverse_append, List.reverse_singleton, List.singleton_append]
      refine seq (step n v (Nat.lt_succ_self n) start) fun r v' after => ?_
      cases r with
      | some x => exact pure after
      | none => exact ih (fun k v less => step k v (Nat.lt_succ_of_lt less)) after

/-- An action that the view does not show. -/
theorem silent {a : Act} (here : must v) (silent : Act.Silent a) :
    OnView must may (Program.perform a) (fun _ v' => v' = v) v :=
  act here fun _ _ _ _ shows _ step => (act_silent silent step).trans shows

theorem getMeta (here : must v) :
    OnView must may Drv.getMeta (fun r v' => r = v.metadata ∧ v' = v) v :=
  act here fun _ _ _ _ shows _ step => by
    cases step
    subst shows
    exact ⟨rfl, rfl⟩

theorem getMetaPos (here : must v) :
    OnView must may Drv.getMetaPos (fun r v' => r = v.metaPos ∧ v' = v) v :=
  act here fun _ _ _ _ shows _ step => by
    cases step
    subst shows
    exact ⟨rfl, rfl⟩

theorem readFlush (here : must v) :
    OnView must may Drv.readFlush (fun r v' => r = v.kbufFlush ∧ v' = v) v :=
  act here fun _ _ _ _ shows _ step => by
    cases step
    subst shows
    exact ⟨rfl, rfl⟩

theorem getOpened (here : must v) :
    OnView must may (Program.perform Act.getOpened) (fun r v' => r = v.opened ∧ v' = v) v :=
  act here fun _ _ _ _ shows _ step => by
    cases step
    subst shows
    exact ⟨rfl, rfl⟩

theorem modMeta (here : must v) (f : SsdMetadata → SsdMetadata) :
    OnView must may (Drv.modMeta f) (fun _ v' => v' = { v with metadata := f v.metadata } ∧
      ∃ d o, view d = v ∧ may d (.modMeta f) o) v :=
  act here fun d o _ _ shows allowed step => by
    cases step
    subst shows
    exact ⟨rfl, d, o, rfl, allowed⟩

theorem modMetaPos (here : must v) (f : MetaPosition → MetaPosition) :
    OnView must may (Drv.modMetaPos f) (fun _ v' => v' = { v with metaPos := f v.metaPos } ∧
      ∃ d o, view d = v ∧ may d (.modMetaPos f) o) v :=
  act here fun d o _ _ shows allowed step => by
    cases step
    subst shows
    exact ⟨rfl, d, o, rfl, allowed⟩

theorem modFlush (here : must v) (f : Mem → Mem) :
    OnView must may (Drv.modFlush f) (fun _ v' => v' = { v with kbufFlush := f v.kbufFlush }) v :=
  act here fun _ _ _ _ shows _ step => by
    cases step
    subst shows
    rfl

theorem setOpened (here : must v) (flag : Bool) :
    OnView must may (Program.perform (Act.setOpened flag))
      (fun _ v' => v' = { v with opened := flag }) v :=
  act here fun _ _ _ _ shows _ step => by
    cases step
    subst shows
    rfl

theorem copyBucket (here : must v) (c b : Nat) :
    OnView must may (Drv.chan c (.copyBucket b)) (fun r v' => r = (v.hash c b).first ∧ v' = v) v :=
  act here fun d o r d' shows allowed step => by
    have same := act_silent (a := .chan c (.copyBucket b)) trivial step
    cases step
    subst shows
    exact ⟨rfl, same⟩

/-- A semaphore is not in the view. -/
theorem withSema {c : Nat} {body : Drv α} {post : α → View → Prop} (here : must v)
    (later : ∀ value v', post value v' → must v') (inner : OnView must may body post v) :
    OnView must may (Drv.withSema c body) post v :=
  seq (silent (a := .down c) here trivial) fun _ v1 same => by
    subst same
    refine seq inner fun value v2 holds => ?_
    exact seq (silent (a := .up c) (later value v2 holds) trivial) fun _ v3 same => by
      subst same
      exact pure holds

/-- **A command**, on the device. Its outcome is one that `may` allows while it is
out. -/
theorem op {c cmd : Nat} {d : Device} (here : must (view d)) :
    Safe (Device.perform 0) (Solo must may) (Driver.channelOp c cmd) (fun ret d' => ∃ o kbuf flash,
      may (d.setCh c { d.ch c with outstanding := some cmd }) (.chan c .await) o ∧
      Flash.exec (Command.ofWord cmd) o (d.ch c).kbuf (d.ch c).flash = some (kbuf, flash) ∧
      ret = o.ret.toInt ∧
      d' = d.setCh c { d.ch c with outstanding := none, kbuf := kbuf, flash := flash }) d := by
  rintro d' rfl
  refine ⟨here, fun o r d1 _ step => ?_⟩
  rintro d1' rfl
  have same : view d1 = view d := act_silent (a := .chan c (.issue cmd)) trivial step
  cases step
  refine ⟨show must _ by rw [same]; exact here, fun o' r' d2 allowed step' => ?_⟩
  rintro d2' rfl
  obtain ⟨⟨ret, ch⟩, acted, eq⟩ := Option.map_eq_some_iff.1 step'
  cases eq
  obtain ⟨cmd', kbuf', flash, issued, done, rfl, rfl⟩ := Channel.perform_await acted
  rw [Device.setCh_ch_same] at issued done
  cases issued
  refine ⟨o', kbuf', flash, allowed, done, rfl, ?_⟩
  simp only [Device.setCh_setCh, Device.setCh_ch_same]

/-- A command whose DMA buffer is filled by `f` just before. -/
theorem loadedOp {c cmd : Nat} (f : Mem → Mem) (here : must v) :
    OnView must may (Drv.modKbuf c f >>= fun _ => Driver.channelOp c cmd)
      (fun ret v' => ∃ d o kbuf kbuf' flash, view d = v ∧ (d.ch c).outstanding = some cmd ∧
        may d (.chan c .await) o ∧
        Flash.exec (Command.ofWord cmd) o (f kbuf) (v.flash c) = some (kbuf', flash) ∧
        ret = o.ret.toInt ∧ v' = v.setFlash c flash) v := by
  rintro d rfl d' rfl
  refine ⟨here, fun o r d1 _ step => ?_⟩
  have same : view d1 = view d := act_silent (a := .chan c (.modKbuf f)) trivial step
  have kbuf : (d1.ch c).kbuf = f (d.ch c).kbuf := by
    cases step
    rw [Device.setCh_ch_same]
  have flash : (d1.ch c).flash = (view d).flash c := by
    rw [← same]
    rfl
  refine (op (show must (view d1) by rw [same]; exact here)).weaken ?_
  rintro ret d2 ⟨o', kbuf', flash', allowed, done, rfl, rfl⟩
  refine ⟨d1.setCh c { d1.ch c with outstanding := some cmd }, o', (d.ch c).kbuf, kbuf', flash', ?_,
    ?_, allowed, by rw [← kbuf, ← flash]; exact done, rfl, ?_⟩
  · exact (view_issue ..).trans same
  · rw [Device.setCh_ch_same]
  · rw [← same]
    exact view_setCh_flash rfl rfl

theorem channelOp {c cmd : Nat} (here : must v) :
    OnView must may (Driver.channelOp c cmd) (fun ret v' => ∃ d o kbuf kbuf' flash, view d = v ∧
      (d.ch c).outstanding = some cmd ∧ may d (.chan c .await) o ∧
      Flash.exec (Command.ofWord cmd) o kbuf (v.flash c) = some (kbuf', flash) ∧
      ret = o.ret.toInt ∧ v' = v.setFlash c flash) v := by
  rintro d rfl
  refine (op here).weaken ?_
  rintro ret d2 ⟨o, kbuf, flash, allowed, done, rfl, rfl⟩
  refine ⟨d.setCh c { d.ch c with outstanding := some cmd }, o, (d.ch c).kbuf, kbuf, flash,
    view_issue .., ?_, allowed, done, rfl, view_setCh_flash rfl rfl⟩
  rw [Device.setCh_ch_same]

/-- The DMA buffer of a channel, where it is known. -/
theorem readKbuf {c : Nat} {d : Device} (here : must (view d)) :
    Safe (Device.perform 0) (Solo must may) (Drv.readKbuf c)
      (fun kbuf d' => kbuf = (d.ch c).kbuf ∧ view d' = view d) d := by
  rintro d' rfl
  refine ⟨here, fun o r d1 _ step => ?_⟩
  rintro d1' rfl
  have same := act_silent (a := .chan c .readKbuf) trivial step
  cases step
  exact ⟨rfl, same⟩

/-- What a triple says of a complete run. -/
theorem runs {p : Drv α} {post : α → View → Prop} {d d' : Device} {value : α}
    (triple : OnView must may p post (view d)) (run : Run may p d value d') : post value (view d') := by
  have holds := Safe.runs (fun _ => rfl) (triple d rfl) run
  exact holds

/-- What it says of a run that is cut: `must` or the postcondition. -/
theorem cut {p q : Drv α} {post : α → View → Prop} {d d' : Device}
    (triple : OnView must may p post (view d)) (run : Reaches (Device.perform 0) may p d q d') :
    must (view d') ∨ ∃ value, q = .pure value ∧ post value (view d') := by
  have safe := Safe.reaches (fun _ => rfl) (triple d rfl) run
  cases q with
  | pure value => exact .inr ⟨value, rfl, safe d' rfl⟩
  | act a rest => exact .inl (safe d' rfl).1

end OnView

end FpgaSsd.Theory
