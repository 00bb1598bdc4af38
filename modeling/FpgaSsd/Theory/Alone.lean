/-
# Theory.Alone — one thread on the device

The reading of the driver's programs when nothing else runs: `Alone may` is the
contract without interference, and `Holds may p post d` says that every run of
`p` from `d` whose outcomes `may` allows ends as `post` says (`Holds.runs`).
`channelOp_holds` is what a command does, `channelOp_runs` the one run of it, and
`Permits may G` the contract of a thread that performs actions of `G` only.
-/
import FpgaSsd.Driver.Open

namespace FpgaSsd.Theory

open FpgaSsd.Lib FpgaSsd.Driver

set_option autoImplicit false

/-- Which outcomes an action may have in a state. -/
abbrev May := Device → Act → Outcome → Prop

/-- Every outcome. -/
def anyOutcome : May := fun _ _ _ => True

/-- No interference and no obligation. -/
def Alone (may : May) : Contract Act Device Outcome := ⟨Eq, fun _ _ => True, may⟩

theorem alone_steady (may : May) : (Alone may).Steady := ⟨fun _ => rfl, Eq.trans⟩

/-- The complete runs of a program by thread 0, with no other thread. -/
abbrev Run {α : Type} (may : May) (p : Drv α) (d : Device) (value : α) (d' : Device) : Prop :=
  Runs (Device.perform 0) may p d value d'

theorem run_any {α : Type} {may : May} {p : Drv α} {d d' : Device} {value : α}
    (run : Run may p d value d') : Run anyOutcome p d value d' := run.mono fun _ _ _ _ => trivial

abbrev Holds {α : Type} (may : May) (p : Drv α) (post : α → Device → Prop) (d : Device) : Prop :=
  Safe (Device.perform 0) (Alone may) p post d

namespace Holds

variable {α β : Type} {may : May} {d : Device}

theorem runs {p : Drv α} {post : α → Device → Prop} (holds : Holds may p post d) {value : α}
    {d' : Device} (run : Run may p d value d') : post value d' :=
  Safe.runs (fun _ => rfl) holds run

theorem pure {value : α} {post : α → Device → Prop} (holds : post value d) :
    Holds may (Program.pure value) post d := by
  rintro d' rfl
  exact holds

theorem seq {p : Drv α} {next : α → Drv β} {M : α → Device → Prop} {post : β → Device → Prop}
    (first : Holds may p M d) (rest : ∀ value d', M value d' → Holds may (next value) post d') :
    Holds may (p >>= next) post d := Safe.seq (alone_steady may) first rest

theorem perform {a : Act} {post : a.Reply → Device → Prop}
    (each : ∀ o r d', may d a o → d.perform 0 a o = some (r, d') → post r d') :
    Holds may (Program.perform a) post d := by
  rintro d' rfl
  refine ⟨trivial, fun o r d'' allowed step => ?_⟩
  rintro t rfl
  exact each o r d'' allowed step

theorem chan {c : Nat} {a : ChanAct} {post : a.Reply → Device → Prop}
    (each : ∀ o r ch, may d (.chan c a) o → (d.ch c).perform a o = some (r, ch) →
      post r (d.setCh c ch)) : Holds may (Drv.chan c a) post d := by
  refine Holds.perform fun o r d' allowed step => ?_
  obtain ⟨⟨r', ch⟩, acted, eq⟩ := Option.map_eq_some_iff.1 step
  cases eq
  exact each o r ch allowed acted

end Holds

/-- A command and its answer. -/
theorem channelOp_holds (may : May) (c cmd : Nat) (d : Device) : Holds may (channelOp c cmd) (fun ret d' =>
    ∃ o kbuf flash, may (d.setCh c { d.ch c with outstanding := some cmd }) (.chan c .await) o ∧
      Flash.exec (Command.ofWord cmd) o (d.ch c).kbuf (d.ch c).flash = some (kbuf, flash) ∧
      ret = o.ret.toInt ∧ d' = d.setCh c { d.ch c with outstanding := none, kbuf := kbuf, flash := flash }) d := by
  refine Holds.seq (M := fun _ d1 => d1 = d.setCh c { d.ch c with outstanding := some cmd }) ?_ ?_
  · refine Holds.chan fun o r ch _ step => ?_
    cases step
    rfl
  rintro _ d1 rfl
  refine Holds.chan fun o r ch allowed step => ?_
  rw [Device.setCh_ch_same] at step
  obtain ⟨cmd', kbuf, flash, issued, done, rfl, rfl⟩ := Channel.perform_await step
  cases issued
  exact ⟨o, kbuf, flash, allowed, done, rfl, Device.setCh_setCh ..⟩

/-! ## Permitted actions -/

/-- The actions `G` only, with the outcomes of `may`. -/
def Permits (may : May) (G : Act → Prop) : Contract Act Device Outcome := ⟨Eq, fun _ => G, may⟩

theorem permits_steady (may : May) (G : Act → Prop) : (Permits may G).Steady := ⟨fun _ => rfl, Eq.trans⟩

section Permits

variable {α : Type} {may : May} {G : Act → Prop}

theorem permits_all {p : Drv α} (all : p.All G) (d : Device) :
    Safe (Device.perform 0) (Permits may G) p (fun _ _ => True) d :=
  Safe.all (fun _ _ _ _ => trivial) (fun _ _ permitted _ => permitted)
    (fun _ _ _ _ _ _ _ _ _ => trivial) all trivial

/-- A section permits what its body permits, where the semaphore has been taken. -/
theorem permits_withSema {c : Nat} {body : Drv α} {post : α → Prop} {d : Device}
    (down : G (.down c)) (up : G (.up c))
    (spec : Safe (Device.perform 0) (Permits may G) body (fun value _ => post value)
      (d.setCh c { d.ch c with sema := some 0 })) :
    Safe (Device.perform 0) (Permits may G) (Drv.withSema c body) (fun value _ => post value) d := by
  have steady := permits_steady may G
  have release : (Drv.up c).All G := ⟨up, fun _ => trivial⟩
  refine Safe.seq steady (M := fun _ d1 => d1 = d.setCh c { d.ch c with sema := some 0 }) ?_ ?_
  · rintro d1 rfl
    refine ⟨down, fun o reply d2 _ step => ?_⟩
    simp only [Device.perform] at step
    split at step
    · cases step
      rintro d3 rfl
      rfl
    · cases step
  · rintro _ d1 rfl
    refine Safe.seq steady spec fun value d2 holds => ?_
    refine Safe.seq steady (permits_all release d2) fun _ d3 _ => ?_
    rintro d4 rfl
    exact holds

end Permits

/-! ## Without failures -/

/-- The command that is out reads a page that cannot be read. -/
def Unreadable (ch : Channel) : Prop :=
  ∃ cmd, ch.outstanding = some cmd ∧ (Command.ofWord cmd).flag = flagReadtablesFromFlash ∧
    (ch.flash.page (Command.ofWord cmd).start = none ∨
      ch.flash.suspect (Command.ofWord cmd).start = true)

/-- No action fails, apart from reads of unreadable pages; these answer with a
hardware status. -/
def noFailure : May := fun d a o =>
  o.failed = false ∧ o.taken = true ∧
    ∀ c, a = .chan c .await → o.ret = .ok ∨ (Unreadable (d.ch c) ∧ o.ret ≠ .timeout)

/-- `may` allows no failure. -/
def Flawless (may : May) : Prop := ∀ d a o, may d a o → noFailure d a o

/-- A command that is answered `SSD_OK` has taken effect. -/
def effective : May := fun _ _ o => o.ret = .ok → o.taken = true

/-- `may` lets no command answer `SSD_OK` without its effect. -/
def Effective (may : May) : Prop := ∀ d a o, may d a o → effective d a o

/-- A command on one of the tables in RAM, which `channel_op` polls for. -/
def OnRamTable (cmd : Nat) : Prop :=
  (Command.ofWord cmd).flag ∈ [flagWriteAddrTable, flagWriteEraseTable, flagReadAddrTable, flagReadEraseTable]

instance (cmd : Nat) : Decidable (OnRamTable cmd) := inferInstanceAs (Decidable (_ ∈ _))

/-- The same of the commands on RAM tables alone. -/
def effectiveTables : May := fun d a o => ∀ c cmd, a = .chan c .await → (d.ch c).outstanding = some cmd →
  OnRamTable cmd → o.ret = .ok → o.taken = true

def EffectiveTables (may : May) : Prop := ∀ d a o, may d a o → effectiveTables d a o

theorem Effective.tables {may : May} (effective : Effective may) : EffectiveTables may :=
  fun d a o allowed _ _ _ _ _ => effective d a o allowed

theorem effective_effective : Effective effective := fun _ _ _ => id

theorem Flawless.effective {may : May} (flawless : Flawless may) : Effective may :=
  fun d a o allowed _ => (flawless d a o allowed).2.1

/-! ## Single runs -/

/-- The outcome of an action without any failure. -/
def succeeds : Outcome :=
  ⟨.ok, false, true, fun _ => true, fun _ => 0, fun _ => 0, fun _ => 0, fun _ => 0, 0⟩

/-- A timeout. -/
def timesOut : Outcome := { succeeds with ret := .timeout }

/-- A RAM table command that is polled in vain. -/
def ramTimesOut : Outcome := { succeeds with ret := .ramTimeout }

section Steps

variable {α : Type} {may : May} {t c : Nat} {d : Device} {ch k : Channel} {P : Drv α → Device → Prop}

/-- An action on channel `c`. -/
theorem device_leads_chan_at {a : ChanAct} {rest : a.Reply → Drv α} (o : Outcome) {r : a.Reply}
    (allowed : may (d.setCh c ch) (.chan c a) o) (step : ch.perform a o = some (r, k))
    (tail : Leads (Device.perform t) may P (rest r) (d.setCh c k)) :
    Leads (Device.perform t) may P (.act (.chan c a) rest) (d.setCh c ch) := by
  refine Leads.act o allowed (r := r) (u := d.setCh c k) ?_ tail
  simp only [Device.perform, Device.setCh_ch_same, step, Option.map_some, Device.setCh_setCh]

theorem device_leads_chan {a : ChanAct} {rest : a.Reply → Drv α} (o : Outcome) {r : a.Reply}
    (allowed : ∀ d, may d (.chan c a) o) (step : ch.perform a o = some (r, k))
    (tail : Leads (Device.perform t) may P (rest r) (d.setCh c k)) :
    Leads (Device.perform t) may P (.act (.chan c a) rest) (d.setCh c ch) :=
  device_leads_chan_at o (allowed _) step tail

/-- The semaphore of channel `c` is taken. -/
theorem device_leads_down {rest : Unit → Drv α} (o : Outcome) (allowed : ∀ d, may d (.down c) o)
    (free : ch.sema = none)
    (tail : Leads (Device.perform t) may P (rest ()) (d.setCh c { ch with sema := some t })) :
    Leads (Device.perform t) may P (.act (.down c) rest) (d.setCh c ch) := by
  refine Leads.act o (allowed _) (r := ()) (u := d.setCh c { ch with sema := some t }) ?_ tail
  simp only [Device.perform, Device.setCh_ch_same, free, if_true, Device.setCh_setCh]

/-- The semaphore of channel `c` is given back. -/
theorem device_leads_up_at {rest : Unit → Drv α} (o : Outcome) (allowed : may (d.setCh c ch) (.up c) o)
    (tail : Leads (Device.perform t) may P (rest ()) (d.setCh c { ch with sema := none })) :
    Leads (Device.perform t) may P (.act (.up c) rest) (d.setCh c ch) := by
  refine Leads.act o allowed (r := ()) (u := d.setCh c { ch with sema := none }) ?_ tail
  simp only [Device.perform, Device.setCh_ch_same, Device.setCh_setCh]

theorem device_leads_up {rest : Unit → Drv α} (o : Outcome) (allowed : ∀ d, may d (.up c) o)
    (tail : Leads (Device.perform t) may P (rest ()) (d.setCh c { ch with sema := none })) :
    Leads (Device.perform t) may P (.act (.up c) rest) (d.setCh c ch) :=
  device_leads_up_at o (allowed _) tail

end Steps

/-- A section leads where its body does. -/
theorem withSema_leads {α : Type} {may : May} {c : Nat} {body : Drv α} {d : Device}
    {P : Drv α → Device → Prop} (allowed : may d (.down c) succeeds) (free : (d.ch c).sema = none)
    (keeps : ∀ q t (next : α → Drv α), P q t → P (q >>= next) t)
    (inside : Leads (Device.perform 0) may P body (d.setCh c { d.ch c with sema := some 0 })) :
    Leads (Device.perform 0) may P (Drv.withSema c body) d := by
  have taken : Run may (Drv.down c) d () (d.setCh c { d.ch c with sema := some 0 }) :=
    .act allowed (by simp only [Device.perform, free, if_true]) (.pure _ _)
  exact Leads.seq taken (Leads.bind inside fun q t holds => keeps q t _ holds)

/-- A command that the hardware can answer with `o'`. -/
theorem channelOp_runs {may : May} {t c cmd : Nat} {d : Device} {o o' : Outcome} {kbuf : Mem}
    {flash : Flash} (first : may d (.chan c (.issue cmd)) o)
    (second : may (d.setCh c { d.ch c with outstanding := some cmd }) (.chan c .await) o')
    (done : Flash.exec (Command.ofWord cmd) o' (d.ch c).kbuf (d.ch c).flash = some (kbuf, flash)) :
    Runs (Device.perform t) may (channelOp c cmd) d o'.ret.toInt
      (d.setCh c { d.ch c with outstanding := none, kbuf := kbuf, flash := flash }) := by
  refine .act first rfl (.act second ?_ (.pure _ _))
  simp only [Device.perform, Channel.perform, Device.setCh_ch_same, Option.bind_eq_bind, Option.bind_some,
    done, Option.pure_def, Option.map_some, Device.setCh_setCh]

end FpgaSsd.Theory
