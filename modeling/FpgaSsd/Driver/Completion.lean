/-
# Driver.Completion — `channel_op` under its interrupt and its timer

`channelOp` of `Driver.Device` takes a completion for granted. Here are its parts
on one channel: the request thread, statement by statement, the handler
`ssd_interrupt` for the channel, the timer, and a hardware that completes any
command it was given at any later time and raises the interrupt of a completed
command at any time after that. The waiting, polling and rearming follow the
fields of `channel_op_control_t`.
-/
import FpgaSsd.Driver.Types
import Mathlib.Logic.Function.Basic
import Mathlib.Logic.Relation

namespace FpgaSsd.Driver

set_option autoImplicit false

abbrev errDelTimer : Int := 13
abbrev errWait : Int := 18
/-- What `error_ram` holds while a RAM-table command is out. -/
abbrev ramPending : Int := -100

/-! ## The control block -/

/-- The fields of `channel_op_control_t` that the three parties share. -/
structure ChannelCtl where
  errors : Int
  errorRam : Int
  /-- `waiting` points to the completion of the request. -/
  waiting : Bool
  /-- `timeout.function` is set. -/
  timerFunction : Bool
  /-- The timer is in the list of the kernel. -/
  timerPending : Bool
  deriving DecidableEq, Repr

/-- `del_timer` answers 1 for a timer that was pending. -/
def ssdDeleteTimer (c : ChannelCtl) : Int × ChannelCtl :=
  if c.timerFunction then
    (if c.timerPending then ssdOk else -errDelTimer,
      { c with timerFunction := false, timerPending := false })
  else (-errDelTimer, c)

def ssdAddTimer (c : ChannelCtl) : ChannelCtl := { c with timerFunction := true, timerPending := true }

/-- The `Bool` of this and the next function: the completion is completed. -/
def ssdTimeout (c : ChannelCtl) : ChannelCtl × Bool :=
  ({ c with errors := -errTimeout, waiting := false }, c.waiting)

/-- `ssd_interrupt` for one channel whose bit is pending. `failed` is the error bit
of its group of eleven channels, so `status` may be zero also when it is set. -/
def ssdInterrupt (failed : Bool) (status : Nat) (c : ChannelCtl) : ChannelCtl × Bool :=
  if c.errorRam = ramPending then ({ c with errorRam := 0 }, false)
  else if c.errors = -errTimeout then (c, false)
  else
    let (ret, c) := ssdDeleteTimer c
    if failed then ({ c with errors := status * 128, waiting := false }, c.waiting)
    else
      let c := { c with errors := ret }
      if ret = ssdOk ∧ c.waiting then ({ c with waiting := false }, true) else (c, false)

/-! ## The line -/

/-- Where the request thread is in `channel_op`: before the statement named. -/
inductive Phase where
  | idle
  | setRam
  | addTimer
  | writeCmd
  | setWaiting
  | wait
  | clearWaiting
  | finish
  | poll
  deriving DecidableEq, Repr

/-- The five bits of a status. -/
instance neZeroStatuses : NeZero 32 := ⟨by decide⟩

/-- A command of the hardware: not given, running, completed with a status, and
its interrupt taken. -/
inductive CommandState where
  | absent
  | running
  | completed (status : Fin 32)
  | raised (status : Fin 32)
  deriving DecidableEq, Repr

/-- The status of a command that the hardware has completed. -/
def CommandState.status : CommandState → Option (Fin 32)
  | .completed s | .raised s => some s
  | _ => none

/-- One channel. The calls of `channel_op` are numbered; `returns` are the numbers
and return values of those that are over. -/
structure Line where
  ctl : ChannelCtl
  phase : Phase
  call : Nat
  cmd : Nat
  /-- `complete` was called on the completion of this call. -/
  woken : Bool
  device : Nat → CommandState
  returns : List (Nat × Int)

inductive Event where
  | call (cmd : Nat)
  /-- The request thread goes on. -/
  | next
  /-- The wait of 8000 jiffies or the polling loop runs out. -/
  | giveUp
  | timer
  | complete (call : Nat) (status : Fin 32)
  | interrupt (call : Nat) (failed : Bool)
  deriving DecidableEq, Repr

namespace Line

/-- The call is over. -/
def answer (l : Line) (ret : Int) : Line :=
  { l with phase := .idle, returns := (l.call, ret) :: l.returns }

/-- One statement of `channel_op`. -/
def next (l : Line) : Option Line :=
  match l.phase with
  | .idle => none
  | .setRam =>
      if isRamTable l.cmd then some { l with phase := .writeCmd, ctl.errorRam := ramPending }
      else some { l with phase := .addTimer, ctl.errorRam := 0 }
  | .addTimer => some { l with phase := .writeCmd, ctl := ssdAddTimer l.ctl }
  | .writeCmd =>
      let device := Function.update l.device l.call .running
      some { l with device := device, phase := if isRamTable l.cmd then .poll else .setWaiting }
  | .setWaiting => some { l with phase := .wait, ctl.waiting := true }
  | .wait => if l.woken then some { l with phase := .clearWaiting } else none
  | .clearWaiting => some { l with phase := .finish, ctl.waiting := false }
  | .finish => some (l.answer l.ctl.errors)
  | .poll => if l.ctl.errorRam = ramPending then none else some (l.answer l.ctl.errorRam)

def step (l : Line) : Event → Option Line
  | .call cmd =>
      if l.phase = .idle then
        some { l with
          phase := .setRam, call := l.call + 1, cmd := cmd, woken := false
          ctl.errors := -errWait }
      else none
  | .next => l.next
  | .giveUp =>
      match l.phase with
      | .wait => some { l with phase := .clearWaiting }
      | .poll => some (l.answer (-49))
      | _ => none
  | .timer =>
      if l.ctl.timerPending then
        let (ctl, woken) := ssdTimeout { l.ctl with timerPending := false }
        some { l with ctl := ctl, woken := l.woken || woken }
      else none
  | .complete n status =>
      if l.device n = .running then
        some { l with device := Function.update l.device n (.completed status) }
      else none
  | .interrupt n failed =>
      match l.device n with
      | .completed status =>
          -- a failing command sets the error bit of its group
          if failed = false ∧ status ≠ 0 then none
          else
            let (ctl, woken) := ssdInterrupt failed status l.ctl
            some { l with
              ctl := ctl, woken := l.woken || woken
              device := Function.update l.device n (.raised status) }
      | _ => none

/-- The runs whose steps all satisfy `may`. -/
inductive Run (may : Line → Event → Prop) : Line → Line → Prop
  | refl (l : Line) : Run may l l
  | tail {l l' l'' : Line} {e : Event} (run : Run may l l') (allowed : may l' e)
      (step : l'.step e = some l'') : Run may l l''

/-- The line after a list of events. -/
def play (l : Line) (events : List Event) : Option Line := events.foldlM step l

/-- A line that plays events which `may` always allows runs on. -/
theorem Run.play {may : Line → Event → Prop} {l l' l'' : Line} (run : Run may l l')
    (events : List Event) (allowed : ∀ e ∈ events, ∀ l, may l e) (played : l'.play events = some l'') :
    Run may l l'' := by
  induction events generalizing l' with
  | nil =>
      cases played
      exact run
  | cons e rest ih =>
      simp only [Line.play, List.foldlM_cons, Option.bind_eq_bind, Option.bind_eq_some_iff] at played
      obtain ⟨mid, first, later⟩ := played
      exact ih (.tail run (allowed e (List.mem_cons_self ..) l') first)
        (fun e' member => allowed e' (List.mem_cons_of_mem _ member)) later

/-- No call has begun; the fields hold whatever they hold. -/
structure Fresh (l : Line) : Prop where
  phase : l.phase = .idle
  call : l.call = 0
  device : ∀ n, l.device n = .absent
  returns : l.returns = []

end Line

end FpgaSsd.Driver
