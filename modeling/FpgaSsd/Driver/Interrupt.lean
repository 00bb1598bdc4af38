/-
# Driver.Interrupt — `ssd_interrupt` over the whole card

The pending register has sixteen bits for each of the four chips: the error bit 15,
and bit `14 - j` for channel `j` of the eleven. `ssdInterrupt` of `Driver.Completion`
is the work on one channel; here are the two loops around it, with the shifts of the
pending word and of the status word as the code takes them. The fields of a status
word are five bits each, and a channel that the failure loop leaves with `continue`
does not move the word on.
-/
import FpgaSsd.Driver.Completion

namespace FpgaSsd.Driver

set_option autoImplicit false

abbrev ssdS6Nums : Nat := 4
abbrev ssdChannelsInS6 : Nat := 11

/-- The control blocks, the completions completed by this interrupt, and
`local_bus_error`. -/
structure Irq where
  ctl : Nat → ChannelCtl
  woken : Nat → Bool
  localBusError : BitVec 64

/-- The channels that the handler leaves with `continue`: a RAM-table command is out,
or the request has timed out. -/
def ChannelCtl.Skipped (c : ChannelCtl) : Prop := c.errorRam = ramPending ∨ c.errors = -errTimeout

instance (c : ChannelCtl) : Decidable c.Skipped := inferInstanceAs (Decidable (_ ∨ _))

namespace Irq

/-- The work on channel `c`. -/
def take (s : Irq) (failed : Bool) (field c : Nat) : Irq :=
  let (ctl, woken) := ssdInterrupt failed field (s.ctl c)
  { s with ctl := Function.update s.ctl c ctl, woken := Function.update s.woken c woken }

end Irq

/-- The loop of a chip without an error; `j` is the next channel of chip `i`. -/
def okLoop (i : Nat) : Nat → Nat → BitVec 16 → Irq → Irq
  | 0, _, _, s => s
  | n + 1, j, s6Pending, s =>
      let s6Pending := s6Pending <<< 1
      if s6Pending.toInt < 0 then okLoop i n (j + 1) s6Pending (s.take false 0 (j + i * 11))
      else if 0 < s6Pending.toInt then okLoop i n (j + 1) s6Pending s
      else s

/-- The loop of a chip with an error. -/
def failLoop (i : Nat) : Nat → Nat → BitVec 16 → BitVec 64 → Irq → Irq
  | 0, _, _, _, s => s
  | n + 1, j, s6Pending, s6Status, s =>
      if s6Pending = 0 then s
      else
        let s6Pending := s6Pending <<< 1
        if s6Pending.toInt < 0 then
          let s' := s.take true (s6Status &&& 0x1f).toNat (j + i * 11)
          if (s.ctl (j + i * 11)).Skipped then failLoop i n (j + 1) s6Pending s6Status s'
          else failLoop i n (j + 1) s6Pending (s6Status >>> 5) s'
        else failLoop i n (j + 1) s6Pending (s6Status >>> 5) s

/-- Chip `i`. The bits 60 to 63 of its status are the error of the local bus. -/
def serveChip (pending : BitVec 64) (status : Nat → BitVec 64) (s : Irq) (i : Nat) : Irq :=
  let s6Pending := (pending >>> (i * 16)).setWidth 16
  if 0 < s6Pending.toInt then okLoop i ssdChannelsInS6 0 s6Pending s
  else if s6Pending.toInt < 0 then
    failLoop i ssdChannelsInS6 0 s6Pending (status i) { s with
      localBusError := if s.localBusError = 0 then status i >>> 60 &&& 0xf else s.localBusError }
  else s

/-- `ssd_interrupt`, with the value of the pending register and of the four status
registers. -/
def ssdInterruptChips (pending : BitVec 64) (status : Nat → BitVec 64) (ctl : Nat → ChannelCtl)
    (localBusError : BitVec 64) : Irq :=
  (List.range ssdS6Nums).foldl (serveChip pending status) ⟨ctl, fun _ => false, localBusError⟩

end FpgaSsd.Driver
