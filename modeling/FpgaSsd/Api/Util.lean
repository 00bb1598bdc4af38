/-
# Api.Util — idle space

`SSD_util`, which reads the erase tables of all channels. What the reads answer is an
argument: the result for a channel, and the table that is in the buffer then.

* `utilTestAnswer` — what `SSD_util_test` makes of the answer for its channel;
* `ssdUtil` — the sum over the channels.
-/
import FpgaSsd.Api.Tables

namespace FpgaSsd.Api

open FpgaSsd.Lib FpgaSsd.Driver

set_option autoImplicit false

abbrev ssdMaxVirblocks : Nat := ssdMaxChannel * ssdMaxVirblocksPerChannel

/-- The signed difference times the size of a block, as an unsigned number of 64 bits. -/
def idleBytes (blocks used : Nat) : Nat := (((blocks : Int) - used) * ssdBlockSize % 2 ^ 64).toNat

def utilTestAnswer (answer : Int × Option Mem) : Nat :=
  if answer.1 ≠ ssdOk then 0
  else idleBytes ssdMaxVirblocksPerChannel (blockUsed (answer.2.getD fun _ => 0))

/-- The call of one channel reads its table and then only computes. -/
theorem ssdUtilTest_eq {u : Caller} {channel : Int} (opens : u.opens (devPath channel) = true)
    (memory : u.null = false) :
    ssdUtilTest u channel =
      utilTestAnswer <$> ioctl .own (.readTable ⟨(channel % 256).toNat, tableEraseType⟩) := by
  unfold ssdUtilTest
  rw [if_neg (by rw [opens]; decide), memory, if_neg (by decide), map_eq_pure_bind]
  congr 1
  funext ⟨ret, data⟩
  by_cases ok : ret = ssdOk
  · simp only [utilTestAnswer, ok, ne_eq, not_true, if_false]
    rfl
  · simp only [utilTestAnswer, ok, ne_eq, not_false_eq_true, if_true]

/-- The channels from `channel` on, with `n` of them left. -/
def utilLoop (answer : Nat → Int × Mem) : Nat → Nat → Nat → Nat
  | 0, _, used => idleBytes ssdMaxVirblocks used
  | n + 1, channel, used =>
      let (ret, buffer) := answer channel
      if ret ≠ ssdOk then 0 else utilLoop answer n (channel + 1) (used + blockUsed buffer)

def ssdUtil (u : Caller) (answer : Nat → Int × Mem) : Nat :=
  if u.opened = false then 0
  else if u.null then 0
  else utilLoop answer ssdMaxChannel 0 0

end FpgaSsd.Api
