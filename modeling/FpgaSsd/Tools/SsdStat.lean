/-
# Tools.SsdStat — the rates of a card

The driver publishes the counters of the channels in `/proc/Baidu_ssd_info/speed`, behind a
line with their sums. `ssd_stat` reads the file twice and prints the differences. The lines
are modelled by the numbers in them.

* `procSpeedRead` — the lines of the file;
* `getvalue`, `calcvalue` — the samples, and what becomes of the first of two.
-/
import FpgaSsd.Driver.Device

namespace FpgaSsd.Tools.SsdStat

open FpgaSsd.Driver

set_option autoImplicit false

/-! ## The file -/

/-- The sums start at 0; the counters wrap, the free blocks are a plain `int`. -/
def totalStat (buf : Nat → ChannelStat) : List Nat → ChannelStat
  | [] => ⟨0, 0, 0, 0⟩
  | i :: rest =>
      let total := totalStat buf rest
      { readCount := total.readCount + (buf i).readCount
        writeCount := total.writeCount + (buf i).writeCount
        deleteCount := total.deleteCount + (buf i).deleteCount
        freeBlocks := total.freeBlocks + (buf i).freeBlocks }

/-- `proc_speed_read`: the total, and one line for each channel of the snapshot. -/
def procSpeedRead (buf : Nat → ChannelStat) : List ChannelStat :=
  totalStat buf (List.range ssdMaxChannel) :: (List.range ssdMaxChannel).map buf

/-! ## The samples -/

abbrev arrayRows : Nat := 45

/-- `MAXVALUE`, `(unsigned long)1 << 32 - 1`: the subtraction binds tighter than the shift. -/
def maxValue : UInt64 := (1 : UInt64) <<< (32 - 1 : UInt64)

/-- One row of an array, in the order of `enum TYPE`. -/
structure Row where
  read : UInt32
  write : UInt32
  delete : UInt32
  free : UInt32
  deriving DecidableEq, Repr

/-- The four numbers of a line, by `sscanf` with `%u`. -/
def rowOf (line : ChannelStat) : Row := ⟨line.readCount, line.writeCount, line.deleteCount, .ofInt line.freeBlocks⟩

/-- The lines are put in the rows from the first one on, as many as there are rows. -/
def getvalue (lines : List ChannelStat) (array : Nat → Row) : Nat → Row := fun i =>
  if i < arrayRows then ((lines[i]?).map rowOf).getD (array i) else array i

/-- `(arr2 + MAXVALUE - arr1) % MAXVALUE`, in 64 bits, and stored in 32. -/
def rate (next prev : UInt32) : UInt32 := ((next.toUInt64 + maxValue - prev.toUInt64) % maxValue).toUInt32

/-- The loop of `calcvalue` over `n` rows from `i` on. -/
def calcvalueFrom (arr2 : Nat → Row) : Nat → Nat → (Nat → Row) → Nat → Row
  | 0, _, arr1 => arr1
  | n + 1, i, arr1 =>
      calcvalueFrom arr2 n (i + 1) (Function.update arr1 i
        { read := rate (arr2 i).read (arr1 i).read
          write := rate (arr2 i).write (arr1 i).write
          delete := rate (arr2 i).delete (arr1 i).delete
          free := (arr2 i).free })

def calcvalue (arr1 arr2 : Nat → Row) (size : Nat) : Nat → Row := calcvalueFrom arr2 size 0 arr1

end FpgaSsd.Tools.SsdStat
