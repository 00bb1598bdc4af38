/-
# Tools.SsdMarkEraseCount — the erase counts of the old controller

`ssd_mark_erase_count` reads the erase counts that the cards had under the controller of
the vendor, by FPGA, virtual flash and block, and sorts them by the channels and blocks of
the driver. A row of the file has the counts of eight blocks, -1 for a bad block.

* `huawei2baidu` — the stores of one row;
* `main` — the tables when all rows are read.
-/
import FpgaSsd.Driver.Types
import FpgaSsd.Lib.Writes

namespace FpgaSsd.Tools.SsdMarkEraseCount

open FpgaSsd.Lib FpgaSsd.Driver

set_option autoImplicit false

abbrev blockPerRow : Nat := 8
abbrev fpgasHuawei : Nat := 4
abbrev vflashPerPflashHuawei : Nat := 4
abbrev pflashPerFpgaHuawei : Nat := 11
abbrev vflashesPerFpgaHuawei : Nat := vflashPerPflashHuawei * pflashPerFpgaHuawei
abbrev blockBaseFlashBaidu : Nat := 4096
abbrev badBlockEraseCount : Nat := 8191
abbrev planePerChannel : Nat := 4

/-- `struct erase_entry`: the 13-bit count and the flags. -/
structure EraseEntry where
  eraseTimes : Nat
  reserved : Nat
  useFlag : Nat
  badFlag : Nat
  deriving DecidableEq, Repr

/-- `struct erase_entry_map`. -/
structure EraseEntryMap where
  block : Nat
  ee : EraseEntry
  deriving DecidableEq, Repr

/-- The entries of `baidu_table`, by channel and index. -/
abbrev BaiduTable := Nat × Nat → EraseEntryMap

abbrev Store := Write (Nat × Nat) EraseEntryMap

/-- What `sscanf` finds in a line of the file. -/
structure Row where
  fpga : Nat
  vflash : Nat
  startBlock : Nat
  eraseCount : List Int
  deriving DecidableEq, Repr

/-! ## The conversions -/

def huaweiBlockToBaiduBlock (plane blockHuawei : Nat) : Nat :=
  (blockBaseFlashBaidu * (plane / 2) + blockHuawei * 2 + plane % 2) % 65536

def baiduPlaneToBaiduChannel (plane : Nat) : Nat := plane / planePerChannel

def planeOffset (plane : Nat) : Nat := plane % planePerChannel

def huaweiVflashToBaiduPlane (vflash : Nat) : Nat :=
  vflash * vflashPerPflashHuawei % vflashesPerFpgaHuawei + vflash / pflashPerFpgaHuawei

def huaweiVflashToBaiduChannel (vflash : Nat) : Nat := baiduPlaneToBaiduChannel (huaweiVflashToBaiduPlane vflash)

def huaweiFpgaVflashToBaiduChannel (fpga vflash : Nat) : Nat :=
  fpga * pflashPerFpgaHuawei + huaweiVflashToBaiduChannel vflash

/-! ## The stores -/

/-- What is stored for a count; the bit field takes its low 13 bits. -/
def eraseEntry (eraseCount : Int) : EraseEntry :=
  if eraseCount = -1 then ⟨badBlockEraseCount, 0, 0, 1⟩ else ⟨(eraseCount % 8192).toNat, 0, 0, 0⟩

/-- One round of the loop of `huawei2baidu`; `channel` is an `ssd_u8`. -/
def storeAt (row : Row) (blockHuawei index : Nat) : Store :=
  let channel := huaweiFpgaVflashToBaiduChannel row.fpga row.vflash % 256
  let plane := planeOffset (huaweiVflashToBaiduPlane row.vflash)
  let blockBaidu := huaweiBlockToBaiduBlock plane blockHuawei
  ⟨(channel, blockBaidu), ⟨blockBaidu, eraseEntry (row.eraseCount.getD index 0)⟩⟩

/-- The loop, from a round on; both counters are `ssd_u16`. -/
def storesFrom (row : Row) (blockHuawei index : Nat) : List Store :=
  if blockHuawei < row.startBlock + blockPerRow ∧ index < blockPerRow then
    storeAt row blockHuawei index :: storesFrom row ((blockHuawei + 1) % 65536) ((index + 1) % 65536)
  else []
termination_by blockPerRow - index
decreasing_by
  simp only [blockPerRow] at *
  omega

/-- The stores that `huawei2baidu` makes, in their order. -/
def stores (row : Row) : List Store := storesFrom row (row.startBlock % 65536) 0

def huawei2baidu (row : Row) (baidu : BaiduTable) : BaiduTable := runWrites (stores row) baidu

/-- `baidu_table` when the file is read; `malloc` has left anything in it. -/
def main (rows : List Row) (baiduTable : BaiduTable) : BaiduTable :=
  rows.foldl (fun baidu row => huawei2baidu row baidu) baiduTable

end FpgaSsd.Tools.SsdMarkEraseCount
