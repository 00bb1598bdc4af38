/-
# Tools.SsdRecover — checking the ids of a card after a crash

`ssd_recover` sorts the ids of a directory walk by channel, and starts a thread for each
channel. The thread reads every id of its channel back, erases the blocks that no id with
good data uses, and hands the erase table back. What the outside answers (allocations,
reads, requests to the driver) is an argument; messages are left out.

* `char2id`, `idToChannel` — the ids and first blocks of each channel, in arrays of 2000;
* `checkIdFlush` — what becomes of each id, and the erase table;
* `eraseFreeBlock`, `work` — the blocks that are erased, and the table handed back.
-/
import FpgaSsd.Api.BhpLib
import FpgaSsd.Api.Ftw

namespace FpgaSsd.Tools

open FpgaSsd.Lib FpgaSsd.Driver FpgaSsd.Api

set_option autoImplicit false

/-! ## Names -/

/-- A `char` is signed. -/
def charValue (ch : UInt8) : UInt64 := if ch < 128 then ch.toUInt64 else ch.toUInt64 - 256

/-- `sum * 16` and the value of a digit; what is no digit is taken for a lower-case one. -/
def char2idDigit (sum : UInt64) (ch : UInt8) : UInt64 :=
  if 48 ≤ ch ∧ ch ≤ 57 then sum * 16 + charValue ch - 48
  else if 65 ≤ ch ∧ ch ≤ 70 then sum * 16 + charValue ch - 65 + 10
  else sum * 16 + charValue ch - 97 + 10

/-- The digits `start`, …, `start + 15`. -/
def char2idHalf (str : List UInt8) (start : Nat) : UInt64 :=
  (List.range 16).foldl (fun sum i => char2idDigit sum (str.getD (start + i) 0)) 0

def char2id (str : List UInt8) : BlockId where
  mNHigh := char2idHalf str 0
  mNLow := char2idHalf str 16

/-! ## The ids of each channel -/

abbrev idColumns : Nat := 2000

/-- `ch_ID`, `ch_ID_logic` and `ch_IDnum`. A row follows the one before it in memory. -/
structure ChIds where
  chId : Nat → BlockId
  chIdLogic : Nat → Nat
  chIdNum : Nat → Nat

def ChIds.zero : ChIds := ⟨fun _ => ⟨0, 0⟩, fun _ => 0, fun _ => 0⟩

/-- Where `[channel][i]` lies in an array. -/
def idSlot (channel i : Nat) : Nat := idColumns * channel + i

/-- The function that the walk calls; it always answers 0. -/
def idToChannel (s : ChIds) (call : FtwCall) : ChIds :=
  let channel := call.sb.stRdev
  let chIdNum := s.chIdNum channel
  { chId := Function.update s.chId (idSlot channel chIdNum) (char2id call.fpath)
    chIdLogic := Function.update s.chIdLogic (idSlot channel chIdNum) call.sb.stIno
    chIdNum := Function.update s.chIdNum channel (chIdNum + 1) }

/-! ## Requests -/

/-- A request through a descriptor of its own: whether the device file opens, and the answer. -/
structure OwnRequest where
  opens : Bool
  ioctl : Int

def ssdRecoverDelete (r : OwnRequest) : Int := if r.opens then r.ioctl else errOepnDevFailed

/-- `SSD_erase_phy_block` and `SSD_update_tables_to_ram` check the channel first. -/
def onChannel (channel : Int) (r : OwnRequest) : Int :=
  if channel < 0 ∨ ssdMaxChannel < channel then ssdError
  else if r.opens then r.ioctl else errOepnDevFailed

def ssdErasePhyBlock : Int → OwnRequest → Int := onChannel

def ssdUpdateTablesToRam : Int → OwnRequest → Int := onChannel

/-! ## The check of the ids -/

abbrev btDataSize : Nat := btDataBlockNum * ssdBlockSize

/-- An id of the channel, and the answers when its turn comes. -/
structure Turn where
  id : BlockId
  logic : Nat
  /-- What a read of the driver answers, and what is in the buffer then. -/
  answer : ReadParam → Int × Mem
  delete : OwnRequest

/-- The result of `SSD_read` behind its checks, and the buffer. -/
def Turn.readBy (t : Turn) (idBuf : Mem) : ReadCheck → Int × Mem
  | .answer ret => (apiValue ret, idBuf)
  | .request p => (apiValue (t.answer p).1, (t.answer p).2)

/-- `SSD_read (0, id, ID_buf, BT_DATA_SIZE, 0)`. -/
def Turn.ssdRead (t : Turn) (idBuf : Mem) : Int × Mem :=
  t.readBy idBuf (ssdReadCheck openLibrary t.id false btDataSize 0)

def setEntryUse (table : Mem) (i flag : Nat) : Mem :=
  putLE table (2 * i) 2 (tableEntry table i % 16384 + flag * 16384 + tableEntry table i / 32768 * 32768)

/-- The blocks that `mark_correct_ID` marks. -/
def correctBlocks (addrTable : Mem) (logicBlock : Nat) : List Nat :=
  (List.range 5).map fun i => addrEntryBlock addrTable (logicBlock + i)

def markCorrectId (logicBlock : Nat) (addrTable eraseTable : Mem) : Mem :=
  (correctBlocks addrTable logicBlock).foldl (fun table phyBlock => setEntryUse table phyBlock 1) eraseTable

/-- What `check_ID_flush` does to an id. -/
inductive Fate where
  /-- `SSD_recover_delete` was called and answered `ret`. -/
  | deleted (ret : Int)
  | skipped
  | marked (blocks : List Nat)
  deriving DecidableEq, Repr

structure Checked where
  ret : Int
  /-- One for each id, up to the one that ends the loop. -/
  fates : List Fate
  eraseTable : Mem

def Checked.after (c : Checked) (fate : Fate) : Checked := { c with fates := fate :: c.fates }

/-- The loop over the ids; `ssdRead` is the read that it calls. -/
def checkIdFlush (ssdRead : Turn → Mem → Int × Mem) (addrTable : Mem) : List Turn → Mem → Mem → Checked
  | [], _, eraseTable => ⟨0, [], eraseTable⟩
  | t :: rest, idBuf, eraseTable =>
      let (ret, idBuf) := ssdRead t idBuf
      if ret ≠ ssdOk then
        if ret = -9 then ⟨-1, [], eraseTable⟩
        else (checkIdFlush ssdRead addrTable rest idBuf eraseTable).after (.deleted (ssdRecoverDelete t.delete))
      else
        let crc := BitVec.ofNat 32 (getLE idBuf 0 4)
        let nlen := loadInt idBuf 4
        if (btDataSize : Int) < nlen ∨ nlen ≤ crcBlockHeader then
          (checkIdFlush ssdRead addrTable rest idBuf eraseTable).after .skipped
        else
          let crcCalc := baiduCrc32Fast idBuf crcBlockHeader 0 (nlen - crcBlockHeader).toNat ssdCrcTable
          if crc ≠ crcCalc then
            (checkIdFlush ssdRead addrTable rest idBuf eraseTable).after (.deleted (ssdRecoverDelete t.delete))
          else
            (checkIdFlush ssdRead addrTable rest idBuf (markCorrectId t.logic addrTable eraseTable)).after
              (.marked (correctBlocks addrTable t.logic))

/-! ## The thread of a channel -/

/-- The blocks among `blocks` that are passed to `SSD_erase_phy_block`, and the result. -/
def eraseBlocks (channel : Int) (answer : Nat → OwnRequest) (eraseTable : Mem) : List Nat → List Nat × Int
  | [] => ([], ssdOk)
  | i :: rest =>
      if 4096 ≤ i ∧ i ≤ 4105 then eraseBlocks channel answer eraseTable rest
      else if tableEntry eraseTable i / 16384 % 2 ≠ 0 ∨ tableEntry eraseTable i / 32768 % 2 ≠ 0 then
        eraseBlocks channel answer eraseTable rest
      else
        let ret := ssdErasePhyBlock channel (answer i)
        if ret ≠ 0 then ([i], ret)
        else
          let (erased, ret) := eraseBlocks channel answer eraseTable rest
          (i :: erased, ret)

def eraseFreeBlock (channel : Int) (answer : Nat → OwnRequest) (eraseTable : Mem) : List Nat × Int :=
  eraseBlocks channel answer eraseTable (List.range' 10 8182)

/-- A channel, its ids, and what the outside answers to its thread. -/
structure Recovery where
  channel : Int
  turns : List Turn
  /-- All three buffers are allocated. -/
  memory : Bool
  readErasetable : Int
  eraseTable : Mem
  readAddrtable : Int
  addrTable : Mem
  /-- What `read_init_table` returns behind its loop, where it has no `return`. -/
  unreturned : Int
  erase : Nat → OwnRequest
  update : OwnRequest

/-- The result, and the erase table with every `use_flag` cleared. -/
def readInitTable (r : Recovery) : Int × Mem :=
  if r.readErasetable ≠ 0 then (-1, r.eraseTable)
  else if r.readAddrtable ≠ 0 then (-1, r.eraseTable)
  else (r.unreturned, (List.range 8192).foldl (fun table i => setEntryUse table i 0) r.eraseTable)

structure Recovered where
  fates : List Fate
  /-- What is passed to `SSD_erase_phy_block`. -/
  erased : List Nat
  /-- The erase table that is passed to `SSD_update_tables_to_ram`. -/
  written : Option Mem
  checkPass : Bool

def work (r : Recovery) : Recovered :=
  if r.memory = false then ⟨[], [], none, false⟩
  else
    let (ret, eraseTable) := readInitTable r
    if ret ≠ 0 then ⟨[], [], none, false⟩
    else
      let checked := checkIdFlush Turn.ssdRead r.addrTable r.turns (fun _ => 0) eraseTable
      if checked.ret ≠ 0 then ⟨checked.fates, [], none, false⟩
      else
        let (erased, ret) := eraseFreeBlock r.channel r.erase checked.eraseTable
        ⟨checked.fates, erased, some checked.eraseTable,
          decide (ret = 0) && decide (ssdUpdateTablesToRam r.channel r.update = 0)⟩

end FpgaSsd.Tools
