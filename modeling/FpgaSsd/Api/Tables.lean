/-
# Api.Tables — the library calls that name a channel

`SSD_read_addrtable`, `SSD_read_erasetable`, `SSD_util_test`, `SSD_mark_bad_block` and
`SSD_mark_erase_count`, from their arguments through the array of descriptors into the
driver. A call is a program: it uses an entry of `g_ssd_fd` or acts in the driver. What the
process has and what the system answers is a `Caller`; an argument is the integer that the
caller wrote, and the conversions to the types of the parameters and fields are explicit.

* `devPath` — the name of a device file, as far as its buffer has room for it;
* `ioctl` — a request through a descriptor;
* `TableCall.run` — one call.
-/
import FpgaSsd.Api.Process
import FpgaSsd.Lib.Embedding

namespace FpgaSsd.Api

open FpgaSsd.Lib FpgaSsd.Driver

set_option autoImplicit false

/-! ## Actions -/

inductive UserAct where
  /-- Read `g_ssd_fd[i]`. -/
  | gSsdFd (i : Int)
  | kernel (a : Act)

@[reducible] def UserAct.Reply : UserAct → Type
  | .gSsdFd _ => Unit
  | .kernel a => a.Reply

abbrev Usr (α : Type) := Program UserAct UserAct.Reply α

/-- The actions of thread `tid`. -/
def userPerform (tid : Nat) : Perform UserAct UserAct.Reply Device Outcome
  | .gSsdFd _, _, d => some ((), d)
  | .kernel a, o, d => d.perform tid a o

/-- A program of the driver, on behalf of the process. -/
def inKernel {α : Type} (p : Drv α) : Usr α :=
  Program.embed UserAct.kernel (fun _ r => r) p

/-! ## Device files -/

abbrev ssdMaxDevname : Nat := 16
abbrev monitorDev : Int := 0x010000

/-- `%d`. -/
def decimal (n : Int) : List Char :=
  if n < 0 then '-' :: Nat.toDigits 10 n.natAbs else Nat.toDigits 10 n.natAbs

/-- `snprintf (ssd_path, SSD_MAX_DEVNAME, "%s%d", "/dev/ssd_Baidu", n)`. -/
def devPath (n : Int) : List Char :=
  ("/dev/ssd_Baidu".toList ++ decimal n).take (ssdMaxDevname - 1)

/-- What the process has and what the system answers to it. -/
structure Caller where
  opened : Bool
  /-- The files that can be opened. -/
  opens : List Char → Bool
  /-- `malloc` fails. -/
  null : Bool
  /-- What an uninitialised `id_channel` holds. -/
  idChannel : Int

/-- A descriptor of the call itself, or one of the array. -/
inductive Descriptor where
  | own
  | shared (i : Int)

def ioctl (fd : Descriptor) (request : Ioctl) : Usr (Int × Option Mem) := do
  match fd with
  | .own => pure ()
  | .shared i => Program.perform (UserAct.gSsdFd i)
  inKernel (ssdBlockIoctl request)

/-- Up to `n` attempts, until one succeeds. -/
def attempts (request : Usr Int) : Nat → Int → Usr Int
  | 0, ret => pure ret
  | n + 1, _ => do
      let ret ← request
      if ret = ssdOk then pure ret else attempts request n ret

/-! ## Tables -/

/-- The two calls that read a table differ in its type. -/
def ssdReadTable (type : Nat) (u : Caller) (channel : Int) : Usr (Int × Option Mem) :=
  if channel < 0 ∨ ssdMaxChannel < channel then pure (apiValue ssdError, none)
  else if u.opens (devPath 0) = false then pure (apiValue errOepnDevFailed, none)
  else do
    let (ret, data) ← ioctl .own (.readTable ⟨(channel % 256).toNat, type⟩)
    pure (apiValue ret, data)

def ssdReadAddrtable : Caller → Int → Usr (Int × Option Mem) := ssdReadTable tableAddrType

def ssdReadErasetable : Caller → Int → Usr (Int × Option Mem) := ssdReadTable tableEraseType

abbrev planeReserveBlocks : Nat := 5

/-- An entry of the erase table that counts as used: `~` of a field of one bit is not 0. -/
def countsAsUsed (table : Mem) (i : Nat) : Bool :=
  let useFlag := tableEntry table i / 16384 % 2
  let badFlag : Int := tableEntry table i / 32768 % 2
  decide (useFlag ≠ 0) && decide (-badFlag - 1 ≠ 0)

def blockUsed (table : Mem) : Nat :=
  (List.range' (planeReserveBlocks * 2) (ssdMaxPhyblocksPerChannel / 2 - planeReserveBlocks * 2)
    ++ List.range' (ssdMaxPhyblocksPerChannel / 2 + planeReserveBlocks * 2)
      (ssdMaxPhyblocksPerChannel / 2 - planeReserveBlocks * 2)).countP (countsAsUsed table)

/-- The free bytes of a channel, as an unsigned number of 64 bits. The channel is not checked. -/
def ssdUtilTest (u : Caller) (channel : Int) : Usr Nat :=
  if u.opens (devPath channel) = false then pure (-errOepnDevFailed % 2 ^ 64 : Int).toNat
  else if u.null then pure 0
  else do
    let (ret, data) ← ioctl .own (.readTable ⟨(channel % 256).toNat, tableEraseType⟩)
    if ret ≠ ssdOk then pure 0
    else
      let blocksIdle : Int := ssdMaxVirblocksPerChannel - blockUsed (data.getD fun _ => 0)
      pure (blocksIdle * ssdBlockSize % 2 ^ 64).toNat

/-! ## Marks -/

/-- `id2channel` of the library; it only decides which device file is used. -/
def libId2channel (id : BlockId) : Nat := id.mNLow.toNat % ssdMaxChannel

/-- `SSD_mark_bad_block`; `block` and `channel` are 16 bits wide. -/
def ssdCallMarkBadBlock (u : Caller) (devNum : Int) (type : Nat) (id : BlockId) (block channel : Int) : Usr Int :=
  let block := (block % 65536).toNat
  let channel := (channel % 65536).toNat
  if u.opened = false ∧ devNum ≠ monitorDev then pure (apiValue errNotOpened)
  else if type = paramBlock ∧ (ssdMaxChannel ≤ channel ∨ ssdMaxVirblocksPerChannel ≤ block) then
    pure (apiValue ssdError)
  else
    -- a parameter that is neither stays zeroed
    let (param, idChannel) : MarkBadParam × Int :=
      if type = paramId then (⟨paramId, id, 0, 0⟩, libId2channel id)
      else if type = paramBlock then (⟨paramBlock, ⟨0, 0⟩, block, channel⟩, channel)
      else (⟨paramId, ⟨0, 0⟩, 0, 0⟩, u.idChannel)
    if devNum = monitorDev ∧ u.opens (devPath 0) = false then pure (apiValue errOepnDevFailed)
    else do
      let fd : Descriptor := if devNum = monitorDev then .own else .shared idChannel
      let ret ← attempts (Prod.fst <$> ioctl fd (.markBadBlock param)) 3 0
      pure (apiValue ret)

/-- `SSD_mark_erase_count`; `count` is 16 bits wide, `channel` 8. -/
def ssdCallMarkEraseCount (u : Caller) (buffer : Mem) (count channel : Int) : Usr Int :=
  if u.opened = false then pure (apiValue errNotOpened)
  else do
    let channel := (channel % 256).toNat
    let ret ← attempts (Prod.fst <$> ioctl (.shared channel)
      (.markEraseCount ⟨channel, (count % 65536).toNat, buffer⟩)) 3 0
    pure (apiValue ret)

/-! ## Calls -/

/-- A call with its arguments; `SSD_mark_bad_block` with either of its two types. -/
inductive TableCall where
  | readAddrtable (channel : Int)
  | readErasetable (channel : Int)
  | utilTest (channel : Int)
  | markBadId (devNum : Int) (id : BlockId) (block channel : Int)
  | markBadBlock (devNum : Int) (id : BlockId) (block channel : Int)
  | markEraseCount (buffer : Mem) (count channel : Int)

/-- The number that a call returns. -/
def TableCall.run (u : Caller) : TableCall → Usr Int
  | .readAddrtable channel => Prod.fst <$> ssdReadAddrtable u channel
  | .readErasetable channel => Prod.fst <$> ssdReadErasetable u channel
  | .utilTest channel => (fun value : Nat => (value : Int)) <$> ssdUtilTest u channel
  | .markBadId devNum id block channel => ssdCallMarkBadBlock u devNum paramId id block channel
  | .markBadBlock devNum id block channel => ssdCallMarkBadBlock u devNum paramBlock id block channel
  | .markEraseCount buffer count channel => ssdCallMarkEraseCount u buffer count channel

end FpgaSsd.Api
