/-
# Api.Ftw — the directory walk

`SSD_ftw` reads the table of ids and calls a function for each entry. What the function
answers may depend on all the calls so far. Freeing the buffer is left out.

* `idtochar`, `setStat` — the name and the status of an entry;
* `ftwLoop` — the calls, until one does not answer 0;
* `ssdFtw` — what it returns, and the calls it made.
-/
import FpgaSsd.Api.Tables
import FpgaSsd.Driver.Idtable

namespace FpgaSsd.Api

open FpgaSsd.Lib FpgaSsd.Driver

set_option autoImplicit false

/-! ## Names -/

/-- The digit that `u64tochar` writes for a number below 16. -/
def hexChar (hexBit : Nat) : UInt8 := .ofNat (if hexBit < 10 then 48 + hexBit else 65 + hexBit - 10)

/-- The loop of `u64tochar` from `i` on, with `n` digits left; the last digit comes first. -/
def u64tocharFrom : Nat → Nat → Mem → Nat → Nat → Mem
  | 0, _, pbuf, _, _ => pbuf
  | n + 1, i, pbuf, offset, num =>
      u64tocharFrom n (i + 1) (Function.update pbuf (offset + 15 - i) (hexChar (num % 16))) offset (num / 16)

def u64tochar (pbuf : Mem) (offset : Nat) (num : UInt64) : Mem := u64tocharFrom 16 0 pbuf offset num.toNat

def idtochar (pbuf : Mem) (id : BlockId) : Mem :=
  Function.update (u64tochar (u64tochar pbuf 0 id.mNHigh) 16 id.mNLow) 32 0

/-- The string in a buffer of `n` bytes. -/
def cString (n : Nat) (pbuf : Mem) : List UInt8 := ((List.range n).map pbuf).takeWhile fun c => c ≠ 0

/-! ## Status -/

structure Stat where
  stDev : Nat
  stIno : Nat
  stMode : Nat
  stNlink : Nat
  stUid : Nat
  stGid : Nat
  stRdev : Nat
  stSize : Nat
  stBlksize : Nat
  stBlocks : Nat
  stAtime : Nat
  stMtime : Nat
  stCtime : Nat
  deriving DecidableEq, Repr

abbrev btIndexBlockNum : Nat := 1
abbrev btDataBlockNum : Nat := 5
abbrev ssdDeepoceanDeviceId : Nat := 0x0007
abbrev ftwF : Int := 0

/-- The number of blocks is the one that belongs to the id, not the one in the entry. -/
def setStat (e : FlushIdInfo) : Stat :=
  let blockNum := if e.id.mNHigh.toNat % 8 = 0 then btIndexBlockNum else btDataBlockNum
  { stDev := ssdDeepoceanDeviceId
    stIno := e.info.block
    stMode := 0o100755
    stNlink := 0
    stUid := 0
    stGid := 0
    stRdev := e.info.channel
    stSize := ssdBlockSize * blockNum
    stBlksize := ssdBlockSize
    stBlocks := blockNum
    stAtime := 0
    stMtime := 0
    stCtime := 0 }

/-! ## The walk -/

/-- What the function is given. -/
structure FtwCall where
  fpath : List UInt8
  sb : Stat
  typeflag : Int
  deriving DecidableEq, Repr

/-- `n` entries from entry `i` on; `fn` answers the last of the calls it is given. -/
def ftwLoop (fn : List FtwCall → Int) (buffer : Mem) : Nat → Nat → Mem → List FtwCall → Int → Int × List FtwCall
  | 0, _, _, calls, ret => (ret, calls)
  | n + 1, i, pbuf, calls, _ =>
      let e := FlushIdInfo.decode buffer (flushIdInfoSize * i)
      let pbuf := idtochar pbuf e.id
      let calls := calls ++ [⟨cString 33 pbuf, setStat e, ftwF⟩]
      let ret := fn calls
      if ret ≠ 0 then (ret, calls) else ftwLoop fn buffer n (i + 1) pbuf calls ret

abbrev errNomem : Int := 8

/-- `pbuf` is what is on the stack where the name is built. -/
def ssdFtw (u : Caller) (devNum : Int) (fn : List FtwCall → Int) (pbuf : Mem) : Drv (Int × List FtwCall) :=
  if u.opened = false ∧ devNum ≠ monitorDev then pure (apiValue errNotOpened, [])
  else if u.null then pure (apiValue errNomem, [])
  else if devNum = monitorDev ∧ u.opens (devPath 0) = false then pure (apiValue errOepnDevFailed, [])
  else do
    let (idNum, buffer) ← ioctlReadIdTable fun _ => 0
    if idNum < 0 ∨ ssdMaxIdNum < idNum then pure (idNum, [])
    else
      let (ret, calls) := ftwLoop fn buffer idNum.toNat 0 pbuf [] ssdOk
      pure (apiValue ret, calls)

end FpgaSsd.Api
