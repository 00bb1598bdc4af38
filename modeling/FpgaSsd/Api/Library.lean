/-
# Api.Library — the user-space calls `SSD_write`, `SSD_read` and `SSD_delete`

The calls check their arguments, send one request (`SSD_read` up to three) and
turn every error into a negative number. `opened` is the `g_opened_flag` of the
library, `crc` the checksum that it calls, and `checkCrc` the switch it reads from its
configuration file.
-/
import FpgaSsd.Api.BhpLib
import FpgaSsd.Driver.Open

namespace FpgaSsd.Api

open FpgaSsd.Lib FpgaSsd.Driver

set_option autoImplicit false

/-- `api_value`. -/
def apiValue (value : Int) : Int := -(value.natAbs : Int)

/-- The bytes of an id: 2M for an index block, 10M for a data block. -/
def dataSize (id : BlockId) : Nat :=
  if id.mNHigh.toNat % 8 = 0 then BlockType.iblock.size * ssdBlockSize
  else BlockType.dblock.size * ssdBlockSize

abbrev errCrc : Int := 40

structure Library where
  opened : Bool
  checkCrc : Bool
  /-- `crc buffer src length` is `baidu_crc32_fast (buffer + src, 0, length, table)`. -/
  crc : Mem → Nat → Nat → Nat

/-- The library once the card is open. -/
def openLibrary : Library := ⟨true, false, fun _ _ _ => 0⟩

/-- `nlen - CRC_BLOCK_HEADER`, as the unsigned length of the checksum. -/
def sumLength (nlen : Nat) : Nat := ((nlen : Int) - crcBlockHeader) % 2 ^ 32 |>.toNat

/-- A header with a checksum of zero is not checked. -/
def Library.crcOk (lib : Library) (buffer : Mem) : Bool :=
  let crc := getLE buffer 0 4
  let nlen := getLE buffer 4 4
  !lib.checkCrc || crc = 0 || lib.crc buffer crcBlockHeader (sumLength nlen) = crc

/-- `buffer = none` is the null pointer. -/
def ssdWrite (lib : Library) (id : BlockId) (buffer : Option Mem) (count : Nat) : Drv Int :=
  if lib.opened = false then pure (apiValue errNotOpened)
  else if count ≠ dataSize id then pure (apiValue errLenPageAlign)
  else
    match buffer with
    | none => pure (apiValue errNull)
    | some bytes =>
        if lib.crcOk bytes = false then pure (apiValue errCrc)
        else do
          let (ret, _) ← ssdBlockIoctl (.write ⟨id, bytes, count / ssdBlockSize⟩)
          pure (if ret = ssdOk then ssdOk else apiValue ret)

/-- Up to `n` attempts, each over the same user buffer. -/
def readAttempts (p : ReadParam) : Nat → Int → Option Mem → Drv (Int × Option Mem)
  | 0, ret, data => pure (ret, data)
  | n + 1, _, old => do
      let (ret, data) ← ssdBlockIoctl (.read p)
      let data := data <|> old
      if ret = ssdOk then pure (ret, data) else readAttempts p n ret data

/-- What the checks of `SSD_read` lead to: an answer at once, or a request. -/
inductive ReadCheck where
  | answer (ret : Int)
  | request (p : ReadParam)

/-- The checks of `SSD_read` and the fields of its request. `null` is a null
destination; the sum and the fields wrap as in C, at 64 and at 32 bits. -/
def ssdReadCheck (lib : Library) (id : BlockId) (null : Bool) (count : Nat) (offset : Int) :
    ReadCheck :=
  if lib.opened = false then .answer errNotOpened
  else if count % ssdPageSize ≠ 0 then .answer errLenPageAlign
  else if offset % ssdPageSize ≠ 0 then .answer errStartPageAlign
  else if (dataSize id : Int) < offset then .answer errParamOverflow
  else if (dataSize id : Int) < (count + offset) % 2 ^ 64 then .answer errParamOverflow
  else if null then .answer errNull
  else if count = 0 then .answer ssdOk
  else .request ⟨id, count / ssdPageSize % 2 ^ 32, (offset / ssdPageSize % 2 ^ 32).toNat⟩

/-- The result, and what the buffer received. -/
def ssdRead (lib : Library) (id : BlockId) (null : Bool) (count : Nat) (offset : Int) :
    Drv (Int × Option Mem) :=
  match ssdReadCheck lib id null count offset with
  | .answer ret => pure (apiValue ret, none)
  | .request p => do
      let (ret, data) ← readAttempts p 3 ssdOk none
      pure (apiValue ret, data)

def ssdDelete (lib : Library) (id : BlockId) : Drv Int :=
  if lib.opened = false then pure (apiValue (-errNotOpened))
  else do
    let (ret, _) ← ssdBlockIoctl (.delete id)
    pure (apiValue ret)

end FpgaSsd.Api
