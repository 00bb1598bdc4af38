/-
# Driver.Requests — the data and table requests of one channel

`ssd_id_write`, `ssd_id_read`, `ssd_id_delete`, `ssd_table_read`,
`ssd_mark_bad_block` and `ssd_mark_erase_count` as programs over the actions of
`Driver.Device`. A `goto out` is the end of the body between `down` and `up`.
Logging and the block-layer counters of `part_stat_add` are left out.
-/
import FpgaSsd.Driver.Device

namespace FpgaSsd.Driver

open FpgaSsd.Lib

set_option autoImplicit false

namespace Drv

def getIdInfo (c : Nat) (id : BlockId) : Drv (Option IdInfo) := chan c (.getIdInfo id)

/-- `set_id_info` puts the node where `info` says, not where the id belongs. -/
def setIdInfo (id : BlockId) (info : IdInfo) : Drv Int := chan info.channel.val (.setIdInfo id info)

def delIdInfo (c : Nat) (id : BlockId) : Drv (Option IdInfo) := chan c (.delIdInfo id)

def allocLogicBlock (c : Nat) (type : BlockType) : Drv Int :=
  chan c (.space fun s => ssdAllocLogicBlock s type)

def deleteLogicBlock (info : IdInfo) : Drv Unit := do
  let _ ← chan info.channel.val (.space fun s => some (ssdOk, Driver.deleteLogicBlock s info))
  pure ()

def copyFromUser (c : Nat) (src : Mem) (n : Nat) : Drv Bool := chan c (.copyFromUser src n)

def copyToUser (c : Nat) (n : Nat) : Drv (Option Mem) := chan c (.copyToUser n)

/-- `write_count[c] += pages`. -/
def addWriteCount (c pages : Nat) : Drv Unit :=
  chan c (.stat fun stat _ => { stat with writeCount := stat.writeCount + .ofNat pages })

def addReadCount (c pages : Nat) : Drv Unit :=
  chan c (.stat fun stat _ => { stat with readCount := stat.readCount + .ofNat pages })

def addDeleteCount (c pages : Nat) : Drv Unit :=
  chan c (.stat fun stat _ => { stat with deleteCount := stat.deleteCount + .ofNat pages })

/-- `free_blocks[c] = sdev->free_blocks[c]`. -/
def publishFreeBlocks (c : Nat) : Drv Unit :=
  chan c (.stat fun stat space => { stat with freeBlocks := space.freeBlocks })

/-- `down (sema); body; up (sema)`. -/
def withSema {α : Type} (c : Nat) (body : Drv α) : Drv α := do
  down c
  let ret ← body
  up c
  pure ret

end Drv

/-! ## Write -/

structure WriteParam where
  id : BlockId
  buf : Mem
  len : Nat

/-- Try the write up to `n` times, erasing after each failure; an erase that
fails ends the loop. -/
def writeRetry (channel writeCmd eraseCmd : Nat) : Nat → Int → Drv Int
  | 0, ret => pure ret
  | n + 1, _ => do
      let ret ← channelOp channel writeCmd
      if ret = ssdOk then pure ret
      else
        let erased ← channelOp channel eraseCmd
        if erased ≠ ssdOk then pure ret else writeRetry channel writeCmd eraseCmd n ret

def ssdIdWriteBody (channel : Nat) (type : BlockType) (p : WriteParam) : Drv Int := do
  let known ← Drv.getIdInfo channel p.id
  if known.isSome then pure (-idAlreadyExist)
  else
    let index ← Drv.allocLogicBlock channel type
    if index = -errAllocBlock ∨ ssdMaxVirblocksPerChannel ≤ index then pure (-errNoInvalidBlocks)
    else
      let info := IdInfo.at channel index.toNat type
      Drv.addWriteCount channel (p.len * ssdPagesPerBlock)
      Drv.publishFreeBlocks channel
      let failed ← Drv.copyFromUser channel p.buf (p.len * ssdBlockSize)
      if failed then
        Drv.deleteLogicBlock info
        pure (-errCopyToUser)
      else
        let writeCmd := cmdValue (index.toNat * ssdPagesPerBlock) (p.len * ssdPagesPerBlock) flagWrite
        let eraseCmd := cmdValue index.toNat p.len flagErase
        let ret ← writeRetry channel writeCmd eraseCmd 5 ssdOk
        if ret ≠ ssdOk then
          Drv.deleteLogicBlock info
          pure ret
        else
          let ret ← Drv.setIdInfo p.id info
          if ret < 0 then
            let _ ← channelOp channel eraseCmd
            Drv.deleteLogicBlock info
            pure (-8)
          else pure ret

def ssdIdWrite (p : WriteParam) : Drv Int :=
  let channel := id2channel p.id
  if p.len = BlockType.iblock.size then Drv.withSema channel (ssdIdWriteBody channel .iblock p)
  else if p.len = BlockType.dblock.size then Drv.withSema channel (ssdIdWriteBody channel .dblock p)
  else pure (-errParamWrlen)

/-! ## Read -/

structure ReadParam where
  id : BlockId
  len : Nat
  offset : Nat

/-- The return value, and what was copied to the user when something was. -/
def ssdIdReadBody (channel : Nat) (p : ReadParam) : Drv (Int × Option Mem) := do
  match ← Drv.getIdInfo channel p.id with
  | none => pure (-idNoExist, none)
  | some info =>
      let ret := checkIdInfo info
      if ret ≠ ssdOk then pure (ret, none)
      else
        let cmd := cmdValue (info.block.val * ssdPagesPerBlock + p.offset) p.len flagRead
        Drv.addReadCount channel p.len
        let ret ← channelOp channel cmd
        -- bits 0 to 6 are the errors of the driver
        if ret % 128 ≠ ssdOk then pure (ret, none)
        else
          -- the product is taken in 32 bits
          match ← Drv.copyToUser channel (p.len * ssdPageSize % 2 ^ 32) with
          | none => pure (-errCopyToUser, none)
          | some bytes => pure (ret, some bytes)

def ssdIdRead (p : ReadParam) : Drv (Int × Option Mem) :=
  Drv.withSema (id2channel p.id) (ssdIdReadBody (id2channel p.id) p)

/-! ## Delete -/

def ssdIdDeleteBody (channel : Nat) (id : BlockId) : Drv Int := do
  match ← Drv.delIdInfo channel id with
  | none => pure (-idNoExist)
  | some info =>
      let ret := checkIdInfo info
      if ret ≠ ssdOk then
        let _ ← Drv.setIdInfo id info
        pure ret
      else
        let len := info.len.size
        Drv.addDeleteCount channel (len * ssdPagesPerBlock)
        let ret ← channelOp channel (cmdValue info.block.val len flagErase)
        if ret ≠ ssdOk then
          let _ ← Drv.setIdInfo id info
          pure ret
        else
          Drv.deleteLogicBlock info
          Drv.publishFreeBlocks channel
          pure ret

def ssdIdDelete (id : BlockId) : Drv Int :=
  Drv.withSema (id2channel id) (ssdIdDeleteBody (id2channel id) id)

/-! ## Tables in the RAM of the hardware -/

structure TableParam where
  channel : Nat
  type : Nat

abbrev tableEraseType : Nat := 0
abbrev tableAddrType : Nat := 1

def ramTableRead (p : TableParam) : Drv Int :=
  channelOp p.channel (cmdValue 0 addrTablePages
    (if p.type = tableEraseType then flagReadEraseTable else flagReadAddrTable))

def ssdTableReadBody (p : TableParam) : Drv (Int × Option Mem) := do
  let ret ← ramTableRead p
  if ret ≠ ssdOk then pure (ret, none)
  else
    match ← Drv.copyToUser p.channel ssdTableSize with
    | none => pure (-errCopyToUser, none)
    | some bytes => pure (ret, some bytes)

def ssdTableRead (p : TableParam) : Drv (Int × Option Mem) :=
  Drv.withSema p.channel (ssdTableReadBody p)

def ssdWriteTablesToRam (channel flag : Nat) : Drv Int :=
  channelOp channel (cmdValue 0 addrTablePages flag)

/-- Entry `i` of an address or erase table in a buffer. -/
def tableEntry (kbuf : Mem) (i : Nat) : Nat := getLE kbuf (2 * i) 2

def addrEntryBlock (kbuf : Mem) (i : Nat) : Nat := tableEntry kbuf i % 8192

/-- Set bit 15, the `bad_flag`, of entry `i`. -/
def setBadFlag (kbuf : Mem) (i : Nat) : Mem :=
  putLE kbuf (2 * i) 2 (tableEntry kbuf i % 32768 + 32768)

/-! ## Bad blocks and erase counts -/

structure MarkBadParam where
  type : Nat
  id : BlockId
  block : Nat
  channel : Nat

abbrev paramId : Nat := 0
abbrev paramBlock : Nat := 1
abbrev badBlock : Nat := 1
abbrev invalidValue : Nat := 65535

/-- Read every logical block of the id, and note the ones that fail. -/
def findBadBlocks (channel block : Nat) : Nat → Nat → Drv (List Nat)
  | _, 0 => pure []
  | start, n + 1 => do
      let ret ← channelOp channel
        (cmdValue ((block + start) * ssdPagesPerBlock) ssdPagesPerBlock flagRead)
      let rest ← findBadBlocks channel block (start + 1) n
      pure ((if ret ≠ ssdOk then badBlock else invalidValue) :: rest)

/-- The physical blocks of the bad logical ones, from the address table in `kbuf`. -/
def physicalBlocks (kbuf : Mem) (block : Nat) : Nat → List Nat → List Nat
  | _, [] => []
  | start, b :: rest =>
      (if b = badBlock then addrEntryBlock kbuf (block + start) else b) ::
        physicalBlocks kbuf block (start + 1) rest

def markBlocks (blocks : List Nat) (kbuf : Mem) : Mem :=
  blocks.foldl (fun kbuf b => if b ≠ invalidValue then setBadFlag kbuf b else kbuf) kbuf

/-- The part of `ssd_mark_bad_block` behind its `switch`. -/
def markBadTables (channel block : Nat) (blocks : List Nat) : Drv Int := do
  let ret ← ramTableRead ⟨channel, tableAddrType⟩
  if ret ≠ ssdOk then pure ret
  else
    let addr ← Drv.readKbuf channel
    let blocks := physicalBlocks addr block 0 blocks
    let ret ← ramTableRead ⟨channel, tableEraseType⟩
    if ret ≠ ssdOk then pure ret
    else
      Drv.modKbuf channel (markBlocks blocks)
      ssdWriteTablesToRam channel flagWriteEraseTable

def markBadId (channel : Nat) (id : BlockId) : Drv Int := do
  match ← Drv.getIdInfo channel id with
  | none => pure (-idNoExist)
  | some info =>
      let len := info.len.size
      let block := info.block.val
      let null ← Program.perform Act.kmalloc
      if null then pure (-12)
      else if channel ≠ info.channel.val then pure ssdError
      else
        let blocks ← findBadBlocks channel block 0 len
        if ¬ badBlock ∈ blocks then pure errNotBadBlock
        else
          match ← Drv.delIdInfo channel id with
          | none => pure (-idNoExist)
          | some info =>
              let ret ← channelOp channel (cmdValue block len flagErase)
              if ret ≠ ssdOk then
                let _ ← Drv.setIdInfo id info
                pure ret
              else
                Drv.deleteLogicBlock info
                markBadTables channel block blocks

def markBadBlockParam (channel block : Nat) : Drv Int := do
  let null ← Program.perform Act.kmalloc
  if null then pure (-12) else markBadTables channel block [badBlock]

def ssdMarkBadBlock (p : MarkBadParam) : Drv Int :=
  if p.type = paramId then Drv.withSema (id2channel p.id) (markBadId (id2channel p.id) p.id)
  else if p.type = paramBlock then
    Drv.withSema (p.channel % 256) (markBadBlockParam (p.channel % 256) p.block)
  else pure (-errInvalidParam)

/-- `eraseBuffer` is the user's array of block numbers and erase entries. -/
structure MarkEraseCountParam where
  channel : Nat
  count : Nat
  eraseBuffer : Mem

/-- Write the given entries over the erase table in `kbuf`. -/
def writeEraseEntries (entries : Mem) : Nat → Mem → Mem
  | 0, kbuf => kbuf
  | n + 1, kbuf =>
      putLE (writeEraseEntries entries n kbuf) (2 * getLE entries (4 * n) 2) 2
        (getLE entries (4 * n + 2) 2)

def ssdMarkEraseCountBody (p : MarkEraseCountParam) : Drv Int := do
  let failed ← Program.perform Act.copyParam
  if failed then pure (-errCopyToUser)
  else
    let ret ← ramTableRead ⟨p.channel, tableEraseType⟩
    if ret ≠ ssdOk then pure ret
    else
      Drv.modKbuf p.channel (writeEraseEntries p.eraseBuffer p.count)
      ssdWriteTablesToRam p.channel flagWriteEraseTable

def ssdMarkEraseCount (p : MarkEraseCountParam) : Drv Int :=
  if ssdMaxChannel ≤ p.channel then pure ssdError
  else if ssdMaxPhyblocksPerChannel < p.count then pure ssdError
  else do
    let null ← Program.perform Act.kmalloc
    if null then pure (-12) else Drv.withSema p.channel (ssdMarkEraseCountBody p)

end FpgaSsd.Driver
