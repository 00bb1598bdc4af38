/-
# Driver.Flush — the persistent image: flush, search and read back

The write side (`ssd_sys_flush` and what it calls) and the read side
(`ssd_search_metadata`, `ssd_read_flush_tabledata`) of the flushed image. The
image is built in `kbuf_flush`: the two RAM tables of each channel, then the id
list. It goes to the reserved blocks, whose 880 positions `calcPhyblock` maps to
physical blocks, and is named by a metadata record in one of the ten groups of
four reserved blocks at positions 0 to 39.
-/
import FpgaSsd.Driver.Requests

namespace FpgaSsd.Driver

open FpgaSsd.Lib

set_option autoImplicit false

inductive FlushType where
  | normal
  | close
  deriving DecidableEq, Repr

def FlushType.magic : FlushType → UInt16
  | .normal => flushMagicNormal
  | .close => flushMagicClose

/-! ## Building the image -/

/-- `copy_ram_table`: the address table, then the erase table, of one channel. -/
def copyRamTableBody (channel offset : Nat) : Drv Int := do
  let ret ← ramTableRead ⟨channel, tableAddrType⟩
  if ret ≠ ssdOk then pure ret
  else
    let addr ← Drv.readKbuf channel
    Drv.modFlush fun m => copyBytes m offset addr 0 ssdTableSize
    let ret ← ramTableRead ⟨channel, tableEraseType⟩
    if ret ≠ ssdOk then pure ret
    else
      let erase ← Drv.readKbuf channel
      Drv.modFlush fun m => copyBytes m (offset + ssdTableSize) erase 0 ssdTableSize
      pure ret

def copyRamTable (channel offset : Nat) : Drv Int :=
  Drv.withSema channel (copyRamTableBody channel offset)

/-- The loop over the channels in `ssd_sys_flush`; `some` is the error it stops with. -/
def copyRamTables : Drv (Option Int) :=
  Program.firstSome (fun channel => do
    let ret ← copyRamTable channel (channel * (2 * ssdTableSize))
    pure (if ret ≠ ssdOk then some ret else none)) (List.range ssdMaxChannel)

/-- The id list starts behind the tables of all channels. -/
abbrev idListOffset : Nat := 1441792

/-- `copy_hash_node_to_flush_id_info`: the channel is corrected to the one of the id. -/
def flushIdInfoOf (node : HashNode) : FlushIdInfo :=
  ⟨node.id, if node.info.channel.val ≠ id2channel node.id
    then { node.info with channel := Fin.ofNat 64 (id2channel node.id) } else node.info⟩

/-- Append the entries of a bucket to the id list, which already has `n`. -/
def putNodes : List HashNode → Nat → Mem → Mem
  | [], _, m => m
  | node :: rest, n, m =>
      putNodes rest (n + 1) ((flushIdInfoOf node).encode m (idListOffset + flushIdInfoSize * n))

/-- The buckets of one channel in `copy_id_hash`; the number counts the entries. -/
def copyIdBuckets (channel : Nat) : List Nat → Nat → Drv Nat
  | [], n => pure n
  | b :: rest, n => do
      let nodes ← Drv.chan channel (.copyBucket b)
      Drv.modFlush (putNodes nodes n)
      copyIdBuckets channel rest (n + nodes.length)

def copyIdChannels : List Nat → Nat → Drv Nat
  | [], n => pure n
  | channel :: rest, n => do
      let n ← copyIdBuckets channel (List.range ssdHashSize) n
      copyIdChannels rest n

def copyIdHash : Drv Nat := copyIdChannels (List.range ssdMaxChannel) 0

/-! ## Reserved blocks -/

/-- The next position of the ring of table blocks, positions 40 to 459. -/
def findNewTablePos (curPos : Nat) : Nat :=
  ((curPos + 65536 - reserveBlocksMeta) % 65536 + 1) % tableBitmapSize + reserveBlocksMeta

/-- The first block of each plane. -/
def planeTableStart : Nat → Nat
  | 0 => 0x0
  | 1 => 0x1
  | 2 => 0x1000
  | _ => 0x1001

@[irreducible] def calcPhyblock (blockPos : Nat) : Int :=
  if reserveBlocksTotal ≤ blockPos then -errNoInvalidBlocks
  else
    let posInChannel := blockPos % reserveBlocksPerChannel
    posInChannel / 4 * 2 + planeTableStart (posInChannel % ssdMaxPlanes)

def posChannel (blockPos : Nat) : Nat := blockPos / reserveBlocksPerChannel % 256

def tableCmd (phyBlock page flag : Nat) : Nat := cmdValue (phyBlock * ssdPagesPerBlock + page) 1 flag

/-- The shape of `erase_one_reserve_block` and its siblings: the position is
checked, then `body` runs on its channel and physical block under the semaphore. -/
def onReserveBlock (blockPos : Nat) (body : Nat → Nat → Drv Int) : Drv Int :=
  let ret := calcPhyblock blockPos
  if ret < 0 then pure ret
  else Drv.withSema (posChannel blockPos) (body (posChannel blockPos) ret.toNat)

/-- Run `body` on the pages of a block until one fails. -/
def onPages (body : Nat → Drv Int) : Drv Int := do
  match ← Program.firstSome (fun page => do
      let ret ← body page
      pure (if ret ≠ ssdOk then some ret else none)) (List.range ssdPagesPerBlock) with
  | some ret => pure ret
  | none => pure ssdOk

def writeOneReserveBlock (blockPos offset : Nat) : Drv Int :=
  onReserveBlock blockPos fun channel phyBlock => onPages fun page => do
    let image ← Drv.readFlush
    Drv.modKbuf channel fun m => copyBytes m 0 image (offset + page * ssdPageSize) ssdPageSize
    channelOp channel (tableCmd phyBlock page flagWritetableToFlash)

def readOneReserveBlock (blockPos : Nat) : Drv Int :=
  onReserveBlock blockPos fun channel phyBlock => onPages fun page =>
    channelOp channel (tableCmd phyBlock page flagReadtablesFromFlash)

def eraseOneReserveBlock (blockPos : Nat) : Drv Int :=
  onReserveBlock blockPos fun channel phyBlock =>
    channelOp channel (tableCmd phyBlock 0 flagErasetables)

def writeOneReservePage (blockPos page : Nat) : Drv Int :=
  onReserveBlock blockPos fun channel phyBlock => do
    let record ← Drv.getMeta
    Drv.modKbuf channel fun m => record.encode (fillBytes m 0 ssdPageSize 0)
    channelOp channel (tableCmd phyBlock page flagWritetableToFlash)

def readOneReservePage (blockPos page : Nat) : Drv Int :=
  onReserveBlock blockPos fun channel phyBlock =>
    channelOp channel (tableCmd phyBlock page flagReadtablesFromFlash)

/-! ## Table blocks -/

/-- Erase, write and read back one block at one of its two positions. -/
def writeTabledataBlock (pos offset : Nat) : Drv Int := do
  let ret ← eraseOneReserveBlock pos
  if ret ≠ ssdOk then pure ret
  else
    let ret ← writeOneReserveBlock pos offset
    if ret ≠ ssdOk then pure ret else readOneReserveBlock pos

def writeTabledataBlockDuplicate (curPos offset : Nat) : Drv Int := do
  match ← Program.firstSome (fun i => do
      let ret ← writeTabledataBlock (curPos + i * tableBitmapSize) offset
      pure (if ret ≠ ssdOk then some ret else none)) (List.range tableDuplicate) with
  | some ret => pure ret
  | none => pure ssdOk

/-- `table_block_pos[block_num * 2]` and its duplicate. -/
def setTablePosInMeta (blockNum curPos : Nat) (m : SsdMetadata) : SsdMetadata :=
  { m with tableBlockPos := fun i =>
      if i.val = blockNum * 2 then .ofNat curPos
      else if i.val = blockNum * 2 + 1 then .ofNat (curPos + tableBitmapSize)
      else m.tableBlockPos i }

/-- The retry loop; a negative answer is the error, another one the position used. -/
def retryWriteTabledataBlock (blockNum offset : Nat) : Nat → Nat → Drv Int
  | 0, _ => pure ssdError
  | n + 1, curPos => do
      let curPos := findNewTablePos curPos
      let ret ← writeTabledataBlockDuplicate curPos offset
      if ret = ssdOk then
        Drv.modMeta (setTablePosInMeta blockNum curPos)
        pure curPos
      else retryWriteTabledataBlock blockNum offset n curPos

abbrev ssdMaxFlushTableRetry : Nat := 5

/-- Write blocks `i`, `i + 1`, .. of the image, `n` of them. -/
def flushTableBlocks : Nat → Nat → Nat → Drv Int
  | 0, _, _ => pure ssdOk
  | n + 1, i, curPos => do
      let ret ← retryWriteTabledataBlock i (i * ssdBlockSize) ssdMaxFlushTableRetry curPos
      if ret < 0 then pure ret else flushTableBlocks n (i + 1) ret.toNat

def tabledataBytes (idNum : Nat) : Nat := idListOffset + idNum * flushIdInfoSize

/-- `block_num`: the number of blocks, the last of them possibly not full. -/
def tableBlockNum (idNum : Nat) : Nat :=
  let full := tabledataBytes idNum / ssdBlockSize
  if tabledataBytes idNum - full * ssdBlockSize = 0 then full else full + 1

def lastBlockUsedBytes (idNum : Nat) : Nat :=
  let used := tabledataBytes idNum % ssdBlockSize
  if used = 0 then ssdBlockSize else used

/-- `update_meta`; its parameter `last_block_used_bytes` has 16 bits. -/
def updateMeta (blockNum lastUsed : Nat) (type : FlushType) (idNum : Nat) (now : UInt64)
    (m : SsdMetadata) : SsdMetadata :=
  let version := m.version + 1
  { m with
    metadataMagic := type.magic
    blockNum := .ofNat blockNum
    lastBlockUsedBytes := .ofNat (lastUsed % 65536)
    metadataCrc32 := 0
    idNum := .ofNat idNum
    version := if version = 0 then 1 else version
    timestamp := now }

def flushTabledata (idNum : Nat) (type : FlushType) : Drv Int :=
  if ssdMaxIdNum < idNum then pure ssdError
  else do
    let old ← Drv.getMeta
    let curPos := old.pos (tableDuplicate * old.blockNum.toNat - tableDuplicate)
    let ret ← flushTableBlocks (tableBlockNum idNum) 0 curPos
    if ret < 0 then pure ret
    else
      let now ← Program.perform Act.gettime
      Drv.modMeta (updateMeta (tableBlockNum idNum) (lastBlockUsedBytes idNum) type idNum now)
      pure ssdOk

/-! ## Metadata -/

/-- A new group is erased plane by plane, each just before its first page is written. -/
def eraseIfFirstPage (blockPos page : Nat) : Drv Int :=
  if page = 0 then eraseOneReserveBlock blockPos else pure ssdOk

def writeMetaPage (plane : Nat) : Drv Int := do
  let p ← Drv.getMetaPos
  if p.blockPos % ssdMaxPlanes ≠ 0 then pure (-errMetaBlockAlign)
  else
    let blockPos := p.blockPos + plane
    let ret ← eraseIfFirstPage blockPos p.page
    if ret ≠ ssdOk then pure ret
    else
      let ret ← writeOneReservePage blockPos p.page
      if ret ≠ ssdOk then pure ret else readOneReservePage blockPos p.page

/-- The number of planes that succeed. -/
def writeMetaPages : List Nat → Nat → Drv Nat
  | [], success => pure success
  | plane :: rest, success => do
      let ret ← writeMetaPage plane
      writeMetaPages rest (if ret = ssdOk then success + 1 else success)

abbrev ssdMinMetaDuplicate : Nat := 3

def writeMetadataPageDuplicate : Drv Int := do
  let success ← writeMetaPages (List.range ssdMaxPlanes) 0
  pure (if ssdMinMetaDuplicate ≤ success then ssdOk else ssdError)

def findNewMetaBlock (curPos : Nat) : Nat :=
  (curPos / ssdMaxPlanes + 1) % metaBitmapSize * ssdMaxPlanes

/-- Where the next record goes, after a write that succeeded or not. -/
def nextMetaPos (lastSuccess : Int) (p : MetaPosition) : MetaPosition :=
  if lastSuccess ≠ ssdOk then ⟨0, findNewMetaBlock p.blockPos⟩
  else if p.page = ssdPagesPerBlock - 1 then ⟨0, findNewMetaBlock p.blockPos⟩
  else { p with page := p.page + 1 }

def findNewMetaPos (lastSuccess : Int) : Drv Int := do
  Drv.modMetaPos (nextMetaPos lastSuccess)
  pure ssdOk

/-- The attempts of `flush_metadata`; `ret` is the result of the one before. -/
def flushMetadataLoop : Nat → Int → Drv Int
  | 0, ret => pure ret
  | n + 1, ret => do
      let ret ← findNewMetaPos ret
      if ret ≠ ssdOk then pure ret
      else
        let ret ← writeMetadataPageDuplicate
        if ret = ssdOk then pure ret else flushMetadataLoop n ret

abbrev ssdMaxFlushMetaRetry : Nat := 3

/-- The first attempt moves on as after a success. -/
def flushMetadata : Drv Int := flushMetadataLoop ssdMaxFlushMetaRetry ssdOk

/-! ## Flush -/

def ssdSysFlushBody (type : FlushType) : Drv Int := do
  Drv.modFlush fun m => fillBytes m 0 ssdMaxFlushSize 0
  match ← copyRamTables with
  | some ret => pure ret
  | none => do
      let idNum ← copyIdHash
      let ret ← flushTabledata idNum type
      if ret ≠ ssdOk then pure ret else flushMetadata

def ssdSysFlush (type : FlushType) : Drv Int := do
  let opened ← Program.perform Act.getOpened
  if opened = false then pure ssdOk
  else
    Program.perform Act.downFlush
    let ret ← ssdSysFlushBody type
    Program.perform Act.upFlush
    pure ret

/-! ## Search and read back -/

/-- Read one page of a reserved block; the caller looks after the semaphore. -/
def ssdReadMetadata (metaBlock page : Nat) : Drv Int :=
  channelOp (posChannel metaBlock)
    (tableCmd (calcPhyblock metaBlock % 65536).toNat page flagReadtablesFromFlash)

def ssdReadTabledata (tabledataBlock page : Nat) : Drv Int :=
  channelOp (posChannel tabledataBlock)
    (tableCmd (calcPhyblock tabledataBlock % 65536).toNat page flagReadtablesFromFlash)

/-- The planes of one group in `search_block_metadata`: the timeout it stops
with, or the highest version seen so far. -/
def searchGroup (group : Nat) (version : UInt64) : List Nat → Drv (Except Int UInt64)
  | [] => pure (.ok version)
  | plane :: rest => do
      let metaBlock := group * ssdMaxPlanes + plane
      let ret ← ssdReadMetadata metaBlock 0
      if ret = -errTimeout then pure (.error ret)
      else if ret ≠ ssdOk then searchGroup group version rest
      else
        let kbuf ← Drv.readKbuf (posChannel metaBlock)
        let record := SsdMetadata.decode kbuf
        if metadataCheckVal record ≠ ssdOk then searchGroup group version rest
        else if version < record.version then
          Drv.modMetaPos fun p => { p with blockPos := group * ssdMaxPlanes }
          pure (.ok record.version)
        else pure (.ok version)

def searchGroups : List Nat → UInt64 → Drv (Except Int UInt64)
  | [], version => pure (.ok version)
  | group :: rest, version => do
      match ← searchGroup group version (List.range ssdMaxPlanes) with
      | .error ret => pure (.error ret)
      | .ok version => searchGroups rest version

def searchBlockMetadata : Drv Int := do
  match ← searchGroups (List.range metaBitmapSize) 0 with
  | .error ret => pure ret
  | .ok version => pure (if version ≠ 0 then ssdOk else -enometa)

/-- One page of one plane in `search_page_metadata`: `some` is the return. -/
def searchPage (blockPos page plane : Nat) : Drv (Option Int) := do
  let ret ← ssdReadMetadata (blockPos + plane) page
  if ret = -errTimeout then pure (some ret)
  else if ret ≠ ssdOk then pure none
  else
    let kbuf ← Drv.readKbuf (posChannel blockPos)
    let record := SsdMetadata.decode kbuf
    if metadataCheckVal record ≠ ssdOk then pure none
    else
      Drv.modMeta fun _ => record
      Drv.modMetaPos fun p => { p with page := page }
      pure (some ssdOk)

/-- From the last page down, and on each page plane by plane. -/
def searchPageMetadata : Drv Int := do
  let p ← Drv.getMetaPos
  match ← Program.firstSome (fun page =>
      Program.firstSome (fun plane => searchPage p.blockPos page plane) (List.range ssdMaxPlanes))
    (List.range ssdPagesPerBlock).reverse with
  | some ret => pure ret
  | none => pure (-ereadflush)

def ssdSearchMetadata : Drv Int := do
  let ret ← searchBlockMetadata
  if ret ≠ ssdOk then pure ret else searchPageMetadata

/-- Read one copy of a table block page by page: `none` when all pages were read,
`some` with the return value that stopped it. -/
def readTableCopy (tabledataBlock offset : Nat) : Drv (Option Int) :=
  Program.firstSome (fun page => do
    let ret ← ssdReadTabledata tabledataBlock page
    if ret ≠ ssdOk then pure (some ret)
    else
      let kbuf ← Drv.readKbuf (posChannel tabledataBlock)
      Drv.modFlush fun m => copyBytes m (offset + ssdPageSize * page) kbuf 0 ssdPageSize
      pure none) (List.range ssdPagesPerBlock)

/-- The copies of one block: `some` is the return of the whole function, `none`
one copy read. -/
def readTableCopies (blockNum : Nat) : List Nat → Drv (Option Int)
  | [] => pure (some (-etabledata))
  | i :: rest => do
      let record ← Drv.getMeta
      match ← readTableCopy (record.pos (blockNum * tableDuplicate + i)) (ssdBlockSize * blockNum) with
      | none => pure none
      | some ret => if ret = -errTimeout then pure (some ret) else readTableCopies blockNum rest

/-- The loop bound `meta.block_num` is read anew at every block; `fuel` bounds
its 16 bits. -/
def readFlushLoop : Nat → Nat → Drv Int
  | 0, _ => pure ssdOk
  | fuel + 1, blockNum => do
      let record ← Drv.getMeta
      if blockNum < record.blockNum.toNat then
        match ← readTableCopies blockNum (List.range tableDuplicate) with
        | some ret => pure ret
        | none => readFlushLoop fuel (blockNum + 1)
      else pure ssdOk

def ssdReadFlushTabledata : Drv Int := readFlushLoop 65536 0

end FpgaSsd.Driver
