/-
# Driver.Open — opening, initialising and closing the card, and the ioctl table

`ssd_sys_open` searches the newest metadata record, reads the image it names,
rebuilds the hash table and the RAM tables from it and reloads the allocators.
`ssd_sys_open_newcard` builds empty tables instead. `ssdBlockIoctl` is the entry
point of every request.
-/
import FpgaSsd.Driver.Flush

namespace FpgaSsd.Driver

open FpgaSsd.Lib

set_option autoImplicit false

/-! ## Hash table and allocators -/

/-- Apply an action to every bucket of every channel. -/
def forBuckets (a : Nat → ChanAct) : Drv Unit := do
  let _ ← Program.firstSome (fun channel =>
    Program.firstSome (fun b => do
      let _ ← Drv.chan channel (a b)
      pure (none : Option Unit)) (List.range ssdHashSize)) (List.range ssdMaxChannel)
  pure ()

def ssdInitHash : Drv Unit := forBuckets .initBucket

/-- Every node is freed; the counts stay. -/
def ssdDestorySlab : Drv Unit := forBuckets .freeBucket

/-- Mark the blocks of the nodes; `none` is a node of another channel. -/
def scanNodes (channel : Nat) : List HashNode → Bitmap → Option Bitmap
  | [], m => some m
  | node :: rest, m =>
      if channel ≠ node.info.channel.val then none
      else scanNodes channel rest (bitmapSet m node.info.block.val node.info.len.size)

def scanBuckets (channel : Nat) : List Nat → Bitmap → Drv (Option Bitmap)
  | [], m => pure (some m)
  | b :: rest, m => do
      let nodes ← Drv.chan channel (.copyBucket b)
      match scanNodes channel nodes m with
      | none => pure none
      | some m => scanBuckets channel rest m

/-- One channel of `ssd_reload_bitmap`; nothing else runs while the card opens, so
the bitmaps and the counters are set in one step. -/
def reloadChannel (channel : Nat) : Drv (Option Int) := do
  match ← scanBuckets channel (List.range ssdHashSize) (fun _ => false) with
  | none => pure (some ssdError)
  | some m => do
      let _ ← Drv.withSema channel
        (Drv.chan channel (.space fun _ => some (ssdOk, reloadSpace m)))
      pure none

def ssdReloadBitmap : Drv Int := do
  match ← Program.firstSome reloadChannel (List.range ssdMaxChannel) with
  | some ret => pure ret
  | none => pure ssdOk

def publishAllFreeBlocks : Drv Unit := do
  let _ ← Program.firstSome (fun channel => do
    Drv.publishFreeBlocks channel
    pure (none : Option Unit)) (List.range ssdMaxChannel)
  pure ()

/-! ## Rebuild from the image -/

/-- The byte offset of the address table of a channel in the image. -/
def addrOffset (channel : Nat) : Nat := channel * (2 * ssdTableSize)

def eraseOffset (channel : Nat) : Nat := addrOffset channel + ssdTableSize

/-- A 16-bit table entry in the image. -/
def imageEntry (image : Mem) (offset i : Nat) : Nat := getLE image (offset + 2 * i) 2

/-- `ssd_id_val`: every block of the id is mapped to a used block that is not bad. -/
def ssdIdVal (image : Mem) (channel : Nat) (info : IdInfo) : Int :=
  let valid := fun i =>
    let phyBlock := imageEntry image (addrOffset channel) (info.block.val + i) % 8192
    let entry := imageEntry image (eraseOffset channel) phyBlock
    entry / 16384 % 2 = 1 ∧ entry / 32768 % 2 = 0
  if ∀ i < info.len.size, valid i then ssdOk else -eidunval

/-- `ssd_rebuild_hash`: entries `i`, `i + 1`, .., `n` of them. A wrong channel is
also corrected in the image, where nothing reads it again. -/
def rebuildEntries (normalUninstall : Bool) : Nat → Nat → Drv Int
  | 0, _ => pure ssdOk
  | n + 1, i => do
      let image ← Drv.readFlush
      let entry := FlushIdInfo.decode image (idListOffset + flushIdInfoSize * i)
      let channel := id2channel entry.id
      let info := { entry.info with channel := Fin.ofNat 64 channel }
      if normalUninstall = false ∧ ssdIdVal image channel info ≠ ssdOk then
        rebuildEntries normalUninstall n (i + 1)
      else
        let ret ← Drv.setIdInfo entry.id info
        if ret ≠ ssdOk then pure ret else rebuildEntries normalUninstall n (i + 1)

def normalUninstall (m : SsdMetadata) : Bool := m.metadataMagic = flushMagicClose

/-- `id_max`, an `int`: counts from 2^31 on are negative, and the loop is left at once. -/
def idMax (m : SsdMetadata) : Nat := m.idNum.toInt32.toInt.toNat

def ssdRebuildHash : Drv Int := do
  let record ← Drv.getMeta
  rebuildEntries (normalUninstall record) (idMax record) 0

/-- Set or clear bit 14, the `use_flag`, of an erase entry in the image. -/
def setUseFlag (offset : Nat) (flag : Nat) (image : Mem) (i : Nat) : Mem :=
  let entry := imageEntry image offset i
  putLE image (offset + 2 * i) 2 (entry % 16384 + flag * 16384 + entry / 32768 * 32768)

/-- `ssd_mark_erase_table`. -/
def ssdMarkEraseTable (channel : Nat) (image : Mem) (node : HashNode) : Mem :=
  (List.range node.info.len.size).foldl (fun m i => setUseFlag (eraseOffset channel) 1 m
    (imageEntry m (addrOffset channel) (node.info.block.val + i) % 8192)) image

/-- The entries of `ssd_rebuild_erasetable` that are marked unused first. -/
def unusedEntries : List Nat := List.range' 10 4086 ++ List.range' 4106 4086

def rebuildErasetableChannel (channel : Nat) : Drv (Option Unit) := do
  Drv.modFlush fun m => unusedEntries.foldl (setUseFlag (eraseOffset channel) 0) m
  Program.firstSome (fun b => do
    let nodes ← Drv.chan channel (.copyBucket b)
    Drv.modFlush fun m => nodes.foldl (ssdMarkEraseTable channel) m
    pure none) (List.range ssdHashSize)

def ssdRebuildErasetable : Drv Int := do
  let record ← Drv.getMeta
  if normalUninstall record then pure ssdOk
  else
    let _ ← Program.firstSome rebuildErasetableChannel (List.range ssdMaxChannel)
    pure ssdOk

/-- One table from the image to the RAM of a channel. -/
def updataTable (channel offset flag : Nat) : Drv Int := do
  let image ← Drv.readFlush
  Drv.modKbuf channel fun m => copyBytes m 0 image offset ssdTableSize
  ssdWriteTablesToRam channel flag

/-- The erase table, then the address table, of each channel. The pointers advance
by `SSD_TABLE_SIZE` entries of two bytes. -/
def ssdUpdataTables : Drv Int := do
  match ← Program.firstSome (fun channel => do
      let ret ← updataTable channel (eraseOffset channel) flagWriteEraseTable
      if ret ≠ ssdOk then pure (some ret)
      else
        let ret ← updataTable channel (addrOffset channel) flagWriteAddrTable
        pure (if ret ≠ ssdOk then some ret else none)) (List.range ssdMaxChannel) with
  | some ret => pure ret
  | none => pure ssdOk

/-! ## Open and close -/

/-- `block_num * SSD_BLOCK_SIZE`, a product of `int`s, as the `size_t` of `memset`. -/
def imageSize (m : SsdMetadata) : Nat :=
  (Int32.ofNat (m.blockNum.toNat * ssdBlockSize)).toInt64.toUInt64.toNat

def ssdSysInit : Drv Int := do
  let ret ← ssdSearchMetadata
  if ret ≠ ssdOk then pure ret
  else
    let record ← Drv.getMeta
    Drv.modFlush fun m => fillBytes m 0 (imageSize record) 0
    let ret ← ssdReadFlushTabledata
    if ret ≠ ssdOk then pure ret
    else
      let record ← Drv.getMeta
      if normalUninstall record = false then pure (-44)
      else
        let ret ← ssdRebuildHash
        if ret ≠ ssdOk then pure ret
        else
          let _ ← ssdRebuildErasetable
          ssdUpdataTables

/-- The frame of `ssd_sys_open` and `ssd_sys_open_newcard` around `init`. -/
def openWith (init : Drv Int) : Drv Int := do
  let opened ← Program.perform Act.getOpened
  if opened then pure (-errNotClosed)
  else
    let failed ← Program.perform Act.kmalloc
    if failed then pure ssdError
    else
      ssdInitHash
      let ret ← init
      if ret ≠ ssdOk then
        ssdDestorySlab
        pure ssdError
      else
        let ret ← ssdReloadBitmap
        if ret ≠ ssdOk then
          ssdDestorySlab
          pure ssdError
        else
          publishAllFreeBlocks
          Program.perform Act.initFlushSema
          Program.perform (Act.setOpened true)
          pure ssdOk

def ssdSysOpen : Drv Int := openWith ssdSysInit

def ssdSysClose : Drv Int := do
  let opened ← Program.perform Act.getOpened
  if opened = false then pure ssdOk
  else
    let ret ← ssdSysFlush .close
    if ret ≠ ssdOk then pure ret
    else
      Program.perform (Act.setOpened false)
      ssdDestorySlab
      pure ret

/-! ## A new card -/

/-- `create_erase_table`: every entry has been erased once. -/
def createEraseTable (kbuf : Mem) : Mem :=
  fun i => if i < 2 * ssdMaxPhyblocksPerChannel then (if i % 2 = 0 then 1 else 0) else kbuf i

/-- `create_addrmap_table`: the blocks behind the reserved ones, planes 0 and 1
first, and zero for the rest. -/
def createAddrmapTable (kbuf : Mem) : Mem :=
  (List.range 8172).foldl (fun m i =>
    putLE m (2 * i) 2 (if i < 4086 then 0x0A + i else 0x100A + (i - 4086)))
    (fillBytes kbuf 0 ssdTableSize 0)

def ssdErasePhyblock (channel block : Nat) : Drv Int :=
  channelOp channel (cmdValue (block * ssdPagesPerBlock) 1 flagErasetables)

def initNewcardInChannelBody (channel : Nat) : Drv Int := do
  Drv.modKbuf channel createEraseTable
  let ret ← ssdWriteTablesToRam channel flagWriteEraseTable
  if ret ≠ ssdOk then pure ret
  else
    Drv.modKbuf channel createAddrmapTable
    let ret ← ssdWriteTablesToRam channel flagWriteAddrTable
    if ret ≠ ssdOk then pure ret
    else
      match ← Program.firstSome (fun block => do
          let ret ← ssdErasePhyblock channel block
          pure (if ret ≠ ssdOk then some ret else none)) (List.range ssdMaxPhyblocksPerChannel) with
      | some ret => pure ret
      | none => pure ssdOk

/-- `ssd_init_meta`: the fields it sets. -/
def initMeta (m : SsdMetadata) : SsdMetadata :=
  { m with
    metadataMagic := flushMagicNormal
    blockNum := 1
    lastBlockUsedBytes := 2097152
    idNum := 0
    version := 1
    timestamp := 0
    tableBlockPos := fun i =>
      if i.val = 0 then 40 else if i.val = 1 then 460 else m.tableBlockPos i }

/-- Behind the last page, so that the first flush goes to page 0 of the next group. -/
def initMetaPos : MetaPosition := ⟨ssdPagesPerBlock - 1, 0⟩

def ssdInitMeta : Drv Unit := do
  Drv.modMeta initMeta
  Drv.modMetaPos fun _ => initMetaPos

def ssdSysInitNewcard : Drv Int := do
  match ← Program.firstSome (fun channel => do
      let ret ← Drv.withSema channel (initNewcardInChannelBody channel)
      pure (if ret ≠ ssdOk then some ret else none)) (List.range ssdMaxChannel) with
  | some ret => pure ret
  | none => do
      ssdInitMeta
      pure ssdOk

def ssdSysOpenNewcard : Drv Int := openWith ssdSysInitNewcard

/-! ## Reading an old image -/

structure MetaVersion where
  block : Nat
  page : Nat

/-- Everything behind the `down` of `ssd_read_flush`. -/
def ssdReadFlushBody (v : MetaVersion) : Drv (Int × Option Mem) := do
  let ret ← ssdReadMetadata v.block v.page
  if ret ≠ ssdOk then pure (ret, none)
  else
    let kbuf ← Drv.readKbuf (posChannel v.block)
    let record := SsdMetadata.decode kbuf
    if metadataCheckVal record ≠ ssdOk then pure (emetaunval, none)
    else
      Drv.modMetaPos fun p => { p with blockPos := v.block }
      Drv.modMeta fun _ => record
      Drv.modMetaPos fun p => { p with page := v.page }
      Drv.modMeta fun m => { m with metadataMagic := flushMagicClose }
      let ret ← ssdReadFlushTabledata
      if ret ≠ ssdOk then pure (ret, none)
      else
        let record ← Drv.getMeta
        match ← Program.perform (Act.copyFlushToUser (imageSize record)) with
        | none => pure (-errCopyToUser, none)
        | some bytes => pure (ret, some bytes)

def ssdReadFlush (v : MetaVersion) : Drv (Int × Option Mem) :=
  if reserveBlocksMeta ≤ v.block then pure (-errInvalidParam, none)
  else Drv.withSema (posChannel v.block) (ssdReadFlushBody v)

/-! ## Requests -/

/-- The requests of `ssd_block_ioctl` that reach the card. -/
inductive Ioctl where
  | open
  | close
  | flush
  | sysInit
  | write (p : WriteParam)
  | read (p : ReadParam)
  | delete (id : BlockId)
  | readTable (p : TableParam)
  | readFlush (v : MetaVersion)
  | markBadBlock (p : MarkBadParam)
  | markEraseCount (p : MarkEraseCountParam)

/-- A request with a parameter block starts by copying it in. -/
def withParam {α : Type} (fault : α) (body : Drv α) : Drv α := do
  let failed ← Program.perform Act.copyParam
  if failed then pure fault else body

def noData (p : Drv Int) : Drv (Int × Option Mem) := do
  let ret ← p
  pure (ret, none)

/-- The `switch` of `ssd_block_ioctl`. -/
def ioctlBody : Ioctl → Drv (Int × Option Mem)
  | .open => noData ssdSysOpen
  | .close => noData ssdSysClose
  | .flush => noData (ssdSysFlush .normal)
  | .sysInit => noData ssdSysOpenNewcard
  | .write p => withParam (-errCopyFromUser, none) (noData (ssdIdWrite p))
  | .read p => withParam (-errCopyFromUser, none) (ssdIdRead p)
  | .delete id => withParam (-errCopyFromUser, none) (noData (ssdIdDelete id))
  | .readTable p => withParam (-errCopyFromUser, none) (ssdTableRead p)
  | .readFlush v => withParam (-errCopyFromUser, none) (ssdReadFlush v)
  | .markBadBlock p => withParam (-errCopyFromUser, none) (noData (ssdMarkBadBlock p))
  | .markEraseCount p => withParam (-errCopyFromUser, none) (noData (ssdMarkEraseCount p))

/-- `ssd_block_ioctl`: errors become positive. -/
def ssdBlockIoctl (request : Ioctl) : Drv (Int × Option Mem) := do
  let (ret, data) ← ioctlBody request
  pure (if ret < 0 then -ret else ret, data)

end FpgaSsd.Driver
