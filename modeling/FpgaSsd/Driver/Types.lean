/-
# Driver.Types — the constants, records and command words of the driver

The data the driver shares with the hardware and with its own flushed image:

* `BlockId`, `IdInfo`, `HashNode` — an id and where its data lies; the bit-fields
  of the C structures are `Fin`s, so a value that does not fit cannot be built;
* `FlushIdInfo.encode`/`decode` — the 24-byte entry of the flushed id list, read
  back by `FlushIdInfo.decode_encode`;
* `SsdMetadata.encode`/`decode` — the 56-byte record of a metadata page, read
  back by `SsdMetadata.decode_encode`;
* `cmdValue` — the command word, with the masks the header gives it, and what the
  hardware reads from it (`decode_cmdValue`, in the range the masks keep).
-/
import FpgaSsd.Lib.Bytes
import Mathlib.Data.Fintype.Pi
import Mathlib.Data.Nat.Bitwise

namespace FpgaSsd.Driver

open FpgaSsd.Lib

set_option autoImplicit false

/-! ## Constants -/

@[simp] abbrev ssdPageSize : Nat := 8192
@[simp] abbrev ssdPagesPerBlock : Nat := 256
@[simp] abbrev ssdBlockSize : Nat := 2097152
@[simp] abbrev ssdMaxChannel : Nat := 44
@[simp] abbrev ssdMaxPlanes : Nat := 4
@[simp] abbrev ssdHashSize : Nat := 391
@[simp] abbrev ssdMaxVirblocksPerChannel : Nat := 8000
@[simp] abbrev ssdMaxPhyblocksPerChannel : Nat := 8192
@[simp] abbrev ssdMaxIdNum : Nat := 352000
/-- One address or erase table: two pages. -/
@[simp] abbrev ssdTableSize : Nat := 16384
@[simp] abbrev addrTablePages : Nat := 2
@[simp] abbrev reserveBlocksPerChannel : Nat := 20
@[simp] abbrev reserveBlocksMeta : Nat := 40
@[simp] abbrev reserveBlocksTotal : Nat := 880
@[simp] abbrev tableBitmapSize : Nat := 420
@[simp] abbrev metaBitmapSize : Nat := 10
@[simp] abbrev tableDuplicate : Nat := 2
@[simp] abbrev flushIdInfoSize : Nat := 24
@[simp] abbrev ssdMaxFlushSize : Nat := 10485760

abbrev flushMagicNormal : UInt16 := 0x5A9B
abbrev flushMagicClose : UInt16 := 0xC43A

@[simp] abbrev ssdOk : Int := 0
@[simp] abbrev ssdError : Int := -1
@[simp] abbrev errStartPageAlign : Int := 1
@[simp] abbrev errLenPageAlign : Int := 2
@[simp] abbrev errParamOverflow : Int := 5
@[simp] abbrev errParamWrlen : Int := 6
@[simp] abbrev errNull : Int := 7
@[simp] abbrev errTimeout : Int := 9
@[simp] abbrev errCopyFromUser : Int := 14
@[simp] abbrev errCopyToUser : Int := 15
@[simp] abbrev errNoInvalidBlocks : Int := 20
@[simp] abbrev errNotOpened : Int := 24
@[simp] abbrev errNotClosed : Int := 25
@[simp] abbrev errAllocBlock : Int := 26
@[simp] abbrev idNoExist : Int := 27
@[simp] abbrev idAlreadyExist : Int := 28
@[simp] abbrev idMapError : Int := 29
@[simp] abbrev errMetaBlockAlign : Int := 31
@[simp] abbrev enometa : Int := 32
@[simp] abbrev ereadflush : Int := 33
@[simp] abbrev emetaunval : Int := 34
@[simp] abbrev eidunval : Int := 35
@[simp] abbrev etabledata : Int := 36
@[simp] abbrev errInvalidParam : Int := 37
@[simp] abbrev errNotBadBlock : Int := 38

/-! ## Ids -/

structure BlockId where
  mNLow : UInt64
  mNHigh : UInt64
  deriving DecidableEq, Repr

/-- `enum block_type`: 2M index blocks and 10M data blocks. -/
inductive BlockType where
  | iblock
  | dblock
  deriving DecidableEq, Repr

/-- `BLOCKSIZE[]`, in 2M blocks. -/
def BlockType.size : BlockType → Nat
  | .iblock => 1
  | .dblock => 5

@[simp] theorem BlockType.size_iblock : BlockType.iblock.size = 1 := rfl
@[simp] theorem BlockType.size_dblock : BlockType.dblock.size = 5 := rfl

theorem BlockType.size_pos (t : BlockType) : 0 < t.size := by cases t <;> decide

theorem BlockType.size_le (t : BlockType) : t.size ≤ 5 := by cases t <;> decide

/-- The one-bit `len` field. -/
def BlockType.bit : BlockType → Nat
  | .iblock => 0
  | .dblock => 1

def BlockType.ofBit (b : Nat) : BlockType := if b = 0 then .iblock else .dblock

@[simp] theorem BlockType.ofBit_bit (t : BlockType) : BlockType.ofBit t.bit = t := by
  cases t <;> rfl

theorem BlockType.bit_lt (t : BlockType) : t.bit < 2 := by cases t <;> decide

/-- The six bits of a channel number. -/
instance neZeroChannels : NeZero 64 := ⟨by decide⟩

structure IdInfo where
  channel : Fin 64
  block : Fin 8192
  len : BlockType
  deriving DecidableEq, Repr

structure HashNode where
  id : BlockId
  info : IdInfo
  deriving DecidableEq, Repr

def id2channel (id : BlockId) : Nat :=
  id.mNLow.toNat % 4 * 11 + id.mNLow.toNat / 4 % 11

def idHash (id : BlockId) : Nat := id.mNLow.toNat % ssdHashSize

theorem id2channel_lt (id : BlockId) : id2channel id < ssdMaxChannel := by
  simp only [id2channel, ssdMaxChannel]
  omega

theorem idHash_lt (id : BlockId) : idHash id < ssdHashSize := by
  simp only [idHash, ssdHashSize]
  omega

/-- A hash node for `id` in the channel the id belongs to. -/
def IdInfo.at (channel : Nat) (block : Nat) (len : BlockType) : IdInfo :=
  ⟨Fin.ofNat 64 channel, Fin.ofNat 8192 block, len⟩

def checkIdInfo (info : IdInfo) : Int :=
  if ssdMaxChannel ≤ info.channel.val then -idMapError
  else if ssdMaxVirblocksPerChannel ≤ info.block.val then -idMapError
  else if ssdMaxVirblocksPerChannel < info.block.val + info.len.size then -idMapError
  else ssdOk

theorem checkIdInfo_ok {info : IdInfo} (channel : info.channel.val < ssdMaxChannel)
    (fits : info.block.val + info.len.size ≤ ssdMaxVirblocksPerChannel) :
    checkIdInfo info = ssdOk := by
  have := info.len.size_pos
  simp only [ssdMaxVirblocksPerChannel, ssdMaxChannel] at channel fits
  simp only [checkIdInfo, ssdMaxChannel, ssdMaxVirblocksPerChannel]
  rw [if_neg (by omega), if_neg (by omega), if_neg (by omega)]

/-! ## The flushed id list -/

/-- `struct flush_id_info`; its `crc32` is always written as zero and never read. -/
structure FlushIdInfo where
  id : BlockId
  info : IdInfo
  deriving DecidableEq, Repr

namespace FlushIdInfo

/-- The 32-bit word of the three bit-fields, lowest field first. -/
def word (info : IdInfo) : Nat := info.channel.val + info.block.val * 64 + info.len.bit * 524288

def ofWord (w : Nat) : IdInfo :=
  ⟨Fin.ofNat 64 w, Fin.ofNat 8192 (w / 64), BlockType.ofBit (w / 524288 % 2)⟩

@[simp] theorem ofWord_word (info : IdInfo) : ofWord (word info) = info := by
  obtain ⟨channel, block, len⟩ := info
  have channel_lt := channel.isLt
  have block_lt := block.isLt
  have len_lt := len.bit_lt
  simp only [ofWord, word, IdInfo.mk.injEq]
  refine ⟨Fin.ext ?_, Fin.ext ?_, ?_⟩
  · simp only [Fin.val_ofNat]; omega
  · simp only [Fin.val_ofNat]; omega
  · rw [show (channel.val + block.val * 64 + len.bit * 524288) / 524288 % 2 = len.bit by omega,
      BlockType.ofBit_bit]

theorem word_lt (info : IdInfo) : word info < 256 ^ 4 := by
  have channel_lt := info.channel.isLt
  have block_lt := info.block.isLt
  have len_lt := info.len.bit_lt
  simp only [word]
  omega

def encode (m : Mem) (offset : Nat) (e : FlushIdInfo) : Mem :=
  putLE (putLE (putLE (putLE m offset 8 e.id.mNLow.toNat) (offset + 8) 8 e.id.mNHigh.toNat)
    (offset + 16) 4 (word e.info)) (offset + 20) 4 0

def decode (m : Mem) (offset : Nat) : FlushIdInfo :=
  ⟨⟨.ofNat (getLE m offset 8), .ofNat (getLE m (offset + 8) 8)⟩, ofWord (getLE m (offset + 16) 4)⟩

/-- An entry is read back as it was written. -/
theorem decode_encode (m : Mem) (offset : Nat) (e : FlushIdInfo) :
    decode (encode m offset e) offset = e := by
  have low : e.id.mNLow.toNat < 256 ^ 8 := e.id.mNLow.toNat_lt
  have high : e.id.mNHigh.toNat < 256 ^ 8 := e.id.mNHigh.toNat_lt
  simp only [decode, encode]
  rw [getLE_putLE_disjoint _ (by omega), getLE_putLE_disjoint _ (by omega),
    getLE_putLE_disjoint _ (by omega), getLE_putLE_of_lt _ low,
    getLE_putLE_disjoint _ (by omega), getLE_putLE_disjoint _ (by omega),
    getLE_putLE_of_lt _ high,
    getLE_putLE_disjoint _ (by omega), getLE_putLE_of_lt _ (word_lt e.info), ofWord_word]
  simp

theorem encode_outside {m : Mem} {offset i : Nat} {e : FlushIdInfo}
    (apart : i < offset ∨ offset + flushIdInfoSize ≤ i) : encode m offset e i = m i := by
  simp only [flushIdInfoSize] at apart
  simp only [encode]
  rw [putLE_outside (by omega), putLE_outside (by omega), putLE_outside (by omega),
    putLE_outside (by omega)]

theorem decode_congr {m m' : Mem} {a b : Nat}
    (same : ∀ i < flushIdInfoSize, m (a + i) = m' (b + i)) : decode m a = decode m' b := by
  simp only [flushIdInfoSize] at same
  simp only [decode]
  rw [getLE_congr (b := b) fun i h => same i (by omega),
    getLE_congr (a := a + 8) (b := b + 8) fun i h => by
      simpa only [Nat.add_assoc] using same (8 + i) (by omega),
    getLE_congr (a := a + 16) (b := b + 16) fun i h => by
      simpa only [Nat.add_assoc] using same (16 + i) (by omega)]

end FlushIdInfo

/-! ## The metadata record -/

/-- `struct ssd_metadata`. -/
structure SsdMetadata where
  metadataMagic : UInt16
  blockNum : UInt16
  lastBlockUsedBytes : UInt32
  idNum : UInt32
  version : UInt64
  timestamp : UInt64
  metadataCrc32 : UInt32
  tableBlockPos : Fin 10 → UInt16
  deriving DecidableEq

/-- `struct meta_position`; the page is below 256 and the position below 40. -/
structure MetaPosition where
  page : Nat
  blockPos : Nat
  deriving DecidableEq, Repr

namespace SsdMetadata

/-- `table_block_pos[i]`. -/
def pos (m : SsdMetadata) (i : Nat) : Nat := if h : i < 10 then (m.tableBlockPos ⟨i, h⟩).toNat else 0

/-- The array of positions as bytes from address 36 on. -/
def encodePos (m : SsdMetadata) : Nat → Mem → Mem
  | 0, mem => mem
  | n + 1, mem => putLE (encodePos m n mem) (36 + 2 * n) 2 (m.pos n)

/-- The 56 bytes of the record, at the start of a buffer. -/
def encode (m : SsdMetadata) (mem : Mem) : Mem :=
  encodePos m 10 <| putLE (putLE (putLE (putLE (putLE (putLE (putLE mem 0 2 m.metadataMagic.toNat)
    2 2 m.blockNum.toNat) 4 4 m.lastBlockUsedBytes.toNat) 8 4 m.idNum.toNat)
    16 8 m.version.toNat) 24 8 m.timestamp.toNat) 32 4 m.metadataCrc32.toNat

def decode (mem : Mem) : SsdMetadata where
  metadataMagic := .ofNat (getLE mem 0 2)
  blockNum := .ofNat (getLE mem 2 2)
  lastBlockUsedBytes := .ofNat (getLE mem 4 4)
  idNum := .ofNat (getLE mem 8 4)
  version := .ofNat (getLE mem 16 8)
  timestamp := .ofNat (getLE mem 24 8)
  metadataCrc32 := .ofNat (getLE mem 32 4)
  tableBlockPos := fun i => .ofNat (getLE mem (36 + 2 * i.val) 2)

theorem encodePos_below (m : SsdMetadata) (n : Nat) (mem : Mem) {a k : Nat} (below : a + k ≤ 36) :
    getLE (encodePos m n mem) a k = getLE mem a k := by
  induction n with
  | zero => rfl
  | succ n ih =>
      rw [encodePos, getLE_putLE_disjoint _ (by omega), ih]

theorem encodePos_at (m : SsdMetadata) {n i : Nat} (mem : Mem) (h : i < n) :
    getLE (encodePos m n mem) (36 + 2 * i) 2 = m.pos i := by
  have small : m.pos i < 256 ^ 2 := by
    simp only [pos]
    split
    · exact UInt16.toNat_lt _
    · decide
  induction n with
  | zero => omega
  | succ n ih =>
      rw [encodePos]
      by_cases last : i = n
      · subst last
        exact getLE_putLE_of_lt _ small
      · rw [getLE_putLE_disjoint _ (by omega), ih (by omega)]

theorem decode_congr {a b : Mem} (same : ∀ i < 56, a i = b i) : decode a = decode b := by
  have read : ∀ k n, k + n ≤ 56 → getLE a k n = getLE b k n := fun k n fits =>
    getLE_congr fun i h => same _ (by omega)
  simp only [decode]
  rw [read 0 2 (by omega), read 2 2 (by omega), read 4 4 (by omega), read 8 4 (by omega),
    read 16 8 (by omega), read 24 8 (by omega), read 32 4 (by omega)]
  congr 1
  funext i
  rw [read _ 2 (by omega)]

/-- A page that is copied has the same record. -/
theorem decode_copyBytes (dst src : Mem) : decode (copyBytes dst 0 src 0 ssdPageSize) = decode src :=
  decode_congr fun i small => by
    have inside := @copyBytes_inside dst src 0 0 ssdPageSize i (by simp only [ssdPageSize]; omega)
    simpa only [Nat.zero_add] using inside

/-- A record is read back as it was written. -/
theorem decode_encode (m : SsdMetadata) (mem : Mem) : decode (encode m mem) = m := by
  have magic : m.metadataMagic.toNat < 256 ^ 2 := UInt16.toNat_lt _
  have blockNum : m.blockNum.toNat < 256 ^ 2 := UInt16.toNat_lt _
  have last : m.lastBlockUsedBytes.toNat < 256 ^ 4 := UInt32.toNat_lt _
  have idNum : m.idNum.toNat < 256 ^ 4 := UInt32.toNat_lt _
  have version : m.version.toNat < 256 ^ 8 := UInt64.toNat_lt _
  have time : m.timestamp.toNat < 256 ^ 8 := UInt64.toNat_lt _
  have crc : m.metadataCrc32.toNat < 256 ^ 4 := UInt32.toNat_lt _
  have positions : (fun i : Fin 10 => UInt16.ofNat (getLE (encode m mem) (36 + 2 * i.val) 2)) =
      m.tableBlockPos := by
    funext i
    rw [encode, encodePos_at _ _ i.isLt, pos, dif_pos i.isLt, UInt16.ofNat_toNat]
  have skip : ∀ (mem : Mem) {a b k n w : Nat}, a + k ≤ b ∨ b + n ≤ a →
      getLE (putLE mem b n w) a k = getLE mem a k := fun mem => getLE_putLE_disjoint mem
  simp only [decode, positions]
  simp only [encode]
  simp only [encodePos_below _ _ _ (show 0 + 2 ≤ 36 by omega),
    encodePos_below _ _ _ (show 2 + 2 ≤ 36 by omega),
    encodePos_below _ _ _ (show 4 + 4 ≤ 36 by omega),
    encodePos_below _ _ _ (show 8 + 4 ≤ 36 by omega),
    encodePos_below _ _ _ (show 16 + 8 ≤ 36 by omega),
    encodePos_below _ _ _ (show 24 + 8 ≤ 36 by omega),
    encodePos_below _ _ _ (show 32 + 4 ≤ 36 by omega)]
  simp (disch := omega) only [skip]
  simp only [getLE_putLE_of_lt _ magic, getLE_putLE_of_lt _ blockNum, getLE_putLE_of_lt _ last,
    getLE_putLE_of_lt _ idNum, getLE_putLE_of_lt _ version, getLE_putLE_of_lt _ time,
    getLE_putLE_of_lt _ crc, UInt16.ofNat_toNat, UInt32.ofNat_toNat, UInt64.ofNat_toNat]

end SsdMetadata

/-- Only the magic is checked. -/
def metadataCheckVal (m : SsdMetadata) : Int :=
  if m.metadataMagic ≠ flushMagicNormal ∧ m.metadataMagic ≠ flushMagicClose then -emetaunval
  else ssdOk

/-! ## Command words -/

abbrev flagRead : Nat := 0x0
abbrev flagWrite : Nat := 0x1
abbrev flagErase : Nat := 0x2
abbrev flagWriteAddrTable : Nat := 0x3
abbrev flagReadtablesFromFlash : Nat := 0x4
abbrev flagWritetableToFlash : Nat := 0x5
abbrev flagErasetables : Nat := 0x6
abbrev flagWriteEraseTable : Nat := 0x7
abbrev flagReadAddrTable : Nat := 0x8
abbrev flagReadEraseTable : Nat := 0x9

/-- The command word; the start mask of the header covers bits 1 to 32 only. -/
def cmdValue (start len flag : Nat) : Nat :=
  flag &&& 0x1f ||| (start <<< 5 &&& 0x1fffffffe) ||| (len <<< 37 &&& 0xffe000000000)

/-- The command as the hardware reads it: the flag in bits 0 to 4, the start
address in bits 5 to 36, the length in bits 37 to 47. -/
structure Command where
  start : Nat
  len : Nat
  flag : Nat
  deriving DecidableEq, Repr

def Command.ofWord (cmd : Nat) : Command := ⟨cmd / 32 % 2 ^ 32, cmd / 2 ^ 37 % 2 ^ 11, cmd % 32⟩

theorem and_startMask {start : Nat} (h : start < 2 ^ 28) :
    start <<< 5 &&& 0x1fffffffe = start <<< 5 := by
  have mask : (0x1fffffffe : Nat) = (2 ^ 32 - 1) <<< 1 := by decide
  rw [mask]
  apply Nat.eq_of_testBit_eq
  intro i
  simp only [Nat.testBit_and, Nat.testBit_shiftLeft, Nat.testBit_two_pow_sub_one]
  by_cases low : 5 ≤ i
  · by_cases high : i ≤ 32
    · simp [low, show 1 ≤ i by omega, show i - 1 < 32 by omega]
    · have far : start.testBit (i - 5) = false :=
        Nat.testBit_lt_two_pow (Nat.lt_of_lt_of_le h (Nat.pow_le_pow_right (by omega) (by omega)))
      simp [far]
  · simp [low]

theorem and_lenMask {len : Nat} (h : len < 2 ^ 11) :
    len <<< 37 &&& 0xffe000000000 = len <<< 37 := by
  have mask : (0xffe000000000 : Nat) = (2 ^ 11 - 1) <<< 37 := by decide
  rw [mask, ← Nat.shiftLeft_and_distrib, Nat.and_two_pow_sub_one_of_lt_two_pow h]

theorem cmdValue_eq {start len flag : Nat} (start_lt : start < 2 ^ 28) (len_lt : len < 2 ^ 11)
    (flag_lt : flag < 32) : cmdValue start len flag = len * 2 ^ 37 + (start * 32 + flag) := by
  have flagMask : flag &&& 0x1f = flag := by
    rw [show (0x1f : Nat) = 2 ^ 5 - 1 by decide, Nat.and_two_pow_sub_one_of_lt_two_pow flag_lt]
  have low : flag ||| start <<< 5 = start * 32 + flag := by
    rw [Nat.or_comm, ← Nat.shiftLeft_add_eq_or_of_lt flag_lt, Nat.shiftLeft_eq]
  have low_lt : start * 32 + flag < 2 ^ 37 := by omega
  rw [cmdValue, flagMask, and_startMask start_lt, and_lenMask len_lt, low, Nat.or_comm,
    ← Nat.shiftLeft_add_eq_or_of_lt low_lt, Nat.shiftLeft_eq]

/-- In the range the masks keep, the hardware reads what the driver meant. -/
theorem decode_cmdValue {start len flag : Nat} (start_lt : start < 2 ^ 28) (len_lt : len < 2 ^ 11)
    (flag_lt : flag < 32) : Command.ofWord (cmdValue start len flag) = ⟨start, len, flag⟩ := by
  rw [cmdValue_eq start_lt len_lt flag_lt, Command.ofWord, Command.mk.injEq]
  refine ⟨?_, ?_, ?_⟩ <;> omega

/-- The address tables and the erase tables in the RAM of the hardware are reached
by commands that `channel_op` polls for. -/
def isRamTable (cmd : Nat) : Bool :=
  decide (cmd % 16 = 3 ∨ cmd % 16 = 7 ∨ cmd % 16 = 8 ∨ cmd % 16 = 9)

/-- What `channel_op` can return: success, the timer, an interrupt that found no
timer, nobody at all, the polling loop running out, or a hardware status. -/
inductive ChannelRet where
  | ok
  | timeout
  | delTimer
  | wait
  | ramTimeout
  | hardware (status : Fin 31)
  deriving DecidableEq, Repr

def ChannelRet.toInt : ChannelRet → Int
  | .ok => ssdOk
  | .timeout => -errTimeout
  | .delTimer => -13
  | .wait => -18
  | .ramTimeout => -49
  | .hardware status => (status.val + 1) * 128

@[simp] theorem ChannelRet.toInt_ok : ChannelRet.ok.toInt = 0 := rfl

theorem ChannelRet.toInt_eq_zero {r : ChannelRet} : r.toInt = 0 ↔ r = .ok := by
  cases r <;> simp [ChannelRet.toInt]
  omega

theorem ChannelRet.toInt_eq_timeout {r : ChannelRet} : r.toInt = -errTimeout ↔ r = .timeout := by
  cases r <;> simp [ChannelRet.toInt]
  omega

end FpgaSsd.Driver
