/-
# Tools.SsdUpdateCheck — the free blocks of a card after an update

`ssd_update_check` rebuilds the `use_flag`s of a channel from its ids, looks at the first page
of every free block, erases the blocks that are not empty, and flags those that stay so. What
the outside answers is an argument, as in `ssd_recover`; messages are left out.

* `rebuildUseFlags` — the flags of the blocks that the ids own;
* `countErrors` — the bits of a page that are counted as not erased;
* `scanBlock`, `scanBlocks` — one free block, and all of them;
* `updateTable` — the table that is handed to the hardware.
-/
import FpgaSsd.Tools.SsdRecover

namespace FpgaSsd.Tools.SsdUpdateCheck

open FpgaSsd.Lib FpgaSsd.Driver FpgaSsd.Api

set_option autoImplicit false

/-! ## Flags -/

/-- The blocks of the loops: all but those of the tables. -/
def dataBlocks : List Nat := (List.range' 10 8182).filter fun phyBlock => ¬ (4095 < phyBlock ∧ phyBlock < 4106)

def useFlag (eraseTable : Mem) (phyBlock : Nat) : Nat := tableEntry eraseTable phyBlock / 16384 % 2

def badFlag (eraseTable : Mem) (phyBlock : Nat) : Nat := tableEntry eraseTable phyBlock / 32768 % 2

/-- The blocks in use that are not bad. -/
def useFlagNum (eraseTable : Mem) : Nat :=
  dataBlocks.countP fun phyBlock => useFlag eraseTable phyBlock ≠ 0 ∧ badFlag eraseTable phyBlock = 0

/-- All flags are cleared, and those of five blocks set for each id. -/
def rebuildUseFlags (logicBlocks : List Nat) (addrTable eraseTable : Mem) : Mem :=
  logicBlocks.foldl (fun table logicBlock => markCorrectId logicBlock addrTable table)
    (dataBlocks.foldl (fun table phyBlock => setEntryUse table phyBlock 0) eraseTable)

/-! ## One page -/

abbrev pageWords : Nat := ssdPageSize / 4

/-- `data_buf[i]`, as the 32 bits that it has. -/
def dataBuf (pageBuf : Mem) (i : Nat) : Nat := getLE pageBuf (4 * i) 4

/-- A word that is not -1. -/
def isDirty (word : Nat) : Bool := word ≠ 0xffffffff

/-- The loop over `j`. Its step `shift_data>>1` is an expression and changes nothing. -/
def countBits (shiftData : Nat) : Nat → Nat → Nat
  | 0, errNum => errNum
  | j + 1, errNum => countBits shiftData j (if shiftData % 2 = 0 then errNum + 1 else errNum)

/-- One word, with `blk_stat` and `err_num` so far. -/
def countWord (pageBuf : Mem) (soFar : Bool × Nat) (i : Nat) : Bool × Nat :=
  if isDirty (dataBuf pageBuf i) then (true, countBits (dataBuf pageBuf i) 32 soFar.2) else soFar

/-- `blk_stat` and `err_num` behind the loop over the words. -/
def countErrors (pageBuf : Mem) : Bool × Nat := (List.range pageWords).foldl (countWord pageBuf) (false, 0)

/-! ## One block -/

/-- What the outside answers when the turn of a block comes: the requests, and the page in the
buffer behind each read. -/
structure BlockAnswer where
  first : OwnRequest
  firstPage : Mem
  erase : OwnRequest
  second : OwnRequest
  secondPage : Mem

/-- `SSD_rd_phy_block` has the checks of its siblings. -/
def ssdRdPhyBlock : Int → OwnRequest → Int := onChannel

/-- `erase_times++`, in 13 bits. -/
def countErase (eraseTable : Mem) (phyBlock : Nat) : Mem :=
  putLE eraseTable (2 * phyBlock) 2
    ((tableEntry eraseTable phyBlock + 1) % 8192 + tableEntry eraseTable phyBlock / 8192 * 8192)

/-- A free block: `none` is the `break`. What `SSD_erase_phy_block` and the second read
answer is not looked at. -/
def scanBlock (channel : Int) (a : BlockAnswer) (eraseTable : Mem) (phyBlock : Nat) : Option Mem :=
  if badFlag eraseTable phyBlock ≠ 0 ∨ useFlag eraseTable phyBlock ≠ 0 then some eraseTable
  else if ssdRdPhyBlock channel a.first % 128 ≠ 0 then none
  else if ((List.range pageWords).any fun i => isDirty (dataBuf a.firstPage i)) = false then some eraseTable
  else
    let eraseTable := countErase eraseTable phyBlock
    let errors := countErrors a.secondPage
    if errors.1 ∧ 128 < errors.2 then some (setBadFlag eraseTable phyBlock) else some eraseTable

/-- The loop over the blocks. -/
def scanBlocks (channel : Int) (answer : Nat → BlockAnswer) : List Nat → Mem → Mem
  | [], eraseTable => eraseTable
  | phyBlock :: rest, eraseTable =>
      match scanBlock channel (answer phyBlock) eraseTable phyBlock with
      | none => eraseTable
      | some eraseTable => scanBlocks channel answer rest eraseTable

/-! ## One channel -/

/-- A channel, the first blocks of its ids, and what the outside answers. -/
structure Update where
  channel : Int
  logicBlocks : List Nat
  readErasetable : Int
  eraseTable : Mem
  readAddrtable : Int
  addrTable : Mem
  blocks : Nat → BlockAnswer
  update : OwnRequest
  rereadErasetable : Int
  eraseTableNew : Mem

structure Updated where
  ret : Int
  checkPass : Bool
  /-- The erase table that is passed to `SSD_update_tables_to_ram`. -/
  written : Option Mem

def updateTable (u : Update) : Updated :=
  if u.readErasetable ≠ 0 then ⟨-1, false, none⟩
  else if u.readAddrtable ≠ 0 then ⟨-1, false, none⟩
  else
    let rebuilt := rebuildUseFlags u.logicBlocks u.addrTable u.eraseTable
    if u.logicBlocks.length * 5 ≠ useFlagNum rebuilt then ⟨-1, false, none⟩
    else
      let eraseTable := scanBlocks u.channel u.blocks dataBlocks rebuilt
      if ssdUpdateTablesToRam u.channel u.update ≠ ssdOk then ⟨-1, false, some eraseTable⟩
      else if u.rereadErasetable ≠ 0 then ⟨-1, false, some eraseTable⟩
      else if ((List.range (ssdMaxPhyblocksPerChannel * 2)).all fun i => u.eraseTableNew i == eraseTable i) = false then
        ⟨-1, false, some eraseTable⟩
      else ⟨0, true, some eraseTable⟩

end FpgaSsd.Tools.SsdUpdateCheck
