/-
# Tools.CfgOnline — writing a firmware image to the SPI flash

`file_change` turns an MCS file into the image `file_tmp.tmp`, `cfg_flash` erases the
flash and writes the image to it, and `main` calls one after the other. What the outside
answers (the files, the registers at each poll, the results of register writes) is an
argument; messages and delays are left out, with the status reads that only they show.

* `fgetsAll` — what the successive calls of `fgets` store;
* `convertLines`, `fileChange` — the image, and what is left of it behind an error;
* `cfgFlash`, `main` — the registers that are written. The wait behind each page has no
  timeout; `fuel` bounds its polls, and a run that uses it up answers nothing.
-/
import FpgaSsd.Lib.Bytes

namespace FpgaSsd.Tools

open FpgaSsd.Lib

set_option autoImplicit false

/-! ## The MCS file -/

abbrev bufSize : Nat := 50
abbrev emptyByte : UInt8 := 0xFF
abbrev maxFlashAddr : Nat := 0x1000000

/-- The digits are upper case; everything else counts as 0. -/
def hexDigit (c : UInt8) : Nat :=
  if 48 ≤ c ∧ c ≤ 57 then c.toNat - 48 else if 65 ≤ c ∧ c ≤ 70 then c.toNat - 65 + 10 else 0

/-- Two digits. -/
def hex2int (line : Mem) (i : Nat) : Nat := hexDigit (line i) * 16 + hexDigit (line (i + 1))

/-- The lines that `fgets (one_line, BUF_SIZE, f)` returns one after the other; `line` is
the line so far, and `room` what is left in the buffer beside the final 0. -/
def fgetsAll : List UInt8 → Nat → List UInt8 → List (List UInt8)
  | line, _, [] => if line = [] then [] else [line]
  | line, room, c :: rest =>
      if c = 10 ∨ room ≤ 1 then (line ++ [c]) :: fgetsAll [] (bufSize - 1) rest
      else fgetsAll (line ++ [c]) (room - 1) rest

/-- A line over the buffer; the bytes behind its 0, in the buffer and beyond, stay. -/
def storeLine (oneLine : Mem) (line : List UInt8) : Mem := fun i =>
  if h : i < line.length then line.get ⟨i, h⟩ else if i = line.length then 0 else oneLine i

def lengthOf (oneLine : Mem) : Nat := hex2int oneLine 1

/-- The bytes from `1` to `2 * length + 10`, two digits each. -/
def chkData (oneLine : Mem) : Nat :=
  ((List.range (lengthOf oneLine + 5)).map fun j => hex2int oneLine (1 + 2 * j)).sum % 256

structure Convert where
  highAddr : Nat
  currAddr : Nat
  /-- What was written to the image. -/
  image : List UInt8

/-- A data record: empty bytes up to its address, then its bytes as far as they are ahead. -/
def dataRecord (oneLine : Mem) (s : Convert) : Convert :=
  let lowAddr := hex2int oneLine 3 * 256 + hex2int oneLine 5
  let base := s.highAddr * 65536 + lowAddr
  let padded := s.image ++ List.replicate (base - s.currAddr) emptyByte
  let currAddr := max s.currAddr base
  let count := base + lengthOf oneLine - currAddr
  { s with
    currAddr := currAddr + count
    image := padded ++ (List.range count).map fun j => .ofNat (hex2int oneLine (9 + 2 * j)) }

inductive RecordType where
  | extended
  | data
  | endOfFile
  | unsupported
  deriving DecidableEq, Repr

def recordType (oneLine : Mem) : RecordType :=
  if oneLine 7 = 48 ∧ oneLine 8 = 52 then .extended
  else if oneLine 7 = 48 ∧ oneLine 8 = 48 then .data
  else if oneLine 7 = 48 ∧ oneLine 8 = 49 then .endOfFile
  else .unsupported

/-- The loop of `file_change`: what was converted, and whether it got to the end. -/
def convertLines : List (List UInt8) → Mem → Convert → Convert × Bool
  | [], _, s => (s, true)
  | line :: rest, oneLine, s =>
      let oneLine := storeLine oneLine line
      if chkData oneLine ≠ 0 then (s, false)
      else match recordType oneLine with
        | .extended =>
            convertLines rest oneLine { s with highAddr := hex2int oneLine 9 * 256 + hex2int oneLine 11 }
        | .data => convertLines rest oneLine (dataRecord oneLine s)
        | .endOfFile => (s, true)
        | .unsupported => (s, false)

/-- The files; `none` is a file that cannot be opened. -/
structure Files where
  mcs : Option (List UInt8)
  /-- `file_tmp.tmp` before the call. -/
  tmp : Option (List UInt8)
  creates : Bool
  /-- What is on the stack where `one_line` lies. -/
  stack : Mem

def Convert.initial : Convert := ⟨0, 0, []⟩

/-- What `file_change` returns, and `file_tmp.tmp` behind it. -/
def fileChange (f : Files) : Int × Option (List UInt8) :=
  match f.mcs with
  | none => (0, f.tmp)
  | some input =>
      if f.creates = false then (0, f.tmp)
      else
        let (s, done) := convertLines (fgetsAll [] (bufSize - 1) input) f.stack .initial
        if done then (0, some (s.image ++ List.replicate (maxFlashAddr - s.currAddr) emptyByte))
        else (0, some s.image)

/-! ## The SPI flash -/

abbrev spiAddrCtrl : Nat := 0x8040
abbrev spiRamStart : Nat := 0x8100
abbrev cmdWrite : Nat := 0x02
abbrev cmdErase : Nat := 0x04
abbrev maxLen : Nat := 256
abbrev spiTimeReadStatus : Nat := 5
abbrev spiTimeErase : Nat := 300
abbrev cfgOk : Int := 0
abbrev cfgReadStatusTimeout : Int := 1
abbrev cfgEraseTimeout : Int := 2
abbrev cfgNoFile : Int := 5
abbrev cfgParamError : Int := 6

/-- The two registers at one evaluation of a loop condition. -/
structure Poll where
  status : Nat
  ready : Nat

def Poll.busy (p : Poll) : Bool := p.status % 2 ≠ 0 || p.ready / 65536 % 16 ≠ 0

/-- What the card answers: the polls, and the result of each register write. -/
structure Card where
  polls : Nat → Poll
  answers : Nat → Int

/-- How often was polled, and the registers that were written. -/
structure Spi where
  polled : Nat
  log : List (Nat × Nat)

def Spi.initial : Spi := ⟨0, []⟩

def ssdRegWrite (card : Card) (addr value : Nat) (s : Spi) : Int × Spi :=
  (card.answers s.log.length, { s with log := s.log ++ [(addr, value)] })

/-- Poll until the card is not busy, with `n` seconds left: whether it timed out. -/
def waitStatus (card : Card) : Nat → Spi → Bool × Spi
  | n, s =>
      let busy := (card.polls s.polled).busy
      let s := { s with polled := s.polled + 1 }
      if busy then
        match n with
        | 0 => (true, s)
        | n + 1 => waitStatus card n s
      else (false, s)

/-- The same without a timeout; `false` when the fuel is used up. -/
def waitWritten (card : Card) : Nat → Spi → Bool × Spi
  | 0, s => (false, s)
  | n + 1, s =>
      let busy := (card.polls s.polled).busy
      let s := { s with polled := s.polled + 1 }
      if busy then waitWritten card n s else (true, s)

/-- The writes of `n` words from `i` on, and how many fail. -/
def spiWriteWords (card : Card) (buf : Mem) : Nat → Nat → Spi → Nat × Spi
  | 0, _, s => (0, s)
  | n + 1, i, s =>
      let (ret, s) := ssdRegWrite card (spiRamStart + 8 * i) (getLE buf (8 * i) 8) s
      let (errors, s) := spiWriteWords card buf n (i + 1) s
      (if ret ≠ 0 then errors + 1 else errors, s)

def spiWriteRam (card : Card) (buf : Mem) (writeCount : Nat) (s : Spi) : Nat × Spi :=
  spiWriteWords card buf ((writeCount + 7) / 8) 0 s

/-- The pages of the image, each over the buffer that held the last one. -/
def writePages (card : Card) (fuel : Nat) : List (List UInt8) → Mem → Nat → Spi → Bool × Spi
  | [], _, _, s => (true, s)
  | page :: rest, buf, start, s =>
      let buf := copyBytes buf 0 (fun i => page.getD i 0) 0 page.length
      let (_, s) := spiWriteRam card buf page.length s
      let (_, s) := ssdRegWrite card spiAddrCtrl (start ||| cmdWrite) s
      let (written, s) := waitWritten card fuel s
      if written then writePages card fuel rest buf (start + 256) s else (false, s)

/-- The image cut into the pages that `fread` returns. -/
def pagesOf (image : List UInt8) : List (List UInt8) := image.toChunks maxLen

/-- The answer of `cfg_flash`; `none` while it waits for a page to be written. -/
def cfgFlash (card : Card) (fuel : Nat) (buf : Mem) (bin : Option (List UInt8)) (s : Spi) : Option Int × Spi :=
  match bin with
  | none => (some (-cfgNoFile), s)
  | some image =>
      let (late, s) := waitStatus card spiTimeReadStatus s
      if late then (some (-cfgReadStatusTimeout), s)
      else
        let (_, s) := ssdRegWrite card spiAddrCtrl cmdErase s
        let (late, s) := waitStatus card spiTimeErase s
        if late then (some (-cfgEraseTimeout), s)
        else
          let (written, s) := writePages card fuel (pagesOf image) buf 0 s
          (if written then some cfgOk else none, s)

/-! ## The program -/

/-- What `main` is given: whether there is a file name, the files, whether the image can
be opened again, the card, and the stack where `buf` lies. -/
structure Started where
  named : Bool
  files : Files
  reopens : Bool
  card : Card
  buf : Mem

/-- The answer, the registers written, and `file_tmp.tmp` behind it. -/
def main (w : Started) (fuel : Nat) : Option Int × Spi × Option (List UInt8) :=
  if w.named then
    let (_, tmp) := fileChange w.files
    let (ret, s) := cfgFlash w.card fuel w.buf (if w.reopens then tmp else none) .initial
    -- a run that still waits has not removed the file
    (ret, s, if ret = none ∨ ret = some (-cfgNoFile) then tmp else none)
  else (some (-cfgParamError), .initial, w.files.tmp)

end FpgaSsd.Tools
