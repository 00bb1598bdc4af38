/-
# Driver.Device — the state of the card and of the driver, and its atomic actions

One `Channel` holds what the driver keeps per channel (semaphore, DMA buffer, hash
buckets, allocator, counters) and what the hardware holds behind it (`Flash`). An
action is one command, one section under a bucket lock, one access to a buffer or
one semaphore operation; everything between two actions is local to a thread.

* `Flash.exec` — what a command does: full effect when it is answered with success and
  took effect, any damage inside its own range when not;
* `Channel.perform` — the actions of one channel;
* `Device.perform` — the actions of the whole driver, by the thread that acts;
* `Device.performShared` — the same, with the DMA buffers where they lie in memory.

What the outcome of an action leaves open (the return value of a command, the
damage of one that fails, whether a copy from user space faults) is an `Outcome`.
-/
import FpgaSsd.Driver.Space
import FpgaSsd.Lib.Program
import Mathlib.Logic.Function.Basic

namespace FpgaSsd.Driver

open FpgaSsd.Lib

set_option autoImplicit false

/-! ## Hardware -/

/-- What lies behind the command register of a channel. `data` is the array of
logical pages by byte address; `page` are the physical pages that the table
commands address, an erased or unreadable one being `none`; `suspect` marks pages
whose program command reported success without taking effect. -/
structure Flash where
  data : Mem
  page : Nat → Option Mem
  suspect : Nat → Bool
  addrTable : Mem
  eraseTable : Mem

/-- The open choices of one action. -/
structure Outcome where
  ret : ChannelRet
  /-- A copy from or to user space, or an allocation, fails. -/
  failed : Bool
  /-- A command that is answered `SSD_OK` took effect. The answer alone does not say so: a
  program can fail unseen, the interrupt clears `error_ram` for a RAM table command whatever
  its status is, and the late interrupt of a command that timed out answers for the next one. -/
  taken : Bool
  /-- The pages that keep their content when an erase or a program fails. -/
  keep : Nat → Bool
  data : Mem
  kbuf : Mem
  addrTable : Mem
  eraseTable : Mem
  time : UInt64

/-- The first `n` bytes of a buffer. -/
def clip (n : Nat) (m : Mem) : Mem := fun i => if i < n then m i else 0

namespace Flash

/-- Overwrite `[offset, offset + n)`: with `new` when the command took effect, with
anything when it did not. -/
def fill (o : Outcome) (m : Mem) (offset n : Nat) (new damage : Mem) : Mem :=
  if o.ret = .ok ∧ o.taken = true then copyBytes m offset new 0 n else copyBytes m offset damage offset n

/-- A RAM table command is polled for: the interrupt came, or the loop ran out. -/
def polled {α : Type} (o : Outcome) (effect : α) : Option α :=
  if o.ret = .ok ∨ o.ret = .ramTimeout then some effect else none

/-- The effect of a command on the DMA buffer and the hardware; `none` when the
hardware cannot answer so. Table commands address one page, or the block of it. -/
def exec (cmd : Command) (o : Outcome) (kbuf : Mem) (f : Flash) : Option (Mem × Flash) :=
  let bytes := cmd.len * ssdPageSize
  -- every write and erase of logical blocks may remap and wear physical ones
  let worn : Flash := { f with addrTable := o.addrTable, eraseTable := o.eraseTable }
  match cmd.flag with
  | 0x0 =>
      let source : Mem := fun i => f.data (cmd.start * ssdPageSize + i)
      some (fill o kbuf 0 bytes source o.kbuf, f)
  | 0x1 => some (kbuf, { worn with data := fill o f.data (cmd.start * ssdPageSize) bytes kbuf o.data })
  | 0x2 =>
      some (kbuf, { worn with
        data := fill o f.data (cmd.start * ssdBlockSize) (cmd.len * ssdBlockSize) (fun _ => 0xff)
          o.data })
  | 0x3 => polled o (kbuf, { f with addrTable := fill o f.addrTable 0 bytes kbuf o.addrTable })
  | 0x7 => polled o (kbuf, { f with eraseTable := fill o f.eraseTable 0 bytes kbuf o.eraseTable })
  | 0x8 => polled o (fill o kbuf 0 bytes f.addrTable o.kbuf, f)
  | 0x9 => polled o (fill o kbuf 0 bytes f.eraseTable o.kbuf, f)
  | 0x4 =>
      if o.ret = .ok then
        match f.page cmd.start, f.suspect cmd.start with
        | some m, false => some (copyBytes kbuf 0 m 0 ssdPageSize, f)
        | _, _ => none
      else
        some (copyBytes kbuf 0 o.kbuf 0 ssdPageSize,
          { f with suspect := Function.update f.suspect cmd.start false })
  | 0x5 =>
      let done := decide (o.ret = .ok) && o.taken
      let content :=
        if done then some (clip ssdPageSize kbuf)
        else if o.keep cmd.start then f.page cmd.start else none
      some (kbuf, { f with
        page := Function.update f.page cmd.start content
        suspect := Function.update f.suspect cmd.start (decide (o.ret = .ok) && !o.taken) })
  | 0x6 =>
      let inBlock := fun p => p / ssdPagesPerBlock = cmd.start / ssdPagesPerBlock
      some (kbuf, { f with
        page := fun p => if inBlock p ∧ (o.ret = .ok ∨ o.keep p = false) then none else f.page p
        suspect := fun p => if inBlock p ∧ o.ret = .ok then false else f.suspect p })
  | _ => some (kbuf, f)

theorem polled_eq_some {α : Type} {o : Outcome} {effect result : α} :
    polled o effect = some result ↔ (o.ret = .ok ∨ o.ret = .ramTimeout) ∧ effect = result := by
  rw [polled, Option.ite_none_right_eq_some, Option.some.injEq]

end Flash

/-! ## One channel -/

structure HashHead where
  count : Int
  first : List HashNode

/-- The counters that the driver publishes for a channel. -/
structure ChannelStat where
  readCount : UInt32
  writeCount : UInt32
  deleteCount : UInt32
  freeBlocks : Int

structure Channel where
  /-- The thread that holds `channel_ctl[c].sema`. -/
  sema : Option Nat
  /-- The command word that was issued and has not completed. -/
  outstanding : Option Nat
  /-- `kbuftable_cpu[c]`, by the offset of a byte. The buffer of the next channel lies
  `ssdBufferSize` bytes behind it, see `Device.performShared`. -/
  kbuf : Mem
  flash : Flash
  hash : Nat → HashHead
  space : ChannelSpace
  stat : ChannelStat

/-- Actions on one channel. -/
inductive ChanAct where
  | issue (cmd : Nat)
  | await
  | copyFromUser (src : Mem) (n : Nat)
  | copyToUser (n : Nat)
  | modKbuf (f : Mem → Mem)
  | readKbuf
  | getIdInfo (id : BlockId)
  | setIdInfo (id : BlockId) (info : IdInfo)
  | delIdInfo (id : BlockId)
  | copyBucket (b : Nat)
  | initBucket (b : Nat)
  | freeBucket (b : Nat)
  | space (f : ChannelSpace → Option (Int × ChannelSpace))
  | stat (f : ChannelStat → ChannelSpace → ChannelStat)

@[reducible] def ChanAct.Reply : ChanAct → Type
  | .await => Int
  | .copyFromUser .. => Bool
  | .copyToUser _ => Option Mem
  | .readKbuf => Mem
  | .getIdInfo _ => Option IdInfo
  | .setIdInfo .. => Int
  | .delIdInfo _ => Option IdInfo
  | .copyBucket _ => List HashNode
  | .space _ => Int
  | _ => Unit

/-- The first node of a bucket with the id. -/
def lookup (nodes : List HashNode) (id : BlockId) : Option IdInfo :=
  (nodes.find? fun node => node.id = id).map HashNode.info

namespace HashHead

def insert (h : HashHead) (node : HashNode) : HashHead := ⟨h.count + 1, node :: h.first⟩

/-- Unlink the first node with the id. -/
def delete (h : HashHead) (id : BlockId) : HashHead :=
  ⟨h.count - 1, h.first.eraseP fun node => node.id = id⟩

end HashHead

namespace Channel

def setHead (c : Channel) (b : Nat) (h : HashHead) : Channel :=
  { c with hash := Function.update c.hash b h }

/-- All nodes of the channel, bucket by bucket. -/
def nodes (c : Channel) : List HashNode :=
  (List.range ssdHashSize).flatMap fun b => (c.hash b).first

def perform (a : ChanAct) (o : Outcome) (c : Channel) : Option (a.Reply × Channel) :=
  match a with
  | .issue cmd => some ((), { c with outstanding := some cmd })
  | .await => do
      let cmd ← c.outstanding
      let (kbuf, flash) ← Flash.exec (Command.ofWord cmd) o c.kbuf c.flash
      pure (o.ret.toInt, { c with outstanding := none, kbuf := kbuf, flash := flash })
  | .copyFromUser src n =>
      some (o.failed, { c with kbuf := copyBytes c.kbuf 0 (if o.failed then o.kbuf else src) 0 n })
  | .copyToUser n => some (if o.failed then none else some (clip n c.kbuf), c)
  | .modKbuf f => some ((), { c with kbuf := f c.kbuf })
  | .readKbuf => some (c.kbuf, c)
  | .getIdInfo id => some (lookup (c.hash (idHash id)).first id, c)
  -- a slab allocation that fails is dereferenced, so the thread never continues
  | .setIdInfo id info =>
      if o.failed then none
      else some (ssdOk, c.setHead (idHash id) ((c.hash (idHash id)).insert ⟨id, info⟩))
  | .delIdInfo id =>
      match lookup (c.hash (idHash id)).first id with
      | none => some (none, c)
      | some info => some (some info, c.setHead (idHash id) ((c.hash (idHash id)).delete id))
  | .copyBucket b => some ((c.hash b).first, c)
  | .initBucket b => some ((), c.setHead b ⟨0, []⟩)
  | .freeBucket b => some ((), c.setHead b { c.hash b with first := [] })
  | .space f => (f c.space).map fun (r, space) => (r, { c with space := space })
  | .stat f => some ((), { c with stat := f c.stat c.space })

/-- What a completion does. -/
theorem perform_await {o : Outcome} {ch ch' : Channel} {r : Int}
    (step : ch.perform .await o = some (r, ch')) :
    ∃ cmd kbuf flash, ch.outstanding = some cmd ∧
      Flash.exec (Command.ofWord cmd) o ch.kbuf ch.flash = some (kbuf, flash) ∧
      r = o.ret.toInt ∧ ch' = { ch with outstanding := none, kbuf := kbuf, flash := flash } := by
  simp only [perform, Option.bind_eq_bind, Option.pure_def, Option.bind_eq_some_iff] at step
  obtain ⟨cmd, issued, ⟨kbuf, flash⟩, done, eq⟩ := step
  cases eq
  exact ⟨cmd, kbuf, flash, issued, done, rfl, rfl⟩

end Channel

/-! ## The driver -/

structure Device where
  ch : Nat → Channel
  /-- `g_opened_flag` of the driver. -/
  opened : Bool
  flushSema : Option Nat
  kbufFlush : Mem
  metadata : SsdMetadata
  metaPos : MetaPosition

/-- Actions of the driver. -/
inductive Act where
  | chan (c : Nat) (a : ChanAct)
  | down (c : Nat)
  | up (c : Nat)
  | downFlush
  | upFlush
  | initFlushSema
  | getOpened
  | setOpened (flag : Bool)
  | getMeta
  | modMeta (f : SsdMetadata → SsdMetadata)
  | getMetaPos
  | modMetaPos (f : MetaPosition → MetaPosition)
  | readFlush
  | modFlush (f : Mem → Mem)
  | copyFlushToUser (n : Nat)
  | copyParam
  | kmalloc
  | gettime

@[reducible] def Act.Reply : Act → Type
  | .chan _ a => a.Reply
  | .getOpened => Bool
  | .getMeta => SsdMetadata
  | .getMetaPos => MetaPosition
  | .readFlush => Mem
  | .copyFlushToUser _ => Option Mem
  | .copyParam => Bool
  | .kmalloc => Bool
  | .gettime => UInt64
  | _ => Unit

abbrev Drv (α : Type) := Program Act Act.Reply α

namespace Device

def setCh (d : Device) (c : Nat) (ch : Channel) : Device :=
  { d with ch := Function.update d.ch c ch }

@[simp] theorem setCh_ch_same (d : Device) (c : Nat) (ch : Channel) : (d.setCh c ch).ch c = ch :=
  Function.update_self ..

@[simp] theorem setCh_ch_other (d : Device) {c c' : Nat} (ch : Channel) (apart : c' ≠ c) :
    (d.setCh c ch).ch c' = d.ch c' := Function.update_of_ne apart ..

@[simp] theorem setCh_setCh (d : Device) (c : Nat) (ch ch' : Channel) :
    (d.setCh c ch).setCh c ch' = d.setCh c ch' := by
  simp only [setCh, Function.update_idem]

theorem setCh_self (d : Device) (c : Nat) : d.setCh c (d.ch c) = d :=
  congrArg (fun ch => { d with ch := ch }) (Function.update_eq_self c d.ch)

/-- The actions of thread `tid`. A semaphore is taken only when it is free. -/
def perform (tid : Nat) (a : Act) (o : Outcome) (d : Device) : Option (a.Reply × Device) :=
  match a with
  | .chan c a => ((d.ch c).perform a o).map fun (r, ch) => (r, d.setCh c ch)
  | .down c =>
      if (d.ch c).sema = none then some ((), d.setCh c { d.ch c with sema := some tid }) else none
  | .up c => some ((), d.setCh c { d.ch c with sema := none })
  | .downFlush => if d.flushSema = none then some ((), { d with flushSema := some tid }) else none
  | .upFlush => some ((), { d with flushSema := none })
  | .initFlushSema => some ((), { d with flushSema := none })
  | .getOpened => some (d.opened, d)
  | .setOpened flag => some ((), { d with opened := flag })
  | .getMeta => some (d.metadata, d)
  | .modMeta f => some ((), { d with metadata := f d.metadata })
  | .getMetaPos => some (d.metaPos, d)
  | .modMetaPos f => some ((), { d with metaPos := f d.metaPos })
  | .readFlush => some (d.kbufFlush, d)
  | .modFlush f => some ((), { d with kbufFlush := f d.kbufFlush })
  | .copyFlushToUser n => some (if o.failed then none else some (clip n d.kbufFlush), d)
  | .copyParam => some (o.failed, d)
  | .kmalloc => some (o.failed, d)
  | .gettime => some (o.time, d)

end Device

/-! ## Adjacent buffers -/

abbrev ssdBufferSize : Nat := 10 * 1024 * 1024

/-- The bytes of the DMA buffer that the hardware reads or writes for a command. -/
def Command.dma (cmd : Command) : Nat :=
  match cmd.flag with
  | 0x2 | 0x6 => 0
  | 0x4 | 0x5 => ssdPageSize
  | _ => cmd.len * ssdPageSize

/-- How far into the DMA buffer an action gets. The driver's own accesses are to single pages
and to tables, at the start of the buffer. -/
def Channel.reach (c : Channel) : ChanAct → Nat
  | .await =>
      match c.outstanding with
      | some cmd => (Command.ofWord cmd).dma
      | none => 0
  | .copyFromUser _ n | .copyToUser n => n
  | _ => 0

namespace Device

/-- The memory behind `ssd_buffer_start`: the buffers of the channels, and behind the last of
them `kbuf_flush`. -/
def buffers (d : Device) : Mem := fun i =>
  if i < ssdBufferSize * ssdMaxChannel then (d.ch (i / ssdBufferSize)).kbuf (i % ssdBufferSize)
  else d.kbufFlush (i - ssdBufferSize * ssdMaxChannel)

def setBuffers (d : Device) (m : Mem) : Device := { d with
  ch := fun c => { d.ch c with
    kbuf := fun i => if c < ssdMaxChannel ∧ i < ssdBufferSize then m (ssdBufferSize * c + i) else (d.ch c).kbuf i }
  kbufFlush := fun i => m (ssdBufferSize * ssdMaxChannel + i) }

/-- An action that gets past the end of its buffer goes on in the ones behind it. -/
def performShared (tid : Nat) (a : Act) (o : Outcome) (d : Device) : Option (a.Reply × Device) :=
  match a with
  | .chan c a =>
      if (d.ch c).reach a ≤ ssdBufferSize then perform tid (.chan c a) o d
      else
        let start := ssdBufferSize * c
        (Channel.perform a o { d.ch c with kbuf := fun i => d.buffers (start + i) }).map fun (r, ch) =>
          (r, (d.setCh c { ch with kbuf := (d.ch c).kbuf }).setBuffers fun i =>
            if i < start then d.buffers i else ch.kbuf (i - start))
  | a => perform tid a o d

/-- The action stays inside the buffer of its channel. -/
def Fits (d : Device) : Act → Prop
  | .chan c a => (d.ch c).reach a ≤ ssdBufferSize
  | _ => True

/-- Inside its own buffer nothing of the others is seen. -/
theorem performShared_of_fits {tid : Nat} {a : Act} {d : Device} (fits : d.Fits a) (o : Outcome) :
    performShared tid a o d = perform tid a o d := by
  cases a with
  | chan c a => exact if_pos fits
  | _ => rfl

end Device

/-! ## Single actions as programs -/

namespace Drv

def chan (c : Nat) (a : ChanAct) : Drv a.Reply := Program.perform (Act.chan c a)

def down (c : Nat) : Drv Unit := Program.perform (Act.down c)

def up (c : Nat) : Drv Unit := Program.perform (Act.up c)

def modKbuf (c : Nat) (f : Mem → Mem) : Drv Unit := chan c (.modKbuf f)

def readKbuf (c : Nat) : Drv Mem := chan c .readKbuf

def getMeta : Drv SsdMetadata := Program.perform Act.getMeta

def modMeta (f : SsdMetadata → SsdMetadata) : Drv Unit := Program.perform (Act.modMeta f)

def getMetaPos : Drv MetaPosition := Program.perform Act.getMetaPos

def modMetaPos (f : MetaPosition → MetaPosition) : Drv Unit := Program.perform (Act.modMetaPos f)

def readFlush : Drv Mem := Program.perform Act.readFlush

def modFlush (f : Mem → Mem) : Drv Unit := Program.perform (Act.modFlush f)

end Drv

/-- `channel_op`: hand the command to the hardware and wait for its completion. -/
def channelOp (channel : Nat) (cmd : Nat) : Drv Int := do
  Drv.chan channel (.issue cmd)
  Drv.chan channel .await

end FpgaSsd.Driver
