/-
# Theory.Discipline — the semaphore discipline of the driver's functions

`Held` is what a thread holds: channel semaphores, the flush semaphore, and the
commands it has issued and not awaited. `locking strict` is the protocol: a
semaphore is taken only when it is not held and given back only when it is and no
command is out, a completion is awaited only after a command; with `strict`,
commands and accesses to a DMA buffer also need the semaphore of the channel, and
their data fits in the buffer.

Every function of the driver obeys the plain protocol, so that alone on the
device it has a run (`exists_run`); the requests that arrive while the card is
open obey the strict one, apart from `ssd_read_flush` on a page with a valid
record.
-/
import FpgaSsd.Theory.Alone
import FpgaSsd.Theory.CommandWord
import FpgaSsd.Lib.Typestate

namespace FpgaSsd.Theory

open FpgaSsd.Lib FpgaSsd.Driver

set_option autoImplicit false

/-- What a thread holds. -/
structure Held where
  sema : Nat → Bool
  flush : Bool
  issued : Nat → Bool

namespace Held

/-- Nothing. -/
def none : Held := ⟨fun _ => false, false, fun _ => false⟩

def take (h : Held) (c : Nat) : Held := { h with sema := Function.update h.sema c true }

end Held

/-- Actions that touch the hardware or the DMA buffer of a channel. -/
def usesChannel : ChanAct → Bool
  | .issue _ | .await | .copyFromUser .. | .copyToUser _ | .modKbuf _ | .readKbuf => true
  | _ => false

/-- Actions of one kind with no condition of their own, apart from allocators that
must answer. -/
abbrev ChanAct.Plain : ChanAct → Prop
  | .issue _ | .await | .copyFromUser .. | .copyToUser _ => False
  | .space f => ∀ s, (f s).isSome
  | _ => True

/-- The data of the command fits in a DMA buffer. -/
def SmallCommand (cmd : Nat) : Prop := (Command.ofWord cmd).dma ≤ ssdBufferSize

/-- `expects` is what is promised about replies: a command need not be small if nobody
promises that it is issued. -/
def Held.allowed (strict : Bool) (expects : (a : Act) → a.Reply → Prop) (h : Held) : Act → Prop
  | .chan c a => (strict = true → usesChannel a = true → h.sema c = true) ∧
      match a with
      | .issue cmd => h.issued c = false ∧ (strict = true → expects (.chan c (.issue cmd)) () → SmallCommand cmd)
      | .await => h.issued c = true
      | .copyFromUser _ n | .copyToUser n => strict = true → n ≤ ssdBufferSize
      | a => ChanAct.Plain a
  | .down c => h.sema c = false
  | .up c => h.sema c = true ∧ h.issued c = false
  | .downFlush => h.flush = false
  | .upFlush => h.flush = true
  | .initFlushSema => strict = false ∧ h.flush = false
  | _ => True

def Held.next (h : Held) : Act → Held
  | .chan c (.issue _) => { h with issued := Function.update h.issued c true }
  | .chan c .await => { h with issued := Function.update h.issued c false }
  | .down c => { h with sema := Function.update h.sema c true }
  | .up c => { h with sema := Function.update h.sema c false }
  | .downFlush => { h with flush := true }
  | .upFlush => { h with flush := false }
  | _ => h

/-- The semaphore protocol. -/
def locking (strict : Bool) (expects : (a : Act) → a.Reply → Prop) : Typestate Act Act.Reply Held :=
  ⟨Held.allowed strict expects, Held.next, expects⟩

section Functions

variable {strict : Bool} {expects : (a : Act) → a.Reply → Prop} {h : Held} {c : Nat} {α : Type}

/-- `p` obeys the protocol from `h` and returns to `h`. -/
abbrev Locks (strict : Bool) (expects : (a : Act) → a.Reply → Prop) (p : Drv α) (h : Held) : Prop :=
  p.Returns (locking strict expects) h

/-- A command may be issued on the channel. -/
structure Ready (strict : Bool) (h : Held) (c : Nat) : Prop where
  sema : strict = true → h.sema c = true
  idle : h.issued c = false

/-- No semaphore and no command is held. -/
structure Free (h : Held) : Prop where
  sema : ∀ c, h.sema c = false
  idle : ∀ c, h.issued c = false

theorem Free.ready (free : Free h) (c : Nat) : Ready strict (h.take c) c :=
  ⟨fun _ => Function.update_self .., free.idle c⟩

theorem Free.plain (free : Free h) (c : Nat) : Ready false h c :=
  ⟨fun isStrict => absurd isStrict Bool.false_ne_true, free.idle c⟩

/-- The commands that the driver builds are small by their length. -/
theorem smallCommand {start len flag : Nat} (short : len % 2 ^ 11 ≤ 1280) : SmallCommand (cmdValue start len flag) := by
  have len_eq := cmdValue_len start len flag
  unfold SmallCommand Command.dma
  split
  · exact Nat.zero_le _
  · exact Nat.zero_le _
  · decide
  · decide
  · rw [len_eq]
    simp only [ssdPageSize, ssdBufferSize]
    omega

/-- A command on the channel, and the promise that it was issued. -/
theorem channelOp_obeys (ready : Ready strict h c) {cmd : Nat}
    (small : strict = true → expects (.chan c (.issue cmd)) () → SmallCommand cmd) :
    (channelOp c cmd).Obeys (locking strict expects)
      (fun _ h' => h' = h ∧ expects (.chan c (.issue cmd)) ()) h := by
  refine ⟨⟨fun isStrict _ => ready.sema isStrict, ready.idle, small⟩, fun _ promised => ?_⟩
  refine ⟨⟨fun isStrict _ => ready.sema isStrict, Function.update_self ..⟩, fun _ _ => ?_⟩
  have restored : Function.update (Function.update h.issued c true) c false = h.issued := by
    rw [Function.update_idem, ← ready.idle, Function.update_eq_self]
  exact ⟨congrArg (fun issued => { h with issued := issued }) restored, promised⟩

theorem channelOp_locks (ready : Ready strict h c) {cmd : Nat} (small : SmallCommand cmd) :
    Locks strict expects (channelOp c cmd) h :=
  (channelOp_obeys ready fun _ _ => small).weaken fun _ _ after => after.1

/-- Copies between user space and the buffer. -/
theorem copy_locks {a : ChanAct} (ready : Ready strict h c)
    (copy : (∃ src n, a = .copyFromUser src n ∧ (strict = true → n ≤ ssdBufferSize)) ∨
      ∃ n, a = .copyToUser n ∧ (strict = true → n ≤ ssdBufferSize)) : Locks strict expects (Drv.chan c a) h := by
  rcases copy with ⟨src, n, rfl, fits⟩ | ⟨n, rfl, fits⟩
  · exact Program.Returns.perform ⟨fun isStrict _ => ready.sema isStrict, fits⟩ rfl
  · exact Program.Returns.perform ⟨fun isStrict _ => ready.sema isStrict, fits⟩ rfl

/-- An action of the channel that is not a command. -/
theorem chan_locks {a : ChanAct} (ready : Ready strict h c) (plain : ChanAct.Plain a) :
    Locks strict expects (Drv.chan c a) h := by
  refine Program.Returns.perform ⟨fun isStrict _ => ready.sema isStrict, ?_⟩ ?_
  · cases a <;> first | exact plain | exact plain.elim
  · cases a <;> first | rfl | exact plain.elim

/-- A section under a bucket lock, or on the counters, needs no semaphore. -/
theorem local_locks {a : ChanAct} (off : usesChannel a = false) (plain : ChanAct.Plain a) :
    Locks strict expects (Drv.chan c a) h := by
  refine Program.Returns.perform ⟨fun _ uses => absurd uses (by simp [off]), ?_⟩ ?_
  · cases a <;> first | exact plain | cases off
  · cases a <;> first | rfl | cases off

theorem withSema_locks {body : Drv α} (free : Free h)
    (inner : Locks strict expects body (h.take c)) :
    Locks strict expects (Drv.withSema c body) h := by
  have restored : ({ h with sema := Function.update (Function.update h.sema c true) c false } :
      Held) = h := by
    rw [Function.update_idem, ← free.sema c, Function.update_eq_self]
  refine ⟨free.sema c, fun _ _ => ?_⟩
  refine Program.Obeys.bind (p := body) (inner.weaken fun ret h' same => ?_)
  subst same
  exact ⟨⟨Function.update_self .., free.idle c⟩, fun _ _ => restored⟩

/-! ## Requests -/

theorem setIdInfo_locks (id : BlockId) (info : IdInfo) :
    Locks strict expects (Drv.setIdInfo id info) h := local_locks rfl trivial

theorem deleteLogicBlock_locks (info : IdInfo) :
    Locks strict expects (Drv.deleteLogicBlock info) h :=
  (local_locks rfl fun _ => rfl).bind fun _ => rfl

theorem writeRetry_locks (ready : Ready strict h c) {writeCmd eraseCmd : Nat} (write : SmallCommand writeCmd)
    (erase : SmallCommand eraseCmd) (n : Nat) (ret : Int) :
    Locks strict expects (writeRetry c writeCmd eraseCmd n ret) h := by
  induction n generalizing ret with
  | zero => rfl
  | succ n ih =>
      refine (channelOp_locks ready write).bind fun ret => ?_
      split
      · rfl
      refine (channelOp_locks ready erase).bind fun erased => ?_
      split
      · rfl
      · exact ih ret

theorem ssdIdWriteBody_locks (ready : Ready strict h c) (t : BlockType) {p : WriteParam} (short : p.len ≤ 5) :
    Locks strict expects (ssdIdWriteBody c t p) h := by
  have erase : ∀ {start}, SmallCommand (cmdValue start p.len flagErase) := smallCommand (by omega)
  have write : ∀ {start}, SmallCommand (cmdValue start (p.len * ssdPagesPerBlock) flagWrite) :=
    smallCommand (by simp only [ssdPagesPerBlock]; omega)
  refine (local_locks rfl trivial).bind fun known => ?_
  split
  · rfl
  refine (local_locks rfl fun s => ssdAllocLogicBlock_isSome s t).bind fun index => ?_
  split
  · rfl
  refine (local_locks rfl trivial).bind fun _ => (local_locks rfl trivial).bind fun _ => ?_
  have fits : strict = true → p.len * ssdBlockSize ≤ ssdBufferSize := by
    simp only [ssdBlockSize, ssdBufferSize]
    omega
  refine (copy_locks ready (.inl ⟨_, _, rfl, fits⟩)).bind fun failed => ?_
  split
  · exact (deleteLogicBlock_locks _).bind fun _ => rfl
  refine (writeRetry_locks ready write erase ..).bind fun ret => ?_
  split
  · exact (deleteLogicBlock_locks _).bind fun _ => rfl
  refine (setIdInfo_locks ..).bind fun ret => ?_
  split
  · exact (channelOp_locks ready erase).bind fun _ => (deleteLogicBlock_locks _).bind fun _ => rfl
  · rfl

theorem ssdIdWrite_locks (free : Free h) (p : WriteParam) :
    Locks strict expects (ssdIdWrite p) h := by
  simp only [ssdIdWrite]
  split
  · rename_i len
    exact withSema_locks free (ssdIdWriteBody_locks (free.ready _) _ (len ▸ BlockType.size_le _))
  split
  · rename_i len
    exact withSema_locks free (ssdIdWriteBody_locks (free.ready _) _ (len ▸ BlockType.size_le _))
  · rfl

/-- What the read asks for fits in a DMA buffer: its command, whose length has 11 bits, and its
copy, whose size has 32. -/
def SmallRead (p : ReadParam) : Prop :=
  p.len % 2 ^ 11 ≤ 1280 ∧ p.len * ssdPageSize % 2 ^ 32 ≤ ssdBufferSize

theorem ssdIdRead_locks (free : Free h) (p : ReadParam)
    (fits : strict = true → ∀ c cmd, expects (.chan c (.issue cmd)) () → SmallRead p) :
    Locks strict expects (ssdIdRead p) h := by
  refine withSema_locks free ((local_locks rfl trivial).bind fun known => ?_)
  have ready : Ready strict (h.take (id2channel p.id)) (id2channel p.id) := free.ready _
  cases known with
  | none => rfl
  | some info =>
      simp only
      split
      · rfl
      refine (local_locks rfl trivial).bind fun _ => Program.Obeys.bind ?_
      refine (channelOp_obeys ready fun isStrict promised => smallCommand (fits isStrict _ _ promised).1).weaken ?_
      rintro ret h' ⟨rfl, promised⟩
      split
      · rfl
      refine Program.Returns.bind (copy_locks ready (.inr ⟨_, rfl, fun isStrict => (fits isStrict _ _ promised).2⟩))
        fun copied => ?_
      cases copied <;> rfl

theorem ssdIdDelete_locks (free : Free h) (id : BlockId) :
    Locks strict expects (ssdIdDelete id) h := by
  refine withSema_locks free ((local_locks rfl trivial).bind fun found => ?_)
  have ready : Ready strict (h.take (id2channel id)) (id2channel id) := free.ready _
  cases found with
  | none => rfl
  | some info =>
      simp only
      split
      · exact (setIdInfo_locks ..).bind fun _ => rfl
      have short := info.len.size_le
      refine (local_locks rfl trivial).bind fun _ =>
        (channelOp_locks ready (smallCommand (by omega))).bind fun ret => ?_
      split
      · exact (setIdInfo_locks ..).bind fun _ => rfl
      · exact (deleteLogicBlock_locks _).bind fun _ => (local_locks rfl trivial).bind fun _ => rfl

theorem ssdTableRead_locks (free : Free h) (p : TableParam) :
    Locks strict expects (ssdTableRead p) h := by
  have ready : Ready strict (h.take p.channel) p.channel := free.ready _
  refine withSema_locks free ((channelOp_locks ready (smallCommand (by decide))).bind fun ret => ?_)
  split
  · rfl
  refine (copy_locks ready (.inr ⟨_, rfl, fun _ => by decide⟩)).bind fun copied => ?_
  cases copied <;> rfl

theorem findBadBlocks_locks (ready : Ready strict h c) (block start n : Nat) :
    Locks strict expects (findBadBlocks c block start n) h := by
  induction n generalizing start with
  | zero => rfl
  | succ n ih => exact (channelOp_locks ready (smallCommand (by decide))).bind fun ret => (ih _).bind fun _ => rfl

theorem markBadTables_locks (ready : Ready strict h c) (block : Nat) (blocks : List Nat) :
    Locks strict expects (markBadTables c block blocks) h := by
  refine (channelOp_locks ready (smallCommand (by decide))).bind fun ret => ?_
  split
  · rfl
  refine (chan_locks ready trivial).bind fun addr =>
    (channelOp_locks ready (smallCommand (by decide))).bind fun ret => ?_
  split
  · rfl
  · exact (chan_locks ready trivial).bind fun _ => channelOp_locks ready (smallCommand (by decide))

theorem kmalloc_locks : Locks strict expects (Program.perform Act.kmalloc) h :=
  Program.Returns.perform trivial rfl

theorem markBadId_locks (ready : Ready strict h c) (id : BlockId) :
    Locks strict expects (markBadId c id) h := by
  refine (local_locks rfl trivial).bind fun known => ?_
  cases known with
  | none => rfl
  | some info =>
      refine kmalloc_locks.bind fun null => ?_
      split
      · rfl
      split
      · rfl
      refine (findBadBlocks_locks ready ..).bind fun blocks => ?_
      split
      · rfl
      refine (local_locks rfl trivial).bind fun found => ?_
      cases found with
      | none => rfl
      | some info' =>
          have short := info.len.size_le
          refine (channelOp_locks ready (smallCommand (by omega))).bind fun ret => ?_
          split
          · exact (setIdInfo_locks ..).bind fun _ => rfl
          · exact (deleteLogicBlock_locks _).bind fun _ => markBadTables_locks ready ..

theorem ssdMarkBadBlock_locks (free : Free h) (p : MarkBadParam) :
    Locks strict expects (ssdMarkBadBlock p) h := by
  simp only [ssdMarkBadBlock]
  split
  · exact withSema_locks free (markBadId_locks (free.ready _) _)
  split
  · refine withSema_locks free (kmalloc_locks.bind fun null => ?_)
    split
    · rfl
    · exact markBadTables_locks (free.ready _) ..
  · rfl

theorem ssdMarkEraseCount_locks (free : Free h) (p : MarkEraseCountParam) :
    Locks strict expects (ssdMarkEraseCount p) h := by
  have ready : Ready strict (h.take p.channel) p.channel := free.ready _
  simp only [ssdMarkEraseCount]
  split
  · rfl
  split
  · rfl
  refine kmalloc_locks.bind fun null => ?_
  split
  · rfl
  refine withSema_locks free ((Program.Returns.perform trivial rfl).bind fun failed => ?_)
  split
  · rfl
  refine (channelOp_locks ready (smallCommand (by decide))).bind fun ret => ?_
  split
  · rfl
  · exact (chan_locks ready trivial).bind fun _ => channelOp_locks ready (smallCommand (by decide))

/-! ## Flush -/

/-- A loop over items that returns the first error. -/
theorem errorLoop_locks {body : Nat → Drv Int} (items : List Nat)
    (each : ∀ i, Locks strict expects (body i) h) :
    Locks strict expects (Program.firstSome (fun i => do
      let ret ← body i
      pure (if ret ≠ ssdOk then some ret else none)) items) h :=
  Program.Returns.firstSome items fun i _ => (each i).bind fun _ => rfl

/-- Taking the answer of such a loop as a return value. -/
theorem answer_locks {loop : Drv (Option Int)} (inner : Locks strict expects loop h) :
    Locks strict expects (do
      match ← loop with
      | some ret => pure ret
      | none => pure ssdOk) h :=
  inner.bind fun r => by cases r <;> rfl

theorem copyRamTables_locks (free : Free h) : Locks strict expects copyRamTables h := by
  refine errorLoop_locks _ fun channel => withSema_locks free ?_
  have ready : Ready strict (h.take channel) channel := free.ready _
  refine (channelOp_locks ready (smallCommand (by decide))).bind fun ret => ?_
  split
  · rfl
  refine (chan_locks ready trivial).bind fun addr =>
    (Program.Returns.perform trivial rfl).bind fun _ =>
    (channelOp_locks ready (smallCommand (by decide))).bind fun ret => ?_
  split
  · rfl
  · exact (chan_locks ready trivial).bind fun erase =>
      (Program.Returns.perform trivial rfl).bind fun _ => rfl

theorem copyIdBuckets_locks (channel : Nat) (buckets : List Nat) (n : Nat) :
    Locks strict expects (copyIdBuckets channel buckets n) h := by
  induction buckets generalizing n with
  | nil => rfl
  | cons b rest ih =>
      exact (local_locks rfl trivial).bind fun nodes =>
        (Program.Returns.perform trivial rfl).bind fun _ => ih _

theorem copyIdHash_locks : Locks strict expects copyIdHash h := by
  have channels : ∀ (l : List Nat) (n : Nat), Locks strict expects (copyIdChannels l n) h := by
    intro l
    induction l with
    | nil => exact fun n => rfl
    | cons channel rest ih => exact fun n => (copyIdBuckets_locks ..).bind fun _ => ih _
  exact channels _ 0

theorem onReserveBlock_locks (free : Free h) {pos : Nat} {body : Nat → Nat → Drv Int}
    (inner : ∀ c phy, Ready strict (h.take c) c → Locks strict expects (body c phy) (h.take c)) :
    Locks strict expects (onReserveBlock pos body) h := by
  simp only [onReserveBlock]
  split
  · rfl
  · exact withSema_locks free (inner _ _ (free.ready _))

theorem onPages_locks {body : Nat → Drv Int} (each : ∀ i, Locks strict expects (body i) h) :
    Locks strict expects (onPages body) h := answer_locks (errorLoop_locks _ each)

theorem eraseOneReserveBlock_locks (free : Free h) (pos : Nat) :
    Locks strict expects (eraseOneReserveBlock pos) h :=
  onReserveBlock_locks free fun _ _ ready => channelOp_locks ready (smallCommand (by decide))

theorem writeOneReserveBlock_locks (free : Free h) (pos offset : Nat) :
    Locks strict expects (writeOneReserveBlock pos offset) h :=
  onReserveBlock_locks free fun _ _ ready => onPages_locks fun _ =>
    (Program.Returns.perform trivial rfl).bind fun _ =>
      (chan_locks ready trivial).bind fun _ => channelOp_locks ready (smallCommand (by decide))

theorem readOneReserveBlock_locks (free : Free h) (pos : Nat) :
    Locks strict expects (readOneReserveBlock pos) h :=
  onReserveBlock_locks free fun _ _ ready => onPages_locks fun _ => channelOp_locks ready (smallCommand (by decide))

theorem writeOneReservePage_locks (free : Free h) (pos page : Nat) :
    Locks strict expects (writeOneReservePage pos page) h :=
  onReserveBlock_locks free fun _ _ ready => (Program.Returns.perform trivial rfl).bind fun _ =>
    (chan_locks ready trivial).bind fun _ => channelOp_locks ready (smallCommand (by decide))

theorem readOneReservePage_locks (free : Free h) (pos page : Nat) :
    Locks strict expects (readOneReservePage pos page) h :=
  onReserveBlock_locks free fun _ _ ready => channelOp_locks ready (smallCommand (by decide))

theorem writeTabledataBlock_locks (free : Free h) (pos offset : Nat) :
    Locks strict expects (writeTabledataBlock pos offset) h := by
  refine (eraseOneReserveBlock_locks free pos).bind fun ret => ?_
  split
  · rfl
  refine (writeOneReserveBlock_locks free pos offset).bind fun ret => ?_
  split
  · rfl
  · exact readOneReserveBlock_locks free pos

theorem writeTabledataBlockDuplicate_locks (free : Free h) (curPos offset : Nat) :
    Locks strict expects (writeTabledataBlockDuplicate curPos offset) h :=
  answer_locks (errorLoop_locks _ fun _ => writeTabledataBlock_locks free ..)

theorem retryWriteTabledataBlock_locks (free : Free h) (i offset n curPos : Nat) :
    Locks strict expects (retryWriteTabledataBlock i offset n curPos) h := by
  induction n generalizing curPos with
  | zero => rfl
  | succ n ih =>
      refine (writeTabledataBlockDuplicate_locks free ..).bind fun ret => ?_
      split
      · exact (Program.Returns.perform trivial rfl).bind fun _ => rfl
      · exact ih _

theorem flushTableBlocks_locks (free : Free h) (n i curPos : Nat) :
    Locks strict expects (flushTableBlocks n i curPos) h := by
  induction n generalizing i curPos with
  | zero => rfl
  | succ n ih =>
      refine (retryWriteTabledataBlock_locks free ..).bind fun ret => ?_
      split
      · rfl
      · exact ih _ _

theorem flushTabledata_locks (free : Free h) (idNum : Nat) (type : FlushType) :
    Locks strict expects (flushTabledata idNum type) h := by
  simp only [flushTabledata]
  split
  · rfl
  refine (Program.Returns.perform trivial rfl).bind fun old =>
    (flushTableBlocks_locks free ..).bind fun ret => ?_
  split
  · rfl
  · exact (Program.Returns.perform trivial rfl).bind fun now =>
      (Program.Returns.perform trivial rfl).bind fun _ => rfl

theorem writeMetaPage_locks (free : Free h) (plane : Nat) :
    Locks strict expects (writeMetaPage plane) h := by
  refine (Program.Returns.perform trivial rfl).bind fun p => ?_
  split
  · rfl
  have first : Locks strict expects (eraseIfFirstPage (p.blockPos + plane) p.page) h := by
    simp only [eraseIfFirstPage]
    split
    · exact eraseOneReserveBlock_locks free _
    · rfl
  refine first.bind fun ret => ?_
  split
  · rfl
  refine (writeOneReservePage_locks free ..).bind fun ret => ?_
  split
  · rfl
  · exact readOneReservePage_locks free ..

theorem flushMetadata_locks (free : Free h) : Locks strict expects flushMetadata h := by
  have planes : ∀ (l : List Nat) (n : Nat), Locks strict expects (writeMetaPages l n) h := by
    intro l
    induction l with
    | nil => exact fun n => rfl
    | cons plane rest ih => exact fun n => (writeMetaPage_locks free plane).bind fun _ => ih _
  have attempts : ∀ (n : Nat) (ret : Int), Locks strict expects (flushMetadataLoop n ret) h := by
    intro n
    induction n with
    | zero => exact fun ret => rfl
    | succ n ih =>
        intro ret
        refine Program.Returns.bind ((Program.Returns.perform trivial rfl).bind fun _ => rfl)
          fun ret => ?_
        split
        · rfl
        refine Program.Returns.bind ((planes _ 0).bind fun _ => rfl) fun ret => ?_
        split
        · rfl
        · exact ih ret
  exact attempts _ _

theorem ssdSysFlushBody_locks (free : Free h) (type : FlushType) :
    Locks strict expects (ssdSysFlushBody type) h := by
  refine (Program.Returns.perform trivial rfl).bind fun _ => (copyRamTables_locks free).bind fun r => ?_
  cases r with
  | some ret => rfl
  | none =>
      refine copyIdHash_locks.bind fun n => (flushTabledata_locks free n type).bind fun ret => ?_
      split
      · rfl
      · exact flushMetadata_locks free

theorem ssdSysFlush_locks (free : Free h) (off : h.flush = false) (type : FlushType) :
    Locks strict expects (ssdSysFlush type) h := by
  refine (Program.Returns.perform trivial rfl).bind fun opened => ?_
  split
  · rfl
  have held : Free { h with flush := true } := ⟨free.sema, free.idle⟩
  have restored : ({ h with flush := false } : Held) = h := by rw [← off]
  refine ⟨off, fun _ _ => Program.Obeys.bind (p := ssdSysFlushBody type)
    ((ssdSysFlushBody_locks held type).weaken ?_)⟩
  rintro ret h' rfl
  exact ⟨rfl, fun _ _ => restored⟩

/-! ## Opening the card -/

theorem forBuckets_locks {a : Nat → ChanAct} (off : ∀ b, usesChannel (a b) = false)
    (plain : ∀ b, ChanAct.Plain (a b)) : Locks strict expects (forBuckets a) h := by
  have channel : ∀ c, Locks strict expects (Program.firstSome (fun b => do
      let _ ← Drv.chan c (a b)
      pure (none : Option Unit)) (List.range ssdHashSize)) h := fun c =>
    Program.Returns.firstSome _ fun b _ => (local_locks (off b) (plain b)).bind fun _ => rfl
  exact Program.Returns.bind (Program.Returns.firstSome _ fun c _ => channel c) fun _ => rfl

theorem scanBuckets_locks (channel : Nat) (buckets : List Nat) (m : Bitmap) :
    Locks strict expects (scanBuckets channel buckets m) h := by
  induction buckets generalizing m with
  | nil => rfl
  | cons b rest ih =>
      refine (local_locks rfl trivial).bind fun nodes => ?_
      cases scanNodes channel nodes m with
      | none => rfl
      | some m' => exact ih m'

theorem ssdReloadBitmap_locks (free : Free h) : Locks strict expects ssdReloadBitmap h := by
  refine answer_locks (Program.Returns.firstSome _ fun channel _ => ?_)
  refine (scanBuckets_locks ..).bind fun found => ?_
  cases found with
  | none => rfl
  | some m =>
      exact (withSema_locks free (local_locks rfl fun _ => rfl)).bind fun _ => rfl

theorem ssdReadMetadata_locks {pos : Nat} (ready : Ready strict h (posChannel pos)) (page : Nat) :
    Locks strict expects (ssdReadMetadata pos page) h := channelOp_locks ready (smallCommand (by decide))

theorem searchGroup_locks (free : Free h) (group : Nat) (version : UInt64) (planes : List Nat) :
    Locks false expects (searchGroup group version planes) h := by
  induction planes with
  | nil => rfl
  | cons plane rest ih =>
      refine (ssdReadMetadata_locks (free.plain _) 0).bind fun ret => ?_
      split
      · rfl
      split
      · exact ih
      refine (chan_locks (free.plain _) trivial).bind fun kbuf => ?_
      dsimp only
      split
      · exact ih
      split
      · exact (Program.Returns.perform trivial rfl).bind fun _ => rfl
      · rfl

theorem ssdSearchMetadata_locks (free : Free h) : Locks false expects ssdSearchMetadata h := by
  have groups : ∀ (l : List Nat) (version : UInt64),
      Locks false expects (searchGroups l version) h := by
    intro l
    induction l with
    | nil => exact fun _ => rfl
    | cons group rest ih =>
        intro version
        refine (searchGroup_locks free ..).bind fun found => ?_
        cases found with
        | error ret => rfl
        | ok version' => exact ih version'
  have block : Locks false expects searchBlockMetadata h :=
    (groups _ 0).bind fun found => by cases found <;> rfl
  refine block.bind fun ret => ?_
  split
  · rfl
  refine (Program.Returns.perform trivial rfl).bind fun p => ?_
  refine Program.Returns.bind (Program.Returns.firstSome _ fun page _ =>
    Program.Returns.firstSome _ fun plane _ => ?_) fun found => by cases found <;> rfl
  refine (ssdReadMetadata_locks (free.plain _) page).bind fun ret => ?_
  split
  · rfl
  split
  · rfl
  refine (chan_locks (free.plain _) trivial).bind fun kbuf => ?_
  dsimp only
  split
  · rfl
  · exact (Program.Returns.perform trivial rfl).bind fun _ =>
      (Program.Returns.perform trivial rfl).bind fun _ => rfl

theorem ssdReadFlushTabledata_locks (plain : ∀ c, Ready false h c) :
    Locks false expects ssdReadFlushTabledata h := by
  have copy : ∀ pos offset, Locks false expects (readTableCopy pos offset) h := fun pos offset =>
    Program.Returns.firstSome _ fun page _ => (channelOp_locks (plain _) (smallCommand (by decide))).bind fun ret => by
      split
      · rfl
      · exact (chan_locks (plain _) trivial).bind fun kbuf =>
          (Program.Returns.perform trivial rfl).bind fun _ => rfl
  have copies : ∀ (l : List Nat) (n : Nat), Locks false expects (readTableCopies n l) h := by
    intro l n
    induction l with
    | nil => rfl
    | cons i rest ih =>
        refine (Program.Returns.perform trivial rfl).bind fun record => (copy ..).bind fun r => ?_
        cases r with
        | none => rfl
        | some ret =>
            simp only
            split
            · rfl
            · exact ih
  have blocks : ∀ fuel n, Locks false expects (readFlushLoop fuel n) h := by
    intro fuel
    induction fuel with
    | zero => exact fun _ => rfl
    | succ fuel ih =>
        intro n
        refine (Program.Returns.perform trivial rfl).bind fun record => ?_
        split
        · refine (copies ..).bind fun r => ?_
          cases r with
          | some ret => rfl
          | none => exact ih _
        · rfl
  exact blocks _ 0

theorem ssdRebuildHash_locks : Locks strict expects ssdRebuildHash h := by
  have entries : ∀ (close : Bool) (n i : Nat), Locks strict expects (rebuildEntries close n i) h := by
    intro close n
    induction n with
    | zero => exact fun _ => rfl
    | succ n ih =>
        intro i
        refine (Program.Returns.perform trivial rfl).bind fun image => ?_
        dsimp only
        split
        · exact ih _
        refine (setIdInfo_locks ..).bind fun ret => ?_
        split
        · rfl
        · exact ih _
  exact (Program.Returns.perform trivial rfl).bind fun record => entries ..

theorem ssdRebuildErasetable_locks : Locks strict expects ssdRebuildErasetable h := by
  refine (Program.Returns.perform trivial rfl).bind fun record => ?_
  split
  · rfl
  refine (Program.Returns.firstSome _ fun channel _ => ?_).bind fun _ => rfl
  refine (Program.Returns.perform trivial rfl).bind fun _ =>
    Program.Returns.firstSome _ fun b _ => ?_
  exact (local_locks rfl trivial).bind fun nodes =>
    (Program.Returns.perform trivial rfl).bind fun _ => rfl

theorem updataTable_locks (ready : Ready strict h c) (offset flag : Nat) :
    Locks strict expects (updataTable c offset flag) h :=
  (Program.Returns.perform trivial rfl).bind fun _ =>
    (chan_locks ready trivial).bind fun _ => channelOp_locks ready (smallCommand (by decide))

theorem ssdUpdataTables_locks (free : Free h) : Locks false expects ssdUpdataTables h := by
  refine answer_locks (Program.Returns.firstSome _ fun channel _ => ?_)
  refine (updataTable_locks (free.plain _) ..).bind fun ret => ?_
  split
  · rfl
  · exact (updataTable_locks (free.plain _) ..).bind fun ret => rfl

theorem ssdSysInit_locks (free : Free h) : Locks false expects ssdSysInit h := by
  refine (ssdSearchMetadata_locks free).bind fun ret => ?_
  split
  · rfl
  refine (Program.Returns.perform trivial rfl).bind fun record =>
    (Program.Returns.perform trivial rfl).bind fun _ =>
      (ssdReadFlushTabledata_locks free.plain).bind fun ret => ?_
  split
  · rfl
  refine (Program.Returns.perform trivial rfl).bind fun record => ?_
  split
  · rfl
  refine ssdRebuildHash_locks.bind fun ret => ?_
  split
  · rfl
  · exact ssdRebuildErasetable_locks.bind fun _ => ssdUpdataTables_locks free

theorem publishAllFreeBlocks_locks : Locks strict expects publishAllFreeBlocks h := by
  have each : ∀ c, Locks strict expects (do
      Drv.publishFreeBlocks c
      pure (none : Option Unit)) h := fun c => (local_locks rfl trivial).bind fun _ => rfl
  exact Program.Returns.bind (Program.Returns.firstSome _ fun c _ => each c) fun _ => rfl

theorem openWith_locks (free : Free h) (off : h.flush = false) {init : Drv Int}
    (inner : Locks false expects init h) : Locks false expects (openWith init) h := by
  have destroy : Locks false expects ssdDestorySlab h := forBuckets_locks (fun _ => rfl) fun _ => trivial
  refine (Program.Returns.perform trivial rfl).bind fun opened => ?_
  split
  · rfl
  refine kmalloc_locks.bind fun failed => ?_
  split
  · rfl
  refine Program.Returns.bind (forBuckets_locks (fun _ => rfl) fun _ => trivial) fun _ => ?_
  refine inner.bind fun ret => ?_
  split
  · exact destroy.bind fun _ => rfl
  refine (ssdReloadBitmap_locks free).bind fun ret => ?_
  split
  · exact destroy.bind fun _ => rfl
  refine publishAllFreeBlocks_locks.bind fun _ => ?_
  have reset : Locks false expects (Program.perform Act.initFlushSema) h :=
    Program.Returns.perform ⟨rfl, off⟩ rfl
  exact reset.bind fun _ => (Program.Returns.perform trivial rfl).bind fun _ => rfl

theorem ssdSysOpen_locks (free : Free h) (off : h.flush = false) :
    Locks false expects ssdSysOpen h := openWith_locks free off (ssdSysInit_locks free)

theorem ssdSysClose_locks (free : Free h) (off : h.flush = false) :
    Locks strict expects ssdSysClose h := by
  refine (Program.Returns.perform trivial rfl).bind fun opened => ?_
  split
  · rfl
  refine (ssdSysFlush_locks free off .close).bind fun ret => ?_
  split
  · rfl
  · exact (Program.Returns.perform trivial rfl).bind fun _ =>
      Program.Returns.bind (forBuckets_locks (fun _ => rfl) fun _ => trivial) fun _ => rfl

theorem ssdSysOpenNewcard_locks (free : Free h) (off : h.flush = false) :
    Locks false expects ssdSysOpenNewcard h := by
  refine openWith_locks free off ?_
  refine Program.Returns.bind (errorLoop_locks _ fun channel => withSema_locks free ?_)
    fun found => ?_
  · have ready : Ready false (h.take channel) channel := free.ready _
    refine (chan_locks ready trivial).bind fun _ =>
      (channelOp_locks ready (smallCommand (by decide))).bind fun ret => ?_
    split
    · rfl
    refine (chan_locks ready trivial).bind fun _ =>
      (channelOp_locks ready (smallCommand (by decide))).bind fun ret => ?_
    split
    · rfl
    · generalize List.range ssdMaxPhyblocksPerChannel = blocks
      exact answer_locks (errorLoop_locks blocks fun block => channelOp_locks ready (smallCommand (by decide)))
  · cases found with
    | some ret => rfl
    | none =>
        exact Program.Returns.bind ((Program.Returns.perform trivial rfl).bind fun _ =>
          Program.Returns.perform trivial rfl) fun _ => rfl

end Functions

/-! ## Runs exist -/

/-- What the device shows of a thread alone on it. -/
structure Mirrors (h : Held) (d : Device) : Prop where
  sema : ∀ c, (d.ch c).sema = if h.sema c then some 0 else none
  flush : d.flushSema = if h.flush then some 0 else none
  issued : ∀ c, (d.ch c).outstanding.isSome = h.issued c

/-- In every state some outcome is allowed for every action: no copy faults, and
a command that is out completes. -/
structure Live (may : May) : Prop where
  command : ∀ d c cmd, (d.ch c).outstanding = some cmd → ∃ o,
    may d (.chan c .await) o ∧ (Flash.exec (Command.ofWord cmd) o (d.ch c).kbuf (d.ch c).flash).isSome
  other : ∀ d a, (∀ c, a ≠ .chan c .await) → ∃ o, may d a o ∧ o.failed = false

/-- The protocol without promises about replies. -/
abbrev anyReply : (a : Act) → a.Reply → Prop := fun _ _ => True

section Exists

variable {may : May} {h : Held} {d : Device}

theorem Mirrors.setCh {c : Nat} {ch : Channel} {h' : Held} (mirrors : Mirrors h d)
    (flush : h'.flush = h.flush) (sema : ch.sema = if h'.sema c then some 0 else none)
    (issued : ch.outstanding.isSome = h'.issued c)
    (others : ∀ c', c' ≠ c → h'.sema c' = h.sema c' ∧ h'.issued c' = h.issued c') :
    Mirrors h' (d.setCh c ch) := by
  refine ⟨fun c' => ?_, by rw [flush]; exact mirrors.flush, fun c' => ?_⟩
  · by_cases same : c' = c
    · subst same
      rw [Device.setCh_ch_same, sema]
    · rw [Device.setCh_ch_other _ _ same, (others c' same).1, mirrors.sema c']
  · by_cases same : c' = c
    · subst same
      rw [Device.setCh_ch_same, issued]
    · rw [Device.setCh_ch_other _ _ same, (others c' same).2, mirrors.issued c']

/-- An action of one channel that the protocol allows is enabled. -/
theorem chanAct_live {a : ChanAct} {c : Nat} {o : Outcome} (mirrors : Mirrors h d)
    (fine : a ≠ .await → o.failed = false) (allowed : Held.allowed false anyReply h (.chan c a))
    (done : a = .await → ∀ cmd, (d.ch c).outstanding = some cmd →
      (Flash.exec (Command.ofWord cmd) o (d.ch c).kbuf (d.ch c).flash).isSome) :
    ∃ r ch, (d.ch c).perform a o = some (r, ch) ∧ ch.sema = (d.ch c).sema ∧
      ch.outstanding.isSome = (h.next (.chan c a)).issued c := by
  have issued := mirrors.issued c
  obtain ⟨-, allowed⟩ := allowed
  cases a
  case issue cmd =>
      refine ⟨(), { d.ch c with outstanding := some cmd }, rfl, rfl, ?_⟩
      simp only [Held.next, Function.update_self, Option.isSome_some]
  case await =>
      rw [allowed] at issued
      obtain ⟨cmd, out⟩ := Option.isSome_iff_exists.1 issued
      obtain ⟨⟨kbuf, flash⟩, ran⟩ := Option.isSome_iff_exists.1 (done rfl cmd out)
      refine ⟨o.ret.toInt, { d.ch c with outstanding := none, kbuf := kbuf, flash := flash }, ?_, rfl,
        ?_⟩
      · simp only [Channel.perform, out, Option.bind_eq_bind, Option.bind_some, ran, Option.pure_def]
      · simp only [Held.next, Function.update_self, Option.isSome_none]
  case setIdInfo id info =>
      have copied := fine ChanAct.noConfusion
      refine ⟨ssdOk, (d.ch c).setHead (idHash id) (((d.ch c).hash (idHash id)).insert ⟨id, info⟩), ?_,
        rfl, issued⟩
      simp only [Channel.perform, copied, Bool.false_eq_true, if_false]
  case delIdInfo id =>
      cases found : lookup ((d.ch c).hash (idHash id)).first id with
      | none => exact ⟨none, d.ch c, by simp only [Channel.perform, found], rfl, issued⟩
      | some info =>
          refine ⟨some info, (d.ch c).setHead (idHash id) (((d.ch c).hash (idHash id)).delete id), ?_,
            rfl, issued⟩
          simp only [Channel.perform, found]
  case space f =>
      obtain ⟨⟨r, s⟩, ran⟩ := Option.isSome_iff_exists.1 (allowed (d.ch c).space)
      exact ⟨r, { d.ch c with space := s }, by simp only [Channel.perform, ran, Option.map_some], rfl,
        issued⟩
  all_goals exact ⟨_, _, rfl, rfl, issued⟩

theorem act_live (live : Live may) (a : Act) (mirrors : Mirrors h d)
    (allowed : Held.allowed false anyReply h a) : ∃ o r d', may d a o ∧ d.perform 0 a o = some (r, d') ∧
      Mirrors (h.next a) d' := by
  have fine := live.other d a
  cases a
  case chan c a =>
      have choose : ∃ o, may d (.chan c a) o ∧ (a ≠ .await → o.failed = false) ∧
          (a = .await → ∀ cmd, (d.ch c).outstanding = some cmd →
            (Flash.exec (Command.ofWord cmd) o (d.ch c).kbuf (d.ch c).flash).isSome) := by
        by_cases wait : a = .await
        · subst wait
          have issued := mirrors.issued c
          rw [allowed.2] at issued
          obtain ⟨cmd, out⟩ := Option.isSome_iff_exists.1 issued
          obtain ⟨o, may, ran⟩ := live.command d c cmd out
          refine ⟨o, may, fun no => absurd rfl no, fun _ cmd' out' => ?_⟩
          rw [out] at out'
          cases out'
          exact ran
        · obtain ⟨o, may, off⟩ := fine fun c' eq => by cases eq; exact wait rfl
          exact ⟨o, may, fun _ => off, fun eq => absurd eq wait⟩
      obtain ⟨o, mayO, off, done⟩ := choose
      obtain ⟨r, ch, acted, sema, issued⟩ := chanAct_live mirrors off allowed done
      have keeps : (h.next (.chan c a)).sema = h.sema ∧ (h.next (.chan c a)).flush = h.flush ∧
          ∀ c', c' ≠ c → (h.next (.chan c a)).issued c' = h.issued c' := by
        cases a
        case issue | await => exact ⟨rfl, rfl, fun c' apart => Function.update_of_ne apart ..⟩
        all_goals exact ⟨rfl, rfl, fun _ _ => rfl⟩
      refine ⟨o, r, d.setCh c ch, mayO, by simp only [Device.perform, acted, Option.map_some], ?_⟩
      refine mirrors.setCh keeps.2.1 ?_ issued fun c' apart => ⟨by rw [keeps.1], keeps.2.2 c' apart⟩
      rw [sema, keeps.1]
      exact mirrors.sema c
  case down c =>
      obtain ⟨o, mayO, -⟩ := fine fun c' => by simp
      have free := mirrors.sema c
      rw [if_neg (by rw [show h.sema c = false from allowed]; exact Bool.false_ne_true)] at free
      refine ⟨o, (), _, mayO, by simp only [Device.perform, free, if_true]; rfl, ?_⟩
      refine mirrors.setCh rfl ?_ (mirrors.issued c) fun c' apart =>
        ⟨Function.update_of_ne apart .., rfl⟩
      simp only [Held.next, Function.update_self, if_true]
  case up c =>
      obtain ⟨o, mayO, -⟩ := fine fun c' => by simp
      refine ⟨o, (), _, mayO, rfl, ?_⟩
      refine mirrors.setCh rfl ?_ (mirrors.issued c) fun c' apart =>
        ⟨Function.update_of_ne apart .., rfl⟩
      simp only [Held.next, Function.update_self, Bool.false_eq_true, if_false]
  case downFlush =>
      obtain ⟨o, mayO, -⟩ := fine fun c' => by simp
      have free := mirrors.flush
      rw [if_neg (by rw [show h.flush = false from allowed]; exact Bool.false_ne_true)] at free
      refine ⟨o, (), { d with flushSema := some 0 }, mayO, ?_, mirrors.sema, rfl, mirrors.issued⟩
      simp only [Device.perform, free, if_true]
  case upFlush =>
      obtain ⟨o, mayO, -⟩ := fine fun c' => by simp
      exact ⟨o, (), _, mayO, rfl, mirrors.sema, rfl, mirrors.issued⟩
  case initFlushSema =>
      obtain ⟨o, mayO, -⟩ := fine fun c' => by simp
      refine ⟨o, (), _, mayO, rfl, mirrors.sema, ?_, mirrors.issued⟩
      rw [show (h.next .initFlushSema).flush = false from allowed.2]
      rfl
  all_goals
    obtain ⟨o, mayO, -⟩ := fine fun c' => by simp
    exact ⟨o, _, _, mayO, rfl, mirrors.sema, mirrors.flush, mirrors.issued⟩

/-- **A disciplined program alone on the device has a run**, and gives back what
it took. -/
theorem exists_run {α : Type} {p : Drv α} (live : Live may) (mirrors : Mirrors h d)
    (locks : Locks false anyReply p h) : ∃ value d', Run may p d value d' ∧ Mirrors h d' := by
  have answered : ∀ (h : Held) (d : Device) (a : Act), Mirrors h d →
      (locking false anyReply).allowed h a → ∃ o r d', may d a o ∧
        d.perform 0 a o = some (r, d') ∧ anyReply a r ∧ Mirrors (h.next a) d' := by
    intro h d a related allowed
    obtain ⟨o, r, d', mayO, step, next⟩ := act_live live a related allowed
    exact ⟨o, r, d', mayO, step, trivial, next⟩
  obtain ⟨value, d', h', run, same, final⟩ := locks.total answered mirrors
  subst same
  exact ⟨value, d', run, final⟩

theorem anyOutcome_live : Live anyOutcome := by
  refine ⟨fun d c cmd _ => ?_, fun d a _ => ?_⟩
  · refine ⟨ramTimesOut, trivial, ?_⟩
    simp only [Flash.exec]
    split <;> rfl
  · exact ⟨⟨.ok, false, true, fun _ => true, fun _ => 0, fun _ => 0, fun _ => 0, fun _ => 0, 0⟩,
      trivial, rfl⟩

/-- Also without failures; a page that cannot be read answers with a status. -/
theorem noFailure_live : Live noFailure := by
  refine ⟨fun d c cmd issued => ?_, fun d a other => ?_⟩
  · by_cases lost : Unreadable (d.ch c)
    · refine ⟨{ succeeds with ret := .hardware 0 }, ⟨rfl, rfl, fun c' eq => .inr ⟨?_, by simp⟩⟩, ?_⟩
      · cases eq
        exact lost
      · obtain ⟨cmd', out, flag, -⟩ := lost
        obtain rfl := Option.some.inj (issued.symm.trans out)
        simp only [Flash.exec, flag]
        rfl
    · refine ⟨succeeds, ⟨rfl, rfl, fun _ _ => .inl rfl⟩, ?_⟩
      by_cases read : (Command.ofWord cmd).flag = flagReadtablesFromFlash
      · have intact : ¬ ((d.ch c).flash.page (Command.ofWord cmd).start = none ∨
            (d.ch c).flash.suspect (Command.ofWord cmd).start = true) := fun bad =>
          lost ⟨cmd, issued, read, bad⟩
        rw [not_or, Bool.not_eq_true] at intact
        obtain ⟨m, found⟩ := Option.ne_none_iff_exists'.1 intact.1
        simp only [Flash.exec, read, found, intact.2, if_pos (show succeeds.ret = .ok from rfl)]
        rfl
      · simp only [Flash.exec]
        split <;> first | rfl | exact absurd ‹_› read
  · exact ⟨succeeds, ⟨rfl, rfl, fun c eq => absurd eq (other c)⟩, rfl⟩

/-- A channel with no ids, all its blocks free, and zeros in its pages. -/
def emptyChannel : Channel where
  sema := none
  outstanding := none
  kbuf := fun _ => 0
  flash := ⟨fun _ => 0, fun _ => none, fun _ => false, fun _ => 0, fun _ => 0⟩
  hash := fun _ => ⟨0, []⟩
  space := reloadSpace fun _ => false
  stat := ⟨0, 0, 0, 0⟩

/-- An open card with no ids. -/
def emptyDevice : Device where
  ch := fun _ => emptyChannel
  opened := true
  flushSema := none
  kbufFlush := fun _ => 0
  metadata := ⟨flushMagicNormal, 1, 0, 0, 1, 0, 0, fun _ => 40⟩
  metaPos := initMetaPos

theorem emptyDevice_mirrors : Mirrors Held.none emptyDevice :=
  ⟨fun _ => rfl, rfl, fun _ => rfl⟩

theorem free_none : Free Held.none := ⟨fun _ => rfl, fun _ => rfl⟩

end Exists

end FpgaSsd.Theory
