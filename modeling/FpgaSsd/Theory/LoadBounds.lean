/-
# Theory.LoadBounds — what the loader of the image indexes

`ssd_sys_init` takes every loop bound, channel and offset from the record that its search
accepts, of which nothing but the magic is checked.

* `InBounds` — the next action stays inside the arrays of channels and the buffers, and a
  read of the image depends on the bytes of its buffer only;
* `Fenced` — so does every action of a program that is told a certain record;
* `loadRecord_fenced` — the loader is fenced when the record counts at most five blocks, its
  positions are on channels that exist, and a closed one lists no entry behind the buffer.
-/
import FpgaSsd.Lib.Fence
import FpgaSsd.Theory.Alone

namespace FpgaSsd.Theory

open FpgaSsd.Lib FpgaSsd.Driver

set_option autoImplicit false

/-! ## Bounds -/

/-- `SSD_BUFFER_SIZE`, of each DMA buffer. -/
abbrev ssdBufferSize : Nat := 10485760

/-- The arrays of channels, the DMA buffers and the buffer of the image are long enough
for what the action indexes. -/
def Indexes : Act → Prop
  | .chan c (.modKbuf f) => c < ssdMaxChannel ∧ ∀ m i, ssdBufferSize ≤ i → f m i = m i
  | .chan c _ => c < ssdMaxChannel
  | .modFlush f => ∀ m i, ssdMaxFlushSize ≤ i → f m i = m i
  | _ => True

/-- What follows a read of the image depends on its buffer only. -/
def ReadsBuffer {α : Type} : (a : Act) → (a.Reply → Drv α) → Prop
  | .readFlush, rest => ∀ m m', (∀ i < ssdMaxFlushSize, m i = m' i) → rest m = rest m'
  | _, _ => True

/-- The next action stays inside its bounds. -/
def InBounds {α : Type} : Drv α → Prop
  | .pure _ => True
  | .act a rest => Indexes a ∧ ReadsBuffer a rest

/-- Where the driver holds the record `r`, `Act.getMeta` answers with it. -/
def Told (r : SsdMetadata) : (a : Act) → a.Reply → Prop
  | .getMeta, reply => reply = r
  | _, _ => True

def LeavesRecord : Act → Prop
  | .modMeta _ => False
  | _ => True

/-- Every action is in bounds, as long as the record is `r`. -/
def Fenced {α : Type} (r : SsdMetadata) : Drv α → Prop
  | .pure _ => True
  | .act a rest => LeavesRecord a ∧ InBounds (.act a rest) ∧ ∀ reply, Told r a reply → Fenced r (rest reply)

section Rules

variable {α β ι : Type} {r : SsdMetadata}

theorem ReadsBuffer.bind {a : Act} {rest : a.Reply → Drv α} (reads : ReadsBuffer a rest) (next : α → Drv β) :
    ReadsBuffer a fun reply => rest reply >>= next := by
  cases a with
  | readFlush => exact fun m m' same => congrArg (· >>= next) (reads m m' same)
  | _ => trivial

/-- What the record `r` answers, and what is allowed next. -/
def recordFence (r : SsdMetadata) : Fence Act Act.Reply where
  told := Told r
  allows a rest := LeavesRecord a ∧ InBounds (.act a rest)
  bind next allowed := ⟨allowed.1, allowed.2.1, allowed.2.2.bind next⟩

theorem fenced_iff {p : Drv α} : Fenced r p ↔ p.Fenced (recordFence r) fun _ => True := by
  induction p with
  | pure value => exact Iff.rfl
  | act a rest ih =>
      unfold Fenced Program.Fenced
      constructor
      · intro fenced
        exact ⟨⟨fenced.1, fenced.2.1⟩, fun reply told => (ih reply).1 (fenced.2.2 reply told)⟩
      · intro fenced
        exact ⟨fenced.1.1, fenced.1.2, fun reply told => (ih reply).2 (fenced.2 reply told)⟩

theorem Fenced.bind {p : Drv α} {next : α → Drv β} (first : Fenced r p) (rest : ∀ value, Fenced r (next value)) :
    Fenced r (p >>= next) :=
  fenced_iff.2 ((fenced_iff.1 first).bind fun value _ => fenced_iff.1 (rest value))

theorem Fenced.firstSome {body : ι → Drv (Option α)} {items : List ι} (each : ∀ i ∈ items, Fenced r (body i)) :
    Fenced r (Program.firstSome body items) :=
  fenced_iff.2 (Program.Fenced.firstSome fun i member => fenced_iff.1 (each i member))

theorem ReadsBuffer.other {a : Act} (other : a ≠ .readFlush) (rest : a.Reply → Drv α) : ReadsBuffer a rest := by
  cases a with
  | readFlush => exact absurd rfl other
  | _ => trivial

/-- An action that is not a read of the image. -/
theorem Fenced.perform {a : Act} (leaves : LeavesRecord a) (indexes : Indexes a) (other : a ≠ .readFlush) :
    Fenced r (Program.perform a) :=
  ⟨leaves, ⟨indexes, .other other _⟩, fun _ _ => trivial⟩

/-- An action on a channel. -/
theorem Fenced.chan {c : Nat} {a : ChanAct} (leaves : LeavesRecord (.chan c a)) (indexes : Indexes (.chan c a)) :
    Fenced r (Program.perform (Act.chan c a)) := .perform leaves indexes fun equal => by cases equal

/-- The record is asked for. -/
theorem Fenced.getMeta {next : SsdMetadata → Drv α} (later : Fenced r (next r)) : Fenced r (Drv.getMeta >>= next) := by
  refine ⟨trivial, ⟨trivial, trivial⟩, ?_⟩
  rintro _ rfl
  exact later

/-- What a record says stays said. -/
theorem told_of_step {a : Act} {o : Outcome} {reply : a.Reply} {tid : Nat} {d d' : Device} (holds : d.metadata = r)
    (leaves : LeavesRecord a) (step : d.perform tid a o = some (reply, d')) : Told r a reply ∧ d'.metadata = r := by
  cases a
  case getMeta =>
      cases step
      exact ⟨holds, holds⟩
  case modMeta => exact leaves.elim
  case chan c a =>
      obtain ⟨⟨r', ch⟩, acted, eq⟩ := Option.map_eq_some_iff.1 step
      cases eq
      exact ⟨trivial, holds⟩
  case down c =>
      simp only [Device.perform] at step
      split at step
      · cases step
        exact ⟨trivial, holds⟩
      · cases step
  case downFlush =>
      simp only [Device.perform] at step
      split at step
      · cases step
        exact ⟨trivial, holds⟩
      · cases step
  all_goals
    cases step
    exact ⟨trivial, holds⟩

theorem recordFence_truthful (r : SsdMetadata) :
    (recordFence r).Truthful (Device.perform 0) fun d => d.metadata = r := fun holds allowed step =>
  told_of_step holds allowed.1 step

/-- **A fenced program stays in bounds** in every run from a state with its record. -/
theorem Fenced.reaches {p q : Drv α} {d d' : Device} {may : May} (fenced : Fenced r p) (holds : d.metadata = r)
    (run : Reaches (Device.perform 0) may p d q d') : InBounds q := by
  obtain ⟨left, -⟩ := (fenced_iff.1 fenced).reaches (recordFence_truthful r) holds run
  cases q with
  | pure value => trivial
  | act a rest => exact left.allows.2

end Rules

/-! ## The loader -/

/-- `ssd_sys_init` behind its search. -/
def loadRecord : Drv Int := do
  let record ← Drv.getMeta
  Drv.modFlush fun m => fillBytes m 0 (imageSize record) 0
  let ret ← ssdReadFlushTabledata
  if ret ≠ ssdOk then pure ret
  else
    let record ← Drv.getMeta
    if normalUninstall record = false then pure (-44)
    else
      let ret ← ssdRebuildHash
      if ret ≠ ssdOk then pure ret
      else
        let _ ← ssdRebuildErasetable
        ssdUpdataTables

section Loader

variable {r : SsdMetadata} {c : Nat}

theorem channelOp_fenced (inside : c < ssdMaxChannel) (cmd : Nat) : Fenced r (channelOp c cmd) :=
  ⟨trivial, ⟨inside, trivial⟩, fun _ _ => ⟨trivial, ⟨inside, trivial⟩, fun _ _ => trivial⟩⟩

theorem modFlush_fenced {f : Mem → Mem} (inside : ∀ m i, ssdMaxFlushSize ≤ i → f m i = m i) :
    Fenced r (Drv.modFlush f) := .perform trivial inside nofun

/-- One copy of a block that lies in the buffer. -/
theorem readTableCopy_fenced {pos offset : Nat} (inside : posChannel pos < ssdMaxChannel)
    (fits : offset + ssdBlockSize ≤ ssdMaxFlushSize) : Fenced r (readTableCopy pos offset) := by
  apply Fenced.firstSome
  intro page member
  have low := List.mem_range.1 member
  apply (channelOp_fenced inside _).bind
  intro ret
  split
  · trivial
  apply Fenced.bind (p := Drv.readKbuf (posChannel pos)) (.chan trivial inside)
  intro kbuf
  refine Fenced.bind (modFlush_fenced fun m i outside => ?_) fun _ => trivial
  apply copyBytes_outside
  simp only [ssdPagesPerBlock, ssdBlockSize, ssdMaxFlushSize, ssdPageSize] at *
  omega

theorem readTableCopies_fenced {b : Nat} (block : b < 5) {copies : List Nat}
    (inside : ∀ i ∈ copies, posChannel (r.pos (b * tableDuplicate + i)) < ssdMaxChannel) :
    Fenced r (readTableCopies b copies) := by
  induction copies with
  | nil => trivial
  | cons i rest ih =>
      apply Fenced.getMeta
      refine Fenced.bind (readTableCopy_fenced (inside i (List.mem_cons_self ..)) ?_) fun found => ?_
      · simp only [ssdBlockSize, ssdMaxFlushSize]
        omega
      cases found with
      | none => trivial
      | some ret =>
          dsimp only
          split
          · trivial
          · exact ih fun j member => inside j (List.mem_cons_of_mem _ member)

/-- The positions of the record are on channels that exist. -/
def OnChannels (r : SsdMetadata) : Prop := ∀ k < tableDuplicate * r.blockNum.toNat, posChannel (r.pos k) < ssdMaxChannel

theorem ssdReadFlushTabledata_fenced (few : r.blockNum.toNat ≤ 5) (channels : OnChannels r) :
    Fenced r ssdReadFlushTabledata := by
  have blocks : ∀ fuel b, Fenced r (readFlushLoop fuel b) := by
    intro fuel
    induction fuel with
    | zero => exact fun _ => trivial
    | succ fuel ih =>
        intro b
        apply Fenced.getMeta
        split
        · rename_i more
          refine Fenced.bind (readTableCopies_fenced (by omega) fun i member => channels _ ?_) fun found => ?_
          · have copy := List.mem_range.1 member
            simp only [tableDuplicate] at *
            omega
          cases found with
          | some ret => trivial
          | none => exact ih _
        · trivial
  exact blocks _ 0

/-- A read of the image whose bytes are those of the buffer. -/
theorem Fenced.readFlush {α : Type} {next : Mem → Drv α}
    (reads : ∀ m m', (∀ i < ssdMaxFlushSize, m i = m' i) → next m = next m') (later : ∀ m, Fenced r (next m)) :
    Fenced r (Drv.readFlush >>= next) := ⟨trivial, ⟨trivial, reads⟩, fun m _ => later m⟩

/-- The entries from `i` on, when the last of them ends in the buffer. -/
theorem rebuildEntries_fenced (n i : Nat) (fits : tabledataBytes (i + n) ≤ ssdMaxFlushSize) :
    Fenced r (rebuildEntries true n i) := by
  induction n generalizing i with
  | zero => trivial
  | succ n ih =>
      have more := ih (i + 1) (by rwa [show i + 1 + n = i + (n + 1) by omega])
      apply Fenced.readFlush
      · intro m m' same
        have entry : FlushIdInfo.decode m (idListOffset + flushIdInfoSize * i) =
            FlushIdInfo.decode m' (idListOffset + flushIdInfoSize * i) := FlushIdInfo.decode_congr fun k small => by
          apply same
          simp only [tabledataBytes, idListOffset, flushIdInfoSize, ssdMaxFlushSize] at *
          omega
        simp only [entry, Bool.true_eq_false, false_and]
      · intro m
        dsimp only
        split
        · exact more
        have home : (Fin.ofNat 64 (id2channel (FlushIdInfo.decode m (idListOffset + flushIdInfoSize * i)).id)).val <
            ssdMaxChannel := by
          have below := id2channel_lt (FlushIdInfo.decode m (idListOffset + flushIdInfoSize * i)).id
          simp only [Fin.val_ofNat, ssdMaxChannel] at *
          omega
        refine Fenced.bind (p := Drv.setIdInfo _ _) (.chan trivial home) fun ret => ?_
        split
        · trivial
        · exact more

theorem updataTable_fenced {offset : Nat} (inside : c < ssdMaxChannel) (fits : offset + ssdTableSize ≤ ssdMaxFlushSize)
    (flag : Nat) : Fenced r (updataTable c offset flag) := by
  apply Fenced.readFlush
  · intro m m' same
    have bytes : ∀ kbuf : Mem, copyBytes kbuf 0 m offset ssdTableSize = copyBytes kbuf 0 m' offset ssdTableSize := by
      intro kbuf
      funext i
      simp only [copyBytes]
      split
      · apply same
        simp only [ssdTableSize, ssdMaxFlushSize] at *
        omega
      · rfl
    simp only [bytes]
  · intro m
    refine Fenced.bind (p := Drv.modKbuf c _) (.chan trivial ⟨inside, fun kbuf i outside => ?_⟩) fun _ =>
      channelOp_fenced inside _
    apply copyBytes_outside
    simp only [ssdTableSize, ssdBufferSize] at *
    omega

theorem ssdUpdataTables_fenced : Fenced r ssdUpdataTables := by
  refine Fenced.bind (Fenced.firstSome fun channel member => ?_) fun found => by cases found <;> trivial
  have inside := List.mem_range.1 member
  have fits : eraseOffset channel + ssdTableSize ≤ ssdMaxFlushSize := by
    simp only [eraseOffset, addrOffset, ssdMaxChannel, ssdTableSize, ssdMaxFlushSize] at *
    omega
  apply (updataTable_fenced inside fits _).bind
  intro ret
  split
  · trivial
  · refine (updataTable_fenced inside ?_ _).bind fun _ => trivial
    exact Nat.le_trans (by simp only [eraseOffset, ssdTableSize]; omega) fits

theorem imageSize_eq (few : r.blockNum.toNat ≤ 5) : imageSize r = r.blockNum.toNat * ssdBlockSize := by
  have small : r.blockNum.toNat < 6 := by omega
  simp only [imageSize, ssdBlockSize]
  generalize r.blockNum.toNat = n at small
  have each : ∀ n < 6, (Int32.ofNat (n * 2097152)).toInt64.toUInt64.toNat = n * 2097152 := by decide
  exact each n small

/-- **The loader stays in bounds.** -/
theorem loadRecord_fenced (few : r.blockNum.toNat ≤ 5) (channels : OnChannels r)
    (list : normalUninstall r = true → tabledataBytes (idMax r) ≤ ssdMaxFlushSize) : Fenced r loadRecord := by
  apply Fenced.getMeta
  refine Fenced.bind (modFlush_fenced fun m i outside => ?_) fun _ => ?_
  · apply fillBytes_outside
    rw [imageSize_eq few]
    simp only [ssdBlockSize, ssdMaxFlushSize] at *
    omega
  apply (ssdReadFlushTabledata_fenced few channels).bind
  intro ret
  split
  · trivial
  apply Fenced.getMeta
  split
  · trivial
  rename_i closed
  have closed := Bool.eq_true_of_not_eq_false closed
  refine Fenced.bind ?_ fun ret => ?_
  · apply Fenced.getMeta
    rw [closed]
    exact rebuildEntries_fenced _ 0 (by rw [Nat.zero_add]; exact list closed)
  split
  · trivial
  refine Fenced.bind ?_ fun _ => ssdUpdataTables_fenced
  apply Fenced.getMeta
  rw [if_pos closed]
  trivial

end Loader

end FpgaSsd.Theory
