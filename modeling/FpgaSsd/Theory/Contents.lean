/-
# Theory.Contents — the data of the card, and what a request does to it

The bytes of a channel change when a command completes, and at no other action. A command
that writes or erases blocks stays inside them, and so does a request, which takes its blocks
from the allocator or from the node of its id.

* `contents` — the logical pages of a channel, byte by byte;
* `Spares` — the bytes outside an extent stay as they are;
* `channelOp_write`, `channelOp_erase`, `channelOp_read` — the three commands on data;
* `ssdIdWrite_contents` — a write that succeeds leaves the bytes of its caller in the extent
  that the allocator answered with, and spares all others;
* `ssdIdDelete_contents`, `ssdIdRead_contents` — a delete spares what its id does not have,
  and a read changes nothing.
-/
import FpgaSsd.Theory.CommandWord
import FpgaSsd.Theory.ReadBounds

namespace FpgaSsd.Theory

open FpgaSsd.Lib FpgaSsd.Driver

set_option autoImplicit false

/-! ## Bytes -/

/-- The logical pages of every channel, by byte. -/
abbrev Contents := Nat → Mem

def contents (d : Device) : Contents := fun c => (d.ch c).flash.data

/-- The bytes outside the extent, and those of the other channels, stay. -/
def Spares (c : Nat) (e : Extent) (m m' : Contents) : Prop :=
  ∀ c' i, (c' = c → i < e.start * ssdBlockSize ∨ (e.start + e.len) * ssdBlockSize ≤ i) → m' c' i = m c' i

/-- The extent holds the bytes. -/
def Carries (c : Nat) (e : Extent) (bytes : Mem) (m : Contents) : Prop :=
  ∀ i < e.len * ssdBlockSize, m c (e.start * ssdBlockSize + i) = bytes i

/-- Every action but the completion of a command. -/
def Act.Still : Act → Prop
  | .chan _ .await => False
  | _ => True

section Bytes

variable {may : May} {c : Nat} {e : Extent} {bytes : Mem} {m m' m'' : Contents} {d d' : Device}

theorem Spares.of_same (same : m' = m) : Spares c e m m' := fun c' i _ => by
  rw [same]

theorem Spares.trans (first : Spares c e m m') (second : Spares c e m' m'') : Spares c e m m'' :=
  fun c' i apart => (second c' i apart).trans (first c' i apart)

/-- An extent of another channel, or one that has no block in common, stays. -/
theorem Carries.spared {c' : Nat} {e' : Extent} (carries : Carries c' e' bytes m) (spares : Spares c e m m')
    (apart : c' = c → e'.start + e'.len ≤ e.start ∨ e.start + e.len ≤ e'.start) : Carries c' e' bytes m' := by
  intro i inside
  rw [← carries i inside]
  apply spares
  intro here
  have order := apart here
  simp only [ssdBlockSize] at *
  omega

theorem contents_setCh {ch : Channel} (same : ch.flash.data = (d.ch c).flash.data) :
    contents (d.setCh c ch) = contents d := by
  funext c'
  by_cases here : c' = c
  · subst here
    simp only [contents, Device.setCh_ch_same, same]
  · simp only [contents, Device.setCh_ch_other _ _ here]

theorem contents_setCh_other {ch : Channel} {c' : Nat} (apart : c' ≠ c) :
    contents (d.setCh c ch) c' = contents d c' := by
  simp only [contents, Device.setCh_ch_other _ _ apart]

theorem chanAct_still {a : ChanAct} {o : Outcome} {ch ch' : Channel} {r : a.Reply} (still : a ≠ .await)
    (step : ch.perform a o = some (r, ch')) : ch'.flash = ch.flash := by
  cases a
  case await => exact absurd rfl still
  case setIdInfo =>
      simp only [Channel.perform] at step
      split at step
      · cases step
      · cases step
        rfl
  case delIdInfo =>
      simp only [Channel.perform] at step
      split at step
      · cases step
        rfl
      · cases step
        rfl
  case space =>
      obtain ⟨⟨r', space⟩, -, eq⟩ := Option.map_eq_some_iff.1 step
      cases eq
      rfl
  all_goals
    cases step
    rfl

theorem act_still {a : Act} {t : Nat} {o : Outcome} {r : a.Reply} (still : Act.Still a)
    (step : d.perform t a o = some (r, d')) : contents d' = contents d := by
  cases a
  case chan c a =>
      obtain ⟨⟨r', ch⟩, acted, eq⟩ := Option.map_eq_some_iff.1 step
      cases eq
      have other : a ≠ .await := by
        rintro rfl
        cases still
      exact contents_setCh (congrArg Flash.data (chanAct_still other acted))
  case down c =>
      simp only [Device.perform] at step
      split at step
      · cases step
        exact contents_setCh rfl
      · cases step
  case up c =>
      cases step
      exact contents_setCh rfl
  case downFlush =>
      simp only [Device.perform] at step
      split at step
      · cases step
        rfl
      · cases step
  all_goals
    cases step
    rfl

/-- A program that completes no command leaves the data alone. -/
theorem Holds.still {α : Type} {p : Drv α} (all : p.All Act.Still) :
    Holds may p (fun _ d' => contents d' = contents d) d :=
  Safe.all (fun _ _ moved same => moved ▸ same) (fun _ _ _ _ => trivial)
    (fun _ _ _ _ _ still _ step same => (act_still still step).trans same) all rfl

end Bytes

/-! ## Commands -/

section Commands

variable {may : May} {c cmd start len : Nat} {d : Device}

/-- What a command fills is the new data where it took effect. -/
theorem fill_inside {o : Outcome} {m new damage : Mem} {offset n i : Nat} (ok : o.ret = .ok) (taken : o.taken = true)
    (inside : i < n) : Flash.fill o m offset n new damage (offset + i) = new i := by
  rw [Flash.fill, if_pos ⟨ok, taken⟩, copyBytes_inside inside, Nat.zero_add]

theorem fill_outside {o : Outcome} {m new damage : Mem} {offset n i : Nat} (out : i < offset ∨ offset + n ≤ i) :
    Flash.fill o m offset n new damage i = m i := by
  rw [Flash.fill]
  split
  · exact copyBytes_outside out
  · exact copyBytes_outside out

/-- Blocks in pages. -/
theorem pages_of_blocks (n : Nat) : n * ssdPagesPerBlock * ssdPageSize = n * ssdBlockSize := Nat.mul_assoc ..

/-- A write of the blocks of an extent. -/
theorem channelOp_write {e : Extent}
    (word : Command.ofWord cmd = ⟨e.start * ssdPagesPerBlock, e.len * ssdPagesPerBlock, flagWrite⟩) :
    Holds may (channelOp c cmd) (fun ret d' => Spares c e (contents d) (contents d') ∧ (d'.ch c).kbuf = (d.ch c).kbuf ∧
      (Effective may → ret = ssdOk → Carries c e (d.ch c).kbuf (contents d'))) d := by
  refine (channelOp_holds may c cmd d).weaken ?_
  rintro ret d' ⟨o, kbuf, flash, allowed, done, rfl, rfl⟩
  rw [word] at done
  cases done
  refine ⟨fun c' i apart => ?_, ?_, fun effective ok i inside => ?_⟩
  · by_cases here : c' = c
    · subst here
      have out := apart rfl
      simp only [contents, Device.setCh_ch_same, pages_of_blocks]
      apply fill_outside
      rw [← Nat.add_mul]
      exact out
    · rw [contents_setCh_other here]
  · rw [Device.setCh_ch_same]
  · have ok := ChannelRet.toInt_eq_zero.1 ok
    simp only [contents, Device.setCh_ch_same, pages_of_blocks]
    exact fill_inside ok (effective _ _ _ allowed ok) inside

/-- An erase of the blocks of an extent. -/
theorem channelOp_erase {e : Extent} (word : Command.ofWord cmd = ⟨e.start, e.len, flagErase⟩) :
    Holds may (channelOp c cmd) (fun ret d' => Spares c e (contents d) (contents d') ∧ (d'.ch c).kbuf = (d.ch c).kbuf ∧
      ∃ r : ChannelRet, ret = r.toInt) d := by
  refine (channelOp_holds may c cmd d).weaken ?_
  rintro ret d' ⟨o, kbuf, flash, -, done, rfl, rfl⟩
  rw [word] at done
  cases done
  refine ⟨fun c' i apart => ?_, ?_, o.ret, rfl⟩
  · by_cases here : c' = c
    · subst here
      have out := apart rfl
      simp only [contents, Device.setCh_ch_same]
      apply fill_outside
      rw [← Nat.add_mul]
      exact out
    · rw [contents_setCh_other here]
  · rw [Device.setCh_ch_same]

/-- A read changes no data, whatever it is asked for; where it succeeds with its effect, and its
pages are in the range of the command word, the buffer holds them. -/
theorem channelOp_read (start len : Nat) :
    Holds may (channelOp c (cmdValue start len flagRead)) (fun ret d' => contents d' = contents d ∧
      (Effective may → start < 2 ^ 28 → len < 2 ^ 11 → ret = ssdOk →
        ∀ i < len * ssdPageSize, (d'.ch c).kbuf i = contents d c (start * ssdPageSize + i))) d := by
  refine (channelOp_holds may c _ d).weaken ?_
  rintro ret d' ⟨o, kbuf, flash, allowed, done, rfl, rfl⟩
  constructor
  · have flag : (Command.ofWord (cmdValue start len flagRead)).flag = 0 := cmdValue_flag start len flagRead
    simp only [Flash.exec, flag] at done
    cases done
    exact contents_setCh rfl
  · intro effective start_lt len_lt ok i inside
    rw [decode_cmdValue start_lt len_lt (by decide)] at done
    cases done
    rw [Device.setCh_ch_same]
    have ok := ChannelRet.toInt_eq_zero.1 ok
    have read := @fill_inside o (d.ch c).kbuf (fun i => (d.ch c).flash.data (start * ssdPageSize + i)) o.kbuf 0
      (len * ssdPageSize) i ok (effective _ _ _ allowed ok) inside
    rwa [Nat.zero_add] at read

end Commands

/-! ## Requests -/

section Requests

variable {may : May} {c : Nat} {d : Device}

/-- The retries of a write stay in the extent; where they succeed it holds the buffer. -/
theorem writeRetry_contents {e : Extent} {writeCmd eraseCmd : Nat}
    (write : Command.ofWord writeCmd = ⟨e.start * ssdPagesPerBlock, e.len * ssdPagesPerBlock, flagWrite⟩)
    (erase : Command.ofWord eraseCmd = ⟨e.start, e.len, flagErase⟩) (n : Nat) {ret : Int}
    (begun : 0 < n ∨ ret ≠ ssdOk) : Holds may (writeRetry c writeCmd eraseCmd n ret) (fun ret d' =>
      Spares c e (contents d) (contents d') ∧
        (Effective may → ret = ssdOk → Carries c e (d.ch c).kbuf (contents d'))) d := by
  induction n generalizing ret d with
  | zero => exact Holds.pure ⟨.of_same rfl, fun _ ok => absurd ok (begun.resolve_left (Nat.lt_irrefl 0))⟩
  | succ n ih =>
      refine Holds.seq (channelOp_write write) ?_
      rintro ret d1 ⟨spared1, kbuf1, carries⟩
      split
      · rename_i ok
        exact Holds.pure ⟨spared1, fun effective _ => carries effective ok⟩
      rename_i failed
      refine Holds.seq (channelOp_erase erase) ?_
      rintro erased d2 ⟨spared2, kbuf2, -⟩
      split
      · exact Holds.pure ⟨spared1.trans spared2, fun _ ok => absurd ok failed⟩
      · refine (ih (.inr failed)).weaken ?_
        rintro ret d3 ⟨spared3, carries⟩
        rw [kbuf2, kbuf1] at carries
        exact ⟨(spared1.trans spared2).trans spared3, carries⟩

/-- A write spares all but the extent that the allocator answers with; where it succeeds, and
its commands were `effective`, this extent holds the bytes. -/
inductive WriteContents (effective : Prop) (c : Nat) (t : BlockType) (bytes : Mem)
    (s : ChannelSpace) (m : Contents) (ret : Int) (m' : Contents) : Prop
  | refused (same : m' = m) (failed : ret ≠ ssdOk)
  | placed {i : Nat} {s' : ChannelSpace} (alloc : ssdAllocLogicBlock s t = some ((i : Int), s'))
      (spares : Spares c ⟨i, t.size⟩ m m')
      (carries : effective → ret = ssdOk → Carries c ⟨i, t.size⟩ bytes m')

theorem ssdIdWriteBody_contents (t : BlockType) (p : WriteParam) (len : p.len = t.size) :
    Holds may (ssdIdWriteBody c t p) (fun ret d' =>
      WriteContents (Effective may) c t p.buf (d.ch c).space (contents d) ret (contents d')) d := by
  have short := t.size_le
  refine Holds.seq (M := fun _ d1 => d1 = d) (Holds.chan fun o r ch _ step => ?_) ?_
  · cases step
    exact Device.setCh_self d c
  rintro known d rfl
  split
  · exact Holds.pure (.refused rfl (by decide))
  refine Holds.seq (M := fun index d2 => contents d2 = contents d ∧
      ∃ s, ssdAllocLogicBlock (d.ch c).space t = some (index, s)) (Holds.chan fun o r ch _ step => ?_) ?_
  · obtain ⟨⟨ret, s⟩, alloc, eq⟩ := Option.map_eq_some_iff.1 step
    cases eq
    exact ⟨contents_setCh rfl, s, alloc⟩
  rintro index d2 ⟨same2, s, alloc⟩
  rcases alloc_answer alloc with rfl | ⟨i, rfl, below⟩
  · rw [if_pos (.inl rfl)]
    exact Holds.pure (.refused same2 (by decide))
  rw [if_neg (by simp only [errAllocBlock, ssdMaxVirblocksPerChannel] at below ⊢; omega)]
  simp only [Int.toNat_natCast, len]
  -- giving the blocks back leaves the data of the extent as the commands left it
  have release : ∀ (ret : Int) {d' : Device}, ret ≠ ssdOk →
      Spares c ⟨i, t.size⟩ (contents d) (contents d') → Holds may (do
        Drv.deleteLogicBlock (.at c i t)
        pure ret)
        (fun ret d'' => WriteContents (Effective may) c t p.buf (d.ch c).space (contents d) ret (contents d'')) d' := by
    intro ret d' failed spares
    refine Holds.seq (Holds.still ⟨trivial, fun _ => trivial⟩) fun _ d'' same => ?_
    exact Holds.pure (.placed alloc (spares.trans (.of_same same)) fun _ ok => absurd ok failed)
  refine Holds.seq (Holds.still ⟨trivial, fun _ => trivial⟩) fun _ d3 same3 => ?_
  refine Holds.seq (Holds.still ⟨trivial, fun _ => trivial⟩) fun _ d4 same4 => ?_
  refine Holds.seq (M := fun failed d5 => contents d5 = contents d4 ∧ (failed = false →
      ∀ i < t.size * ssdBlockSize, (d5.ch c).kbuf i = p.buf i)) (Holds.chan fun o r ch _ step => ?_) ?_
  · cases step
    refine ⟨contents_setCh rfl, fun fine i inside => ?_⟩
    rw [Device.setCh_ch_same, fine, if_neg Bool.false_ne_true]
    have copied := @copyBytes_inside (d4.ch c).kbuf p.buf 0 0 (t.size * ssdBlockSize) i inside
    rwa [Nat.zero_add] at copied
  rintro failed d5 ⟨same5, copied⟩
  have same := same5.trans (same4.trans (same3.trans same2))
  split
  · exact release (-errCopyToUser) (by decide) (.of_same same)
  rename_i fine
  have copied := copied (Bool.not_eq_true _ ▸ fine)
  have write : Command.ofWord (cmdValue (i * ssdPagesPerBlock) (t.size * ssdPagesPerBlock) flagWrite) =
      ⟨i * ssdPagesPerBlock, t.size * ssdPagesPerBlock, flagWrite⟩ := by
    simp only [ssdMaxVirblocksPerChannel, ssdPagesPerBlock] at *
    exact decode_cmdValue (by omega) (by omega) (by decide)
  have erase : Command.ofWord (cmdValue i t.size flagErase) = ⟨i, t.size, flagErase⟩ := by
    simp only [ssdMaxVirblocksPerChannel] at below
    exact decode_cmdValue (by omega) (by omega) (by decide)
  refine Holds.seq (writeRetry_contents (e := ⟨i, t.size⟩) write erase 5 (.inl (by decide))) ?_
  rintro ret d6 ⟨spared, carries⟩
  have spares := (Spares.of_same same).trans spared
  split
  · exact release ret ‹_› spares
  rename_i ok
  refine Holds.seq (Holds.still ⟨trivial, fun _ => trivial⟩) fun ret d7 same7 => ?_
  have spares := spares.trans (.of_same same7)
  split
  · refine Holds.seq (channelOp_erase (e := ⟨i, t.size⟩) erase) ?_
    rintro erased d8 ⟨spared8, -⟩
    exact release (-8) (by decide) (spares.trans spared8)
  · refine Holds.pure (.placed alloc spares fun effective _ k inside => ?_)
    rw [same7, carries effective (not_not.1 ok) k inside, copied k inside]

/-- A delete spares all but the blocks of its id, and touches these only when it answers as its
erase does. -/
inductive DeleteContents (c : Nat) (id : BlockId) (h : Nat → HashHead) (m : Contents) (ret : Int) (m' : Contents) :
    Prop
  | same (same : m' = m)
  | erased {info : IdInfo} (found : find h id = some info) (spares : Spares c info.extent m m')
      (answer : ∃ r : ChannelRet, ret = r.toInt)

theorem ssdIdDeleteBody_contents (id : BlockId) : Holds may (ssdIdDeleteBody c id) (fun ret d' =>
    DeleteContents c id (d.ch c).hash (contents d) ret (contents d')) d := by
  refine Holds.seq (M := fun found d1 => found = find (d.ch c).hash id ∧ contents d1 = contents d)
    (Holds.chan fun o r ch _ step => ?_) ?_
  · have flash := chanAct_still (a := .delIdInfo id) ChanAct.noConfusion step
    refine ⟨?_, contents_setCh (congrArg Flash.data flash)⟩
    simp only [Channel.perform] at step
    split at step
    · rename_i absent
      cases step
      exact absent.symm
    · rename_i info found
      cases step
      exact found.symm
  rintro found d1 ⟨eq, same1⟩
  cases found with
  | none => exact Holds.pure (.same same1)
  | some info =>
      simp only
      split
      · refine Holds.seq (Holds.still ⟨trivial, fun _ => trivial⟩) fun _ d2 same2 => ?_
        exact Holds.pure (.same (same2.trans same1))
      rename_i sound
      have bounds := checkIdInfo_bounds (not_not.1 sound)
      have size := info.len.size_le
      simp only [ssdMaxVirblocksPerChannel] at bounds
      have erase : Command.ofWord (cmdValue info.block.val info.len.size flagErase) =
          ⟨info.extent.start, info.extent.len, flagErase⟩ := decode_cmdValue (by omega) (by omega) (by decide)
      refine Holds.seq (Holds.still ⟨trivial, fun _ => trivial⟩) fun _ d2 same2 => ?_
      refine Holds.seq (channelOp_erase (e := info.extent) erase) ?_
      rintro ret d3 ⟨spared, -, answer⟩
      have spares := (Spares.of_same (same2.trans same1)).trans spared
      split
      · refine Holds.seq (Holds.still ⟨trivial, fun _ => trivial⟩) fun _ d4 same4 => ?_
        exact Holds.pure (.erased eq.symm (spares.trans (.of_same same4)) answer)
      · refine Holds.seq (Holds.still ⟨trivial, fun _ => trivial⟩) fun _ d4 same4 => ?_
        refine Holds.seq (Holds.still ⟨trivial, fun _ => trivial⟩) fun _ d5 same5 => ?_
        exact Holds.pure (.erased eq.symm (spares.trans (.of_same (same5.trans same4))) answer)

/-- What a read of the blocks of its id returns where it succeeds, and its commands were
`effective`. -/
structure ReadContents (effective : Prop) (c : Nat) (p : ReadParam) (h : Nat → HashHead)
    (m : Contents) (r : Int × Option Mem) : Prop where
  bytes : effective → r.1 = ssdOk → ∃ info, find h p.id = some info ∧
    (p.offset + p.len ≤ ssdPagesPerBlock * info.len.size →
      r.2 = some (clip (p.len * ssdPageSize) fun i =>
        m c (info.block.val * ssdBlockSize + (p.offset * ssdPageSize + i))))

theorem ssdIdReadBody_contents (p : ReadParam) : Holds may (ssdIdReadBody c p) (fun r d' =>
    contents d' = contents d ∧ ReadContents (Effective may) c p (d.ch c).hash (contents d) r) d := by
  refine Holds.seq (M := fun found d1 => found = find (d.ch c).hash p.id ∧ d1 = d)
    (Holds.chan fun o r ch _ step => ?_) ?_
  · cases step
    exact ⟨rfl, Device.setCh_self d c⟩
  rintro found d ⟨eq, rfl⟩
  cases found with
  | none => exact Holds.pure ⟨rfl, ⟨fun _ ok => absurd ok (by decide)⟩⟩
  | some info =>
      simp only
      split
      · exact Holds.pure ⟨rfl, ⟨fun _ ok => absurd ok ‹_›⟩⟩
      rename_i sound
      have sound := not_not.1 sound
      refine Holds.seq (Holds.still ⟨trivial, fun _ => trivial⟩) fun _ d2 same2 => ?_
      refine Holds.seq (channelOp_read _ _) ?_
      rintro ret d3 ⟨same3, read⟩
      have same := same3.trans same2
      split
      · rename_i failed
        refine Holds.pure ⟨same, ⟨fun _ ok => absurd ?_ failed⟩⟩
        rw [show ret = ssdOk from ok]
        rfl
      refine Holds.seq (M := fun reply d4 => contents d4 = contents d3 ∧
        ∀ bytes, reply = some bytes → bytes = clip (p.len * ssdPageSize % 2 ^ 32) (d3.ch c).kbuf)
        (Holds.chan fun o r ch _ step => ?_) ?_
      · cases step
        refine ⟨contents_setCh rfl, fun bytes copied => ?_⟩
        split at copied
        · cases copied
        · cases copied
          rfl
      rintro reply d4 ⟨same4, copied⟩
      have same := same4.trans same
      cases reply with
      | none => exact Holds.pure ⟨same, ⟨fun _ ok => absurd ok (by decide)⟩⟩
      | some bytes =>
          refine Holds.pure ⟨same, ⟨fun effective ok => ⟨info, eq.symm, fun fits => ?_⟩⟩⟩
          have bounds := checkIdInfo_bounds sound
          have size := info.len.size_le
          have inRange : info.block.val * ssdPagesPerBlock + p.offset < 2 ^ 28 ∧ p.len < 2 ^ 11 := by
            simp only [ssdMaxVirblocksPerChannel, ssdPagesPerBlock] at *
            omega
          rw [copied bytes rfl, (read_bytes fits).1]
          refine congrArg some (clip_same fun i inside => ?_)
          have place : (info.block.val * ssdPagesPerBlock + p.offset) * ssdPageSize + i =
              info.block.val * ssdBlockSize + (p.offset * ssdPageSize + i) := by
            rw [Nat.add_mul, pages_of_blocks, Nat.add_assoc]
          rw [read effective inRange.1 inRange.2 ok i inside, same2, place]

/-! ### Sections -/

/-- A section sees the books and the data as they are, and leaves them as its body does. -/
theorem withSema_card {α : Type} {body : Drv α} (post : α → Contents → Prop)
    (spec : ∀ d', ledger d' = ledger d → contents d' = contents d →
      Holds may body (fun value d'' => post value (contents d'')) d') :
    Holds may (Drv.withSema c body) (fun value d' => post value (contents d')) d := by
  have taken : Holds may (Drv.down c) (fun _ d1 => ledger d1 = ledger d ∧ contents d1 = contents d) d := by
    refine Holds.perform fun o r d1 _ step => ⟨?_, ?_⟩
    · exact act_neutral (a := .down c) trivial step
    · exact act_still (a := .down c) trivial step
  refine Holds.seq taken ?_
  rintro _ d1 ⟨books, same⟩
  refine Holds.seq (spec d1 books same) fun value d2 after => ?_
  refine Holds.seq (Holds.still ⟨trivial, fun _ => trivial⟩) fun _ d3 same3 => Holds.pure ?_
  rw [same3]
  exact after

/-- **What a write does to the data.** -/
theorem ssdIdWrite_contents (t : BlockType) (p : WriteParam) (len : p.len = t.size) :
    Holds may (ssdIdWrite p) (fun ret d' => WriteContents (Effective may) (id2channel p.id) t p.buf
      (ledger d (id2channel p.id)).1 (contents d) ret (contents d')) d := by
  rw [ssdIdWrite_of_len len]
  refine withSema_card (fun ret m => WriteContents (Effective may) (id2channel p.id) t p.buf
    (ledger d (id2channel p.id)).1 (contents d) ret m) fun d' books same => ?_
  rw [← books, ← same]
  exact ssdIdWriteBody_contents t p len

/-- **What a delete does to the data.** -/
theorem ssdIdDelete_contents (id : BlockId) : Holds may (ssdIdDelete id) (fun ret d' =>
    DeleteContents (id2channel id) id (ledger d (id2channel id)).2 (contents d) ret (contents d')) d := by
  refine withSema_card (fun ret m => DeleteContents (id2channel id) id (ledger d (id2channel id)).2
    (contents d) ret m) fun d' books same => ?_
  rw [← books, ← same]
  exact ssdIdDeleteBody_contents id

/-- **What a read returns.** -/
theorem ssdIdRead_contents (p : ReadParam) : Holds may (ssdIdRead p) (fun r d' => contents d' = contents d ∧
    ReadContents (Effective may) (id2channel p.id) p (ledger d (id2channel p.id)).2 (contents d) r) d := by
  refine withSema_card (fun r m => m = contents d ∧
    ReadContents (Effective may) (id2channel p.id) p (ledger d (id2channel p.id)).2 (contents d) r)
      fun d' books same => ?_
  rw [← books, ← same]
  exact ssdIdReadBody_contents p

end Requests

end FpgaSsd.Theory
