/-
# Theory.TableRead — what the driver reads from the reserved blocks

The contents of the flash as a function of channel and page, and the programs that only read
it: the search for the last record and the loader of the table data.

* `readTableCopies_holds`, `ssdReadFlushTabledata_holds` — the image is made of the copies that
  were read, one of two for each block;
* `exists_tabledata` — every choice of the copies is read in some run;
* `ssdSearchMetadata_sought`, `ssdSearchMetadata_inBounds` — the search changes no page, stays
  inside the arrays, and accepts a record by its magic only.
-/
import FpgaSsd.Theory.LoadBounds
import FpgaSsd.Theory.ReadFlush

namespace FpgaSsd.Theory

open FpgaSsd.Lib FpgaSsd.Driver

set_option autoImplicit false

/-! ## Table data -/

/-- The contents of the flash, by channel and physical page. -/
abbrev TableData := Nat → Nat → Mem

/-- The physical page of a position; one behind the reserved blocks has a page as well,
as the negative answer of `calc_phyblock` is stored in 16 bits. -/
def pageOf (pos page : Nat) : Nat := (calcPhyblock pos % 65536).toNat * ssdPagesPerBlock + page

/-- Every page that can be read has this content. -/
def Bears (T : TableData) (d : Device) : Prop :=
  ∀ c p m, (d.ch c).flash.page p = some m → ∀ i < ssdPageSize, m i = T c p i

/-- Byte `i` of the block at a position. -/
def blockByte (T : TableData) (pos i : Nat) : UInt8 :=
  T (posChannel pos) (pageOf pos (i / ssdPageSize)) (i % ssdPageSize)

/-- The image when copy `copy b` of block `b` is the one that is read. -/
def storedImage (r : SsdMetadata) (T : TableData) (copy : Nat → Nat) : Mem := fun a =>
  blockByte T (r.pos (a / ssdBlockSize * tableDuplicate + copy (a / ssdBlockSize))) (a % ssdBlockSize)

/-! ## Reading the blocks -/

/-- A command that reads: the hash table, the record and the image stay, and no page changes. -/
structure Peeked (T : TableData) (d d' : Device) : Prop where
  metadata : d'.metadata = d.metadata
  image : d'.kbufFlush = d.kbufFlush
  hash : ∀ c, (d'.ch c).hash = (d.ch c).hash
  bears : Bears T d'

/-- The bytes from `low` to `high` of the image are read. -/
structure Filled (T : TableData) (low high : Nat) (d d' : Device) : Prop where
  metadata : d'.metadata = d.metadata
  hash : ∀ c, (d'.ch c).hash = (d.ch c).hash
  bears : Bears T d'
  outside : ∀ i, i < low ∨ high ≤ i → d'.kbufFlush i = d.kbufFlush i

section Reading

variable {T : TableData} {d d' d'' : Device} {low high : Nat}

theorem Peeked.filled (peeked : Peeked T d d') (low high : Nat) : Filled T low high d d' :=
  ⟨peeked.metadata, peeked.hash, peeked.bears, fun i _ => congrFun peeked.image i⟩

theorem Filled.refl (bears : Bears T d) (low high : Nat) : Filled T low high d d :=
  ⟨rfl, fun _ => rfl, bears, fun _ _ => rfl⟩

theorem Filled.trans (first : Filled T low high d d') (second : Filled T low high d' d'') : Filled T low high d d'' :=
  ⟨second.metadata.trans first.metadata, fun c => (second.hash c).trans (first.hash c), second.bears,
    fun i out => (second.outside i out).trans (first.outside i out)⟩

/-- The pages are those of the flash, whatever the image holds. -/
theorem Bears.withImage (bears : Bears T d) (image : Mem) : Bears T { d with kbufFlush := image } := bears

theorem withImage_metadata (d : Device) (image : Mem) : { d with kbufFlush := image }.metadata = d.metadata := rfl

theorem withImage_hash (d : Device) (image : Mem) (c : Nat) :
    ({ d with kbufFlush := image }.ch c).hash = (d.ch c).hash := rfl

theorem bears_setCh {c : Nat} {ch : Channel} (bears : Bears T d)
    (same : ∀ p m, ch.flash.page p = some m → (d.ch c).flash.page p = some m) : Bears T (d.setCh c ch) := by
  intro c' p m found
  by_cases here : c' = c
  · subst here
    rw [Device.setCh_ch_same] at found
    exact bears c' p m (same p m found)
  · rw [Device.setCh_ch_other _ _ here] at found
    exact bears c' p m found

/-- One page: when it answers with success, its content is in the DMA buffer. -/
theorem ssdReadTabledata_holds (bears : Bears T d) (pos : Nat) {page : Nat} (small : page < ssdPagesPerBlock) :
    Holds anyOutcome (ssdReadTabledata pos page) (fun ret d' => Peeked T d d' ∧ (ret = ssdOk →
      ∀ i < ssdPageSize, (d'.ch (posChannel pos)).kbuf i = T (posChannel pos) (pageOf pos page) i)) d := by
  refine Safe.weaken (channelOp_holds anyOutcome _ _ d) ?_
  rintro ret d' ⟨o, kbuf, flash, -, done, rfl, rfl⟩
  rw [decode_read _ small] at done
  have hash : ∀ c, ((d.setCh (posChannel pos) { d.ch (posChannel pos) with
      outstanding := none, kbuf := kbuf, flash := flash }).ch c).hash = (d.ch c).hash := by
    intro c
    by_cases here : c = posChannel pos
    · subst here
      rw [Device.setCh_ch_same]
    · rw [Device.setCh_ch_other _ _ here]
  simp only [Flash.exec] at done
  split at done
  · split at done
    · rename_i m content _
      cases done
      refine ⟨⟨rfl, rfl, hash, bears_setCh bears fun _ _ => id⟩, fun _ i less => ?_⟩
      have copied := @copyBytes_inside (d.ch (posChannel pos)).kbuf m 0 0 ssdPageSize i less
      rw [Nat.zero_add] at copied
      rw [Device.setCh_ch_same]
      exact copied.trans (bears _ _ _ content i less)
    · cases done
  · rename_i failed
    cases done
    exact ⟨⟨rfl, rfl, hash, bears_setCh bears fun _ _ => id⟩, fun ok => absurd (ChannelRet.toInt_eq_zero.1 ok) failed⟩

end Reading

/-- A `for` loop over `0, 1, .., n - 1` with a `return` in it, on the device. -/
theorem Holds.forRange {α : Type} {may : May} {n : Nat} {body : Nat → Drv (Option α)} {I : Nat → Device → Prop}
    {R : α → Device → Prop} {d : Device}
    (step : ∀ k d, k < n → I k d → Holds may (body k) (fun
      | none => I (k + 1)
      | some x => R x) d) (start : I 0 d) :
    Holds may (Program.firstSome body (List.range n)) (fun
      | none => I n
      | some x => R x) d := by
  have loop : ∀ m k d, k + m = n → I k d → Holds may (Program.firstSome body (List.range' k m)) (fun
      | none => I n
      | some x => R x) d := by
    intro m
    induction m with
    | zero =>
        rintro k d rfl holds
        exact Holds.pure holds
    | succ m ih =>
        intro k d total holds
        rw [List.range'_succ]
        refine Holds.seq (step k d (by omega) holds) fun found d' after => ?_
        cases found with
        | some x => exact Holds.pure after
        | none => exact ih (k + 1) d' (by omega) after
  rw [List.range_eq_range']
  exact loop n 0 d (Nat.zero_add n) start

section Blocks

variable {T : TableData} {d : Device} {r : SsdMetadata}

/-- **One copy**: when all its pages are read, the bytes of the block are in the image. -/
theorem readTableCopy_holds (bears : Bears T d) (pos offset : Nat) :
    Holds anyOutcome (readTableCopy pos offset) (fun found d' => Filled T offset (offset + ssdBlockSize) d d' ∧
      (found = none → ∀ i < ssdBlockSize, d'.kbufFlush (offset + i) = blockByte T pos i)) d := by
  let body : Nat → Drv (Option Int) := fun page => do
    let ret ← ssdReadTabledata pos page
    if ret ≠ ssdOk then pure (some ret)
    else
      let kbuf ← Drv.readKbuf (posChannel pos)
      Drv.modFlush fun m => copyBytes m (offset + ssdPageSize * page) kbuf 0 ssdPageSize
      pure none
  -- the pages before `k` are in the image
  let I : Nat → Device → Prop := fun k d' => Filled T offset (offset + ssdBlockSize) d d' ∧
    ∀ i < k * ssdPageSize, d'.kbufFlush (offset + i) = blockByte T pos i
  have loop := @Holds.forRange _ anyOutcome ssdPagesPerBlock body I
    (fun _ d' => Filled T offset (offset + ssdBlockSize) d d') d ?_ ?_
  · refine loop.weaken fun found d' after => ?_
    cases found with
    | none => exact ⟨after.1, fun _ => after.2⟩
    | some ret => exact ⟨after, nofun⟩
  · rintro k d1 small ⟨filled, bytes⟩
    refine Holds.seq (ssdReadTabledata_holds filled.bears pos small) ?_
    rintro ret d2 ⟨peeked, found⟩
    have now := filled.trans (peeked.filled offset (offset + ssdBlockSize))
    split
    · exact Holds.pure now
    rename_i ok
    have content := found (not_not.1 ok)
    refine Holds.seq (M := fun kbuf d3 => kbuf = (d2.ch (posChannel pos)).kbuf ∧ d3 = d2)
      (Holds.chan fun o kbuf ch _ step => ?_) ?_
    · cases step
      exact ⟨rfl, Device.setCh_self d2 _⟩
    rintro kbuf d3 ⟨rfl, rfl⟩
    refine Holds.seq (M := fun _ d4 => d4 = { d3 with
        kbufFlush := copyBytes d3.kbufFlush (offset + ssdPageSize * k) (d3.ch (posChannel pos)).kbuf 0 ssdPageSize })
      (Holds.perform fun o _ d4 _ step => ?_) ?_
    · cases step
      rfl
    rintro _ d4 rfl
    apply Holds.pure
    constructor
    · refine now.trans ⟨rfl, fun _ => rfl, peeked.bears, fun i out => copyBytes_outside ?_⟩
      simp only [ssdPagesPerBlock, ssdBlockSize, ssdPageSize] at *
      omega
    · intro i less
      by_cases new : k * ssdPageSize ≤ i
      · have few : i - k * ssdPageSize < ssdPageSize := by
          simp only [ssdPageSize] at *
          omega
        have shift : offset + i = offset + ssdPageSize * k + (i - k * ssdPageSize) := by
          simp only [ssdPageSize] at *
          omega
        have quotient : i / ssdPageSize = k := by
          simp only [ssdPageSize] at *
          omega
        have remainder : i % ssdPageSize = i - k * ssdPageSize := by
          simp only [ssdPageSize] at *
          omega
        show copyBytes _ _ _ _ _ _ = _
        rw [shift, copyBytes_inside few, Nat.zero_add, content _ few, blockByte, quotient, remainder]
      · show copyBytes _ _ _ _ _ _ = _
        rw [copyBytes_outside (.inl (by simp only [ssdPageSize] at *; omega)), peeked.image]
        exact bytes i (Nat.lt_of_not_le new)
  · exact ⟨.refl bears .., fun i no => absurd no (by omega)⟩

/-- **One block**: one of its two copies. -/
theorem readTableCopies_holds (bears : Bears T d) (metadata : d.metadata = r) (b : Nat) {copies : List Nat}
    (two : ∀ i ∈ copies, i < tableDuplicate) : Holds anyOutcome (readTableCopies b copies) (fun found d' =>
      Filled T (ssdBlockSize * b) (ssdBlockSize * b + ssdBlockSize) d d' ∧ found ≠ some ssdOk ∧
        (found = none → ∃ i < tableDuplicate, ∀ k < ssdBlockSize,
          d'.kbufFlush (ssdBlockSize * b + k) = blockByte T (r.pos (b * tableDuplicate + i)) k)) d := by
  induction copies generalizing d with
  | nil => exact Holds.pure ⟨.refl bears .., by decide, nofun⟩
  | cons i rest ih =>
      refine Holds.seq (M := fun record d1 => record = r ∧ d1 = d) (Holds.perform fun o _ d1 _ step => ?_) ?_
      · cases step
        exact ⟨metadata, rfl⟩
      rintro record d1 ⟨rfl, rfl⟩
      refine Holds.seq (readTableCopy_holds bears _ _) ?_
      rintro found d2 ⟨filled, bytes⟩
      cases found with
      | none => exact Holds.pure ⟨filled, nofun, fun _ => ⟨i, two i (List.mem_cons_self ..), bytes rfl⟩⟩
      | some ret =>
          dsimp only
          split
          · rename_i timeout
            rw [timeout]
            exact Holds.pure ⟨filled, by decide, nofun⟩
          · refine (ih filled.bears (filled.metadata.trans metadata)
              fun j member => two j (List.mem_cons_of_mem _ member)).weaken ?_
            rintro found d3 ⟨more, done⟩
            exact ⟨filled.trans more, done⟩

/-- The first `n` blocks are read. -/
def ReadUpTo (r : SsdMetadata) (T : TableData) (n : Nat) (d : Device) : Prop :=
  ∃ copy : Nat → Nat, (∀ b, copy b < tableDuplicate) ∧ ∀ a < n * ssdBlockSize, d.kbufFlush a = storedImage r T copy a

/-- One more block of the image. -/
theorem storedImage_succ {copy : Nat → Nat} {n : Nat} {d' : Device}
    (bytes : ∀ a < n * ssdBlockSize, d.kbufFlush a = storedImage r T copy a)
    (filled : Filled T (ssdBlockSize * n) (ssdBlockSize * n + ssdBlockSize) d d')
    (block : ∀ k < ssdBlockSize,
      d'.kbufFlush (ssdBlockSize * n + k) = blockByte T (r.pos (n * tableDuplicate + copy n)) k) :
    ∀ a < (n + 1) * ssdBlockSize, d'.kbufFlush a = storedImage r T copy a := by
  intro a less
  by_cases new : n * ssdBlockSize ≤ a
  · have quotient : a / ssdBlockSize = n := by
      simp only [ssdBlockSize] at *
      omega
    have byte := block _ (Nat.mod_lt a (by decide))
    have shift : ssdBlockSize * n + a % ssdBlockSize = a := by
      simp only [ssdBlockSize] at *
      omega
    rw [shift] at byte
    rw [byte, storedImage, quotient]
  · rw [filled.outside a (.inl (by simp only [ssdBlockSize] at *; omega))]
    exact bytes a (Nat.lt_of_not_le new)

theorem ReadUpTo.succ {n i : Nat} {d' : Device} (read : ReadUpTo r T n d)
    (filled : Filled T (ssdBlockSize * n) (ssdBlockSize * n + ssdBlockSize) d d') (two : i < tableDuplicate)
    (block : ∀ k < ssdBlockSize, d'.kbufFlush (ssdBlockSize * n + k) = blockByte T (r.pos (n * tableDuplicate + i)) k) :
    ReadUpTo r T (n + 1) d' := by
  obtain ⟨copy, both, bytes⟩ := read
  refine ⟨Function.update copy n i, fun b => ?_, storedImage_succ (fun a less => ?_) filled ?_⟩
  · by_cases last : b = n
    · subst last
      rw [Function.update_self]
      exact two
    · rw [Function.update_of_ne last]
      exact both b
  · have old : a / ssdBlockSize ≠ n := by
      simp only [ssdBlockSize] at *
      omega
    rw [bytes a less, storedImage, storedImage, Function.update_of_ne old]
  · rw [Function.update_self]
    exact block

/-- **All blocks.** -/
theorem ssdReadFlushTabledata_holds (bears : Bears T d) (metadata : d.metadata = r) :
    Holds anyOutcome ssdReadFlushTabledata (fun ret d' => d'.metadata = r ∧ (∀ c, (d'.ch c).hash = (d.ch c).hash) ∧
      (ret = ssdOk → ReadUpTo r T r.blockNum.toNat d')) d := by
  have blocks : ∀ fuel n d1, r.blockNum.toNat < fuel + n → Bears T d1 → d1.metadata = r →
      (∀ c, (d1.ch c).hash = (d.ch c).hash) → ReadUpTo r T n d1 →
      Holds anyOutcome (readFlushLoop fuel n) (fun ret d' => d'.metadata = r ∧ (∀ c, (d'.ch c).hash = (d.ch c).hash) ∧
        (ret = ssdOk → ReadUpTo r T r.blockNum.toNat d')) d1 := by
    have enough : ∀ {n d1}, r.blockNum.toNat ≤ n → ReadUpTo r T n d1 → ReadUpTo r T r.blockNum.toNat d1 :=
      fun less ⟨copy, two, bytes⟩ =>
        ⟨copy, two, fun a below => bytes a (Nat.lt_of_lt_of_le below (Nat.mul_le_mul_right _ less))⟩
    intro fuel
    induction fuel with
    | zero =>
        intro n d1 most _ metadata hash read
        exact Holds.pure ⟨metadata, hash, fun _ => enough (by omega) read⟩
    | succ fuel ih =>
        intro n d1 most bears metadata hash read
        refine Holds.seq (M := fun record d2 => record = r ∧ d2 = d1) (Holds.perform fun o _ d2 _ step => ?_) ?_
        · cases step
          exact ⟨metadata, rfl⟩
        rintro record d2 ⟨rfl, rfl⟩
        split
        · refine Holds.seq (readTableCopies_holds bears metadata n fun i member => List.mem_range.1 member) ?_
          rintro found d3 ⟨filled, failed, block⟩
          have hash' := fun c => (filled.hash c).trans (hash c)
          have metadata' := filled.metadata.trans metadata
          cases found with
          | some ret => exact Holds.pure ⟨metadata', hash', fun ok => absurd (congrArg some ok) failed⟩
          | none =>
              obtain ⟨i, two, bytes⟩ := block rfl
              exact ih (n + 1) d3 (by omega) filled.bears metadata' hash' (read.succ filled two bytes)
        · rename_i done
          exact Holds.pure ⟨metadata, hash, fun _ => enough (Nat.le_of_not_lt done) read⟩
  have start : ReadUpTo r T 0 d := ⟨fun _ => 0, fun _ => Nat.zero_lt_succ _, fun a no => absurd no (by omega)⟩
  unfold ssdReadFlushTabledata
  exact blocks 65536 0 d (UInt16.toNat_lt _) bears metadata (fun _ => rfl) start

end Blocks

/-! ## Reads that succeed -/

/-- Every page can be read. -/
def Readable (T : TableData) (d : Device) : Prop :=
  ∀ c p, (d.ch c).flash.page p = some (T c p) ∧ (d.ch c).flash.suspect p = false

/-- Reads of a card whose pages can be read. -/
structure Browsed (T : TableData) (d d' : Device) : Prop where
  metadata : d'.metadata = d.metadata
  hash : ∀ c, (d'.ch c).hash = (d.ch c).hash
  readable : Readable T d'

section Exists

variable {T : TableData} {d d' d'' : Device} {r : SsdMetadata}

theorem Readable.bears (readable : Readable T d) : Bears T d := by
  intro c p m found i _
  rw [(readable c p).1] at found
  cases found
  rfl

theorem Readable.withImage (readable : Readable T d) (image : Mem) :
    Readable T { d with kbufFlush := image } := readable

theorem Browsed.refl (readable : Readable T d) : Browsed T d d := ⟨rfl, fun _ => rfl, readable⟩

theorem Browsed.trans (first : Browsed T d d') (second : Browsed T d' d'') : Browsed T d d'' :=
  ⟨second.metadata.trans first.metadata, fun c => (second.hash c).trans (first.hash c), second.readable⟩

theorem browsed_setCh {c : Nat} {ch : Channel} (readable : Readable T d) (hash : ch.hash = (d.ch c).hash)
    (pages : ∀ p, ch.flash.page p = some (T c p) ∧ ch.flash.suspect p = false) : Browsed T d (d.setCh c ch) := by
  refine ⟨rfl, fun c' => ?_, fun c' p => ?_⟩
  · by_cases here : c' = c
    · subst here
      rw [Device.setCh_ch_same, hash]
    · rw [Device.setCh_ch_other _ _ here]
  · by_cases here : c' = c
    · subst here
      rw [Device.setCh_ch_same]
      exact pages p
    · rw [Device.setCh_ch_other _ _ here]
      exact readable c' p

/-- The DMA buffer is looked at. -/
theorem readKbuf_answers (d : Device) (c : Nat) :
    d.perform 0 (.chan c .readKbuf) succeeds = some ((d.ch c).kbuf, d) := by
  simp only [Device.perform, Channel.perform, Option.map_some, Device.setCh_self]

/-- A page that is read. -/
theorem exists_read (readable : Readable T d) (pos : Nat) {page : Nat} (small : page < ssdPagesPerBlock) :
    ∃ d', Run anyOutcome (ssdReadTabledata pos page) d ssdOk d' ∧ Browsed T d d' ∧ d'.kbufFlush = d.kbufFlush ∧
      ∀ i < ssdPageSize, (d'.ch (posChannel pos)).kbuf i = T (posChannel pos) (pageOf pos page) i := by
  obtain ⟨content, fine⟩ := readable (posChannel pos) (pageOf pos page)
  have done : Flash.exec
      (Command.ofWord (tableCmd (calcPhyblock pos % 65536).toNat page flagReadtablesFromFlash)) succeeds
      (d.ch (posChannel pos)).kbuf (d.ch (posChannel pos)).flash =
        some (copyBytes (d.ch (posChannel pos)).kbuf 0 (T (posChannel pos) (pageOf pos page)) 0 ssdPageSize,
          (d.ch (posChannel pos)).flash) := by
    rw [decode_read _ small]
    simp only [pageOf] at content fine
    simp only [Flash.exec, content, fine]
    rfl
  have run := @channelOp_runs anyOutcome 0 _ _ d succeeds succeeds _ _ trivial trivial done
  refine ⟨_, run, browsed_setCh readable rfl fun p => readable _ p, rfl, fun i less => ?_⟩
  rw [Device.setCh_ch_same]
  have copied :=
    @copyBytes_inside (d.ch (posChannel pos)).kbuf (T (posChannel pos) (pageOf pos page)) 0 0 ssdPageSize i less
  rwa [Nat.zero_add] at copied

/-- A page that is missed: the hardware reports an error. -/
theorem exists_miss (readable : Readable T d) (pos : Nat) {page : Nat} (small : page < ssdPagesPerBlock) :
    ∃ d', Run anyOutcome (ssdReadTabledata pos page) d 128 d' ∧ Browsed T d d' ∧ d'.kbufFlush = d.kbufFlush := by
  let failed : Outcome := { succeeds with ret := .hardware 0 }
  have done : Flash.exec
      (Command.ofWord (tableCmd (calcPhyblock pos % 65536).toNat page flagReadtablesFromFlash)) failed
      (d.ch (posChannel pos)).kbuf (d.ch (posChannel pos)).flash =
        some (copyBytes (d.ch (posChannel pos)).kbuf 0 (fun _ => 0) 0 ssdPageSize, { (d.ch (posChannel pos)).flash with
          suspect := Function.update (d.ch (posChannel pos)).flash.suspect (pageOf pos page) false }) := by
    rw [decode_read _ small]
    rfl
  have run := @channelOp_runs anyOutcome 0 _ _ d succeeds failed _ _ trivial trivial done
  refine ⟨_, run, browsed_setCh readable rfl fun p => ⟨(readable _ p).1, ?_⟩, rfl⟩
  by_cases same : p = pageOf pos page
  · subst same
    exact Function.update_self ..
  · exact (Function.update_of_ne same ..).trans (readable _ p).2

/-- A loop that is never left early. -/
theorem exists_firstSome {α ι : Type} {may : May} {I : Device → Prop} {body : ι → Drv (Option α)} {items : List ι}
    (each : ∀ i ∈ items, ∀ d, I d → ∃ d', Run may (body i) d none d' ∧ I d') (start : I d) :
    ∃ d', Run may (Program.firstSome body items) d none d' ∧ I d' := by
  induction items generalizing d with
  | nil => exact ⟨d, .pure none d, start⟩
  | cons i rest ih =>
      obtain ⟨d1, first, holds⟩ := each i (List.mem_cons_self ..) d start
      obtain ⟨d2, later, holds⟩ := ih (fun j member => each j (List.mem_cons_of_mem _ member)) holds
      exact ⟨d2, runs_bind_iff.2 ⟨none, d1, first, later⟩, holds⟩

/-- A copy that is read. -/
theorem exists_copy (readable : Readable T d) (pos offset : Nat) :
    ∃ d', Run anyOutcome (readTableCopy pos offset) d none d' ∧ Browsed T d d' := by
  refine exists_firstSome (I := Browsed T d) (fun page member d1 browsed => ?_) (.refl readable)
  obtain ⟨d2, run, more, -, -⟩ := exists_read browsed.readable pos (List.mem_range.1 member)
  let image := copyBytes d2.kbufFlush (offset + ssdPageSize * page) (d2.ch (posChannel pos)).kbuf 0 ssdPageSize
  refine ⟨{ d2 with kbufFlush := image }, runs_bind_iff.2 ⟨ssdOk, d2, run, ?_⟩,
    (browsed.trans more).trans ⟨rfl, fun _ => rfl, more.readable⟩⟩
  rw [if_neg (not_not.2 rfl)]
  exact .act (o := succeeds) trivial (readKbuf_answers d2 _) (.act (o := succeeds) trivial rfl (.pure _ _))

/-- A copy that is missed, at its first page. -/
theorem exists_missed_copy (readable : Readable T d) (pos offset : Nat) :
    ∃ d', Run anyOutcome (readTableCopy pos offset) d (some 128) d' ∧ Browsed T d d' ∧ d'.kbufFlush = d.kbufFlush := by
  obtain ⟨d', run, browsed, image⟩ := exists_miss readable pos (by decide : 0 < ssdPagesPerBlock)
  refine ⟨d', ?_, browsed, image⟩
  have first : List.range ssdPagesPerBlock = 0 :: List.range' 1 255 := by
    rw [List.range_eq_range', show ssdPagesPerBlock = 255 + 1 from rfl, List.range'_succ]
  rw [readTableCopy, first]
  refine runs_bind_iff.2 ⟨some 128, d', runs_bind_iff.2 ⟨128, d', run, ?_⟩, .pure _ _⟩
  rw [if_pos (by decide)]
  exact .pure _ _

theorem run_getMeta {α : Type} {next : SsdMetadata → Drv α} {value : α} (metadata : d.metadata = r)
    (later : Run anyOutcome (next r) d value d') : Run anyOutcome (Drv.getMeta >>= next) d value d' := by
  subst metadata
  exact runs_bind_iff.2 ⟨d.metadata, d, .act (o := succeeds) trivial rfl (.pure _ _), later⟩

theorem reaches_getMeta {α : Type} {next : SsdMetadata → Drv α} (metadata : d.metadata = r) :
    Reaches (Device.perform 0) anyOutcome (Drv.getMeta >>= next) d (next r) d := by
  subst metadata
  exact .act (o := succeeds) trivial rfl (.here _ _)

/-- A block of which the copy `i` is read. -/
theorem exists_block (readable : Readable T d) (metadata : d.metadata = r) (b : Nat) {i : Nat}
    (two : i < tableDuplicate) :
    ∃ d', Run anyOutcome (readTableCopies b (List.range tableDuplicate)) d none d' ∧ Browsed T d d' ∧
      Filled T (ssdBlockSize * b) (ssdBlockSize * b + ssdBlockSize) d d' ∧
      ∀ k < ssdBlockSize, d'.kbufFlush (ssdBlockSize * b + k) = blockByte T (r.pos (b * tableDuplicate + i)) k := by
  have one : i = 0 ∨ i = 1 := by
    simp only [tableDuplicate] at two
    omega
  rcases one with rfl | rfl
  · obtain ⟨d1, run, browsed⟩ := exists_copy readable (r.pos (b * tableDuplicate + 0)) (ssdBlockSize * b)
    obtain ⟨filled, bytes⟩ := (readTableCopy_holds readable.bears _ _).runs run
    refine ⟨d1, ?_, browsed, filled, bytes rfl⟩
    exact run_getMeta metadata (runs_bind_iff.2 ⟨none, d1, run, .pure _ _⟩)
  · obtain ⟨d1, miss, browsed, -⟩ := exists_missed_copy readable (r.pos (b * tableDuplicate + 0)) (ssdBlockSize * b)
    obtain ⟨d2, run, more⟩ := exists_copy browsed.readable (r.pos (b * tableDuplicate + 1)) (ssdBlockSize * b)
    obtain ⟨missed, -⟩ := (readTableCopy_holds readable.bears _ _).runs miss
    obtain ⟨filled, bytes⟩ := (readTableCopy_holds browsed.readable.bears _ _).runs run
    refine ⟨d2, ?_, browsed.trans more, missed.trans filled, bytes rfl⟩
    refine run_getMeta metadata (runs_bind_iff.2 ⟨some 128, d1, miss, ?_⟩)
    dsimp only
    rw [if_neg (by decide)]
    exact run_getMeta (browsed.metadata.trans metadata) (runs_bind_iff.2 ⟨none, d2, run, .pure _ _⟩)

/-- The loader comes to every block of the record, with any copies of those before it. -/
theorem exists_blocks (readable : Readable T d) (metadata : d.metadata = r) {copy : Nat → Nat}
    (two : ∀ b, copy b < tableDuplicate) (n fuel : Nat) (inside : n ≤ r.blockNum.toNat) :
    ∃ d', Reaches (Device.perform 0) anyOutcome (readFlushLoop (n + fuel) 0) d (readFlushLoop fuel n) d' ∧
      Browsed T d d' ∧ ∀ a < n * ssdBlockSize, d'.kbufFlush a = storedImage r T copy a := by
  induction n generalizing fuel with
  | zero =>
      rw [Nat.zero_add]
      exact ⟨d, .here _ _, .refl readable, fun a no => absurd no (by omega)⟩
  | succ n ih =>
      obtain ⟨d1, reach, browsed, bytes⟩ := ih (fuel + 1) (Nat.le_of_succ_le inside)
      have same := browsed.metadata.trans metadata
      obtain ⟨d2, run, more, filled, block⟩ := exists_block browsed.readable same n (two n)
      rw [show n + 1 + fuel = n + (fuel + 1) by omega]
      refine ⟨d2, reach.trans ?_, browsed.trans more, storedImage_succ bytes filled block⟩
      refine .act (o := succeeds) (r := r) trivial
        (show d1.perform 0 .getMeta succeeds = some (r, d1) by rw [← same]; rfl) ?_
      dsimp only [Program.bind]
      rw [if_pos (show n < r.blockNum.toNat from inside)]
      exact run.reaches.bind _

/-- All blocks are read, with any copies. -/
theorem exists_tabledata (readable : Readable T d) (metadata : d.metadata = r) {copy : Nat → Nat}
    (two : ∀ b, copy b < tableDuplicate) : ∃ d', Run anyOutcome ssdReadFlushTabledata d ssdOk d' ∧ Browsed T d d' ∧
      ∀ a < r.blockNum.toNat * ssdBlockSize, d'.kbufFlush a = storedImage r T copy a := by
  have most := UInt16.toNat_lt r.blockNum
  obtain ⟨d1, reach, browsed, bytes⟩ :=
    exists_blocks readable metadata two r.blockNum.toNat (65535 - r.blockNum.toNat + 1) (Nat.le_refl _)
  rw [show r.blockNum.toNat + (65535 - r.blockNum.toNat + 1) = 65536 by omega] at reach
  unfold ssdReadFlushTabledata
  refine ⟨d1, (reach.trans (Runs.reaches ?_)).runs, browsed, bytes⟩
  refine run_getMeta (browsed.metadata.trans metadata) ?_
  rw [if_neg (Nat.lt_irrefl _)]
  exact .pure _ _

end Exists

/-! ## The search -/

/-- Commands that read: the hash table stays, and no page changes. -/
structure Sought (T : TableData) (d d' : Device) : Prop where
  hash : ∀ c, (d'.ch c).hash = (d.ch c).hash
  bears : Bears T d'
  readable : Readable T d → Readable T d'

section Search

variable {T : TableData} {d d' d'' : Device}

theorem Sought.refl (bears : Bears T d) : Sought T d d := ⟨fun _ => rfl, bears, id⟩

theorem Sought.trans (first : Sought T d d') (second : Sought T d' d'') : Sought T d d'' :=
  ⟨fun c => (second.hash c).trans (first.hash c), second.bears,
    fun readable => second.readable (first.readable readable)⟩

/-- One page is read. -/
theorem ssdReadMetadata_sought (bears : Bears T d) (pos : Nat) {page : Nat} (small : page < ssdPagesPerBlock) :
    Holds anyOutcome (ssdReadMetadata pos page) (fun _ d' => Sought T d d' ∧ d'.metaPos = d.metaPos) d := by
  refine Safe.weaken (channelOp_holds anyOutcome _ _ d) ?_
  rintro ret d' ⟨o, kbuf, flash, -, done, -, rfl⟩
  rw [decode_read _ small] at done
  have pages : flash.page = (d.ch (posChannel pos)).flash.page ∧
      ∀ p, (d.ch (posChannel pos)).flash.suspect p = false → flash.suspect p = false := by
    simp only [Flash.exec] at done
    split at done
    · split at done
      · cases done
        exact ⟨rfl, fun _ => id⟩
      · cases done
    · cases done
      refine ⟨rfl, fun p fine => ?_⟩
      by_cases same : p = pageOf pos page
      · subst same
        exact Function.update_self ..
      · exact (Function.update_of_ne same ..).trans fine
  refine ⟨⟨fun c => ?_, bears_setCh bears fun p m found => by rwa [← pages.1], fun readable => ?_⟩, rfl⟩
  · by_cases here : c = posChannel pos
    · subst here
      rw [Device.setCh_ch_same]
    · rw [Device.setCh_ch_other _ _ here]
  · apply Browsed.readable (d := d)
    refine browsed_setCh readable ?_ fun p => ?_
    · rfl
    obtain ⟨content, fine⟩ := readable (posChannel pos) p
    exact ⟨by rw [pages.1]; exact content, pages.2 p fine⟩

theorem readKbuf_holds (c : Nat) (d : Device) : Holds anyOutcome (Drv.readKbuf c) (fun _ d' => d' = d) d := by
  refine Holds.chan fun o kbuf ch _ step => ?_
  cases step
  exact Device.setCh_self d _

/-- An error, or a version that, unless it is zero, was found in a block that exists. -/
def Seated (d : Device) : Except Int UInt64 → Prop
  | .error ret => ret ≠ ssdOk
  | .ok version => version ≠ 0 → d.metaPos.blockPos + ssdMaxPlanes ≤ metaBitmapSize * ssdMaxPlanes

theorem searchGroup_sought {g : Nat} (group : g < metaBitmapSize) (planes : List Nat)
    {version : UInt64} (bears : Bears T d)
    (seated : Seated d (.ok version)) : Holds anyOutcome (searchGroup g version planes) (fun found d' =>
      Sought T d d' ∧ Seated d' found) d := by
  induction planes generalizing d with
  | nil => exact Holds.pure ⟨.refl bears, seated⟩
  | cons plane rest ih =>
      have more : ∀ d1, Sought T d d1 → d1.metaPos = d.metaPos → Holds anyOutcome (searchGroup g version rest)
          (fun found d' => Sought T d d' ∧ Seated d' found) d1 := by
        intro d1 sought same
        refine (ih sought.bears (by rwa [Seated, same])).weaken fun found d2 after => ?_
        exact ⟨sought.trans after.1, after.2⟩
      refine Holds.seq (ssdReadMetadata_sought bears _ (by decide)) ?_
      rintro ret d1 ⟨sought, same⟩
      split
      · rename_i timeout
        refine Holds.pure ⟨sought, ?_⟩
        rw [timeout]
        exact Int.noConfusion
      split
      · exact more d1 sought same
      refine Holds.seq (readKbuf_holds _ d1) ?_
      rintro kbuf _ rfl
      dsimp only
      split
      · exact more _ sought same
      split
      · refine Holds.seq (M := fun _ d2 => Sought T d d2 ∧ d2.metaPos.blockPos = g * ssdMaxPlanes)
          (Holds.perform fun o _ d2 _ step => ?_) ?_
        · cases step
          exact ⟨⟨sought.hash, sought.bears, sought.readable⟩, rfl⟩
        rintro _ d2 ⟨sought, here⟩
        refine Holds.pure ⟨sought, fun _ => ?_⟩
        rw [here]
        simp only [metaBitmapSize, ssdMaxPlanes] at *
        omega
      · refine Holds.pure ⟨sought, ?_⟩
        rwa [Seated, same]

theorem searchGroups_sought {groups : List Nat} (inside : ∀ g ∈ groups, g < metaBitmapSize) {version : UInt64}
    (bears : Bears T d) (seated : Seated d (.ok version)) :
    Holds anyOutcome (searchGroups groups version) (fun found d' =>
      Sought T d d' ∧ Seated d' found) d := by
  induction groups generalizing d version with
  | nil => exact Holds.pure ⟨.refl bears, seated⟩
  | cons g rest ih =>
      refine Holds.seq (searchGroup_sought (inside g (List.mem_cons_self ..)) _ bears seated) ?_
      rintro found d1 ⟨sought, seated⟩
      cases found with
      | error ret => exact Holds.pure ⟨sought, seated⟩
      | ok version' =>
          refine (ih (fun j member => inside j (List.mem_cons_of_mem _ member)) sought.bears seated).weaken ?_
          rintro found d2 ⟨later, seated⟩
          exact ⟨sought.trans later, seated⟩

theorem searchBlockMetadata_sought (bears : Bears T d) : Holds anyOutcome searchBlockMetadata (fun ret d' =>
    Sought T d d' ∧ (ret = ssdOk → d'.metaPos.blockPos + ssdMaxPlanes ≤ metaBitmapSize * ssdMaxPlanes)) d := by
  refine Holds.seq (searchGroups_sought (fun g => List.mem_range.1) bears fun no => absurd rfl no) ?_
  rintro found d1 ⟨sought, seated⟩
  cases found with
  | error ret => exact Holds.pure ⟨sought, fun ok => absurd ok seated⟩
  | ok version =>
      refine Holds.pure ⟨sought, fun ok => seated fun zero => ?_⟩
      rw [if_neg (not_not.2 zero)] at ok
      exact absurd ok (by decide)

/-- The page that is accepted has a valid magic. -/
theorem searchPage_sought (bears : Bears T d) (pos plane : Nat) {page : Nat} (small : page < ssdPagesPerBlock) :
    Holds anyOutcome (searchPage pos page plane) (fun found d' =>
      Sought T d d' ∧ (found = some ssdOk → metadataCheckVal d'.metadata = ssdOk)) d := by
  refine Holds.seq (ssdReadMetadata_sought bears _ small) ?_
  rintro ret d1 ⟨sought, -⟩
  split
  · rename_i timeout
    refine Holds.pure ⟨sought, fun ok => ?_⟩
    rw [timeout] at ok
    exact absurd ok (by decide)
  split
  · exact Holds.pure ⟨sought, nofun⟩
  refine Holds.seq (readKbuf_holds _ d1) ?_
  rintro kbuf _ rfl
  dsimp only
  split
  · exact Holds.pure ⟨sought, nofun⟩
  rename_i valid
  refine Holds.seq (M := fun _ d2 => Sought T d d2 ∧ metadataCheckVal d2.metadata = ssdOk)
    (Holds.perform fun o _ d2 _ step => ?_) ?_
  · cases step
    exact ⟨⟨sought.hash, sought.bears, sought.readable⟩, not_not.1 valid⟩
  rintro _ d2 ⟨sought, valid⟩
  refine Holds.seq (M := fun _ d3 => Sought T d d3 ∧ metadataCheckVal d3.metadata = ssdOk)
    (Holds.perform fun o _ d3 _ step => ?_) fun _ d3 after => Holds.pure ⟨after.1, fun _ => after.2⟩
  cases step
  exact ⟨⟨sought.hash, sought.bears, sought.readable⟩, valid⟩

theorem searchPageMetadata_sought (bears : Bears T d) : Holds anyOutcome searchPageMetadata (fun ret d' =>
    Sought T d d' ∧ (ret = ssdOk → metadataCheckVal d'.metadata = ssdOk)) d := by
  have planes : ∀ pos page, page < ssdPagesPerBlock → ∀ d1, Sought T d d1 → Holds anyOutcome
      (Program.firstSome (fun plane => searchPage pos page plane) (List.range ssdMaxPlanes)) (fun found d' =>
        Sought T d d' ∧ (found = some ssdOk → metadataCheckVal d'.metadata = ssdOk)) d1 := by
    intro pos page small d1 sought
    refine Safe.firstSome (alone_steady _) (I := fun _ => Sought T d) (fun plane rest d2 sought => ?_) ?_ sought
    · refine (searchPage_sought sought.bears pos plane small).weaken ?_
      rintro found d3 ⟨later, valid⟩
      cases found with
      | none => exact sought.trans later
      | some ret =>
          rintro _ rfl
          exact ⟨sought.trans later, valid⟩
    · rintro d2 _ sought rfl
      exact ⟨sought, nofun⟩
  refine Holds.seq (M := fun _ d1 => d = d1) (Holds.perform fun o _ d1 _ step => ?_) ?_
  · cases step
    rfl
  rintro p _ rfl
  refine Holds.seq (M := fun found d' => Sought T d d' ∧ (found = some ssdOk → metadataCheckVal d'.metadata = ssdOk))
    (Safe.firstSome (alone_steady _)
      (I := fun pages d1 => Sought T d d1 ∧ ∀ page ∈ pages, page < ssdPagesPerBlock)
      (fun page rest d1 holds => ?_) ?_
      ⟨.refl bears, fun page member => List.mem_range.1 (List.mem_reverse.1 member)⟩) ?_
  · refine (planes p.blockPos page (holds.2 page (List.mem_cons_self ..)) d1 holds.1).weaken ?_
    rintro found d2 ⟨sought, valid⟩
    cases found with
    | none => exact ⟨sought, fun page member => holds.2 page (List.mem_cons_of_mem _ member)⟩
    | some ret =>
        rintro _ rfl
        exact ⟨sought, valid⟩
  · rintro d1 _ ⟨sought, -⟩ rfl
    exact ⟨sought, nofun⟩
  · rintro found d1 ⟨sought, valid⟩
    cases found with
    | some ret => exact Holds.pure ⟨sought, fun ok => valid (congrArg some ok)⟩
    | none => exact Holds.pure ⟨sought, fun ok => absurd ok (by decide)⟩

/-- **The search** changes no page, and the record that it finds has a valid magic. -/
theorem ssdSearchMetadata_sought (bears : Bears T d) : Holds anyOutcome ssdSearchMetadata (fun ret d' =>
    Sought T d d' ∧ (ret = ssdOk → metadataCheckVal d'.metadata = ssdOk)) d := by
  refine Holds.seq (searchBlockMetadata_sought bears) ?_
  rintro ret d1 ⟨sought, -⟩
  split
  · rename_i failed
    exact Holds.pure ⟨sought, fun ok => absurd ok failed⟩
  · refine (searchPageMetadata_sought sought.bears).weaken ?_
    rintro ret d2 ⟨later, valid⟩
    exact ⟨sought.trans later, valid⟩

/-- Actions that stay inside their bounds and do not read the image. -/
def Bounded (a : Act) : Prop := Indexes a ∧ a ≠ .readFlush

theorem channelOp_bounded {c : Nat} (inside : c < ssdMaxChannel) (cmd : Nat) : (channelOp c cmd).All Bounded :=
  ⟨⟨inside, nofun⟩, fun _ => ⟨⟨inside, nofun⟩, fun _ => trivial⟩⟩

/-- The positions of metadata blocks are on channels that exist. -/
theorem metaChannel_lt {pos : Nat} (inside : pos < metaBitmapSize * ssdMaxPlanes) : posChannel pos < ssdMaxChannel := by
  simp only [posChannel, reserveBlocksPerChannel, metaBitmapSize, ssdMaxPlanes, ssdMaxChannel] at *
  omega

theorem readKbuf_bounded {c : Nat} (inside : c < ssdMaxChannel) : (Drv.readKbuf c).All Bounded :=
  .perform ⟨inside, nofun⟩

theorem searchBlockMetadata_bounded : searchBlockMetadata.All Bounded := by
  have planes : ∀ g, g < metaBitmapSize → ∀ items, (∀ plane ∈ items, plane < ssdMaxPlanes) →
      ∀ version, (searchGroup g version items).All Bounded := by
    intro g group items
    induction items with
    | nil => exact fun _ _ => trivial
    | cons plane rest ih =>
        intro inside version
        have channel : posChannel (g * ssdMaxPlanes + plane) < ssdMaxChannel := by
          apply metaChannel_lt
          have first := inside plane (List.mem_cons_self ..)
          simp only [metaBitmapSize, ssdMaxPlanes] at *
          omega
        have more := ih (fun j member => inside j (List.mem_cons_of_mem _ member)) version
        apply (channelOp_bounded channel _).bind
        intro ret
        split
        · trivial
        split
        · exact more
        apply (readKbuf_bounded channel).bind
        intro kbuf
        dsimp only
        split
        · exact more
        split
        · exact Program.All.bind (p := Drv.modMetaPos _) (.perform ⟨trivial, nofun⟩) fun _ => trivial
        · trivial
  have groups : ∀ items, (∀ g ∈ items, g < metaBitmapSize) → ∀ version, (searchGroups items version).All Bounded := by
    intro items
    induction items with
    | nil => exact fun _ _ => trivial
    | cons g rest ih =>
        intro inside version
        apply (planes g (inside g (List.mem_cons_self ..)) _ (fun _ => List.mem_range.1) version).bind
        intro found
        cases found with
        | error ret => trivial
        | ok version => exact ih (fun j member => inside j (List.mem_cons_of_mem _ member)) version
  apply (groups _ (fun _ => List.mem_range.1) 0).bind
  intro found
  cases found <;> trivial

theorem searchPage_bounded {pos plane : Nat} (inside : pos + plane < metaBitmapSize * ssdMaxPlanes) (page : Nat) :
    (searchPage pos page plane).All Bounded := by
  apply (channelOp_bounded (metaChannel_lt inside) _).bind
  intro ret
  split
  · trivial
  split
  · trivial
  apply (readKbuf_bounded (metaChannel_lt (Nat.lt_of_le_of_lt (Nat.le_add_right pos plane) inside))).bind
  intro kbuf
  dsimp only
  split
  · trivial
  · exact Program.All.bind (p := Drv.modMeta _) (.perform ⟨trivial, nofun⟩) fun _ =>
      Program.All.bind (p := Drv.modMetaPos _) (.perform ⟨trivial, nofun⟩) fun _ => trivial

/-- The second half of the search, where the first half has found a block. -/
theorem searchPageMetadata_bounded {a : Act} {rest : a.Reply → Drv Int}
    (seated : d.metaPos.blockPos + ssdMaxPlanes ≤ metaBitmapSize * ssdMaxPlanes)
    (run : Reaches (Device.perform 0) anyOutcome searchPageMetadata d (.act a rest) d') : Bounded a := by
  cases run with
  | here => exact ⟨trivial, nofun⟩
  | act _ step later =>
      cases step
      have pages : ∀ page, (Program.firstSome (fun plane => searchPage d.metaPos.blockPos page plane)
          (List.range ssdMaxPlanes)).All Bounded := by
        intro page
        apply Program.All.firstSome
        intro plane member
        exact searchPage_bounded (Nat.lt_of_lt_of_le (Nat.add_lt_add_left (List.mem_range.1 member) _) seated) page
      refine (later.all (Program.All.bind (p := Program.firstSome _ _)
        (Program.All.firstSome fun page _ => pages page) fun found => ?_)).1
      cases found <;> trivial

/-- **The search stays in bounds.** -/
theorem ssdSearchMetadata_inBounds {q : Drv Int} (bears : Bears T d)
    (run : Reaches (Device.perform 0) anyOutcome ssdSearchMetadata d q d') : InBounds q := by
  cases q with
  | pure value => trivial
  | act a rest =>
      suffices bounded : Bounded a from ⟨bounded.1, .other bounded.2 rest⟩
      rcases reaches_bind run with ⟨rest', first⟩ | ⟨ret, d1, first, later⟩
      · exact (first.all searchBlockMetadata_bounded).1
      · obtain ⟨-, seated⟩ := (searchBlockMetadata_sought bears).runs first
        by_cases ok : ret = ssdOk
        · rw [if_neg (not_not.2 ok)] at later
          exact searchPageMetadata_bounded (seated ok) later
        · rw [if_pos ok] at later
          cases later

/-- A page that is read into the DMA buffer. -/
theorem exists_record (readable : Readable T d) (pos : Nat) {page : Nat} (small : page < ssdPagesPerBlock) :
    ∃ d' kbuf, Run anyOutcome (ssdReadMetadata pos page) d ssdOk d' ∧
      Run anyOutcome (Drv.readKbuf (posChannel pos)) d' kbuf d' ∧ Readable T d' ∧ d'.metaPos = d.metaPos ∧
      SsdMetadata.decode kbuf = SsdMetadata.decode (T (posChannel pos) (pageOf pos page)) := by
  obtain ⟨d', run, browsed, -, content⟩ := exists_read readable pos small
  obtain ⟨-, same⟩ := (ssdReadMetadata_sought readable.bears pos small).runs run
  refine ⟨d', (d'.ch (posChannel pos)).kbuf, run, ?_, browsed.readable, same, SsdMetadata.decode_congr fun i few => ?_⟩
  · exact .act (o := succeeds) trivial (readKbuf_answers d' _) (.pure _ _)
  · exact content i (Nat.lt_of_lt_of_le few (by decide))

/-- Planes that are missed. -/
theorem exists_missed_planes (readable : Readable T d) (g : Nat) (version : UInt64) (planes : List Nat) :
    ∃ d', Run anyOutcome (searchGroup g version planes) d (.ok version) d' ∧ Readable T d' ∧
    d'.metaPos = d.metaPos := by
  induction planes generalizing d with
  | nil => exact ⟨d, .pure _ _, readable, rfl⟩
  | cons plane rest ih =>
      obtain ⟨d1, miss, browsed, -⟩ := exists_miss readable (g * ssdMaxPlanes + plane)
          (by decide : 0 < ssdPagesPerBlock)
      obtain ⟨-, same⟩ := (ssdReadMetadata_sought readable.bears _ (by decide)).runs miss
      obtain ⟨d2, run, readable, same'⟩ := ih browsed.readable
      refine ⟨d2, runs_bind_iff.2 ⟨128, d1, miss, ?_⟩, readable, same'.trans same⟩
      rw [if_neg (by decide), if_pos (by decide)]
      exact run

/-- Groups that are missed. -/
theorem exists_missed_groups (readable : Readable T d) (version : UInt64) (groups : List Nat) :
    ∃ d', Run anyOutcome (searchGroups groups version) d (.ok version) d' ∧ Readable T d' ∧ d'.metaPos = d.metaPos := by
  induction groups generalizing d with
  | nil => exact ⟨d, .pure _ _, readable, rfl⟩
  | cons g rest ih =>
      obtain ⟨d1, missed, readable, same⟩ := exists_missed_planes readable g version (List.range ssdMaxPlanes)
      obtain ⟨d2, run, readable, same'⟩ := ih readable
      exact ⟨d2, runs_bind_iff.2 ⟨.ok version, d1, missed, run⟩, readable, same'.trans same⟩

/-- The search can find the record of the last page of the first block. -/
theorem exists_found (readable : Readable T d) {first r : SsdMetadata}
    (head : SsdMetadata.decode (T 0 (pageOf 0 0)) = first)
    (accepted : metadataCheckVal first = ssdOk) (newer : 0 < first.version)
    (last : SsdMetadata.decode (T 0 (pageOf 0 255)) = r) (valid : metadataCheckVal r = ssdOk) :
    ∃ d', Run anyOutcome ssdSearchMetadata d ssdOk d' ∧ d'.metadata = r := by
  obtain ⟨d1, kbuf, read, look, readable, -, content⟩ := exists_record readable 0 (by decide : 0 < ssdPagesPerBlock)
  let seen : Device := { d1 with metaPos := { d1.metaPos with blockPos := 0 } }
  obtain ⟨d2, missed, readable, same⟩ := exists_missed_groups (T := T) (d := seen)
      (fun c p => readable c p) first.version (List.range' 1 9)
  obtain ⟨d3, kbuf', read', look', -, -, content'⟩ := exists_record readable 0 (by decide : 255 < ssdPagesPerBlock)
  have here : d2.metaPos.blockPos = 0 := congrArg MetaPosition.blockPos same
  rw [show posChannel 0 = 0 from rfl] at content content' look look'
  rw [head] at content
  rw [last] at content'
  have block : Run anyOutcome searchBlockMetadata d ssdOk d2 := by
    refine runs_bind_iff.2 ⟨.ok first.version, d2, ?_, ?_⟩
    · refine runs_bind_iff.2 ⟨.ok first.version, seen, ?_, missed⟩
      refine runs_bind_iff.2 ⟨ssdOk, d1, read, ?_⟩
      rw [if_neg (by decide), if_neg (not_not.2 rfl)]
      refine runs_bind_iff.2 ⟨kbuf, d1, look, ?_⟩
      dsimp only
      rw [content, if_neg (not_not.2 accepted), if_pos newer]
      exact .act (o := succeeds) trivial rfl (.pure _ _)
    · dsimp only
      rw [if_pos (by rintro zero; rw [zero] at newer; exact absurd newer (by decide))]
      exact .pure _ _
  let found : Device := { d3 with metadata := r, metaPos := { d3.metaPos with page := 255 } }
  have page : Run anyOutcome (searchPage d2.metaPos.blockPos 255 0) d2 (some ssdOk) found := by
    rw [here]
    refine runs_bind_iff.2 ⟨ssdOk, d3, read', ?_⟩
    rw [if_neg (by decide), if_neg (not_not.2 rfl)]
    refine runs_bind_iff.2 ⟨kbuf', d3, look', ?_⟩
    dsimp only
    rw [content', if_neg (not_not.2 valid)]
    exact .act (o := succeeds) trivial rfl (.act (o := succeeds) trivial rfl (.pure _ _))
  have downward : (List.range ssdPagesPerBlock).reverse = 255 :: (List.range 255).reverse := by
    rw [show ssdPagesPerBlock = 255 + 1 from rfl, List.range_succ, List.reverse_append]
    rfl
  refine ⟨found, runs_bind_iff.2 ⟨ssdOk, d2, block, ?_⟩, rfl⟩
  rw [if_neg (not_not.2 rfl)]
  refine runs_bind_iff.2 ⟨d2.metaPos, d2, .act (o := succeeds) trivial rfl (.pure _ _), ?_⟩
  refine runs_bind_iff.2 ⟨some ssdOk, found, ?_, .pure _ _⟩
  rw [downward]
  exact runs_bind_iff.2 ⟨some ssdOk, found, runs_bind_iff.2 ⟨some ssdOk, found, page, .pure _ _⟩, .pure _ _⟩

end Search

end FpgaSsd.Theory
