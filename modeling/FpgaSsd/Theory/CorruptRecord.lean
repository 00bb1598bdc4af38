/-
# Theory.CorruptRecord — what a corrupt metadata record makes of a card

A record whose magic is right is accepted whatever else it says, and the table data are not
checked at all.

* `LoadedInRange` — what a load that succeeds has used;
* `loadRecord_holds` — the image is made of the copies that were read, and the entries of
  its list are in the hash table;
* `exists_load` — every choice of the copies is read in some run;
* `loads_safely_iff` — the records and table data that are loaded safely.
-/
import FpgaSsd.Theory.Partition
import FpgaSsd.Theory.TableRead

namespace FpgaSsd.Theory

open FpgaSsd.Lib FpgaSsd.Driver

set_option autoImplicit false

/-! ## Rebuilding the table -/

/-- The entry of the id list. -/
def listed (image : Mem) (i : Nat) : FlushIdInfo := FlushIdInfo.decode image (idListOffset + flushIdInfoSize * i)

/-- The node has the blocks of the entry. -/
def SameBlocks (node : HashNode) (entry : FlushIdInfo) : Prop :=
  node.info.block = entry.info.block ∧ node.info.len = entry.info.len

/-- Every new node has the blocks of an entry from `i` on, `n` of them. -/
def NodesFrom (image : Mem) (i n : Nat) (d d' : Device) : Prop :=
  ∀ c b, ∀ node ∈ ((d'.ch c).hash b).first, node ∈ ((d.ch c).hash b).first ∨
    ∃ j, i ≤ j ∧ j < i + n ∧ SameBlocks node (listed image j)

section Rebuilding

variable {d : Device} {r : SsdMetadata}

/-- The nodes behind an insertion. -/
theorem mem_insert {c c' b b' : Nat} {node new : HashNode} :
    node ∈ (((d.setCh c' ((d.ch c').setHead b' (((d.ch c').hash b').insert new))).ch c).hash b).first ↔
      node ∈ ((d.ch c).hash b).first ∨ c = c' ∧ b = b' ∧ node = new := by
  by_cases channel : c = c'
  · subst channel
    rw [Device.setCh_ch_same]
    by_cases bucket : b = b'
    · subst bucket
      simp only [Channel.setHead, Function.update_self, HashHead.insert, List.mem_cons, true_and]
      exact or_comm
    · simp only [Channel.setHead, Function.update_of_ne bucket, bucket, false_and, and_false, or_false]
  · simp only [Device.setCh_ch_other _ _ channel, channel, false_and, or_false]

theorem setIdInfo_holds (id : BlockId) (info : IdInfo) : Holds anyOutcome (Drv.setIdInfo id info) (fun _ d' =>
    d'.kbufFlush = d.kbufFlush ∧ ∀ c b, ∀ node ∈ ((d'.ch c).hash b).first,
      node ∈ ((d.ch c).hash b).first ∨ node = ⟨id, info⟩) d := by
  apply Holds.chan
  intro o _ ch _ step
  simp only [Channel.perform] at step
  split at step
  · cases step
  · cases step
    exact ⟨rfl, fun c b node member => (mem_insert.1 member).imp (fun old => old) fun new => new.2.2⟩

/-- The channel of an entry is replaced. -/
theorem sameBlocks_entry (entry : FlushIdInfo) (channel : Fin 64) :
    SameBlocks ⟨entry.id, { entry.info with channel := channel }⟩ entry := ⟨rfl, rfl⟩

theorem rebuildEntries_holds (n i : Nat) : Holds anyOutcome (rebuildEntries true n i)
    (fun _ d' => NodesFrom d.kbufFlush i n d d') d := by
  induction n generalizing i d with
  | zero => exact Holds.pure fun c b node member => .inl member
  | succ n ih =>
      have more : ∀ d1, d1.kbufFlush = d.kbufFlush → (∀ c b, ∀ node ∈ ((d1.ch c).hash b).first,
          node ∈ ((d.ch c).hash b).first ∨ SameBlocks node (listed d.kbufFlush i)) →
          Holds anyOutcome (rebuildEntries true n (i + 1)) (fun _ d' => NodesFrom d.kbufFlush i (n + 1) d d') d1 := by
        intro d1 image first
        refine (ih (d := d1) (i + 1)).weaken ?_
        rw [image]
        intro _ d' later c b node member
        rcases later c b node member with old | ⟨j, from_, below, same⟩
        · rcases first c b node old with older | same
          · exact .inl older
          · exact .inr ⟨i, Nat.le_refl i, by omega, same⟩
        · exact .inr ⟨j, by omega, by omega, same⟩
      refine Holds.seq (M := fun image d1 => image = d.kbufFlush ∧ d1 = d) (Holds.perform fun o _ d1 _ step => ?_) ?_
      · cases step
        exact ⟨rfl, rfl⟩
      rintro image d1 ⟨rfl, rfl⟩
      dsimp only
      split
      · exact more d1 rfl fun c b node member => .inl member
      refine Holds.seq (setIdInfo_holds _ _) ?_
      rintro ret d2 ⟨image, inserted⟩
      have first : ∀ c b, ∀ node ∈ ((d2.ch c).hash b).first,
          node ∈ ((d1.ch c).hash b).first ∨ SameBlocks node (listed d1.kbufFlush i) := by
        intro c b node member
        rcases inserted c b node member with old | rfl
        · exact .inl old
        · exact .inr (sameBlocks_entry (listed d1.kbufFlush i) _)
      split
      · refine Holds.pure fun c b node member => ?_
        exact (first c b node member).imp id fun same => ⟨i, Nat.le_refl i, by omega, same⟩
      · exact more d2 image first

theorem ssdRebuildErasetable_neutral : ssdRebuildErasetable.All Act.Neutral := by
  apply Program.All.bind (p := Drv.getMeta) (.perform trivial)
  intro record
  split
  · trivial
  refine Program.All.bind (.firstSome fun channel _ => ?_) fun _ => trivial
  apply Program.All.bind (p := Drv.modFlush _) (.perform trivial)
  intro _
  exact .firstSome fun b _ => Program.All.bind (p := Drv.chan channel (.copyBucket b)) (.perform trivial) fun nodes =>
    Program.All.bind (p := Drv.modFlush _) (.perform trivial) fun _ => trivial

theorem ssdUpdataTables_neutral : ssdUpdataTables.All Act.Neutral := by
  have table : ∀ channel offset flag, (updataTable channel offset flag).All Act.Neutral := fun channel offset flag =>
    Program.All.bind (p := Drv.readFlush) (.perform trivial) fun _ =>
      Program.All.bind (p := Drv.modKbuf channel _) (.perform trivial) fun _ =>
        (channelOp_onBuffer ..).mono fun _ => Act.OnBuffer.neutral
  refine Program.All.bind (.firstSome fun channel _ => ?_) fun found => by cases found <;> trivial
  apply (table ..).bind
  intro ret
  split
  · trivial
  · exact (table ..).bind fun _ => trivial

end Rebuilding

/-! ## The whole load -/

/-- The blocks of an id lie in its channel. -/
def Fits (info : IdInfo) : Prop := info.block.val + info.len.size ≤ ssdMaxVirblocksPerChannel

/-- The record counts one to five blocks, the positions of their copies are reserved blocks,
and the list of ids ends in the image. -/
structure InRange (r : SsdMetadata) : Prop where
  some : 1 ≤ r.blockNum.toNat
  few : r.blockNum.toNat ≤ 5
  positions : ∀ k < tableDuplicate * r.blockNum.toNat, r.pos k < reserveBlocksTotal
  list : tabledataBytes r.idNum.toNat ≤ r.blockNum.toNat * ssdBlockSize

/-- A load from `d` to `d'` has used values in range, and every id that it inserted fits. -/
structure LoadedInRange (r : SsdMetadata) (d d' : Device) : Prop where
  range : InRange r
  inserted : ∀ c b, ∀ node ∈ ((d'.ch c).hash b).first, node ∈ ((d.ch c).hash b).first ∨ Fits node.info

/-- The record stays in the buffers; and a closed one is in range, and every entry of its
list fits, whichever copies of the blocks are read. -/
structure SoundRecord (r : SsdMetadata) (T : TableData) : Prop where
  few : r.blockNum.toNat ≤ 5
  channels : OnChannels r
  closed : normalUninstall r = true → InRange r ∧ ∀ copy : Nat → Nat, (∀ b, copy b < tableDuplicate) →
    ∀ i < r.idNum.toNat, Fits (listed (storedImage r T copy) i).info

section Safe

variable {r : SsdMetadata} {T : TableData} {d : Device}

theorem idMax_eq (small : r.idNum.toNat < 2 ^ 31) : idMax r = r.idNum.toNat := by
  have same : r.idNum.toInt32.toInt = r.idNum.toNat := by
    have half : 2 * r.idNum.toBitVec.toNat < 2 ^ 32 := by
      rw [show r.idNum.toBitVec.toNat = r.idNum.toNat from rfl]
      omega
    show r.idNum.toBitVec.toInt = _
    rw [BitVec.toInt_eq_toNat_cond, if_pos half]
    rfl
  rw [idMax, same, Int.toNat_natCast]

/-- A list that ends in the image is short. -/
theorem InRange.idMax (range : InRange r) : idMax r = r.idNum.toNat := by
  apply idMax_eq
  have few := range.few
  have list := range.list
  simp only [tabledataBytes, idListOffset, flushIdInfoSize, ssdBlockSize] at list
  omega

/-- The entries of the list are those of the blocks that were read. -/
theorem listed_read {copy : Nat → Nat} {image : Mem} (range : InRange r)
    (bytes : ∀ a < r.blockNum.toNat * ssdBlockSize, image a = storedImage r T copy a) {i : Nat}
    (inside : i < r.idNum.toNat) :
    listed image i = listed (storedImage r T copy) i := by
  apply FlushIdInfo.decode_congr
  intro k small
  apply bytes
  have list := range.list
  simp only [tabledataBytes, idListOffset, flushIdInfoSize, ssdBlockSize] at *
  omega

/-- **A load that succeeds** has read a closed record, and has inserted the entries of an
image made of copies of its blocks. -/
theorem loadRecord_holds (bears : Bears T d) (metadata : d.metadata = r) :
    Holds anyOutcome loadRecord (fun ret d' => ret = ssdOk → normalUninstall r = true ∧
      ∃ d1, ReadUpTo r T r.blockNum.toNat d1 ∧ NodesFrom d1.kbufFlush 0 (idMax r) d d') d := by
  have answered : ∀ {d1 : Device}, d1.metadata = r →
      Holds anyOutcome Drv.getMeta (fun record d2 => r = record ∧ d2 = d1) d1 :=
    fun same => Holds.perform fun o _ d2 _ step => by
      cases step
      exact ⟨same.symm, rfl⟩
  refine Holds.seq (answered metadata) ?_
  rintro _ d1 ⟨rfl, rfl⟩
  refine Holds.seq (M := fun _ d2 => Bears T d2 ∧ d2.metadata = r ∧ ∀ c, (d2.ch c).hash = (d1.ch c).hash)
    (Holds.perform fun o _ d2 _ step => ?_) ?_
  · cases step
    exact ⟨bears.withImage _, (withImage_metadata d1 _).trans metadata, withImage_hash d1 _⟩
  rintro _ d2 ⟨bears, metadata, hash⟩
  refine Holds.seq (ssdReadFlushTabledata_holds bears metadata) ?_
  rintro ret d3 ⟨metadata, hash', read⟩
  split
  · rename_i failed
    exact Holds.pure fun ok => absurd ok failed
  rename_i ok
  have read := read (not_not.1 ok)
  refine Holds.seq (answered metadata) ?_
  rintro _ d4 ⟨rfl, rfl⟩
  split
  · exact Holds.pure fun ok => absurd ok (by decide)
  rename_i closed
  have closed := Bool.eq_true_of_not_eq_false closed
  have nodes : ∀ {d5 : Device}, NodesFrom d4.kbufFlush 0 (idMax r) d4 d5 →
      NodesFrom d4.kbufFlush 0 (idMax r) d1 d5 := by
    intro d5 from_ c b node member
    have same : (d4.ch c).hash = (d1.ch c).hash := (hash' c).trans (hash c)
    rw [← same]
    exact from_ c b node member
  have rebuilt : Holds anyOutcome ssdRebuildHash (fun _ d5 => NodesFrom d4.kbufFlush 0 (idMax r) d1 d5) d4 := by
    refine Holds.seq (answered metadata) ?_
    rintro _ d5 ⟨rfl, rfl⟩
    rw [closed]
    exact (rebuildEntries_holds _ 0).weaken fun _ _ => nodes
  refine Holds.seq rebuilt ?_
  rintro ret d5 inserted
  split
  · rename_i failed
    exact Holds.pure fun ok => absurd ok failed
  refine Holds.seq (M := fun _ d6 => ledger d6 = ledger d5) (Holds.neutral ssdRebuildErasetable_neutral) ?_
  rintro _ d6 same
  refine (Holds.neutral ssdUpdataTables_neutral).weaken ?_
  rintro ret d7 same' -
  refine ⟨closed, d4, read, fun c b node member => inserted c b node ?_⟩
  have hash : (d7.ch c).hash = (d5.ch c).hash := congrArg Prod.snd (congrFun (same'.trans same) c)
  rwa [hash] at member

/-- The loader of a sound record. -/
theorem SoundRecord.load {q : Drv Int} {d' : Device} (sound : SoundRecord r T) (bears : Bears T d)
    (metadata : d.metadata = r) (run : Reaches (Device.perform 0) anyOutcome loadRecord d q d') :
    InBounds q ∧ ∀ ret, q = .pure ret → ret ≠ ssdOk ∨ LoadedInRange r d d' := by
  constructor
  · refine (loadRecord_fenced sound.few sound.channels fun closed => ?_).reaches metadata run
    obtain ⟨range, -⟩ := sound.closed closed
    rw [range.idMax]
    have few := range.few
    have list := range.list
    simp only [ssdBlockSize, ssdMaxFlushSize] at *
    omega
  · rintro ret rfl
    by_cases ok : ret = ssdOk
    · refine .inr ?_
      obtain ⟨closed, d1, ⟨copy, two, bytes⟩, inserted⟩ := (loadRecord_holds bears metadata).runs run.runs ok
      obtain ⟨range, fits⟩ := sound.closed closed
      refine ⟨range, fun c b node member => ?_⟩
      rcases inserted c b node member with old | ⟨j, -, inside, block, len⟩
      · exact .inl old
      · rw [Nat.zero_add, range.idMax] at inside
        have entry := fits copy two j inside
        rw [← listed_read range bytes inside] at entry
        rw [Fits, block, len]
        exact .inr entry
    · exact .inl ok

end Safe

/-! ## Loads that succeed -/

section Inserts

variable {T : TableData} {d : Device} {r : SsdMetadata}

theorem exists_insert (id : BlockId) (info : IdInfo) (d : Device) :
    ∃ d', Run anyOutcome (Drv.setIdInfo id info) d ssdOk d' ∧
    d'.metadata = d.metadata ∧ d'.kbufFlush = d.kbufFlush ∧
    (∀ c b, ∀ node ∈ ((d.ch c).hash b).first, node ∈ ((d'.ch c).hash b).first) ∧
    ∃ c b, (⟨id, info⟩ : HashNode) ∈ ((d'.ch c).hash b).first := by
  refine ⟨_, .act (o := succeeds) trivial rfl (.pure _ _), rfl, rfl, fun c b node member =>
    mem_insert.2 (.inl member), ?_⟩
  exact ⟨_, _, mem_insert.2 (.inr ⟨rfl, rfl, rfl⟩)⟩

/-- The table has nodes for the entries from `i` on, `n` of them. -/
def HasNodes (image : Mem) (i n : Nat) (d : Device) : Prop :=
  ∀ j, i ≤ j → j < i + n → ∃ c b, ∃ node ∈ ((d.ch c).hash b).first, SameBlocks node (listed image j)

theorem exists_rebuild (n i : Nat) (d : Device) : ∃ d', Run anyOutcome (rebuildEntries true n i) d ssdOk d' ∧
    d'.metadata = d.metadata ∧ (∀ c b, ∀ node ∈ ((d.ch c).hash b).first, node ∈ ((d'.ch c).hash b).first) ∧
    HasNodes d.kbufFlush i n d' := by
  induction n generalizing i d with
  | zero => exact ⟨d, .pure _ _, rfl, fun _ _ _ => id, fun j from_ below => absurd below (by omega)⟩
  | succ n ih =>
      obtain ⟨d1, run, metadata, image, kept, c, b, new⟩ := exists_insert (listed d.kbufFlush i).id
        { (listed d.kbufFlush i).info with channel := Fin.ofNat 64 (id2channel (listed d.kbufFlush i).id) } d
      obtain ⟨d2, later, metadata', kept', nodes⟩ := ih (i + 1) d1
      rw [image] at nodes
      refine ⟨d2, ?_, metadata'.trans metadata, fun c b node member => kept' c b node (kept c b node member), ?_⟩
      · refine runs_bind_iff.2 ⟨d.kbufFlush, d, .act (o := succeeds) trivial rfl (.pure _ _), ?_⟩
        dsimp only
        rw [if_neg fun no => Bool.false_ne_true no.1.symm]
        refine runs_bind_iff.2 ⟨ssdOk, d1, run, ?_⟩
        rw [if_neg (not_not.2 rfl)]
        exact later
      · intro j from_ below
        by_cases first : j = i
        · subst first
          exact ⟨c, b, _, kept' c b _ new, sameBlocks_entry (listed d.kbufFlush j) _⟩
        · exact nodes j (by omega) (by omega)

/-- The tables are written to the RAM of the hardware. -/
theorem exists_updata (d : Device) : ∃ d', Run anyOutcome ssdUpdataTables d ssdOk d' := by
  have table : ∀ channel offset flag d, flag = flagWriteEraseTable ∨ flag = flagWriteAddrTable →
      ∃ d', Run anyOutcome (updataTable channel offset flag) d ssdOk d' := by
    intro channel offset flag d which
    have word : Command.ofWord (cmdValue 0 addrTablePages flag) = ⟨0, addrTablePages, flag⟩ := by
      rcases which with rfl | rfl <;> decide
    have done : ∀ kbuf flash, ∃ flash', Flash.exec ⟨0, addrTablePages, flag⟩ succeeds kbuf flash =
        some (kbuf, flash') := by
      intro kbuf flash
      rcases which with rfl | rfl <;> exact ⟨_, rfl⟩
    let loaded := d.setCh channel { d.ch channel with
      kbuf := copyBytes (d.ch channel).kbuf 0 d.kbufFlush offset ssdTableSize }
    obtain ⟨flash, written⟩ := done (loaded.ch channel).kbuf (loaded.ch channel).flash
    rw [← word] at written
    have run := @channelOp_runs anyOutcome 0 channel _ loaded succeeds succeeds _ _ trivial trivial written
    exact ⟨_, runs_bind_iff.2 ⟨d.kbufFlush, d, .act (o := succeeds) trivial rfl (.pure _ _),
      runs_bind_iff.2 ⟨(), loaded, .act (o := succeeds) trivial rfl (.pure _ _), run⟩⟩⟩
  have channels : ∃ d', Run anyOutcome (Program.firstSome (fun channel => do
      let ret ← updataTable channel (eraseOffset channel) flagWriteEraseTable
      if ret ≠ ssdOk then pure (some ret)
      else
        let ret ← updataTable channel (addrOffset channel) flagWriteAddrTable
        pure (if ret ≠ ssdOk then some ret else none)) (List.range ssdMaxChannel)) d none d' ∧ True := by
    refine exists_firstSome (I := fun _ => True) (fun channel _ d _ => ?_) trivial
    obtain ⟨d1, first⟩ := table channel (eraseOffset channel) _ d (.inl rfl)
    obtain ⟨d2, second⟩ := table channel (addrOffset channel) _ d1 (.inr rfl)
    refine ⟨d2, runs_bind_iff.2 ⟨ssdOk, d1, first, ?_⟩, trivial⟩
    rw [if_neg (not_not.2 rfl)]
    refine runs_bind_iff.2 ⟨ssdOk, d2, second, ?_⟩
    rw [if_neg (not_not.2 rfl)]
    exact .pure _ _
  obtain ⟨d', run, -⟩ := channels
  exact ⟨d', runs_bind_iff.2 ⟨none, d', run, .pure _ _⟩⟩

/-- **A closed record is loaded**, with any choice of the copies. -/
theorem exists_load (readable : Readable T d) (metadata : d.metadata = r) (closed : normalUninstall r = true)
    {copy : Nat → Nat} (two : ∀ b, copy b < tableDuplicate) : ∃ d' image, Run anyOutcome loadRecord d ssdOk d' ∧
      (∀ a < r.blockNum.toNat * ssdBlockSize, image a = storedImage r T copy a) ∧ HasNodes image 0 (idMax r) d' := by
  let cleared : Device := { d with kbufFlush := fillBytes d.kbufFlush 0 (imageSize r) 0 }
  obtain ⟨d1, read, browsed, bytes⟩ := exists_tabledata (readable.withImage _)
    ((withImage_metadata d (fillBytes d.kbufFlush 0 (imageSize r) 0)).trans metadata) two
  have metadata1 : d1.metadata = r := browsed.metadata.trans ((withImage_metadata d _).trans metadata)
  obtain ⟨d2, rebuild, metadata2, -, nodes⟩ := exists_rebuild (idMax r) 0 d1
  obtain ⟨d3, updata⟩ := exists_updata d2
  have same := (Holds.neutral ssdUpdataTables_neutral).runs updata
  refine ⟨d3, d1.kbufFlush, ?_, bytes, fun j from_ below => ?_⟩
  · refine run_getMeta metadata ?_
    refine runs_bind_iff.2 ⟨(), cleared, .act (o := succeeds) trivial rfl (.pure _ _), ?_⟩
    refine runs_bind_iff.2 ⟨ssdOk, d1, read, ?_⟩
    rw [if_neg (not_not.2 rfl)]
    refine run_getMeta metadata1 ?_
    rw [if_neg (by rw [closed]; exact Bool.noConfusion)]
    refine runs_bind_iff.2 ⟨ssdOk, d2, run_getMeta metadata1 (by rw [closed]; exact rebuild), ?_⟩
    rw [if_neg (not_not.2 rfl)]
    refine runs_bind_iff.2 ⟨ssdOk, d2, run_getMeta (metadata2.trans metadata1) ?_, updata⟩
    rw [if_pos closed]
    exact .pure _ _
  · obtain ⟨c, b, node, member, blocks⟩ := nodes j from_ below
    refine ⟨c, b, node, ?_, blocks⟩
    have hash : (d3.ch c).hash = (d2.ch c).hash := congrArg Prod.snd (congrFun same c)
    rwa [hash]

end Inserts

/-! ## Records that are loaded safely -/

/-- What `ssd_sys_init` does on a flash with these contents, whatever fails: its search stays
in bounds; and so does the rest of it, when the search has found the record, and answers with
an error or has used values in range. -/
structure LoadsSafely (r : SsdMetadata) (T : TableData) : Prop where
  search : ∀ d q d', Bears T d → Reaches (Device.perform 0) anyOutcome ssdSearchMetadata d q d' → InBounds q
  load : ∀ d d1 q d', Bears T d → Run anyOutcome ssdSearchMetadata d ssdOk d1 → d1.metadata = r →
    Reaches (Device.perform 0) anyOutcome loadRecord d1 q d' →
      InBounds q ∧ ∀ ret, q = .pure ret → ret ≠ ssdOk ∨ LoadedInRange r d d'

/-- An open card without ids, with these contents of its flash. -/
def cardOf (T : TableData) : Device := { emptyDevice with
  ch := fun c => { emptyChannel with
    flash := { emptyChannel.flash with
      page := fun p => some (T c p)
      suspect := fun _ => false } } }

theorem cardOf_readable (T : TableData) : Readable T (cardOf T) := fun _ _ => ⟨rfl, rfl⟩

/-- The search accepts the record from these contents. -/
def Accepted (r : SsdMetadata) (T : TableData) : Prop :=
  ∃ d, Run anyOutcome ssdSearchMetadata (cardOf T) ssdOk d ∧ d.metadata = r

section Exact

variable {T : TableData} {d : Device} {r : SsdMetadata}

/-- The loader clears the image and reads the blocks. -/
theorem loadRecord_begins : ∃ next : Int → Drv Int, loadRecord = Drv.getMeta >>= fun record =>
    Drv.modFlush (fun m => fillBytes m 0 (imageSize record) 0) >>= fun _ => ssdReadFlushTabledata >>= next := ⟨_, rfl⟩

/-- Behind the search the pages can be read, and there are no ids. -/
theorem Accepted.start (accepted : Accepted r T) : ∃ d, Run anyOutcome ssdSearchMetadata (cardOf T) ssdOk d ∧
    d.metadata = r ∧ Readable T d ∧ ∀ c, (d.ch c).hash = ((cardOf T).ch c).hash := by
  obtain ⟨d, run, metadata⟩ := accepted
  obtain ⟨sought, -⟩ := (ssdSearchMetadata_sought (cardOf_readable T).bears).runs run
  exact ⟨d, run, metadata, sought.readable (cardOf_readable T), sought.hash⟩

/-- The loader of a safe record comes to each of its blocks, and indexes inside from there. -/
theorem LoadsSafely.indexes (safe : LoadsSafely r T) (accepted : Accepted r T) {n : Nat}
    (inside : n < r.blockNum.toNat) :
    ∃ d fuel, Readable T d ∧ d.metadata = r ∧ ∀ a rest d', Reaches (Device.perform 0) anyOutcome
      (readFlushLoop (fuel + 1) n) d (.act a rest) d' → Indexes a := by
  obtain ⟨d0, found, metadata, readable, -⟩ := accepted.start
  let cleared : Device := { d0 with kbufFlush := fillBytes d0.kbufFlush 0 (imageSize r) 0 }
  have most := UInt16.toNat_lt r.blockNum
  obtain ⟨d1, reach, browsed, -⟩ := exists_blocks (d := cleared) (readable.withImage _)
    ((withImage_metadata d0 _).trans metadata) (fun _ => Nat.zero_lt_succ _) n (65535 - n + 1) (Nat.le_of_lt inside)
  rw [show n + (65535 - n + 1) = 65536 by omega] at reach
  refine ⟨d1, 65535 - n, browsed.readable,
    browsed.metadata.trans ((withImage_metadata d0 _).trans metadata), fun a rest d' more => ?_⟩
  obtain ⟨next, begins⟩ := loadRecord_begins
  have erased : Run anyOutcome (Drv.modFlush fun m => fillBytes m 0 (imageSize r) 0) d0 () cleared :=
    .act (o := succeeds) trivial rfl (.pure _ _)
  have start : Reaches (Device.perform 0) anyOutcome loadRecord d0 (.act a rest >>= next) d' := by
    rw [begins]
    unfold ssdReadFlushTabledata
    exact (reaches_getMeta metadata).trans ((erased.reaches.bind _).trans ((reach.trans more).bind next))
  exact (safe.load _ _ _ _ (cardOf_readable T).bears found metadata start).1.1

/-- The first page of a copy: a command on its channel, and a copy into the image. -/
theorem copy_begins (pos offset : Nat) : ∃ next : Option Int → Drv (Option Int), readTableCopy pos offset =
    (ssdReadTabledata pos 0 >>= fun ret => if ret ≠ ssdOk then pure (some ret)
      else Drv.readKbuf (posChannel pos) >>= fun kbuf =>
        Drv.modFlush (fun m => copyBytes m (offset + ssdPageSize * 0) kbuf 0 ssdPageSize) >>=
          fun _ => pure none) >>= next := by
  have first : List.range ssdPagesPerBlock = 0 :: List.range' 1 255 := by
    rw [List.range_eq_range', show ssdPagesPerBlock = 255 + 1 from rfl, List.range'_succ]
  rw [readTableCopy, first]
  exact ⟨_, rfl⟩

/-- A copy begins with a command on the channel of its position. -/
theorem copy_issues (pos offset : Nat) (d : Device) : ∃ cmd rest, Reaches (Device.perform 0) anyOutcome
    (readTableCopy pos offset) d (.act (.chan (posChannel pos) (.issue cmd)) rest) d := by
  obtain ⟨next, begins⟩ := copy_begins pos offset
  rw [begins]
  exact ⟨_, _, .here _ _⟩

/-- A copy whose first page is read is stored at its offset. -/
theorem copy_stores (readable : Readable T d) (pos offset : Nat) : ∃ kbuf rest d',
    Reaches (Device.perform 0) anyOutcome (readTableCopy pos offset) d
      (.act (.modFlush fun m => copyBytes m (offset + ssdPageSize * 0) kbuf 0 ssdPageSize) rest) d' := by
  obtain ⟨next, begins⟩ := copy_begins pos offset
  obtain ⟨d1, read, -, -, -⟩ := exists_read readable pos (by decide : 0 < ssdPagesPerBlock)
  rw [begins]
  have page := (read.reaches.bind fun ret => if ret ≠ ssdOk then pure (some ret)
      else Drv.readKbuf (posChannel pos) >>= fun kbuf =>
        Drv.modFlush (fun m => copyBytes m (offset + ssdPageSize * 0) kbuf 0 ssdPageSize) >>=
          fun _ => pure none).bind next
  refine ⟨(d1.ch (posChannel pos)).kbuf, fun _ => Program.pure none >>= next, d1, page.trans ?_⟩
  rw [Program.pure_bind', if_neg (not_not.2 rfl)]
  exact .act (o := succeeds) trivial (readKbuf_answers d1 _) (.here _ _)

/-- The loop of the loader at a block. -/
theorem loop_begins (metadata : d.metadata = r) (fuel : Nat) {n : Nat} (inside : n < r.blockNum.toNat) :
    ∃ next : Option Int → Drv Int, Reaches (Device.perform 0) anyOutcome (readFlushLoop (fuel + 1) n) d
      (readTableCopies n (List.range tableDuplicate) >>= next) d := by
  subst metadata
  apply Exists.intro
  apply Reaches.act (o := succeeds) (r := d.metadata) trivial rfl
  dsimp only [Program.bind]
  rw [if_pos inside]
  exact .here _ _

/-- The loader comes to each copy of a block. -/
theorem copies_begin (readable : Readable T d) (metadata : d.metadata = r) (b : Nat) {i : Nat}
    (two : i < tableDuplicate) :
    ∃ (next : Option Int → Drv (Option Int)) (d1 : Device), Reaches (Device.perform 0) anyOutcome
      (readTableCopies b (List.range tableDuplicate)) d
      (readTableCopy (r.pos (b * tableDuplicate + i)) (ssdBlockSize * b) >>= next) d1 ∧ Readable T d1 := by
  have one : i = 0 ∨ i = 1 := by
    simp only [tableDuplicate] at two
    omega
  rcases one with rfl | rfl
  · exact ⟨_, d, reaches_getMeta metadata, readable⟩
  · obtain ⟨d1, miss, browsed, -⟩ := exists_missed_copy readable (r.pos (b * tableDuplicate + 0)) (ssdBlockSize * b)
    obtain ⟨next, second⟩ : ∃ next : Option Int → Drv (Option Int), Reaches (Device.perform 0) anyOutcome
        (readTableCopies b [1]) d1 (readTableCopy (r.pos (b * tableDuplicate + 1)) (ssdBlockSize * b) >>= next) d1 :=
      ⟨_, reaches_getMeta (browsed.metadata.trans metadata)⟩
    refine ⟨next, d1, (reaches_getMeta metadata).trans ((miss.reaches.bind _).trans ?_), browsed.readable⟩
    show Reaches (Device.perform 0) anyOutcome (if (128 : Int) = -errTimeout then pure (some 128)
      else readTableCopies b [1]) d1 _ d1
    rw [if_neg (by decide)]
    exact second

/-- A record that is loaded safely names channels that exist. -/
theorem LoadsSafely.channels (safe : LoadsSafely r T) (accepted : Accepted r T) : OnChannels r := by
  intro k inside
  have block : k / 2 < r.blockNum.toNat := by
    simp only [tableDuplicate] at inside
    omega
  obtain ⟨d, fuel, readable, metadata, indexes⟩ := safe.indexes accepted block
  obtain ⟨later, loop⟩ := loop_begins metadata fuel block
  obtain ⟨next, d1, copies, -⟩ := copies_begin readable metadata (k / 2) (i := k % 2) (Nat.mod_lt k (by decide))
  obtain ⟨cmd, rest, issued⟩ := copy_issues (r.pos (k / 2 * tableDuplicate + k % 2)) (ssdBlockSize * (k / 2)) d1
  have reach := loop.trans ((copies.trans (issued.bind next)).bind later)
  have bound := indexes _ _ _ reach
  rwa [show k / 2 * tableDuplicate + k % 2 = k by simp only [tableDuplicate]; omega] at bound

/-- A record that is loaded safely counts at most five blocks. -/
theorem LoadsSafely.few (safe : LoadsSafely r T) (accepted : Accepted r T) : r.blockNum.toNat ≤ 5 := by
  by_contra many
  have block : 5 < r.blockNum.toNat := Nat.lt_of_not_le many
  obtain ⟨d, fuel, readable, metadata, indexes⟩ := safe.indexes accepted block
  obtain ⟨later, loop⟩ := loop_begins metadata fuel block
  obtain ⟨next, d1, copies, readable⟩ := copies_begin readable metadata 5 (i := 0) (by decide)
  obtain ⟨kbuf, rest, d2, stored⟩ := copy_stores readable (r.pos (5 * tableDuplicate + 0)) (ssdBlockSize * 5)
  have outside := indexes _ _ _ (loop.trans ((copies.trans (stored.bind next)).bind later))
  -- the sixth block begins where the buffer ends
  have kept := outside (fun _ => kbuf 0 + 1) (ssdBlockSize * 5) (Nat.le_refl _)
  have first := @copyBytes_inside (fun _ => kbuf 0 + 1) kbuf (ssdBlockSize * 5 + ssdPageSize * 0) 0
      ssdPageSize 0 (by decide)
  rw [Nat.add_zero, Nat.mul_zero, Nat.add_zero] at first
  simp only [Nat.mul_zero, Nat.add_zero] at kept
  rw [first] at kept
  exact absurd kept (by simp)

/-- A sound record is loaded safely. -/
theorem SoundRecord.loads (sound : SoundRecord r T) : LoadsSafely r T := by
  refine ⟨fun d q d' bears run => ssdSearchMetadata_inBounds bears run, fun d d1 q d' bears found metadata run => ?_⟩
  obtain ⟨sought, -⟩ := (ssdSearchMetadata_sought bears).runs found
  obtain ⟨inside, loaded⟩ := sound.load sought.bears metadata run
  refine ⟨inside, fun ret answer => (loaded ret answer).imp id fun range => ⟨range.range, fun c b node member => ?_⟩⟩
  rw [← sought.hash c]
  exact range.inserted c b node member

/-- **The records that are loaded safely** are the sound ones, among those that the search
accepts from the flash. -/
theorem loads_safely_iff (r : SsdMetadata) (T : TableData) (accepted : Accepted r T) :
    LoadsSafely r T ↔ SoundRecord r T := by
  constructor
  · intro safe
    refine ⟨safe.few accepted, safe.channels accepted, fun closed => ?_⟩
    have loaded : ∀ copy : Nat → Nat, (∀ b, copy b < tableDuplicate) → ∃ d' image,
        (∀ a < r.blockNum.toNat * ssdBlockSize, image a = storedImage r T copy a) ∧ HasNodes image 0 (idMax r) d' ∧
          LoadedInRange r (cardOf T) d' := by
      intro copy two
      obtain ⟨d, found, metadata, readable, -⟩ := accepted.start
      obtain ⟨d', image, run, bytes, nodes⟩ := exists_load readable metadata closed two
      rcases (safe.load _ _ _ d' (cardOf_readable T).bears found metadata run.reaches).2 ssdOk rfl with failed | range
      · exact absurd rfl failed
      · exact ⟨d', image, bytes, nodes, range⟩
    obtain ⟨_, _, -, -, ⟨range, -⟩⟩ := loaded (fun _ => 0) fun _ => Nat.zero_lt_succ _
    refine ⟨range, fun copy two i inside => ?_⟩
    obtain ⟨d', image, bytes, nodes, -, inserted⟩ := loaded copy two
    obtain ⟨c, b, node, member, block, len⟩ := nodes i (Nat.zero_le i) (by rwa [Nat.zero_add, range.idMax])
    rcases inserted c b node member with old | fits
    · exact absurd old List.not_mem_nil
    · rw [listed_read range bytes inside] at block len
      rwa [Fits, block, len] at fits
  · exact SoundRecord.loads

end Exact

/-- A record on every page of channel 0 can be found. -/
theorem Accepted.of_channel {m : SsdMetadata} {T : TableData} (shown : ∀ p, T 0 p = SsdMetadata.encode m fun _ => 0)
    (newer : 0 < m.version) (valid : metadataCheckVal m = ssdOk) : Accepted m T := by
  have content : ∀ p, SsdMetadata.decode (T 0 p) = m := fun p => by
    rw [shown]
    exact SsdMetadata.decode_encode ..
  exact exists_found (cardOf_readable _) (content _) valid newer (content _) valid

/-- The list of two ids: the blocks 0 to 4, and block 5. -/
def twoListed : Mem :=
  FlushIdInfo.encode (FlushIdInfo.encode (fun _ => 0) 0 ⟨⟨1, 0⟩, .at 0 0 .dblock⟩) flushIdInfoSize
    ⟨⟨2, 0⟩, .at 0 5 .iblock⟩

/-- The record of a closed card with these ids; both copies of the block are at one position. -/
def closedTwo : SsdMetadata := ⟨flushMagicClose, 1, 0, 2, 1, 0, 0, fun _ => 40⟩

/-- A flash with the record in channel 0, and the list in the others. -/
def twoIds : TableData := fun c _ => if c = 0 then SsdMetadata.encode closedTwo fun _ => 0 else twoListed

theorem listed_twoIds {copy : Nat → Nat} (two : ∀ b, copy b < tableDuplicate) {i : Nat} (inside : i < 2) :
    listed (storedImage closedTwo twoIds copy) i = FlushIdInfo.decode twoListed (flushIdInfoSize * i) := by
  apply FlushIdInfo.decode_congr
  intro k small
  have position : closedTwo.pos (0 * tableDuplicate + copy 0) = 40 := by
    have either : copy 0 = 0 ∨ copy 0 = 1 := by
      have := two 0
      simp only [tableDuplicate] at this
      omega
    rcases either with first | second
    · rw [first]
      rfl
    · rw [second]
      rfl
  simp only [flushIdInfoSize] at small ⊢
  have block : (idListOffset + 24 * i + k) / ssdBlockSize = 0 := by
    simp only [idListOffset, ssdBlockSize]
    omega
  have byte : (idListOffset + 24 * i + k) % ssdBlockSize % ssdPageSize = 24 * i + k := by
    simp only [idListOffset, ssdBlockSize, ssdPageSize]
    omega
  rw [storedImage, block, position, blockByte, byte]
  rfl

/-- **Two ids are loaded safely.** -/
theorem two_ids_load_safely : LoadsSafely closedTwo twoIds := by
  have positions : ∀ k < 2, closedTwo.pos k = 40 := by decide
  refine (loads_safely_iff _ _ (.of_channel (fun _ => rfl) (by decide) (by decide))).2
    ⟨by decide, fun k inside => ?_, fun _ => ⟨⟨by decide, by decide, fun k inside => ?_, by decide⟩, ?_⟩⟩
  · rw [positions k inside]
    decide
  · rw [positions k inside]
    decide
  · intro copy two i inside
    have fits : ∀ i < 2, (FlushIdInfo.decode twoListed (flushIdInfoSize * i)).info.block.val +
        (FlushIdInfo.decode twoListed (flushIdInfoSize * i)).info.len.size ≤ ssdMaxVirblocksPerChannel := by decide
    rw [listed_twoIds two inside]
    exact fits i inside

/-- A flash whose pages all hold a record. -/
def everywhere (m : SsdMetadata) : TableData := fun _ _ => SsdMetadata.encode m fun _ => 0

theorem everywhere_accepted {m : SsdMetadata} (newer : 0 < m.version) (valid : metadataCheckVal m = ssdOk) :
    Accepted m (everywhere m) :=
  .of_channel (fun _ => rfl) newer valid

/-- The record of a closed card without ids. -/
def closedEmpty : SsdMetadata := ⟨flushMagicClose, 1, 0, 0, 1, 0, 0, fun _ => 40⟩

/-- The same record, but for the number of its blocks. -/
def sixBlocks : SsdMetadata := { closedEmpty with blockNum := 6 }

/-- The magic of the record is right, and the buffer of the image is cleared behind its end. -/
theorem six_blocks_overrun : metadataCheckVal sixBlocks = ssdOk ∧ Accepted sixBlocks (everywhere sixBlocks) ∧
    ¬ LoadsSafely sixBlocks (everywhere sixBlocks) := by
  have accepted : Accepted sixBlocks (everywhere sixBlocks) := everywhere_accepted (by decide) (by decide)
  refine ⟨by decide, accepted, fun safe => ?_⟩
  obtain ⟨d, found, metadata, -, -⟩ := accepted.start
  obtain ⟨next, begins⟩ := loadRecord_begins
  have cleared : ∃ rest, Reaches (Device.perform 0) anyOutcome loadRecord d
      (.act (.modFlush fun m => fillBytes m 0 (imageSize sixBlocks) 0) rest) d := by
    rw [begins]
    exact ⟨_, reaches_getMeta metadata⟩
  obtain ⟨rest, reach⟩ := cleared
  have indexes := (safe.load _ _ _ _ (cardOf_readable _).bears found metadata reach).1.1
  have kept := indexes (fun _ => 1) ssdMaxFlushSize (Nat.le_refl _)
  have size : imageSize sixBlocks = 12582912 := by decide
  rw [size] at kept
  exact absurd kept (by decide)

end FpgaSsd.Theory
