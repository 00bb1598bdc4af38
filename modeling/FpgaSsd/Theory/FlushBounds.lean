/-
# Theory.FlushBounds — the image of a flush fits

Nothing checks the number of ids where their entries are written. That the entries end in
the buffer follows from the partition: the ids of a channel have different blocks.

* `flushFence` — what a flush may do next, while the buckets hold what they hold;
* `ssdSysFlush_confined` — a flush stays in its buffers, and sets places 0 to 9 of the record;
* `flush_image_fits` — so for `copy_id_hash`, `flush_tabledata` and `ssd_read_idtable`.
-/
import FpgaSsd.Theory.Collect
import FpgaSsd.Theory.LoadBounds

namespace FpgaSsd.Theory

open FpgaSsd.Lib FpgaSsd.Driver

set_option autoImplicit false

/-! ## The fence of a flush -/

/-- Only places below ten of `table_block_pos` are written. -/
def PlacesInside : Act → Prop
  | .modMeta f => (∃ blockNum curPos, blockNum * 2 + 1 < 10 ∧ f = setTablePosInMeta blockNum curPos) ∨
      ∃ blockNum lastUsed type idNum now, f = updateMeta blockNum lastUsed type idNum now
  | _ => True

/-- Where the buckets are those of the ledger `l`, a copy of a bucket is one of them. -/
def ToldNodes (l : Ledger) : (a : Act) → a.Reply → Prop
  | .chan c (.copyBucket b), reply => reply = ((l c).2 b).first
  | _, _ => True

/-- The next action stays inside its bounds, those of the record included. -/
def Confines {α : Type} : Drv α → Prop
  | .pure _ => True
  | .act a rest => PlacesInside a ∧ InBounds (.act a rest)

/-- What a flush may do while the buckets are those of `l`. -/
def flushFence (l : Ledger) : Fence Act Act.Reply where
  told := ToldNodes l
  allows a rest := Act.Neutral a ∧ Confines (.act a rest)
  bind next allowed := ⟨allowed.1, allowed.2.1, allowed.2.2.1, allowed.2.2.2.bind next⟩

theorem flushFence_truthful (l : Ledger) : (flushFence l).Truthful (Device.perform 0) fun d => ledger d = l := by
  intro α a rest o d d' reply holds allowed step
  refine ⟨?_, (act_neutral allowed.1 step).trans holds⟩
  show ToldNodes l a reply
  unfold ToldNodes
  split
  · cases step
    rw [← holds]
    rfl
  · trivial

/-- A program that stays in bounds. -/
abbrev Confined {α : Type} (l : Ledger) (p : Drv α) : Prop := p.Fenced (flushFence l) fun _ => True

section Rules

variable {α β : Type} {l : Ledger} {c : Nat}

theorem Confined.seq {p : Drv α} {next : α → Drv β} (first : Confined l p) (rest : ∀ value, Confined l (next value)) :
    Confined l (p >>= next) := Program.Fenced.bind first fun value _ => rest value

/-- An action that is neither a read of the image nor a write of the record. -/
theorem confined_act {a : Act} (neutral : Act.Neutral a) (places : PlacesInside a) (indexes : Indexes a)
    (other : a ≠ .readFlush) : Confined l (Program.perform a) :=
  ⟨⟨neutral, places, indexes, .other other _⟩, fun _ _ => trivial⟩

theorem channelOp_confined (inside : c < ssdMaxChannel) (cmd : Nat) : Confined l (channelOp c cmd) := by
  apply Confined.seq (p := Drv.chan c (.issue cmd)) (confined_act trivial trivial inside nofun)
  intro _
  exact confined_act (a := .chan c .await) trivial trivial inside nofun

theorem withSema_confined {body : Drv α} (inner : Confined l body) : Confined l (Drv.withSema c body) := by
  apply Confined.seq (p := Drv.down c) (confined_act trivial trivial trivial nofun)
  intro _
  apply inner.seq
  intro ret
  apply Confined.seq (p := Drv.up c) (confined_act trivial trivial trivial nofun)
  intro _
  trivial

theorem modFlush_confined {f : Mem → Mem} (inside : ∀ m i, ssdMaxFlushSize ≤ i → f m i = m i) :
    Confined l (Drv.modFlush f) := confined_act trivial trivial inside nofun

theorem modKbuf_confined (inside : c < ssdMaxChannel) {f : Mem → Mem}
    (bounds : ∀ m i, ssdBufferSize ≤ i → f m i = m i) :
    Confined l (Drv.modKbuf c f) := confined_act trivial trivial ⟨inside, bounds⟩ nofun

theorem getMeta_confined : Confined l Drv.getMeta := confined_act trivial trivial trivial nofun

end Rules

/-! ## Building the image -/

section Building

variable {l : Ledger} {c : Nat}

theorem copyRamTable_confined (inside : c < ssdMaxChannel) {offset : Nat}
    (fits : offset + 2 * ssdTableSize ≤ ssdMaxFlushSize) :
    Confined l (copyRamTable c offset) := by
  simp only [ssdTableSize, ssdMaxFlushSize] at fits
  apply withSema_confined
  apply (channelOp_confined inside _).seq
  intro ret
  split
  · trivial
  apply Confined.seq (p := Drv.readKbuf c) (confined_act trivial trivial inside nofun)
  intro addr
  apply Confined.seq (modFlush_confined fun m i outside => copyBytes_outside ?_)
  · intro _
    apply (channelOp_confined inside _).seq
    intro ret
    split
    · trivial
    apply Confined.seq (p := Drv.readKbuf c) (confined_act trivial trivial inside nofun)
    intro erase
    apply Confined.seq (modFlush_confined fun m i outside => copyBytes_outside ?_)
    · intro _
      trivial
    · simp only [ssdTableSize, ssdMaxFlushSize] at *
      omega
  · simp only [ssdTableSize, ssdMaxFlushSize] at *
    omega

theorem copyRamTables_confined : Confined l copyRamTables := by
  apply Program.Fenced.firstSome
  intro channel member
  have inside := List.mem_range.1 member
  apply Confined.seq (copyRamTable_confined inside ?_)
  · intro _
    trivial
  simp only [ssdMaxChannel, ssdTableSize, ssdMaxFlushSize] at *
  omega

/-- Bytes behind the list that is appended stay. -/
theorem putNodes_above {nodes : List HashNode} {n i : Nat} {m : Mem}
    (above : idListOffset + flushIdInfoSize * (n + nodes.length) ≤ i) : putNodes nodes n m i = m i := by
  induction nodes generalizing n m with
  | nil => rfl
  | cons node rest ih =>
      rw [List.length_cons] at above
      rw [putNodes, ih (by rwa [Nat.add_assoc, Nat.add_comm 1])]
      apply FlushIdInfo.encode_outside
      simp only [idListOffset, flushIdInfoSize] at *
      omega

theorem copyIdBuckets_confined (inside : c < ssdMaxChannel) (buckets : List Nat) (n : Nat)
    (few : n + (buckets.flatMap fun b => ((l c).2 b).first).length ≤ ssdMaxIdNum) :
    (copyIdBuckets c buckets n).Fenced (flushFence l) fun n' =>
      n' = n + (buckets.flatMap fun b => ((l c).2 b).first).length := by
  induction buckets generalizing n with
  | nil => rfl
  | cons b rest ih =>
      rw [List.flatMap_cons, List.length_append, ← Nat.add_assoc] at *
      have copied : (Drv.chan c (.copyBucket b)).Fenced (flushFence l) fun nodes => nodes = ((l c).2 b).first :=
        ⟨⟨trivial, trivial, inside, trivial⟩, fun reply known => known⟩
      apply copied.bind
      rintro nodes rfl
      apply Program.Fenced.bind (modFlush_confined fun m i outside => putNodes_above ?_)
      · intro _ _
        exact ih _ few
      · simp only [idListOffset, flushIdInfoSize, ssdMaxIdNum, ssdMaxFlushSize] at *
        omega

theorem copyIdChannels_confined (channels : List Nat) (inside : ∀ c ∈ channels, c < ssdMaxChannel) (n : Nat)
    (few : n + (channels.flatMap fun c => nodesOf (l c).2).length ≤ ssdMaxIdNum) :
    Confined l (copyIdChannels channels n) := by
  induction channels generalizing n with
  | nil => trivial
  | cons c rest ih =>
      rw [List.flatMap_cons, List.length_append, ← Nat.add_assoc] at few
      apply (copyIdBuckets_confined (inside c (List.mem_cons_self ..)) _ n (Nat.le_of_add_right_le few)).bind
      rintro _ rfl
      exact ih (fun c member => inside c (List.mem_cons_of_mem _ member)) _ few

/-- Where there are not too many ids, their entries end in the buffer. -/
theorem copyIdHash_confined (few : ((List.range ssdMaxChannel).flatMap fun c => nodesOf (l c).2).length ≤ ssdMaxIdNum) :
    Confined l copyIdHash := by
  apply copyIdChannels_confined _ fun c member => List.mem_range.1 member
  rwa [Nat.zero_add]

end Building

/-! ## The blocks of the image -/

section Blocks

variable {l : Ledger} {pos offset : Nat}

/-- A position that `calc_phyblock` accepts is on a channel. -/
theorem onReserveBlock_confined {body : Nat → Nat → Drv Int}
    (inner : ∀ c < ssdMaxChannel, ∀ phyBlock, Confined l (body c phyBlock)) : Confined l (onReserveBlock pos body) := by
  unfold onReserveBlock
  by_cases inside : pos < reserveBlocksTotal
  · rw [calcPhyblock_eq inside, if_neg (by omega)]
    apply withSema_confined
    apply inner
    rw [posChannel_eq inside]
    simp only [reserveBlocksTotal, ssdMaxChannel] at *
    omega
  · have refused : calcPhyblock pos < 0 := by
      unfold calcPhyblock
      rw [if_pos (Nat.le_of_not_lt inside)]
      decide
    rw [if_pos refused]
    trivial

theorem onPages_confined {body : Nat → Drv Int} (inner : ∀ page < ssdPagesPerBlock, Confined l (body page)) :
    Confined l (onPages body) := by
  apply Confined.seq (Program.Fenced.firstSome _)
  · intro found
    cases found with
    | some ret => trivial
    | none => trivial
  · intro page member
    exact (inner page (List.mem_range.1 member)).seq fun _ => trivial

/-- A read of the image whose bytes are those of the buffer. -/
theorem readFlush_confined {α : Type} {next : Mem → Drv α}
    (reads : ∀ m m', (∀ i < ssdMaxFlushSize, m i = m' i) → next m = next m') (later : ∀ m, Confined l (next m)) :
    Confined l (Drv.readFlush >>= next) := ⟨⟨trivial, trivial, trivial, reads⟩, fun m _ => later m⟩

/-- Pages of the buffer are written. -/
theorem writeOneReserveBlock_confined (fits : offset + ssdBlockSize ≤ ssdMaxFlushSize) :
    Confined l (writeOneReserveBlock pos offset) := by
  apply onReserveBlock_confined
  intro c inside phyBlock
  apply onPages_confined
  intro page low
  apply readFlush_confined
  · intro m m' same
    have bytes : ∀ kbuf : Mem, copyBytes kbuf 0 m (offset + page * ssdPageSize) ssdPageSize =
        copyBytes kbuf 0 m' (offset + page * ssdPageSize) ssdPageSize := by
      intro kbuf
      funext i
      simp only [copyBytes]
      split
      · apply same
        simp only [ssdPagesPerBlock, ssdBlockSize, ssdPageSize, ssdMaxFlushSize] at *
        omega
      · rfl
    simp only [bytes]
  · intro m
    apply Confined.seq (modKbuf_confined inside fun kbuf i outside => copyBytes_outside ?_)
    · intro _
      exact channelOp_confined inside _
    · simp only [ssdPageSize, ssdBufferSize] at *
      omega

theorem readOneReserveBlock_confined : Confined l (readOneReserveBlock pos) := by
  apply onReserveBlock_confined
  intro c inside phyBlock
  apply onPages_confined
  intro page _
  exact channelOp_confined inside _

theorem eraseOneReserveBlock_confined : Confined l (eraseOneReserveBlock pos) := by
  apply onReserveBlock_confined
  intro c inside phyBlock
  exact channelOp_confined inside _

theorem writeTabledataBlock_confined (fits : offset + ssdBlockSize ≤ ssdMaxFlushSize) :
    Confined l (writeTabledataBlock pos offset) := by
  apply eraseOneReserveBlock_confined.seq
  intro ret
  split
  · trivial
  apply (writeOneReserveBlock_confined fits).seq
  intro ret
  split
  · trivial
  · exact readOneReserveBlock_confined

theorem writeTabledataBlockDuplicate_confined (fits : offset + ssdBlockSize ≤ ssdMaxFlushSize) :
    Confined l (writeTabledataBlockDuplicate pos offset) := by
  apply Confined.seq (Program.Fenced.firstSome _)
  · intro found
    cases found with
    | some ret => trivial
    | none => trivial
  · intro i _
    exact (writeTabledataBlock_confined fits).seq fun _ => trivial

/-- The position of a block is entered at its own two places. -/
theorem retryWriteTabledataBlock_confined {blockNum : Nat} (block : blockNum < 5)
    (fits : offset + ssdBlockSize ≤ ssdMaxFlushSize) (n curPos : Nat) :
    Confined l (retryWriteTabledataBlock blockNum offset n curPos) := by
  induction n generalizing curPos with
  | zero => trivial
  | succ n ih =>
      unfold retryWriteTabledataBlock
      apply (writeTabledataBlockDuplicate_confined fits).seq
      intro ret
      split
      · apply Confined.seq (p := Drv.modMeta _) (confined_act trivial (.inl ⟨blockNum, _, by omega, rfl⟩) trivial nofun)
        intro _
        trivial
      · exact ih _

theorem flushTableBlocks_confined (n i : Nat) (fits : i + n ≤ 5) (curPos : Nat) :
    Confined l (flushTableBlocks n i curPos) := by
  induction n generalizing i curPos with
  | zero => trivial
  | succ n ih =>
      apply Confined.seq (retryWriteTabledataBlock_confined (by omega) _ _ curPos)
      · intro ret
        split
        · trivial
        · exact ih (i + 1) (by omega) _
      · simp only [ssdBlockSize, ssdMaxFlushSize]
        omega

/-- `flush_tabledata` refuses a number of ids that does not fit. -/
theorem flushTabledata_confined (n : Nat) (type : FlushType) : Confined l (flushTabledata n type) := by
  unfold flushTabledata
  split
  · trivial
  rename_i few
  have blocks := tableBlockNum_le (Nat.le_of_not_lt few)
  apply getMeta_confined.seq
  intro old
  apply (flushTableBlocks_confined _ 0 (by rwa [Nat.zero_add]) _).seq
  intro ret
  split
  · trivial
  apply Confined.seq (p := Program.perform Act.gettime) (confined_act trivial trivial trivial nofun)
  intro now
  apply Confined.seq (p := Drv.modMeta _) (confined_act trivial (.inr ⟨_, _, _, _, _, rfl⟩) trivial nofun)
  intro _
  trivial

end Blocks

/-! ## The record -/

section Record

variable {l : Ledger} {pos : Nat}

/-- The record is 56 bytes long. -/
theorem encodePos_outside {r : SsdMetadata} {n i : Nat} {m : Mem} (outside : 36 + 2 * n ≤ i) :
    r.encodePos n m i = m i := by
  induction n with
  | zero => rfl
  | succ n ih => rw [SsdMetadata.encodePos, putLE_outside (by omega), ih (by omega)]

theorem encode_outside {r : SsdMetadata} {i : Nat} {m : Mem} (outside : 56 ≤ i) : r.encode m i = m i := by
  unfold SsdMetadata.encode
  rw [encodePos_outside (by omega), putLE_outside (by omega), putLE_outside (by omega), putLE_outside (by omega),
    putLE_outside (by omega), putLE_outside (by omega), putLE_outside (by omega), putLE_outside (by omega)]

theorem writeOneReservePage_confined (page : Nat) : Confined l (writeOneReservePage pos page) := by
  apply onReserveBlock_confined
  intro c inside phyBlock
  apply getMeta_confined.seq
  intro record
  apply Confined.seq (modKbuf_confined inside fun m i outside => ?_)
  · intro _
    exact channelOp_confined inside _
  · simp only [ssdBufferSize] at outside
    rw [encode_outside (by omega), fillBytes_outside]
    simp only [ssdPageSize]
    omega

theorem readOneReservePage_confined (page : Nat) : Confined l (readOneReservePage pos page) := by
  apply onReserveBlock_confined
  intro c inside phyBlock
  exact channelOp_confined inside _

theorem writeMetaPage_confined (plane : Nat) : Confined l (writeMetaPage plane) := by
  apply Confined.seq (p := Drv.getMetaPos) (confined_act trivial trivial trivial nofun)
  intro p
  split
  · trivial
  apply Confined.seq (p := eraseIfFirstPage _ _)
  · unfold eraseIfFirstPage
    split
    · exact eraseOneReserveBlock_confined
    · trivial
  intro ret
  split
  · trivial
  apply (writeOneReservePage_confined _).seq
  intro ret
  split
  · trivial
  · exact readOneReservePage_confined _

theorem writeMetaPages_confined (planes : List Nat) (success : Nat) : Confined l (writeMetaPages planes success) := by
  induction planes generalizing success with
  | nil => trivial
  | cons plane rest ih => exact (writeMetaPage_confined plane).seq fun _ => ih _

theorem flushMetadata_confined : Confined l flushMetadata := by
  have attempts : ∀ n ret, Confined l (flushMetadataLoop n ret) := by
    intro n
    induction n with
    | zero => exact fun _ => trivial
    | succ n ih =>
        intro ret
        apply Confined.seq (p := findNewMetaPos ret)
        · apply Confined.seq (p := Drv.modMetaPos _) (confined_act trivial trivial trivial nofun)
          intro _
          trivial
        intro ret
        split
        · trivial
        apply Confined.seq (p := writeMetadataPageDuplicate)
        · exact (writeMetaPages_confined _ 0).seq fun _ => trivial
        intro ret
        split
        · trivial
        · exact ih _
  exact attempts _ _

end Record

/-! ## The flush and the list of ids -/

section Flush

variable {l : Ledger} {d : Device}

/-- **A flush stays in bounds** where there are not too many ids. -/
theorem ssdSysFlush_confined (few : ((List.range ssdMaxChannel).flatMap fun c => nodesOf (l c).2).length ≤ ssdMaxIdNum)
    (type : FlushType) : Confined l (ssdSysFlush type) := by
  apply Confined.seq (p := Program.perform Act.getOpened) (confined_act trivial trivial trivial nofun)
  intro opened
  split
  · trivial
  apply Confined.seq (p := Program.perform Act.downFlush) (confined_act trivial trivial trivial nofun)
  intro _
  apply Confined.seq (p := ssdSysFlushBody type)
  · apply Confined.seq (modFlush_confined fun m i outside => fillBytes_outside (.inr (by rwa [Nat.zero_add])))
    intro _
    apply copyRamTables_confined.seq
    intro found
    cases found with
    | some ret => trivial
    | none =>
        apply (copyIdHash_confined few).seq
        intro idNum
        apply (flushTabledata_confined idNum type).seq
        intro ret
        split
        · trivial
        · exact flushMetadata_confined
  · intro ret
    apply Confined.seq (p := Program.perform Act.upFlush) (confined_act trivial trivial trivial nofun)
    intro _
    trivial

/-- In a run that is cut anywhere, the next action of a confined program is in bounds. -/
theorem Confined.reaches {α : Type} {p q : Drv α} {d' : Device} {may : May} (confined : Confined (ledger d) p)
    (run : Reaches (Device.perform 0) may p d q d') : Confines q := by
  obtain ⟨left, -⟩ := Program.Fenced.reaches (flushFence_truthful (ledger d)) confined rfl run
  cases q with
  | pure value => trivial
  | act a rest => exact left.allows.2

/-- What `copy_id_hash` puts into the buffer: an entry for each id, behind the tables. -/
theorem copyIdHash_writes {n : Nat} {d' : Device} (run : Run anyOutcome copyIdHash d n d') :
    n = (tableNodes d).length ∧
    ∀ i, i < idListOffset ∨ tabledataBytes n ≤ i → d'.kbufFlush i = d.kbufFlush i := by
  have blind : BlindImage fun _ => True := fun _ _ _ => trivial
  have spec := OnView.runs (copyIdHash_spec blind trivial) run
  have count : n = (tableNodes d).length := spec.1
  have image : d'.kbufFlush = putNodes (tableNodes d) 0 d.kbufFlush := congrArg View.kbufFlush spec.2
  refine ⟨count, fun i outside => ?_⟩
  rw [image]
  cases outside with
  | inl below => exact putNodes_outside below
  | inr above =>
      apply putNodes_above
      rwa [Nat.zero_add, ← count, Nat.mul_comm]

/-- Bytes behind the list that is staged stay. -/
theorem stageNodes_above {nodes : List HashNode} {n i : Nat} {m : Mem}
    (above : flushIdInfoSize * (n + nodes.length) ≤ i) :
    stageNodes nodes n m i = m i := by
  induction nodes generalizing n m with
  | nil => rfl
  | cons node rest ih =>
      rw [List.length_cons] at above
      rw [stageNodes, ih (by rwa [Nat.add_assoc, Nat.add_comm 1])]
      apply FlushIdInfo.encode_outside
      simp only [flushIdInfoSize] at *
      omega

theorem stageBuckets_confined {c : Nat} (inside : c < ssdMaxChannel) (buckets : List Nat) (n : Nat) (m : Mem) :
    Confined l (stageBuckets c buckets n m) := by
  induction buckets generalizing n m with
  | nil => trivial
  | cons b rest ih =>
      apply Confined.seq (p := Drv.chan c (.copyBucket b)) (confined_act trivial trivial inside nofun)
      intro nodes
      exact ih _ _

theorem sendChannels_confined (channels : List Nat) (inside : ∀ c ∈ channels, c < ssdMaxChannel) (idNum usrBuf : Nat)
    (buffer usr : Mem) : Confined l (sendChannels channels idNum usrBuf buffer usr) := by
  induction channels generalizing idNum usrBuf buffer usr with
  | nil => trivial
  | cons c rest ih =>
      have more := ih fun c member => inside c (List.mem_cons_of_mem _ member)
      apply (stageBuckets_confined (inside c (List.mem_cons_self ..)) _ 0 buffer).seq
      intro staged
      dsimp only
      split
      · apply Confined.seq (p := Program.perform Act.copyParam) (confined_act trivial trivial trivial nofun)
        intro failed
        cases failed with
        | true => trivial
        | false => exact more _ _ _ _
      · exact more _ _ _ _

theorem ssdReadIdtable_confined (usr : Mem) : Confined l (ssdReadIdtable usr) := by
  apply Confined.seq (p := Program.perform Act.kmalloc) (confined_act trivial trivial trivial nofun)
  intro null
  cases null with
  | true => trivial
  | false =>
      apply (sendChannels_confined _ (fun c member => List.mem_range.1 member) 0 0 _ usr).seq
      intro sent
      obtain ⟨idNum, usr⟩ := sent
      cases idNum with
      | none => trivial
      | some idNum => trivial

/-- The list of a channel fits in the buffer for one channel. -/
theorem stageBuckets_writes {c : Nat} (few : (d.ch c).nodes.length ≤ ssdMaxVirblocksPerChannel)
    {buffer : Mem} {r : Nat × Mem} {d' : Device}
    (run : Run anyOutcome (stageBuckets c (List.range ssdHashSize) 0 buffer) d r d') :
    r.1 ≤ ssdMaxVirblocksPerChannel ∧ ∀ i, r.1 * flushIdInfoSize ≤ i → r.2 i = buffer i := by
  obtain ⟨-, staged⟩ := Safe.runs (fun _ => rfl) (stageBuckets_spec c (List.range ssdHashSize) 0 buffer) run
  have count : r.1 = (d.ch c).nodes.length := by
    rw [staged]
    exact Nat.zero_add _
  constructor
  · rw [count]
    exact few
  · intro i above
    rw [staged]
    apply stageNodes_above
    rw [count] at above
    rwa [Nat.zero_add, Nat.mul_comm]

/-- **The image of a flush always fits**, and so does the list of ids of a channel. -/
theorem flush_image_fits (d : Device) (partition : ∀ c < ssdMaxChannel, SpacePartition (d.ch c)) :
    (∀ n d', Run anyOutcome copyIdHash d n d' →
      n ≤ ssdMaxIdNum ∧ tabledataBytes n ≤ ssdMaxFlushSize ∧ tableBlockNum n ≤ 5 ∧
      ∀ i, i < ssdMaxChannel * (2 * ssdTableSize) ∨ tabledataBytes n ≤ i → d'.kbufFlush i = d.kbufFlush i) ∧
    (∀ q t, Reaches (Device.perform 0) anyOutcome copyIdHash d q t → Confines q) ∧
    (∀ n type q t, Reaches (Device.perform 0) anyOutcome (flushTabledata n type) d q t → Confines q) ∧
    (∀ type q t, Reaches (Device.perform 0) anyOutcome (ssdSysFlush type) d q t → Confines q) ∧
    ∀ usr c buffer next t, Reaches (Device.perform 0) anyOutcome (ssdReadIdtable usr) d
        (stageBuckets c (List.range ssdHashSize) 0 buffer >>= next) t →
      ∀ r t', Run anyOutcome (stageBuckets c (List.range ssdHashSize) 0 buffer) t r t' →
        r.1 ≤ ssdMaxVirblocksPerChannel ∧ ∀ i, r.1 * flushIdInfoSize ≤ i → r.2 i = buffer i := by
  have few : ((List.range ssdMaxChannel).flatMap fun c => nodesOf (ledger d c).2).length ≤
      ssdMaxIdNum := nodes_few partition
  refine ⟨fun n d' run => ?_, fun q t run => (copyIdHash_confined few).reaches run,
    fun n type q t run => (flushTabledata_confined n type).reaches run,
    fun type q t run => (ssdSysFlush_confined few type).reaches run, fun usr c buffer next t reach r t' run => ?_⟩
  · obtain ⟨count, kept⟩ := copyIdHash_writes run
    have few : n ≤ ssdMaxIdNum := by
      rw [count]
      exact few
    refine ⟨few, ?_, tableBlockNum_le few, kept⟩
    simp only [tabledataBytes, idListOffset, flushIdInfoSize, ssdMaxIdNum, ssdMaxFlushSize] at *
    omega
  · -- the channel is one of the loop, and nothing has changed so far
    obtain ⟨left, same⟩ := Program.Fenced.reaches (flushFence_truthful (ledger d))
        (ssdReadIdtable_confined usr) rfl reach
    have inside : c < ssdMaxChannel := left.allows.2.2.1
    have nodes : (t.ch c).nodes = (d.ch c).nodes := congrArg (fun l : Ledger => nodesOf (l c).2) same
    apply stageBuckets_writes _ run
    rw [nodes]
    exact (partition c inside).few

/-- A card with 2000 ids. -/
theorem flush_image_fits_2000 : ∃ d, (d.ch 0).nodes.length = 2000 ∧
    ∀ type q t, Reaches (Device.perform 0) anyOutcome (ssdSysFlush type) d q t → Confines q := by
  obtain ⟨d, indexed⟩ := exists_indexed 2000 (by decide)
  have partition : ∀ c < ssdMaxChannel, SpacePartition (d.ch c) := fun c inside =>
    spacePartition_of_inv inside (indexed.written.space c inside)
  exact ⟨d, indexed.count, (flush_image_fits d partition).2.2.2.1⟩

end Flush

end FpgaSsd.Theory
