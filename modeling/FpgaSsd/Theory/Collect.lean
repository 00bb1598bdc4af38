/-
# Theory.Collect — the ids of each channel, out of a directory walk

`ID_to_channel` puts every id of the walk at the end of the row of its channel. A row has
2000 entries, and a channel can hold 8000 ids.

* `char2id_hexName` — the id is read back from its name;
* `mem_idPlaces`, `rowOf_collect` — the entries that the walk writes, and a row behind it;
* `Walks.row` — the calls of a channel are its ids;
* `collects_iff` — the rows are right exactly when no channel holds more than 2000 ids.
-/
import FpgaSsd.Theory.DirectoryWalk
import FpgaSsd.Tools.SsdRecover

namespace FpgaSsd.Theory

open FpgaSsd.Lib FpgaSsd.Driver FpgaSsd.Api FpgaSsd.Tools

set_option autoImplicit false

/-! ## Names -/

section Names

theorem char2idDigit_hexChar (sum : UInt64) : ∀ x < 16,
    char2idDigit sum (upperHex.getD x 0) = sum * 16 + .ofNat x := by
  intro x less
  interval_cases x <;> simp [char2idDigit, charValue, upperHex] <;> grind

/-- The last `k + 1` digits of a number are the last digit behind those before it. -/
theorem mod_pow_step (n k : Nat) : n / 16 % 16 ^ k * 16 + n % 16 = n % 16 ^ (k + 1) := by
  rw [Nat.pow_succ, Nat.mul_comm (16 ^ k) 16, Nat.mod_mul, Nat.mul_comm, Nat.add_comm]

/-- Sixteen digits of a name are read as the number they stand for. -/
theorem char2idHalf_hexName (n start : Nat) (half : start ≤ 16) :
    char2idHalf (hexName n) start = .ofNat (n / 16 ^ (16 - start) % 16 ^ 16) := by
  have upTo : ∀ k ≤ 16, (List.range k).foldl
      (fun sum i => char2idDigit sum ((hexName n).getD (start + i) 0)) 0 =
        UInt64.ofNat (n / 16 ^ (32 - start - k) % 16 ^ k) := by
    intro k
    induction k with
    | zero => intro _; simp [Nat.mod_one]
    | succ k ih =>
        intro inside
        have digit : (hexName n).getD (start + k) 0 = upperHex.getD (n / 16 ^ (31 - (start + k)) % 16) 0 := by
          rw [hexName, List.getD_eq_getElem?_getD, List.getElem?_map, List.getElem?_range (by omega)]
          rfl
        have shift : n / 16 ^ (32 - start - k) = n / 16 ^ (31 - (start + k)) / 16 := by
          rw [Nat.div_div_eq_div_mul, ← Nat.pow_succ]
          congr 2
          omega
        rw [List.range_succ, List.foldl_append, List.foldl_cons, List.foldl_nil, ih (by omega), digit,
          char2idDigit_hexChar _ _ (Nat.mod_lt _ (by decide)), shift,
          show 32 - start - (k + 1) = 31 - (start + k) by omega, ← mod_pow_step, UInt64.ofNat_add,
          UInt64.ofNat_mul]
        rfl
  rw [char2idHalf, upTo 16 (Nat.le_refl _), show 32 - start - 16 = 16 - start by omega]

/-- **The id is read back from its name.** -/
theorem char2id_hexName (id : BlockId) : char2id (hexName (idNumber id)) = id := by
  have high : id.mNHigh.toNat < 16 ^ 16 := id.mNHigh.toNat_lt
  have low : id.mNLow.toNat < 16 ^ 16 := id.mNLow.toNat_lt
  obtain ⟨mNLow, mNHigh⟩ := id
  rw [char2id, char2idHalf_hexName _ _ (by decide), char2idHalf_hexName _ _ (by decide), BlockId.mk.injEq]
  dsimp only at high low
  constructor
  · rw [Nat.sub_self, Nat.pow_zero, Nat.div_one, idNumber, show 2 ^ 64 = 16 ^ 16 by decide, Nat.add_comm,
      Nat.add_mul_mod_self_right, Nat.mod_eq_of_lt low, UInt64.ofNat_toNat]
  · rw [Nat.sub_zero, idNumber, show 2 ^ 64 = 16 ^ 16 by decide, Nat.add_comm,
      Nat.add_mul_div_right _ _ (by decide), Nat.div_eq_of_lt low, Nat.zero_add, Nat.mod_eq_of_lt high,
      UInt64.ofNat_toNat]

end Names

/-! ## Rows -/

/-- The arrays behind the calls. -/
def collect (calls : List FtwCall) : ChIds := calls.foldl idToChannel .zero

/-- The row and the column of each entry that the calls write. -/
def idPlaces : ChIds → List FtwCall → List (Nat × Nat)
  | _, [] => []
  | s, call :: rest => (call.sb.stRdev, s.chIdNum call.sb.stRdev) :: idPlaces (idToChannel s call) rest

/-- The first `ch_IDnum[c]` ids of a row, with their blocks. -/
def rowOf (s : ChIds) (c : Nat) : List (BlockId × Nat) :=
  (List.range (s.chIdNum c)).map fun i => (s.chId (idSlot c i), s.chIdLogic (idSlot c i))

/-- The calls that name a channel. -/
def callsOf (c : Nat) (calls : List FtwCall) : List FtwCall := calls.filter fun call => call.sb.stRdev = c

/-- What a call is put down as. -/
def idAndBlock (call : FtwCall) : BlockId × Nat := (char2id call.fpath, call.sb.stIno)

section Rows

variable {c : Nat}

theorem callsOf_cons (call : FtwCall) (calls : List FtwCall) : callsOf c (call :: calls) =
    if call.sb.stRdev = c then call :: callsOf c calls else callsOf c calls := by
  simp [callsOf, List.filter_cons]

theorem callsOf_snoc (call : FtwCall) (calls : List FtwCall) : callsOf c (calls ++ [call]) =
    if call.sb.stRdev = c then callsOf c calls ++ [call] else callsOf c calls := by
  by_cases here : call.sb.stRdev = c <;> simp [callsOf, here]

theorem collect_snoc (calls : List FtwCall) (call : FtwCall) :
    collect (calls ++ [call]) = idToChannel (collect calls) call := by
  rw [collect, List.foldl_append]
  rfl

theorem idToChannel_num (s : ChIds) (call : FtwCall) : (idToChannel s call).chIdNum c =
    s.chIdNum c + if call.sb.stRdev = c then 1 else 0 := by
  unfold idToChannel
  by_cases here : call.sb.stRdev = c
  · rw [if_pos here, here]
    exact Function.update_self ..
  · rw [if_neg here]
    exact Function.update_of_ne (Ne.symm here) ..

/-- **The places written in a row** follow the ones that were taken. -/
theorem mem_idPlaces (s : ChIds) (calls : List FtwCall) (k : Nat) : (c, k) ∈ idPlaces s calls ↔
    s.chIdNum c ≤ k ∧ k < s.chIdNum c + (callsOf c calls).length := by
  induction calls generalizing s with
  | nil => simp [idPlaces, callsOf]
  | cons call rest ih =>
      rw [idPlaces, List.mem_cons, ih, idToChannel_num, callsOf_cons]
      by_cases here : call.sb.stRdev = c
      · rw [if_pos here, if_pos here, Prod.mk.injEq, here, List.length_cons]
        omega
      · rw [if_neg here, if_neg here, Prod.mk.injEq]
        constructor
        · rintro (⟨same, -⟩ | inside)
          · exact absurd same.symm here
          · exact inside
        · intro inside
          exact .inr inside

theorem collect_num (calls : List FtwCall) : (collect calls).chIdNum c = (callsOf c calls).length := by
  induction calls using List.reverseRecOn with
  | nil => rfl
  | append_singleton calls call ih =>
      rw [collect_snoc, idToChannel_num, ih, callsOf_snoc]
      split
      · rw [List.length_append, List.length_singleton]
      · rfl

/-- Entries inside their rows are different places in memory. -/
theorem idSlot_inj {c c' i i' : Nat} (inside : i < idColumns) (inside' : i' < idColumns)
    (same : idSlot c i = idSlot c' i') : c = c' ∧ i = i' := by
  simp only [idSlot, idColumns] at *
  omega

/-- **A row** is made of the calls for it, as long as no row is full. -/
theorem rowOf_collect (calls : List FtwCall) (fits : ∀ c, (callsOf c calls).length ≤ idColumns) :
    rowOf (collect calls) c = (callsOf c calls).map idAndBlock := by
  induction calls using List.reverseRecOn with
  | nil => rfl
  | append_singleton calls call ih =>
      have fewer : ∀ c, (callsOf c calls).length ≤ (callsOf c (calls ++ [call])).length := by
        intro c
        rw [callsOf_snoc]
        split
        · rw [List.length_append]
          omega
        · omega
      have before := ih fun c => (fewer c).trans (fits c)
      -- the entry that is written is inside its row, and new
      have last : (callsOf call.sb.stRdev calls).length < idColumns := by
        have most := fits call.sb.stRdev
        rw [callsOf_snoc, if_pos rfl, List.length_append, List.length_singleton] at most
        omega
      have kept : ∀ i < (callsOf c calls).length,
          ((idToChannel (collect calls) call).chId (idSlot c i),
          (idToChannel (collect calls) call).chIdLogic (idSlot c i)) =
            ((collect calls).chId (idSlot c i), (collect calls).chIdLogic (idSlot c i)) := by
        intro i inside
        have other : idSlot c i ≠ idSlot call.sb.stRdev ((collect calls).chIdNum call.sb.stRdev) := by
          intro same
          rw [collect_num] at same
          obtain ⟨rfl, rfl⟩ := idSlot_inj (inside.trans_le ((fewer c).trans (fits c))) last same
          omega
        unfold idToChannel
        dsimp only
        rw [Function.update_of_ne other, Function.update_of_ne other]
      rw [rowOf, collect_num] at before ⊢
      rw [collect_snoc, callsOf_snoc]
      split
      · rename_i here
        rw [List.length_append, List.length_singleton, List.range_succ, List.map_append, List.map_append, ← before]
        congr 1
        · exact List.map_congr_left fun i member => kept i (List.mem_range.1 member)
        · have slot : (collect calls).chIdNum call.sb.stRdev = (callsOf c calls).length := by
            rw [collect_num, here]
          unfold idToChannel idAndBlock
          dsimp only
          rw [List.map_singleton, List.map_singleton, slot, here, Function.update_self, Function.update_self]
      · rw [← before]
        exact List.map_congr_left fun i member => kept i (List.mem_range.1 member)

end Rows

/-! ## The walk -/

/-- The ids of a channel and their first logical blocks. -/
def channelIds (d : Device) (c : Nat) : List (BlockId × Nat) :=
  (d.ch c).nodes.map fun node => (node.id, node.info.block.val)

/-- The rows are the ids of the channels, each once, and only entries of the arrays are written. -/
structure Collects (d : Device) (calls : List FtwCall) : Prop where
  rows : ∀ c < ssdMaxChannel, (rowOf (collect calls) c).Perm (channelIds d c)
  once : ∀ c < ssdMaxChannel, ((rowOf (collect calls) c).map Prod.fst).Nodup
  inside : ∀ place ∈ idPlaces .zero calls, place.1 < ssdMaxChannel ∧ place.2 < idColumns

section Walk

variable {d : Device} {c : Nat} {ret : Int} {calls : List FtwCall}

theorem nodes_nodup (written : WrittenTable d) (inside : c < ssdMaxChannel) :
    ((d.ch c).nodes.map HashNode.id).Nodup := (written.table c inside).nodup

theorem NamesEntry.idAndBlock {id : BlockId} {info : IdInfo} {call : FtwCall} (shows : NamesEntry id info call) :
    Theory.idAndBlock call = (id, info.block.val) := by
  rw [Theory.idAndBlock, shows.name, shows.first, char2id_hexName]

/-- **The calls for a channel are its ids**, each once. -/
theorem Walks.row (walks : Walks d (fun _ => 0) ret calls) (written : WrittenTable d) (inside : c < ssdMaxChannel) :
    ((callsOf c calls).map idAndBlock).Perm (channelIds d c) := by
  have names : (calls.map fun call => (Theory.idAndBlock call).1).Nodup := by
    have distinct := walks.once
    refine List.Nodup.of_map (fun id => hexName (idNumber id)) ?_
    rw [List.map_map]
    refine (List.map_congr_left fun call member => ?_) ▸ distinct
    obtain ⟨id, info, -, shows⟩ := walks.only call member
    rw [Function.comp_apply, shows.idAndBlock, shows.name]
  have left : ((callsOf c calls).map idAndBlock).Nodup := by
    refine List.Nodup.of_map Prod.fst ?_
    rw [List.map_map]
    exact names.sublist (List.filter_sublist.map _)
  have right : (channelIds d c).Nodup := by
    refine List.Nodup.of_map Prod.fst ?_
    rw [channelIds, List.map_map]
    exact nodes_nodup written inside
  refine (List.perm_ext_iff_of_nodup left right).2 fun entry => ?_
  constructor
  · intro listed
    obtain ⟨call, member, rfl⟩ := List.mem_map.1 listed
    obtain ⟨inCalls, here⟩ := List.mem_filter.1 member
    obtain ⟨id, info, found, shows⟩ := walks.only call inCalls
    have channel : id2channel id = c := shows.channel.symm.trans (of_decide_eq_true here)
    rw [shows.idAndBlock]
    refine List.mem_map.2 ⟨⟨id, info⟩, ?_, rfl⟩
    rw [← channel]
    exact List.mem_flatMap.2 ⟨idHash id, List.mem_range.2 (idHash_lt id), lookup_mem found⟩
  · intro listed
    obtain ⟨node, member, rfl⟩ := List.mem_map.1 listed
    have inTable : node ∈ tableNodes d := List.mem_flatMap.2 ⟨c, List.mem_range.2 inside, member⟩
    obtain ⟨-, found, -, home⟩ := written.entry inTable
    obtain ⟨call, inCalls, shows⟩ := (walks.complete fun _ => rfl).2 node.id node.info found
    have own : node.info.channel.val = c := (written.space c inside).own node member
    refine List.mem_map.2 ⟨call, List.mem_filter.2 ⟨inCalls, ?_⟩, shows.idAndBlock⟩
    rw [shows.channel, ← home, own]
    exact decide_eq_true rfl

theorem Walks.count (walks : Walks d (fun _ => 0) ret calls) (written : WrittenTable d) (inside : c < ssdMaxChannel) :
    (callsOf c calls).length = (d.ch c).nodes.length := by
  have same := (walks.row written inside).length_eq
  rwa [List.length_map, channelIds, List.length_map] at same

/-- Every call names a channel. -/
theorem Walks.channel_lt (walks : Walks d (fun _ => 0) ret calls) {call : FtwCall} (member : call ∈ calls) :
    call.sb.stRdev < ssdMaxChannel := by
  obtain ⟨id, info, -, shows⟩ := walks.only call member
  rw [shows.channel]
  exact id2channel_lt id

theorem Walks.none_outside (walks : Walks d (fun _ => 0) ret calls) (outside : ¬ c < ssdMaxChannel) :
    callsOf c calls = [] := by
  refine List.filter_eq_nil_iff.2 fun call member here => outside ?_
  rw [← of_decide_eq_true here]
  exact walks.channel_lt member

/-- The walk of the two tools, which stops for no id. -/
theorem walks_of_run (written : WrittenTable d) {u : Caller} (can : CanList u 0) {pbuf : Mem} {d' : Device}
    (run : Run ownMemory (ssdFtw u 0 (fun _ => 0) pbuf) d (ssdOk, calls) d') : Walks d (fun _ => 0) ssdOk calls := by
  rcases (ssdFtw_spec written can pbuf ownMemory_own).runs run with walks | ⟨-, failed⟩
  · exact walks
  · exact absurd (congrArg Prod.fst failed) (by decide : ¬ (ssdOk : Int) = ssdMaxIdNum + 1)

/-- **Collecting the ids loses nothing exactly when no channel holds more than 2000.** -/
theorem collects_iff (d : Device) (written : WrittenTable d) (u : Caller) (can : CanList u 0) (pbuf : Mem)
    (calls : List FtwCall) (d' : Device)
    (run : Run ownMemory (ssdFtw u 0 (fun _ => 0) pbuf) d (ssdOk, calls) d') :
    Collects d calls ↔ ∀ c < ssdMaxChannel, (d.ch c).nodes.length ≤ idColumns := by
  have walks := walks_of_run written can run
  constructor
  · intro collects c inside
    by_contra more
    -- the entry behind the row is written
    have place : (c, idColumns) ∈ idPlaces .zero calls := by
      rw [mem_idPlaces, walks.count written inside]
      exact ⟨Nat.zero_le _, by simp only [ChIds.zero]; omega⟩
    exact absurd (collects.inside _ place).2 (Nat.lt_irrefl _)
  · intro fits
    have counts : ∀ c, (callsOf c calls).length ≤ idColumns := by
      intro c
      by_cases inside : c < ssdMaxChannel
      · rw [walks.count written inside]
        exact fits c inside
      · rw [walks.none_outside inside]
        exact Nat.zero_le _
    have rows : ∀ c < ssdMaxChannel, (rowOf (collect calls) c).Perm (channelIds d c) := by
      intro c inside
      rw [rowOf_collect calls counts]
      exact walks.row written inside
    constructor
    · exact rows
    · intro c inside
      refine ((rows c inside).map Prod.fst).nodup_iff.2 ?_
      rw [channelIds, List.map_map]
      exact nodes_nodup written inside
    · rintro ⟨c, k⟩ place
      have below := ((mem_idPlaces _ _ _).1 place).2
      simp only [ChIds.zero, Nat.zero_add] at below
      refine ⟨?_, below.trans_le (counts c)⟩
      by_contra outside
      rw [walks.none_outside outside] at below
      exact Nat.not_lt_zero _ below

end Walk

/-! ## Full rows -/

section Full

/-- Channel 0 holds the index ids `numbered 0`, `numbered 8`, …, and the card no others. -/
structure Indexed (n : Nat) (d : Device) : Prop where
  written : WrittenTable d
  count : (d.ch 0).nodes.length = n
  others : ∀ c, c ≠ 0 → (d.ch c).nodes = []
  free : (d.ch 0).space.freeBlocks = ssdMaxVirblocksPerChannel - (n : Int)
  fresh : ∀ k, n ≤ k → k ≤ ssdMaxVirblocksPerChannel → find (d.ch 0).hash (numbered (8 * k)) = none

theorem indexed_empty : Indexed 0 emptyDevice := by
  have free : emptyChannel.space.freeBlocks = 8000 := by
    rw [emptyChannel_space, reloadSpace_empty]
    rfl
  have none : ∀ c, (emptyDevice.ch c).nodes = [] := fun c => List.flatMap_eq_nil_iff.2 fun _ _ => rfl
  exact ⟨emptyDevice_written, by rw [none 0]; rfl, fun c _ => none c, free, fun _ _ _ => rfl⟩

theorem idType_indexed {n : Nat} (small : n < ssdMaxVirblocksPerChannel) : idType (numbered (8 * n)) = .iblock := by
  have high : (numbered (8 * n)).mNHigh.toNat = 8 * n := by
    simp only [numbered, UInt64.toNat_ofNat', ssdMaxVirblocksPerChannel] at *
    omega
  rw [idType, high, if_pos (Nat.mul_mod_right ..)]

/-- One more write, that nothing hinders. -/
theorem Indexed.write {n : Nat} {d : Device} (indexed : Indexed n d) (room : n < ssdMaxVirblocksPerChannel) :
    ∃ d', Indexed (n + 1) d' := by
  have inside : 0 < ssdMaxChannel := by decide
  obtain ⟨⟨ret, s⟩, alloc⟩ := Option.isSome_iff_exists.1 (ssdAllocLogicBlock_isSome (ledger d 0).1 .iblock)
  obtain ⟨full, taken⟩ := alloc_iblock_takes (indexed.written.space 0 inside).space alloc
  have free : (ledger d 0).1.freeBlocks = ssdMaxVirblocksPerChannel - (n : Int) := indexed.free
  have some : ret ≠ -errAllocBlock := by
    intro failed
    have empty := full.1 failed
    omega
  obtain ⟨b, rfl, -, -, fewer⟩ := taken some
  have effect : WriteEffect 0 (numbered (8 * n)) .iblock (d.ch 0).space (d.ch 0).hash ssdOk
      (s, insertNode (d.ch 0).hash (numbered (8 * n)) (.at 0 b .iblock)) :=
    .done (indexed.fresh n (Nat.le_refl _) (Nat.le_of_lt room)) alloc
  let ch : Channel := { d.ch 0 with
    space := s, hash := insertNode (d.ch 0).hash (numbered (8 * n)) (.at 0 b .iblock) }
  have here : (d.setCh 0 ch).ch 0 = ch := Device.setCh_ch_same ..
  refine ⟨d.setCh 0 ch, ?_⟩
  constructor
  · exact indexed.written.update ledger_setCh (effect.inv inside (indexed.written.space 0 inside))
      (effect.placed (numbered_channel _) (indexed.written.table 0 inside))
      (effect.sized (idType_indexed room).symm (indexed.written.sized 0 inside))
  · rw [here]
    have perm : ch.nodes.Perm (⟨numbered (8 * n), .at 0 b .iblock⟩ :: (d.ch 0).nodes) := nodesOf_insertNode _
    rw [perm.length_eq, List.length_cons, indexed.count]
  · intro c other
    rw [Device.setCh_ch_other _ _ other]
    exact indexed.others c other
  · rw [here]
    show s.freeBlocks = _
    rw [fewer, free]
    push_cast
    ring
  · intro k later most
    rw [here]
    have differs : numbered (8 * k) ≠ numbered (8 * n) := by
      intro same
      have equal := numbered_inj (by simp only [ssdMaxVirblocksPerChannel] at *; omega)
        (by simp only [ssdMaxVirblocksPerChannel] at *; omega) same
      omega
    exact (find_insertNode _).trans ((if_neg differs).trans (indexed.fresh k (by omega) most))

/-- A channel can hold as many index ids as it has blocks. -/
theorem exists_indexed (n : Nat) (few : n ≤ ssdMaxVirblocksPerChannel) : ∃ d, Indexed n d := by
  induction n with
  | zero => exact ⟨emptyDevice, indexed_empty⟩
  | succ n ih =>
      obtain ⟨d, indexed⟩ := ih (Nat.le_of_succ_le few)
      exact indexed.write few

theorem openCaller_lists : CanList openCaller 0 := ⟨.inl rfl, rfl, fun monitor => absurd monitor (by decide)⟩

/-- A walk of the tools that meets no failure. -/
theorem exists_walk {d : Device} (written : WrittenTable d) (pbuf : Mem) : ∃ calls d',
    Run ownMemory (ssdFtw openCaller 0 (fun _ => 0) pbuf) d (ssdOk, calls) d' := by
  obtain ⟨⟨ret, calls⟩, d', run⟩ := ssdFtw_runs openCaller 0 (fun _ => 0) pbuf d
  obtain ⟨rfl, -⟩ := (ssdFtw_walks written openCaller_lists run).complete fun _ => rfl
  exact ⟨calls, d', run.mono fun _ _ _ fine _ => fine.1⟩

/-- **2000 ids** on a channel are collected. -/
theorem collects_2000 : ∃ d calls d', (d.ch 0).nodes.length = 2000 ∧
    Run ownMemory (ssdFtw openCaller 0 (fun _ => 0) fun _ => 0) d (ssdOk, calls) d' ∧ Collects d calls := by
  obtain ⟨d, indexed⟩ := exists_indexed 2000 (by decide)
  obtain ⟨calls, d', run⟩ := exists_walk indexed.written fun _ => 0
  refine ⟨d, calls, d', indexed.count, run, ?_⟩
  refine (collects_iff d indexed.written openCaller openCaller_lists _ calls d' run).2 fun c _ => ?_
  by_cases first : c = 0
  · rw [first, indexed.count]
  · rw [indexed.others c first]
    exact Nat.zero_le _

/-- **One id more** is written behind the row. -/
theorem id_2001_is_outside : ∃ d calls d', WrittenTable d ∧ (d.ch 0).nodes.length = 2001 ∧
    Run ownMemory (ssdFtw openCaller 0 (fun _ => 0) fun _ => 0) d (ssdOk, calls) d' ∧
      (0, idColumns) ∈ idPlaces .zero calls ∧ ¬ Collects d calls := by
  obtain ⟨d, indexed⟩ := exists_indexed 2001 (by decide)
  obtain ⟨calls, d', run⟩ := exists_walk indexed.written fun _ => 0
  have walks := walks_of_run indexed.written openCaller_lists run
  have place : (0, idColumns) ∈ idPlaces .zero calls := by
    rw [mem_idPlaces, walks.count indexed.written (by decide), indexed.count]
    decide
  exact ⟨d, calls, d', indexed.written, indexed.count, run, place,
    fun collects => absurd (collects.inside _ place).2 (Nat.lt_irrefl _)⟩

end Full

end FpgaSsd.Theory
