/-
# Theory.DirectoryWalk — a walk lists every id exactly once

The entries of all channels, one behind the other, are the nodes of the table; the walk
turns each into a name and a status.

* `sendChannels_spec` — the list in the memory of the process is the list of nodes;
* `cString_idtochar` — the name is the number of the id in 32 digits;
* `ftwLoop_spec` — the calls, up to the first that does not answer 0;
* `ssdWrite_written` — the ids that `SSD_write` makes have the length that the walk assumes;
* `directory_walk` — the walk of a table that was written so.
-/
import FpgaSsd.Api.Ftw
import FpgaSsd.Theory.ChannelRange
import FpgaSsd.Theory.Image

namespace FpgaSsd.Theory

open FpgaSsd.Lib FpgaSsd.Driver FpgaSsd.Api

set_option autoImplicit false

/-! ## The list -/

section Staging

variable {nodes : List HashNode} {n k : Nat} {m : Mem}

theorem stageNodes_append (xs ys : List HashNode) (n : Nat) (m : Mem) :
    stageNodes (xs ++ ys) n m = stageNodes ys (n + xs.length) (stageNodes xs n m) := by
  induction xs generalizing n m with
  | nil => rfl
  | cons node rest ih =>
      rw [List.cons_append, stageNodes, stageNodes, ih, List.length_cons]
      congr 1
      omega

/-- Entries below the list that is staged stay. -/
theorem stageNodes_below {i : Nat} (below : i < flushIdInfoSize * n) : stageNodes nodes n m i = m i := by
  induction nodes generalizing n m with
  | nil => rfl
  | cons node rest ih =>
      rw [stageNodes, ih (by simp only [flushIdInfoSize] at *; omega), FlushIdInfo.encode_outside (.inl below)]

/-- Entry `k` of the list is the one of node `k`. -/
theorem stageNodes_decode (inside : k < nodes.length) :
    FlushIdInfo.decode (stageNodes nodes n m) (flushIdInfoSize * (n + k)) = flushIdInfoOf nodes[k] := by
  induction nodes generalizing n k m with
  | nil => cases inside
  | cons node rest ih =>
      cases k with
      | zero =>
          have kept : ∀ i < flushIdInfoSize,
              stageNodes rest (n + 1) ((flushIdInfoOf node).encode m (flushIdInfoSize * n)) (flushIdInfoSize * n + i) =
                (flushIdInfoOf node).encode m (flushIdInfoSize * n) (flushIdInfoSize * n + i) :=
            fun i small => stageNodes_below (by simp only [flushIdInfoSize] at *; omega)
          exact (FlushIdInfo.decode_congr kept).trans (FlushIdInfo.decode_encode ..)
      | succ k =>
          have less : k < rest.length := Nat.lt_of_succ_lt_succ inside
          rw [stageNodes, show n + (k + 1) = n + 1 + k by omega, ih less]
          rfl

end Staging

section Reading

variable {may : May} {d : Device}

/-- Looking at a bucket changes nothing. -/
theorem copyBucket_holds (c b : Nat) :
    Holds may (Drv.chan c (.copyBucket b)) (fun nodes d' => nodes = ((d.ch c).hash b).first ∧ d' = d) d := by
  refine Holds.chan fun o r ch _ step => ?_
  cases step
  exact ⟨rfl, Device.setCh_self d c⟩

theorem stageBuckets_spec (c : Nat) (buckets : List Nat) (n : Nat) (m : Mem) :
    Holds may (stageBuckets c buckets n m) (fun r d' => d' = d ∧
      r = (n + (buckets.flatMap fun b => ((d.ch c).hash b).first).length,
        stageNodes (buckets.flatMap fun b => ((d.ch c).hash b).first) n m)) d := by
  induction buckets generalizing n m with
  | nil => exact Holds.pure ⟨rfl, rfl⟩
  | cons b rest ih =>
      refine Holds.seq (copyBucket_holds c b) ?_
      rintro nodes _ ⟨rfl, rfl⟩
      refine (ih _ _).weaken ?_
      rintro _ d' ⟨rfl, rfl⟩
      rw [List.flatMap_cons, stageNodes_append, List.length_append]
      exact ⟨rfl, Prod.ext (Nat.add_assoc ..) rfl⟩

/-- The first entries of a memory are those of the nodes. -/
def Listed (nodes : List HashNode) (usr : Mem) : Prop :=
  ∀ k (inside : k < nodes.length), FlushIdInfo.decode usr (flushIdInfoSize * k) = flushIdInfoOf nodes[k]

/-- A staged list is copied behind the list so far. -/
theorem Listed.append {before nodes : List HashNode} {usr m : Mem} (listed : Listed before usr) :
    Listed (before ++ nodes) (copyBytes usr (flushIdInfoSize * before.length) (stageNodes nodes 0 m) 0
      (nodes.length * flushIdInfoSize)) := by
  intro k inside
  rw [List.length_append] at inside
  by_cases old : k < before.length
  · rw [List.getElem_append_left old, ← listed k old]
    refine FlushIdInfo.decode_congr fun i small => copyBytes_outside ?_
    simp only [flushIdInfoSize] at *
    omega
  · have new : k - before.length < nodes.length := by omega
    rw [List.getElem_append_right (Nat.le_of_not_lt old), ← stageNodes_decode (n := 0) (m := m) new, Nat.zero_add]
    refine FlushIdInfo.decode_congr fun i small => ?_
    simp only [flushIdInfoSize] at *
    rw [show 24 * k + i = 24 * before.length + (24 * (k - before.length) + i) by omega,
      copyBytes_inside (by omega), Nat.zero_add]

/-- `may` lets an action fail. -/
def CanFail (may : May) (a : Act) : Prop := ∃ d o, may d a o ∧ o.failed = true

/-- The reply of an action that says whether it failed. -/
theorem failing_holds {a : Act} (reply : Bool → a.Reply)
    (step : ∀ o, d.perform 0 a o = some (reply o.failed, d)) :
    Holds may (Program.perform a) (fun r d' => d' = d ∧ ((r = reply true ∧ CanFail may a) ∨ r = reply false)) d := by
  refine Holds.perform fun o r d' allowed acted => ?_
  rw [step o] at acted
  cases acted
  cases failed : o.failed with
  | true => exact ⟨rfl, .inl ⟨rfl, d, o, allowed, failed⟩⟩
  | false => exact ⟨rfl, .inr rfl⟩

/-- **The list in the memory of the process** is the list of nodes, behind what was there. -/
theorem sendChannels_spec (channels : List Nat) (before : List HashNode) (buffer usr : Mem)
    (listed : Listed before usr) :
    Holds may (sendChannels channels before.length (flushIdInfoSize * before.length) buffer usr) (fun r d' => d' = d ∧
      ((r.1 = none ∧ CanFail may .copyParam) ∨
        r.1 = some (before ++ channels.flatMap fun c => (d.ch c).nodes).length ∧
          Listed (before ++ channels.flatMap fun c => (d.ch c).nodes) r.2)) d := by
  induction channels generalizing before buffer usr with
  | nil =>
      rw [List.flatMap_nil, List.append_nil]
      exact Holds.pure ⟨rfl, .inr ⟨rfl, listed⟩⟩
  | cons c rest ih =>
      rw [sendChannels]
      refine Holds.seq (stageBuckets_spec c (List.range ssdHashSize) 0 buffer) ?_
      rintro _ d1 ⟨rfl, rfl⟩
      simp only [Nat.zero_add, List.flatMap_cons]
      have here : ((List.range ssdHashSize).flatMap fun b => ((d1.ch c).hash b).first) = (d1.ch c).nodes := rfl
      have offset : flushIdInfoSize * before.length + (d1.ch c).nodes.length * flushIdInfoSize =
          flushIdInfoSize * (before ++ (d1.ch c).nodes).length := by
        rw [List.length_append, Nat.mul_add, Nat.mul_comm _ flushIdInfoSize]
      rw [here, offset, ← List.length_append, ← List.append_assoc]
      split
      · refine Holds.seq (failing_holds (fun failed => failed) fun _ => rfl) ?_
        rintro failed d2 ⟨rfl, ⟨rfl, fails⟩ | rfl⟩
        · exact Holds.pure ⟨rfl, .inl ⟨rfl, fails⟩⟩
        · exact ih _ _ _ listed.append
      · rename_i none
        have empty : (d1.ch c).nodes = [] := List.eq_nil_of_length_eq_zero (Nat.eq_zero_of_not_pos none)
        exact ih _ _ _ (by rw [empty, List.append_nil]; exact listed)

/-- A count and a failure are told apart by the number alone. -/
theorem ssdReadIdtable_spec (usr : Mem) : Holds may (ssdReadIdtable usr) (fun r d' => d' = d ∧
    ((r.1 = ssdMaxIdNum + 1 ∧ (CanFail may .copyParam ∨ CanFail may .kmalloc)) ∨
      r.1 = (tableNodes d).length ∧ Listed (tableNodes d) r.2)) d := by
  refine Holds.seq (failing_holds (fun failed => failed) fun _ => rfl) ?_
  rintro null d2 ⟨rfl, ⟨rfl, fails⟩ | rfl⟩
  · exact Holds.pure ⟨rfl, .inl ⟨rfl, .inr fails⟩⟩
  have none : Listed [] usr := fun _ inside => absurd inside (Nat.not_lt_zero _)
  refine Holds.seq (sendChannels_spec (List.range ssdMaxChannel) [] (fun _ => 0) usr none) ?_
  rintro ⟨idNum, usr'⟩ d3 ⟨rfl, ⟨rfl, fails⟩ | ⟨rfl, listed⟩⟩
  · exact Holds.pure ⟨rfl, .inl ⟨rfl, .inl fails⟩⟩
  · exact Holds.pure ⟨rfl, .inr ⟨rfl, listed⟩⟩

/-- What the request answers: an error, or the number of ids with their list. -/
theorem ioctlReadIdTable_spec (usr : Mem) : Holds may (ioctlReadIdTable usr) (fun r d' => d' = d ∧
    ((r.1 = errCopyFromUser ∧ CanFail may .copyParam) ∨
      (r.1 = ssdMaxIdNum + 1 ∧ (CanFail may .copyParam ∨ CanFail may .kmalloc)) ∨
      r.1 = (tableNodes d).length ∧ Listed (tableNodes d) r.2)) d := by
  refine Holds.seq (failing_holds (fun failed => failed) fun _ => rfl) ?_
  rintro failed d1 ⟨rfl, ⟨rfl, fails⟩ | rfl⟩
  · exact Holds.pure ⟨rfl, .inl ⟨rfl, fails⟩⟩
  refine Holds.seq (ssdReadIdtable_spec usr) ?_
  rintro ⟨ret, list⟩ d2 ⟨rfl, answer⟩
  have sign : (if -ret < 0 then - -ret else -ret) = ret := by
    rcases answer with ⟨count, -⟩ | ⟨count, -⟩
    · rw [show ret = ssdMaxIdNum + 1 from count]
      decide
    · rw [show ret = (tableNodes d2).length from count]
      split <;> omega
  refine Holds.pure ⟨rfl, .inr ?_⟩
  rw [sign]
  exact answer

end Reading

/-! ## Names -/

/-- The digits of the hexadecimal system. -/
def upperHex : List UInt8 := [48, 49, 50, 51, 52, 53, 54, 55, 56, 57, 65, 66, 67, 68, 69, 70]

/-- A number below 2¹²⁸ in 32 digits. -/
def hexName (n : Nat) : List UInt8 := (List.range 32).map fun k => upperHex.getD (n / 16 ^ (31 - k) % 16) 0

/-- The number of an id, `m_nHigh` first. -/
def idNumber (id : BlockId) : Nat := id.mNHigh.toNat * 2 ^ 64 + id.mNLow.toNat

section Names

theorem hexChar_eq : ∀ x < 16, hexChar x = upperHex.getD x 0 := by decide

theorem hexChar_ne_zero : ∀ x < 16, hexChar x ≠ 0 := by decide

theorem hexChar_injective : ∀ x < 16, ∀ y < 16, hexChar x = hexChar y → x = y := by decide

/-- The loop writes the digits from its place down to the first one. -/
theorem u64tocharFrom_spec (n i offset num : Nat) (pbuf : Mem) (all : n + i = 16) (j : Nat) :
    u64tocharFrom n i pbuf offset num j =
      if offset ≤ j ∧ j < offset + n then hexChar (num / 16 ^ (offset + n - 1 - j) % 16) else pbuf j := by
  induction n generalizing i num pbuf with
  | zero => rw [u64tocharFrom, if_neg (by omega)]
  | succ n ih =>
      rw [u64tocharFrom, ih (i + 1) _ _ (by omega)]
      by_cases last : j = offset + n
      · rw [if_neg (by omega), if_pos (by omega), last, show offset + 15 - i = offset + n by omega,
          Function.update_self, show offset + (n + 1) - 1 - (offset + n) = 0 by omega, Nat.pow_zero, Nat.div_one]
      · by_cases inside : offset ≤ j ∧ j < offset + n
        · rw [if_pos inside, if_pos (by omega), Nat.div_div_eq_div_mul, ← Nat.pow_succ',
            show (offset + n - 1 - j).succ = offset + (n + 1) - 1 - j by omega]
        · rw [if_neg inside, if_neg (by omega), Function.update_of_ne (by omega)]

theorem u64tochar_spec (pbuf : Mem) (offset : Nat) (num : UInt64) (j : Nat) :
    u64tochar pbuf offset num j =
      if offset ≤ j ∧ j < offset + 16 then hexChar (num.toNat / 16 ^ (offset + 15 - j) % 16) else pbuf j :=
  u64tocharFrom_spec 16 0 offset num.toNat pbuf rfl j

theorem idNumber_lt (id : BlockId) : idNumber id < 16 ^ 32 := by
  have high := id.mNHigh.toNat_lt
  have low := id.mNLow.toNat_lt
  simp only [idNumber]
  omega

theorem idNumber_injective {id id' : BlockId} (same : idNumber id = idNumber id') : id = id' := by
  obtain ⟨low, high⟩ := id
  obtain ⟨low', high'⟩ := id'
  have := low.toNat_lt
  have := low'.toNat_lt
  simp only [idNumber] at same
  have highs : high.toNat = high'.toNat := by omega
  have lows : low.toNat = low'.toNat := by omega
  rw [UInt64.toNat_inj.1 highs, UInt64.toNat_inj.1 lows]

/-- The first sixteen digits are those of the high word. -/
theorem idNumber_high (id : BlockId) {e : Nat} : idNumber id / 16 ^ (16 + e) % 16 = id.mNHigh.toNat / 16 ^ e % 16 := by
  have low := id.mNLow.toNat_lt
  have high : idNumber id / 16 ^ 16 = id.mNHigh.toNat := by
    simp only [idNumber]
    omega
  rw [Nat.pow_add, ← Nat.div_div_eq_div_mul, high]

/-- The last sixteen digits are those of the low word. -/
theorem idNumber_low (id : BlockId) {e : Nat} (small : e < 16) :
    idNumber id / 16 ^ e % 16 = id.mNLow.toNat / 16 ^ e % 16 := by
  have shift : 2 ^ 64 = 16 ^ e * (16 ^ (15 - e) * 16) := by
    rw [← Nat.pow_succ, ← Nat.pow_add, show e + (15 - e).succ = 16 by omega]
    decide
  have even : 16 ^ (15 - e) * 16 * id.mNHigh.toNat = 16 * (16 ^ (15 - e) * id.mNHigh.toNat) := by
    rw [Nat.mul_comm (16 ^ (15 - e)) 16, Nat.mul_assoc]
  rw [idNumber, shift, Nat.mul_comm, Nat.mul_assoc, Nat.add_comm,
    Nat.add_mul_div_left _ _ (Nat.pow_pos (by decide)), even, Nat.add_mul_mod_self_left]

/-- **The buffer holds the digits** of the number of the id, and a 0 behind them. -/
theorem idtochar_spec (pbuf : Mem) (id : BlockId) :
    (∀ k < 32, idtochar pbuf id k = hexChar (idNumber id / 16 ^ (31 - k) % 16)) ∧ idtochar pbuf id 32 = 0 := by
  constructor
  · intro k less
    rw [idtochar, Function.update_of_ne (by omega), u64tochar_spec, u64tochar_spec]
    by_cases first : k < 16
    · rw [if_neg (by omega), if_pos (by omega), show 31 - k = 16 + (15 - k) by omega, idNumber_high,
        Nat.zero_add]
    · rw [if_pos (by omega), idNumber_low id (by omega)]
  · rw [idtochar, Function.update_self]

/-- The 32 characters are the name. -/
theorem range_idtochar (pbuf : Mem) (id : BlockId) :
    (List.range 32).map (idtochar pbuf id) = hexName (idNumber id) := by
  obtain ⟨digits, -⟩ := idtochar_spec pbuf id
  refine List.map_congr_left fun k member => ?_
  rw [digits k (List.mem_range.1 member), hexChar_eq _ (Nat.mod_lt _ (by decide))]

theorem cString_idtochar (pbuf : Mem) (id : BlockId) : cString 33 (idtochar pbuf id) = hexName (idNumber id) := by
  obtain ⟨digits, ends⟩ := idtochar_spec pbuf id
  have nonzero : ∀ c ∈ (List.range 32).map (idtochar pbuf id), decide (c ≠ 0) = true := by
    intro c member
    obtain ⟨k, less, rfl⟩ := List.mem_map.1 member
    rw [digits k (List.mem_range.1 less)]
    exact decide_eq_true (hexChar_ne_zero _ (Nat.mod_lt _ (by decide)))
  rw [cString, List.range_succ, List.map_append, List.takeWhile_append_of_pos nonzero, List.map_singleton, ends,
    List.takeWhile_cons_of_neg (by decide), List.append_nil, range_idtochar]

/-- Numbers with the same last digits are equal up to them. -/
theorem mod_eq_of_digits {x y : Nat} (k : Nat) (same : ∀ j < k, x / 16 ^ j % 16 = y / 16 ^ j % 16) :
    x % 16 ^ k = y % 16 ^ k := by
  induction k with
  | zero => rw [Nat.pow_zero, Nat.mod_one, Nat.mod_one]
  | succ k ih =>
      rw [Nat.mod_pow_succ, Nat.mod_pow_succ, ih fun j less => same j (by omega), same k (by omega)]

/-- Different ids have different names. -/
theorem hexName_injective {id id' : BlockId} (same : hexName (idNumber id) = hexName (idNumber id')) : id = id' := by
  apply idNumber_injective
  rw [← Nat.mod_eq_of_lt (idNumber_lt id), ← Nat.mod_eq_of_lt (idNumber_lt id')]
  refine mod_eq_of_digits 32 fun j less => ?_
  have digit : ∀ n, (hexName n).getD (31 - j) 0 = hexChar (n / 16 ^ j % 16) := by
    intro n
    rw [hexChar_eq _ (Nat.mod_lt _ (by decide)), hexName, List.getD_eq_getElem?_getD, List.getElem?_map,
      List.getElem?_range (by omega), Option.map_some, Option.getD_some, show 31 - (31 - j) = j by omega]
  have chars := congrArg (fun name => name.getD (31 - j) 0) same
  simp only [digit] at chars
  exact hexChar_injective _ (Nat.mod_lt _ (by decide)) _ (Nat.mod_lt _ (by decide)) chars

end Names

/-! ## The calls -/

/-- The call for an entry. -/
def callOf (e : FlushIdInfo) : FtwCall := ⟨hexName (idNumber e.id), setStat e, ftwF⟩

section Calls

variable {fn : List FtwCall → Int} {buffer : Mem}

/-- The calls `made` for the first entries end at the first that does not answer 0. -/
structure Stopped (fn : List FtwCall → Int) (calls : List FtwCall) (made left : List FlushIdInfo) : Prop where
  goes : ∀ k, 0 < k → k < made.length → fn (calls ++ (made.take k).map callOf) = 0
  ends : left ≠ [] → fn (calls ++ made.map callOf) ≠ 0

theorem ftwLoop_spec (rest : List FlushIdInfo) (i : Nat) (pbuf : Mem) (calls : List FtwCall) (ret : Int)
    (entries : ∀ k (inside : k < rest.length), FlushIdInfo.decode buffer (flushIdInfoSize * (i + k)) = rest[k]) :
    ∃ made left, rest = made ++ left ∧ Stopped fn calls made left ∧
      ftwLoop fn buffer rest.length i pbuf calls ret =
        (if made = [] then ret else fn (calls ++ made.map callOf), calls ++ made.map callOf) := by
  induction rest generalizing i pbuf calls ret with
  | nil =>
      refine ⟨[], [], rfl, ⟨fun k _ less => absurd less (Nat.not_lt_zero k), fun no => absurd rfl no⟩, ?_⟩
      rw [List.map_nil, List.append_nil, if_pos rfl]
      rfl
  | cons e rest ih =>
      have here : FlushIdInfo.decode buffer (flushIdInfoSize * i) = e := entries 0 (Nat.succ_pos _)
      rw [List.length_cons, ftwLoop, here]
      simp only [cString_idtochar]
      rw [show (⟨hexName (idNumber e.id), setStat e, ftwF⟩ : FtwCall) = callOf e from rfl]
      by_cases stop : fn (calls ++ [callOf e]) = 0
      · have later : ∀ k (inside : k < rest.length),
            FlushIdInfo.decode buffer (flushIdInfoSize * (i + 1 + k)) = rest[k] := by
          intro k inside
          have next := entries (k + 1) (Nat.succ_lt_succ inside)
          rw [show i + (k + 1) = i + 1 + k by omega] at next
          exact next
        obtain ⟨made, left, rfl, stopped, result⟩ :=
          ih (i + 1) (idtochar pbuf e.id) (calls ++ [callOf e]) (fn (calls ++ [callOf e])) later
        have shape : calls ++ (e :: made).map callOf = calls ++ [callOf e] ++ made.map callOf := by
          rw [List.map_cons, List.append_cons]
        rw [if_neg (not_not.2 stop), result]
        refine ⟨e :: made, left, rfl, ⟨fun k positive less => ?_, fun some => ?_⟩, ?_⟩
        · obtain ⟨k, rfl⟩ := Nat.exists_eq_succ_of_ne_zero (Nat.ne_of_gt positive)
          rw [List.take_succ_cons, List.map_cons, List.append_cons]
          by_cases first : k = 0
          · rw [first, List.take_zero, List.map_nil, List.append_nil, stop]
          · exact stopped.goes k (Nat.pos_of_ne_zero first) (Nat.lt_of_succ_lt_succ less)
        · rw [shape]
          exact stopped.ends some
        · rw [shape, if_neg (List.cons_ne_nil _ _)]
          by_cases last : made = []
          · simp only [last, if_true, List.map_nil, List.append_nil]
          · rw [if_neg last]
      · rw [if_pos stop]
        refine ⟨[e], rest, rfl, ⟨fun k positive less => ?_, fun _ => stop⟩, ?_⟩
        · rw [List.length_singleton] at less
          omega
        · rw [if_neg (List.cons_ne_nil _ _), List.map_singleton]

end Calls

/-! ## Tables that the library wrote -/

/-- The blocks that `SSD_write` asks for. -/
def idType (id : BlockId) : BlockType := if id.mNHigh.toNat % 8 = 0 then .iblock else .dblock

/-- Every id has the length that `SSD_write` gives it. -/
def Sized (l : Ledger) : Prop := ∀ c < ssdMaxChannel, ∀ node ∈ nodesOf (l c).2, node.info.len = idType node.id

/-- The table and space invariants, and ids that were written through `SSD_write`. -/
structure WrittenTable (d : Device) : Prop where
  space : Inv idle (ledger d)
  table : TablePlaced d
  sized : Sized (ledger d)

section Written

variable {may : May} {d : Device} {c : Nat}

theorem dataSize_eq (id : BlockId) : dataSize id = (idType id).size * ssdBlockSize := by
  unfold dataSize idType
  split <;> rfl

/-- An effect of a write keeps the lengths, when the blocks are those of the id. -/
theorem WriteEffect.sized {id : BlockId} {t : BlockType} {s : ChannelSpace} {h : Nat → HashHead} {ret : Int}
    {books : Books} (effect : WriteEffect c id t s h ret books) (type : t = idType id)
    (sized : ∀ node ∈ nodesOf h, node.info.len = idType node.id) :
    ∀ node ∈ nodesOf books.2, node.info.len = idType node.id := by
  cases effect with
  | known => exact sized
  | full => exact sized
  | undone => exact sized
  | done fresh =>
      intro node member
      rcases List.mem_cons.1 ((nodesOf_insertNode _).mem_iff.1 member) with rfl | old
      · exact type
      · exact sized node old

/-- The invariants are kept by an effect on one channel. -/
theorem WrittenTable.update {d' : Device} {books : Books} (written : WrittenTable d)
    (after : ledger d' = Function.update (ledger d) c books) (space : ChannelInv c [] books)
    (table : ChannelPlaced c books.2) (sized : ∀ node ∈ nodesOf books.2, node.info.len = idType node.id) :
    WrittenTable d' := by
  have each : ∀ c', (ledger d' c' = books ∧ c' = c) ∨ ledger d' c' = ledger d c' := by
    intro c'
    rw [after]
    by_cases here : c' = c
    · exact .inl ⟨by rw [here, Function.update_self], here⟩
    · exact .inr (Function.update_of_ne here ..)
  constructor
  · intro c' inside
    rcases each c' with ⟨same, rfl⟩ | same <;> rw [same]
    · exact space
    · exact written.space c' inside
  · intro c' inside
    show ChannelPlaced c' (ledger d' c').2
    rcases each c' with ⟨same, rfl⟩ | same <;> rw [same]
    · exact table
    · exact written.table c' inside
  · intro c' inside
    rcases each c' with ⟨same, rfl⟩ | same <;> rw [same]
    · exact sized
    · exact written.sized c' inside

theorem ssdIdWrite_written {p : WriteParam} (len : p.len = (idType p.id).size) (written : WrittenTable d) :
    Holds may (ssdIdWrite p) (fun ret d' => WrittenTable d' ∧ (ret = ssdOk → tableLookup d' p.id ≠ none)) d := by
  have inside := id2channel_lt p.id
  refine (ssdIdWrite_sized len).weaken ?_
  rintro ret d' ⟨books, effect, after⟩
  refine ⟨written.update after (effect.inv inside (written.space _ inside))
    (effect.placed rfl (written.table _ inside)) (effect.sized rfl (written.sized _ inside)), fun ok => ?_⟩
  show find (ledger d' (id2channel p.id)).2 p.id ≠ none
  rw [after, Function.update_self]
  cases effect with
  | known => exact absurd ok (by decide)
  | full => exact absurd ok (by decide)
  | undone fresh alloc failed => exact absurd ok failed
  | done fresh alloc =>
      rw [find_insertNode, if_pos rfl]
      exact Option.some_ne_none _

/-- **A write of the library** keeps the invariants; when it succeeds the id is there. -/
theorem ssdWrite_written (lib : Library) (id : BlockId) (buffer : Option Mem) (count : Nat)
    (written : WrittenTable d) : Holds may (ssdWrite lib id buffer count)
      (fun ret d' => WrittenTable d' ∧ (ret = ssdOk → tableLookup d' id ≠ none)) d := by
  unfold ssdWrite
  split
  · exact Holds.pure ⟨written, fun ok => absurd ok (by decide)⟩
  split
  · exact Holds.pure ⟨written, fun ok => absurd ok (by decide)⟩
  rename_i size
  split
  · exact Holds.pure ⟨written, fun ok => absurd ok (by decide)⟩
  rename_i bytes
  split
  · exact Holds.pure ⟨written, fun ok => absurd ok (by decide)⟩
  have len : count / ssdBlockSize = (idType id).size := by
    rw [not_not.1 size, dataSize_eq]
    exact Nat.mul_div_cancel _ (by decide)
  refine Holds.seq (M := fun r d' => WrittenTable d' ∧ (r.1 = ssdOk → tableLookup d' id ≠ none)) ?_ ?_
  · refine Holds.seq (M := fun r d' => WrittenTable d' ∧ (r.1 = ssdOk → tableLookup d' id ≠ none)) ?_ ?_
    · refine Holds.seq (failing_holds (fun failed => failed) fun _ => rfl) ?_
      rintro failed d1 ⟨rfl, ⟨rfl, -⟩ | rfl⟩
      · exact Holds.pure ⟨written, fun ok => absurd ok (by decide)⟩
      · exact Holds.seq (ssdIdWrite_written len written) fun ret d2 after => Holds.pure after
    · rintro ⟨ret, data⟩ d1 ⟨kept, found⟩
      refine Holds.pure ⟨kept, fun ok => found ?_⟩
      dsimp only at ok ⊢
      split at ok <;> simp only [ssdOk] at * <;> omega
  · rintro ⟨ret, data⟩ d1 ⟨kept, found⟩
    refine Holds.pure ⟨kept, fun ok => found ?_⟩
    by_contra failed
    dsimp only at ok failed
    rw [if_neg failed] at ok
    exact absurd ok (Int.ne_of_lt (apiValue_neg failed))

/-- A node is found under its id. -/
theorem lookup_of_mem {nodes : List HashNode} {node : HashNode} (nodup : (nodes.map HashNode.id).Nodup)
    (member : node ∈ nodes) : lookup nodes node.id = some node.info := by
  have there : lookup nodes node.id ≠ none := fun none =>
    lookup_eq_none.1 none (List.mem_map_of_mem member)
  obtain ⟨info, found⟩ := Option.ne_none_iff_exists'.1 there
  have same := List.inj_on_of_nodup_map nodup (lookup_mem found) member rfl
  rw [found, ← same]

/-- **The count is no error.** -/
theorem WrittenTable.few (written : WrittenTable d) : (tableNodes d).length ≤ ssdMaxIdNum :=
  nodes_few fun c inside => spacePartition_of_inv inside (written.space c inside)

/-- The entries of the list are the nodes as they are. -/
theorem WrittenTable.entry (written : WrittenTable d) {node : HashNode} (member : node ∈ tableNodes d) :
    flushIdInfoOf node = ⟨node.id, node.info⟩ ∧ tableLookup d node.id = some node.info ∧
      node.info.len = idType node.id ∧ node.info.channel.val = id2channel node.id := by
  obtain ⟨c, inside, inChannel⟩ := List.mem_flatMap.1 member
  have inside := List.mem_range.1 inside
  obtain ⟨b, below, inBucket⟩ := List.mem_flatMap.1 inChannel
  have below := List.mem_range.1 below
  obtain ⟨channel, own, hash⟩ := (written.table c inside).node b below node inBucket
  have home : node.info.channel.val = id2channel node.id := own.trans channel.symm
  refine ⟨?_, ?_, written.sized c inside node inChannel, home⟩
  · rw [flushIdInfoOf, if_neg (not_not.2 home)]
  · rw [tableLookup, channel, hash]
    exact lookup_of_mem ((written.table c inside).distinct b below) inBucket

/-- What is found is a node. -/
theorem mem_tableNodes {id : BlockId} {info : IdInfo} (found : tableLookup d id = some info) :
    ⟨id, info⟩ ∈ tableNodes d := by
  refine List.mem_flatMap.2 ⟨id2channel id, List.mem_range.2 (id2channel_lt id), ?_⟩
  exact List.mem_flatMap.2 ⟨idHash id, List.mem_range.2 (idHash_lt id), lookup_mem found⟩

end Written

/-! ## The walk -/

/-- What a call shows of an id. -/
structure NamesEntry (id : BlockId) (info : IdInfo) (call : FtwCall) : Prop where
  name : call.fpath = hexName (idNumber id)
  channel : call.sb.stRdev = id2channel id
  first : call.sb.stIno = info.block
  blocks : call.sb.stBlocks = info.len.size

/-- The calls show ids of the table only, none twice, and go on only behind a 0; when
every call answers 0 they show all ids, and the walk answers 0. -/
structure Walks (d : Device) (fn : List FtwCall → Int) (ret : Int) (calls : List FtwCall) : Prop where
  only : ∀ call ∈ calls, ∃ id info, tableLookup d id = some info ∧ NamesEntry id info call
  once : (calls.map FtwCall.fpath).Nodup
  stops : ∀ k, 0 < k → k < calls.length → fn (calls.take k) = 0
  complete : (∀ made, fn made = 0) → ret = ssdOk ∧
    ∀ id info, tableLookup d id = some info → ∃ call ∈ calls, NamesEntry id info call

/-- The card is open or the walk is one of the monitor, and there is memory and a device file. -/
structure CanList (u : Caller) (devNum : Int) : Prop where
  opened : u.opened = true ∨ devNum = monitorDev
  memory : u.null = false
  file : devNum = monitorDev → u.opens (devPath 0) = true

/-- Copies between the driver and the memory of the library itself do not fault. -/
def ownMemory : May := fun _ a o => a = .copyParam → o.failed = false

section Walk

variable {may : May} {d : Device} {fn : List FtwCall → Int}

/-- The calls for the first entries. -/
theorem WrittenTable.walks (written : WrittenTable d) {made left : List FlushIdInfo}
    (entries : (tableNodes d).map flushIdInfoOf = made ++ left) (stopped : Stopped fn [] made left) :
    Walks d fn (apiValue (if made = [] then ssdOk else fn (made.map callOf))) (made.map callOf) := by
  have shows : ∀ node ∈ tableNodes d, NamesEntry node.id node.info (callOf (flushIdInfoOf node)) := by
    intro node member
    obtain ⟨same, found, sized, home⟩ := written.entry member
    rw [same]
    refine ⟨rfl, home, rfl, ?_⟩
    rw [sized]
    unfold idType
    simp only [callOf, setStat]
    split <;> rfl
  have ids : (made ++ left).map FlushIdInfo.id = (tableNodes d).map HashNode.id := by
    rw [← entries, List.map_map]
    rfl
  constructor
  · intro call member
    obtain ⟨e, inMade, rfl⟩ := List.mem_map.1 member
    have inList : e ∈ (tableNodes d).map flushIdInfoOf := entries ▸ List.mem_append_left _ inMade
    obtain ⟨node, inTable, rfl⟩ := List.mem_map.1 inList
    exact ⟨node.id, node.info, (written.entry inTable).2.1, shows node inTable⟩
  · have distinct : (made.map FlushIdInfo.id).Nodup := by
      have all := written.table.nodup
      rw [← ids, List.map_append] at all
      exact all.of_append_left
    have names : (made.map callOf).map FtwCall.fpath =
        (made.map FlushIdInfo.id).map fun id => hexName (idNumber id) := by
      rw [List.map_map, List.map_map]
      rfl
    rw [names]
    exact distinct.map fun id id' same => hexName_injective same
  · intro k positive less
    rw [List.length_map] at less
    rw [← List.map_take]
    exact stopped.goes k positive less
  · intro zero
    have all : left = [] := by
      by_contra some
      exact stopped.ends some (zero _)
    rw [all, List.append_nil] at entries
    refine ⟨?_, fun id info found => ?_⟩
    · split
      · rfl
      · rw [zero]
        rfl
    · have inTable := mem_tableNodes found
      refine ⟨callOf (flushIdInfoOf ⟨id, info⟩), List.mem_map_of_mem ?_, shows ⟨id, info⟩ inTable⟩
      rw [← entries]
      exact List.mem_map_of_mem inTable

/-- A walk in a state: the calls, or the error of an allocation in the driver. -/
theorem ssdFtw_spec (written : WrittenTable d) {u : Caller} {devNum : Int} (can : CanList u devNum) (pbuf : Mem)
    (own : ¬ CanFail may .copyParam) : Holds may (ssdFtw u devNum fn pbuf) (fun r _ =>
      Walks d fn r.1 r.2 ∨ CanFail may .kmalloc ∧ r = ((ssdMaxIdNum : Int) + 1, [])) d := by
  unfold ssdFtw
  rw [if_neg, if_neg, if_neg]
  · refine Holds.seq (ioctlReadIdTable_spec _) ?_
    rintro ⟨idNum, buffer⟩ d1 ⟨rfl, ⟨-, fails⟩ | ⟨rfl, fails⟩ | ⟨rfl, listed⟩⟩
    · exact absurd fails own
    · dsimp only
      rw [if_pos (by decide)]
      exact Holds.pure (.inr ⟨fails.resolve_left own, rfl⟩)
    · have few := written.few
      have fits : ¬ (((tableNodes d1).length : Int) < 0 ∨ (ssdMaxIdNum : Int) < (tableNodes d1).length) := by omega
      dsimp only
      rw [if_neg fits, Int.toNat_natCast]
      have entries : ∀ k (inside : k < ((tableNodes d1).map flushIdInfoOf).length),
          FlushIdInfo.decode buffer (flushIdInfoSize * (0 + k)) = ((tableNodes d1).map flushIdInfoOf)[k] := by
        intro k inside
        rw [List.length_map] at inside
        rw [Nat.zero_add, List.getElem_map]
        exact listed k inside
      obtain ⟨made, left, split, stopped, result⟩ := ftwLoop_spec _ 0 pbuf [] ssdOk entries
      rw [List.length_map] at result
      rw [result]
      exact Holds.pure (.inl (written.walks split stopped))
  · intro missing
    exact absurd (can.file missing.1) (by rw [missing.2]; decide)
  · rw [can.memory]
    decide
  · rintro ⟨closed, other⟩
    rcases can.opened with opened | monitor
    · rw [closed] at opened
      cases opened
    · exact other monitor

theorem noFailure_own : ¬ CanFail noFailure .copyParam := by
  rintro ⟨d, o, allowed, failed⟩
  rw [allowed.1] at failed
  cases failed

theorem ownMemory_own : ¬ CanFail ownMemory .copyParam := by
  rintro ⟨d, o, allowed, failed⟩
  rw [allowed rfl] at failed
  cases failed

/-- The actions of a walk, which no state forbids. -/
def Looks : Act → Prop
  | .chan _ (.copyBucket _) | .copyParam | .kmalloc => True
  | _ => False

theorem Looks.enabled {a : Act} (looks : Looks a) (d : Device) : Enabled (Device.perform 0) noFailure d a := by
  cases a with
  | chan c a =>
      cases a with
      | copyBucket b => exact ⟨succeeds, _, _, ⟨rfl, rfl, nofun⟩, rfl⟩
      | _ => cases looks
  | copyParam => exact ⟨succeeds, _, _, ⟨rfl, rfl, nofun⟩, rfl⟩
  | kmalloc => exact ⟨succeeds, _, _, ⟨rfl, rfl, nofun⟩, rfl⟩
  | _ => cases looks

theorem stageBuckets_looks (c : Nat) (buckets : List Nat) (n : Nat) (m : Mem) :
    (stageBuckets c buckets n m).All Looks := by
  induction buckets generalizing n m with
  | nil => trivial
  | cons b rest ih => exact ⟨trivial, fun _ => ih ..⟩

theorem sendChannels_looks (channels : List Nat) (n offset : Nat) (buffer usr : Mem) :
    (sendChannels channels n offset buffer usr).All Looks := by
  induction channels generalizing n offset buffer usr with
  | nil => trivial
  | cons c rest ih =>
      refine (stageBuckets_looks ..).bind fun staged => ?_
      dsimp only
      split
      · refine (Program.All.perform trivial).bind fun failed => ?_
        split
        · trivial
        · exact ih ..
      · exact ih ..

theorem ioctlReadIdTable_looks (usr : Mem) : (ioctlReadIdTable usr).All Looks := by
  refine (Program.All.perform trivial).bind fun failed => ?_
  split
  · trivial
  refine Program.All.bind (p := ssdReadIdtable usr) ?_ fun answer => trivial
  refine (Program.All.perform trivial).bind fun null => ?_
  split
  · trivial
  refine (sendChannels_looks ..).bind fun answer => ?_
  obtain ⟨idNum, usr'⟩ := answer
  cases idNum <;> trivial

theorem ssdFtw_looks (u : Caller) (devNum : Int) (pbuf : Mem) : (ssdFtw u devNum fn pbuf).All Looks := by
  unfold ssdFtw
  split
  · trivial
  split
  · trivial
  split
  · trivial
  refine (ioctlReadIdTable_looks _).bind fun answer => ?_
  dsimp only
  split <;> trivial

theorem noFailure_memory : ¬ CanFail noFailure .kmalloc := by
  rintro ⟨d, o, allowed, failed⟩
  rw [allowed.1] at failed
  cases failed

/-- A walk that meets no failure ends. -/
theorem ssdFtw_runs (u : Caller) (devNum : Int) (fn : List FtwCall → Int) (pbuf : Mem) (d : Device) :
    ∃ r d', Run noFailure (ssdFtw u devNum fn pbuf) d r d' := by
  obtain ⟨r, d', run, -⟩ := (permits_all (ssdFtw_looks u devNum pbuf) d).total (fun _ => rfl)
    fun d a looks => Looks.enabled looks d
  exact ⟨r, d', run⟩

/-- It is one over all ids. -/
theorem ssdFtw_walks {d d' : Device} {u : Caller} {devNum : Int} {fn : List FtwCall → Int} {pbuf : Mem} {ret : Int}
    {calls : List FtwCall} (written : WrittenTable d) (can : CanList u devNum)
    (run : Run noFailure (ssdFtw u devNum fn pbuf) d (ret, calls) d') : Walks d fn ret calls :=
  ((ssdFtw_spec written can pbuf noFailure_own).runs run).resolve_right fun fails => noFailure_memory fails.1

/-- **A directory walk lists every id exactly once.** A walk that meets no failure is one
over all ids; when the driver gets no memory, its answer is no count, and nothing is called. -/
theorem directory_walk (d : Device) (written : WrittenTable d) (u : Caller) (devNum : Int)
    (can : CanList u devNum) (fn : List FtwCall → Int) (pbuf : Mem) :
    (∃ r d', Run noFailure (ssdFtw u devNum fn pbuf) d r d') ∧
    (∀ ret calls d', Run noFailure (ssdFtw u devNum fn pbuf) d (ret, calls) d' → Walks d fn ret calls) ∧
    (∀ ret calls d', Run ownMemory (ssdFtw u devNum fn pbuf) d (ret, calls) d' →
      Walks d fn ret calls ∨ ret = ssdMaxIdNum + 1 ∧ calls = []) ∧
    ∀ usr r d', Run noFailure (ssdReadIdtable usr) d r d' →
      r.1 = (tableNodes d).length ∧ r.1 ≠ ssdMaxIdNum + 1 := by
  refine ⟨ssdFtw_runs u devNum fn pbuf d, fun ret calls d' run => ssdFtw_walks written can run,
    fun ret calls d' run => ?_, fun usr r d' run => ?_⟩
  · rcases (ssdFtw_spec written can pbuf ownMemory_own).runs run with walks | ⟨-, same⟩
    · exact .inl walks
    · exact .inr ⟨congrArg Prod.fst same, congrArg Prod.snd same⟩
  · obtain ⟨-, ⟨-, fails⟩ | ⟨count, -⟩⟩ := (ssdReadIdtable_spec usr).runs run
    · exact absurd fails (not_or.2 ⟨noFailure_own, noFailure_memory⟩)
    · have few := written.few
      exact ⟨count, by rw [count]; omega⟩

/-! ### A table with two ids -/

theorem emptyDevice_written : WrittenTable emptyDevice := by
  constructor
  · exact emptyDevice_inv
  · intro c inside
    exact ⟨fun _ _ _ member => absurd member List.not_mem_nil, fun _ _ => .nil, fun _ _ => rfl⟩
  · intro c inside node member
    obtain ⟨b, -, inBucket⟩ := List.mem_flatMap.1 member
    exact absurd inBucket List.not_mem_nil

/-- One more id. -/
theorem WrittenTable.add {d : Device} {c i : Nat} {id : BlockId} {t : BlockType} {s : ChannelSpace}
    (written : WrittenTable d) (inside : c < ssdMaxChannel) (own : id2channel id = c) (size : idType id = t)
    (effect : WriteEffect c id t (d.ch c).space (d.ch c).hash ssdOk (s, insertNode (d.ch c).hash id (.at c i t))) :
    ∃ d', WrittenTable d' ∧ tableLookup d' id = some (.at c i t) ∧
      (∀ id', id' ≠ id → tableLookup d' id' = tableLookup d id') ∧ ∀ c', c' ≠ c → d'.ch c' = d.ch c' := by
  let ch : Channel := { d.ch c with space := s, hash := insertNode (d.ch c).hash id (.at c i t) }
  have books : ledger (d.setCh c ch) = Function.update (ledger d) c (ch.space, ch.hash) := ledger_setCh
  refine ⟨d.setCh c ch, ?_, ?_, fun id' other => ?_, fun c' apart => Device.setCh_ch_other _ _ apart⟩
  · exact written.update books (effect.inv inside (written.space c inside)) (effect.placed own (written.table c inside))
      (effect.sized size.symm (written.sized c inside))
  · rw [tableLookup, own]
    show find ((d.setCh c ch).ch c).hash id = _
    rw [Device.setCh_ch_same]
    exact (find_insertNode id).trans (if_pos rfl)
  · show find ((d.setCh c ch).ch (id2channel id')).hash id' = find (d.ch (id2channel id')).hash id'
    by_cases here : id2channel id' = c
    · rw [here, Device.setCh_ch_same]
      exact (find_insertNode id').trans (if_neg other)
    · rw [Device.setCh_ch_other _ _ here]

/-- An index id on channel 0 and a data id on channel 11. -/
theorem two_ids_written : ∃ d, WrittenTable d ∧ tableLookup d ⟨0, 0⟩ = some (.at 0 0 .iblock) ∧
    tableLookup d ⟨1, 1⟩ = some (.at 11 100 .dblock) := by
  obtain ⟨s, effect⟩ := emptyChannel_written
  obtain ⟨d1, written1, found1, -, others⟩ := emptyDevice_written.add (by decide) (by decide) (by decide) effect
  have alloc : ssdAllocLogicBlock emptyChannel.space .dblock =
      some (((100 : Nat) : Int), filled 0 1 600 (8000 - 5)) := by
    rw [emptyChannel_space, reloadSpace_empty]
    exact filled_head (by decide)
  have effect' : WriteEffect 11 ⟨1, 1⟩ .dblock (d1.ch 11).space (d1.ch 11).hash ssdOk
      (filled 0 1 600 (8000 - 5), insertNode (d1.ch 11).hash ⟨1, 1⟩ (.at 11 100 .dblock)) := by
    rw [others 11 (by decide)]
    exact .done rfl alloc
  obtain ⟨d2, written2, found2, kept, -⟩ := written1.add (by decide) (by decide) (by decide) effect'
  exact ⟨d2, written2, (kept _ (by decide)).trans found1, found2⟩

/-- A process that has opened the card. -/
def openCaller : Caller := ⟨true, fun _ => true, false, 0⟩

/-- **Two ids** of different channels: each name is passed on, and the walk answers 0. -/
theorem directory_walk_two : ∃ d, tableLookup d ⟨0, 0⟩ = some (.at 0 0 .iblock) ∧
    tableLookup d ⟨1, 1⟩ = some (.at 11 100 .dblock) ∧ ∃ ret calls d',
      Run noFailure (ssdFtw openCaller 0 (fun _ => 0) fun _ => 0) d (ret, calls) d' ∧ ret = ssdOk ∧
        (∃ call ∈ calls, call.fpath = List.replicate 32 48 ∧ call.sb.stBlocks = 1) ∧
        ∃ call ∈ calls, call.fpath = List.replicate 15 48 ++ 49 :: List.replicate 15 48 ++ [49] ∧
          call.sb.stBlocks = 5 := by
  obtain ⟨d, written, found, found'⟩ := two_ids_written
  have can : CanList openCaller 0 := ⟨.inl rfl, rfl, fun monitor => absurd monitor (by decide)⟩
  obtain ⟨⟨⟨ret, calls⟩, d', run⟩, walks, -⟩ := directory_walk d written openCaller 0 can (fun _ => 0) fun _ => 0
  obtain ⟨ok, all⟩ := (walks ret calls d' run).complete fun _ => rfl
  obtain ⟨call, member, shows⟩ := all ⟨0, 0⟩ _ found
  obtain ⟨call', member', shows'⟩ := all ⟨1, 1⟩ _ found'
  exact ⟨d, found, found', ret, calls, d', run, ok, ⟨call, member, shows.name.trans (by decide), shows.blocks⟩,
    call', member', shows'.name.trans (by decide), shows'.blocks⟩

end Walk

end FpgaSsd.Theory
