/-
# Theory.Image — the image that a flush writes

The first half of a flush, up to the new metadata record in memory: the tables of
all channels and the id list go to `kbuf_flush`, and from there to the table
blocks.

* `copyRamTables_spec` — the image has the two tables of each channel;
* `copyIdHash_spec` — behind them it has the entries of all nodes, in the order of
  the channels and their buckets (`View.nodes`);
* `flushTabledata_spec` — the blocks of the image and the new record.
-/
import FpgaSsd.Theory.TableBlocks

namespace FpgaSsd.Theory

open FpgaSsd.Lib FpgaSsd.Driver

set_option autoImplicit false

/-- The nodes of all channels, in the order in which a flush copies them. -/
def View.nodes (v : View) : List HashNode :=
  (List.range ssdMaxChannel).flatMap fun c =>
    (List.range ssdHashSize).flatMap fun b => (v.hash c b).first

theorem nodes_nil {v : View} (empty : ∀ c b, (v.hash c b).first = []) : v.nodes = [] := by
  simp only [View.nodes, empty, List.flatMap_eq_nil_iff, implies_true]

/-- The view with another image. -/
def View.setImage (v : View) (image : Mem) : View := { v with kbufFlush := image }

@[simp] theorem View.setImage_setImage (v : View) (image image' : Mem) :
    (v.setImage image).setImage image' = v.setImage image' := rfl

/-- `must` does not see the image. -/
def BlindImage (must : View → Prop) : Prop := ∀ v image, must v → must (v.setImage image)

section Image

variable {α : Type} {must : View → Prop} {may : May} {v : View}

/-! ## The tables -/

/-- Which of the two tables a type names. -/
def ramTable (f : Flash) (type : Nat) : Mem := if type = tableEraseType then f.eraseTable else f.addrTable

/-- The command that reads a table. -/
abbrev readTableCmd (type : Nat) : Nat :=
  cmdValue 0 addrTablePages (if type = tableEraseType then flagReadEraseTable else flagReadAddrTable)

theorem decode_readTable {flag : Nat} (small : flag < 32) :
    Command.ofWord (cmdValue 0 addrTablePages flag) = ⟨0, 2, flag⟩ :=
  decode_cmdValue (by decide) (by decide) small

theorem onRamTable_read (type : Nat) : OnRamTable (readTableCmd type) := by
  unfold OnRamTable readTableCmd
  split
  · rw [decode_readTable (by decide)]
    decide
  · rw [decode_readTable (by decide)]
    decide

/-- What reading a table does. -/
theorem readTable_exec {type : Nat} {o : Outcome} {kbuf kbuf' : Mem} {f f' : Flash}
    (done : Flash.exec (Command.ofWord (readTableCmd type)) o kbuf f = some (kbuf', f')) :
    kbuf' = Flash.fill o kbuf 0 (2 * ssdPageSize) (ramTable f type) o.kbuf ∧ f' = f := by
  rw [readTableCmd] at done
  split at done <;> rename_i which
  · rw [decode_readTable (by decide)] at done
    obtain ⟨-, eq⟩ := Flash.polled_eq_some.1 done
    cases eq
    exact ⟨by rw [ramTable, if_pos which], rfl⟩
  · rw [decode_readTable (by decide)] at done
    obtain ⟨-, eq⟩ := Flash.polled_eq_some.1 done
    cases eq
    exact ⟨by rw [ramTable, if_neg which], rfl⟩

/-- Where the command took effect the table is in the buffer. -/
theorem fill_table {o : Outcome} {kbuf table damage : Mem} (ok : o.ret = .ok) (taken : o.taken = true) :
    ∀ i < ssdTableSize, Flash.fill o kbuf 0 (2 * ssdPageSize) table damage i = table i := by
  intro i small
  have inside := @copyBytes_inside kbuf table 0 0 (2 * ssdPageSize) i
    (by simp only [ssdTableSize, ssdPageSize] at *; omega)
  rw [Nat.zero_add] at inside
  rw [Flash.fill, if_pos ⟨ok, taken⟩]
  exact inside

/-- A RAM table that was read is in the DMA buffer, where the command took effect. -/
theorem ramTableRead_spec {c type : Nat} (here : must v) {next : Int → Drv α}
    {post : α → View → Prop}
    (read : ∀ d, view d = v →
      (EffectiveTables may → ∀ i < ssdTableSize, (d.ch c).kbuf i = ramTable (v.flash c) type i) →
      OnDevice must may (next ssdOk) post d)
    (failed : ∀ ret, ret ≠ ssdOk → ¬ Flawless may → OnView must may (next ret) post v) :
    OnView must may (ramTableRead ⟨c, type⟩ >>= next) post v := by
  rintro d rfl
  refine Safe.seq (solo_steady _ _) (OnView.op here) ?_
  rintro ret d' ⟨o, kbuf, flash, allowed, done, rfl, rfl⟩
  obtain ⟨rfl, rfl⟩ := readTable_exec done
  have shows : ∀ kbuf, view (d.setCh c
      { d.ch c with outstanding := none, kbuf := kbuf, flash := (d.ch c).flash }) = view d :=
    fun _ => view_setCh rfl rfl rfl
  by_cases ok : o.ret = .ok
  · rw [ok]
    refine read _ (shows _) fun effective i small => ?_
    have taken : o.taken = true :=
      effective _ _ _ allowed c _ rfl (by rw [Device.setCh_ch_same]) (onRamTable_read type) ok
    rw [Device.setCh_ch_same]
    exact fill_table ok taken i small
  · refine failed _ (fun eq => ok (ChannelRet.toInt_eq_zero.1 eq)) (fun flawless => ok ?_) _ (shows _)
    rcases (flawless _ _ _ allowed).2.2 c rfl with fine | ⟨⟨cmd, out, flag, -⟩, -⟩
    · exact fine
    · rw [Device.setCh_ch_same] at out
      cases out
      have table := onRamTable_read type
      rw [OnRamTable, flag] at table
      exact absurd table (by decide)

/-- The image has the tables of the channels below `n`. -/
def TablesIn (image : Mem) (v : View) (n : Nat) : Prop := ∀ c < n, ∀ i < ssdTableSize,
  image (addrOffset c + i) = (v.flash c).addrTable i ∧
    image (eraseOffset c + i) = (v.flash c).eraseTable i

/-- A table that was read goes into the image. -/
theorem copyTable_spec {c type offset : Nat} (here : must v)
    (next stop : Int → Drv α) {post : α → View → Prop}
    (copied : ∀ table, (EffectiveTables may → ∀ i < ssdTableSize, table i = ramTable (v.flash c) type i) →
      OnView must may (next ssdOk) post (v.setImage (copyBytes v.kbufFlush offset table 0 ssdTableSize)))
    (failed : ∀ ret, ret ≠ ssdOk → ¬ Flawless may → OnView must may (stop ret) post v) :
    OnView must may (do
      let ret ← ramTableRead ⟨c, type⟩
      if ret ≠ ssdOk then stop ret
      else
        let table ← Drv.readKbuf c
        Drv.modFlush fun m => copyBytes m offset table 0 ssdTableSize
        next ret) post v := by
  refine ramTableRead_spec here (fun d shows table => ?_) fun ret bad flaw => ?_
  · rw [if_neg (by decide)]
    subst shows
    refine Safe.seq (solo_steady _ _) (OnView.readKbuf here) ?_
    rintro kbuf d' ⟨rfl, same⟩
    refine OnView.seq (OnView.modFlush here _) ?_ d' same
    rintro _ v' rfl
    exact copied _ table
  · rw [if_pos bad]
    exact failed ret bad flaw

/-- The first bytes of the source are all that is copied. -/
theorem copyBytes_first {dst src src' : Mem} {offset n : Nat} (same : ∀ i < n, src i = src' i) :
    copyBytes dst offset src 0 n = copyBytes dst offset src' 0 n := by
  funext i
  simp only [copyBytes]
  split
  · rename_i inside
    exact same _ (by omega)
  · rfl

/-- One channel. -/
theorem copyRamTable_spec {c : Nat} (blind : BlindImage must) (here : must v) (offset : Nat) :
    OnView must may (copyRamTable c offset) (fun ret v' => (∃ image, v' = v.setImage image ∧
      (EffectiveTables may → ret = ssdOk → image =
        copyBytes (copyBytes v.kbufFlush offset (v.flash c).addrTable 0 ssdTableSize)
        (offset + ssdTableSize) (v.flash c).eraseTable 0 ssdTableSize)) ∧
      (Flawless may → ret = ssdOk)) v := by
  refine OnView.withSema here (fun ret v' after => ?_) ?_
  · obtain ⟨⟨image, rfl, -⟩, -⟩ := after
    exact blind v image here
  refine copyTable_spec here (fun _ => do
    let ret ← ramTableRead ⟨c, tableEraseType⟩
    if ret ≠ ssdOk then pure ret
    else
      let erase ← Drv.readKbuf c
      Drv.modFlush fun m => copyBytes m (offset + ssdTableSize) erase 0 ssdTableSize
      pure ret) (fun ret => pure ret) (fun addr readAddr => ?_) fun ret bad flaw => ?_
  · refine copyTable_spec (blind _ _ here) (fun ret => pure ret) (fun ret => pure ret) (fun erase readErase => ?_)
      fun ret bad flaw => ?_
    · refine OnView.pure ⟨⟨_, rfl, fun effective _ => ?_⟩, fun _ => rfl⟩
      rw [View.setImage, copyBytes_first (readErase effective), copyBytes_first (readAddr effective)]
      rfl
    · exact OnView.pure ⟨⟨_, rfl, fun _ ok => absurd ok bad⟩, fun flawless => absurd flawless flaw⟩
  · exact OnView.pure ⟨⟨v.kbufFlush, rfl, fun _ ok => absurd ok bad⟩, fun flawless =>
      absurd flawless flaw⟩

theorem tablesIn_succ {image : Mem} {n : Nat} (before : TablesIn image v n) :
    TablesIn (copyBytes (copyBytes image (addrOffset n) (v.flash n).addrTable 0 ssdTableSize)
      (eraseOffset n) (v.flash n).eraseTable 0 ssdTableSize) v (n + 1) := by
  intro c less i small
  simp only [eraseOffset, addrOffset, ssdTableSize] at *
  rcases Nat.lt_succ_iff_lt_or_eq.1 less with below | rfl
  · rw [copyBytes_outside (by omega), copyBytes_outside (by omega), copyBytes_outside (by omega),
      copyBytes_outside (by omega)]
    exact before c below i small
  · refine ⟨?_, ?_⟩
    · rw [copyBytes_outside (by omega), copyBytes_inside small, Nat.zero_add]
    · rw [copyBytes_inside small, Nat.zero_add]

/-- **The tables of all channels.** -/
theorem copyRamTables_spec (blind : BlindImage must) (here : must v) :
    OnView must may copyRamTables (fun found v' => ∃ image, v' = v.setImage image ∧
      (EffectiveTables may → found = none → TablesIn image v ssdMaxChannel) ∧ (∀ ret, found = some ret → ret ≠ ssdOk) ∧
      (Flawless may → found = none)) v := by
  refine (OnView.forRange (I := fun n v' => ∃ image, v' = v.setImage image ∧ (EffectiveTables may → TablesIn image v n))
    (R := fun ret v' => ∃ image, v' = v.setImage image ∧ ret ≠ ssdOk ∧ ¬ Flawless may) (fun n v' low before => ?_)
    ⟨v.kbufFlush, rfl, fun _ c no => absurd no (Nat.not_lt_zero c)⟩).weaken fun found v' after => ?_
  · obtain ⟨image, rfl, tables⟩ := before
    refine OnView.seq (copyRamTable_spec blind (blind v image here) _) ?_
    rintro ret v' ⟨⟨image', rfl, copied⟩, fine⟩
    by_cases ok : ret = ssdOk
    · rw [if_neg (not_not.2 ok)]
      refine OnView.pure ⟨image', rfl, fun effective => ?_⟩
      rw [copied effective ok]
      exact tablesIn_succ (tables effective)
    · rw [if_pos ok]
      exact OnView.pure ⟨image', rfl, ok, fun flawless => ok (fine flawless)⟩
  · cases found with
    | none =>
        obtain ⟨image, rfl, tables⟩ := after
        exact ⟨image, rfl, fun effective _ => tables effective, (fun ret no => nomatch no), fun _ => rfl⟩
    | some ret =>
        obtain ⟨image, rfl, bad, flaw⟩ := after
        refine ⟨image, rfl, (fun _ no => nomatch no), fun ret' eq => ?_, fun flawless =>
          absurd flawless flaw⟩
        cases eq
        exact bad

/-! ## The id list -/

theorem putNodes_append (xs ys : List HashNode) (n : Nat) (m : Mem) :
    putNodes (xs ++ ys) n m = putNodes ys (n + xs.length) (putNodes xs n m) := by
  induction xs generalizing n m with
  | nil => rfl
  | cons node rest ih =>
      rw [List.cons_append, putNodes, putNodes, ih, List.length_cons]
      congr 1
      omega

/-- Entries below the list that is appended stay. -/
theorem putNodes_outside {nodes : List HashNode} {n i : Nat} {m : Mem}
    (below : i < idListOffset + flushIdInfoSize * n) : putNodes nodes n m i = m i := by
  induction nodes generalizing n m with
  | nil => rfl
  | cons node rest ih =>
      rw [putNodes, ih (by simp only [flushIdInfoSize] at *; omega),
        FlushIdInfo.encode_outside (.inl below)]

/-- Entry `k` of the list is the one of node `k`. -/
theorem putNodes_decode {nodes : List HashNode} {n k : Nat} {m : Mem} (inside : k < nodes.length) :
    FlushIdInfo.decode (putNodes nodes n m) (idListOffset + flushIdInfoSize * (n + k)) =
      flushIdInfoOf (nodes[k]) := by
  induction nodes generalizing n k m with
  | nil => cases inside
  | cons node rest ih =>
      cases k with
      | zero =>
          rw [putNodes]
          have kept : ∀ i < flushIdInfoSize, putNodes rest (n + 1)
              ((flushIdInfoOf node).encode m (idListOffset + flushIdInfoSize * n))
              (idListOffset + flushIdInfoSize * n + i) = (flushIdInfoOf node).encode m
                (idListOffset + flushIdInfoSize * n) (idListOffset + flushIdInfoSize * n + i) :=
            fun i small => putNodes_outside (by simp only [flushIdInfoSize] at *; omega)
          exact (FlushIdInfo.decode_congr kept).trans (FlushIdInfo.decode_encode ..)
      | succ k =>
          have less : k < rest.length := Nat.lt_of_succ_lt_succ inside
          rw [putNodes, show n + (k + 1) = n + 1 + k by omega, ih less]
          rfl

theorem copyIdBuckets_spec (blind : BlindImage must) (here : must v) (c : Nat) (buckets : List Nat)
    (n : Nat) : OnView must may (copyIdBuckets c buckets n) (fun n' v' =>
      n' = n + (buckets.flatMap fun b => (v.hash c b).first).length ∧
      v' = v.setImage (putNodes (buckets.flatMap fun b => (v.hash c b).first) n v.kbufFlush)) v := by
  induction buckets generalizing v n with
  | nil => exact OnView.pure ⟨rfl, rfl⟩
  | cons b rest ih =>
      rw [copyIdBuckets]
      refine OnView.seq (OnView.copyBucket here c b) ?_
      rintro nodes v1 ⟨rfl, rfl⟩
      refine OnView.seq (OnView.modFlush here _) ?_
      rintro _ v2 rfl
      refine (ih (blind _ _ here) _).weaken ?_
      rintro n' v' ⟨rfl, rfl⟩
      rw [List.flatMap_cons, putNodes_append, List.length_append]
      exact ⟨Nat.add_assoc .., rfl⟩

theorem copyIdChannels_spec (blind : BlindImage must) (here : must v) (channels : List Nat) (n : Nat) :
    OnView must may (copyIdChannels channels n) (fun n' v' =>
      n' = n + (channels.flatMap fun c => (List.range ssdHashSize).flatMap fun b =>
        (v.hash c b).first).length ∧
      v' = v.setImage (putNodes (channels.flatMap fun c => (List.range ssdHashSize).flatMap fun b =>
        (v.hash c b).first) n v.kbufFlush)) v := by
  induction channels generalizing v n with
  | nil => exact OnView.pure ⟨rfl, rfl⟩
  | cons c rest ih =>
      rw [copyIdChannels]
      refine OnView.seq (copyIdBuckets_spec blind here c _ n) ?_
      rintro n1 v1 ⟨rfl, rfl⟩
      refine (ih (blind _ _ here) _).weaken ?_
      rintro n' v' ⟨rfl, rfl⟩
      rw [List.flatMap_cons, putNodes_append, List.length_append]
      exact ⟨Nat.add_assoc .., rfl⟩

/-- **The id list** behind the tables. -/
theorem copyIdHash_spec (blind : BlindImage must) (here : must v) :
    OnView must may copyIdHash (fun n v' => n = v.nodes.length ∧
      v' = v.setImage (putNodes v.nodes 0 v.kbufFlush)) v := by
  refine (copyIdChannels_spec blind here _ 0).weaken ?_
  rintro n v' ⟨rfl, rfl⟩
  exact ⟨Nat.zero_add _, rfl⟩

/-- The image has the entries of all nodes behind the tables. -/
def IdsIn (image : Mem) (v : View) : Prop := ∀ k (inside : k < v.nodes.length),
  FlushIdInfo.decode image (idListOffset + flushIdInfoSize * k) = flushIdInfoOf (v.nodes[k])

/-- The image of a flush: the tables of all channels and behind them the entries of
all nodes. -/
structure ImageOf (image : Mem) (v : View) : Prop where
  tables : TablesIn image v ssdMaxChannel
  ids : IdsIn image v

theorem idsIn_putNodes (image : Mem) : IdsIn (putNodes v.nodes 0 image) v := by
  intro k inside
  have decoded := @putNodes_decode v.nodes 0 k image inside
  rwa [Nat.zero_add] at decoded

theorem imageOf_putNodes {image : Mem} (tables : TablesIn image v ssdMaxChannel) :
    ImageOf (putNodes v.nodes 0 image) v := by
  refine ⟨fun c less i small => ?_, idsIn_putNodes image⟩
  simp only [eraseOffset, addrOffset, ssdTableSize, ssdMaxChannel] at *
  rw [putNodes_outside (by simp only [idListOffset]; omega),
    putNodes_outside (by simp only [idListOffset]; omega)]
  have held := tables c less i small
  simp only [eraseOffset, addrOffset, ssdTableSize] at held
  exact held

/-! ## The blocks of the image and the new record -/

theorem tableBlockNum_le {n : Nat} (few : n ≤ ssdMaxIdNum) : tableBlockNum n ≤ 5 := by
  simp only [ssdMaxIdNum] at few
  rw [tableBlockNum]
  split
  · simp only [tabledataBytes, idListOffset, flushIdInfoSize, ssdBlockSize]
    omega
  · simp only [tabledataBytes, idListOffset, flushIdInfoSize, ssdBlockSize]
    omega

/-- The image ends inside its last block. -/
theorem tableBlockNum_covers (n : Nat) : tabledataBytes n ≤ tableBlockNum n * ssdBlockSize := by
  rw [tableBlockNum]
  split
  · rename_i exact'
    simp only [tabledataBytes, idListOffset, flushIdInfoSize, ssdBlockSize] at exact' ⊢
    omega
  · simp only [tabledataBytes, idListOffset, flushIdInfoSize, ssdBlockSize]
    omega

/-- The position after which the image goes. -/
def tableCur (m : SsdMetadata) : Nat := m.pos (tableDuplicate * m.blockNum.toNat - tableDuplicate)

/-- The record after a flush of `n` ids. -/
def flushed (n : Nat) (type : FlushType) (now : UInt64) (m : SsdMetadata) : SsdMetadata :=
  updateMeta (tableBlockNum n) (lastBlockUsedBytes n) type n now m

/-- The blocks that a record names hold the image, in both copies. -/
def TablesHold (v : View) (m : SsdMetadata) (image : Mem) : Prop := ∀ k < m.blockNum.toNat, ∀ p,
  p = m.pos (k * 2) ∨ p = m.pos (k * 2 + 1) → BlockHolds v p image (k * ssdBlockSize)

theorem flushed_pos (n : Nat) (type : FlushType) (now : UInt64) (m : SsdMetadata) (i : Nat) :
    (flushed n type now m).pos i = m.pos i := rfl

theorem flushed_blockNum {n : Nat} (few : n ≤ ssdMaxIdNum) (type : FlushType) (now : UInt64)
    (m : SsdMetadata) : (flushed n type now m).blockNum.toNat = tableBlockNum n := by
  have := tableBlockNum_le few
  simp only [flushed, updateMeta]
  rw [UInt16.toNat_ofNat']
  exact Nat.mod_eq_of_lt (by omega)

theorem tableBlockNum_pos (n : Nat) : 0 < tableBlockNum n := by
  have covers := tableBlockNum_covers n
  simp only [tabledataBytes, idListOffset, flushIdInfoSize, ssdBlockSize] at covers
  omega

/-- **The image and the new record.** For every outcome the blocks that are entered
in the record hold the image, and only the next positions of the ring change. -/
theorem flushTabledata_spec (n : Nat) (type : FlushType)
    (blind : Blind must (Ring (tableCur v.metadata) (ssdMaxFlushTableRetry * tableBlockNum n)))
    (here : must v) :
    OnView must may (flushTabledata n type) (fun ret v' =>
      Frame (Ring (tableCur v.metadata) (ssdMaxFlushTableRetry * tableBlockNum n)) v v' ∧
      (∃ m j off, Placed v.metadata m 0 j (tableCur v.metadata) off ∧ j ≤ tableBlockNum n ∧
        (Flawless may → ∀ k ≤ j, off k = k) ∧ (ret = ssdOk ∧ n ≤ ssdMaxIdNum ∧ j = tableBlockNum n ∧
            (∃ now, v'.metadata = flushed n type now m) ∧
            TablesHold v' v'.metadata v.kbufFlush ∨
          ret ≠ ssdOk ∧ v'.metadata = m)) ∧
      (Flawless may → n ≤ ssdMaxIdNum → ret = ssdOk)) v := by
  rw [flushTabledata]
  split
  · rename_i many
    exact OnView.pure ⟨.refl _ v, ⟨_, 0, _, .zero .., Nat.zero_le _,
      fun _ k none => (Nat.le_zero.1 none).symm, .inr ⟨by decide, rfl⟩⟩,
      fun _ few => absurd few (Nat.not_le.2 many)⟩
  rename_i few
  have few := Nat.not_lt.1 few
  have fits : 0 + tableBlockNum n ≤ 5 := by
    rw [Nat.zero_add]
    exact tableBlockNum_le few
  refine OnView.seq (OnView.getMeta here) ?_
  rintro old v ⟨rfl, rfl⟩
  refine OnView.seq (flushTableBlocks_spec (tableBlockNum n) 0 _ fits blind here) ?_
  rintro ret v1 ⟨frame, sign, ⟨j, off, le, all, placed, steady, holds⟩, fine⟩
  split
  · rename_i failed
    have bad : ret ≠ ssdOk := fun ok => by
      rw [ok] at failed
      exact absurd failed (by decide)
    exact OnView.pure ⟨frame, ⟨_, j, off, placed, le, steady, .inr ⟨bad, rfl⟩⟩, fun flawless _ =>
      absurd (fine flawless) bad⟩
  rename_i done
  have ok : ret = ssdOk := sign.resolve_right done
  obtain rfl := all ok
  refine OnView.seq (OnView.silent (a := .gettime) (blind frame here) trivial) ?_
  rintro now v1 rfl
  refine OnView.seq (OnView.modMeta (blind frame here) _) ?_
  rintro _ v2 ⟨rfl, -⟩
  refine OnView.pure ⟨frame.trans (.setMeta ..), ⟨_, _, off, placed, le, steady, .inl ⟨rfl, few, rfl,
    ⟨now, rfl⟩, fun k less p named => ?_⟩⟩, fun _ _ => rfl⟩
  have less : k < tableBlockNum n := by
    rw [← flushed_blockNum few type now v1.metadata]
    exact less
  obtain ⟨first, second⟩ := placed.placed k less
  rw [Nat.zero_add] at first second
  have held := holds k less p (by
    rcases named with rfl | rfl
    · exact .inl first
    · exact .inr second)
  rwa [Nat.zero_add] at held

end Image

end FpgaSsd.Theory
