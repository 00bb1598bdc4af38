/-
# Theory.Store — the card as a map from ids to bytes

Calls of `SSD_write`, `SSD_read` and `SSD_delete`, one after the other, on a card that was
opened with no ids. Commands fail as they like; one that is answered `SSD_OK` takes effect
(`effective`), which the driver believes as well.

* `Keeps` — the node of an id, and the bytes in its blocks;
* `ssdIdWrite_keeps`, `ssdIdDelete_keeps` — what one request makes of the ids and their bytes;
* `StoreRun`, `Promised` — the calls so far, and the bytes that they promise of an id;
* `store_keeps_writes` — every read that succeeds returns the bytes that are promised, where
  a delete ends the promise when it succeeds and when its erase fails;
* `failed_delete_loses_write` — a delete whose erase fails, and a read behind it that succeeds.
-/
import FpgaSsd.Theory.Alignment
import FpgaSsd.Theory.Contents
import FpgaSsd.Theory.DirectoryWalk

namespace FpgaSsd.Theory

open FpgaSsd.Lib FpgaSsd.Driver FpgaSsd.Api

set_option autoImplicit false

/-! ## Ids and their bytes -/

/-- The id has a node, and its blocks hold the bytes. -/
def Keeps (id : BlockId) (bytes : Mem) (l : Ledger) (m : Contents) : Prop :=
  ∃ info, find (l (id2channel id)).2 id = some info ∧ Carries (id2channel id) info.extent bytes m

section Requests

variable {may : May} {c : Nat} {id : BlockId} {bytes : Mem} {d d' : Device} {ret : Int}

theorem extent_nonempty (info : IdInfo) : 0 < info.extent.len := info.len.size_pos

/-- A node that is found is one of the channel. -/
theorem find_node {h : Nat → HashHead} {info : IdInfo} (found : find h id = some info) : ⟨id, info⟩ ∈ nodesOf h :=
  (nodesOf_removeNode found).mem_iff.2 (List.mem_cons_self ..)

/-- The blocks of a node are none of those that the allocator answers with. -/
theorem alloc_apart {s s' : ChannelSpace} {h : Nat → HashHead} {t : BlockType} {i : Nat} {info : IdInfo}
    (inv : ChannelInv c [] (s, h)) (alloc : ssdAllocLogicBlock s t = some ((i : Int), s'))
    (found : find h id = some info) :
    info.extent.start + info.extent.len ≤ i ∨ i + t.size ≤ info.extent.start := by
  obtain ⟨-, moved⟩ := alloc_moves inv.space alloc
  have separate := moved.tiles.separate.append_right
  have used : info.extent ∈ extentsOf h := List.mem_map_of_mem (find_node found)
  exact separate.ordered used t.size_pos (extent_nonempty info)

/-- The blocks of two ids of a channel are apart. -/
theorem nodes_apart {s : ChannelSpace} {h : Nat → HashHead} {id' : BlockId} {info info' : IdInfo}
    (inv : ChannelInv c [] (s, h)) (found : find h id = some info)
    (found' : find h id' = some info') (other : id' ≠ id) :
    info'.extent.start + info'.extent.len ≤ info.extent.start ∨
      info.extent.start + info.extent.len ≤ info'.extent.start := by
  have perm := nodesOf_removeNode found
  have rest : ⟨id', info'⟩ ∈ nodesOf (removeNode h id) := by
    rcases List.mem_cons.1 (perm.mem_iff.1 (find_node found')) with same | rest
    · cases same
      exact absurd rfl other
    · exact rest
  have ok : SpaceOk s (info.extent :: extentsOf (removeNode h id)) := inv.space.perm (extentsOf_perm perm)
  exact ok.tiles.separate.append_right.ordered (List.mem_map_of_mem rest) (extent_nonempty info) (extent_nonempty info')

section Effects

variable {s : ChannelSpace} {h : Nat → HashHead} {books : Books} {m m' : Contents} {own : Mem} {t : BlockType}
variable {took : Prop}
variable {id' : BlockId} {info : IdInfo}

/-- A write keeps the nodes and the bytes that it finds. -/
theorem WriteEffect.keeps (effect : WriteEffect c id t s h ret books) (data : WriteContents took c t own s m ret m')
    (inv : ChannelInv c [] (s, h)) (found : find h id' = some info) (carries : Carries c info.extent bytes m) :
    find books.2 id' = some info ∧ Carries c info.extent bytes m' := by
  constructor
  · cases effect with
    | known => exact found
    | full => exact found
    | undone => exact found
    | done fresh =>
        rw [find_insertNode, if_neg]
        · exact found
        · rintro rfl
          rw [found] at fresh
          cases fresh
  · cases data with
    | refused same =>
        rw [same]
        exact carries
    | placed alloc spares => exact carries.spared spares fun _ => alloc_apart inv alloc found

/-- A write that succeeds has put its bytes into the blocks of its node. -/
theorem WriteEffect.stores (effect : WriteEffect c id t s h ret books) (data : WriteContents took c t own s m ret m')
    (inv : ChannelInv c [] (s, h)) (effective : took) (ok : ret = ssdOk) :
    ∃ info, find books.2 id = some info ∧ Carries c info.extent own m' := by
  cases effect with
  | known => exact absurd ok (by decide)
  | full => exact absurd ok (by decide)
  | undone _ _ failed => exact absurd ok failed
  | @done s' i fresh alloc =>
      obtain ⟨fits, -⟩ := alloc_moves inv.space alloc
      refine ⟨.at c i t, (find_insertNode id).trans (if_pos rfl), ?_⟩
      rw [IdInfo.at_extent c fits]
      cases data with
      | refused _ failed => exact absurd ok failed
      | placed alloc' _ carries =>
          rw [alloc] at alloc'
          cases alloc'
          exact carries effective ok

/-- A delete keeps the nodes and the bytes of the other ids, and those of its own unless it
answers as its erase did. -/
theorem DeleteEffect.keeps (effect : DeleteEffect id s h ret books) (data : DeleteContents c id h m ret m')
    (inv : ChannelInv c [] (s, h)) (placed : ChannelPlaced c h) (found : find h id' = some info)
    (carries : Carries c info.extent bytes m) (kept : id' = id → ¬ ∃ r : ChannelRet, ret = r.toInt) :
    find books.2 id' = some info ∧ Carries c info.extent bytes m' := by
  constructor
  · cases effect with
    | absent => exact found
    | undone here =>
        rw [find_restored placed here]
        exact found
    | done here =>
        rw [find_removeNode placed, if_neg]
        · exact found
        · exact fun same => kept same ⟨.ok, rfl⟩
  · cases data with
    | same same =>
        rw [same]
        exact carries
    | erased here spares answer =>
        exact carries.spared spares fun _ => nodes_apart inv here found fun same => kept same answer

end Effects

/-- Other channels have nothing to do with an id. -/
theorem Keeps.elsewhere {l l' : Ledger} {m m' : Contents} {e : Extent} (keeps : Keeps id bytes l m)
    (apart : id2channel id ≠ c) (books : l' (id2channel id) = l (id2channel id)) (spares : Spares c e m m') :
    Keeps id bytes l' m' := by
  obtain ⟨info, found, carries⟩ := keeps
  refine ⟨info, ?_, carries.spared spares fun here => absurd here apart⟩
  rw [books]
  exact found

/-- A request spares the channels it does not work on. -/
theorem WriteContents.spares {took : Prop} {t : BlockType} {own : Mem} {s : ChannelSpace} {m m' : Contents}
    (data : WriteContents took c t own s m ret m') : ∃ e, Spares c e m m' := by
  cases data with
  | refused same => exact ⟨⟨0, 0⟩, .of_same same⟩
  | placed _ spares => exact ⟨_, spares⟩

theorem DeleteContents.spares {h : Nat → HashHead} {m m' : Contents} (data : DeleteContents c id h m ret m') :
    ∃ e, Spares c e m m' := by
  cases data with
  | same same => exact ⟨⟨0, 0⟩, .of_same same⟩
  | erased _ spares => exact ⟨_, spares⟩

/-- **A write keeps the bytes of the other ids**, and has its own where it succeeds. -/
theorem ssdIdWrite_keeps {p : WriteParam} (len : p.len = (idType p.id).size) (written : WrittenTable d) :
    Holds may (ssdIdWrite p) (fun ret d' => WrittenTable d' ∧
      (Effective may → ret = ssdOk → Keeps p.id p.buf (ledger d') (contents d')) ∧
      ∀ id bytes, Keeps id bytes (ledger d) (contents d) → Keeps id bytes (ledger d') (contents d')) d := by
  have inv := written.space _ (id2channel_lt p.id)
  refine (((ssdIdWrite_written len written).and (ssdIdWrite_sized len)).and
    (ssdIdWrite_contents (idType p.id) p len)).weaken ?_
  rintro ret d' ⟨⟨⟨after, -⟩, books, effect, moved⟩, data⟩
  have here : (ledger d' (id2channel p.id)) = books := by rw [moved, Function.update_self]
  refine ⟨after, fun effective ok => ?_, fun id bytes keeps => ?_⟩
  · obtain ⟨info, found, carries⟩ := effect.stores data inv effective ok
    exact ⟨info, by rw [here]; exact found, carries⟩
  · by_cases same : id2channel id = id2channel p.id
    · obtain ⟨info, found, carries⟩ := keeps
      rw [same] at found carries
      obtain ⟨found', carries'⟩ := effect.keeps data inv found carries
      refine ⟨info, ?_, ?_⟩
      · rw [same, here]
        exact found'
      · rw [same]
        exact carries'
    · obtain ⟨e, spares⟩ := data.spares
      exact keeps.elsewhere same (by rw [moved, Function.update_of_ne same]) spares

/-- A delete keeps the lengths of the ids. -/
theorem DeleteEffect.sized {s : ChannelSpace} {h : Nat → HashHead} {books : Books}
    (effect : DeleteEffect id s h ret books) (sized : ∀ node ∈ nodesOf h, node.info.len = idType node.id) :
    ∀ node ∈ nodesOf books.2, node.info.len = idType node.id := by
  cases effect with
  | absent => exact sized
  | undone found => exact fun node member => sized node ((nodesOf_restored found).mem_iff.1 member)
  | done found =>
      exact fun node member => sized node ((nodesOf_removeNode found).mem_iff.2 (List.mem_cons_of_mem _ member))

/-- **A delete keeps the bytes of the other ids**, and those of its own unless it answers as
its erase did. -/
theorem ssdIdDelete_keeps (id : BlockId) (written : WrittenTable d) :
    Holds may (ssdIdDelete id) (fun ret d' => WrittenTable d' ∧
      ∀ id' bytes, Keeps id' bytes (ledger d) (contents d) → (id' = id → ¬ ∃ r : ChannelRet, ret = r.toInt) →
        Keeps id' bytes (ledger d') (contents d')) d := by
  have inside := id2channel_lt id
  have inv := written.space _ inside
  have placed : ChannelPlaced (id2channel id) (ledger d (id2channel id)).2 := written.table _ inside
  refine ((ssdIdDelete_effect id fun info found => find_mem placed found).and (ssdIdDelete_contents id)).weaken ?_
  rintro ret d' ⟨⟨books, effect, moved⟩, data⟩
  have here : ledger d' (id2channel id) = books := by rw [moved, Function.update_self]
  constructor
  · exact written.update moved (effect.inv inv) (effect.placed rfl placed) (effect.sized (written.sized _ inside))
  · intro id' bytes keeps kept
    by_cases same : id2channel id' = id2channel id
    · obtain ⟨info, found, carries⟩ := keeps
      rw [same] at found carries
      obtain ⟨found', carries'⟩ := effect.keeps data inv placed found carries kept
      refine ⟨info, ?_, ?_⟩
      · rw [same, here]
        exact found'
      · rw [same]
        exact carries'
    · obtain ⟨e, spares⟩ := data.spares
      exact keeps.elsewhere same (by rw [moved, Function.update_of_ne same]) spares

end Requests

/-! ## Calls of the library -/

section Calls

variable {may : May} {lib : Library} {id : BlockId} {d : Device}

/-- A request behind the copy of its parameters, which may fail. -/
theorem ssdBlockIoctl_param {request : Ioctl} {body : Drv (Int × Option Mem)}
    {post : Int × Option Mem → Device → Prop} (same : ioctlBody request = withParam (-errCopyFromUser, none) body)
    (fault : post (errCopyFromUser, none) d)
    (spec : Holds may body (fun r d' => post (if r.1 < 0 then -r.1 else r.1, r.2) d') d) :
    Holds may (ssdBlockIoctl request) post d := by
  unfold ssdBlockIoctl
  rw [same]
  refine Holds.seq (M := fun r d' => post (if r.1 < 0 then -r.1 else r.1, r.2) d') ?_ ?_
  · refine Holds.seq (failing_holds (fun failed => failed) fun _ => rfl) ?_
    rintro failed d1 ⟨rfl, ⟨rfl, -⟩ | rfl⟩
    · exact Holds.pure fault
    · exact spec
  · rintro ⟨ret, data⟩ d1 holds
    exact Holds.pure holds

theorem apiValue_eq_zero {ret : Int} : apiValue ret = ssdOk ↔ ret = ssdOk := by
  simp only [apiValue, ssdOk]
  omega

/-- The sign of an error is that of the driver, of the ioctl, or of the library. -/
theorem apiValue_ioctl (ret : Int) : apiValue (if ret < 0 then -ret else ret) = apiValue ret := by
  unfold apiValue
  split <;> omega

theorem ssdWrite_keeps (buffer : Option Mem) (count : Nat) (written : WrittenTable d) :
    Holds may (ssdWrite lib id buffer count) (fun ret d' => WrittenTable d' ∧
      (Effective may → ret = ssdOk → ∀ bytes, buffer = some bytes → Keeps id bytes (ledger d') (contents d')) ∧
      ∀ id' bytes, Keeps id' bytes (ledger d) (contents d) → Keeps id' bytes (ledger d') (contents d')) d := by
  -- a refusal by the library itself
  have refused : ∀ ret : Int, ret ≠ ssdOk → Holds may (pure (apiValue ret)) (fun ret d' => WrittenTable d' ∧
      (Effective may → ret = ssdOk → ∀ bytes, buffer = some bytes → Keeps id bytes (ledger d') (contents d')) ∧
      ∀ id' bytes, Keeps id' bytes (ledger d) (contents d) → Keeps id' bytes (ledger d') (contents d')) d :=
    fun ret failed => Holds.pure ⟨written, fun _ ok => absurd (apiValue_eq_zero.1 ok) failed, fun _ _ keeps => keeps⟩
  unfold ssdWrite
  split
  · exact refused errNotOpened (by decide)
  split
  · exact refused errLenPageAlign (by decide)
  rename_i size
  cases buffer with
  | none => exact refused errNull (by decide)
  | some bytes =>
      simp only
      split
      · exact refused errCrc (by decide)
      have len : count / ssdBlockSize = (idType id).size := by
        rw [not_not.1 size, dataSize_eq]
        exact Nat.mul_div_cancel _ (by decide)
      refine Holds.seq (M := fun r d' => WrittenTable d' ∧
        (Effective may → r.1 = ssdOk → Keeps id bytes (ledger d') (contents d')) ∧
        ∀ id' bytes, Keeps id' bytes (ledger d) (contents d) → Keeps id' bytes (ledger d') (contents d')) ?_ ?_
      · refine ssdBlockIoctl_param rfl ⟨written, fun _ ok => absurd ok (by decide), fun _ _ keeps => keeps⟩ ?_
        refine Holds.seq (ssdIdWrite_keeps (p := ⟨id, bytes, count / ssdBlockSize⟩) len written) ?_
        rintro ret d1 ⟨after, stores, keeps⟩
        refine Holds.pure ⟨after, fun effective ok => stores effective ?_, keeps⟩
        simp only [ssdOk] at ok ⊢
        split at ok <;> omega
      · rintro ⟨ret, data⟩ d1 ⟨after, stores, keeps⟩
        refine Holds.pure ⟨after, fun effective ok => ?_, keeps⟩
        rintro bytes' ⟨⟩
        apply stores effective
        by_contra failed
        dsimp only at ok failed
        rw [if_neg failed] at ok
        exact failed (apiValue_eq_zero.1 ok)

/-- The answer is the one of an erase. -/
def EraseAnswer (ret : Int) : Prop := ∃ r : ChannelRet, ret = apiValue r.toInt

theorem ssdDelete_keeps (written : WrittenTable d) :
    Holds may (ssdDelete lib id) (fun ret d' => WrittenTable d' ∧
      ∀ id' bytes, Keeps id' bytes (ledger d) (contents d) → (id' = id → ¬ EraseAnswer ret) →
        Keeps id' bytes (ledger d') (contents d')) d := by
  unfold ssdDelete
  split
  · exact Holds.pure ⟨written, fun _ _ keeps _ => keeps⟩
  refine Holds.seq (M := fun r d' => WrittenTable d' ∧
    ∀ id' bytes, Keeps id' bytes (ledger d) (contents d) → (id' = id → ¬ EraseAnswer (apiValue r.1)) →
      Keeps id' bytes (ledger d') (contents d')) ?_ fun r d1 after => Holds.pure after
  refine ssdBlockIoctl_param rfl ⟨written, fun _ _ keeps _ => keeps⟩ ?_
  refine Holds.seq (ssdIdDelete_keeps id written) ?_
  rintro ret d1 ⟨after, keeps⟩
  refine Holds.pure ⟨after, fun id' bytes before kept => keeps id' bytes before fun same answer => ?_⟩
  apply kept same
  obtain ⟨r, rfl⟩ := answer
  exact ⟨r, apiValue_ioctl r.toInt⟩

/-! ### Reads -/

theorem ssdIdReadBody_neutral (c : Nat) (p : ReadParam) : (ssdIdReadBody c p).All Act.Neutral := by
  refine Program.All.bind (p := Drv.getIdInfo c p.id) ⟨trivial, fun _ => trivial⟩ fun found => ?_
  cases found with
  | none => trivial
  | some info =>
      dsimp only
      split
      · trivial
      refine Program.All.bind (p := Drv.addReadCount c p.len) ⟨trivial, fun _ => trivial⟩ fun _ => ?_
      refine ((channelOp_onBuffer ..).mono fun _ => Act.OnBuffer.neutral).bind fun ret => ?_
      split
      · trivial
      refine Program.All.bind (p := Drv.copyToUser c (p.len * ssdPageSize % 2 ^ 32))
        ⟨trivial, fun _ => trivial⟩ fun reply => ?_
      cases reply <;> trivial

theorem ssdIdRead_neutral (p : ReadParam) : (ssdIdRead p).All Act.Neutral :=
  ⟨trivial, fun _ => (ssdIdReadBody_neutral ..).bind fun _ => ⟨trivial, fun _ => trivial⟩⟩

/-- Nothing is changed, and what is returned with success is in the blocks of the id, where the
commands were `effective`. -/
def ReadsFrom (took : Prop) (p : ReadParam) (d : Device) (r : Int × Option Mem) (d' : Device) : Prop :=
  (ledger d' = ledger d ∧ contents d' = contents d) ∧
    ReadContents took (id2channel p.id) p (ledger d (id2channel p.id)).2 (contents d) r

theorem ssdIdRead_reads (p : ReadParam) : Holds may (ssdIdRead p) (ReadsFrom (Effective may) p d) d :=
  ((Holds.neutral (ssdIdRead_neutral p)).and (ssdIdRead_contents p)).weaken fun _ _ reads =>
    ⟨⟨reads.1, reads.2.1⟩, reads.2.2⟩

theorem ReadsFrom.same {took : Prop} {p : ReadParam} {d' d'' : Device} {r : Int × Option Mem}
    (quiet : ledger d' = ledger d) (still : contents d' = contents d) (reads : ReadsFrom took p d' r d'') :
    ReadsFrom took p d r d'' := by
  obtain ⟨⟨books, data⟩, from'⟩ := reads
  rw [quiet, still] at from'
  exact ⟨⟨books.trans quiet, data.trans still⟩, from'⟩

/-- One attempt after the other; the last one is the one that counts. -/
theorem readAttempts_reads (p : ReadParam) (n : Nat) {ret : Int} {old : Option Mem} (begun : 0 < n ∨ ret ≠ ssdOk) :
    Holds may (readAttempts p n ret old) (ReadsFrom (Effective may) p d) d := by
  induction n generalizing ret old d with
  | zero =>
      have failed := begun.resolve_left (Nat.lt_irrefl 0)
      exact Holds.pure ⟨⟨rfl, rfl⟩, ⟨fun _ ok => absurd ok failed⟩⟩
  | succ n ih =>
      rw [readAttempts]
      refine Holds.seq (M := ReadsFrom (Effective may) p d) ?_ ?_
      · refine ssdBlockIoctl_param rfl ⟨⟨rfl, rfl⟩, ⟨fun _ ok => absurd ok (by decide)⟩⟩ ?_
        refine (ssdIdRead_reads p).weaken ?_
        rintro ⟨ret, data⟩ d1 ⟨same, reads⟩
        refine ⟨same, ⟨fun effective ok => reads.bytes effective ?_⟩⟩
        simp only [ssdOk] at ok ⊢
        split at ok <;> omega
      · rintro ⟨ret, data⟩ d1 ⟨⟨books, still⟩, reads⟩
        dsimp only
        split
        · rename_i ok
          refine Holds.pure ⟨⟨books, still⟩, ⟨fun effective _ => ?_⟩⟩
          obtain ⟨info, found, bytes⟩ := reads.bytes effective ok
          refine ⟨info, found, fun fits => ?_⟩
          have bytes : data = some _ := bytes fits
          rw [bytes]
          rfl
        · rename_i failed
          exact (ih (.inr failed)).weaken fun r d2 after => after.same books still

theorem ssdRead_quiet (null : Bool) (count : Nat) (offset : Int) :
    Holds may (ssdRead lib id null count offset) (fun _ d' => ledger d' = ledger d ∧ contents d' = contents d) d := by
  unfold ssdRead
  split
  · exact Holds.pure ⟨rfl, rfl⟩
  · refine Holds.seq (readAttempts_reads _ 3 (.inl (by decide))) ?_
    rintro ⟨ret, data⟩ d1 ⟨same, -⟩
    exact Holds.pure same

theorem WrittenTable.congr {d' : Device} (written : WrittenTable d) (same : ledger d' = ledger d) :
    WrittenTable d' := by
  have table : ∀ c < ssdMaxChannel, ChannelPlaced c (ledger d c).2 := written.table
  constructor
  · rw [same]
    exact written.space
  · show ∀ c < ssdMaxChannel, ChannelPlaced c (ledger d' c).2
    rw [same]
    exact table
  · rw [same]
    exact written.sized

/-- What an attempt on a range of the id returns. -/
theorem ReadsFrom.bytes {took : Prop} {p : ReadParam} {d' : Device} {r : Int × Option Mem} {bytes : Mem}
    (reads : ReadsFrom took p d r d') (effective : took) (written : WrittenTable d)
    (keeps : Keeps p.id bytes (ledger d) (contents d))
    (fits : p.offset * ssdPageSize + p.len * ssdPageSize ≤ dataSize p.id) (ok : r.1 = ssdOk) :
    r.2 = some (clip (p.len * ssdPageSize) fun i => bytes (p.offset * ssdPageSize + i)) := by
  obtain ⟨info, found, carries⟩ := keeps
  obtain ⟨info', found', returned⟩ := reads.2.bytes effective ok
  cases found.symm.trans found'
  have sized : info.len = idType p.id := written.sized _ (id2channel_lt p.id) _ (find_node found)
  rw [dataSize_eq, ← sized] at fits
  rw [returned (by simp only [ssdPageSize, ssdPagesPerBlock, ssdBlockSize] at *; omega)]
  refine congrArg some (clip_same fun i inside => ?_)
  have within : p.offset * ssdPageSize + i < info.extent.len * ssdBlockSize :=
    Nat.lt_of_lt_of_le (Nat.add_lt_add_left inside _) fits
  exact carries _ within

/-- **A read that succeeds returns the bytes of the id** from the offset on. -/
theorem ssdRead_bytes (effective : Effective may) (opened : lib.opened = true) (written : WrittenTable d) {bytes : Mem}
    (keeps : Keeps id bytes (ledger d) (contents d)) (null : Bool) {count : Nat} {offset : Int}
    (valid : ValidRange id count offset) :
    Holds may (ssdRead lib id null count offset) (fun r _ => r.1 = ssdOk →
      ∀ i < count, r.2.map (fun got => got i) = some (bytes (offset.toNat + i))) d := by
  obtain ⟨nonneg, offsetAligned, countAligned, inside⟩ := valid
  have size := dataSize_le id
  simp only [ssdMaxFlushSize] at size
  have passes := (@wrapped_end id count offset (by omega) (by omega) (by omega)).2 (.inl ⟨nonneg, inside⟩)
  have check := @ssdReadCheck_passed lib id null count offset opened countAligned offsetAligned (by omega) passes
  unfold ssdRead
  rw [check]
  cases null with
  | true => exact Holds.pure fun ok => absurd ok (by decide)
  | false =>
      rw [if_neg Bool.false_ne_true]
      by_cases empty : count = 0
      · rw [if_pos empty]
        exact Holds.pure fun _ i less => absurd less (by omega)
      rw [if_neg empty]
      let p : ReadParam := ⟨id, count / ssdPageSize % 2 ^ 32, (offset / ssdPageSize % 2 ^ 32).toNat⟩
      have fields : p.offset * ssdPageSize = offset.toNat ∧ p.len * ssdPageSize = count := by
        simp only [ssdPageSize, p] at *
        omega
      refine Holds.seq (readAttempts_reads p 3 (.inl (by decide))) ?_
      rintro ⟨ret, data⟩ d1 reads
      refine Holds.pure fun ok i less => ?_
      have fits : p.offset * ssdPageSize + p.len * ssdPageSize ≤ dataSize p.id := by
        rw [fields.1, fields.2]
        show offset.toNat + count ≤ dataSize id
        omega
      have returned : data = _ := reads.bytes effective written keeps fits (apiValue_eq_zero.1 ok)
      rw [returned, fields.1, fields.2, Option.map_some, clip, if_pos less]

end Calls

/-! ## Runs of calls -/

/-- The calls of the library on the data of ids. -/
inductive StoreCall where
  | write (id : BlockId) (buffer : Option Mem) (count : Nat)
  | read (id : BlockId) (null : Bool) (count : Nat) (offset : Int)
  | delete (id : BlockId)

def StoreCall.run (lib : Library) : StoreCall → Drv (Int × Option Mem)
  | .write id buffer count => noData (ssdWrite lib id buffer count)
  | .read id null count offset => ssdRead lib id null count offset
  | .delete id => noData (ssdDelete lib id)

/-- A call that has returned. -/
structure StoreEvent where
  call : StoreCall
  ret : Int

/-- Calls one after the other with any `effective` outcomes, the newest first. -/
inductive StoreRun (lib : Library) (start : Device) : List StoreEvent → Device → Prop
  | here : StoreRun lib start [] start
  | call {es : List StoreEvent} {d d' : Device} {call : StoreCall} {ret : Int} {data : Option Mem}
      (before : StoreRun lib start es d) (run : Run effective (call.run lib) d (ret, data) d') :
      StoreRun lib start (⟨call, ret⟩ :: es) d'

/-- A write of the bytes to the id returned `SSD_OK`, and no delete of the id has returned
an answer that ends the promise since then. -/
inductive Promised (ends : Int → Prop) (id : BlockId) (bytes : Mem) : List StoreEvent → Prop
  | written (count : Nat) (es : List StoreEvent) :
      Promised ends id bytes (⟨.write id (some bytes) count, ssdOk⟩ :: es)
  | later {es : List StoreEvent} (e : StoreEvent) (before : Promised ends id bytes es)
      (goes : e.call = .delete id → ¬ ends e.ret) : Promised ends id bytes (e :: es)

/-- A card that was opened without ids. -/
def EmptyCard (d : Device) : Prop := ∀ c < ssdMaxChannel, EmptyChannel c d

section Runs

variable {lib : Library} {start d d' : Device} {es : List StoreEvent} {id : BlockId} {bytes : Mem}

theorem EmptyCard.written (empty : EmptyCard start) : WrittenTable start := by
  have nodes : ∀ c < ssdMaxChannel, nodesOf (ledger start c).2 = [] := fun c inside =>
    List.flatMap_eq_nil_iff.2 fun b _ => congrArg HashHead.first ((empty c inside).hash b)
  have inv : Inv idle (ledger start) := by
    intro c inside
    have space : (ledger start c).1 = emptyChannel.space := (empty c inside).space.trans emptyChannel_space.symm
    constructor
    · rw [extentsOf, nodes c inside, space]
      exact emptySpace_ok
    · rw [nodes c inside]
      exact fun node member => absurd member List.not_mem_nil
  refine ⟨inv, fun c inside => ((empty c inside).wide (inv c inside)).placed, fun c inside => ?_⟩
  rw [nodes c inside]
  exact fun node member => absurd member List.not_mem_nil

/-- The invariant of a run with outcomes in `may`: the table, and the bytes that are promised. -/
structure StoreInv (may : May) (es : List StoreEvent) (d : Device) : Prop where
  table : WrittenTable d
  bytes : Effective may → ∀ id bytes, Promised EraseAnswer id bytes es → Keeps id bytes (ledger d) (contents d)

theorem noData_holds {may : May} {p : Drv Int} {post : Int × Option Mem → Device → Prop}
    (spec : Holds may p (fun ret d' => post (ret, none) d') d) : Holds may (noData p) post d :=
  Holds.seq spec fun _ _ holds => Holds.pure holds

/-- One call keeps the invariant. -/
theorem StoreInv.step {may : May} (stored : StoreInv may es d) {call : StoreCall} {ret : Int} {data : Option Mem}
    (run : Run may (call.run lib) d (ret, data) d') : StoreInv may (⟨call, ret⟩ :: es) d' := by
  cases call with
  | write id buffer count =>
      have spec : Holds may (noData (ssdWrite lib id buffer count)) (fun r d' => WrittenTable d' ∧
          (Effective may → r.1 = ssdOk → ∀ bytes, buffer = some bytes → Keeps id bytes (ledger d') (contents d')) ∧
          ∀ id' bytes, Keeps id' bytes (ledger d) (contents d) → Keeps id' bytes (ledger d') (contents d')) d :=
        noData_holds (ssdWrite_keeps buffer count stored.table)
      obtain ⟨table, stores, keeps⟩ := spec.runs run
      refine ⟨table, fun effective id' bytes promised => ?_⟩
      cases promised with
      | written => exact stores effective rfl bytes rfl
      | later _ before => exact keeps id' bytes (stored.bytes effective id' bytes before)
  | read id null count offset =>
      obtain ⟨books, still⟩ := (ssdRead_quiet null count offset).runs run
      refine ⟨stored.table.congr books, fun effective id' bytes promised => ?_⟩
      cases promised with
      | later _ before =>
          rw [books, still]
          exact stored.bytes effective id' bytes before
  | delete id =>
      have spec : Holds may (noData (ssdDelete lib id)) (fun r d' => WrittenTable d' ∧
          ∀ id' bytes, Keeps id' bytes (ledger d) (contents d) → (id' = id → ¬ EraseAnswer r.1) →
            Keeps id' bytes (ledger d') (contents d')) d := noData_holds (ssdDelete_keeps stored.table)
      obtain ⟨table, keeps⟩ := spec.runs run
      refine ⟨table, fun effective id' bytes promised => ?_⟩
      cases promised with
      | later _ before goes =>
          exact keeps id' bytes (stored.bytes effective id' bytes before) fun same => goes (by rw [same])

/-- The invariant of every run. -/
theorem StoreRun.stored (run : StoreRun lib start es d) (empty : EmptyCard start) : StoreInv effective es d := by
  induction run with
  | here => exact ⟨empty.written, fun _ id bytes promised => by cases promised⟩
  | call before run ih => exact ih.step run

/-- A read of a number of bytes that is no multiple of a page is refused. -/
theorem ssdRead_aligned {may : May} {null : Bool} {count : Nat} {offset : Int} {data : Option Mem}
    (opened : lib.opened = true) (read : Run may (ssdRead lib id null count offset) d (ssdOk, data) d') :
    count % ssdPageSize = 0 := by
  by_contra odd
  have refused : Holds may (ssdRead lib id null count offset) (fun r _ => r.1 ≠ ssdOk) d := by
    unfold ssdRead
    rw [ssdReadCheck, if_neg (by simp [opened]), if_pos odd]
    exact Holds.pure (by decide)
  exact refused.runs read rfl

/-- **The card is a map from ids to bytes.** After any calls on a card that was opened without
ids, with any outcomes in which `SSD_OK` means that a command took effect, a read inside an id
that succeeds returns what the write of the id wrote there, until a delete of the id succeeds or fails in its erase. -/
theorem store_keeps_writes (opened : lib.opened = true) (empty : EmptyCard start) (run : StoreRun lib start es d)
    (promised : Promised EraseAnswer id bytes es) {null : Bool} {count : Nat} {offset : Int} (nonneg : 0 ≤ offset)
    (aligned : offset % ssdPageSize = 0) (inside : offset + count ≤ dataSize id) {data : Option Mem}
    (read : Run effective (ssdRead lib id null count offset) d (ssdOk, data) d') :
    ∀ i < count, data.map (fun got => got i) = some (bytes (offset.toNat + i)) := by
  have stored := run.stored empty
  have promise := stored.bytes effective_effective id bytes promised
  have valid : ValidRange id count offset := ⟨nonneg, aligned, ssdRead_aligned opened read, inside⟩
  exact (ssdRead_bytes effective_effective opened stored.table promise null valid).runs read rfl

end Runs

/-! ## A first id -/

/-- No copy and no allocation fails. -/
def Unfaulted (may : May) : Prop := ∀ d a o, may d a o → o.failed = false

section First

variable {may : May} {lib : Library} {id : BlockId} {d : Device} {h : Held}

theorem ssdWrite_locks (free : Free h) (buffer : Option Mem) (count : Nat) :
    Locks false anyReply (noData (ssdWrite lib id buffer count)) h := by
  refine noData_locks ?_
  unfold ssdWrite
  split
  · rfl
  split
  · rfl
  split
  · rfl
  split
  · rfl
  refine Program.Returns.bind (p := ssdBlockIoctl _) ?_ fun _ => rfl
  exact (withParam_locks _ (noData_locks (ssdIdWrite_locks free _))).bind fun _ => rfl

theorem readAttempts_locks (free : Free h) (p : ReadParam) (n : Nat) (ret : Int) (old : Option Mem) :
    Locks false anyReply (readAttempts p n ret old) h := by
  induction n generalizing ret old with
  | zero => rfl
  | succ n ih =>
      refine Program.Returns.bind (p := ssdBlockIoctl _) ?_ fun r => ?_
      · exact (withParam_locks _ (ssdIdRead_locks free p nofun)).bind fun _ => rfl
      · dsimp only
        split
        · rfl
        · exact ih ..

theorem ssdRead_locks (free : Free h) (null : Bool) (count : Nat) (offset : Int) :
    Locks false anyReply (ssdRead lib id null count offset) h := by
  unfold ssdRead
  split
  · rfl
  · exact (readAttempts_locks free ..).bind fun _ => rfl

/-- A request answers as its section does, when its parameters are copied. -/
theorem ssdBlockIoctl_unfaulted (sound : Unfaulted may) {request : Ioctl} {body : Drv (Int × Option Mem)}
    {post : Int × Option Mem → Device → Prop} (same : ioctlBody request = withParam (-errCopyFromUser, none) body)
    (spec : Holds may body (fun r d' => post (if r.1 < 0 then -r.1 else r.1, r.2) d') d) :
    Holds may (ssdBlockIoctl request) post d := by
  unfold ssdBlockIoctl
  rw [same]
  refine Holds.seq (M := fun r d' => post (if r.1 < 0 then -r.1 else r.1, r.2) d') ?_ ?_
  · refine Holds.seq (failing_holds (fun failed => failed) fun _ => rfl) ?_
    rintro failed d1 ⟨rfl, ⟨-, d2, o, allowed, fails⟩ | rfl⟩
    · rw [sound d2 _ o allowed] at fails
      cases fails
    · exact spec
  · rintro ⟨ret, data⟩ d1 holds
    exact Holds.pure holds

/-- Where nothing fails, what is answered `SSD_OK` took effect. -/
theorem run_effective {α : Type} {p : Drv α} {d d' : Device} {value : α} (run : Run noFailure p d value d') :
    Run effective p d value d' := run.mono fun _ _ _ allowed _ => allowed.2.1

theorem noFailure_unfaulted : Unfaulted noFailure := fun _ _ _ allowed => allowed.1

/-- A read of an id that is there succeeds when nothing fails. -/
theorem ssdIdRead_fine {p : ReadParam} {info : IdInfo} (found : find (ledger d (id2channel p.id)).2 p.id = some info)
    (valid : checkIdInfo info = ssdOk) (fits : p.offset + p.len ≤ ssdPagesPerBlock * info.len.size) :
    Holds noFailure (ssdIdRead p) (fun r _ => r.1 = ssdOk) d := by
  refine withSema_effect (fun (r : Int × Option Mem) _ => r.1 = ssdOk) fun d1 same => ?_
  rw [← same] at found
  refine Holds.seq (M := fun answer _ => answer = some info) (Holds.chan fun o r ch _ step => ?_) ?_
  · cases step
    exact found
  rintro _ d2 rfl
  have bounds := checkIdInfo_bounds valid
  have size := info.len.size_le
  simp only [ssdMaxVirblocksPerChannel, ssdPagesPerBlock] at bounds fits
  simp only [valid, ne_eq, not_true_eq_false, if_false]
  refine Holds.seq (M := fun _ _ => True) (Holds.chan fun _ _ _ _ _ => trivial) fun _ d3 _ => ?_
  refine Holds.seq (channelOp_fine (by simp only [ssdPagesPerBlock]; omega) (by omega) (by decide)) ?_
  rintro _ d4 rfl
  rw [if_neg (by decide)]
  refine Holds.seq (M := fun reply _ => ∃ bytes, reply = some bytes) (Holds.chan fun o r ch fine step => ?_) ?_
  · cases step
    rw [fine.1, if_neg Bool.false_ne_true]
    exact ⟨_, rfl⟩
  · rintro _ d5 ⟨bytes, rfl⟩
    exact Holds.pure rfl

/-- A node of a table that writes left passes the checks of a read. -/
theorem WrittenTable.valid (written : WrittenTable d) {info : IdInfo}
    (found : find (ledger d (id2channel id)).2 id = some info) : checkIdInfo info = ssdOk := by
  have inside := id2channel_lt id
  have node := find_node found
  have own := (written.space _ inside).own _ node
  have used : info.extent ∈ extentsOf (ledger d (id2channel id)).2 := List.mem_map_of_mem node
  have fits := (written.space _ inside).space.tiles.end_le (List.mem_append_right _ used) (extent_nonempty info)
  exact checkIdInfo_ok (by rw [own]; exact inside) fits

/-- A read of the first page, as the driver gets it. -/
theorem ssdReadCheck_page (id : BlockId) :
    ssdReadCheck openLibrary id false ssdPageSize 0 = .request ⟨id, 1, 0⟩ := by
  have size : (((ssdPageSize : Nat) : Int) + 0) % 2 ^ 64 ≤ dataSize id := by
    unfold dataSize
    split <;> decide
  have passed := @ssdReadCheck_passed openLibrary id false ssdPageSize 0 rfl (by decide) (by decide)
    (Int.natCast_nonneg _) size
  rw [passed, if_neg (by decide), if_neg (by decide)]
  rfl

/-- The first attempt is the last when it succeeds. -/
theorem readAttempts_first {p : ReadParam} (n : Nat) {ret : Int} {old : Option Mem}
    (first : Holds may (ssdBlockIoctl (.read p)) (fun r _ => r.1 = ssdOk) d) :
    Holds may (readAttempts p (n + 1) ret old) (fun r _ => r.1 = ssdOk) d := by
  rw [readAttempts]
  refine Holds.seq first ?_
  rintro ⟨ret, data⟩ d1 rfl
  exact Holds.pure rfl

/-- A read that has passed the checks succeeds when the id is there and nothing fails. -/
theorem sendRead_fine (written : WrittenTable d) {p : ReadParam} {info : IdInfo}
    (found : find (ledger d (id2channel p.id)).2 p.id = some info)
    (inside : p.offset + p.len ≤ ssdPagesPerBlock * info.len.size) :
    Holds noFailure (sendRead p) (fun r _ => r.1 = ssdOk) d := by
  have attempt : Holds noFailure (ssdBlockIoctl (.read p)) (fun r _ => r.1 = ssdOk) d := by
    apply ssdBlockIoctl_unfaulted noFailure_unfaulted rfl
    refine (ssdIdRead_fine found (written.valid found) inside).weaken fun r d1 (ok : r.1 = ssdOk) => ?_
    dsimp only
    rw [ok]
    decide
  refine Holds.seq (readAttempts_first 2 attempt) ?_
  rintro ⟨ret, data⟩ d1 rfl
  exact Holds.pure rfl

/-- The bytes that are written, and where. -/
def sevens : Mem := fun _ => 7

/-- A channel without ids refuses no write. -/
theorem freshChannel_accepts {s : ChannelSpace} {h : Nat → HashHead} {ret : Int} {books : Books}
    (space : s = reloadSpace fun _ => false) (absent : find h ⟨0, 0⟩ = none)
    (effect : WriteEffect 0 ⟨0, 0⟩ .iblock s h ret books) : ¬ Refusal ret := by
  have zero : s.area.iblock.areaMap 0 = false := by
    rw [space, reloadSpace_empty]
    rfl
  obtain ⟨s, first, -⟩ := alloc_first zero
  cases effect with
  | known known =>
      rw [absent] at known
      cases known
  | full fresh alloc =>
      rw [first] at alloc
      cases alloc
  | undone fresh alloc failed other => exact other
  | done => simp only [Refusal]; decide

/-- The first write on a new card. -/
theorem first_store (mirrors : Mirrors Held.none d) (space : (ledger d 0).1 = reloadSpace fun _ => false)
    (absent : find (ledger d 0).2 ⟨0, 0⟩ = none) :
    ∃ d', Run noFailure (noData (ssdWrite openLibrary ⟨0, 0⟩ (some sevens) 2097152)) d (ssdOk, none) d' ∧
      Mirrors Held.none d' := by
  have spec : Holds noFailure (noData (ssdWrite openLibrary ⟨0, 0⟩ (some sevens) 2097152))
      (fun r _ => r = (ssdOk, none)) d := by
    have fine : Holds noFailure (ssdIdWrite ⟨⟨0, 0⟩, sevens, 1⟩) (fun ret _ => ret = ssdOk) d := by
      refine ((ssdIdWrite_fine .iblock _ rfl).and (ssdIdWrite_sized (t := .iblock) rfl)).weaken ?_
      rintro ret d1 ⟨refused | ok, books, effect, -⟩
      · exact absurd refused (freshChannel_accepts space absent effect)
      · exact ok
    refine noData_holds ?_
    unfold ssdWrite
    refine Holds.seq (M := fun r _ => r.1 = ssdOk) (ssdBlockIoctl_unfaulted noFailure_unfaulted rfl ?_) ?_
    · refine Holds.seq fine ?_
      rintro _ d1 rfl
      exact Holds.pure rfl
    · rintro ⟨ret, data⟩ d1 rfl
      exact Holds.pure rfl
  obtain ⟨r, d', run, after⟩ := exists_run noFailure_live mirrors (ssdWrite_locks free_none _ _)
  obtain rfl := spec.runs run
  exact ⟨d', run, after⟩

/-- A page of an id of the store is read. -/
theorem first_page_read (mirrors : Mirrors Held.none d) (written : WrittenTable d) {info : IdInfo}
    (found : find (ledger d (id2channel ⟨0, 0⟩)).2 ⟨0, 0⟩ = some info) :
    ∃ data d', Run noFailure (ssdRead openLibrary ⟨0, 0⟩ false ssdPageSize 0) d (ssdOk, data) d' := by
  have locks : Locks false anyReply (ssdRead openLibrary ⟨0, 0⟩ false ssdPageSize 0) Held.none :=
    ssdRead_locks free_none false ssdPageSize 0
  obtain ⟨⟨ret, data⟩, d', read, -⟩ := exists_run noFailure_live mirrors locks
  obtain rfl : ret = ssdOk := by
    have sent := ssdRead_request (ssdReadCheck_page ⟨0, 0⟩)
    rw [sent] at read
    have inside : 0 + 1 ≤ ssdPagesPerBlock * info.len.size :=
      Nat.mul_le_mul (show 1 ≤ ssdPagesPerBlock by decide) info.len.size_pos
    exact (sendRead_fine (p := ⟨⟨0, 0⟩, 1, 0⟩) written found inside).runs read
  exact ⟨data, d', read⟩

theorem emptyDevice_card : EmptyCard emptyDevice := fun _ _ => ⟨emptyChannel_space, fun _ => rfl⟩

/-- The write of an id, and the read of its first page. -/
theorem store_keeps_first_write : ∃ d d' data,
    StoreRun openLibrary emptyDevice [⟨.write ⟨0, 0⟩ (some sevens) 2097152, ssdOk⟩] d ∧
    Run effective (ssdRead openLibrary ⟨0, 0⟩ false ssdPageSize 0) d (ssdOk, data) d' ∧
    ∀ i < ssdPageSize, data.map (fun got => got i) = some (sevens ((0 : Int).toNat + i)) := by
  have space : (ledger emptyDevice 0).1 = emptyChannel.space := by simp only [ledger, emptyDevice]
  obtain ⟨d, write, mirrors⟩ := first_store emptyDevice_mirrors (space.trans emptyChannel_space) rfl
  have run : StoreRun openLibrary emptyDevice [⟨.write ⟨0, 0⟩ (some sevens) 2097152, ssdOk⟩] d :=
    .call .here (run_effective write)
  have promised : Promised EraseAnswer ⟨0, 0⟩ sevens [⟨.write ⟨0, 0⟩ (some sevens) 2097152, ssdOk⟩] := .written _ _
  have stored := run.stored emptyDevice_card
  obtain ⟨info, found, -⟩ := stored.bytes effective_effective _ _ promised
  obtain ⟨data, d', read⟩ := first_page_read mirrors stored.table found
  have read := run_effective read
  refine ⟨d, d', data, run, read, ?_⟩
  exact store_keeps_writes rfl emptyDevice_card run promised (by decide) (by decide) (by decide) read

/-! ### A delete that fails in its erase -/

/-- Every erase of logical blocks times out and leaves zeros there. -/
def erasesBreak : May := fun d a o => o.failed = false ∧ (o.ret = .ok → o.taken = true) ∧ ∀ c cmd,
  a = .chan c .await → (d.ch c).outstanding = some cmd → (Command.ofWord cmd).flag = flagErase →
    o.ret = .timeout ∧ o.data = fun _ => 0

theorem erasesBreak_effective : Effective erasesBreak := fun _ _ _ allowed => allowed.2.1

theorem erasesBreak_unfaulted : Unfaulted erasesBreak := fun _ _ _ allowed => allowed.1

theorem erasesBreak_live : Live erasesBreak := by
  refine ⟨fun d c cmd issued => ?_, fun d a other => ⟨succeeds, ⟨rfl, fun _ => rfl, fun c _ eq => ?_⟩, rfl⟩⟩
  · by_cases erase : (Command.ofWord cmd).flag = flagErase
    · refine ⟨timesOut, ⟨rfl, fun _ => rfl, fun _ _ _ _ _ => ⟨rfl, rfl⟩⟩, ?_⟩
      simp only [Flash.exec, erase]
      rfl
    · refine ⟨ramTimesOut, ⟨rfl, fun _ => rfl, fun c' cmd' eq out flag => ?_⟩, ?_⟩
      · cases eq
        obtain rfl := Option.some.inj (issued.symm.trans out)
        exact absurd flag erase
      · simp only [Flash.exec]
        split <;> rfl
  · exact absurd eq (other c)

/-- Such a delete answers with the timeout, and the blocks of the id are lost. -/
theorem ssdIdDelete_breaks {info : IdInfo} (found : find (ledger d (id2channel id)).2 id = some info)
    (valid : checkIdInfo info = ssdOk) : Holds erasesBreak (ssdIdDelete id) (fun ret d' =>
      ret = -errTimeout ∧ Carries (id2channel id) info.extent (fun _ => 0) (contents d')) d := by
  refine withSema_card (fun ret m => ret = -errTimeout ∧ Carries (id2channel id) info.extent (fun _ => 0) m)
    fun d1 books _ => ?_
  rw [← books] at found
  refine Holds.seq (M := fun answer _ => answer = some info) (Holds.chan fun o r ch _ step => ?_) ?_
  · simp only [Channel.perform] at step
    rw [show lookup ((d1.ch (id2channel id)).hash (idHash id)).first id = some info from found] at step
    cases step
    rfl
  rintro _ d2 rfl
  have bounds := checkIdInfo_bounds valid
  have size := info.len.size_le
  simp only [ssdMaxVirblocksPerChannel] at bounds
  have erase : Command.ofWord (cmdValue info.block.val info.len.size flagErase) =
      ⟨info.extent.start, info.extent.len, flagErase⟩ := decode_cmdValue (by omega) (by omega) (by decide)
  simp only [valid, ne_eq, not_true_eq_false, if_false]
  refine Holds.seq (Holds.still ⟨trivial, fun _ => trivial⟩) fun _ d3 _ => ?_
  refine Holds.seq (M := fun ret d4 => ret = -errTimeout ∧
    Carries (id2channel id) info.extent (fun _ => 0) (contents d4)) ?_ ?_
  · refine (channelOp_holds erasesBreak _ _ d3).weaken ?_
    rintro ret d4 ⟨o, kbuf, flash, ⟨-, -, breaks⟩, done, rfl, rfl⟩
    obtain ⟨late, zeros⟩ := breaks _ _ rfl (by rw [Device.setCh_ch_same]) (by rw [erase])
    rw [erase] at done
    cases done
    refine ⟨by rw [late]; rfl, fun i inside => ?_⟩
    have failed : ¬ (o.ret = .ok ∧ o.taken = true) := by
      rw [late]
      exact fun ok => absurd ok.1 (by decide)
    simp only [contents, Device.setCh_ch_same, Flash.fill, if_neg failed, zeros]
    have damaged := @copyBytes_inside (d3.ch (id2channel id)).flash.data (fun _ => 0)
      (info.extent.start * ssdBlockSize) (info.extent.start * ssdBlockSize) (info.extent.len * ssdBlockSize) i inside
    exact damaged
  · rintro _ d4 ⟨rfl, lost⟩
    rw [if_pos (by decide)]
    refine Holds.seq (Holds.still ⟨trivial, fun _ => trivial⟩) fun _ d5 same => Holds.pure ⟨rfl, ?_⟩
    rw [same]
    exact lost

theorem ssdDelete_locks (free : Free h) : Locks false anyReply (noData (ssdDelete lib id)) h := by
  refine noData_locks ?_
  unfold ssdDelete
  split
  · rfl
  refine Program.Returns.bind (p := ssdBlockIoctl _) ?_ fun _ => rfl
  exact (withParam_locks _ (noData_locks (ssdIdDelete_locks free id))).bind fun _ => rfl

/-- The same of the call of the library, which puts the node back. -/
theorem ssdDelete_breaks {info : IdInfo} (opened : lib.opened = true) (written : WrittenTable d)
    (found : find (ledger d (id2channel id)).2 id = some info) :
    Holds erasesBreak (noData (ssdDelete lib id)) (fun r d' => r = (-errTimeout, none) ∧
      find (ledger d' (id2channel id)).2 id = some info ∧
      Carries (id2channel id) info.extent (fun _ => 0) (contents d')) d := by
  have placed : ChannelPlaced (id2channel id) (ledger d (id2channel id)).2 := written.table _ (id2channel_lt id)
  have section' : Holds erasesBreak (ssdIdDelete id) (fun ret d' => ret = -errTimeout ∧
      find (ledger d' (id2channel id)).2 id = some info ∧
      Carries (id2channel id) info.extent (fun _ => 0) (contents d')) d := by
    refine ((ssdIdDelete_breaks found (written.valid found)).and
      (ssdIdDelete_effect id fun info known => find_mem placed known)).weaken ?_
    rintro _ d1 ⟨⟨rfl, lost⟩, books, effect, moved⟩
    refine ⟨rfl, ?_, lost⟩
    rw [moved, Function.update_self]
    generalize answered : -errTimeout = ret at effect
    cases effect with
    | absent => exact absurd answered (by decide)
    | undone known => rw [find_restored placed known, found]
    | done => exact absurd answered (by decide)
  refine noData_holds ?_
  unfold ssdDelete
  rw [if_neg (by simp [opened])]
  refine Holds.seq (M := fun r d' => r.1 = errTimeout ∧ find (ledger d' (id2channel id)).2 id = some info ∧
    Carries (id2channel id) info.extent (fun _ => 0) (contents d')) ?_ ?_
  · refine ssdBlockIoctl_unfaulted erasesBreak_unfaulted rfl (Holds.seq section' ?_)
    rintro _ d1 ⟨rfl, after⟩
    exact Holds.pure ⟨rfl, after⟩
  · rintro ⟨ret, data⟩ d1 ⟨rfl, after⟩
    exact Holds.pure ⟨rfl, after⟩

/-- A write that succeeds, and a delete of its id that does not. -/
def writeThenFailedDelete : List StoreEvent :=
  [⟨.delete ⟨0, 0⟩, -errTimeout⟩, ⟨.write ⟨0, 0⟩ (some sevens) 2097152, ssdOk⟩]

/-- **A delete that fails** puts its id back, but not the bytes: a read that succeeds returns others. -/
theorem failed_delete_loses_write : ∃ d d' data, StoreRun openLibrary emptyDevice writeThenFailedDelete d ∧
    Promised (· = ssdOk) ⟨0, 0⟩ sevens writeThenFailedDelete ∧
    Run effective (ssdRead openLibrary ⟨0, 0⟩ false ssdPageSize 0) d (ssdOk, data) d' ∧
    data.map (fun got => got 0) ≠ some (sevens 0) := by
  have space : (ledger emptyDevice 0).1 = emptyChannel.space := by simp only [ledger, emptyDevice]
  obtain ⟨d1, write, mirrors1⟩ := first_store emptyDevice_mirrors (space.trans emptyChannel_space) rfl
  have run1 : StoreRun openLibrary emptyDevice [⟨.write ⟨0, 0⟩ (some sevens) 2097152, ssdOk⟩] d1 :=
    .call .here (run_effective write)
  have stored1 := run1.stored emptyDevice_card
  obtain ⟨info, found, -⟩ := stored1.bytes effective_effective ⟨0, 0⟩ sevens (.written _ _)
  -- the delete puts the node back
  have locks : Locks false anyReply (noData (ssdDelete openLibrary ⟨0, 0⟩)) Held.none := ssdDelete_locks free_none
  obtain ⟨r, d, delete, mirrors⟩ := exists_run erasesBreak_live mirrors1 locks
  obtain ⟨rfl, still, lost⟩ := (ssdDelete_breaks rfl stored1.table found).runs delete
  have run : StoreRun openLibrary emptyDevice writeThenFailedDelete d :=
    .call run1 (delete.mono erasesBreak_effective)
  have written := (run.stored emptyDevice_card).table
  obtain ⟨data, d', read⟩ := first_page_read mirrors written still
  have zeros : Keeps ⟨0, 0⟩ (fun _ => 0) (ledger d) (contents d) := ⟨info, still, lost⟩
  have valid : ValidRange ⟨0, 0⟩ ssdPageSize 0 := ⟨by decide, by decide, by decide, by decide⟩
  have read := run_effective read
  have bytes := (ssdRead_bytes effective_effective rfl written zeros false valid).runs read rfl 0 (by decide)
  refine ⟨d, d', data, run, .later _ (.written _ _) fun _ => by decide, read, ?_⟩
  rw [bytes]
  decide

end First

end FpgaSsd.Theory
