/-
# Theory.Effects — what a write and a delete do to the books of their channel

The books of a channel are its allocator and its hash buckets. Whatever the
outcomes of the actions are, a request changes the books of one channel, in one
of a few ways:

* `WriteEffect`, `DeleteEffect` — the answers, each with the books it leaves;
* `ssdIdWrite_effect`, `ssdIdWrite_sized`, `ssdIdDelete_effect` — every run has one of the effects;
* `WriteEffect.inv`, `DeleteEffect.inv` — an effect keeps the partition;
* `WriteEffect.placed`, `DeleteEffect.placed` — it keeps every node in its place.
-/
import FpgaSsd.Theory.Table

namespace FpgaSsd.Theory

open FpgaSsd.Lib FpgaSsd.Driver

set_option autoImplicit false

/-! ## The free set -/

section FreeSet

variable {s s' : ChannelSpace} {used : List Extent}

/-- The free set depends on the used extents only. -/
theorem mem_freeSet (ok : SpaceOk s used) {b : Nat} :
    b ∈ freeSet s ↔ b < ssdMaxVirblocksPerChannel ∧ multiplicity used b = 0 := by
  have once := ok.tiles b
  rw [multiplicity_append] at once
  have free : b ∈ freeSet s ↔ 0 < multiplicity (freeExtents s) b := by
    refine (mem_freeSets ok).trans ?_
    simp only [multiplicity_pos_iff, Extent.mem_blocks]
  rw [free]
  split at once <;> omega

theorem freeSet_congr (ok : SpaceOk s used) (ok' : SpaceOk s' used) : freeSet s' = freeSet s := by
  ext b
  rw [mem_freeSet ok, mem_freeSet ok']

theorem freeBlocks_congr (ok : SpaceOk s used) (ok' : SpaceOk s' used) :
    s'.freeBlocks = s.freeBlocks := by
  rw [freeBlocks_eq_ncard ok, freeBlocks_eq_ncard ok', freeSet_congr ok ok']

theorem freeSet_finite (ok : SpaceOk s used) : (freeSet s).Finite :=
  (Set.finite_lt_nat ssdMaxVirblocksPerChannel).subset fun _ free => ((mem_freeSet ok).1 free).1

end FreeSet

/-! ## The effects -/

/-- The allocator and the buckets of one channel. -/
abbrev Books := ChannelSpace × (Nat → HashHead)

/-- The node for `id` is put in front of its bucket. -/
def insertNode (h : Nat → HashHead) (id : BlockId) (info : IdInfo) : Nat → HashHead :=
  Function.update h (idHash id) ((h (idHash id)).insert ⟨id, info⟩)

/-- The first node of `id` is unlinked. -/
def removeNode (h : Nat → HashHead) (id : BlockId) : Nat → HashHead :=
  Function.update h (idHash id) ((h (idHash id)).delete id)

/-- The node that a lookup of `id` finds. -/
def find (h : Nat → HashHead) (id : BlockId) : Option IdInfo := lookup (h (idHash id)).first id

/-- The answers of a write that has not touched the hardware. -/
def Refusal (ret : Int) : Prop := ret = -idAlreadyExist ∨ ret = -errNoInvalidBlocks

/-- What a write of `id` to channel `c` answers, with the books it leaves. -/
inductive WriteEffect (c : Nat) (id : BlockId) (t : BlockType) (s : ChannelSpace)
    (h : Nat → HashHead) : Int → Books → Prop
  | known {info : IdInfo} (known : find h id = some info) :
      WriteEffect c id t s h (-idAlreadyExist) (s, h)
  | full {s' : ChannelSpace} (fresh : find h id = none)
      (alloc : ssdAllocLogicBlock s t = some (-errAllocBlock, s')) :
      WriteEffect c id t s h (-errNoInvalidBlocks) (s', h)
  | undone {s' : ChannelSpace} {i : Nat} {ret : Int} (fresh : find h id = none)
      (alloc : ssdAllocLogicBlock s t = some ((i : Int), s')) (failed : ret ≠ ssdOk)
      (other : ¬ Refusal ret) :
      WriteEffect c id t s h ret (deleteLogicBlock s' (.at c i t), h)
  | done {s' : ChannelSpace} {i : Nat} (fresh : find h id = none)
      (alloc : ssdAllocLogicBlock s t = some ((i : Int), s')) :
      WriteEffect c id t s h ssdOk (s', insertNode h id (.at c i t))

/-- What a delete of `id` on channel `c` answers, with the books it leaves. -/
inductive DeleteEffect (id : BlockId) (s : ChannelSpace) (h : Nat → HashHead) : Int → Books → Prop
  | absent (absent : find h id = none) : DeleteEffect id s h (-idNoExist) (s, h)
  | undone {info : IdInfo} {ret : Int} (found : find h id = some info) (failed : ret ≠ ssdOk) :
      DeleteEffect id s h ret (s, insertNode (removeNode h id) id info)
  | done {info : IdInfo} (found : find h id = some info) :
      DeleteEffect id s h ssdOk (deleteLogicBlock s info, removeNode h id)

section Programs

variable {may : May} {d : Device} {c : Nat}

theorem toInt_not_refusal (r : ChannelRet) : ¬ Refusal r.toInt := by
  unfold Refusal
  cases r <;> simp [ChannelRet.toInt]
  omega

theorem channelOp_not_refusal (c cmd : Nat) :
    Holds may (channelOp c cmd) (fun ret d' => ¬ Refusal ret ∧ ledger d' = ledger d) d := by
  refine Holds.seq (Holds.neutral ⟨trivial, fun _ => trivial⟩) fun _ d1 same => ?_
  refine Holds.chan fun o r ch _ step => ?_
  obtain ⟨-, -, -, -, -, rfl, rfl⟩ := Channel.perform_await step
  refine ⟨toInt_not_refusal o.ret, ?_⟩
  rw [← same]
  exact ledger_setCh_same rfl rfl

/-- The retries of a write answer as the hardware does. -/
theorem writeRetry_not_refusal (writeCmd eraseCmd n : Nat) {ret : Int} (start : ¬ Refusal ret) :
    Holds may (writeRetry c writeCmd eraseCmd n ret)
      (fun ret d' => ¬ Refusal ret ∧ ledger d' = ledger d) d := by
  induction n generalizing ret d with
  | zero => exact Holds.pure ⟨start, rfl⟩
  | succ n ih =>
      refine Holds.seq (channelOp_not_refusal c writeCmd) fun ret d1 written => ?_
      split
      · exact Holds.pure written
      refine Holds.seq (channelOp_not_refusal c eraseCmd) fun erased d2 after => ?_
      rw [← written.2, ← after.2]
      split
      · exact Holds.pure ⟨written.1, rfl⟩
      · exact ih written.1

/-- Every answer of the allocator is an error or a block of the channel. -/
theorem alloc_answer {s s' : ChannelSpace} {t : BlockType} {ret : Int}
    (alloc : ssdAllocLogicBlock s t = some (ret, s')) :
    ret = -errAllocBlock ∨ ∃ i : Nat, ret = i ∧ i < ssdMaxVirblocksPerChannel := by
  have found : ∀ m, bitmapFindNextZeroArea m ssdMaxVirblocksPerChannel 0 1 <
      ssdMaxVirblocksPerChannel → ∃ i : Nat,
        ((bitmapFindNextZeroArea m ssdMaxVirblocksPerChannel 0 1 : Nat) : Int) = i ∧
          i < ssdMaxVirblocksPerChannel := fun m inside => ⟨_, rfl, inside⟩
  have current : ∀ (s : ChannelSpace) (k : Nat), 0 < k →
      s.currentFreeArea + k ≤ ssdMaxVirblocksPerChannel →
        ∃ i : Nat, (s.currentFreeArea : Int) = i ∧ i < ssdMaxVirblocksPerChannel :=
    fun s k positive fits => ⟨_, rfl, by omega⟩
  have iblock : ∀ fuel s, allocIblock fuel s = some (ret, s') →
      ret = -errAllocBlock ∨ ∃ i : Nat, ret = i ∧ i < ssdMaxVirblocksPerChannel := by
    intro fuel
    induction fuel with
    | zero => intro s run; cases run
    | succ fuel ih =>
        intro s run
        simp only [allocIblock] at run
        split at run
        · cases run; exact .inr (found _ ‹_›)
        split at run
        · exact ih _ run
        split at run
        · cases run; exact .inr (current s _ BlockType.iblock.size_pos ‹_›)
        · cases run; exact .inl rfl
  have dblock : ∀ fuel s, allocDblock fuel s = some (ret, s') →
      ret = -errAllocBlock ∨ ∃ i : Nat, ret = i ∧ i < ssdMaxVirblocksPerChannel := by
    intro fuel
    induction fuel with
    | zero => intro s run; cases run
    | succ fuel ih =>
        intro s run
        simp only [allocDblock] at run
        split at run
        · cases run; exact .inr (found _ ‹_›)
        split at run
        · cases run; exact .inr (current s _ s.area.dblock.type.size_pos ‹_›)
        split at run
        · exact ih _ run
        · cases run; exact .inl rfl
  cases t with
  | iblock => exact iblock 2 s alloc
  | dblock => exact dblock 2 s alloc

theorem ssdIdWriteBody_effect (inside : c < ssdMaxChannel) (t : BlockType) (p : WriteParam) :
    Holds may (ssdIdWriteBody c t p) (fun ret d' => ∃ books,
      WriteEffect c p.id t (ledger d c).1 (ledger d c).2 ret books ∧
        ledger d' = Function.update (ledger d) c books) d := by
  have same : Function.update (ledger d) c (ledger d c) = ledger d := Function.update_eq_self ..
  refine Holds.seq (M := fun known d1 => known = find (ledger d c).2 p.id ∧ ledger d1 = ledger d)
    (Holds.chan fun o r ch _ step => ?_) ?_
  · cases step
    exact ⟨rfl, ledger_setCh_same rfl rfl⟩
  rintro known d1 ⟨rfl, same1⟩
  split
  · rename_i known
    obtain ⟨info, found⟩ := Option.isSome_iff_exists.1 known
    exact Holds.pure ⟨_, .known found, by rw [same1, same]⟩
  rename_i unknown
  have fresh : find (ledger d c).2 p.id = none := by simpa using unknown
  refine Holds.seq (M := fun index d2 => ∃ s',
      ssdAllocLogicBlock (ledger d c).1 t = some (index, s') ∧
        ledger d2 = Function.update (ledger d) c (s', (ledger d c).2))
    (Holds.chan fun o r ch _ step => ?_) ?_
  · obtain ⟨⟨ret, s'⟩, alloc, eq⟩ := Option.map_eq_some_iff.1 step
    cases eq
    rw [← same1]
    exact ⟨s', alloc, ledger_setCh⟩
  rintro index d2 ⟨s', alloc, moved⟩
  rcases alloc_answer alloc with rfl | ⟨i, rfl, below⟩
  · rw [if_pos (.inl rfl)]
    exact Holds.pure ⟨_, .full fresh alloc, moved⟩
  rw [if_neg (by simp only [errAllocBlock, ssdMaxVirblocksPerChannel] at below ⊢; omega)]
  simp only [Int.toNat_natCast]
  -- the extent goes back into the bitmaps
  have release : ∀ {ret : Int} {d' : Device}, ret ≠ ssdOk → ¬ Refusal ret →
      ledger d' = ledger d2 → Holds may (do
        Drv.deleteLogicBlock (.at c i t)
        pure ret) (fun ret d'' => ∃ books,
          WriteEffect c p.id t (ledger d c).1 (ledger d c).2 ret books ∧
            ledger d'' = Function.update (ledger d) c books) d' := by
    intro ret d' failed other same'
    refine Holds.seq (M := fun _ d'' => ledger d'' =
        Function.update (ledger d) c (deleteLogicBlock s' (.at c i t), (ledger d c).2)) ?_
      fun _ d'' after => Holds.pure ⟨_, .undone fresh alloc failed other, after⟩
    refine Holds.seq (Holds.chan fun o r ch _ step => ?_) fun _ d'' after => Holds.pure after
    cases step
    have here : ledger d' c = (s', (ledger d c).2) := by rw [same', moved, Function.update_self]
    obtain ⟨space, hash⟩ := Prod.mk.inj here
    rw [IdInfo.at_channel inside, ledger_setCh, same', moved, Function.update_idem]
    simp only [space, hash]
  refine Holds.seq (Holds.neutral ⟨trivial, fun _ => trivial⟩) fun _ d3 same3 => ?_
  refine Holds.seq (Holds.neutral ⟨trivial, fun _ => trivial⟩) fun _ d4 same4 => ?_
  refine Holds.seq (Holds.neutral ⟨trivial, fun _ => trivial⟩) fun failed d5 same5 => ?_
  have same' := same5.trans (same4.trans same3)
  split
  · exact release (by decide) (by simp [Refusal]) same'
  refine Holds.seq (writeRetry_not_refusal _ _ 5 (by simp [Refusal])) ?_
  rintro ret d6 ⟨other, same6⟩
  have same' := same6.trans same'
  split
  · exact release ‹_› other same'
  refine Holds.seq (M := fun ret d7 => ret = ssdOk ∧ ledger d7 =
      Function.update (ledger d) c (s', insertNode (ledger d c).2 p.id (.at c i t)))
    (Holds.chan fun o r ch _ step => ?_) ?_
  · simp only [Channel.perform] at step
    split at step
    · cases step
    cases step
    have here : ledger d6 c = (s', (ledger d c).2) := by rw [same', moved, Function.update_self]
    obtain ⟨space, hash⟩ := Prod.mk.inj here
    rw [IdInfo.at_channel inside, ledger_setCh, same', moved, Function.update_idem]
    simp only [Channel.setHead, space, hash, insertNode, ssdOk, and_self]
  rintro ret d7 ⟨rfl, after⟩
  rw [if_neg (by decide)]
  exact Holds.pure ⟨_, .done fresh alloc, after⟩

theorem ssdIdDeleteBody_effect (id : BlockId)
    (own : ∀ info, find (ledger d c).2 id = some info → info.channel.val = c) :
    Holds may (ssdIdDeleteBody c id) (fun ret d' => ∃ books,
      DeleteEffect id (ledger d c).1 (ledger d c).2 ret books ∧
        ledger d' = Function.update (ledger d) c books) d := by
  refine Holds.seq (M := fun found d1 => found = find (ledger d c).2 id ∧ ledger d1 =
      if found.isSome then Function.update (ledger d) c ((ledger d c).1, removeNode (ledger d c).2 id)
      else ledger d) (Holds.chan fun o r ch _ step => ?_) ?_
  · simp only [Channel.perform] at step
    split at step
    · rename_i absent
      cases step
      exact ⟨absent.symm, ledger_setCh_same rfl rfl⟩
    · rename_i info found
      cases step
      exact ⟨found.symm, ledger_setCh⟩
  rintro found d1 ⟨eq, moved⟩
  cases found with
  | none =>
      refine Holds.pure ⟨_, .absent eq.symm, ?_⟩
      rw [moved]
      exact (Function.update_eq_self ..).symm
  | some info =>
      have own := own info eq.symm
      simp only [Option.isSome_some, if_true] at moved
      -- the node goes back into its bucket
      have restore : ∀ {ret : Int} {d' : Device}, ret ≠ ssdOk → ledger d' = ledger d1 →
          Holds may (do
            let _ ← Drv.setIdInfo id info
            pure ret) (fun ret d'' => ∃ books,
              DeleteEffect id (ledger d c).1 (ledger d c).2 ret books ∧
                ledger d'' = Function.update (ledger d) c books) d' := by
        intro ret d' failed same
        refine Holds.seq (M := fun _ d'' => ledger d'' = Function.update (ledger d) c
          ((ledger d c).1, insertNode (removeNode (ledger d c).2 id) id info))
          (Holds.chan fun o r ch _ step => ?_)
          fun _ d'' after => Holds.pure ⟨_, .undone eq.symm failed, after⟩
        simp only [Channel.perform] at step
        split at step
        · cases step
        cases step
        have here : ledger d' c = ((ledger d c).1, removeNode (ledger d c).2 id) := by
          rw [same, moved, Function.update_self]
        obtain ⟨space, hash⟩ := Prod.mk.inj here
        rw [own, ledger_setCh, same, moved, Function.update_idem]
        simp only [Channel.setHead, space, hash, insertNode]
      simp only
      split
      · exact restore ‹_› rfl
      refine Holds.seq (Holds.neutral ⟨trivial, fun _ => trivial⟩) fun _ d2 same2 => ?_
      refine Holds.seq (Holds.neutral ((channelOp_onBuffer ..).mono fun _ => Act.OnBuffer.neutral))
        fun ret d3 same3 => ?_
      have same := same3.trans same2
      split
      · exact restore ‹_› same
      rename_i ok
      have ok := not_not.1 ok
      subst ok
      refine Holds.seq (M := fun _ d4 => ledger d4 = Function.update (ledger d) c
        (deleteLogicBlock (ledger d c).1 info, removeNode (ledger d c).2 id)) ?_ fun _ d4 after =>
          Holds.seq (Holds.neutral ⟨trivial, fun _ => trivial⟩) fun _ d5 same5 =>
            Holds.pure ⟨_, .done eq.symm, same5.trans after⟩
      refine Holds.seq (Holds.chan fun o r ch _ step => ?_) fun _ d'' after => Holds.pure after
      cases step
      have here : ledger d3 c = ((ledger d c).1, removeNode (ledger d c).2 id) := by
        rw [same, moved, Function.update_self]
      obtain ⟨space, hash⟩ := Prod.mk.inj here
      rw [own, ledger_setCh, same, moved, Function.update_idem]
      simp only [space, hash]

/-- A section changes the ledger as its body does. -/
theorem withSema_effect {α : Type} {body : Drv α} (post : α → Ledger → Prop)
    (spec : ∀ d', ledger d' = ledger d → Holds may body (fun value d'' => post value (ledger d'')) d') :
    Holds may (Drv.withSema c body) (fun value d' => post value (ledger d')) d := by
  refine Holds.seq (Holds.neutral ⟨trivial, fun _ => trivial⟩) fun _ d1 same1 => ?_
  refine Holds.seq (spec d1 same1) fun value d2 after => ?_
  refine Holds.seq (Holds.neutral ⟨trivial, fun _ => trivial⟩) fun _ d3 same3 => ?_
  refine Holds.pure ?_
  rw [same3]
  exact after

/-- A request of a known length is the section of its type. -/
theorem ssdIdWrite_of_len {p : WriteParam} {t : BlockType} (len : p.len = t.size) :
    ssdIdWrite p = Drv.withSema (id2channel p.id) (ssdIdWriteBody (id2channel p.id) t p) := by
  cases t with
  | iblock => rw [ssdIdWrite, if_pos len]
  | dblock => rw [ssdIdWrite, if_neg (by rw [len]; decide), if_pos len]

/-- **A write of a known length has one of the effects** on its channel. -/
theorem ssdIdWrite_sized {p : WriteParam} {t : BlockType} (len : p.len = t.size) :
    Holds may (ssdIdWrite p) (fun ret d' => ∃ books,
      WriteEffect (id2channel p.id) p.id t (ledger d (id2channel p.id)).1
        (ledger d (id2channel p.id)).2 ret books ∧
      ledger d' = Function.update (ledger d) (id2channel p.id) books) d := by
  rw [ssdIdWrite_of_len len]
  refine withSema_effect (fun ret l => ∃ books,
    WriteEffect (id2channel p.id) p.id t (ledger d (id2channel p.id)).1
      (ledger d (id2channel p.id)).2 ret books ∧
    l = Function.update (ledger d) (id2channel p.id) books) fun d' same => ?_
  refine (ssdIdWriteBody_effect (id2channel_lt p.id) t p).weaken fun ret d'' effect => ?_
  rwa [same] at effect

/-- **A write has one of the effects** on its channel, or is refused for its length. -/
theorem ssdIdWrite_effect (p : WriteParam) : Holds may (ssdIdWrite p) (fun ret d' =>
    (ret = -errParamWrlen ∧ ledger d' = ledger d) ∨
      ∃ t books, p.len = BlockType.size t ∧
        WriteEffect (id2channel p.id) p.id t (ledger d (id2channel p.id)).1
          (ledger d (id2channel p.id)).2 ret books ∧
        ledger d' = Function.update (ledger d) (id2channel p.id) books) d := by
  by_cases known : ∃ t, p.len = BlockType.size t
  · obtain ⟨t, len⟩ := known
    refine (ssdIdWrite_sized len).weaken ?_
    rintro ret d' ⟨books, effect, after⟩
    exact .inr ⟨t, books, len, effect, after⟩
  · rw [ssdIdWrite, if_neg fun len => known ⟨.iblock, len⟩, if_neg fun len => known ⟨.dblock, len⟩]
    exact Holds.pure (.inl ⟨rfl, rfl⟩)

/-- **A delete has one of the effects** on its channel. -/
theorem ssdIdDelete_effect (id : BlockId)
    (own : ∀ info, find (ledger d (id2channel id)).2 id = some info →
      info.channel.val = id2channel id) :
    Holds may (ssdIdDelete id) (fun ret d' => ∃ books,
      DeleteEffect id (ledger d (id2channel id)).1 (ledger d (id2channel id)).2 ret books ∧
        ledger d' = Function.update (ledger d) (id2channel id) books) d := by
  refine withSema_effect (fun ret l => ∃ books,
    DeleteEffect id (ledger d (id2channel id)).1 (ledger d (id2channel id)).2 ret books ∧
      l = Function.update (ledger d) (id2channel id) books) fun d' same => ?_
  rw [← same] at own ⊢
  exact ssdIdDeleteBody_effect id own

end Programs

/-! ## What an effect keeps -/

section Kept

variable {c : Nat} {id : BlockId} {t : BlockType} {s s' : ChannelSpace} {h : Nat → HashHead}
variable {ret : Int} {books : Books} {used : List Extent}

theorem alloc_full (ok : SpaceOk s used)
    (alloc : ssdAllocLogicBlock s t = some (-errAllocBlock, s')) : SpaceOk s' used := by
  rcases ssdAllocLogicBlock_spec ok alloc with ⟨-, kept⟩ | ⟨i, negative, -⟩
  · exact kept
  · simp only [errAllocBlock] at negative
    omega

theorem alloc_moves (ok : SpaceOk s used) {i : Nat}
    (alloc : ssdAllocLogicBlock s t = some ((i : Int), s')) :
    i + t.size ≤ ssdMaxVirblocksPerChannel ∧ SpaceOk s' (⟨i, t.size⟩ :: used) := by
  rcases ssdAllocLogicBlock_spec ok alloc with ⟨negative, -⟩ | ⟨i', same, fits, moved⟩
  · simp only [errAllocBlock] at negative
    omega
  · obtain rfl : i = i' := by omega
    exact ⟨fits, moved⟩

/-- An extent that is allocated and given back leaves the used extents alone. -/
theorem alloc_undone (ok : SpaceOk s used) {i : Nat}
    (alloc : ssdAllocLogicBlock s t = some ((i : Int), s')) :
    SpaceOk (deleteLogicBlock s' (.at c i t)) used := by
  obtain ⟨fits, moved⟩ := alloc_moves ok alloc
  rw [← IdInfo.at_extent c fits] at moved
  exact deleteLogicBlock_spec moved

theorem nodesOf_insertNode (info : IdInfo) :
    (nodesOf (insertNode h id info)).Perm (⟨id, info⟩ :: nodesOf h) :=
  nodesOf_insert (idHash_lt id) ⟨id, info⟩

theorem nodesOf_removeNode {info : IdInfo} (found : find h id = some info) :
    (nodesOf h).Perm (⟨id, info⟩ :: nodesOf (removeNode h id)) := nodesOf_delete found

/-- The node that is unlinked and put back. -/
theorem nodesOf_restored {info : IdInfo} (found : find h id = some info) :
    (nodesOf (insertNode (removeNode h id) id info)).Perm (nodesOf h) :=
  (nodesOf_insertNode info).trans (nodesOf_removeNode found).symm

theorem ChannelInv.perm {h' : Nat → HashHead} (inv : ChannelInv c [] (s, h))
    (perm : (nodesOf h').Perm (nodesOf h)) : ChannelInv c [] (s, h') :=
  ⟨inv.space.perm (perm.symm.map fun n : HashNode => n.info.extent),
    fun node member => inv.own node (perm.mem_iff.1 member)⟩

/-- **A write keeps the partition** of its channel. -/
theorem WriteEffect.inv (effect : WriteEffect c id t s h ret books) (inside : c < ssdMaxChannel)
    (inv : ChannelInv c [] (s, h)) : ChannelInv c [] books := by
  cases effect with
  | known => exact inv
  | full fresh alloc => exact ⟨alloc_full inv.space alloc, inv.own⟩
  | undone fresh alloc => exact ⟨alloc_undone inv.space alloc, inv.own⟩
  | @done s' i fresh alloc =>
      obtain ⟨fits, moved⟩ := alloc_moves inv.space alloc
      have perm : (nodesOf (insertNode h id (.at c i t))).Perm (⟨id, .at c i t⟩ :: nodesOf h) :=
        nodesOf_insertNode _
      have extents := extentsOf_perm perm
      rw [IdInfo.at_extent c fits] at extents
      refine ⟨moved.perm extents.symm, fun node member => ?_⟩
      rcases List.mem_cons.1 (perm.mem_iff.1 member) with rfl | old
      · exact IdInfo.at_channel inside i t
      · exact inv.own node old

/-- **A delete keeps the partition** of its channel. -/
theorem DeleteEffect.inv (effect : DeleteEffect id s h ret books) (inv : ChannelInv c [] (s, h)) :
    ChannelInv c [] books := by
  cases effect with
  | absent => exact inv
  | undone found => exact inv.perm (nodesOf_restored found)
  | @done info found =>
      have perm := nodesOf_removeNode found
      have ok : SpaceOk s (info.extent :: extentsOf (removeNode h id)) :=
        inv.space.perm (extentsOf_perm perm)
      exact ⟨deleteLogicBlock_spec ok,
        fun node member => inv.own node (perm.mem_iff.2 (List.mem_cons_of_mem _ member))⟩

end Kept

/-! ## The table as a map -/

section Map

variable {c : Nat} {id : BlockId} {t : BlockType} {s : ChannelSpace} {h : Nat → HashHead}
variable {ret : Int} {books : Books}

theorem find_insertNode {info : IdInfo} (id' : BlockId) :
    find (insertNode h id info) id' = if id' = id then some info else find h id' := by
  rw [find, find, insertNode]
  by_cases bucket : idHash id' = idHash id
  · rw [bucket, Function.update_self, HashHead.insert, lookup_insert]
  · rw [Function.update_of_ne bucket, if_neg fun same => bucket (congrArg idHash same)]

theorem find_removeNode (placed : ChannelPlaced c h) (id' : BlockId) :
    find (removeNode h id) id' = if id' = id then none else find h id' := by
  rw [find, find, removeNode]
  by_cases bucket : idHash id' = idHash id
  · rw [bucket, Function.update_self, HashHead.delete,
      lookup_delete (placed.distinct _ (idHash_lt id))]
  · rw [Function.update_of_ne bucket, if_neg fun same => bucket (congrArg idHash same)]

/-- A node that is unlinked and put back leaves the map alone. -/
theorem find_restored (placed : ChannelPlaced c h) {info : IdInfo} (found : find h id = some info)
    (id' : BlockId) : find (insertNode (removeNode h id) id info) id' = find h id' := by
  rw [find_insertNode, find_removeNode placed]
  split
  · rename_i same
    rw [same, found]
  · rfl

theorem find_mem (placed : ChannelPlaced c h) {info : IdInfo} (found : find h id = some info) :
    info.channel.val = c :=
  (placed.node _ (idHash_lt id) _ (lookup_mem found)).2.1

theorem WriteEffect.placed (effect : WriteEffect c id t s h ret books) (channel : id2channel id = c)
    (placed : ChannelPlaced c h) : ChannelPlaced c books.2 := by
  cases effect with
  | known => exact placed
  | full => exact placed
  | undone => exact placed
  | done fresh =>
      refine placed.insert channel (IdInfo.at_channel ?_ _ _) fresh
      rw [← channel]
      exact id2channel_lt id

theorem DeleteEffect.placed (effect : DeleteEffect id s h ret books) (channel : id2channel id = c)
    (placed : ChannelPlaced c h) : ChannelPlaced c books.2 := by
  cases effect with
  | absent => exact placed
  | undone found =>
      refine (placed.delete found).insert channel (find_mem placed found) ?_
      exact (find_removeNode placed id).trans (if_pos rfl)
  | done found => exact placed.delete found

end Map

/-! ## Without failures -/

section Fine

variable {d : Device} {c : Nat}

/-- A data command succeeds when nothing fails. -/
theorem channelOp_fine {start len flag : Nat} (start_lt : start < 2 ^ 28) (len_lt : len < 2 ^ 11)
    (flag_lt : flag < 4) : Holds noFailure (channelOp c (cmdValue start len flag))
      (fun ret _ => ret = ssdOk) d := by
  refine Holds.seq (M := fun _ d1 => (d1.ch c).outstanding = some (cmdValue start len flag))
    (Holds.chan fun o r ch _ step => ?_) fun _ d1 issued => Holds.chan fun o r ch fine step => ?_
  · cases step
    simp only [Device.setCh_ch_same]
  · obtain ⟨-, -, -, -, -, rfl, -⟩ := Channel.perform_await step
    rcases fine.2.2 c rfl with ok | ⟨⟨cmd, out, read, -⟩, -⟩
    · rw [ok]
      rfl
    · rw [issued] at out
      cases out
      rw [decode_cmdValue start_lt len_lt (by omega)] at read
      simp only [flagReadtablesFromFlash] at read
      omega

theorem ssdIdWriteBody_fine (t : BlockType) (p : WriteParam) (len : p.len = t.size) :
    Holds noFailure (ssdIdWriteBody c t p) (fun ret _ =>
      Refusal ret ∨ ret = ssdOk) d := by
  have short := t.size_le
  have quiet : ∀ {α : Type} {body : Drv α} {d : Device}, Holds noFailure body (fun _ _ => True) d :=
    fun {α body d} => Safe.all (P := fun _ => True) (fun _ _ _ _ => trivial) (fun _ _ _ _ => trivial)
      (fun _ _ _ _ _ _ _ _ _ => trivial) (by induction body with
        | pure => trivial
        | act a rest ih => exact ⟨trivial, ih⟩) trivial
  refine Holds.seq quiet fun known d1 _ => ?_
  split
  · exact Holds.pure (.inl (.inl rfl))
  refine Holds.seq (M := fun index _ => index = -errAllocBlock ∨
      ∃ i : Nat, index = i ∧ i < ssdMaxVirblocksPerChannel) (Holds.chan fun o r ch _ step => ?_)
    fun index d2 answer => ?_
  · obtain ⟨⟨ret, s⟩, alloc, eq⟩ := Option.map_eq_some_iff.1 step
    cases eq
    exact alloc_answer alloc
  rcases answer with rfl | ⟨i, rfl, below⟩
  · rw [if_pos (.inl rfl)]
    exact Holds.pure (.inl (.inr rfl))
  simp only [ssdMaxVirblocksPerChannel] at below
  rw [if_neg (by simp only [errAllocBlock, ssdMaxVirblocksPerChannel]; omega)]
  refine Holds.seq quiet fun _ d3 _ => Holds.seq quiet fun _ d4 _ => ?_
  refine Holds.seq (M := fun failed _ => failed = false) (Holds.chan fun o r ch fine step => ?_) ?_
  · cases step
    exact fine.1
  rintro _ d5 rfl
  rw [if_neg Bool.false_ne_true]
  refine Holds.seq (M := fun ret _ => ret = ssdOk) ?_ ?_
  · rw [writeRetry]
    refine Holds.seq (channelOp_fine ?_ ?_ (by decide)) ?_
    · simp only [Int.toNat_natCast, ssdPagesPerBlock]
      omega
    · simp only [ssdPagesPerBlock]
      omega
    · rintro _ d6 rfl
      exact Holds.pure rfl
  rintro _ d6 rfl
  rw [if_neg (by decide)]
  refine Holds.seq (M := fun ret _ => ret = ssdOk) (Holds.chan fun o r ch _ step => ?_) ?_
  · simp only [Channel.perform] at step
    split at step
    · cases step
    · cases step
      rfl
  · rintro _ d7 rfl
    exact Holds.pure (.inr rfl)

/-- A write of a known length that is not refused succeeds when nothing fails. -/
theorem ssdIdWrite_fine (t : BlockType) (p : WriteParam) (len : p.len = t.size) :
    Holds noFailure (ssdIdWrite p) (fun ret _ =>
      Refusal ret ∨ ret = ssdOk) d := by
  rw [ssdIdWrite_of_len len]
  exact withSema_effect (fun ret _ => Refusal ret ∨ ret = ssdOk) fun d' _ =>
    ssdIdWriteBody_fine t p len

/-- A delete of an id that is there succeeds when nothing fails. -/
theorem ssdIdDelete_fine {id : BlockId} {info : IdInfo}
    (found : find (ledger d (id2channel id)).2 id = some info) (valid : checkIdInfo info = ssdOk)
    (low : info.block.val < ssdMaxVirblocksPerChannel) :
    Holds noFailure (ssdIdDelete id) (fun ret _ => ret = ssdOk) d := by
  refine withSema_effect (fun ret _ => ret = ssdOk) fun d1 same => ?_
  rw [← same] at found
  refine Holds.seq (M := fun answer _ => answer = some info) (Holds.chan fun o r ch _ step => ?_) ?_
  · have found : lookup ((d1.ch (id2channel id)).hash (idHash id)).first id = some info := found
    simp only [Channel.perform, found] at step
    cases step
    rfl
  rintro _ d2 rfl
  simp only [valid, ne_eq, not_true_eq_false, if_false]
  refine Holds.seq (M := fun _ _ => True) (Holds.chan fun o r ch _ step => trivial) fun _ d3 _ => ?_
  refine Holds.seq (channelOp_fine ?_ ?_ (by decide)) ?_
  · simp only [ssdMaxVirblocksPerChannel] at low
    omega
  · have := info.len.size_le
    omega
  rintro _ d4 rfl
  rw [if_neg (by decide)]
  refine Holds.seq (M := fun _ _ => True) ?_ fun _ d5 _ => ?_
  · exact Holds.seq (M := fun _ _ => True) (Holds.chan fun o r ch _ step => trivial)
      fun _ d5 _ => Holds.pure trivial
  · exact Holds.seq (M := fun _ _ => True) (Holds.chan fun o r ch _ step => trivial)
      fun _ d6 _ => Holds.pure rfl

end Fine

end FpgaSsd.Theory
