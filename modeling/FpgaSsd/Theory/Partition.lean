/-
# Theory.Partition — the blocks of every channel stay partitioned

The allocator invariant of `Driver.Space` carried through the requests: at every
point of a request the free extents of a channel, the extents of its hash nodes
and the extent the request has in hand tile the channel.

* `Ledger` — what the partition depends on: allocator and hash buckets;
* `Inv` — the invariant, with the extent that is in neither;
* `ssdIdWrite_inv`, `ssdIdDelete_inv`, `ssdMarkBadBlock_inv`, `ssdReloadBitmap_inv`;
* `SpacePartition` — the partition as sets of blocks.
-/
import FpgaSsd.Theory.Discipline
import Mathlib.Data.Set.Card

namespace FpgaSsd.Theory

open FpgaSsd.Lib FpgaSsd.Driver

set_option autoImplicit false

/-! ## The ledger -/

/-- The allocator and the hash buckets of each channel. -/
abbrev Ledger := Nat → ChannelSpace × (Nat → HashHead)

def ledger (d : Device) : Ledger := fun c => ((d.ch c).space, (d.ch c).hash)

/-- Actions that leave the ledger alone. -/
def ChanAct.Neutral : ChanAct → Prop
  | .setIdInfo .. | .delIdInfo _ | .initBucket _ | .freeBucket _ | .space _ => False
  | _ => True

def Act.Neutral : Act → Prop
  | .chan _ a => ChanAct.Neutral a
  | _ => True

theorem chanAct_neutral {a : ChanAct} {o : Outcome} {ch ch' : Channel} {r : a.Reply}
    (neutral : ChanAct.Neutral a) (step : ch.perform a o = some (r, ch')) :
    ch'.space = ch.space ∧ ch'.hash = ch.hash := by
  cases a
  case setIdInfo | delIdInfo | initBucket | freeBucket | space => cases neutral
  case await =>
      obtain ⟨-, -, -, -, -, -, rfl⟩ := Channel.perform_await step
      exact ⟨rfl, rfl⟩
  all_goals
    cases step
    exact ⟨rfl, rfl⟩

theorem ledger_setCh_same {d : Device} {c : Nat} {ch : Channel} (space : ch.space = (d.ch c).space)
    (hash : ch.hash = (d.ch c).hash) : ledger (d.setCh c ch) = ledger d := by
  funext c'
  by_cases same : c' = c
  · subst same
    simp only [ledger, Device.setCh_ch_same, space, hash]
  · simp only [ledger, Device.setCh_ch_other _ _ same]

theorem act_neutral {a : Act} {tid : Nat} {o : Outcome} {d d' : Device} {r : a.Reply}
    (neutral : Act.Neutral a) (step : d.perform tid a o = some (r, d')) : ledger d' = ledger d := by
  cases a
  case chan c a =>
      obtain ⟨⟨r', ch⟩, acted, eq⟩ := Option.map_eq_some_iff.1 step
      cases eq
      obtain ⟨space, hash⟩ := chanAct_neutral neutral acted
      exact ledger_setCh_same space hash
  case down c =>
      simp only [Device.perform] at step
      split at step
      · cases step
        exact ledger_setCh_same rfl rfl
      · cases step
  case up c =>
      cases step
      exact ledger_setCh_same rfl rfl
  case downFlush =>
      simp only [Device.perform] at step
      split at step
      · cases step; rfl
      · cases step
  all_goals
    cases step
    rfl

section Neutral

variable {α : Type} {may : May}

/-- A program of neutral actions leaves the ledger alone. -/
theorem Holds.neutral {p : Drv α} {d : Device} (all : p.All Act.Neutral) :
    Holds may p (fun _ d' => ledger d' = ledger d) d :=
  Safe.all (fun _ _ moved same => moved ▸ same) (fun _ _ _ _ => trivial)
    (fun _ _ _ _ _ neutral _ step same => (act_neutral neutral step).trans same) all rfl

end Neutral

/-! ## Commands and buffers -/

/-- Commands on channel `c`, and accesses to its buffer by the driver itself. -/
def Act.OnBuffer (c : Nat) : Act → Prop
  | .chan c' (.issue _) | .chan c' .await | .chan c' .readKbuf | .chan c' (.modKbuf _) => c' = c
  | _ => False

theorem Act.OnBuffer.neutral {c : Nat} {a : Act} (onBuffer : Act.OnBuffer c a) : Act.Neutral a := by
  cases a with
  | chan c a => cases a <;> trivial
  | _ => trivial

theorem channelOp_onBuffer (c cmd : Nat) : (channelOp c cmd).All (Act.OnBuffer c) :=
  ⟨rfl, fun _ => ⟨rfl, fun _ => trivial⟩⟩

theorem writeRetry_onBuffer (c writeCmd eraseCmd n : Nat) (ret : Int) :
    (writeRetry c writeCmd eraseCmd n ret).All (Act.OnBuffer c) := by
  induction n generalizing ret with
  | zero => trivial
  | succ n ih =>
      refine (channelOp_onBuffer c writeCmd).bind fun ret => ?_
      split
      · trivial
      · refine (channelOp_onBuffer c eraseCmd).bind fun erased => ?_
        split
        · trivial
        · exact ih ret

theorem findBadBlocks_onBuffer (c block start n : Nat) :
    (findBadBlocks c block start n).All (Act.OnBuffer c) := by
  induction n generalizing start with
  | zero => trivial
  | succ n ih =>
      exact (channelOp_onBuffer ..).bind fun ret => (ih _).bind fun _ => trivial

theorem markBadTables_onBuffer (c block : Nat) (blocks : List Nat) :
    (markBadTables c block blocks).All (Act.OnBuffer c) := by
  refine (channelOp_onBuffer ..).bind fun ret => ?_
  split
  · trivial
  refine ⟨rfl, fun addr => (channelOp_onBuffer ..).bind fun ret => ?_⟩
  split
  · trivial
  · exact ⟨rfl, fun _ => channelOp_onBuffer ..⟩

/-! ## The invariant -/

/-- The nodes in the buckets of one channel. -/
def nodesOf (hash : Nat → HashHead) : List HashNode :=
  (List.range ssdHashSize).flatMap fun b => (hash b).first

def extentsOf (hash : Nat → HashHead) : List Extent :=
  (nodesOf hash).map fun node => node.info.extent

theorem extentsOf_perm {hash hash' : Nat → HashHead} {node : HashNode}
    (perm : (nodesOf hash).Perm (node :: nodesOf hash')) :
    (extentsOf hash).Perm (node.info.extent :: extentsOf hash') :=
  perm.map fun n : HashNode => n.info.extent

/-- One channel: the free extents, the pending ones and those of the nodes tile
it, and every node is of this channel. -/
structure ChannelInv (c : Nat) (pending : List Extent) (s : ChannelSpace × (Nat → HashHead)) :
    Prop where
  space : SpaceOk s.1 (pending ++ extentsOf s.2)
  own : ∀ node ∈ nodesOf s.2, node.info.channel.val = c

/-- All channels; the request at work has `pending` in hand. -/
def Inv (pending : Nat → List Extent) (l : Ledger) : Prop :=
  ∀ c, c < ssdMaxChannel → ChannelInv c (pending c) (l c)

/-- Nothing in hand. -/
abbrev idle : Nat → List Extent := fun _ => []

/-- One extent of channel `c` in hand. -/
abbrev holding (c : Nat) (e : Extent) : Nat → List Extent := Function.update idle c [e]

theorem flatMap_update_perm {α : Type} {f : Nat → List α} {b n : Nat} {l : List α} {x : α}
    (inside : b < n) (perm : l.Perm (x :: f b)) :
    ((List.range n).flatMap (Function.update f b l)).Perm (x :: (List.range n).flatMap f) := by
  induction n with
  | zero => omega
  | succ n ih =>
      simp only [List.range_succ, List.flatMap_append, List.flatMap_singleton]
      by_cases last : b = n
      · subst last
        have before : (List.range b).flatMap (Function.update f b l) = (List.range b).flatMap f :=
          List.flatMap_congr fun i member =>
            Function.update_of_ne (Nat.ne_of_lt (List.mem_range.1 member)) l f
        rw [before, Function.update_self]
        exact (perm.append_left _).trans List.perm_middle
      · rw [Function.update_of_ne (Ne.symm last)]
        exact (ih (by omega)).append_right _

theorem nodesOf_insert {h : Nat → HashHead} {b : Nat} (inside : b < ssdHashSize) (node : HashNode) :
    (nodesOf (Function.update h b ((h b).insert node))).Perm (node :: nodesOf h) := by
  have pushed : (fun i => (Function.update h b ((h b).insert node) i).first) =
      Function.update (fun i => (h i).first) b (node :: (h b).first) := by
    funext i
    by_cases same : i = b
    · subst same
      simp only [Function.update_self, HashHead.insert]
    · simp only [Function.update_of_ne same]
  rw [nodesOf, pushed]
  exact flatMap_update_perm inside (.refl _)

/-- A lookup that succeeds finds a node, and deleting the id unlinks this node. -/
theorem lookup_eq_some {nodes : List HashNode} {id : BlockId} {info : IdInfo}
    (found : lookup nodes id = some info) :
    nodes.Perm (⟨id, info⟩ :: nodes.eraseP fun node => node.id = id) := by
  induction nodes with
  | nil => cases found
  | cons node rest ih =>
      simp only [lookup, List.find?_cons] at found
      by_cases here : node.id = id
      · simp only [here, decide_true, Option.map_some, Option.some.injEq] at found
        obtain ⟨nodeId, nodeInfo⟩ := node
        subst here found
        simp only [List.eraseP_cons, decide_true, cond_true]
        exact .refl _
      · simp only [here, decide_false] at found
        simp only [List.eraseP_cons, here, decide_false, cond_false]
        exact ((ih found).cons node).trans (.swap _ _ _)

theorem nodesOf_delete {hash : Nat → HashHead} {id : BlockId} {info : IdInfo}
    (found : lookup (hash (idHash id)).first id = some info) :
    (nodesOf hash).Perm (⟨id, info⟩ ::
      nodesOf (Function.update hash (idHash id) ((hash (idHash id)).delete id))) := by
  have erased : (fun i => (Function.update hash (idHash id) ((hash (idHash id)).delete id) i).first) =
      Function.update (fun i => (hash i).first) (idHash id)
        ((hash (idHash id)).first.eraseP fun node => node.id = id) := by
    funext i
    by_cases same : i = idHash id
    · subst same
      simp only [Function.update_self, HashHead.delete]
    · simp only [Function.update_of_ne same]
  have unlinked : (hash (idHash id)).first.Perm (⟨id, info⟩ ::
      Function.update (fun i => (hash i).first) (idHash id)
        ((hash (idHash id)).first.eraseP fun node => node.id = id) (idHash id)) := by
    rw [Function.update_self]
    exact lookup_eq_some found
  have perm := flatMap_update_perm (idHash_lt id) unlinked
  rw [Function.update_idem, Function.update_eq_self] at perm
  rw [nodesOf, nodesOf, erased]
  exact perm

section Moves

variable {may : May} {d : Device} {c : Nat}

theorem ledger_setCh {ch : Channel} :
    ledger (d.setCh c ch) = Function.update (ledger d) c (ch.space, ch.hash) := by
  funext c'
  by_cases same : c' = c
  · subst same
    simp only [ledger, Device.setCh_ch_same, Function.update_self]
  · simp only [ledger, Device.setCh_ch_other _ _ same, Function.update_of_ne same]

/-- The channels apart from `c` do not see what `c` has in hand. -/
theorem inv_update {l : Ledger} {pending pending' : Nat → List Extent}
    {s : ChannelSpace × (Nat → HashHead)} (inv : Inv pending l)
    (others : ∀ c', c' ≠ c → pending' c' = pending c')
    (here : c < ssdMaxChannel → ChannelInv c (pending' c) s) :
    Inv pending' (Function.update l c s) := by
  intro c' inside
  by_cases same : c' = c
  · subst same
    rw [Function.update_self]
    exact here inside
  · rw [Function.update_of_ne same, others c' same]
    exact inv c' inside

theorem holding_other {e : Extent} {c' : Nat} (apart : c' ≠ c) : holding c e c' = idle c' :=
  Function.update_of_ne apart ..

theorem holding_self (c : Nat) (e : Extent) : holding c e c = [e] := Function.update_self ..

/-- An allocation answers with a failure, or with an extent in hand. -/
theorem allocLogicBlock_inv (inv : Inv idle (ledger d)) (inside : c < ssdMaxChannel)
    (t : BlockType) : Holds may (Drv.allocLogicBlock c t) (fun index d' =>
      (index = -errAllocBlock ∧ Inv idle (ledger d')) ∨
        ∃ i : Nat, index = i ∧ i + t.size ≤ ssdMaxVirblocksPerChannel ∧
          Inv (holding c ⟨i, t.size⟩) (ledger d')) d := by
  refine Holds.chan fun o index ch _ step => ?_
  simp only [Channel.perform] at step
  obtain ⟨⟨ret, s⟩, run, eq⟩ := Option.map_eq_some_iff.1 step
  cases eq
  have own := (inv c inside).own
  rcases ssdAllocLogicBlock_spec (inv c inside).space run with ⟨failed, ok⟩ | ⟨i, found, fits, ok⟩
  · refine .inl ⟨failed, ?_⟩
    rw [ledger_setCh]
    exact inv_update inv (fun _ _ => rfl) fun _ => ⟨ok, own⟩
  · refine .inr ⟨i, found, fits, ?_⟩
    rw [ledger_setCh]
    refine inv_update inv (fun _ apart => holding_other apart) fun _ => ⟨?_, own⟩
    rw [holding_self]
    exact ok

/-- The extent in hand returns to the bitmaps. -/
theorem deleteLogicBlock_inv {info : IdInfo} (own : info.channel.val = c)
    (inv : Inv (holding c (info.extent)) (ledger d)) (inside : c < ssdMaxChannel) :
    Holds may (Drv.deleteLogicBlock info) (fun _ d' => Inv idle (ledger d')) d := by
  subst own
  refine Holds.seq (Holds.chan fun o r ch _ step => ?_) fun _ d' after => Holds.pure after
  cases step
  rw [ledger_setCh]
  refine inv_update inv (fun _ apart => (holding_other apart).symm) fun _ => ?_
  have now := inv _ inside
  rw [holding_self] at now
  exact ⟨deleteLogicBlock_spec now.space, now.own⟩

/-- The extent in hand becomes the extent of a new node. -/
theorem setIdInfo_inv {id : BlockId} {info : IdInfo} (own : info.channel.val = c)
    (inv : Inv (holding c (info.extent)) (ledger d)) (inside : c < ssdMaxChannel) :
    Holds may (Drv.setIdInfo id info) (fun ret d' => ret = ssdOk ∧ Inv idle (ledger d')) d := by
  subst own
  refine Holds.chan fun o r ch _ step => ?_
  simp only [Channel.perform] at step
  split at step
  · cases step
  cases step
  refine ⟨rfl, ?_⟩
  rw [ledger_setCh]
  refine inv_update inv (fun _ apart => (holding_other apart).symm) fun _ => ?_
  have now := inv _ inside
  rw [holding_self] at now
  have perm := nodesOf_insert (h := (d.ch info.channel.val).hash) (idHash_lt id) ⟨id, info⟩
  refine ⟨now.space.perm (extentsOf_perm perm).symm, fun node member => ?_⟩
  rcases List.mem_cons.1 (perm.mem_iff.1 member) with rfl | old
  · rfl
  · exact now.own node old

/-- A node that is unlinked leaves its extent in hand. -/
theorem delIdInfo_inv {id : BlockId} (inv : Inv idle (ledger d)) (inside : c < ssdMaxChannel) :
    Holds may (Drv.delIdInfo c id) (fun found d' => match found with
      | none => Inv idle (ledger d')
      | some info => info.channel.val = c ∧ Inv (holding c (info.extent)) (ledger d')) d := by
  refine Holds.chan fun o r ch _ step => ?_
  simp only [Channel.perform] at step
  split at step
  · cases step
    simp only
    rwa [ledger_setCh_same rfl rfl]
  rename_i info found
  cases step
  have now := inv c inside
  have perm := nodesOf_delete found
  refine ⟨now.own ⟨id, info⟩ (perm.mem_iff.2 (List.mem_cons_self ..)), ?_⟩
  rw [ledger_setCh]
  refine inv_update inv (fun _ apart => holding_other apart) fun _ => ?_
  rw [holding_self]
  exact ⟨now.space.perm (extentsOf_perm perm),
    fun node member => now.own node (perm.mem_iff.2 (List.mem_cons_of_mem _ member))⟩

end Moves

/-! ## Requests -/

section Requests

variable {may : May} {d : Device}

/-- Neutral programs keep the invariant. -/
theorem neutral_inv {α : Type} {p : Drv α} {pending : Nat → List Extent} (all : p.All Act.Neutral)
    (inv : Inv pending (ledger d)) : Holds may p (fun _ d' => Inv pending (ledger d')) d :=
  (Holds.neutral all).weaken fun _ _ same => same ▸ inv

theorem onBuffer_inv {α : Type} {c : Nat} {p : Drv α} {pending : Nat → List Extent} (all : p.All (Act.OnBuffer c))
    (inv : Inv pending (ledger d)) : Holds may p (fun _ d' => Inv pending (ledger d')) d :=
  neutral_inv (all.mono fun _ => Act.OnBuffer.neutral) inv

theorem withSema_inv {α : Type} {c : Nat} {body : Drv α} (inv : Inv idle (ledger d))
    (spec : ∀ d', Inv idle (ledger d') → Holds may body (fun _ d'' => Inv idle (ledger d'')) d') :
    Holds may (Drv.withSema c body) (fun _ d' => Inv idle (ledger d')) d := by
  refine Holds.seq (neutral_inv ⟨trivial, fun _ => trivial⟩ inv) fun _ d1 inv1 => ?_
  refine Holds.seq (spec d1 inv1) fun ret d2 inv2 => ?_
  refine Holds.seq (neutral_inv ⟨trivial, fun _ => trivial⟩ inv2) fun _ d3 inv3 => ?_
  exact Holds.pure inv3

theorem IdInfo.at_channel {c : Nat} (inside : c < ssdMaxChannel) (block : Nat) (t : BlockType) :
    (IdInfo.at c block t).channel.val = c := by
  simp only [IdInfo.at, Fin.val_ofNat]
  exact Nat.mod_eq_of_lt (Nat.lt_trans inside (by decide))

theorem IdInfo.at_extent {block : Nat} {t : BlockType} (c : Nat)
    (fits : block + t.size ≤ ssdMaxVirblocksPerChannel) :
    (IdInfo.at c block t).extent = ⟨block, t.size⟩ := by
  simp only [ssdMaxVirblocksPerChannel] at fits
  simp only [IdInfo.at, IdInfo.extent, Fin.val_ofNat]
  rw [Nat.mod_eq_of_lt (by omega)]

theorem ssdIdWriteBody_inv {c : Nat} (inside : c < ssdMaxChannel) (t : BlockType) (p : WriteParam)
    (inv : Inv idle (ledger d)) :
    Holds may (ssdIdWriteBody c t p) (fun _ d' => Inv idle (ledger d')) d := by
  refine Holds.seq (neutral_inv ⟨trivial, fun _ => trivial⟩ inv) fun known d1 inv1 => ?_
  split
  · exact Holds.pure inv1
  refine Holds.seq (allocLogicBlock_inv inv1 inside t) fun index d2 answer => ?_
  rcases answer with ⟨rfl, inv2⟩ | ⟨i, rfl, fits, inv2⟩
  · rw [if_pos (.inl rfl)]
    exact Holds.pure inv2
  have below := t.size_pos
  rw [if_neg (by simp only [errAllocBlock, ssdMaxVirblocksPerChannel] at fits ⊢; omega)]
  have own := IdInfo.at_channel inside (i : Int).toNat t
  have extent := IdInfo.at_extent c fits
  simp only [Int.toNat_natCast] at own ⊢
  rw [← extent] at inv2
  have release : ∀ d', Inv (holding c (IdInfo.at c i t).extent) (ledger d') →
      Holds may (Drv.deleteLogicBlock (IdInfo.at c i t)) (fun _ d'' => Inv idle (ledger d'')) d' :=
    fun d' inv' => deleteLogicBlock_inv own inv' inside
  -- the counters and the copy from the user are neutral
  refine Holds.seq (neutral_inv ⟨trivial, fun _ => trivial⟩ inv2) fun _ d3 inv3 => ?_
  refine Holds.seq (neutral_inv ⟨trivial, fun _ => trivial⟩ inv3) fun _ d4 inv4 => ?_
  refine Holds.seq (neutral_inv ⟨trivial, fun _ => trivial⟩ inv4) fun failed d5 inv5 => ?_
  split
  · exact Holds.seq (release d5 inv5) fun _ d6 inv6 => Holds.pure inv6
  refine Holds.seq (onBuffer_inv (writeRetry_onBuffer ..) inv5) fun ret d6 inv6 => ?_
  split
  · exact Holds.seq (release d6 inv6) fun _ d7 inv7 => Holds.pure inv7
  refine Holds.seq (setIdInfo_inv own inv6 inside) fun ret d7 inserted => ?_
  obtain ⟨rfl, inv7⟩ := inserted
  rw [if_neg (by decide)]
  exact Holds.pure inv7

theorem ssdIdWrite_inv (p : WriteParam) (inv : Inv idle (ledger d)) :
    Holds may (ssdIdWrite p) (fun _ d' => Inv idle (ledger d')) d := by
  simp only [ssdIdWrite]
  split
  · exact withSema_inv inv fun _ => ssdIdWriteBody_inv (id2channel_lt p.id) .iblock p
  split
  · exact withSema_inv inv fun _ => ssdIdWriteBody_inv (id2channel_lt p.id) .dblock p
  · exact Holds.pure inv

theorem ssdIdDeleteBody_inv {c : Nat} (inside : c < ssdMaxChannel) (id : BlockId)
    (inv : Inv idle (ledger d)) :
    Holds may (ssdIdDeleteBody c id) (fun _ d' => Inv idle (ledger d')) d := by
  refine Holds.seq (delIdInfo_inv inv inside) fun found d1 removed => ?_
  cases found with
  | none => exact Holds.pure removed
  | some info =>
      obtain ⟨own, inv1⟩ := removed
      have insert : ∀ d', Inv (holding c info.extent) (ledger d') →
          Holds may (Drv.setIdInfo id info) (fun ret d'' => ret = ssdOk ∧ Inv idle (ledger d'')) d' :=
        fun d' inv' => setIdInfo_inv own inv' inside
      simp only
      split
      · exact Holds.seq (insert d1 inv1) fun _ d2 inserted => Holds.pure inserted.2
      refine Holds.seq (neutral_inv ⟨trivial, fun _ => trivial⟩ inv1) fun _ d2 inv2 => ?_
      refine Holds.seq (onBuffer_inv (channelOp_onBuffer ..) inv2) fun ret d3 inv3 => ?_
      split
      · exact Holds.seq (insert d3 inv3) fun _ d4 inserted => Holds.pure inserted.2
      refine Holds.seq (deleteLogicBlock_inv own inv3 inside) fun _ d4 inv4 => ?_
      refine Holds.seq (neutral_inv ⟨trivial, fun _ => trivial⟩ inv4) fun _ d5 inv5 => ?_
      exact Holds.pure inv5

theorem ssdIdDelete_inv (id : BlockId) (inv : Inv idle (ledger d)) :
    Holds may (ssdIdDelete id) (fun _ d' => Inv idle (ledger d')) d :=
  withSema_inv inv fun _ => ssdIdDeleteBody_inv (id2channel_lt id) id

theorem markBadId_inv {c : Nat} (inside : c < ssdMaxChannel) (id : BlockId)
    (inv : Inv idle (ledger d)) :
    Holds may (markBadId c id) (fun _ d' => Inv idle (ledger d')) d := by
  refine Holds.seq (neutral_inv ⟨trivial, fun _ => trivial⟩ inv) fun known d1 inv1 => ?_
  cases known with
  | none => exact Holds.pure inv1
  | some info =>
      simp only
      refine Holds.seq (neutral_inv ⟨trivial, fun _ => trivial⟩ inv1) fun null d2 inv2 => ?_
      split
      · exact Holds.pure inv2
      split
      · exact Holds.pure inv2
      refine Holds.seq (onBuffer_inv (findBadBlocks_onBuffer ..) inv2) fun blocks d3 inv3 => ?_
      split
      · exact Holds.pure inv3
      refine Holds.seq (delIdInfo_inv inv3 inside) fun found d4 removed => ?_
      cases found with
      | none => exact Holds.pure removed
      | some info' =>
          obtain ⟨own, inv4⟩ := removed
          simp only
          refine Holds.seq (onBuffer_inv (channelOp_onBuffer ..) inv4) fun ret d5 inv5 => ?_
          split
          · exact Holds.seq (setIdInfo_inv own inv5 inside) fun _ d6 inserted =>
              Holds.pure inserted.2
          refine Holds.seq (deleteLogicBlock_inv own inv5 inside) fun _ d6 inv6 => ?_
          exact onBuffer_inv (markBadTables_onBuffer ..) inv6

theorem ssdMarkBadBlock_inv (p : MarkBadParam) (inv : Inv idle (ledger d)) :
    Holds may (ssdMarkBadBlock p) (fun _ d' => Inv idle (ledger d')) d := by
  simp only [ssdMarkBadBlock]
  split
  · exact withSema_inv inv fun _ => markBadId_inv (id2channel_lt p.id) p.id
  split
  · refine withSema_inv inv fun d' inv' => ?_
    refine Holds.seq (neutral_inv ⟨trivial, fun _ => trivial⟩ inv') fun null d1 inv1 => ?_
    split
    · exact Holds.pure inv1
    · exact onBuffer_inv (markBadTables_onBuffer ..) inv1
  · exact Holds.pure inv

end Requests

/-! ## Reload -/

section Reload

variable {may : May} {d : Device}

theorem scanNodes_spec {c : Nat} {nodes : List HashNode} {m m' : Bitmap}
    (scan : scanNodes c nodes m = some m') :
    (∀ node ∈ nodes, node.info.channel.val = c) ∧
      ∀ b, m' b = true ↔ m b = true ∨ ∃ node ∈ nodes, b ∈ node.info.extent.blocks := by
  induction nodes generalizing m with
  | nil =>
      cases scan
      simp
  | cons node rest ih =>
      simp only [scanNodes] at scan
      split at scan
      · cases scan
      rename_i own
      obtain ⟨owns, bits⟩ := ih scan
      refine ⟨fun n member => ?_, fun b => (bits b).trans ?_⟩
      · rcases List.mem_cons.1 member with rfl | old
        · exact (not_not.1 own).symm
        · exact owns n old
      · simp only [bitmapSet, List.mem_cons, exists_eq_or_imp, Extent.mem_blocks, IdInfo.extent]
        split
        · rename_i inside
          exact ⟨fun _ => .inr (.inl inside), fun _ => .inl rfl⟩
        · rename_i outside
          constructor
          · rintro (old | later)
            · exact .inl old
            · exact .inr (.inr later)
          · rintro (old | here | later)
            · exact .inl old
            · exact absurd here outside
            · exact .inr later

/-- A scan that meets no foreign node marks exactly the blocks of the nodes. -/
theorem scanBuckets_spec {c : Nat} {buckets : List Nat} {m : Bitmap} :
    Holds may (scanBuckets c buckets m) (fun found d' => ledger d' = ledger d ∧
      ∀ m', found = some m' →
        let nodes := buckets.flatMap fun b => ((ledger d c).2 b).first
        (∀ node ∈ nodes, node.info.channel.val = c) ∧
          ∀ b, m' b = true ↔ m b = true ∨ ∃ node ∈ nodes, b ∈ node.info.extent.blocks) d := by
  induction buckets generalizing m d with
  | nil =>
      refine Holds.pure ⟨rfl, fun m' eq => ?_⟩
      cases eq
      simp
  | cons bucket rest ih =>
      refine Holds.seq (M := fun nodes d1 => d1 = d.setCh c (d.ch c) ∧
        nodes = ((ledger d c).2 bucket).first) (Holds.chan fun o r ch _ step => ?_) ?_
      · cases step
        exact ⟨rfl, rfl⟩
      rintro nodes d1 ⟨rfl, rfl⟩
      have same : ledger (d.setCh c (d.ch c)) = ledger d := ledger_setCh_same rfl rfl
      cases scan : scanNodes c ((ledger d c).2 bucket).first m with
      | none => exact Holds.pure ⟨same, fun m' eq => by cases eq⟩
      | some m1 =>
          obtain ⟨owns, bits⟩ := scanNodes_spec scan
          refine (ih (m := m1) (d := d.setCh c (d.ch c))).weaken fun found d2 after => ?_
          obtain ⟨same', spec⟩ := after
          refine ⟨same'.trans same, fun m' eq => ?_⟩
          obtain ⟨owns', bits'⟩ := spec m' eq
          rw [same] at owns' bits'
          simp only [List.flatMap_cons]
          refine ⟨fun node member => ?_, fun b => ?_⟩
          · rcases List.mem_append.1 member with here | later
            · exact owns node here
            · exact owns' node later
          · rw [bits' b, bits b, or_assoc]
            simp only [List.mem_append, or_and_right, exists_or]

/-- A table of pairwise disjoint extents inside the channel. -/
structure TableOk (hash : Nat → HashHead) : Prop where
  disjoint : (extentsOf hash).Pairwise fun e e' => Disjoint e.blocks e'.blocks
  inside : ∀ e ∈ extentsOf hash, e.start + e.len ≤ ssdMaxVirblocksPerChannel

theorem separate_of_pairwise {l : List Extent}
    (disjoint : l.Pairwise fun e e' => Disjoint e.blocks e'.blocks) : Separate l := by
  induction l with
  | nil => exact fun b => Nat.zero_le _
  | cons e l ih =>
      obtain ⟨head, tail⟩ := List.pairwise_cons.1 disjoint
      intro b
      rw [multiplicity_cons]
      split
      · rename_i here
        have none : ¬ 0 < multiplicity l b := fun some => by
          obtain ⟨e', member, inside⟩ := multiplicity_pos_iff.1 some
          exact Set.disjoint_left.1 (head e' member) here inside
        omega
      · exact ih tail b

/-- What a reload makes of the books of channel `c`: the allocator of the blocks that
its nodes use. -/
structure Reloaded (c : Nat) (before after : ChannelSpace × (Nat → HashHead)) : Prop where
  space : ∃ m, after.1 = reloadSpace m ∧
    ∀ b, m b = true ↔ ∃ e ∈ extentsOf before.2, b ∈ e.blocks
  hash : after.2 = before.2
  own : ∀ node ∈ nodesOf before.2, node.info.channel.val = c

/-- A reload that succeeds has done every channel. -/
theorem ssdReloadBitmap_reloads : Holds may ssdReloadBitmap (fun ret d' => ret = ssdOk →
    ∀ c < ssdMaxChannel, Reloaded c (ledger d c) (ledger d' c)) d := by
  -- channels still to do have their table, the others their new allocator
  let todo : List Nat → Device → Prop := fun rest d' => ∀ c, c < ssdMaxChannel →
    if c ∈ rest then (ledger d' c).2 = (ledger d c).2 else Reloaded c (ledger d c) (ledger d' c)
  have reload : Holds may (Program.firstSome reloadChannel (List.range ssdMaxChannel))
      (fun found d' => found.elim (∀ c < ssdMaxChannel, Reloaded c (ledger d c) (ledger d' c))
        fun ret => ret = ssdError) d := by
    have start : todo (List.range ssdMaxChannel) d := fun c inside => by
      rw [if_pos (List.mem_range.2 inside)]
    have nodup : (List.range ssdMaxChannel).Nodup := List.nodup_range
    have below : ∀ c ∈ List.range ssdMaxChannel, c < ssdMaxChannel := fun c => List.mem_range.1
    refine Safe.firstSome (alone_steady may)
      (I := fun rest d' => rest.Nodup ∧ (∀ c ∈ rest, c < ssdMaxChannel) ∧ todo rest d')
      ?_ ?_ ⟨nodup, below, start⟩
    · rintro c rest d1 ⟨nodup, below, pending⟩
      have inside := below c (List.mem_cons_self ..)
      have mine := pending c inside
      rw [if_pos (List.mem_cons_self ..)] at mine
      obtain ⟨fresh, nodup'⟩ := List.nodup_cons.1 nodup
      refine Holds.seq scanBuckets_spec fun found d2 scanned => ?_
      obtain ⟨same, spec⟩ := scanned
      cases found with
      | none =>
          refine Holds.pure fun d3 eq => ?_
          rfl
      | some m =>
          obtain ⟨owns, bits⟩ := spec m rfl
          simp only
          refine Holds.seq (M := fun _ d3 => rest.Nodup ∧ (∀ c' ∈ rest, c' < ssdMaxChannel) ∧
            todo rest d3) ?_ fun _ d3 after => Holds.pure after
          refine Holds.seq (Holds.neutral ⟨trivial, fun _ => trivial⟩) fun _ d3 same3 => ?_
          refine Holds.seq (M := fun _ d4 => ledger d4 =
            Function.update (ledger d1) c (reloadSpace m, (ledger d1 c).2))
            (Holds.chan fun o r ch _ step => ?_) fun _ d4 same4 => ?_
          · cases step
            rw [ledger_setCh, same3, same]
            congr 2
            exact congrArg Prod.snd (congrFun (same3.trans same) c)
          refine Holds.seq (Holds.neutral ⟨trivial, fun _ => trivial⟩) fun _ d5 same5 => ?_
          refine Holds.pure ⟨nodup', fun c' member => below c' (List.mem_cons_of_mem _ member), ?_⟩
          intro c' inside'
          rw [same5, same4]
          by_cases here : c' = c
          · subst here
            rw [if_neg fresh, Function.update_self]
            rw [mine] at owns bits
            refine ⟨⟨m, rfl, fun b => (bits b).trans ?_⟩, mine, owns⟩
            simp [extentsOf, nodesOf]
          · rw [Function.update_of_ne here]
            have before := pending c' inside'
            by_cases later : c' ∈ rest
            · rwa [if_pos later, if_pos (List.mem_cons_of_mem _ later)] at *
            · rw [if_neg later]
              rwa [if_neg (by simp [here, later])] at before
    · rintro d1 d2 ⟨-, -, finished⟩ rfl c inside
      have := finished c inside
      rwa [if_neg (List.not_mem_nil)] at this
  refine Holds.seq reload fun found d1 after => ?_
  cases found with
  | some ret =>
      refine Holds.pure fun ok => ?_
      rw [after] at ok
      cases ok
  | none => exact Holds.pure fun _ => after

/-- **Reloading partitions every channel** when it succeeds. -/
theorem ssdReloadBitmap_inv (table : ∀ c, c < ssdMaxChannel → TableOk (d.ch c).hash) :
    Holds may ssdReloadBitmap (fun ret d' => ret = ssdOk → Inv idle (ledger d')) d := by
  refine ssdReloadBitmap_reloads.weaken fun ret d' reloads ok c inside => ?_
  obtain ⟨⟨m, space, bits⟩, hash, own⟩ := reloads ok c inside
  have ok := table c inside
  refine ⟨?_, fun node member => own node (by rwa [hash] at member)⟩
  rw [space, hash]
  exact reloadSpace_spec (separate_of_pairwise ok.disjoint) ok.inside bits

end Reload

/-! ## The partition as sets -/

/-- The blocks whose bit of the `IBLOCK` bitmap is zero. -/
def iblockFree (s : ChannelSpace) : Set Nat :=
  {b | b < ssdMaxVirblocksPerChannel ∧ s.area.iblock.areaMap b = false}

/-- The blocks of the runs whose head bit of the `DBLOCK` bitmap is zero. -/
def dblockFree (s : ChannelSpace) : List (Set Nat) :=
  (zeros s.area.dblock.areaMap ssdMaxVirblocksPerChannel).map fun d => {b | d ≤ b ∧ b < d + 5}

def currentFree (s : ChannelSpace) : Set Nat :=
  {b | s.currentFreeArea ≤ b ∧ b < ssdMaxVirblocksPerChannel}

/-- The blocks `[block, block + BLOCKSIZE[len])` of each hash node. -/
def nodeBlocks (ch : Channel) : List (Set Nat) :=
  ch.nodes.map fun node =>
    {b | node.info.block.val ≤ b ∧ b < node.info.block.val + node.info.len.size}

/-- The free sets of a channel. -/
def freeSets (s : ChannelSpace) : List (Set Nat) :=
  iblockFree s :: currentFree s :: dblockFree s

/-- The sets are pairwise disjoint, cover the channel, and `free_blocks` counts
the free ones; every node passes `check_id_info`. -/
structure SpacePartition (ch : Channel) : Prop where
  disjoint : (freeSets ch.space ++ nodeBlocks ch).Pairwise Disjoint
  cover : ∀ b, (∃ blocks ∈ freeSets ch.space ++ nodeBlocks ch, b ∈ blocks) ↔
    b < ssdMaxVirblocksPerChannel
  free : ch.space.freeBlocks = (Set.ncard {b | ∃ blocks ∈ freeSets ch.space, b ∈ blocks} : Nat)
  checked : ∀ node ∈ ch.nodes, checkIdInfo node.info = ssdOk

section Sets

variable {s : ChannelSpace} {used : List Extent}

theorem mem_units {m : Bitmap} {n b : Nat} :
    (∃ e ∈ (zeros m n).map Extent.unit, b ∈ e.blocks) ↔ b < n ∧ m b = false := by
  simp only [List.mem_map, exists_exists_and_eq_and, mem_zeros, Extent.mem_blocks, Extent.unit]
  constructor
  · rintro ⟨i, zero, lo, hi⟩
    rwa [show b = i by omega]
  · exact fun zero => ⟨b, zero, le_rfl, Nat.lt_succ_self b⟩

theorem exists_mem_append {α : Type} {P : α → Prop} {l l' : List α} :
    (∃ x ∈ l ++ l', P x) ↔ (∃ x ∈ l, P x) ∨ ∃ x ∈ l', P x := by
  simp only [List.mem_append, or_and_right, exists_or]

/-- The extents of the invariant apart from the single blocks. -/
def runExtents (s : ChannelSpace) : List Extent :=
  (zeros s.area.dblock.areaMap ssdMaxVirblocksPerChannel).map Extent.five ++
    [⟨s.currentFreeArea, ssdMaxVirblocksPerChannel - s.currentFreeArea⟩]

theorem freeExtents_eq (s : ChannelSpace) : freeExtents s =
    (zeros s.area.iblock.areaMap ssdMaxVirblocksPerChannel).map Extent.unit ++ runExtents s := rfl

theorem currentFree_eq (ok : SpaceOk s used) : currentFree s =
    Extent.blocks ⟨s.currentFreeArea, ssdMaxVirblocksPerChannel - s.currentFreeArea⟩ := by
  have := ok.current
  ext b
  simp only [currentFree, Set.mem_ofPred_eq, Extent.mem_blocks, ssdMaxVirblocksPerChannel] at *
  omega

theorem runs_perm (ok : SpaceOk s used) :
    (currentFree s :: dblockFree s).Perm ((runExtents s).map Extent.blocks) := by
  rw [currentFree_eq ok, runExtents, List.map_append, List.map_singleton, List.map_map]
  exact (List.perm_append_singleton _ _).symm

theorem mem_freeSets (ok : SpaceOk s used) {b : Nat} :
    (∃ blocks ∈ freeSets s, b ∈ blocks) ↔ ∃ e ∈ freeExtents s, b ∈ e.blocks := by
  rw [freeSets, List.exists_mem_cons_iff, freeExtents_eq, exists_mem_append]
  refine or_congr mem_units.symm ?_
  simp only [(runs_perm ok).mem_iff, List.mem_map, exists_exists_and_eq_and]

theorem freeExtents_inside (ok : SpaceOk s used) :
    ∀ e ∈ freeExtents s, e.start + e.len ≤ ssdMaxVirblocksPerChannel := by
  intro e member
  by_cases empty : e.len = 0
  · have := ok.current
    rw [freeExtents_eq, List.mem_append, runExtents, List.mem_append, List.mem_map, List.mem_map,
      List.mem_singleton] at member
    rcases member with ⟨i, -, rfl⟩ | ⟨d, -, rfl⟩ | rfl
    · cases empty
    · cases empty
    · simp only at empty ⊢
      omega
  · exact ok.tiles.end_le (List.mem_append_left _ member) (Nat.pos_of_ne_zero empty)

/-- The free blocks of a channel, wherever they are recorded. -/
def freeSet (s : ChannelSpace) : Set Nat := {b | ∃ blocks ∈ freeSets s, b ∈ blocks}

/-- `free_blocks` counts the free set. -/
theorem freeBlocks_eq_ncard (ok : SpaceOk s used) : s.freeBlocks = (freeSet s).ncard := by
  have count := sum_len_eq_card ok.tiles.separate.append_left (freeExtents_inside ok)
  have same : freeSet s = ((Finset.range ssdMaxVirblocksPerChannel).filter fun b =>
      ∃ e ∈ freeExtents s, e.start ≤ b ∧ b < e.start + e.len : Finset Nat) := by
    ext b
    simp only [freeSet, Set.mem_ofPred_eq, mem_freeSets ok, Finset.coe_filter, Finset.mem_range]
    exact ⟨fun ⟨e, member, covers⟩ =>
      ⟨ok.tiles.lt (List.mem_append_left _ member) covers, e, member, covers⟩, fun h => h.2⟩
  rw [ok.free, count, same, Set.ncard_coe_finset]

/-- The invariant says that the channel is partitioned. -/
theorem spacePartition_of_inv {c : Nat} (inside : c < ssdMaxChannel) {ch : Channel}
    (inv : ChannelInv c [] (ch.space, ch.hash)) : SpacePartition ch := by
  have ok := inv.space
  simp only [List.nil_append] at ok
  have separate := ok.tiles.separate
  have nodes : nodeBlocks ch = (extentsOf ch.hash).map Extent.blocks := by
    rw [extentsOf, List.map_map]
    rfl
  refine ⟨?_, fun b => ?_, ?_, fun node member => ?_⟩
  · rw [freeSets, List.cons_append, List.pairwise_cons]
    have rest : (currentFree ch.space :: dblockFree ch.space ++ nodeBlocks ch).Perm
        ((runExtents ch.space ++ extentsOf ch.hash).map Extent.blocks) := by
      rw [nodes, List.map_append]
      exact (runs_perm ok).append_right _
    rw [freeExtents_eq, List.append_assoc] at separate
    refine ⟨fun blocks member => ?_, ?_⟩
    · obtain ⟨e, inRest, rfl⟩ := List.mem_map.1 (rest.mem_iff.1 member)
      refine Set.disjoint_left.2 fun b zero inside' => ?_
      obtain ⟨e', unit, covers⟩ := mem_units.2 zero
      exact separate.disjoint_append unit inRest covers inside'
    · refine (rest.pairwise_iff fun {_ _} h => h.symm).2 ?_
      exact List.pairwise_map.2 separate.append_right.pairwise
  · rw [exists_mem_append, mem_freeSets ok, nodes]
    simp only [List.mem_map, exists_exists_and_eq_and]
    rw [← exists_mem_append]
    constructor
    · rintro ⟨e, member, covers⟩
      exact ok.tiles.lt member covers
    · exact fun below => ok.tiles.exists_covers below
  · exact freeBlocks_eq_ncard ok
  · refine checkIdInfo_ok (by rw [inv.own node member]; exact inside) ?_
    exact ok.tiles.end_le (List.mem_append_right _ (List.mem_map_of_mem member))
      node.info.len.size_pos

end Sets

/-! ## The number of ids -/

/-- **A partitioned channel has no more ids than blocks**: its nodes start at different ones. -/
theorem SpacePartition.few {ch : Channel} (partition : SpacePartition ch) :
    ch.nodes.length ≤ ssdMaxVirblocksPerChannel := by
  have apart := (List.pairwise_append.1 partition.disjoint).2.1
  have own : ∀ node ∈ ch.nodes, node.info.block.val < node.info.block.val + node.info.len.size := by
    intro node _
    exact Nat.lt_add_of_pos_right node.info.len.size_pos
  have starts : (ch.nodes.map fun node => node.info.block.val).Nodup := by
    apply List.pairwise_map.2
    apply (List.pairwise_map.1 apart).imp_of_mem
    intro x y member member' disjoint same
    have mine := own x member
    have its := own y member'
    exact Set.disjoint_left.1 disjoint ⟨Nat.le_refl _, mine⟩ ⟨Nat.le_of_eq same.symm, by omega⟩
  have inside : (ch.nodes.map fun node => node.info.block.val) ⊆ List.range ssdMaxVirblocksPerChannel := by
    intro b member
    obtain ⟨node, found, rfl⟩ := List.mem_map.1 member
    apply List.mem_range.2
    apply (partition.cover _).1
    exact ⟨_, List.mem_append_right _ (List.mem_map_of_mem found), Nat.le_refl _, own node found⟩
  have count := (starts.subperm inside).length_le
  rwa [List.length_map, List.length_range] at count

/-- The nodes of the channels below `n`. -/
theorem nodes_few {d : Device} {n : Nat} (partition : ∀ c < n, SpacePartition (d.ch c)) :
    ((List.range n).flatMap fun c => (d.ch c).nodes).length ≤ n * ssdMaxVirblocksPerChannel := by
  induction n with
  | zero => exact Nat.zero_le _
  | succ n ih =>
      have last := (partition n (Nat.lt_succ_self n)).few
      have before := ih fun c below => partition c (Nat.lt_succ_of_lt below)
      rw [List.range_succ, List.flatMap_append, List.length_append, List.flatMap_singleton, Nat.succ_mul]
      exact Nat.add_le_add before last

/-! ## Sessions -/

/-- The requests that move blocks. -/
inductive SpaceRequest where
  | write (p : WriteParam)
  | delete (id : BlockId)
  | markBad (id : BlockId)

def SpaceRequest.run : SpaceRequest → Drv Int
  | .write p => ssdIdWrite p
  | .delete id => ssdIdDelete id
  | .markBad id => ssdMarkBadBlock ⟨paramId, id, 0, 0⟩

/-- One request after the other, with their return values. -/
def runRequests : List SpaceRequest → Drv (List Int)
  | [] => pure []
  | r :: rest => do
      let ret ← r.run
      let rets ← runRequests rest
      pure (ret :: rets)

theorem runRequests_inv {may : May} (requests : List SpaceRequest) {d : Device}
    (inv : Inv idle (ledger d)) :
    Holds may (runRequests requests) (fun _ d' => Inv idle (ledger d')) d := by
  induction requests generalizing d with
  | nil => exact Holds.pure inv
  | cons r rest ih =>
      refine Holds.seq (M := fun _ d' => Inv idle (ledger d')) ?_ fun ret d1 inv1 =>
        Holds.seq (ih inv1) fun rets d2 inv2 => Holds.pure inv2
      cases r with
      | write p => exact ssdIdWrite_inv p inv
      | delete id => exact ssdIdDelete_inv id inv
      | markBad id => exact ssdMarkBadBlock_inv _ inv

theorem runRequests_locks {h : Held} (free : Free h) (requests : List SpaceRequest) :
    Locks false anyReply (runRequests requests) h := by
  induction requests with
  | nil => rfl
  | cons r rest ih =>
      refine Program.Returns.bind (p := r.run) ?_ fun ret => ih.bind fun _ => rfl
      cases r with
      | write p => exact ssdIdWrite_locks free p
      | delete id => exact ssdIdDelete_locks free id
      | markBad id => exact ssdMarkBadBlock_locks free _

/-- No channel has a node. -/
def Empty (l : Ledger) : Prop := ∀ c b, ((l c).2 b).first = []

theorem scanBuckets_empty {may : May} {d : Device} (empty : Empty (ledger d)) (c : Nat)
    (buckets : List Nat) (m : Bitmap) :
    Holds may (scanBuckets c buckets m) (fun found d' => found = some m ∧ Empty (ledger d')) d := by
  induction buckets generalizing d with
  | nil => exact Holds.pure ⟨rfl, empty⟩
  | cons b rest ih =>
      refine Holds.seq (M := fun nodes d1 => nodes = [] ∧ Empty (ledger d1))
        (Holds.chan fun o r ch _ step => ?_) ?_
      · cases step
        rw [ledger_setCh_same rfl rfl]
        exact ⟨empty c b, empty⟩
      · rintro nodes d1 ⟨rfl, empty1⟩
        exact ih empty1

/-- Reloading a card with no nodes succeeds. -/
theorem ssdReloadBitmap_empty {may : May} {d : Device} (empty : Empty (ledger d)) :
    Holds may ssdReloadBitmap (fun ret _ => ret = ssdOk) d := by
  refine Holds.seq (M := fun found _ => found = none) ?_ ?_
  · refine Safe.firstSome (alone_steady may) (I := fun _ d' => Empty (ledger d')) ?_ ?_ empty
    · intro c rest d1 empty1
      refine Holds.seq (scanBuckets_empty empty1 c _ _) ?_
      rintro found d2 ⟨rfl, empty2⟩
      refine Holds.seq (M := fun _ d3 => Empty (ledger d3)) ?_ fun _ d3 empty3 => Holds.pure empty3
      refine Holds.seq (Holds.neutral ⟨trivial, fun _ => trivial⟩) fun _ d3 same3 => ?_
      rw [← same3] at empty2
      refine Holds.seq (M := fun _ d4 => Empty (ledger d4)) (Holds.chan fun o r ch _ step => ?_)
        fun _ d4 empty4 => ?_
      · cases step
        intro c' b
        rw [ledger_setCh]
        by_cases same : c' = c
        · subst same
          rw [Function.update_self]
          exact empty2 c' b
        · rw [Function.update_of_ne same]
          exact empty2 c' b
      · refine Holds.seq (Holds.neutral ⟨trivial, fun _ => trivial⟩) fun _ d5 same5 => ?_
        refine Holds.pure ?_
        rw [same5]
        exact empty4
    · exact fun _ _ _ _ => rfl
  · rintro found d1 rfl
    exact Holds.pure rfl

/-- **Space partition.** After a reload that succeeds on a table of disjoint
extents, and any requests with any outcomes, every channel is partitioned. -/
theorem channels_stay_partitioned {d d1 d2 : Device} {rets : List Int}
    (table : ∀ c, c < ssdMaxChannel → TableOk (d.ch c).hash)
    (reload : Run anyOutcome ssdReloadBitmap d ssdOk d1) (requests : List SpaceRequest)
    (run : Run anyOutcome (runRequests requests) d1 rets d2) {c : Nat} (inside : c < ssdMaxChannel) :
    SpacePartition (d2.ch c) :=
  spacePartition_of_inv inside
    ((runRequests_inv requests ((ssdReloadBitmap_inv table).runs reload rfl)).runs run c inside)

/-- A reload of an empty card and a write, a failing or not, of a first id. -/
theorem channels_stay_partitioned_empty : ∃ d1 rets d2,
    Run anyOutcome ssdReloadBitmap emptyDevice ssdOk d1 ∧
      Run anyOutcome (runRequests [.write ⟨⟨0, 0⟩, fun _ => 7, 1⟩, .delete ⟨0, 0⟩]) d1 rets d2 ∧
      SpacePartition (d2.ch 0) := by
  have table : ∀ c, c < ssdMaxChannel → TableOk (emptyDevice.ch c).hash := fun c _ => by
    have nodes : nodesOf (emptyDevice.ch c).hash = [] := List.flatMap_eq_nil_iff.2 fun _ _ => rfl
    have none : extentsOf (emptyDevice.ch c).hash = [] := by rw [extentsOf, nodes, List.map_nil]
    exact ⟨none ▸ .nil, fun e member => absurd (none ▸ member) List.not_mem_nil⟩
  obtain ⟨ret, d1, reload, mirrors⟩ :=
    exists_run anyOutcome_live emptyDevice_mirrors (ssdReloadBitmap_locks free_none)
  obtain rfl := (ssdReloadBitmap_empty fun _ _ => rfl).runs reload
  obtain ⟨rets, d2, run, -⟩ :=
    exists_run anyOutcome_live mirrors (runRequests_locks free_none
      [.write ⟨⟨0, 0⟩, fun _ => 7, 1⟩, .delete ⟨0, 0⟩])
  exact ⟨d1, rets, d2, reload, run, channels_stay_partitioned table reload _ run (by decide)⟩

end FpgaSsd.Theory
