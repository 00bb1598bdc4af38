/-
# Theory.FreeCount — the free count that the driver publishes

`/proc` shows a copy of the free count of each channel. A write refreshes it behind its
allocation, a delete when it has given the blocks back, and an open at its end; a write
that fails behind the allocation and a mark-bad give blocks back without refreshing it.

* `freeDues` — a change of a free count owes a refresh of the copy;
* `ssdAllocLogicBlock_reply` — an allocation that fails leaves the count as it is;
* `ssdSysOpen_pays`, `ssdIdWrite_pays`, `ssdIdDelete_pays`, `ssdMarkBadBlock_pays`;
* `published_unless_given_back` — any requests, interleaved in any way.
-/
import FpgaSsd.Lib.Dues
import FpgaSsd.Theory.Capacity

namespace FpgaSsd.Theory

open FpgaSsd.Lib FpgaSsd.Driver

set_option autoImplicit false

/-! ## Requests -/

/-- The requests that change free counts. -/
inductive CountRequest where
  | open
  | write (p : WriteParam)
  | delete (id : BlockId)
  | markBad (id : BlockId)

def CountRequest.run : CountRequest → Drv Int
  | .open => ssdSysOpen
  | .write p => ssdIdWrite p
  | .delete id => ssdIdDelete id
  | .markBad id => ssdMarkBadBlock ⟨paramId, id, 0, 0⟩

/-- An open works on every channel. -/
def CountRequest.WorksOn (c : Nat) : CountRequest → Prop
  | .open => True
  | .write p => id2channel p.id = c
  | .delete id => id2channel id = c
  | .markBad id => id2channel id = c

/-- `delete_logic_block`. -/
def GivesBack (a : Act) : Prop :=
  ∃ info : IdInfo, a = .chan info.channel.val (.space fun s => some (ssdOk, Driver.deleteLogicBlock s info))

/-- A write or a mark-bad does not give blocks back. -/
def keepsBlocks : CountRequest → Act → Prop
  | .write _, a | .markBad _, a => ¬ GivesBack a
  | .open, _ | .delete _, _ => True

/-! ## The copy -/

/-- What `/proc` shows is the free count. -/
def Published (c : Nat) (d : Device) : Prop := (d.ch c).stat.freeBlocks = (d.ch c).space.freeBlocks

/-- Every node is in the table of the channel that it names. -/
def OwnNodes (d : Device) : Prop := ∀ c b, ∀ node ∈ ((d.ch c).hash b).first, node.info.channel.val = c

/-- Nodes are linked on the channel that they name. -/
def linksOwn : Act → Prop
  | .chan c (.setIdInfo _ info) => info.channel.val = c
  | _ => True

/-- What is found on a channel names it. -/
def findsOwn : (a : Act) → a.Reply → Prop
  | .chan c (.delIdInfo _), found => ∀ info, found = some info → info.channel.val = c
  | .chan c (.copyBucket _), nodes => ∀ node ∈ nodes, node.info.channel.val = c
  | _, _ => True

/-- The free count of channel `c` may change, or the copy to something else. -/
def disturbsCount (c : Nat) : (a : Act) → a.Reply → Prop
  | .chan c' (.space f), r => c' = c ∧ ∃ s s', f s = some (r, s') ∧ s'.freeBlocks ≠ s.freeBlocks
  | .chan c' (.stat f), _ => c' = c ∧ ∃ stat space, (f stat space).freeBlocks ≠ stat.freeBlocks ∧
      (f stat space).freeBlocks ≠ space.freeBlocks
  | _, _ => False

def refreshes (c : Nat) : Act → Prop
  | .chan c' (.stat f) => c' = c ∧ ∀ stat space, (f stat space).freeBlocks = space.freeBlocks
  | _ => False

/-- Who changes the free count of channel `c` owes a refresh of its copy. -/
def freeDues (c : Nat) : Dues Act Act.Reply where
  allowed := linksOwn
  expects := findsOwn
  disturbs := disturbsCount c
  restores := refreshes c

section Machine

variable {c : Nat} {d d' : Device} {tid : Nat} {o : Outcome}

theorem OwnNodes.setCh {c' : Nat} {ch : Channel} (own : OwnNodes d)
    (nodes : ∀ b, ∀ node ∈ (ch.hash b).first, node.info.channel.val = c') : OwnNodes (d.setCh c' ch) := by
  intro c b node member
  by_cases same : c = c'
  · subst same
    rw [Device.setCh_ch_same] at member
    exact nodes b node member
  · rw [Device.setCh_ch_other _ _ same] at member
    exact own c b node member

/-- The nodes of a channel keep naming it. -/
theorem chanAct_own {a : ChanAct} {ch ch' : Channel} {r : a.Reply}
    (own : ∀ b, ∀ node ∈ (ch.hash b).first, node.info.channel.val = c) (links : linksOwn (.chan c a))
    (step : ch.perform a o = some (r, ch')) : ∀ b, ∀ node ∈ (ch'.hash b).first, node.info.channel.val = c := by
  -- one bucket changes
  have bucket : ∀ (b' : Nat) (head : HashHead), (∀ node ∈ head.first, node.info.channel.val = c) →
      ∀ b, ∀ node ∈ ((ch.setHead b' head).hash b).first, node.info.channel.val = c := by
    intro b' head nodes b node member
    by_cases same : b = b'
    · subst same
      simp only [Channel.setHead, Function.update_self] at member
      exact nodes node member
    · simp only [Channel.setHead, Function.update_of_ne same] at member
      exact own b node member
  cases a
  case setIdInfo id info =>
      simp only [Channel.perform] at step
      split at step
      · cases step
      cases step
      refine bucket _ _ fun node member => ?_
      rcases List.mem_cons.1 member with rfl | old
      · exact links
      · exact own _ node old
  case delIdInfo id =>
      simp only [Channel.perform] at step
      split at step
      · cases step
        exact own
      · cases step
        exact bucket _ _ fun node member => own _ node (List.mem_of_mem_eraseP member)
  case initBucket b =>
      cases step
      exact bucket _ _ fun node member => absurd member List.not_mem_nil
  case freeBucket b =>
      cases step
      exact bucket _ _ fun node member => absurd member List.not_mem_nil
  case space f =>
      obtain ⟨⟨r', space⟩, -, eq⟩ := Option.map_eq_some_iff.1 step
      cases eq
      exact own
  case await =>
      obtain ⟨-, -, -, -, -, -, rfl⟩ := Channel.perform_await step
      exact own
  all_goals
    cases step
    exact own

/-- The copy stays right. -/
theorem chanAct_published {a : ChanAct} {ch ch' : Channel} {r : a.Reply}
    (published : ch.stat.freeBlocks = ch.space.freeBlocks) (quiet : ¬ disturbsCount c (.chan c a) r)
    (step : ch.perform a o = some (r, ch')) : ch'.stat.freeBlocks = ch'.space.freeBlocks := by
  cases a
  case setIdInfo id info =>
      simp only [Channel.perform] at step
      split at step
      · cases step
      · cases step
        exact published
  case delIdInfo id =>
      simp only [Channel.perform] at step
      split at step
      · cases step
        exact published
      · cases step
        exact published
  case space f =>
      obtain ⟨⟨r', space⟩, answered, eq⟩ := Option.map_eq_some_iff.1 step
      cases eq
      by_contra differs
      exact quiet ⟨rfl, ch.space, space, answered, fun same => differs (published.trans same.symm)⟩
  case stat f =>
      cases step
      by_contra differs
      refine quiet ⟨rfl, ch.stat, ch.space, fun same => differs (same.trans published), differs⟩
  case await =>
      obtain ⟨-, -, -, -, -, -, rfl⟩ := Channel.perform_await step
      exact published
  all_goals
    cases step
    exact published

/-- What is found in a bucket was linked there. -/
theorem chanAct_finds {a : ChanAct} {ch ch' : Channel} {r : a.Reply}
    (own : ∀ b, ∀ node ∈ (ch.hash b).first, node.info.channel.val = c)
    (step : ch.perform a o = some (r, ch')) : findsOwn (.chan c a) r := by
  cases a
  case delIdInfo id =>
      simp only [Channel.perform] at step
      split at step
      · cases step
        intro info found
        cases found
      · rename_i info found
        cases step
        rintro _ ⟨⟩
        exact own _ ⟨id, info⟩ (lookup_mem found)
  case copyBucket b =>
      cases step
      exact own b
  all_goals trivial

/-- What an action off the channels leaves of them. -/
theorem perform_other {a : Act} {r : a.Reply} (step : d.perform tid a o = some (r, d'))
    (other : ∀ c a', a ≠ .chan c a') :
    ∀ c, (d'.ch c).hash = (d.ch c).hash ∧ (d'.ch c).space = (d.ch c).space ∧ (d'.ch c).stat = (d.ch c).stat := by
  have channel : ∀ {c' : Nat} {ch : Channel}, ch.hash = (d.ch c').hash → ch.space = (d.ch c').space →
      ch.stat = (d.ch c').stat → ∀ c, ((d.setCh c' ch).ch c).hash = (d.ch c).hash ∧
        ((d.setCh c' ch).ch c).space = (d.ch c).space ∧ ((d.setCh c' ch).ch c).stat = (d.ch c).stat := by
    intro c' ch hash space stat c
    by_cases same : c = c'
    · subst same
      rw [Device.setCh_ch_same]
      exact ⟨hash, space, stat⟩
    · rw [Device.setCh_ch_other _ _ same]
      exact ⟨rfl, rfl, rfl⟩
  cases a
  case chan c' a' => exact absurd rfl (other c' a')
  case down c' =>
      simp only [Device.perform] at step
      split at step
      · cases step
        exact channel rfl rfl rfl
      · cases step
  case up c' =>
      cases step
      exact channel rfl rfl rfl
  case downFlush =>
      simp only [Device.perform] at step
      split at step
      · cases step
        exact fun c => ⟨rfl, rfl, rfl⟩
      · cases step
  all_goals
    cases step
    exact fun c => ⟨rfl, rfl, rfl⟩

/-- **The driver keeps these dues.** -/
theorem freeDues_sound (c : Nat) : (freeDues c).Sound Device.perform OwnNodes (Published c) := by
  constructor
  · intro tid a o r d d' own links step
    cases a with
    | chan c' a =>
        obtain ⟨⟨r', ch⟩, acted, eq⟩ := Option.map_eq_some_iff.1 step
        cases eq
        exact own.setCh (chanAct_own (own c') links acted)
    | _ =>
        intro c b node member
        rw [(perform_other step (fun _ _ => nofun) c).1] at member
        exact own c b node member
  · intro tid a o r d d' own step
    cases a with
    | chan c' a =>
        obtain ⟨⟨r', ch⟩, acted, eq⟩ := Option.map_eq_some_iff.1 step
        cases eq
        exact chanAct_finds (own c') acted
    | _ => trivial
  · intro tid a o r d d' restores step
    cases a with
    | chan c' a =>
        cases a with
        | stat f =>
            obtain ⟨rfl, refresh⟩ := restores
            cases step
            rw [Published, Device.setCh_ch_same]
            exact refresh _ _
        | _ => exact restores.elim
    | _ => exact restores.elim
  · intro tid a o r d d' published quiet step
    cases a with
    | chan c' a =>
        obtain ⟨⟨r', ch⟩, acted, eq⟩ := Option.map_eq_some_iff.1 step
        cases eq
        by_cases same : c = c'
        · subst same
          rw [Published, Device.setCh_ch_same]
          exact chanAct_published published quiet acted
        · rw [Published, Device.setCh_ch_other _ _ same]
          exact published
    | _ =>
        obtain ⟨-, space, stat⟩ := perform_other step (fun _ _ => nofun) c
        rw [Published, space, stat]
        exact published

end Machine

/-! ## Allocations -/

section Alloc

variable {s s' : ChannelSpace} {ret : Int}

theorem takeCurrent_reply {blocks : Nat} (positive : 0 < blocks)
    (fits : s.currentFreeArea + blocks ≤ ssdMaxVirblocksPerChannel)
    (taken : s.takeCurrent blocks = some (ret, s')) : 0 ≤ ret ∧ ret < ssdMaxVirblocksPerChannel := by
  cases taken
  simp only [ssdMaxVirblocksPerChannel] at *
  omega

theorem allocIblock_reply (fuel : Nat) (alloc : allocIblock fuel s = some (ret, s')) :
    ret = -errAllocBlock ∧ s'.freeBlocks = s.freeBlocks ∨ 0 ≤ ret ∧ ret < ssdMaxVirblocksPerChannel := by
  induction fuel generalizing s with
  | zero => cases alloc
  | succ fuel ih =>
      rw [allocIblock] at alloc
      dsimp only at alloc
      split at alloc
      · rename_i found
        cases alloc
        exact .inr ⟨Int.natCast_nonneg _, Int.ofNat_lt.2 found⟩
      split at alloc
      · have again := ih alloc
        exact again
      split at alloc
      · rename_i fits
        exact .inr (takeCurrent_reply (by decide) fits alloc)
      · cases alloc
        exact .inl ⟨rfl, rfl⟩

theorem allocDblock_reply (fuel : Nat) (alloc : allocDblock fuel s = some (ret, s')) :
    ret = -errAllocBlock ∧ s'.freeBlocks = s.freeBlocks ∨ 0 ≤ ret ∧ ret < ssdMaxVirblocksPerChannel := by
  induction fuel generalizing s with
  | zero => cases alloc
  | succ fuel ih =>
      rw [allocDblock] at alloc
      dsimp only at alloc
      split at alloc
      · rename_i found
        cases alloc
        exact .inr ⟨Int.natCast_nonneg _, Int.ofNat_lt.2 found⟩
      split at alloc
      · rename_i fits
        exact .inr (takeCurrent_reply s.area.dblock.type.size_pos fits alloc)
      split at alloc
      · have again := ih alloc
        exact again
      · cases alloc
        exact .inl ⟨rfl, rfl⟩

/-- The answer of a successful allocation is no error. -/
theorem taken_fits (taken : 0 ≤ ret ∧ ret < ssdMaxVirblocksPerChannel) :
    ¬ (ret = -errAllocBlock ∨ (ssdMaxVirblocksPerChannel : Int) ≤ ret) := by
  simp only [errAllocBlock, ssdMaxVirblocksPerChannel] at *
  omega

/-- **An allocation** that fails leaves the free count as it is. -/
theorem ssdAllocLogicBlock_reply {type : BlockType} (alloc : ssdAllocLogicBlock s type = some (ret, s')) :
    ret = -errAllocBlock ∧ s'.freeBlocks = s.freeBlocks ∨ 0 ≤ ret ∧ ret < ssdMaxVirblocksPerChannel := by
  cases type with
  | iblock => exact allocIblock_reply 2 alloc
  | dblock => exact allocDblock_reply 2 alloc

end Alloc

/-! ## Write, delete and mark-bad -/

section Requests

variable {c : Nat} {permitted : Act → Prop}

theorem down_calm (c' : Nat) : (Drv.down c').All (freeDues c).Calm := ⟨⟨trivial, fun _ => not_false⟩, fun _ => trivial⟩

theorem up_calm (c' : Nat) : (Drv.up c').All (freeDues c).Calm := ⟨⟨trivial, fun _ => not_false⟩, fun _ => trivial⟩

theorem channelOp_calm (channel cmd : Nat) : (channelOp channel cmd).All (freeDues c).Calm :=
  ⟨⟨trivial, fun _ => not_false⟩, fun _ => ⟨⟨trivial, fun _ => not_false⟩, fun _ => trivial⟩⟩

theorem setIdInfo_calm (id : BlockId) (info : IdInfo) : (Drv.setIdInfo id info).All (freeDues c).Calm :=
  ⟨⟨rfl, fun _ => not_false⟩, fun _ => trivial⟩

/-- The counters of pages leave the copy alone. -/
theorem stat_calm {c' : Nat} {f : ChannelStat → ChannelSpace → ChannelStat}
    (same : ∀ stat space, (f stat space).freeBlocks = stat.freeBlocks) :
    (freeDues c).Calm (.chan c' (.stat f)) :=
  ⟨trivial, fun _ ⟨_, stat, space, differs, _⟩ => differs (same stat space)⟩

theorem publishFreeBlocks_calm (c' : Nat) : (Drv.publishFreeBlocks c').All (freeDues c).Calm :=
  ⟨⟨trivial, fun _ ⟨_, _, _, _, differs⟩ => differs rfl⟩, fun _ => trivial⟩

theorem publishFreeBlocks_owes (c : Nat) : (Drv.publishFreeBlocks c).Owes (freeDues c) := .inl ⟨rfl, fun _ _ => rfl⟩

theorem withSema_pays {α : Type} {c' : Nat} {body : Drv α} (inner : body.Pays (freeDues c) permitted) :
    (Drv.withSema c' body).Pays (freeDues c) permitted := by
  apply (Program.Pays.of_calm (down_calm c')).bind
  intro _
  apply inner.bind
  intro ret
  exact Program.Pays.of_calm ((up_calm c').bind fun _ => trivial)

/-- What is given back in a request that keeps its blocks is not given back at all. -/
theorem deleteLogicBlock_pays {info : IdInfo} (kept : ∀ a, permitted a → ¬ GivesBack a) :
    (Drv.deleteLogicBlock info).Pays (freeDues c) permitted :=
  fun may => absurd ⟨info, rfl⟩ (kept _ may)

theorem writeRetry_calm (channel writeCmd eraseCmd n : Nat) (ret : Int) :
    (writeRetry channel writeCmd eraseCmd n ret).All (freeDues c).Calm := by
  induction n generalizing ret with
  | zero => trivial
  | succ n ih =>
      apply (channelOp_calm ..).bind
      intro ret
      split
      · trivial
      apply (channelOp_calm ..).bind
      intro erased
      split
      · trivial
      · exact ih ret

theorem ssdIdWriteBody_pays (kept : ∀ a, permitted a → ¬ GivesBack a) (channel : Nat)
    (type : BlockType) (p : WriteParam) :
    (ssdIdWriteBody channel type p).Pays (freeDues c) permitted := by
  refine Program.Pays.act ⟨trivial, fun _ => not_false⟩ fun known _ => ?_
  show Program.Pays _ _ (ite _ _ _)
  split
  · trivial
  intro _
  refine ⟨trivial, fun index _ => ⟨?_, ?_⟩⟩
  · -- an allocation that takes blocks is followed by a refresh
    rintro ⟨rfl, s, s', alloc, changed⟩
    have taken : 0 ≤ index ∧ index < ssdMaxVirblocksPerChannel := by
      rcases ssdAllocLogicBlock_reply alloc with ⟨-, same⟩ | taken
      · exact absurd same changed
      · exact taken
    show Program.Owes _ (ite _ _ _)
    rw [if_neg (taken_fits taken)]
    refine Program.Owes.after (Program.Ends.any _) fun _ _ => ?_
    exact (publishFreeBlocks_owes channel).bind
  show Program.Pays _ _ (ite _ _ _)
  split
  · trivial
  refine Program.Pays.act (stat_calm fun _ _ => rfl) fun _ _ => ?_
  apply (Program.Pays.of_calm (publishFreeBlocks_calm channel)).bind
  intro _
  refine Program.Pays.act ⟨trivial, fun _ => not_false⟩ fun failed _ => ?_
  show Program.Pays _ _ (ite _ _ _)
  split
  · exact (deleteLogicBlock_pays kept).bind fun _ => trivial
  apply (Program.Pays.of_calm (writeRetry_calm ..)).bind
  intro ret
  split
  · exact (deleteLogicBlock_pays kept).bind fun _ => trivial
  apply (Program.Pays.of_calm (setIdInfo_calm ..)).bind
  intro ret
  split
  · apply (Program.Pays.of_calm (channelOp_calm ..)).bind
    intro _
    exact (deleteLogicBlock_pays kept).bind fun _ => trivial
  · trivial

theorem ssdIdWrite_pays (kept : ∀ a, permitted a → ¬ GivesBack a) (p : WriteParam) :
    (ssdIdWrite p).Pays (freeDues c) permitted := by
  rw [ssdIdWrite]
  split
  · exact withSema_pays (ssdIdWriteBody_pays kept _ _ p)
  split
  · exact withSema_pays (ssdIdWriteBody_pays kept _ _ p)
  · trivial

theorem ssdIdDeleteBody_pays (channel : Nat) (id : BlockId) :
    (ssdIdDeleteBody channel id).Pays (freeDues c) permitted := by
  intro _
  refine ⟨trivial, fun found own => ⟨fun disturbed => disturbed.elim, ?_⟩⟩
  cases found with
  | none => trivial
  | some info =>
      have home : info.channel.val = channel := own info rfl
      show Program.Pays _ _ (ite _ _ _)
      split
      · exact Program.Pays.of_calm ((setIdInfo_calm ..).bind fun _ => trivial)
      refine Program.Pays.act (stat_calm fun _ _ => rfl) fun _ _ => ?_
      apply (Program.Pays.of_calm (channelOp_calm ..)).bind
      intro ret
      split
      · exact Program.Pays.of_calm ((setIdInfo_calm ..).bind fun _ => trivial)
      intro _
      refine ⟨trivial, fun _ _ => ⟨?_, ?_⟩⟩
      · -- the blocks are given back on the channel whose copy is refreshed
        rintro ⟨rfl, -⟩
        rw [home]
        exact (publishFreeBlocks_owes channel).bind
      · exact Program.Pays.of_calm ((publishFreeBlocks_calm channel).bind fun _ => trivial)

theorem ssdIdDelete_pays (id : BlockId) : (ssdIdDelete id).Pays (freeDues c) permitted :=
  withSema_pays (ssdIdDeleteBody_pays _ id)

theorem findBadBlocks_calm (channel block start n : Nat) :
    (findBadBlocks channel block start n).All (freeDues c).Calm := by
  induction n generalizing start with
  | zero => trivial
  | succ n ih =>
      apply (channelOp_calm ..).bind
      intro ret
      exact (ih (start + 1)).bind fun _ => trivial

theorem markBadTables_calm (channel block : Nat) (blocks : List Nat) :
    (markBadTables channel block blocks).All (freeDues c).Calm := by
  apply (channelOp_calm ..).bind
  intro ret
  split
  · trivial
  refine ⟨⟨trivial, fun _ => not_false⟩, fun addr => ?_⟩
  apply (channelOp_calm ..).bind
  intro ret
  split
  · trivial
  exact ⟨⟨trivial, fun _ => not_false⟩, fun _ => channelOp_calm ..⟩

theorem markBadId_pays (kept : ∀ a, permitted a → ¬ GivesBack a) (channel : Nat) (id : BlockId) :
    (markBadId channel id).Pays (freeDues c) permitted := by
  refine Program.Pays.act ⟨trivial, fun _ => not_false⟩ fun found _ => ?_
  cases found with
  | none => trivial
  | some info =>
      refine Program.Pays.act ⟨trivial, fun _ => not_false⟩ fun null _ => ?_
      show Program.Pays _ _ (ite _ _ _)
      split
      · trivial
      split
      · trivial
      apply (Program.Pays.of_calm (findBadBlocks_calm ..)).bind
      intro blocks
      split
      · trivial
      refine Program.Pays.act ⟨trivial, fun _ => not_false⟩ fun found _ => ?_
      cases found with
      | none => trivial
      | some info =>
          apply (Program.Pays.of_calm (channelOp_calm ..)).bind
          intro ret
          split
          · exact Program.Pays.of_calm ((setIdInfo_calm ..).bind fun _ => trivial)
          · apply (deleteLogicBlock_pays kept).bind
            intro _
            exact Program.Pays.of_calm (markBadTables_calm ..)

theorem ssdMarkBadBlock_pays (kept : ∀ a, permitted a → ¬ GivesBack a) (id : BlockId) :
    (ssdMarkBadBlock ⟨paramId, id, 0, 0⟩).Pays (freeDues c) permitted :=
  withSema_pays (markBadId_pays kept _ id)

end Requests

/-! ## Opening the card -/

section Open

variable {c : Nat} {permitted : Act → Prop}

theorem perform_calm {a : Act} (links : linksOwn a) (quiet : ∀ r, ¬ disturbsCount c a r) :
    (Program.perform a : Drv a.Reply).All (freeDues c).Calm := ⟨⟨links, quiet⟩, fun _ => trivial⟩

theorem answer_calm {loop : Drv (Option Int)} (inner : loop.All (freeDues c).Calm) :
    (loop >>= fun
      | some ret => pure ret
      | none => pure ssdOk : Drv Int).All (freeDues c).Calm := by
  apply inner.bind
  intro found
  cases found <;> trivial

theorem forBuckets_calm {a : Nat → ChanAct} (links : ∀ c' b, linksOwn (.chan c' (a b)))
    (quiet : ∀ c' b r, ¬ disturbsCount c (.chan c' (a b)) r) : (forBuckets a).All (freeDues c).Calm := by
  have channel : ∀ c', (Program.firstSome (fun b => do
      let _ ← Drv.chan c' (a b)
      pure (none : Option Unit)) (List.range ssdHashSize) : Drv (Option Unit)).All (freeDues c).Calm := fun c' =>
    .firstSome fun b _ => (perform_calm (links c' b) (quiet c' b)).bind fun _ => trivial
  exact Program.All.bind (.firstSome fun c' _ => channel c') fun _ => trivial

theorem ssdInitHash_calm : ssdInitHash.All (freeDues c).Calm :=
  forBuckets_calm (fun _ _ => trivial) fun _ _ _ => not_false

theorem ssdDestorySlab_calm : ssdDestorySlab.All (freeDues c).Calm :=
  forBuckets_calm (fun _ _ => trivial) fun _ _ _ => not_false

theorem readKbuf_calm (c' : Nat) : (Drv.readKbuf c').All (freeDues c).Calm :=
  perform_calm trivial fun _ => not_false

theorem modMeta_calm (f : SsdMetadata → SsdMetadata) : (Drv.modMeta f).All (freeDues c).Calm :=
  perform_calm trivial fun _ => not_false

theorem modMetaPos_calm (f : MetaPosition → MetaPosition) : (Drv.modMetaPos f).All (freeDues c).Calm :=
  perform_calm trivial fun _ => not_false

theorem modFlush_calm (f : Mem → Mem) : (Drv.modFlush f).All (freeDues c).Calm :=
  perform_calm trivial fun _ => not_false

theorem getMeta_calm : Drv.getMeta.All (freeDues c).Calm := perform_calm trivial fun _ => not_false

theorem readFlush_calm : Drv.readFlush.All (freeDues c).Calm := perform_calm trivial fun _ => not_false

theorem copyBucket_calm (c' b : Nat) : (Drv.chan c' (.copyBucket b)).All (freeDues c).Calm :=
  perform_calm trivial fun _ => not_false

theorem searchGroup_calm (group : Nat) (version : UInt64) (planes : List Nat) :
    (searchGroup group version planes).All (freeDues c).Calm := by
  induction planes with
  | nil => trivial
  | cons plane rest ih =>
      apply (channelOp_calm ..).bind
      intro ret
      split
      · trivial
      split
      · exact ih
      apply (readKbuf_calm _).bind
      intro kbuf
      dsimp only
      split
      · exact ih
      split
      · exact (modMetaPos_calm _).bind fun _ => trivial
      · trivial

theorem searchBlockMetadata_calm : searchBlockMetadata.All (freeDues c).Calm := by
  have groups : ∀ (l : List Nat) (version : UInt64), (searchGroups l version).All (freeDues c).Calm := by
    intro l
    induction l with
    | nil => exact fun _ => trivial
    | cons group rest ih =>
        intro version
        apply (searchGroup_calm ..).bind
        intro found
        cases found with
        | error ret => trivial
        | ok version' => exact ih version'
  apply (groups _ 0).bind
  intro found
  cases found <;> trivial

theorem searchPage_calm (blockPos page plane : Nat) : (searchPage blockPos page plane).All (freeDues c).Calm := by
  apply (channelOp_calm ..).bind
  intro ret
  split
  · trivial
  split
  · trivial
  apply (readKbuf_calm _).bind
  intro kbuf
  dsimp only
  split
  · trivial
  · exact (modMeta_calm _).bind fun _ => (modMetaPos_calm _).bind fun _ => trivial

theorem ssdSearchMetadata_calm : ssdSearchMetadata.All (freeDues c).Calm := by
  apply searchBlockMetadata_calm.bind
  intro ret
  split
  · trivial
  apply Program.All.bind (p := Program.perform Act.getMetaPos) (perform_calm trivial fun _ => not_false)
  intro p
  apply Program.All.bind
  · exact .firstSome fun page _ => .firstSome fun plane _ => searchPage_calm ..
  · intro found
    cases found <;> trivial

theorem readTableCopy_calm (pos offset : Nat) : (readTableCopy pos offset).All (freeDues c).Calm := by
  apply Program.All.firstSome
  intro page _
  apply (channelOp_calm ..).bind
  intro ret
  split
  · trivial
  · exact (readKbuf_calm _).bind fun kbuf => (modFlush_calm _).bind fun _ => trivial

theorem readTableCopies_calm (n : Nat) (copies : List Nat) : (readTableCopies n copies).All (freeDues c).Calm := by
  induction copies with
  | nil => trivial
  | cons i rest ih =>
      apply getMeta_calm.bind
      intro record
      apply (readTableCopy_calm ..).bind
      intro found
      cases found with
      | none => trivial
      | some ret =>
          dsimp only
          split
          · trivial
          · exact ih

theorem ssdReadFlushTabledata_calm : ssdReadFlushTabledata.All (freeDues c).Calm := by
  have blocks : ∀ fuel n, (readFlushLoop fuel n).All (freeDues c).Calm := by
    intro fuel
    induction fuel with
    | zero => exact fun _ => trivial
    | succ fuel ih =>
        intro n
        apply getMeta_calm.bind
        intro record
        split
        · apply (readTableCopies_calm ..).bind
          intro found
          cases found with
          | some ret => trivial
          | none => exact ih _
        · trivial
  exact blocks _ 0

theorem rebuildEntries_calm (close : Bool) (n i : Nat) : (rebuildEntries close n i).All (freeDues c).Calm := by
  induction n generalizing i with
  | zero => trivial
  | succ n ih =>
      apply readFlush_calm.bind
      intro image
      dsimp only
      split
      · exact ih _
      apply (setIdInfo_calm ..).bind
      intro ret
      split
      · trivial
      · exact ih _

theorem ssdRebuildErasetable_calm : ssdRebuildErasetable.All (freeDues c).Calm := by
  apply getMeta_calm.bind
  intro record
  split
  · trivial
  apply Program.All.bind
  · apply Program.All.firstSome
    intro channel _
    apply (modFlush_calm _).bind
    intro _
    exact .firstSome fun b _ => (copyBucket_calm ..).bind fun nodes => (modFlush_calm _).bind fun _ => trivial
  · exact fun _ => trivial

theorem updataTable_calm (channel offset flag : Nat) : (updataTable channel offset flag).All (freeDues c).Calm :=
  readFlush_calm.bind fun _ => Program.All.bind (perform_calm trivial fun _ => not_false) fun _ => channelOp_calm ..

theorem ssdUpdataTables_calm : ssdUpdataTables.All (freeDues c).Calm := by
  apply answer_calm
  apply Program.All.firstSome
  intro channel _
  apply (updataTable_calm ..).bind
  intro ret
  split
  · trivial
  · exact (updataTable_calm ..).bind fun _ => trivial

theorem ssdSysInit_calm : ssdSysInit.All (freeDues c).Calm := by
  apply ssdSearchMetadata_calm.bind
  intro ret
  split
  · trivial
  apply getMeta_calm.bind
  intro record
  apply (modFlush_calm _).bind
  intro _
  apply ssdReadFlushTabledata_calm.bind
  intro ret
  split
  · trivial
  apply getMeta_calm.bind
  intro record
  split
  · trivial
  apply Program.All.bind (getMeta_calm.bind fun record => rebuildEntries_calm ..)
  intro ret
  split
  · trivial
  · exact ssdRebuildErasetable_calm.bind fun _ => ssdUpdataTables_calm

theorem scanNodes_own {channel : Nat} {nodes : List HashNode} (own : ∀ node ∈ nodes, node.info.channel.val = channel)
    (m : Bitmap) : scanNodes channel nodes m ≠ none := by
  induction nodes generalizing m with
  | nil => exact nofun
  | cons node rest ih =>
      have here := own node (List.mem_cons_self ..)
      rw [scanNodes, if_neg (not_not.2 here.symm)]
      exact ih (fun other member => own other (List.mem_cons_of_mem _ member)) _

theorem scanBuckets_calm (channel : Nat) (buckets : List Nat) (m : Bitmap) :
    (scanBuckets channel buckets m).All (freeDues c).Calm := by
  induction buckets generalizing m with
  | nil => trivial
  | cons b rest ih =>
      apply (copyBucket_calm ..).bind
      intro nodes
      cases scanNodes channel nodes m with
      | none => trivial
      | some m' => exact ih m'

theorem scanBuckets_ends (channel : Nat) (buckets : List Nat) (m : Bitmap) :
    (scanBuckets channel buckets m).Ends (freeDues c) fun found => found ≠ none := by
  induction buckets generalizing m with
  | nil => exact Option.some_ne_none m
  | cons b rest ih =>
      intro nodes own
      have found := scanNodes_own own m
      dsimp only [Bind.bind, Program.bind]
      cases scanned : scanNodes channel nodes m with
      | none => exact absurd scanned found
      | some m' => exact ih m'

/-- The reload finds no node of another channel. -/
theorem reloadChannel_ends (channel : Nat) :
    (reloadChannel channel).Ends (freeDues c) fun found => found = none := by
  apply (scanBuckets_ends channel (List.range ssdHashSize) fun _ => false).bind
  intro found some
  cases found with
  | none => exact absurd rfl some
  | some m => exact Program.Ends.bind (Program.Ends.any _) fun _ _ => rfl

theorem reloadChannel_links (channel : Nat) : (reloadChannel channel).All linksOwn := by
  apply Program.All.bind ((scanBuckets_calm (c := 0) ..).mono fun _ calm => calm.1)
  intro found
  cases found with
  | none => trivial
  | some m => exact ⟨trivial, fun _ => ⟨trivial, fun _ => ⟨trivial, fun _ => trivial⟩⟩⟩

theorem ssdReloadBitmap_ends : ssdReloadBitmap.Ends (freeDues c) fun ret => ret = ssdOk := by
  apply (Program.Ends.firstSome fun channel _ => reloadChannel_ends channel).bind
  rintro found rfl
  rfl

theorem ssdReloadBitmap_links : ssdReloadBitmap.All linksOwn := by
  apply (Program.All.firstSome fun channel _ => reloadChannel_links channel).bind
  intro found
  cases found <;> trivial

theorem publishAllFreeBlocks_calm : publishAllFreeBlocks.All (freeDues c).Calm :=
  Program.All.bind (.firstSome fun channel _ => (publishFreeBlocks_calm channel).bind fun _ => trivial) fun _ => trivial

theorem publishAllFreeBlocks_owes (inside : c < ssdMaxChannel) : publishAllFreeBlocks.Owes (freeDues c) := by
  apply Program.Owes.bind
  apply Program.Owes.firstSome (i := c)
  · exact fun channel _ => (Program.Ends.any (Drv.publishFreeBlocks channel)).bind fun _ _ => rfl
  · exact List.mem_range.2 inside
  · exact (publishFreeBlocks_owes c).bind

/-- **An open** sets the free counts of all channels and refreshes all copies behind that. -/
theorem ssdSysOpen_pays (inside : c < ssdMaxChannel) : ssdSysOpen.Pays (freeDues c) permitted := by
  refine Program.Pays.act ⟨trivial, fun _ => not_false⟩ fun opened _ => ?_
  show Program.Pays _ _ (ite _ _ _)
  split
  · trivial
  refine Program.Pays.act ⟨trivial, fun _ => not_false⟩ fun failed _ => ?_
  show Program.Pays _ _ (ite _ _ _)
  split
  · trivial
  apply (Program.Pays.of_calm ssdInitHash_calm).bind
  intro _
  apply (Program.Pays.of_calm ssdSysInit_calm).bind
  intro ret
  split
  · exact Program.Pays.of_calm (ssdDestorySlab_calm.bind fun _ => trivial)
  apply Program.Pays.owed ssdReloadBitmap_links ssdReloadBitmap_ends
  · rintro ret rfl
    exact (publishAllFreeBlocks_owes inside).bind
  · rintro ret rfl
    apply Program.Pays.of_calm
    exact publishAllFreeBlocks_calm.bind fun _ =>
      ⟨⟨trivial, fun _ => not_false⟩, fun _ => ⟨⟨trivial, fun _ => not_false⟩, fun _ => trivial⟩⟩

end Open

/-! ## Operations in progress -/

section Idle

variable {c : Nat}

/-- An operation on another channel does not refresh this copy. -/
abbrev Elsewhere (c : Nat) (a : Act) : Prop := ¬ refreshes c a

theorem withSema_elsewhere {α : Type} {c' : Nat} {body : Drv α} (inner : body.All (Elsewhere c)) :
    (Drv.withSema c' body).All (Elsewhere c) := by
  apply Program.All.bind (p := Drv.down c') (.perform not_false)
  intro _
  apply inner.bind
  intro ret
  exact Program.All.bind (p := Drv.up c') (.perform not_false) fun _ => trivial

theorem channelOp_elsewhere (channel cmd : Nat) : (channelOp channel cmd).All (Elsewhere c) :=
  ⟨not_false, fun _ => ⟨not_false, fun _ => trivial⟩⟩

theorem stat_elsewhere {c' : Nat} (other : c' ≠ c) (f : ChannelStat → ChannelSpace → ChannelStat) :
    (Drv.chan c' (.stat f)).All (Elsewhere c) := .perform fun same => other same.1

theorem deleteLogicBlock_elsewhere (info : IdInfo) : (Drv.deleteLogicBlock info).All (Elsewhere c) :=
  ⟨not_false, fun _ => trivial⟩

theorem setIdInfo_elsewhere (id : BlockId) (info : IdInfo) : (Drv.setIdInfo id info).All (Elsewhere c) :=
  .perform not_false

theorem writeRetry_elsewhere (channel writeCmd eraseCmd n : Nat) (ret : Int) :
    (writeRetry channel writeCmd eraseCmd n ret).All (Elsewhere c) := by
  induction n generalizing ret with
  | zero => trivial
  | succ n ih =>
      apply (channelOp_elsewhere ..).bind
      intro ret
      split
      · trivial
      apply (channelOp_elsewhere ..).bind
      intro erased
      split
      · trivial
      · exact ih ret

theorem ssdIdWriteBody_elsewhere {channel : Nat} (other : channel ≠ c) (type : BlockType) (p : WriteParam) :
    (ssdIdWriteBody channel type p).All (Elsewhere c) := by
  apply Program.All.bind (p := Drv.getIdInfo ..) (.perform not_false)
  intro known
  split
  · trivial
  apply Program.All.bind (p := Drv.allocLogicBlock ..) (.perform not_false)
  intro index
  split
  · trivial
  apply (stat_elsewhere other _).bind
  intro _
  apply (stat_elsewhere other _).bind
  intro _
  apply Program.All.bind (p := Drv.copyFromUser ..) (.perform not_false)
  intro failed
  split
  · exact (deleteLogicBlock_elsewhere _).bind fun _ => trivial
  apply (writeRetry_elsewhere ..).bind
  intro ret
  split
  · exact (deleteLogicBlock_elsewhere _).bind fun _ => trivial
  apply (setIdInfo_elsewhere ..).bind
  intro ret
  split
  · exact (channelOp_elsewhere ..).bind fun _ => (deleteLogicBlock_elsewhere _).bind fun _ => trivial
  · trivial

theorem ssdIdDeleteBody_elsewhere {channel : Nat} (other : channel ≠ c) (id : BlockId) :
    (ssdIdDeleteBody channel id).All (Elsewhere c) := by
  apply Program.All.bind (p := Drv.delIdInfo ..) (.perform not_false)
  intro found
  cases found with
  | none => trivial
  | some info =>
      dsimp only
      split
      · exact (setIdInfo_elsewhere ..).bind fun _ => trivial
      apply (stat_elsewhere other _).bind
      intro _
      apply (channelOp_elsewhere ..).bind
      intro ret
      split
      · exact (setIdInfo_elsewhere ..).bind fun _ => trivial
      apply (deleteLogicBlock_elsewhere _).bind
      intro _
      exact (stat_elsewhere other _).bind fun _ => trivial

theorem findBadBlocks_elsewhere (channel block start n : Nat) :
    (findBadBlocks channel block start n).All (Elsewhere c) := by
  induction n generalizing start with
  | zero => trivial
  | succ n ih => exact (channelOp_elsewhere ..).bind fun _ => (ih (start + 1)).bind fun _ => trivial

theorem markBadTables_elsewhere (channel block : Nat) (blocks : List Nat) :
    (markBadTables channel block blocks).All (Elsewhere c) := by
  apply (channelOp_elsewhere ..).bind
  intro ret
  split
  · trivial
  apply Program.All.bind (p := Drv.readKbuf _) (.perform not_false)
  intro addr
  apply (channelOp_elsewhere ..).bind
  intro ret
  split
  · trivial
  exact Program.All.bind (p := Drv.modKbuf ..) (.perform not_false) fun _ => channelOp_elsewhere ..

theorem markBadId_elsewhere (channel : Nat) (id : BlockId) : (markBadId channel id).All (Elsewhere c) := by
  apply Program.All.bind (p := Drv.getIdInfo ..) (.perform not_false)
  intro found
  cases found with
  | none => trivial
  | some info =>
      apply Program.All.bind (p := Program.perform Act.kmalloc) (.perform not_false)
      intro null
      split
      · trivial
      split
      · trivial
      apply (findBadBlocks_elsewhere ..).bind
      intro blocks
      split
      · trivial
      apply Program.All.bind (p := Drv.delIdInfo ..) (.perform not_false)
      intro found
      cases found with
      | none => trivial
      | some info =>
          apply (channelOp_elsewhere ..).bind
          intro ret
          split
          · exact (setIdInfo_elsewhere ..).bind fun _ => trivial
          · exact (deleteLogicBlock_elsewhere _).bind fun _ => markBadTables_elsewhere ..

theorem request_elsewhere (job : CountRequest) (away : ¬ job.WorksOn c) : job.run.All (Elsewhere c) := by
  cases job with
  | «open» => exact absurd trivial away
  | write p =>
      show (ssdIdWrite p).All _
      rw [ssdIdWrite]
      split
      · exact withSema_elsewhere (ssdIdWriteBody_elsewhere away _ p)
      split
      · exact withSema_elsewhere (ssdIdWriteBody_elsewhere away _ p)
      · trivial
  | delete id => exact withSema_elsewhere (ssdIdDeleteBody_elsewhere away id)
  | markBad id => exact withSema_elsewhere (markBadId_elsewhere _ id)

/-- Every action has an answer that is to be expected. -/
theorem exists_expected (a : Act) : ∃ r, (freeDues c).expects a r := by
  cases a with
  | chan c' a =>
      cases a with
      | await => exact ⟨(0 : Int), trivial⟩
      | copyFromUser => exact ⟨false, trivial⟩
      | copyToUser => exact ⟨none, trivial⟩
      | readKbuf => exact ⟨fun _ => 0, trivial⟩
      | getIdInfo => exact ⟨none, trivial⟩
      | setIdInfo => exact ⟨(0 : Int), trivial⟩
      | delIdInfo => exact ⟨none, nofun⟩
      | copyBucket => exact ⟨[], nofun⟩
      | space => exact ⟨(0 : Int), trivial⟩
      | _ => exact ⟨(), trivial⟩
  | getOpened => exact ⟨false, trivial⟩
  | getMeta => exact ⟨emptyDevice.metadata, trivial⟩
  | getMetaPos => exact ⟨emptyDevice.metaPos, trivial⟩
  | readFlush => exact ⟨fun _ => 0, trivial⟩
  | copyFlushToUser => exact ⟨none, trivial⟩
  | copyParam => exact ⟨false, trivial⟩
  | kmalloc => exact ⟨false, trivial⟩
  | gettime => exact ⟨0, trivial⟩
  | _ => exact ⟨(), trivial⟩

theorem withSema_owes {α : Type} {c' : Nat} {body : Drv α} (owes : (Drv.withSema c' body).Owes (freeDues c)) :
    (body >>= fun ret => Drv.up c' >>= fun _ => pure ret).Owes (freeDues c) := by
  rcases owes with restores | owes
  · exact restores.elim
  · exact owes () trivial

/-- A request that has not begun owes nothing. -/
theorem request_owes_nothing (job : CountRequest) : ¬ job.run.Owes (freeDues c) := by
  intro owes
  -- where the id is known, a write does nothing
  have write : ∀ channel type p, ¬ (Drv.withSema channel (ssdIdWriteBody channel type p)).Owes (freeDues c) := by
    intro channel type p owes
    rcases withSema_owes owes with restores | owes
    · exact restores
    · rcases owes (some (.at 0 0 type)) trivial with restores | owes
      · exact restores
      · exact owes () trivial
  cases job with
  | «open» =>
      rcases owes with restores | owes
      · exact restores
      · exact owes true trivial
  | write p =>
      change (ssdIdWrite p).Owes _ at owes
      rw [ssdIdWrite] at owes
      split at owes
      · exact write _ _ _ owes
      split at owes
      · exact write _ _ _ owes
      · exact owes
  | delete id =>
      have unknown : (freeDues c).expects (.chan (id2channel id) (.delIdInfo id)) none := by
        intro info found
        cases found
      rcases withSema_owes owes with restores | owes
      · exact restores
      · rcases owes none unknown with restores | owes
        · exact restores
        · exact owes () trivial
  | markBad id =>
      rcases withSema_owes owes with restores | owes
      · exact restores
      · rcases owes none trivial with restores | owes
        · exact restores
        · exact owes () trivial

end Idle

/-! ## Runs -/

/-- Threads that open the card, write, delete and mark blocks bad. -/
abbrev CountSystem := Pool Act Act.Reply CountRequest Int Device

/-- Every node is in its own table, what is shown are the free counts, and every thread is
about to begin. -/
structure CountAtRest (p : CountSystem) : Prop where
  own : OwnNodes p.state
  published : ∀ c < ssdMaxChannel, Published c p.state
  begins : ∀ t, p.prog t = (p.job t).run

/-- No operation is in progress on the channel: every thread has finished or not begun, or
works on another one. -/
def IdleOn (c : Nat) (p : CountSystem) : Prop :=
  ∀ t, (∃ ret, p.prog t = .pure ret) ∨ p.prog t = (p.job t).run ∨ ¬ (p.job t).WorksOn c

/-- The runs whose steps are permitted. -/
abbrev CountRun (permitted : CountRequest → Act → Prop) : CountSystem → CountSystem → Prop :=
  Pool.Reachable Device.perform (fun j _ a _ => permitted j a) CountRequest.run

theorem request_pays {c : Nat} (inside : c < ssdMaxChannel) (job : CountRequest) :
    job.run.Pays (freeDues c) (keepsBlocks job) := by
  cases job with
  | «open» => exact ssdSysOpen_pays inside
  | write p => exact ssdIdWrite_pays (fun _ => id) p
  | delete id => exact ssdIdDelete_pays id
  | markBad i => exact ssdMarkBadBlock_pays (fun _ => id) i

/-- **What is shown is the free count** of every idle channel, as long as no write and no
mark-bad gives blocks back. -/
theorem published_unless_given_back {p q : CountSystem} (rest : CountAtRest p) (run : CountRun keepsBlocks p q) :
    ∀ c < ssdMaxChannel, IdleOn c q → Published c q.state := by
  intro c inside idle
  have start : p.Settled (freeDues c) keepsBlocks OwnNodes (Published c) := by
    constructor
    · exact rest.own
    · exact .inl (rest.published c inside)
    · intro t
      rw [rest.begins]
      exact request_pays inside _
  have settled := start.run (freeDues_sound c) (request_pays inside) run
  rcases settled.agrees with published | ⟨t, owes⟩
  · exact published
  exfalso
  rcases idle t with ⟨ret, finished⟩ | begins | away
  · rw [finished] at owes
    exact owes
  · rw [begins] at owes
    exact request_owes_nothing _ owes
  · have each : ∀ j : CountRequest, j.run.All fun a => ¬ j.WorksOn c → Elsewhere c a := by
      intro j
      by_cases works : j.WorksOn c
      · exact .of_forall (fun _ away => absurd works away) _
      · exact (request_elsewhere j works).mono fun _ elsewhere _ => elsewhere
    have all := Pool.Reachable.all each (fun t => by rw [rest.begins]; exact each _) run t
    exact owes.restores exists_expected (all.mono fun _ elsewhere => elsewhere away)

/-! ## A first write -/

/-- A channel without ids, as an open leaves it. -/
def settledChannel : Channel := { emptyChannel with
  space := filled 0 0 600 8000
  stat := ⟨0, 0, 0, 8000⟩ }

def settledDevice : Device := { emptyDevice with ch := fun _ => settledChannel }

def oneBlock : WriteParam := ⟨⟨0, 0⟩, fun _ => 7, 1⟩

/-- The settled card, with every thread about to write a first id. -/
def settledSystem : CountSystem :=
  ⟨settledDevice, fun _ => .write oneBlock, fun _ => (CountRequest.write oneBlock).run⟩

theorem settled_atRest : CountAtRest settledSystem :=
  ⟨fun _ _ _ member => absurd member List.not_mem_nil, fun _ _ => rfl, fun _ => rfl⟩

/-- Actions on an allocator. -/
def OnSpace : Act → Prop
  | .chan _ (.space _) => True
  | _ => False

theorem not_givesBack {a : Act} (other : ¬ OnSpace a) : ¬ GivesBack a := by
  intro gives
  obtain ⟨info, rfl⟩ := gives
  exact other trivial

/-- Taking blocks gives none back. -/
theorem alloc_not_givesBack (c : Nat) (type : BlockType) :
    ¬ GivesBack (.chan c (.space fun s => ssdAllocLogicBlock s type)) := by
  rintro ⟨info, same⟩
  injection same with _ same
  injection same with same
  have here := congrFun same (filled 0 0 600 8000)
  cases type with
  | iblock =>
      rw [filled_unit (by decide)] at here
      injection here with here
      have free := congrArg (fun r => r.2.freeBlocks) here
      have positive := info.len.size_pos
      simp only [filled, deleteLogicBlock] at free
      omega
  | dblock =>
      rw [filled_head (by decide)] at here
      injection here with here
      have free := congrArg (fun r => r.2.freeBlocks) here
      have positive := info.len.size_pos
      simp only [filled, deleteLogicBlock] at free
      omega

/-- The write takes block 0, and gives it back when the copy from the user faults. -/
theorem firstWrite_leads (faults : Bool) {may : May} (allowed : ∀ d a o, faults = true ∨ ¬ GivesBack a → may d a o) :
    Leads (Device.perform 0) may (fun q d => (∃ ret, q = .pure ret) ∧ (d.ch 0).stat.freeBlocks = 7999 ∧
      (d.ch 0).space.freeBlocks = cond faults 8000 7999) (ssdIdWrite oneBlock) settledDevice := by
  have quiet : ∀ {a : Act} o, ¬ OnSpace a → ∀ d, may d a o := by
    intro a o other d
    apply allowed
    exact .inr (not_givesBack other)
  have body : ssdIdWrite oneBlock = Drv.withSema 0 (ssdIdWriteBody 0 .iblock oneBlock) := by
    rw [ssdIdWrite, if_pos (show oneBlock.len = BlockType.iblock.size from rfl)]
    rfl
  have alloc : ssdAllocLogicBlock settledChannel.space .iblock = some (0, filled 1 0 600 7999) :=
    filled_unit (by decide)
  have start : settledDevice = settledDevice.setCh 0 settledChannel := (Device.setCh_self settledDevice 0).symm
  rw [body, start]
  refine device_leads_down succeeds (quiet _ id) rfl ?_
  refine device_leads_chan succeeds (quiet _ id) (r := none) rfl ?_
  refine device_leads_chan succeeds (fun d => allowed _ _ _ (.inr (alloc_not_givesBack _ _))) (r := (0 : Int))
    (k := { settledChannel with sema := some 0, space := filled 1 0 600 7999 }) ?_ ?_
  · simp only [Channel.perform, alloc]
    rfl
  dsimp only [Program.bind]
  rw [if_neg (by decide)]
  refine device_leads_chan succeeds (quiet _ id) rfl (device_leads_chan succeeds (quiet _ id) rfl ?_)
  refine device_leads_chan { succeeds with failed := faults } (quiet _ id) (r := faults) rfl ?_
  cases faults with
  | true =>
      refine device_leads_chan succeeds (fun d => allowed _ _ _ (.inl rfl)) (r := ssdOk) rfl ?_
      refine device_leads_up succeeds (quiet _ id) (Leads.here ⟨⟨_, rfl⟩, ?_⟩)
      rw [Device.setCh_ch_same]
      exact ⟨rfl, rfl⟩
  | false =>
      refine device_leads_chan succeeds (quiet _ id) rfl ?_
      refine device_leads_chan succeeds (quiet _ id) (r := ssdOk) rfl ?_
      refine device_leads_chan succeeds (quiet _ id) (r := ssdOk) rfl ?_
      refine device_leads_up succeeds (quiet _ id) (Leads.here ⟨⟨_, rfl⟩, ?_⟩)
      rw [Device.setCh_ch_same]
      exact ⟨rfl, rfl⟩

/-- What thread 0 does from there. -/
theorem settled_run {permitted : CountRequest → Act → Prop} {P : Drv Int → Device → Prop}
    (leads : Leads (Device.perform 0) (fun _ a _ => permitted (.write oneBlock) a) P
    (ssdIdWrite oneBlock) settledDevice)
    (finishes : ∀ {prog d}, P prog d → ∃ ret, prog = .pure ret) :
    ∃ q : CountSystem, CountRun permitted settledSystem q ∧ IdleOn 0 q ∧ ∃ prog, P prog q.state := by
  obtain ⟨prog, d, reach, holds⟩ := leads
  refine ⟨_, Pool.reachable_of_reaches (t := 0) (p := settledSystem) reach, ?_, prog, holds⟩
  intro t
  by_cases first : t = 0
  · subst first
    obtain ⟨ret, rfl⟩ := finishes holds
    have here : Function.update settledSystem.prog 0 (.pure ret) 0 = .pure ret := Function.update_self ..
    exact .inl ⟨ret, here⟩
  · exact .inr (.inl (Function.update_of_ne first ..))

/-- A write that succeeds. -/
theorem first_write_published : CountAtRest settledSystem ∧ ∃ q, CountRun keepsBlocks settledSystem q ∧
    IdleOn 0 q ∧ Published 0 q.state ∧ (q.state.ch 0).space.freeBlocks = 7999 := by
  obtain ⟨q, run, idle, prog, -, -, free⟩ := @settled_run keepsBlocks _
    (firstWrite_leads false fun _ _ _ permitted => permitted.resolve_left Bool.false_ne_true) fun holds => holds.1
  exact ⟨settled_atRest, q, run, idle, published_unless_given_back settled_atRest run 0 (by decide) idle, free⟩

/-- **A write whose copy from the user faults** leaves a free count in `/proc` that is too small. -/
theorem failed_write_shows_less : CountAtRest settledSystem ∧
    ∃ q, CountRun (fun _ _ => True) settledSystem q ∧ IdleOn 0 q ∧ ¬ Published 0 q.state := by
  obtain ⟨q, run, idle, prog, -, shown, free⟩ := @settled_run (fun _ _ => True) _
    (firstWrite_leads true fun _ _ _ _ => trivial) fun holds => holds.1
  refine ⟨settled_atRest, q, run, idle, fun published => ?_⟩
  rw [Published, shown, free] at published
  exact absurd published (by decide)

end FpgaSsd.Theory
