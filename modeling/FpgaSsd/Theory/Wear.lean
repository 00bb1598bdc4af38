/-
# Theory.Wear — no block is programmed twice without an erase

A logical block is dirty from the WRITE command that covers it until an ERASE
command that covers it has returned `SSD_OK`. The dirty blocks are a history
variable of the card (`soil`), which no request reads.

* `Worn` — the partition, with the extents in hand that may be dirty: every
  other dirty block belongs to a node;
* `ssdIdWrite_worn`, `ssdIdDelete_worn`, `markBadId_worn` — the requests keep it;
* `writes_cover_clean_blocks` — every WRITE of a run covers clean blocks only, if
  no erase that a write issues fails;
* `failed_erase_is_reused` — one that fails puts a dirty block up for the next write.
-/
import FpgaSsd.Lib.History
import FpgaSsd.Theory.Partition

namespace FpgaSsd.Theory

open FpgaSsd.Lib FpgaSsd.Driver

set_option autoImplicit false

/-! ## Dirty blocks -/

/-- The dirty blocks of each channel. -/
abbrev Dirty := Nat → Set Nat

/-- The logical blocks with a page of a WRITE command. -/
def writtenBlocks (cmd : Command) : Set Nat :=
  {b | cmd.start < (b + 1) * ssdPagesPerBlock ∧ b * ssdPagesPerBlock < cmd.start + cmd.len}

/-- The logical blocks of an ERASE command. -/
def erasedBlocks (cmd : Command) : Set Nat := {b | cmd.start ≤ b ∧ b < cmd.start + cmd.len}

/-- What an action does to the dirty blocks. -/
def soil (a : Act) (r : a.Reply) (d _ : Device) (dirty : Dirty) : Dirty :=
  match a, r with
  | .chan c (.issue cmd), _ =>
      if (Command.ofWord cmd).flag = flagWrite then
        Function.update dirty c (dirty c ∪ writtenBlocks (Command.ofWord cmd))
      else dirty
  | .chan c .await, ret =>
      match (d.ch c).outstanding with
      | some cmd =>
          if (Command.ofWord cmd).flag = flagErase ∧ ret = ssdOk then
            Function.update dirty c (dirty c \ erasedBlocks (Command.ofWord cmd))
          else dirty
      | none => dirty
  | _, _ => dirty

/-- The card with its dirty blocks. -/
abbrev Tracked := Device × Dirty

abbrev track : Perform Act Act.Reply Tracked Outcome := recorded (Device.perform 0) soil

/-- Which outcomes an action may have. -/
abbrev TrackedMay := Tracked → Act → Outcome → Prop

/-- A WRITE command covers clean blocks only. -/
def CoversClean (s : Tracked) (a : Act) : Prop :=
  ∀ c cmd, a = .chan c (.issue cmd) → (Command.ofWord cmd).flag = flagWrite →
    Disjoint (writtenBlocks (Command.ofWord cmd)) (s.2 c)

/-- The triple of a program whose WRITE commands cover clean blocks. -/
abbrev Wears {α : Type} (may : TrackedMay) (p : Drv α) (post : α → Tracked → Prop)
    (s : Tracked) : Prop :=
  Safe track ⟨Eq, CoversClean, may⟩ p post s

namespace Wears

variable {α β : Type} {may : TrackedMay} {s : Tracked}

theorem pure {value : α} {post : α → Tracked → Prop} (holds : post value s) :
    Wears may (Program.pure value) post s := by
  intro s' same
  subst same
  exact holds

theorem seq {p : Drv α} {next : α → Drv β} {M : α → Tracked → Prop} {post : β → Tracked → Prop}
    (first : Wears may p M s) (rest : ∀ value s', M value s' → Wears may (next value) post s') :
    Wears may (p >>= next) post s :=
  Safe.seq ⟨fun _ => rfl, Eq.trans⟩ first rest

theorem perform {a : Act} {post : a.Reply → Tracked → Prop} (clean : CoversClean s a)
    (each : ∀ o r d', may s a o → s.1.perform 0 a o = some (r, d') →
      post r (d', soil a r s.1 d' s.2)) : Wears may (Program.perform a) post s := by
  intro s' same
  subst same
  refine ⟨clean, fun o r s' allowed step => ?_⟩
  obtain ⟨acted, dirty⟩ := recorded_eq_some.1 step
  apply pure
  have holds := each o r s'.1 allowed acted
  rw [← dirty] at holds
  exact holds

end Wears

/-! ## The invariant -/

/-- Blocks that are dirty are in a node or in hand, in an extent of `soiled`. -/
def DirtyOwned (soiled : Nat → List Extent) (l : Ledger) (dirty : Dirty) : Prop :=
  ∀ c, c < ssdMaxChannel → ∀ b, b < ssdMaxVirblocksPerChannel → b ∈ dirty c →
    ∃ e ∈ soiled c ++ extentsOf (l c).2, b ∈ e.blocks

/-- The partition of the channels, with the extents in hand that may be dirty. -/
structure Worn (pending soiled : Nat → List Extent) (s : Tracked) : Prop where
  inv : Inv pending (ledger s.1)
  owned : DirtyOwned soiled (ledger s.1) s.2

theorem DirtyOwned.mono {soiled soiled' : Nat → List Extent} {l : Ledger} {dirty dirty' : Dirty}
    (owned : DirtyOwned soiled l dirty) (more : ∀ c, soiled c ⊆ soiled' c)
    (fewer : ∀ c, dirty' c ⊆ dirty c) : DirtyOwned soiled' l dirty' := by
  intro c inside b below isDirty
  obtain ⟨e, member, covers⟩ := owned c inside b below (fewer c isDirty)
  refine ⟨e, ?_, covers⟩
  rw [List.mem_append] at member ⊢
  exact member.imp (fun here => more c here) id

section Clean

variable {s : Tracked} {c : Nat} {e : Extent}

/-- The extent in hand is clean when it must be. -/
theorem Worn.clean (worn : Worn (holding c e) idle s) (inside : c < ssdMaxChannel) :
    Disjoint e.blocks (s.2 c) := by
  have tiles := (worn.inv c inside).space.tiles
  rw [holding_self] at tiles
  refine Set.disjoint_left.2 fun b here isDirty => ?_
  have below : b < ssdMaxVirblocksPerChannel :=
    tiles.lt (List.mem_append_right _ (List.mem_cons_self ..)) here
  obtain ⟨e', member, covers⟩ := worn.owned c inside b below isDirty
  have apart := tiles.separate.append_right
  rw [List.singleton_append] at apart
  exact Set.disjoint_left.1 ((List.pairwise_cons.1 apart.pairwise).1 e' member) here covers

/-- Free blocks are clean when nothing is in hand. -/
theorem Worn.free_clean (worn : Worn idle idle s) (inside : c < ssdMaxChannel) {b : Nat}
    (free : ∃ blocks ∈ freeSets (s.1.ch c).space, b ∈ blocks) : b ∉ s.2 c := by
  intro isDirty
  have ok := (worn.inv c inside).space
  have tiles := ok.tiles
  obtain ⟨e, member, covers⟩ := (mem_freeSets ok).1 free
  have below := tiles.lt (List.mem_append_left _ member) covers
  obtain ⟨e', member', covers'⟩ := worn.owned c inside b below isDirty
  exact tiles.separate.disjoint_append member member' covers covers'

end Clean

/-! ## Actions -/

section Actions

variable {may : TrackedMay} {s : Tracked} {c : Nat}

/-- A step of the card, as the triples of one thread see it. -/
theorem Holds.step {a : Act} {post : a.Reply → Device → Prop} {d d' : Device} {o : Outcome}
    {r : a.Reply} (holds : Holds anyOutcome (Program.perform a) post d)
    (step : d.perform 0 a o = some (r, d')) : post r d' :=
  holds.runs (.act trivial step (.pure r d'))

/-- Actions that move no block and issue neither a WRITE nor an ERASE. -/
def Harmless (a : Act) : Prop :=
  Act.Neutral a ∧ ∀ c cmd, a = .chan c (.issue cmd) →
    (Command.ofWord cmd).flag ≠ flagWrite ∧ (Command.ofWord cmd).flag ≠ flagErase

/-- What is not issued as a WRITE makes nothing dirty. -/
theorem soil_subset {a : Act} {r : a.Reply} {d d' : Device} {dirty : Dirty}
    (still : ∀ c cmd, a = .chan c (.issue cmd) → (Command.ofWord cmd).flag ≠ flagWrite) (c : Nat) :
    soil a r d d' dirty c ⊆ dirty c := by
  cases a with
  | chan c' a =>
      cases a with
      | issue cmd =>
          simp only [soil]
          rw [if_neg (still c' cmd rfl)]
      | await =>
          simp only [soil]
          cases (d.ch c').outstanding with
          | none => exact Set.Subset.rfl
          | some cmd =>
              dsimp only
              split_ifs
              · intro b member
                by_cases same : c = c'
                · subst same
                  rw [Function.update_self] at member
                  exact member.1
                · rwa [Function.update_of_ne same] at member
              · exact Set.Subset.rfl
      | _ => exact Set.Subset.rfl
  | _ => exact Set.Subset.rfl

/-- Harmless programs keep the invariant and the ledger. -/
theorem harmless_still {α : Type} {p : Drv α} {pending soiled : Nat → List Extent}
    (all : p.All Harmless) (worn : Worn pending soiled s) :
    Wears may p (fun _ s' => Worn pending soiled s' ∧ ledger s'.1 = ledger s.1) s := by
  refine Safe.all (I := fun s' => Worn pending soiled s' ∧ ledger s'.1 = ledger s.1)
    (fun s1 s2 moved now => ?_) (fun s' a harmless _ => ?_)
    (fun a o s1 r s2 harmless _ step now => ?_) all ⟨worn, rfl⟩
  · have same : s1 = s2 := moved
    rwa [← same]
  · intro c cmd named isWrite
    exact absurd isWrite (harmless.2 c cmd named).1
  · obtain ⟨acted, dirty⟩ := recorded_eq_some.1 step
    have same := act_neutral harmless.1 acted
    refine ⟨⟨same ▸ now.1.inv, ?_⟩, same.trans now.2⟩
    rw [same, dirty]
    exact now.1.owned.mono (fun _ => List.Subset.refl _)
      (soil_subset fun c cmd named => (harmless.2 c cmd named).1)

theorem harmless_worn {α : Type} {p : Drv α} {pending soiled : Nat → List Extent}
    (all : p.All Harmless) (worn : Worn pending soiled s) :
    Wears may p (fun _ s' => Worn pending soiled s') s :=
  (harmless_still all worn).weaken fun _ _ after => after.1

/-- A lookup finds what the ledger holds. -/
theorem getIdInfo_worn {id : BlockId} (worn : Worn idle idle s) :
    Wears may (Drv.getIdInfo c id) (fun known s' =>
      known = lookup ((ledger s.1 c).2 (idHash id)).first id ∧ Worn idle idle s' ∧
        ledger s'.1 = ledger s.1) s := by
  refine Wears.perform (fun c' cmd named => by cases named) fun o r d' _ step => ?_
  have same := act_neutral (a := .chan c (.getIdInfo id)) trivial step
  cases step
  refine ⟨rfl, ⟨same ▸ worn.inv, ?_⟩, same⟩
  rw [same]
  exact worn.owned

/-- The allocator is not in the way of what nodes own. -/
theorem DirtyOwned.space {soiled : Nat → List Extent} {d d' : Device} {dirty : Dirty}
    {f : ChannelSpace → Option (Int × ChannelSpace)} {o : Outcome} {r : Int}
    (owned : DirtyOwned soiled (ledger d) dirty)
    (step : d.perform 0 (.chan c (.space f)) o = some (r, d')) :
    DirtyOwned soiled (ledger d') dirty := by
  obtain ⟨⟨r', ch⟩, acted, eq⟩ := Option.map_eq_some_iff.1 step
  cases eq
  obtain ⟨⟨ret, space⟩, -, eq⟩ := Option.map_eq_some_iff.1 acted
  cases eq
  intro c' inside b below isDirty
  have before := owned c' inside b below isDirty
  rw [ledger_setCh]
  by_cases same : c' = c
  · subst same
    rwa [Function.update_self]
  · rwa [Function.update_of_ne same]

/-- An allocation takes free blocks, which are clean. -/
theorem allocLogicBlock_worn (worn : Worn idle idle s) (inside : c < ssdMaxChannel)
    (t : BlockType) : Wears may (Drv.allocLogicBlock c t) (fun index s' =>
      (index = -errAllocBlock ∧ Worn idle idle s') ∨
        ∃ i : Nat, index = i ∧ i + t.size ≤ ssdMaxVirblocksPerChannel ∧
          Worn (holding c ⟨i, t.size⟩) idle s') s := by
  refine Wears.perform (fun c' cmd named => by cases named) fun o r d' _ step => ?_
  have owned := worn.owned.space step
  rcases Holds.step (allocLogicBlock_inv worn.inv inside t) step with
    ⟨failed, inv'⟩ | ⟨i, found, fits, inv'⟩
  · exact .inl ⟨failed, inv', owned⟩
  · exact .inr ⟨i, found, fits, inv', owned⟩

/-- A clean extent in hand returns to the bitmaps. -/
theorem deleteLogicBlock_worn {info : IdInfo} (own : info.channel.val = c)
    (worn : Worn (holding c info.extent) idle s) (inside : c < ssdMaxChannel) :
    Wears may (Drv.deleteLogicBlock info) (fun _ s' => Worn idle idle s') s := by
  refine Wears.seq (M := fun _ s' => Worn idle idle s') ?_ fun _ s' after => Wears.pure after
  refine Wears.perform (fun c' cmd named => by cases named) fun o r d' _ step => ?_
  have spec : Holds anyOutcome (Drv.deleteLogicBlock info) _ s.1 :=
    deleteLogicBlock_inv own worn.inv inside
  exact ⟨spec.runs (.act trivial step (.pure () d')), worn.owned.space step⟩

/-- The extent in hand becomes the extent of a node, dirty or not. -/
theorem setIdInfo_worn {id : BlockId} {info : IdInfo} (own : info.channel.val = c)
    (worn : Worn (holding c info.extent) (holding c info.extent) s) (inside : c < ssdMaxChannel) :
    Wears may (Drv.setIdInfo id info) (fun ret s' => ret = ssdOk ∧ Worn idle idle s') s := by
  refine Wears.perform (fun c' cmd named => by cases named) fun o r d' _ step => ?_
  have spec : Holds anyOutcome (Drv.setIdInfo id info) _ s.1 := setIdInfo_inv own worn.inv inside
  obtain ⟨ok, inv'⟩ := Holds.step spec step
  refine ⟨ok, inv', fun c' inside' b below isDirty => ?_⟩
  have before := worn.owned c' inside' b below isDirty
  subst own
  obtain ⟨⟨r', ch⟩, acted, eq⟩ := Option.map_eq_some_iff.1 step
  cases eq
  simp only [Channel.perform] at acted
  split at acted
  · cases acted
  cases acted
  rw [ledger_setCh]
  by_cases same : c' = info.channel.val
  · subst same
    rw [holding_self] at before
    rw [Function.update_self]
    have perm := extentsOf_perm (nodesOf_insert (h := (s.1.ch info.channel.val).hash)
      (idHash_lt id) ⟨id, info⟩)
    obtain ⟨e, member, covers⟩ := before
    exact ⟨e, perm.mem_iff.2 member, covers⟩
  · rw [holding_other same] at before
    rwa [Function.update_of_ne same]

/-- A node that is unlinked leaves its extent in hand, dirty or not. -/
theorem delIdInfo_worn {id : BlockId} (worn : Worn idle idle s) (inside : c < ssdMaxChannel) :
    Wears may (Drv.delIdInfo c id) (fun found s' =>
      found = lookup ((ledger s.1 c).2 (idHash id)).first id ∧ match found with
      | none => Worn idle idle s'
      | some info => info.channel.val = c ∧
          Worn (holding c info.extent) (holding c info.extent) s') s := by
  refine Wears.perform (fun c' cmd named => by cases named) fun o r d' _ step => ?_
  have spec : Holds anyOutcome (Drv.delIdInfo c id) _ s.1 := delIdInfo_inv worn.inv inside
  have after := Holds.step spec step
  obtain ⟨⟨r', ch⟩, acted, eq⟩ := Option.map_eq_some_iff.1 step
  cases eq
  simp only [Channel.perform] at acted
  split at acted
  · rename_i none
    cases acted
    refine ⟨none.symm, after, ?_⟩
    rw [ledger_setCh_same rfl rfl]
    exact worn.owned
  rename_i info found
  cases acted
  refine ⟨found.symm, after.1, after.2, fun c' inside' b below isDirty => ?_⟩
  have before := worn.owned c' inside' b below isDirty
  rw [ledger_setCh]
  by_cases same : c' = c
  · subst same
    rw [holding_self, Function.update_self]
    obtain ⟨e, member, covers⟩ := before
    exact ⟨e, (extentsOf_perm (nodesOf_delete found)).mem_iff.1 member, covers⟩
  · rwa [holding_other same, Function.update_of_ne same]

end Actions

/-! ## Commands -/

/-- ERASE commands return `SSD_OK`. -/
def erasesSucceed : May := fun d a o =>
  ∀ c cmd, a = .chan c .await → (d.ch c).outstanding = some cmd →
    (Command.ofWord cmd).flag = flagErase → o.ret = .ok

/-- `may` lets no ERASE command fail. -/
def ErasesSucceed (may : TrackedMay) : Prop := ∀ s a o, may s a o → erasesSucceed s.1 a o

/-- The dirty blocks after a command with its return value. -/
def soilOp (c : Nat) (cmd : Command) (ret : Int) (dirty : Dirty) : Dirty :=
  if cmd.flag = flagWrite then Function.update dirty c (dirty c ∪ writtenBlocks cmd)
  else if cmd.flag = flagErase ∧ ret = ssdOk then
    Function.update dirty c (dirty c \ erasedBlocks cmd)
  else dirty

section Commands

variable {may : TrackedMay} {s : Tracked} {c : Nat}

theorem channelOp_wears {cmd : Nat} (clean : CoversClean s (.chan c (.issue cmd))) :
    Wears may (channelOp c cmd) (fun ret s' => ledger s'.1 = ledger s.1 ∧
      s'.2 = soilOp c (Command.ofWord cmd) ret s.2 ∧
      (ErasesSucceed may → (Command.ofWord cmd).flag = flagErase → ret = ssdOk)) s := by
  refine Wears.seq (M := fun _ s1 => ledger s1.1 = ledger s.1 ∧
    (s1.1.ch c).outstanding = some cmd ∧ s1.2 = soil (.chan c (.issue cmd)) () s.1 s1.1 s.2) ?_ ?_
  · refine Wears.perform clean fun o r d' _ step =>
      ⟨act_neutral (a := .chan c (.issue cmd)) trivial step, ?_, rfl⟩
    cases step
    rw [Device.setCh_ch_same]
  · intro _ s1 issued
    obtain ⟨same, out, dirty⟩ := issued
    refine Wears.perform (fun c' cmd named => by cases named) fun o r d' allowed step => ?_
    have answer : r = o.ret.toInt := by
      obtain ⟨⟨r', ch⟩, acted, eq⟩ := Option.map_eq_some_iff.1 step
      cases eq
      obtain ⟨-, -, -, -, -, ret, -⟩ := Channel.perform_await acted
      exact ret
    refine ⟨(act_neutral (a := .chan c .await) trivial step).trans same, ?_, fun sure isErase => ?_⟩
    · simp only [soil, out, dirty, soilOp]
      split_ifs with erased isWrite
      · rw [isWrite] at erased
        exact absurd erased.1 (by decide)
      all_goals rfl
    · rw [answer, sure s1 _ o allowed c cmd rfl out isErase]
      rfl

variable {i : Nat} {t : BlockType}

theorem decode_write (fits : i + t.size ≤ ssdMaxVirblocksPerChannel) :
    Command.ofWord (cmdValue (i * ssdPagesPerBlock) (t.size * ssdPagesPerBlock) flagWrite) =
      ⟨i * ssdPagesPerBlock, t.size * ssdPagesPerBlock, flagWrite⟩ := by
  have size := t.size_le
  simp only [ssdMaxVirblocksPerChannel] at fits
  apply decode_cmdValue
  · simp only [ssdPagesPerBlock]; omega
  · simp only [ssdPagesPerBlock]; omega
  · decide

theorem decode_erase (fits : i + t.size ≤ ssdMaxVirblocksPerChannel) :
    Command.ofWord (cmdValue i t.size flagErase) = ⟨i, t.size, flagErase⟩ := by
  have size := t.size_le
  simp only [ssdMaxVirblocksPerChannel] at fits
  apply decode_cmdValue
  · omega
  · omega
  · decide

theorem mem_writtenBlocks {len b : Nat} :
    b ∈ writtenBlocks ⟨i * ssdPagesPerBlock, len * ssdPagesPerBlock, flagWrite⟩ ↔
      b ∈ Extent.blocks ⟨i, len⟩ := by
  simp only [writtenBlocks, Set.mem_ofPred_eq, Extent.mem_blocks, ssdPagesPerBlock]
  omega

/-- A WRITE over a clean extent in hand. -/
theorem write_worn (worn : Worn (holding c ⟨i, t.size⟩) idle s) (inside : c < ssdMaxChannel)
    (fits : i + t.size ≤ ssdMaxVirblocksPerChannel) :
    Wears may (channelOp c (cmdValue (i * ssdPagesPerBlock) (t.size * ssdPagesPerBlock) flagWrite))
      (fun _ s' => Worn (holding c ⟨i, t.size⟩) (holding c ⟨i, t.size⟩) s') s := by
  have clean := worn.clean inside
  refine (channelOp_wears fun c' cmd named isWrite => ?_).weaken fun ret s' after => ?_
  · obtain ⟨rfl, eq⟩ := Act.chan.inj named
    cases eq_of_heq (heq_of_eq eq)
    rw [decode_write fits]
    exact Set.disjoint_left.2 fun b here => Set.disjoint_left.1 clean (mem_writtenBlocks.1 here)
  · obtain ⟨same, dirty, -⟩ := after
    refine ⟨same ▸ worn.inv, fun c' inside' b below isDirty => ?_⟩
    rw [same]
    rw [dirty, decode_write fits, soilOp, if_pos rfl] at isDirty
    by_cases here : c' = c
    · subst here
      rw [Function.update_self] at isDirty
      rw [holding_self]
      rcases isDirty with old | new
      · obtain ⟨e, member, covers⟩ := worn.owned c' inside' b below old
        exact ⟨e, List.mem_append_right _ member, covers⟩
      · exact ⟨_, List.mem_append_left _ (List.mem_singleton_self _), mem_writtenBlocks.1 new⟩
    · rw [Function.update_of_ne here] at isDirty
      rw [holding_other here]
      exact worn.owned c' inside' b below isDirty

/-- An ERASE of the extent in hand cleans it when it succeeds. -/
theorem erase_worn (worn : Worn (holding c ⟨i, t.size⟩) (holding c ⟨i, t.size⟩) s)
    (fits : i + t.size ≤ ssdMaxVirblocksPerChannel) :
    Wears may (channelOp c (cmdValue i t.size flagErase)) (fun ret s' =>
      Worn (holding c ⟨i, t.size⟩) (if ret = ssdOk then idle else holding c ⟨i, t.size⟩) s' ∧
        (ErasesSucceed may → ret = ssdOk)) s := by
  have word := decode_erase fits
  have notWrite : flagErase ≠ flagWrite := by decide
  refine (channelOp_wears fun c' cmd named isWrite => ?_).weaken fun ret s' after => ?_
  · obtain ⟨rfl, eq⟩ := Act.chan.inj named
    cases eq_of_heq (heq_of_eq eq)
    rw [word] at isWrite
    exact absurd isWrite notWrite
  · obtain ⟨same, dirty, sure⟩ := after
    rw [word] at dirty sure
    refine ⟨⟨same ▸ worn.inv, fun c' inside' b below isDirty => ?_⟩, fun all => sure all rfl⟩
    rw [same]
    rw [dirty, soilOp, if_neg notWrite] at isDirty
    by_cases ok : ret = ssdOk
    · rw [if_pos ⟨rfl, ok⟩] at isDirty
      rw [if_pos ok]
      by_cases here : c' = c
      · subst here
        rw [Function.update_self] at isDirty
        obtain ⟨e, member, covers⟩ := worn.owned c' inside' b below isDirty.1
        rw [holding_self] at member
        rcases List.mem_cons.1 member with erased | old
        · subst erased
          exact absurd covers isDirty.2
        · exact ⟨e, old, covers⟩
      · rw [Function.update_of_ne here] at isDirty
        have before := worn.owned c' inside' b below isDirty
        rwa [holding_other here] at before
    · rw [if_neg fun both => ok both.2] at isDirty
      rw [if_neg ok]
      exact worn.owned c' inside' b below isDirty

end Commands

/-! ## Requests -/

section Requests

variable {may : TrackedMay} {s : Tracked} {c : Nat}

/-- Commands that neither write nor erase logical blocks. -/
theorem channelOp_harmless {cmd : Nat} (write : (Command.ofWord cmd).flag ≠ flagWrite)
    (erase : (Command.ofWord cmd).flag ≠ flagErase) : (channelOp c cmd).All Harmless := by
  refine ⟨⟨trivial, fun c' cmd' named => ?_⟩, fun _ => ⟨⟨trivial, nofun⟩, fun _ => trivial⟩⟩
  obtain ⟨-, eq⟩ := Act.chan.inj named
  cases eq_of_heq (heq_of_eq eq)
  exact ⟨write, erase⟩

theorem withSema_worn {α : Type} {body : Drv α} (worn : Worn idle idle s)
    (spec : ∀ s', Worn idle idle s' → Wears may body (fun _ s'' => Worn idle idle s'') s') :
    Wears may (Drv.withSema c body) (fun _ s' => Worn idle idle s') s := by
  refine Wears.seq (harmless_worn ⟨⟨trivial, nofun⟩, fun _ => trivial⟩ worn) fun _ s1 worn1 => ?_
  refine Wears.seq (spec s1 worn1) fun ret s2 worn2 => ?_
  refine Wears.seq (harmless_worn ⟨⟨trivial, nofun⟩, fun _ => trivial⟩ worn2) fun _ s3 worn3 => ?_
  exact Wears.pure worn3

/-- The retries leave a dirty extent behind a success and a clean one behind a failure. -/
theorem writeRetry_worn (sure : ErasesSucceed may) (inside : c < ssdMaxChannel) {i : Nat}
    {t : BlockType} (fits : i + t.size ≤ ssdMaxVirblocksPerChannel) (n : Nat) {ret : Int}
    (worn : Worn (holding c ⟨i, t.size⟩) idle s) (again : n = 0 → ret ≠ ssdOk) :
    Wears may (writeRetry c (cmdValue (i * ssdPagesPerBlock) (t.size * ssdPagesPerBlock) flagWrite)
        (cmdValue i t.size flagErase) n ret)
      (fun ret s' => Worn (holding c ⟨i, t.size⟩)
        (if ret = ssdOk then holding c ⟨i, t.size⟩ else idle) s') s := by
  induction n generalizing s ret with
  | zero =>
      apply Wears.pure
      rwa [if_neg (again rfl)]
  | succ n ih =>
      refine Wears.seq (write_worn worn inside fits) fun ret s1 worn1 => ?_
      split
      · rename_i ok
        apply Wears.pure
        rwa [if_pos ok]
      rename_i failed
      refine Wears.seq (erase_worn worn1 fits) fun erased s2 after => ?_
      obtain ⟨worn2, succeeds⟩ := after
      rw [if_pos (succeeds sure)] at worn2
      rw [if_neg (not_not.2 (succeeds sure))]
      exact ih worn2 fun _ => failed

theorem ssdIdWriteBody_worn (sure : ErasesSucceed may) (inside : c < ssdMaxChannel)
    (t : BlockType) (p : WriteParam) (len : p.len = t.size) (worn : Worn idle idle s) :
    Wears may (ssdIdWriteBody c t p) (fun _ s' => Worn idle idle s') s := by
  refine Wears.seq (harmless_worn ⟨⟨trivial, nofun⟩, fun _ => trivial⟩ worn) fun known s1 worn1 => ?_
  split
  · exact Wears.pure worn1
  refine Wears.seq (allocLogicBlock_worn worn1 inside t) fun index s2 answer => ?_
  rcases answer with ⟨rfl, worn2⟩ | ⟨i, rfl, fits, worn2⟩
  · rw [if_pos (.inl rfl)]
    exact Wears.pure worn2
  have below := t.size_pos
  rw [if_neg (by simp only [errAllocBlock, ssdMaxVirblocksPerChannel] at fits ⊢; omega), len]
  have own := IdInfo.at_channel inside (i : Int).toNat t
  have extent := IdInfo.at_extent c fits
  simp only [Int.toNat_natCast] at own ⊢
  have release : ∀ s', Worn (holding c ⟨i, t.size⟩) idle s' →
      Wears may (Drv.deleteLogicBlock (IdInfo.at c i t)) (fun _ s'' => Worn idle idle s'') s' :=
    fun s' worn' => deleteLogicBlock_worn own (extent ▸ worn') inside
  -- the counters and the copy from the user touch no block
  refine Wears.seq (harmless_worn ⟨⟨trivial, nofun⟩, fun _ => trivial⟩ worn2) fun _ s3 worn3 => ?_
  refine Wears.seq (harmless_worn ⟨⟨trivial, nofun⟩, fun _ => trivial⟩ worn3) fun _ s4 worn4 => ?_
  refine Wears.seq (harmless_worn ⟨⟨trivial, nofun⟩, fun _ => trivial⟩ worn4) fun failed s5 worn5 => ?_
  split
  · exact Wears.seq (release s5 worn5) fun _ s6 worn6 => Wears.pure worn6
  refine Wears.seq (writeRetry_worn sure inside fits 5 worn5 nofun) fun ret s6 worn6 => ?_
  split
  · rename_i failed
    rw [if_neg failed] at worn6
    exact Wears.seq (release s6 worn6) fun _ s7 worn7 => Wears.pure worn7
  rename_i ok
  rw [if_pos (not_not.1 ok), ← extent] at worn6
  refine Wears.seq (setIdInfo_worn own worn6 inside) fun ret s7 inserted => ?_
  obtain ⟨rfl, worn7⟩ := inserted
  rw [if_neg (by decide)]
  exact Wears.pure worn7

theorem ssdIdWrite_worn (sure : ErasesSucceed may) (p : WriteParam) (worn : Worn idle idle s) :
    Wears may (ssdIdWrite p) (fun _ s' => Worn idle idle s') s := by
  simp only [ssdIdWrite]
  split
  · rename_i len
    exact withSema_worn worn fun _ => ssdIdWriteBody_worn sure (id2channel_lt p.id) .iblock p len
  split
  · rename_i len
    exact withSema_worn worn fun _ => ssdIdWriteBody_worn sure (id2channel_lt p.id) .dblock p len
  · exact Wears.pure worn

/-- The extent of a node fits into a command. -/
theorem Worn.info_fits {info : IdInfo} {soiled : Nat → List Extent}
    (worn : Worn (holding c info.extent) soiled s) (inside : c < ssdMaxChannel) :
    info.block.val + info.len.size ≤ ssdMaxVirblocksPerChannel := by
  have tiles := (worn.inv c inside).space.tiles
  rw [holding_self] at tiles
  exact tiles.end_le (List.mem_append_right _ (List.mem_cons_self ..)) info.len.size_pos

theorem ssdIdDeleteBody_worn (inside : c < ssdMaxChannel) (id : BlockId)
    (worn : Worn idle idle s) :
    Wears may (ssdIdDeleteBody c id) (fun _ s' => Worn idle idle s') s := by
  refine Wears.seq (delIdInfo_worn worn inside) fun found s1 after => ?_
  obtain ⟨-, removed⟩ := after
  cases found with
  | none => exact Wears.pure removed
  | some info =>
      obtain ⟨own, worn1⟩ := removed
      have insert : ∀ s', Worn (holding c info.extent) (holding c info.extent) s' →
          Wears may (Drv.setIdInfo id info) (fun ret s'' => ret = ssdOk ∧ Worn idle idle s'') s' :=
        fun s' worn' => setIdInfo_worn own worn' inside
      simp only
      split
      · exact Wears.seq (insert s1 worn1) fun _ s2 inserted => Wears.pure inserted.2
      refine Wears.seq (harmless_worn ⟨⟨trivial, nofun⟩, fun _ => trivial⟩ worn1) fun _ s2 worn2 => ?_
      refine Wears.seq (erase_worn worn2 (worn2.info_fits inside)) fun ret s3 erased => ?_
      obtain ⟨worn3, -⟩ := erased
      split
      · rename_i failed
        rw [if_neg failed] at worn3
        exact Wears.seq (insert s3 worn3) fun _ s4 inserted => Wears.pure inserted.2
      rename_i ok
      rw [if_pos (not_not.1 ok)] at worn3
      refine Wears.seq (deleteLogicBlock_worn own worn3 inside) fun _ s4 worn4 => ?_
      refine Wears.seq (harmless_worn ⟨⟨trivial, nofun⟩, fun _ => trivial⟩ worn4) fun _ s5 worn5 => ?_
      exact Wears.pure worn5

theorem ssdIdDelete_worn (id : BlockId) (worn : Worn idle idle s) :
    Wears may (ssdIdDelete id) (fun _ s' => Worn idle idle s') s :=
  withSema_worn worn fun _ => ssdIdDeleteBody_worn (id2channel_lt id) id

theorem ramTable_harmless {flag : Nat} (small : flag < 32) (write : flag ≠ flagWrite)
    (erase : flag ≠ flagErase) : (channelOp c (cmdValue 0 addrTablePages flag)).All Harmless := by
  have word : Command.ofWord (cmdValue 0 addrTablePages flag) = ⟨0, addrTablePages, flag⟩ :=
    decode_cmdValue (by decide) (by decide) small
  refine channelOp_harmless ?_ ?_
  · rw [word]; exact write
  · rw [word]; exact erase

theorem ramTableRead_harmless (type : Nat) : (ramTableRead ⟨c, type⟩).All Harmless := by
  simp only [ramTableRead]
  split
  · exact ramTable_harmless (by decide) (by decide) (by decide)
  · exact ramTable_harmless (by decide) (by decide) (by decide)

theorem markBadTables_harmless (block : Nat) (blocks : List Nat) :
    (markBadTables c block blocks).All Harmless := by
  refine (ramTableRead_harmless tableAddrType).bind fun ret => ?_
  split
  · trivial
  refine ⟨⟨trivial, nofun⟩, fun addr => (ramTableRead_harmless tableEraseType).bind fun ret => ?_⟩
  split
  · trivial
  · exact ⟨⟨trivial, nofun⟩, fun _ => ramTable_harmless (by decide) (by decide) (by decide)⟩

/-- Every command of the scan for bad blocks is a READ. -/
theorem findBadBlocks_harmless {block : Nat} (start n : Nat)
    (fits : block + start + n ≤ ssdMaxVirblocksPerChannel) :
    (findBadBlocks c block start n).All Harmless := by
  induction n generalizing start with
  | zero => trivial
  | succ n ih =>
      have word : Command.ofWord (cmdValue ((block + start) * ssdPagesPerBlock) ssdPagesPerBlock
          flagRead) = ⟨(block + start) * ssdPagesPerBlock, ssdPagesPerBlock, flagRead⟩ := by
        simp only [ssdMaxVirblocksPerChannel] at fits
        apply decode_cmdValue
        · simp only [ssdPagesPerBlock]; omega
        · decide
        · decide
      have notWrite : flagRead ≠ flagWrite := by decide
      have notErase : flagRead ≠ flagErase := by decide
      have read : (channelOp c (cmdValue ((block + start) * ssdPagesPerBlock) ssdPagesPerBlock
          flagRead)).All Harmless :=
        channelOp_harmless (by rw [word]; exact notWrite) (by rw [word]; exact notErase)
      exact read.bind fun ret => (ih (start + 1) (by omega)).bind fun _ => trivial

theorem markBadId_worn (inside : c < ssdMaxChannel) (id : BlockId) (worn : Worn idle idle s) :
    Wears may (markBadId c id) (fun _ s' => Worn idle idle s') s := by
  refine Wears.seq (getIdInfo_worn worn) fun known s1 looked => ?_
  obtain ⟨found, worn1, same1⟩ := looked
  cases known with
  | none => exact Wears.pure worn1
  | some info =>
      have fits : info.block.val + 0 + info.len.size ≤ ssdMaxVirblocksPerChannel := by
        have node := (nodesOf_delete found.symm).mem_iff.2 (List.mem_cons_self ..)
        refine (worn.inv c inside).space.tiles.end_le (e := info.extent) ?_ info.len.size_pos
        exact List.mem_append_right _ (List.mem_map_of_mem (f := fun n : HashNode => n.info.extent) node)
      simp only
      refine Wears.seq (harmless_still ⟨⟨trivial, nofun⟩, fun _ => trivial⟩ worn1)
        fun null s2 after => ?_
      obtain ⟨worn2, same2⟩ := after
      split
      · exact Wears.pure worn2
      split
      · exact Wears.pure worn2
      refine Wears.seq (harmless_still (findBadBlocks_harmless 0 info.len.size fits) worn2)
        fun blocks s3 after => ?_
      obtain ⟨worn3, same3⟩ := after
      split
      · exact Wears.pure worn3
      refine Wears.seq (delIdInfo_worn worn3 inside) fun found' s4 after => ?_
      obtain ⟨again, removed⟩ := after
      -- nothing has touched the table since the lookup
      rw [same3, same2, same1, ← found] at again
      subst again
      obtain ⟨own, worn4⟩ := removed
      simp only
      refine Wears.seq (erase_worn worn4 (worn4.info_fits inside)) fun ret s5 erased => ?_
      obtain ⟨worn5, -⟩ := erased
      split
      · rename_i failed
        rw [if_neg failed] at worn5
        exact Wears.seq (setIdInfo_worn own worn5 inside) fun _ s6 inserted => Wears.pure inserted.2
      rename_i ok
      rw [if_pos (not_not.1 ok)] at worn5
      refine Wears.seq (deleteLogicBlock_worn own worn5 inside) fun _ s6 worn6 => ?_
      exact harmless_worn (markBadTables_harmless ..) worn6

end Requests

/-! ## Runs -/

/-- Which outcomes the actions of a request may have. -/
abbrev RequestMay := SpaceRequest → TrackedMay

/-- Every outcome. -/
def anyTracked : RequestMay := fun _ _ _ _ => True

/-- The ERASE commands of `ssd_id_write` return `SSD_OK`. -/
def writesErase : RequestMay := fun request s a o =>
  ∀ p, request = .write p → erasesSucceed s.1 a o

/-- A run of one request after the other. -/
inductive Session (may : RequestMay) : List SpaceRequest → Tracked → Tracked → Prop
  | nil (s : Tracked) : Session may [] s s
  | cons {request : SpaceRequest} {rest : List SpaceRequest} {s s' s'' : Tracked} {ret : Int}
      (first : Runs track (may request) request.run s ret s') (later : Session may rest s' s'') :
      Session may (request :: rest) s s''

/-- Every free block is clean. -/
def FreeClean (s : Tracked) : Prop :=
  ∀ c, c < ssdMaxChannel → ∀ b, (∃ blocks ∈ freeSets (s.1.ch c).space, b ∈ blocks) → b ∉ s.2 c

/-- Every WRITE command that the request issues covers clean blocks only. -/
def WritesClean (may : RequestMay) (request : SpaceRequest) (s : Tracked) : Prop :=
  ∀ s' a rest, Reaches track (may request) request.run s (.act a rest) s' → CoversClean s' a

section Runs

variable {s s' : Tracked}

theorem request_worn (request : SpaceRequest) (worn : Worn idle idle s) :
    Wears (writesErase request) request.run (fun _ s' => Worn idle idle s') s := by
  cases request with
  | write p =>
      exact ssdIdWrite_worn (fun s a o allowed => allowed p rfl) p worn
  | delete id => exact ssdIdDelete_worn id worn
  | markBad id => exact withSema_worn worn fun _ => markBadId_worn (id2channel_lt id) id

theorem session_worn {requests : List SpaceRequest} (session : Session writesErase requests s s')
    (worn : Worn idle idle s) : Worn idle idle s' := by
  induction session with
  | nil s => exact worn
  | cons first _ ih => exact ih ((request_worn _ worn).runs (fun _ => rfl) first)

theorem Worn.writesClean (worn : Worn idle idle s) (request : SpaceRequest) :
    WritesClean writesErase request s := by
  intro s' a rest reach
  exact ((request_worn request worn).reaches (fun _ => rfl) reach s' rfl).1

/-- Once the free blocks of a partitioned channel are clean, every dirty block is
in a node. -/
theorem Worn.ofFree (inv : Inv idle (ledger s.1)) (clean : FreeClean s) : Worn idle idle s := by
  refine ⟨inv, fun c inside b below isDirty => ?_⟩
  have ok := (inv c inside).space
  obtain ⟨e, member, covers⟩ := ok.tiles.exists_covers below
  rcases List.mem_append.1 member with free | used
  · exact absurd isDirty (clean c inside b ((mem_freeSets ok).2 ⟨e, free, covers⟩))
  · exact ⟨e, used, covers⟩

/-- **No block is programmed twice without an erase** in a run in which the ERASE
commands of the writes succeed: every WRITE covers clean blocks only, and every
free block is clean between requests. -/
theorem writes_cover_clean_blocks {d d1 : Device} {dirty : Dirty}
    (table : ∀ c, c < ssdMaxChannel → TableOk (d.ch c).hash)
    (reload : Run anyOutcome ssdReloadBitmap d ssdOk d1) (clean : FreeClean (d1, dirty))
    {requests : List SpaceRequest} (session : Session writesErase requests (d1, dirty) s) :
    FreeClean s ∧ ∀ request, WritesClean writesErase request s := by
  have worn : Worn idle idle s :=
    session_worn session (.ofFree ((ssdReloadBitmap_inv table).runs reload rfl) clean)
  exact ⟨fun c inside b => worn.free_clean inside, worn.writesClean⟩

theorem erasesSucceed_live : Live erasesSucceed := by
  refine ⟨fun d c cmd out => ?_, fun d a other => ⟨succeeds, fun c cmd named => ?_, rfl⟩⟩
  · by_cases isErase : (Command.ofWord cmd).flag = flagErase
    · refine ⟨succeeds, fun _ _ _ _ _ => rfl, ?_⟩
      simp only [Flash.exec, isErase]
      rfl
    · obtain ⟨o, -, done⟩ := anyOutcome_live.command d c cmd out
      refine ⟨o, fun c' cmd' named out' isErase' => ?_, done⟩
      cases (Act.chan.inj named).1
      rw [out] at out'
      cases out'
      exact absurd isErase' isErase
  · exact absurd named (other c)

/-- A write of a first id. -/
def firstParam : WriteParam := ⟨⟨0, 0⟩, fun _ => 7, 1⟩

theorem emptyDevice_tableOk (c : Nat) : TableOk (emptyDevice.ch c).hash := by
  have nodes : nodesOf (emptyDevice.ch c).hash = [] := List.flatMap_eq_nil_iff.2 fun _ _ => rfl
  have none : extentsOf (emptyDevice.ch c).hash = [] := by rw [extentsOf, nodes, List.map_nil]
  exact ⟨none ▸ .nil, fun e member => absurd (none ▸ member) List.not_mem_nil⟩

theorem nothing_dirty (d : Device) : FreeClean (d, fun _ => ∅) := fun _ _ _ _ => Set.notMem_empty _

/-- A reload of an empty card, and a write and a delete of a first id. -/
theorem writes_cover_clean_blocks_empty : ∃ d1 s,
    Run anyOutcome ssdReloadBitmap emptyDevice ssdOk d1 ∧
      Session writesErase [.write firstParam, .delete firstParam.id] (d1, fun _ => ∅) s ∧
      FreeClean s ∧ ∀ request, WritesClean writesErase request s := by
  obtain ⟨ret, d1, reload, mirrors⟩ :=
    exists_run anyOutcome_live emptyDevice_mirrors (ssdReloadBitmap_locks free_none)
  obtain rfl := (ssdReloadBitmap_empty fun _ _ => rfl).runs reload
  obtain ⟨wrote, d2, write, mirrors2⟩ :=
    exists_run erasesSucceed_live mirrors (ssdIdWrite_locks free_none firstParam)
  obtain ⟨dirty2, write⟩ := write.withHistory soil fun _ => ∅
  obtain ⟨deleted, d3, delete, -⟩ :=
    exists_run anyOutcome_live mirrors2 (ssdIdDelete_locks free_none firstParam.id)
  obtain ⟨dirty3, delete⟩ := delete.withHistory soil dirty2
  have session : Session writesErase [.write firstParam, .delete firstParam.id]
      (d1, fun _ => ∅) (d3, dirty3) :=
    .cons (write.mono fun s a o allowed p _ => allowed) <|
      .cons (delete.mono fun s a o _ p named => by cases named)
        (.nil _)
  exact ⟨d1, (d3, dirty3), reload, session,
    writes_cover_clean_blocks (fun c _ => emptyDevice_tableOk c) reload (nothing_dirty d1) session⟩

end Runs

/-! ## A failed erase -/

/-- A free first block is what an allocation takes, and what comes back. -/
theorem alloc_first {s : ChannelSpace} (zero : s.area.iblock.areaMap 0 = false) :
    ∃ s', ssdAllocLogicBlock s .iblock = some (0, s') ∧
      (deleteLogicBlock s' (IdInfo.at 0 0 .iblock)).area.iblock.areaMap 0 = false := by
  have found : bitmapFindNextZeroArea s.area.iblock.areaMap ssdMaxVirblocksPerChannel 0 1 = 0 := by
    rcases findNextZeroArea_spec s.area.iblock.areaMap ssdMaxVirblocksPerChannel 0 Nat.one_pos with
      ⟨-, -, -, before⟩ | ⟨-, full⟩
    · by_contra later
      obtain ⟨i, lo, hi, one⟩ := before 0 le_rfl (Nat.pos_of_ne_zero later)
      obtain rfl : i = 0 := by omega
      rw [zero] at one
      cases one
    · obtain ⟨i, lo, hi, one⟩ := full 0 le_rfl (by decide)
      obtain rfl : i = 0 := by omega
      rw [zero] at one
      cases one
  refine ⟨{ s with
    area.iblock.areaMap := bitmapSet s.area.iblock.areaMap 0 1
    freeBlocks := s.freeBlocks - 1 }, ?_, ?_⟩
  · simp only [ssdAllocLogicBlock, allocIblock, found]
    rw [if_pos (by decide)]
    rfl
  · simp [deleteLogicBlock, IdInfo.at, FreeAreaList.fab, FreeAreaList.setFab, bitmapClear]

section First

variable {α : Type} {d : Device} {dirty u : Dirty} {may : TrackedMay} {P : Drv α → Tracked → Prop}

/-- One action on channel 0. -/
theorem leads_chan {a : ChanAct} {ch k : Channel} {rest : a.Reply → Drv α} (o : Outcome)
    {r : a.Reply} (allowed : ∀ s, may s (.chan 0 a) o) (step : ch.perform a o = some (r, k))
    (soiled : ∀ d', soil (.chan 0 a) r (d.setCh 0 ch) d' dirty = u)
    (tail : Leads track may P (rest r) (d.setCh 0 k, u)) :
    Leads track may P (.act (.chan 0 a) rest) (d.setCh 0 ch, dirty) := by
  refine Leads.act o (allowed _) (recorded_eq_some.2 ⟨?_, (soiled _).symm⟩) tail
  simp only [Device.perform, Device.setCh_ch_same, step, Option.map_some, Device.setCh_setCh]

/-- The semaphore of channel 0 is given back. -/
theorem leads_up {ch : Channel} {rest : Unit → Drv α} (o : Outcome)
    (allowed : ∀ s, may s (.up 0) o)
    (tail : Leads track may P (rest ()) (d.setCh 0 { ch with sema := none }, dirty)) :
    Leads track may P (.act (.up 0) rest) (d.setCh 0 ch, dirty) := by
  refine Leads.act o (allowed _)
    (u := (d.setCh 0 { ch with sema := none }, dirty)) (r := ()) (recorded_eq_some.2 ⟨?_, rfl⟩) tail
  simp only [Device.perform, Device.setCh_ch_same, Device.setCh_setCh]

/-- Channel 0 is at rest, its first block is free, and the id is unknown there. -/
structure FirstFree (id : BlockId) (d : Device) : Prop where
  sema : (d.ch 0).sema = none
  unknown : lookup ((d.ch 0).hash (idHash id)).first id = none
  zero : (d.ch 0).space.area.iblock.areaMap 0 = false

/-- A write takes the first block, and leaves it free and dirty when neither its
WRITE nor its ERASE completes. -/
theorem write_takes_first (dirty : Dirty) {p : WriteParam} (channel : id2channel p.id = 0) (len : p.len = 1)
    (first : FirstFree p.id d) :
    Leads track (anyTracked (.write p)) (fun q t => t.2 = dirty ∧ ∃ rest,
      q = .act (.chan 0 (.issue (cmdValue (0 * ssdPagesPerBlock) (1 * ssdPagesPerBlock) flagWrite))) rest ∧
        Leads track (anyTracked (.write p))
          (fun q t => (∃ ret, q = .pure ret) ∧ FirstFree p.id t.1 ∧ 0 ∈ t.2 0) q t)
      (ssdIdWrite p) (d, dirty) := by
  obtain ⟨sema, unknown, zero⟩ := first
  have start := Device.setCh_self d 0
  generalize d.ch 0 = ch at *
  obtain ⟨sema', out, kbuf, flash, hash, space, stat⟩ := ch
  subst sema
  rw [← start]
  obtain ⟨space', alloc, back⟩ := alloc_first zero
  have body : ssdIdWrite p = Drv.withSema 0 (ssdIdWriteBody 0 .iblock p) := by
    simp only [ssdIdWrite, channel, len, BlockType.size_iblock, if_true]
  rw [body]
  refine Leads.act succeeds trivial (u := (d.setCh 0 ⟨some 0, out, kbuf, flash, hash, space, stat⟩, dirty))
    (r := ()) (recorded_eq_some.2 ⟨?_, rfl⟩) ?_
  · simp only [Device.perform, Device.setCh_ch_same, if_true, Device.setCh_setCh]
  refine leads_chan succeeds (fun _ => trivial) rfl (fun _ => rfl) ?_
  dsimp only
  rw [unknown]
  dsimp only [Program.bind]
  rw [if_neg (by decide)]
  refine leads_chan succeeds (fun _ => trivial) (r := (0 : Int))
    (k := ⟨some 0, out, kbuf, flash, hash, space', stat⟩)
    (by simp only [Channel.perform, alloc]; rfl) (fun _ => rfl) ?_
  dsimp only [Program.bind]
  rw [if_neg (by decide), len]
  refine leads_chan succeeds (fun _ => trivial) rfl (fun _ => rfl)
    (leads_chan succeeds (fun _ => trivial) rfl (fun _ => rfl)
    (leads_chan succeeds (fun _ => trivial) rfl (fun _ => rfl) ?_))
  dsimp only [Program.bind]
  rw [if_neg (by decide)]
  refine Leads.here ⟨rfl, _, rfl, ?_⟩
  let soiled := Function.update dirty 0 (dirty 0 ∪ writtenBlocks ⟨0, ssdPagesPerBlock, flagWrite⟩)
  -- the WRITE and the ERASE run into the timer
  refine leads_chan timesOut (fun _ => trivial) rfl (u := soiled) (fun _ => rfl)
    (leads_chan timesOut (fun _ => trivial) (r := -errTimeout) rfl (u := soiled) (fun _ => rfl) ?_)
  dsimp only [Program.bind]
  rw [if_neg (by decide)]
  refine leads_chan timesOut (fun _ => trivial) rfl (u := soiled) (fun _ => rfl)
    (leads_chan timesOut (fun _ => trivial) (r := -errTimeout) rfl (u := soiled) (fun _ => rfl) ?_)
  dsimp only [Program.bind]
  rw [if_pos (by decide)]
  dsimp only [Program.pure_eq, Program.bind]
  rw [if_pos (by decide)]
  refine leads_chan succeeds (fun _ => trivial) rfl (u := soiled) (fun _ => rfl)
    (leads_up succeeds (fun _ => trivial) ?_)
  refine Leads.here ⟨⟨_, rfl⟩, ⟨?_, ?_, ?_⟩, ?_⟩
  · rw [Device.setCh_ch_same]
  · rw [Device.setCh_ch_same]
    exact unknown
  · rw [Device.setCh_ch_same]
    exact back
  · simp [soiled, writtenBlocks]
end First

/-- Reloading the allocators of a card without nodes, when they are as a reload
leaves them, changes nothing. -/
theorem reload_still {d : Device} (sema : ∀ c, (d.ch c).sema = none)
    (nodes : ∀ c b, ((d.ch c).hash b).first = [])
    (space : ∀ c, (d.ch c).space = reloadSpace fun _ => false) :
    Holds anyOutcome ssdReloadBitmap (fun ret d' => ret = ssdOk ∧ d' = d) d := by
  have scan : ∀ c buckets m, Holds anyOutcome (scanBuckets c buckets m)
      (fun found d' => found = some m ∧ d' = d) d := by
    intro c buckets m
    induction buckets with
    | nil => exact Holds.pure ⟨rfl, rfl⟩
    | cons b rest ih =>
        refine Holds.seq (M := fun nodes d1 => nodes = [] ∧ d1 = d)
          (Holds.chan fun o r ch _ step => ?_) ?_
        · cases step
          exact ⟨nodes c b, Device.setCh_self d c⟩
        · rintro nodes d1 ⟨rfl, rfl⟩
          exact ih
  have held : ∀ c, Holds anyOutcome (Drv.withSema c
      (Drv.chan c (.space fun _ => some (ssdOk, reloadSpace fun _ => false))))
      (fun _ d' => d' = d) d := by
    intro c
    refine Holds.seq (M := fun _ d' => d' = d.setCh c { d.ch c with sema := some 0 })
      (Holds.perform fun o r d' _ step => ?_) ?_
    · simp only [Device.perform, sema, if_true] at step
      cases step
      rfl
    rintro _ d2 rfl
    refine Holds.seq (M := fun _ d' => d' = d.setCh c { d.ch c with sema := some 0 })
      (Holds.chan fun o r ch _ step => ?_) ?_
    · cases step
      simp only [Device.setCh_setCh, Device.setCh_ch_same, ← space c]
    rintro ret d3 rfl
    refine Holds.seq (M := fun _ d' => d' = d)
      (Holds.perform fun o r d' _ step => ?_) fun _ d4 same => Holds.pure same
    cases step
    simp only [Device.setCh_setCh, Device.setCh_ch_same, ← sema c]
    exact Device.setCh_self d c
  refine Holds.seq (M := fun found d' => found = none ∧ d' = d) ?_ ?_
  · refine Safe.firstSome (alone_steady anyOutcome) (I := fun _ d' => d' = d) ?_ ?_ rfl
    · intro c rest d' same
      subst same
      refine Holds.seq (scan c _ _) ?_
      rintro found d1 ⟨rfl, rfl⟩
      exact Holds.seq (held c) fun _ d2 same => Holds.pure same
    · rintro d1 d2 same rfl
      exact ⟨rfl, same⟩
  · rintro found d1 ⟨rfl, rfl⟩
    exact Holds.pure ⟨rfl, rfl⟩

theorem reload_emptyDevice : Run anyOutcome ssdReloadBitmap emptyDevice ssdOk emptyDevice := by
  obtain ⟨ret, d1, reload, -⟩ :=
    exists_run anyOutcome_live emptyDevice_mirrors (ssdReloadBitmap_locks free_none)
  obtain ⟨rfl, rfl⟩ := (reload_still (fun _ => rfl) (fun _ _ => rfl) fun _ => by
    simp only [emptyDevice, emptyChannel]).runs reload
  exact reload

theorem scanEnd_false (n : Nat) : scanEnd (fun _ => false) n = 0 := by
  induction n with
  | zero => rfl
  | succ n ih =>
      simp only [scanEnd, Bool.false_eq_true, if_false]
      exact ih

/-- **A failed erase puts a dirty block up for the next write.** -/
theorem failed_erase_is_reused :
    Run anyOutcome ssdReloadBitmap emptyDevice ssdOk emptyDevice ∧
      FreeClean (emptyDevice, fun _ => ∅) ∧
      ∃ s, Session anyTracked [.write firstParam] (emptyDevice, fun _ => ∅) s ∧
        ¬ FreeClean s ∧ ¬ WritesClean anyTracked (.write firstParam) s := by
  have first : FirstFree firstParam.id emptyDevice := by
    refine ⟨rfl, rfl, ?_⟩
    simp [emptyDevice, emptyChannel, reloadSpace, scanEnd_false, ssdInitChannelBitmap, bitmapClear]
  obtain ⟨q, s1, reach, -, rest, rfl, q', ⟨d2, dirty⟩, tail, ⟨ret, rfl⟩, first2, isDirty⟩ :=
    write_takes_first (fun _ => ∅) rfl rfl first
  refine ⟨reload_emptyDevice, nothing_dirty _, (d2, dirty), .cons (reach.trans tail).runs (.nil _),
    fun clean => ?_, fun clean => ?_⟩
  · exact clean 0 (by decide) 0 ⟨_, List.mem_cons_self .., by decide, first2.zero⟩ isDirty
  · obtain ⟨q, s3, again, same, rest', rfl, -⟩ :=
      write_takes_first dirty rfl rfl first2
    have covers := clean s3 _ _ again 0 _ rfl (by decide)
    have word : Command.ofWord (cmdValue (0 * ssdPagesPerBlock) (1 * ssdPagesPerBlock) flagWrite) =
        ⟨0, ssdPagesPerBlock, flagWrite⟩ := by decide
    rw [same, word] at covers
    exact Set.disjoint_left.1 covers (by simp [writtenBlocks]) isDirty

end FpgaSsd.Theory
