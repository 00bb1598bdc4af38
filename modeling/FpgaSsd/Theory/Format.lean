/-
# Theory.Format — the initialisation of a card

`ssd_sys_open_newcard` writes the tables of a new card and erases every physical block of every
channel. Commands may fail as they like: what counts is the answer.

* `initNewcardInChannelBody_erases` — a channel whose initialisation succeeded is blank;
* `ssdSysOpenNewcard_formats` — behind `SSD_OK` the card is a `NewCard`, whatever it held before,
  and without failures a closed card gets there;
* `Initialised.written` — its table is empty, and all its blocks are free.
-/
import FpgaSsd.Theory.CommandWord
import FpgaSsd.Theory.Durable
import FpgaSsd.Theory.Reload

namespace FpgaSsd.Theory

open FpgaSsd.Lib FpgaSsd.Driver

set_option autoImplicit false

/-- The physical blocks below `n` are erased. -/
def ErasedBelow (n : Nat) (f : Flash) : Prop := ∀ p, p / ssdPagesPerBlock < n → f.page p = none ∧ f.suspect p = false

section Channel

variable {may : May} {v : View} {c : Nat}

theorem ssdErasePhyblock_erases {n : Nat} (inside : n < ssdMaxPhyblocksPerChannel)
    (erased : ErasedBelow n (v.flash c)) :
    OnView always may (ssdErasePhyblock c n) (fun ret v' => ret = ssdOk →
      ErasedBelow (n + 1) (v'.flash c) ∧ ∃ f, v' = v.setFlash c f) v := by
  unfold ssdErasePhyblock
  refine (OnView.channelOp trivial).weaken ?_
  rintro ret v' ⟨d, o, kbuf, kbuf', flash, -, -, -, done, rfl, rfl⟩ ok
  have ok := ChannelRet.toInt_eq_zero.1 ok
  rw [decode_cmdValue (by simp only [ssdMaxPhyblocksPerChannel, ssdPagesPerBlock] at *; omega)
    (by decide) (by decide)] at done
  cases done
  refine ⟨fun p low => ?_, _, rfl⟩
  have start : n * ssdPagesPerBlock / ssdPagesPerBlock = n := Nat.mul_div_cancel n (by decide)
  simp only [View.setFlash, Function.update_self, ok, true_or, and_true, start]
  by_cases here : p / ssdPagesPerBlock = n
  · rw [if_pos here, if_pos here]
    exact ⟨rfl, rfl⟩
  · rw [if_neg here, if_neg here]
    exact erased p (Nat.lt_of_le_of_ne (Nat.le_of_lt_succ low) here)

/-- One block after the other. -/
theorem erasePhyblocks_erases {n : Nat} (few : n ≤ ssdMaxPhyblocksPerChannel) (v : View) (f : Flash) :
    OnView always may (Program.firstSome (fun block => do
      let ret ← ssdErasePhyblock c block
      pure (if ret ≠ ssdOk then some ret else none)) (List.range n)) (fun found v' =>
        found = none ∧ ErasedBelow n (v'.flash c) ∧ (∃ f, v' = v.setFlash c f) ∨ ∃ ret, found = some ret ∧ ret ≠ ssdOk)
      (v.setFlash c f) := by
  refine (OnView.forRange (I := fun n v' => ErasedBelow n (v'.flash c) ∧ ∃ f, v' = v.setFlash c f)
    (R := fun ret _ => ret ≠ ssdOk) (fun k v' less before => ?_) ?_).weaken fun found v' after => ?_
  · obtain ⟨erased, f, rfl⟩ := before
    refine OnView.seq (ssdErasePhyblock_erases (Nat.lt_of_lt_of_le less few) erased) fun ret v1 after => ?_
    by_cases ok : ret = ssdOk
    · obtain ⟨erased, f', rfl⟩ := after ok
      rw [if_neg (not_not.2 ok)]
      refine OnView.pure ⟨erased, f', ?_⟩
      simp only [View.setFlash, Function.update_idem]
    · rw [if_pos ok]
      exact OnView.pure ok
  · exact ⟨fun p low => absurd low (Nat.not_lt_zero _), f, rfl⟩
  · cases found with
    | none => exact .inl ⟨rfl, after⟩
    | some ret => exact .inr ⟨ret, rfl, after⟩

/-- **A channel** that was initialised is blank. -/
theorem initNewcardInChannelBody_erases : OnView always may (initNewcardInChannelBody c) (fun ret v' => ret = ssdOk →
    ErasedBelow ssdMaxPhyblocksPerChannel (v'.flash c) ∧ ∃ f, v' = v.setFlash c f) v := by
  -- one table into the RAM of the channel
  have table : ∀ flag (v : View), OnView always may (ssdWriteTablesToRam c flag)
      (fun _ v' => ∃ f, v' = v.setFlash c f) v := by
    intro flag v
    refine (OnView.channelOp trivial).weaken ?_
    rintro ret v' ⟨-, -, -, -, flash, -, -, -, -, -, after⟩
    exact ⟨flash, after⟩
  unfold initNewcardInChannelBody
  refine OnView.seq (OnView.silent (a := .chan c (.modKbuf createEraseTable)) trivial trivial) ?_
  rintro _ v rfl
  refine OnView.seq (table flagWriteEraseTable _) ?_
  rintro ret _ ⟨f1, rfl⟩
  split
  · exact OnView.pure fun ok => absurd ok ‹_›
  refine OnView.seq (OnView.silent (a := .chan c (.modKbuf createAddrmapTable)) trivial trivial) ?_
  rintro _ _ rfl
  refine OnView.seq (table flagWriteAddrTable _) ?_
  rintro ret _ ⟨f2, rfl⟩
  split
  · exact OnView.pure fun ok => absurd ok ‹_›
  have same : (v.setFlash c f1).setFlash c f2 = v.setFlash c f2 := by
    simp only [View.setFlash, Function.update_idem]
  rw [same]
  have erases := @erasePhyblocks_erases may c _ (Nat.le_refl ssdMaxPhyblocksPerChannel) v f2
  -- the list is not to be evaluated
  generalize List.range ssdMaxPhyblocksPerChannel = blocks at erases ⊢
  refine OnView.seq erases ?_
  rintro _ v' (⟨rfl, after⟩ | ⟨ret, rfl, failed⟩)
  · exact OnView.pure fun _ => after
  · exact OnView.pure fun ok => absurd ok failed

end Channel

/-! ## Cards -/

/-- A card that was just initialised. -/
structure Initialised (v : View) : Prop where
  card : NewCard v
  hash : ∀ c < ssdMaxChannel, ∀ b < ssdHashSize, v.hash c b = ⟨0, []⟩
  space : ∀ c < ssdMaxChannel, ∃ s, Reloaded c (s, v.hash c) (v.space c, v.hash c)

section Card

variable {may : May} {v : View}

/-- Every channel is blank, and the record is the first one. -/
theorem ssdSysInitNewcard_erases : OnView always may ssdSysInitNewcard (fun ret v' => ret = ssdOk →
    (∀ c < ssdMaxChannel, ErasedBelow ssdMaxPhyblocksPerChannel (v'.flash c)) ∧ ∃ flash,
      v' = { v with flash := flash, metadata := initMeta v.metadata, metaPos := initMetaPos }) v := by
  unfold ssdSysInitNewcard
  refine OnView.seq (M := fun found v' => (found = none ∧
    (∀ c < ssdMaxChannel, ErasedBelow ssdMaxPhyblocksPerChannel (v'.flash c)) ∧
    ∃ flash, v' = { v with flash := flash }) ∨
      ∃ ret, found = some ret ∧ ret ≠ ssdOk) ?_ ?_
  · refine (OnView.forRange (I := fun n v' => (∀ c < n, ErasedBelow ssdMaxPhyblocksPerChannel (v'.flash c)) ∧
      ∃ flash, v' = { v with flash := flash }) (R := fun ret _ => ret ≠ ssdOk) (fun n v' inside before => ?_) ?_).weaken
        fun found v' after => ?_
    · obtain ⟨erased, flash, rfl⟩ := before
      refine OnView.seq (OnView.withSema trivial (fun _ _ _ => trivial) initNewcardInChannelBody_erases)
        fun ret v1 after => ?_
      by_cases ok : ret = ssdOk
      · obtain ⟨here, f, rfl⟩ := after ok
        rw [if_neg (not_not.2 ok)]
        refine OnView.pure ⟨fun c less => ?_, _, rfl⟩
        by_cases same : c = n
        · rw [same]
          exact here
        · simp only [View.setFlash, Function.update_of_ne same]
          exact erased c (Nat.lt_of_le_of_ne (Nat.le_of_lt_succ less) same)
      · rw [if_pos ok]
        exact OnView.pure ok
    · exact ⟨fun c less => absurd less (Nat.not_lt_zero c), v.flash, rfl⟩
    · cases found with
      | none => exact .inl ⟨rfl, after⟩
      | some ret => exact .inr ⟨ret, rfl, after⟩
  · rintro _ _ (⟨rfl, erased, flash, rfl⟩ | ⟨ret, rfl, failed⟩)
    · refine OnView.seq (M := fun _ v' => v' =
        { v with flash := flash, metadata := initMeta v.metadata, metaPos := initMetaPos }) ?_ ?_
      · refine OnView.seq (OnView.modMeta trivial initMeta) ?_
        rintro _ _ ⟨rfl, -⟩
        refine (OnView.modMetaPos trivial _).weaken ?_
        rintro _ _ ⟨rfl, -⟩
        rfl
      · rintro _ _ rfl
        exact OnView.pure fun _ => ⟨erased, flash, rfl⟩
    · exact OnView.pure fun ok => absurd ok failed

/-! ### Without failures -/

theorem OnView.and {α : Type} {must : View → Prop} {p : Drv α} {post post' : α → View → Prop}
    (first : OnView must may p post v) (second : OnView must may p post' v) :
    OnView must may p (fun value v' => post value v' ∧ post' value v') v := fun d shows =>
  Safe.and (first d shows) (second d shows)

/-- A command that reads no reserved page succeeds. -/
theorem OnView.channelOp_fine (flawless : Flawless may) (c start len : Nat) {flag : Nat} (small : flag < 32)
    (change : flag ≠ flagReadtablesFromFlash) :
    OnView always may (Driver.channelOp c (cmdValue start len flag)) (fun ret _ => ret = ssdOk) v := by
  refine (OnView.channelOp trivial).weaken ?_
  rintro ret v' ⟨d, o, -, -, -, -, issued, allowed, -, rfl, -⟩
  rcases (flawless _ _ _ allowed).2.2 c rfl with ok | ⟨⟨cmd, out, read, -⟩, -⟩
  · rw [ok]
    rfl
  · rw [issued] at out
    cases out
    have word := cmdValue_flag start len flag
    rw [read, Nat.mod_eq_of_lt small] at word
    exact absurd word.symm change

/-- A loop that stops at an error does not stop. -/
theorem firstSome_fine {body : Nat → Drv Int} (fine : ∀ b v, OnView always may (body b) (fun ret _ => ret = ssdOk) v)
    (l : List Nat) : OnView always may (Program.firstSome (fun b => do
      let ret ← body b
      pure (if ret ≠ ssdOk then some ret else none)) l) (fun found _ => found = none) v := by
  induction l generalizing v with
  | nil => exact OnView.pure rfl
  | cons b rest ih =>
      refine OnView.seq (M := fun found _ => found = none) ?_ ?_
      · refine OnView.seq (fine b v) ?_
        rintro _ v1 rfl
        exact OnView.pure (if_neg (by decide))
      · rintro _ v1 rfl
        exact ih

theorem initNewcardInChannelBody_fine (flawless : Flawless may) (c : Nat) :
    OnView always may (initNewcardInChannelBody c) (fun ret _ => ret = ssdOk) v := by
  unfold initNewcardInChannelBody
  refine OnView.seq (OnView.silent (a := .chan c (.modKbuf createEraseTable)) trivial trivial) ?_
  rintro _ v rfl
  refine OnView.seq (OnView.channelOp_fine flawless c _ _ (by decide) (by decide)) ?_
  rintro _ v1 rfl
  rw [if_neg (by decide)]
  refine OnView.seq (OnView.silent (a := .chan c (.modKbuf createAddrmapTable)) trivial trivial) ?_
  rintro _ v rfl
  refine OnView.seq (OnView.channelOp_fine flawless c _ _ (by decide) (by decide)) ?_
  rintro _ v2 rfl
  rw [if_neg (by decide)]
  generalize List.range ssdMaxPhyblocksPerChannel = blocks
  refine OnView.seq (firstSome_fine (fun b v => OnView.channelOp_fine flawless c _ _ (by decide) (by decide)) blocks) ?_
  rintro _ v3 rfl
  exact OnView.pure rfl

theorem ssdSysInitNewcard_fine (flawless : Flawless may) :
    OnView always may ssdSysInitNewcard (fun ret _ => ret = ssdOk) v := by
  unfold ssdSysInitNewcard
  refine OnView.seq (firstSome_fine (fun c v => OnView.withSema trivial (fun _ _ _ => trivial)
    (initNewcardInChannelBody_fine flawless c)) _) ?_
  rintro _ v1 rfl
  refine OnView.seq (M := fun _ _ => True) ?_ fun _ v2 _ => OnView.pure rfl
  refine OnView.seq (OnView.modMeta trivial initMeta) fun _ v2 _ => ?_
  exact (OnView.modMetaPos trivial _).weaken fun _ _ _ => trivial

/-! ### The whole card -/

/-- The reserved pages of blank channels. -/
theorem bare_of_erased (erased : ∀ c < ssdMaxChannel, ErasedBelow ssdMaxPhyblocksPerChannel (v.flash c)) : Bare v := by
  have page : ∀ pos < reserveBlocksMeta, ∀ pg < ssdPagesPerBlock, v.page pos pg = none ∧ v.suspect pos pg = false := by
    intro pos inside pg low
    have channel : posChannel pos < ssdMaxChannel := by
      simp only [posChannel, reserveBlocksPerChannel, reserveBlocksMeta, ssdMaxChannel] at *
      omega
    refine erased _ channel (pageAddr pos pg) ?_
    have block := physBlock_lt pos
    have quotient : pageAddr pos pg / ssdPagesPerBlock = physBlock pos := by
      simp only [pageAddr, ssdPagesPerBlock] at *
      omega
    rwa [quotient]
  exact ⟨fun pos pg inside low => (page pos inside pg low).2, fun pos inside pg low => (page pos inside pg low).1⟩

theorem ssdSysOpenNewcard_spec : OnView always may ssdSysOpenNewcard (fun ret v' =>
    (ret = ssdOk → Initialised v') ∧ (Flawless may → v.opened = false → ret = ssdOk)) v := by
  unfold ssdSysOpenNewcard openWith
  refine OnView.seq (OnView.getOpened trivial) ?_
  rintro opened v ⟨rfl, rfl⟩
  split
  · rename_i already
    refine OnView.pure ⟨fun ok => absurd ok (by decide), fun _ off => ?_⟩
    rw [off] at already
    cases already
  refine OnView.seq (M := fun failed v' => v' = v ∧ (Flawless may → failed = false)) (OnView.act trivial ?_) ?_
  · intro d o failed d' shows allowed step
    cases step
    exact ⟨shows, fun flawless => (flawless _ _ _ allowed).1⟩
  rintro failed v ⟨rfl, fine⟩
  split
  · rename_i fails
    refine OnView.pure ⟨fun ok => absurd ok (by decide), fun flawless _ => ?_⟩
    rw [fine flawless] at fails
    cases fails
  refine OnView.seq (ssdInitHash_spec fun _ => trivial) ?_
  rintro _ _ rfl
  have init : ∀ v1, OnView always may ssdSysInitNewcard (fun ret _ => Flawless may → ret = ssdOk) v1 := by
    intro v1
    by_cases flawless : Flawless may
    · exact (ssdSysInitNewcard_fine flawless).weaken fun _ _ ok _ => ok
    · exact ssdSysInitNewcard_erases.weaken fun _ _ _ no => absurd no flawless
  refine OnView.seq (ssdSysInitNewcard_erases.and (init _)) ?_
  rintro ret v1 ⟨after, fine⟩
  split
  · rename_i failed
    refine OnView.seq (ssdDestorySlab_spec fun _ => trivial) fun _ v2 _ => ?_
    exact OnView.pure ⟨fun ok => absurd ok (by decide), fun flawless _ => absurd (fine flawless) failed⟩
  rename_i ok
  obtain ⟨erased, flash, rfl⟩ := after (not_not.1 ok)
  have empty : ∀ c < ssdMaxChannel, ∀ b < ssdHashSize, clearedHash v.hash c b = ⟨0, []⟩ := fun c inside b below =>
    clearedHash_bucket inside below
  have own : ∀ c < ssdMaxChannel, ∀ b < ssdHashSize, ∀ node ∈ (clearedHash v.hash c b).first,
      node.info.channel.val = c := by
    intro c inside b below node member
    rw [empty c inside b below] at member
    exact absurd member List.not_mem_nil
  refine OnView.seq (ssdReloadBitmap_flawless own) ?_
  rintro _ _ ⟨rfl, spaces, rfl, reloaded⟩
  rw [if_neg (by decide)]
  refine OnView.seq (OnView.quiet publishAllFreeBlocks_silent trivial) ?_
  rintro _ _ rfl
  refine OnView.seq (OnView.silent (a := .initFlushSema) trivial trivial) ?_
  rintro _ _ rfl
  refine OnView.seq (OnView.setOpened trivial true) ?_
  rintro _ _ rfl
  refine OnView.pure ⟨fun _ => ?_, fun _ _ => rfl⟩
  exact ⟨⟨bare_of_erased erased, ⟨_, rfl⟩, rfl, rfl⟩, empty, fun c inside => ⟨_, reloaded c inside⟩⟩

/-- **Initialisation.** Whatever the card held, and whatever failed: behind `SSD_OK` it is new. A
closed card is initialised when nothing fails. -/
theorem ssdSysOpenNewcard_formats : OnView always may ssdSysOpenNewcard (fun ret v' =>
    (ret = ssdOk → Initialised v') ∧ (Flawless may → v.opened = false → ret = ssdOk)) v := ssdSysOpenNewcard_spec

/-- **The table of a new card** is empty, and its blocks are free. -/
theorem Initialised.written {d : Device} (blank : Initialised (view d)) : WrittenTable d := by
  have nodes : ∀ c < ssdMaxChannel, nodesOf (ledger d c).2 = [] := fun c inside =>
    List.flatMap_eq_nil_iff.2 fun b member => congrArg HashHead.first (blank.hash c inside b (List.mem_range.1 member))
  constructor
  · intro c inside
    obtain ⟨s, reloaded⟩ := blank.space c inside
    refine reloaded.inv ⟨?_, ?_⟩
    · rw [extentsOf, show nodesOf ((view d).hash c) = [] from nodes c inside]
      exact List.Pairwise.nil
    · rw [extentsOf, show nodesOf ((view d).hash c) = [] from nodes c inside]
      exact fun e member => absurd member List.not_mem_nil
  · intro c inside
    have bucket : ∀ b < ssdHashSize, (d.ch c).hash b = ⟨0, []⟩ := blank.hash c inside
    constructor
    · intro b below node member
      rw [bucket b below] at member
      exact absurd member List.not_mem_nil
    · intro b below
      rw [bucket b below]
      exact List.nodup_nil
    · intro b below
      rw [bucket b below]
      rfl
  · intro c inside node member
    rw [nodes c inside] at member
    exact absurd member List.not_mem_nil

/-- The allocator of a channel without ids. -/
theorem Initialised.space_eq (card : Initialised v) {c : Nat} (inside : c < ssdMaxChannel) :
    v.space c = reloadSpace fun _ => false := by
  obtain ⟨s, reloaded⟩ := card.space c inside
  obtain ⟨m, space, bits⟩ := reloaded.space
  have empty : extentsOf (v.hash c) = [] := by
    rw [extentsOf, List.map_eq_nil_iff]
    exact List.flatMap_eq_nil_iff.2 fun b member =>
      congrArg HashHead.first (card.hash c inside b (List.mem_range.1 member))
  have none : m = fun _ => false := by
    funext b
    apply Bool.eq_false_iff.2
    intro set
    obtain ⟨e, member, -⟩ := (bits b).1 set
    rw [show extentsOf (v.hash c) = [] from empty] at member
    exact absurd member List.not_mem_nil
  rw [← none]
  exact space

end Card

end FpgaSsd.Theory
