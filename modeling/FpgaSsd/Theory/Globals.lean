/-
# Theory.Globals — what the flush does to its globals and to which blocks

The flush keeps the newest record and the position of its last write in two
globals. Its functions are read here through these alone, so that every outcome of
every command is covered at once.

* `Within R a` — the action leaves the globals alone, and if it erases or programs
  it does so at a reserved position in `R`;
* `flushTabledata_globals` — the new record and the positions it names; only the
  next positions of the ring are erased or programmed;
* `flushMetadata_globals` — the record stays; only the four blocks of a group are
  erased or programmed.
-/
import FpgaSsd.Lib.Projection
import FpgaSsd.Theory.Image

namespace FpgaSsd.Theory

open FpgaSsd.Lib FpgaSsd.Driver

set_option autoImplicit false

/-- The two globals of the flush, and what it only reads. -/
structure Globals where
  metaPos : MetaPosition
  metadata : SsdMetadata
  opened : Bool
  hash : Nat → Nat → HashHead

def globals (d : Device) : Globals := ⟨d.metaPos, d.metadata, d.opened, fun c => (d.ch c).hash⟩

/-! ## Commands that change the flash -/

/-- The command erases or programs something on the flash. -/
def Changes (cmd : Nat) : Prop :=
  (Command.ofWord cmd).flag = flagWrite ∨ (Command.ofWord cmd).flag = flagErase ∨
    (Command.ofWord cmd).flag = flagWritetableToFlash ∨ (Command.ofWord cmd).flag = flagErasetables

/-- The command programs a page of the block at a position in `R`, or erases it. -/
def Targets (R : Nat → Prop) (c cmd : Nat) : Prop :=
  ∃ pos page, R pos ∧ pos < reserveBlocksTotal ∧ page < ssdPagesPerBlock ∧ c = posChannel pos ∧
    (cmd = tableCmd (physBlock pos) page flagWritetableToFlash ∨
      cmd = tableCmd (physBlock pos) page flagErasetables)

/-- An action that erases or programs does so at a position in `R`. -/
def Inside (R : Nat → Prop) : Act → Prop
  | .chan c (.issue cmd) => Changes cmd → Targets R c cmd
  | _ => True

def Within (R : Nat → Prop) : Act → Prop
  | .modMeta _ | .modMetaPos _ | .setOpened _ => False
  | .chan _ (.setIdInfo ..) | .chan _ (.delIdInfo _) | .chan _ (.initBucket _) => False
  | .chan _ (.freeBucket _) => False
  | a => Inside R a

variable {R R' : Nat → Prop} {α : Type} {pos page c : Nat}

theorem Within.inside {a : Act} (within : Within R a) : Inside R a := by
  cases a
  case chan c a =>
      cases a
      case issue cmd => exact within
      all_goals trivial
  all_goals trivial

theorem Targets.mono {cmd : Nat} (targets : Targets R c cmd) (sub : ∀ pos, R pos → R' pos) :
    Targets R' c cmd := by
  obtain ⟨pos, page, member, rest⟩ := targets
  exact ⟨pos, page, sub pos member, rest⟩

theorem Inside.mono {a : Act} (inside : Inside R a) (sub : ∀ pos, R pos → R' pos) : Inside R' a := by
  cases a
  case chan c a =>
      cases a
      case issue cmd => exact fun changes => (inside changes).mono sub
      all_goals trivial
  all_goals trivial

theorem globals_setCh {d : Device} {c : Nat} {ch : Channel} (hash : ch.hash = (d.ch c).hash) :
    globals (d.setCh c ch) = globals d := by
  have same : (fun c' => ((d.setCh c ch).ch c').hash) = fun c' => (d.ch c').hash := by
    funext c'
    by_cases here : c' = c
    · subst here
      rw [Device.setCh_ch_same, hash]
    · rw [Device.setCh_ch_other _ _ here]
  simp only [globals, same]
  rfl

theorem Within.keeps {a : Act} {o : Outcome} {d d' : Device} {r : a.Reply} (within : Within R a)
    (step : d.perform 0 a o = some (r, d')) : globals d' = globals d := by
  cases a
  case chan c a =>
      obtain ⟨⟨r', ch⟩, acted, eq⟩ := Option.map_eq_some_iff.1 step
      cases eq
      apply globals_setCh
      cases a
      case setIdInfo | delIdInfo | initBucket | freeBucket => cases within
      case await =>
          obtain ⟨cmd, kbuf, flash, -, -, -, rfl⟩ := Channel.perform_await acted
          rfl
      case space f =>
          obtain ⟨⟨r, space⟩, -, eq⟩ := Option.map_eq_some_iff.1 acted
          cases eq
          rfl
      all_goals
        cases acted
        rfl
  case down c =>
      simp only [Device.perform] at step
      split at step
      · cases step
        exact globals_setCh rfl
      · cases step
  case up c =>
      cases step
      exact globals_setCh rfl
  case downFlush =>
      simp only [Device.perform] at step
      split at step
      · cases step
        rfl
      · cases step
  case modMeta | modMetaPos | setOpened => cases within
  all_goals
    cases step
    rfl

theorem not_changes_read (low : page < ssdPagesPerBlock) :
    ¬ Changes (tableCmd (physBlock pos) page flagReadtablesFromFlash) := by
  rw [Changes, ofWord_tableCmd low (by decide)]
  simp

theorem not_changes_ram {flag : Nat} (ram : flag = flagReadAddrTable ∨ flag = flagReadEraseTable) :
    ¬ Changes (cmdValue 0 addrTablePages flag) := by
  rcases ram with rfl | rfl
  · rw [Changes, decode_cmdValue (by decide) (by decide) (by decide)]
    decide
  · rw [Changes, decode_cmdValue (by decide) (by decide) (by decide)]
    decide

/-! ## Functions that leave the globals alone -/

theorem channelOp_within {cmd : Nat} (targets : Changes cmd → Targets R c cmd) :
    (channelOp c cmd).All (Within R) :=
  ⟨targets, fun _ => ⟨trivial, fun _ => trivial⟩⟩

theorem withSema_within {body : Drv α} (inner : body.All (Within R)) :
    (Drv.withSema c body).All (Within R) := by
  apply Program.All.bind (.perform trivial)
  intro _
  apply Program.All.bind inner
  intro _
  exact .bind (.perform trivial) fun _ => trivial

/-- A loop that stops at the first failure. -/
theorem untilError_within {body : Nat → Drv Int} {items : List Nat}
    (each : ∀ i ∈ items, (body i).All (Within R)) :
    (Program.firstSome (fun i => do
      let ret ← body i
      pure (if ret ≠ ssdOk then some ret else none)) items).All (Within R) :=
  Program.All.firstSome fun i member => (each i member).bind fun _ => trivial

theorem answer_within {loop : Drv (Option Int)} (inner : loop.All (Within R)) :
    (loop >>= fun
      | some ret => pure ret
      | none => pure ssdOk : Drv Int).All (Within R) := by
  apply inner.bind
  intro found
  cases found <;> trivial

theorem onReserveBlock_within {body : Nat → Nat → Drv Int}
    (inner : pos < reserveBlocksTotal → (body (posChannel pos) (physBlock pos)).All (Within R)) :
    (onReserveBlock pos body).All (Within R) := by
  by_cases inside : pos < reserveBlocksTotal
  · rw [onReserveBlock_eq inside]
    exact withSema_within (inner inside)
  · have outside : calcPhyblock pos = -errNoInvalidBlocks := by
      unfold calcPhyblock
      rw [if_pos (Nat.not_lt.1 inside)]
    simp only [onReserveBlock, outside]
    exact trivial

theorem eraseOneReserveBlock_within (here : R pos) : (eraseOneReserveBlock pos).All (Within R) :=
  onReserveBlock_within fun inside => channelOp_within fun _ =>
    ⟨pos, 0, here, inside, by decide, rfl, .inr rfl⟩

theorem onPages_within {body : Nat → Drv Int}
    (each : ∀ page < ssdPagesPerBlock, (body page).All (Within R)) :
    (onPages body).All (Within R) :=
  answer_within (untilError_within fun page member => each page (List.mem_range.1 member))

theorem writeOneReserveBlock_within (here : R pos) (offset : Nat) :
    (writeOneReserveBlock pos offset).All (Within R) := by
  apply onReserveBlock_within
  intro inside
  apply onPages_within
  intro page low
  apply Program.All.bind (.perform trivial)
  intro image
  apply Program.All.bind (.perform trivial)
  intro _
  exact channelOp_within fun _ => ⟨pos, page, here, inside, low, rfl, .inl rfl⟩

theorem readOneReserveBlock_within (pos : Nat) : (readOneReserveBlock pos).All (Within R) :=
  onReserveBlock_within fun _ => onPages_within fun _ low =>
    channelOp_within fun changes => absurd changes (not_changes_read low)

theorem writeOneReservePage_within (here : R pos) (low : page < ssdPagesPerBlock) :
    (writeOneReservePage pos page).All (Within R) := by
  apply onReserveBlock_within
  intro inside
  apply Program.All.bind (.perform trivial)
  intro record
  apply Program.All.bind (.perform trivial)
  intro _
  exact channelOp_within fun _ => ⟨pos, page, here, inside, low, rfl, .inl rfl⟩

theorem readOneReservePage_within (low : page < ssdPagesPerBlock) :
    (readOneReservePage pos page).All (Within R) :=
  onReserveBlock_within fun _ => channelOp_within fun changes => absurd changes (not_changes_read low)

theorem writeTabledataBlock_within (here : R pos) (offset : Nat) :
    (writeTabledataBlock pos offset).All (Within R) := by
  apply Program.All.bind (eraseOneReserveBlock_within here)
  intro ret
  split
  · trivial
  apply Program.All.bind (writeOneReserveBlock_within here offset)
  intro ret
  split
  · trivial
  · exact readOneReserveBlock_within pos

theorem writeTabledataBlockDuplicate_within (here : ∀ p, Twice pos p → R p) (offset : Nat) :
    (writeTabledataBlockDuplicate pos offset).All (Within R) := by
  apply answer_within
  apply untilError_within
  intro i member
  apply writeTabledataBlock_within
  have two : i = 0 ∨ i = 1 := by
    have := List.mem_range.1 member
    simp only [tableDuplicate] at this
    omega
  apply here
  rcases two with rfl | rfl
  · exact .inl (by rw [Nat.zero_mul, Nat.add_zero])
  · exact .inr (by rw [Nat.one_mul])

theorem ramTableRead_within (p : TableParam) : (ramTableRead p).All (Within R) := by
  apply channelOp_within
  intro changes
  refine absurd changes (not_changes_ram ?_)
  split
  · exact .inr rfl
  · exact .inl rfl

theorem copyRamTable_within (channel offset : Nat) : (copyRamTable channel offset).All (Within R) := by
  apply withSema_within
  apply Program.All.bind (ramTableRead_within _)
  intro ret
  split
  · trivial
  apply Program.All.bind (.perform trivial)
  intro addr
  apply Program.All.bind (.perform trivial)
  intro _
  apply Program.All.bind (ramTableRead_within _)
  intro ret
  split
  · trivial
  apply Program.All.bind (.perform trivial)
  intro erase
  exact .bind (.perform trivial) fun _ => trivial

theorem copyRamTables_within : copyRamTables.All (Within R) :=
  untilError_within fun channel _ => copyRamTable_within channel _

theorem copyIdBuckets_within (channel : Nat) (buckets : List Nat) (n : Nat) :
    (copyIdBuckets channel buckets n).All (Within R) := by
  induction buckets generalizing n with
  | nil => trivial
  | cons b rest ih =>
      apply Program.All.bind (.perform trivial)
      intro nodes
      exact .bind (.perform trivial) fun _ => ih _

theorem copyIdHash_within : copyIdHash.All (Within R) := by
  have channels : ∀ (l : List Nat) (n : Nat), (copyIdChannels l n).All (Within R) := by
    intro l
    induction l with
    | nil => exact fun _ => trivial
    | cons channel rest ih => exact fun n => (copyIdBuckets_within ..).bind fun _ => ih _
  exact channels _ 0

/-! ## Triples -/

/-- The obligation: `Q` holds of the globals, and the flash changes inside `R` only. -/
def Guarded (Q : Globals → Prop) (R : Nat → Prop) (g : Globals) (a : Act) : Prop := Q g ∧ Inside R a

abbrev OnGlobals (Q : Globals → Prop) (R : Nat → Prop) (p : Drv α) (post : α → Globals → Prop)
    (g : Globals) : Prop := Via (Device.perform 0) globals (Guarded Q R) anyOutcome p post g

variable {Q : Globals → Prop} {g : Globals}

theorem OnGlobals.within {p : Drv α} (all : p.All (Within R)) (here : Q g) :
    OnGlobals Q R p (fun _ g' => g' = g) g :=
  Via.still all (fun _ within => ⟨here, within.inside⟩) fun _ _ _ _ _ within step => within.keeps step

/-- A loop that stops at the first failure answers with a failure. -/
theorem OnGlobals.untilError {body : Nat → Drv Int} {items : List Nat}
    (each : ∀ i ∈ items, (body i).All (Within R)) (here : Q g) :
    OnGlobals Q R (Program.firstSome (fun i => do
      let ret ← body i
      pure (if ret ≠ ssdOk then some ret else none)) items)
      (fun found g' => g' = g ∧ ∀ ret, found = some ret → ret ≠ ssdOk) g := by
  induction items with
  | nil => exact Via.pure ⟨rfl, fun ret no => nomatch no⟩
  | cons i rest ih =>
      refine Via.seq (M := fun found g' => g' = g ∧ ∀ ret, found = some ret → ret ≠ ssdOk) ?_ ?_
      · refine Via.seq (OnGlobals.within (each i (List.mem_cons_self ..)) here) ?_
        rintro ret g rfl
        refine Via.pure ⟨rfl, fun ret' eq => ?_⟩
        split at eq
        · rename_i bad
          rwa [← Option.some.inj eq]
        · cases eq
      · rintro found g ⟨rfl, bad⟩
        cases found with
        | some ret => exact Via.pure ⟨rfl, bad⟩
        | none => exact ih fun j member => each j (List.mem_cons_of_mem _ member)

theorem OnGlobals.getMeta (here : Q g) :
    OnGlobals Q R Drv.getMeta (fun r g' => r = g.metadata ∧ g' = g) g := by
  apply Via.act ⟨here, trivial⟩
  intro d o r d' shows _ step
  cases step
  subst shows
  exact ⟨rfl, rfl⟩

theorem OnGlobals.getMetaPos (here : Q g) :
    OnGlobals Q R Drv.getMetaPos (fun r g' => r = g.metaPos ∧ g' = g) g := by
  apply Via.act ⟨here, trivial⟩
  intro d o r d' shows _ step
  cases step
  subst shows
  exact ⟨rfl, rfl⟩

theorem OnGlobals.modMeta (here : Q g) (f : SsdMetadata → SsdMetadata) :
    OnGlobals Q R (Drv.modMeta f) (fun _ g' => g' = { g with metadata := f g.metadata }) g := by
  apply Via.act ⟨here, trivial⟩
  intro d o r d' shows _ step
  cases step
  subst shows
  rfl

theorem OnGlobals.modMetaPos (here : Q g) (f : MetaPosition → MetaPosition) :
    OnGlobals Q R (Drv.modMetaPos f) (fun _ g' => g' = { g with metaPos := f g.metaPos }) g := by
  apply Via.act ⟨here, trivial⟩
  intro d o r d' shows _ step
  cases step
  subst shows
  rfl

/-! ## The table blocks -/

/-- `Q` survives the entry of a position of the ring in the record. -/
def KeepsPlaced (Q : Globals → Prop) : Prop := ∀ g i cur k, i < 5 → Q g →
  Q { g with metadata := setTablePosInMeta i (ringPos cur (k + 1)) g.metadata }

theorem retryWriteTabledataBlock_globals {i : Nat} (offset n cur : Nat) (small : i < 5)
    (keeps : KeepsPlaced Q) (sub : ∀ p, Ring cur n p → R p) (here : Q g) :
    OnGlobals Q R (retryWriteTabledataBlock i offset n cur) (fun ret g' => Q g' ∧
      ((∃ k < n, ret = (ringPos cur (k + 1) : Int) ∧
          g' = { g with metadata := setTablePosInMeta i (ringPos cur (k + 1)) g.metadata }) ∨
        ret < 0 ∧ g' = g)) g := by
  induction n generalizing cur with
  | zero => exact Via.pure ⟨here, .inr ⟨by decide, rfl⟩⟩
  | succ n ih =>
      have first : ∀ p, Twice (findNewTablePos cur) p → R p := fun p twice =>
        sub p ⟨0, Nat.succ_pos n, twice⟩
      have later : ∀ p, Ring (findNewTablePos cur) n p → R p := fun p member =>
        sub p ((Ring.later (a := 1) member).mono (by omega))
      refine Via.seq (OnGlobals.within (writeTabledataBlockDuplicate_within first offset) here) ?_
      intro ret g' same
      subst same
      split
      · refine Via.seq (OnGlobals.modMeta here _) ?_
        intro _ g' same
        subst same
        have kept := keeps g' i cur 0 small here
        exact Via.pure ⟨kept, .inl ⟨0, Nat.succ_pos n, rfl, rfl⟩⟩
      · refine (ih (findNewTablePos cur) later).weaken ?_
        rintro ret g2 ⟨kept, ⟨k, less, answer, record⟩ | failed⟩
        · rw [← ringPos_succ] at answer record
          exact ⟨kept, .inl ⟨k + 1, Nat.succ_lt_succ less, answer, record⟩⟩
        · exact ⟨kept, .inr failed⟩

theorem flushTableBlocks_globals (n i cur : Nat) (fits : i + n ≤ 5) (keeps : KeepsPlaced Q)
    (sub : ∀ p, Ring cur (ssdMaxFlushTableRetry * n) p → R p) (here : Q g) :
    OnGlobals Q R (flushTableBlocks n i cur) (fun ret g' => Q g' ∧ (ret = ssdOk ∨ ret < 0) ∧
      g' = { g with metadata := g'.metadata } ∧ ∃ j off, j ≤ n ∧ (ret = ssdOk → j = n) ∧
        Placed g.metadata g'.metadata i j cur off) g := by
  induction n generalizing g i cur with
  | zero => exact Via.pure ⟨here, .inl rfl, rfl, 0, _, Nat.le_refl 0, fun _ => rfl, .zero ..⟩
  | succ n ih =>
      have first : ∀ p, Ring cur ssdMaxFlushTableRetry p → R p := fun p member =>
        sub p (member.mono (by simp only [ssdMaxFlushTableRetry]; omega))
      refine Via.seq (retryWriteTabledataBlock_globals _ ssdMaxFlushTableRetry cur (by omega) keeps
        first here) ?_
      rintro ret g' ⟨kept, ⟨k, less, rfl, rfl⟩ | ⟨bad, rfl⟩⟩
      · have later : ∀ p, Ring (ringPos cur (k + 1)) (ssdMaxFlushTableRetry * n) p → R p :=
          fun p member => sub p (member.later.mono (by
            simp only [ssdMaxFlushTableRetry] at *
            omega))
        rw [if_neg (Int.not_lt.2 (Int.natCast_nonneg _)), Int.toNat_natCast]
        refine (ih (i + 1) _ (by omega) later kept).weaken ?_
        rintro ret g2 ⟨kept, sign, same, j, off, le, all, placed⟩
        exact ⟨kept, sign, same, j + 1, offsetsBehind (k + 1) off, Nat.succ_le_succ le,
          fun ok => by rw [all ok], placed.cons less (by omega)⟩
      · rw [if_pos bad]
        refine Via.pure ⟨kept, .inr bad, rfl, 0, _, Nat.zero_le _, fun ok => ?_, .zero ..⟩
        rw [ok] at bad
        exact absurd bad (by decide)

/-- **The table blocks and the new record**, for every outcome. -/
theorem flushTabledata_globals (n : Nat) (type : FlushType) (keeps : KeepsPlaced Q)
    (renews : n ≤ ssdMaxIdNum → ∀ m off now, Q { g with metadata := m } →
      Placed g.metadata m 0 (tableBlockNum n) (tableCur g.metadata) off →
        Q { g with metadata := flushed n type now m })
    (sub : n ≤ ssdMaxIdNum → ∀ p,
      Ring (tableCur g.metadata) (ssdMaxFlushTableRetry * tableBlockNum n) p → R p) (here : Q g) :
    OnGlobals Q R (flushTabledata n type) (fun ret g' => Q g' ∧ g' = { g with metadata := g'.metadata } ∧
      ∃ m j off, Placed g.metadata m 0 j (tableCur g.metadata) off ∧ j ≤ 5 ∧
        (ret = ssdOk ∧ n ≤ ssdMaxIdNum ∧ j = tableBlockNum n ∧
            (∃ now, g'.metadata = flushed n type now m) ∨
          ret ≠ ssdOk ∧ g'.metadata = m)) g := by
  rw [flushTabledata]
  split
  · exact Via.pure ⟨here, rfl, _, 0, _, .zero .., Nat.zero_le _, .inr ⟨by decide, rfl⟩⟩
  rename_i few
  have few := Nat.not_lt.1 few
  have fits : 0 + tableBlockNum n ≤ 5 := by
    rw [Nat.zero_add]
    exact tableBlockNum_le few
  refine Via.seq (OnGlobals.getMeta here) ?_
  rintro old g ⟨rfl, rfl⟩
  refine Via.seq (flushTableBlocks_globals (tableBlockNum n) 0 _ fits keeps (sub few) here) ?_
  rintro ret g1 ⟨kept, sign, same, j, off, le, all, placed⟩
  split
  · rename_i failed
    refine Via.pure ⟨kept, same, _, j, off, placed, Nat.le_trans le (tableBlockNum_le few),
      .inr ⟨fun ok => ?_, rfl⟩⟩
    rw [ok] at failed
    exact absurd failed (by decide)
  rename_i done
  have ok : ret = ssdOk := sign.resolve_right done
  obtain rfl := all ok
  have le : tableBlockNum n ≤ 5 := tableBlockNum_le few
  refine Via.seq (OnGlobals.within (.perform trivial) kept) ?_
  rintro now g1 rfl
  refine Via.seq (OnGlobals.modMeta kept _) ?_
  rintro _ g2 rfl
  have renewed := renews few g1.metadata off now (by rwa [← same]) placed
  have same' : { g1 with metadata := flushed n type now g1.metadata } =
      { g with metadata := flushed n type now g1.metadata } := by
    rw [same]
  refine Via.pure ⟨?_, same', _, _, off, placed, le, .inl ⟨rfl, few, rfl, now, rfl⟩⟩
  exact same' ▸ renewed

/-! ## The metadata group -/

/-- `Q` puts the position of the record on a page of a group inside `R`. -/
def InArea (Q : Globals → Prop) (R : Nat → Prop) : Prop := ∀ g, Q g →
  g.metaPos.page < ssdPagesPerBlock ∧ ∀ plane < ssdMaxPlanes, R (g.metaPos.blockPos + plane)

theorem writeMetaPage_within {p : MetaPosition} {plane : Nat} (low : p.page < ssdPagesPerBlock)
    (here : R (p.blockPos + plane)) : (do
      let ret ← eraseIfFirstPage (p.blockPos + plane) p.page
      if ret ≠ ssdOk then pure ret
      else
        let ret ← writeOneReservePage (p.blockPos + plane) p.page
        if ret ≠ ssdOk then pure ret
        else readOneReservePage (p.blockPos + plane) p.page : Drv Int).All (Within R) := by
  have erase : (eraseIfFirstPage (p.blockPos + plane) p.page).All (Within R) := by
    rw [eraseIfFirstPage]
    split
    · exact eraseOneReserveBlock_within here
    · trivial
  apply erase.bind
  intro ret
  split
  · trivial
  apply (writeOneReservePage_within here low).bind
  intro ret
  split
  · trivial
  · exact readOneReservePage_within low

theorem writeMetaPages_globals (area : InArea Q R) (planes : List Nat)
    (inside : ∀ plane ∈ planes, plane < ssdMaxPlanes) (success : Nat) (here : Q g) :
    OnGlobals Q R (writeMetaPages planes success) (fun _ g' => g' = g) g := by
  induction planes generalizing success with
  | nil => exact Via.pure rfl
  | cons plane rest ih =>
      refine Via.seq (M := fun _ g' => g' = g) ?_ ?_
      · rw [writeMetaPage]
        refine Via.seq (OnGlobals.getMetaPos here) ?_
        rintro p g ⟨rfl, rfl⟩
        split
        · exact Via.pure rfl
        · obtain ⟨low, group⟩ := area g here
          have here' := group plane (inside plane (List.mem_cons_self ..))
          exact OnGlobals.within (writeMetaPage_within low here') here
      · rintro ret g rfl
        exact ih (fun other member => inside other (List.mem_cons_of_mem _ member)) _

/-- **The metadata group**: the record stays as it is. -/
theorem flushMetadata_globals (area : InArea Q R)
    (moves : ∀ g ret, Q g → Q { g with metaPos := nextMetaPos ret g.metaPos }) (here : Q g) :
    OnGlobals Q R flushMetadata (fun _ g' => Q g' ∧ g' = { g with metaPos := g'.metaPos }) g := by
  have loop : ∀ n ret g, Q g → OnGlobals Q R (flushMetadataLoop n ret)
      (fun _ g' => Q g' ∧ g' = { g with metaPos := g'.metaPos }) g := by
    intro n
    induction n with
    | zero => exact fun _ g here => Via.pure ⟨here, rfl⟩
    | succ n ih =>
        intro last g here
        have moved := moves g last here
        rw [flushMetadataLoop, findNewMetaPos]
        refine Via.seq (M := fun _ g' => g' = { g with metaPos := nextMetaPos last g.metaPos }) ?_ ?_
        · refine Via.seq (OnGlobals.modMetaPos here _) ?_
          rintro _ g' rfl
          exact Via.pure rfl
        rintro ret g' rfl
        split
        · exact Via.pure ⟨moved, rfl⟩
        refine Via.seq (M := fun _ g' => g' = { g with metaPos := nextMetaPos last g.metaPos }) ?_ ?_
        · rw [writeMetadataPageDuplicate]
          refine Via.seq (writeMetaPages_globals area _ (fun plane member => List.mem_range.1 member)
            0 moved) ?_
          rintro success g' rfl
          exact Via.pure rfl
        rintro ret g' rfl
        split
        · exact Via.pure ⟨moved, rfl⟩
        · exact ih ret _ moved
  exact loop _ _ g here

end FpgaSsd.Theory
