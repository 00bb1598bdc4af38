/-
# Theory.Programmed — the metadata pages that a flush programs

The runs of a flush with a log of the commands that erase and program the metadata
blocks. The record that is programmed is the one in memory.

* `Tidy p log` — between two programs of a page there is an erase of its block, and
  the group of `p` has been programmed up to the page of `p`;
* `flushMetadataLoop_logged` — an attempt programs the next page, or erases first;
* `ssdSysFlush_logged` — a flush stays tidy and programs one version, the next one.
-/
import FpgaSsd.Lib.History
import FpgaSsd.Lib.Renewal
import FpgaSsd.Theory.Copies

namespace FpgaSsd.Theory

open FpgaSsd.Lib FpgaSsd.Driver

set_option autoImplicit false

/-! ## The log -/

/-- An erase of a block, and a program of one of its pages with a version number. -/
inductive MetaEvent where
  | erase (channel block : Nat)
  | program (channel block page : Nat) (version : UInt64)

namespace MetaEvent

def version : MetaEvent → Option UInt64
  | .erase .. => none
  | .program _ _ _ version => some version

/-- The event programs the page. -/
def Programs (channel block page : Nat) (e : MetaEvent) : Prop := ∃ version, e = .program channel block page version

end MetaEvent

/-- The metadata blocks are on the first channels. -/
abbrev metaChannels : Nat := reserveBlocksMeta / reserveBlocksPerChannel

/-- The event of a command that is issued, with the buffer of its channel. -/
def eventOf (c : Nat) (cmd : Command) (kbuf : Mem) : List MetaEvent :=
  if cmd.flag = flagErasetables then [.erase c (cmd.start / ssdPagesPerBlock)]
  else if cmd.flag = flagWritetableToFlash then
    [.program c (cmd.start / ssdPagesPerBlock) (cmd.start % ssdPagesPerBlock) (SsdMetadata.decode kbuf).version]
  else []

def logMeta (a : Act) (_ : a.Reply) (d _ : Device) (log : List MetaEvent) : List MetaEvent :=
  match a with
  | .chan c (.issue cmd) =>
      if c < metaChannels then log ++ eventOf c (Command.ofWord cmd) (d.ch c).kbuf else log
  | _ => log

/-- The triple with the log. -/
abbrev LogsMeta {α : Type} (p : Drv α) (post : α → Device → List MetaEvent → Prop) (d : Device)
    (log : List MetaEvent) : Prop :=
  Traced (Device.perform 0) logMeta anyOutcome p post d log

section Logged

variable {α : Type} {d : Device} {log : List MetaEvent} {pos page : Nat}

/-- Nothing is logged of an action that erases and programs table blocks only. -/
theorem inside_unlogged {a : Act} (inside : Inside TableRegion a) (r : a.Reply) (d d' : Device)
    (log : List MetaEvent) : logMeta a r d d' log = log := by
  cases a
  case chan c a =>
      cases a
      case issue cmd =>
          simp only [logMeta]
          split
          · rename_i low
            have quiet : ¬ Changes cmd := by
              intro changes
              obtain ⟨pos, page, region, total, -, rfl, -⟩ := inside changes
              rw [posChannel_eq total] at low
              simp only [TableRegion, reserveBlocksMeta, metaChannels, reserveBlocksPerChannel] at *
              omega
            rw [Changes, not_or, not_or, not_or] at quiet
            rw [eventOf, if_neg quiet.2.2.2, if_neg quiet.2.2.1, List.append_nil]
          · rfl
      all_goals rfl
  all_goals rfl

/-- A triple on the globals of a program that stays with the table blocks. -/
theorem OnGlobals.logged {Q : Globals → Prop} {p : Drv α} {post : α → Globals → Prop}
    (triple : OnGlobals Q TableRegion p post (globals d)) :
    LogsMeta p (fun value d' log' => post value (globals d') ∧ log' = log) d log := by
  have safe := triple d rfl
  exact Traced.unrecorded (fun _ a guarded => inside_unlogged (a := a) guarded.2) safe

/-- A program that leaves the globals alone and stays with the table blocks. -/
theorem within_logged {p : Drv α} (all : p.All (Within TableRegion)) :
    LogsMeta p (fun _ d' log' => globals d' = globals d ∧ log' = log) d log :=
  OnGlobals.logged (OnGlobals.within (Q := fun _ => True) all trivial)

/-- A command on a metadata block. -/
theorem channelOp_logged {c cmd : Nat} (low : c < metaChannels) :
    LogsMeta (channelOp c cmd) (fun _ d' log' => globals d' = globals d ∧
      log' = log ++ eventOf c (Command.ofWord cmd) (d.ch c).kbuf) d log := by
  refine Traced.seq (M := fun _ d' log' => globals d' = globals d ∧
    log' = log ++ eventOf c (Command.ofWord cmd) (d.ch c).kbuf) ?_ ?_
  · apply Traced.action
    intro o r d1 _ step
    cases step
    refine ⟨globals_setCh rfl, ?_⟩
    simp only [logMeta, if_pos low]
  · rintro _ d1 log1 ⟨same1, rfl⟩
    refine (within_logged (p := Drv.chan c .await) (.perform trivial)).weaken ?_
    rintro _ d2 log2 ⟨same2, rfl⟩
    exact ⟨same2.trans same1, rfl⟩

theorem posChannel_low (inside : pos < reserveBlocksMeta) : posChannel pos < metaChannels := by
  rw [posChannel_eq (metaPos_inside inside)]
  simp only [reserveBlocksMeta, metaChannels, reserveBlocksPerChannel] at *
  omega

theorem pageAddr_mod (low : page < ssdPagesPerBlock) : pageAddr pos page % ssdPagesPerBlock = page := by
  simp only [pageAddr, ssdPagesPerBlock] at *
  omega

/-- A section logs what its body logs. -/
theorem withSema_logged {c : Nat} {body : Drv Int} {g : Globals} {new : List MetaEvent}
    (shows : globals d = g)
    (inner : ∀ d1, globals d1 = g →
      LogsMeta body (fun _ d' log' => globals d' = g ∧ log' = log ++ new) d1 log) :
    LogsMeta (Drv.withSema c body) (fun _ d' log' => globals d' = g ∧ log' = log ++ new) d log := by
  refine Traced.seq (within_logged (p := Drv.down c) (.perform trivial)) ?_
  rintro _ d1 _ ⟨same1, rfl⟩
  refine Traced.seq (inner d1 (same1.trans shows)) ?_
  rintro ret d2 _ ⟨same2, rfl⟩
  refine Traced.seq (within_logged (p := Drv.up c) (.perform trivial)) ?_
  rintro _ d3 _ ⟨same3, rfl⟩
  exact Traced.pure ⟨same3.trans same2, rfl⟩

theorem eraseOneReserveBlock_logged (inside : pos < reserveBlocksMeta) :
    LogsMeta (eraseOneReserveBlock pos) (fun _ d' log' => globals d' = globals d ∧
      log' = log ++ [.erase (posChannel pos) (physBlock pos)]) d log := by
  rw [eraseOneReserveBlock, onReserveBlock_eq (metaPos_inside inside)]
  apply withSema_logged rfl
  intro d1 same1
  refine (channelOp_logged (posChannel_low inside)).weaken ?_
  rintro _ d2 log2 ⟨same2, rfl⟩
  refine ⟨same2.trans same1, ?_⟩
  rw [ofWord_tableCmd (by decide) (by decide), eventOf, if_pos rfl, pageAddr_div pos (by decide)]

theorem writeOneReservePage_logged (inside : pos < reserveBlocksMeta) (low : page < ssdPagesPerBlock) :
    LogsMeta (writeOneReservePage pos page) (fun _ d' log' => globals d' = globals d ∧
      log' = log ++ [.program (posChannel pos) (physBlock pos) page d.metadata.version]) d log := by
  rw [writeOneReservePage, onReserveBlock_eq (metaPos_inside inside)]
  apply withSema_logged rfl
  intro d1 same1
  refine Traced.seq (OnGlobals.logged (OnGlobals.getMeta (Q := fun _ => True) trivial)) ?_
  rintro record d2 log ⟨⟨rfl, same2⟩, rfl⟩
  refine Traced.seq (M := fun _ d' log' => globals d' = globals d ∧ log' = log ∧
    (SsdMetadata.decode (d'.ch (posChannel pos)).kbuf).version = d.metadata.version) ?_ ?_
  · apply Traced.action
    intro o r d3 _ step
    cases step
    refine ⟨?_, rfl, ?_⟩
    · refine Eq.trans ?_ (same2.trans same1)
      exact globals_setCh rfl
    rw [Device.setCh_ch_same, SsdMetadata.decode_encode]
    exact congrArg (fun g : Globals => g.metadata.version) same1
  rintro _ d3 log ⟨same3, rfl, version⟩
  refine (channelOp_logged (posChannel_low inside)).weaken ?_
  rintro _ d4 log4 ⟨same4, rfl⟩
  refine ⟨same4.trans same3, ?_⟩
  have other : flagWritetableToFlash ≠ flagErasetables := by decide
  rw [ofWord_tableCmd low (by decide), eventOf, if_neg other, if_pos rfl, pageAddr_div pos low,
    pageAddr_mod low, version]

end Logged

/-! ## Tidy logs -/

/-- The page has been programmed and its block not been erased since. -/
def SpentAt (log : List MetaEvent) (pos page : Nat) : Prop :=
  Spent (MetaEvent.Programs (posChannel pos) (physBlock pos) page)
    (· = .erase (posChannel pos) (physBlock pos)) log

/-- Between two programs of a page there is an erase of its block. -/
def OncePerErase (log : List MetaEvent) : Prop :=
  ∀ c b page, Renewed (MetaEvent.Programs c b page) (· = .erase c b) log

/-- The group of `p` is programmed up to the page of `p`. -/
structure Tidy (p : MetaPosition) (log : List MetaEvent) : Prop where
  once : OncePerErase log
  below : ∀ plane < ssdMaxPlanes, ∀ page, SpentAt log (p.blockPos + plane) page → page ≤ p.page

/-- The programs of a log have this version. -/
def OfVersion (version : UInt64) (log : List MetaEvent) : Prop :=
  ∀ e ∈ log, ∀ v, e.version = some v → v = version

section Tidy

variable {log : List MetaEvent} {pos pos' page page' : Nat} {version : UInt64}

theorem once_erase (once : OncePerErase log) : OncePerErase (log ++ [.erase (posChannel pos) (physBlock pos)]) := by
  intro c b page
  apply renewed_concat (once c b page)
  rintro ⟨v, eq⟩
  cases eq

theorem spentAt_erase (spent : SpentAt (log ++ [.erase (posChannel pos) (physBlock pos)]) pos' page) :
    SpentAt log pos' page ∧ pos' ≠ pos := by
  rcases spent_concat.1 spent with ⟨v, eq⟩ | ⟨old, fresh⟩
  · cases eq
  · refine ⟨old, fun same => ?_⟩
    subst same
    exact fresh rfl

theorem once_program (once : OncePerErase log) (fresh : ¬ SpentAt log pos page) :
    OncePerErase (log ++ [.program (posChannel pos) (physBlock pos) page version]) := by
  intro c b pg
  apply renewed_concat (once c b pg)
  rintro ⟨v, eq⟩
  cases eq
  exact fresh

theorem spentAt_program (inside : pos < reserveBlocksMeta) (inside' : pos' < reserveBlocksMeta)
    (spent : SpentAt (log ++ [.program (posChannel pos) (physBlock pos) page version]) pos' page') :
    (pos' = pos ∧ page' = page) ∨ SpentAt log pos' page' := by
  rcases spent_concat.1 spent with ⟨v, eq⟩ | ⟨old, -⟩
  · obtain ⟨channel, block, rfl, -⟩ := MetaEvent.program.inj eq
    exact .inl ⟨(physBlock_inj (metaPos_inside inside) (metaPos_inside inside') channel block).symm, rfl⟩
  · exact .inr old

end Tidy

/-! ## One page -/

/-- The block may be programmed at the page of `p`, or is erased first. -/
def MayProgram (p : MetaPosition) (log : List MetaEvent) (plane : Nat) : Prop :=
  p.page = 0 ∨ ∀ page, SpentAt log (p.blockPos + plane) page → page < p.page

/-- What the page of one plane adds to a log. -/
structure PlaneLogged (p : MetaPosition) (plane : Nat) (version : UInt64) (log log' : List MetaEvent) :
    Prop where
  new : ∃ new, log' = log ++ new ∧ OfVersion version new
  once : OncePerErase log'
  here : ∀ page, SpentAt log' (p.blockPos + plane) page → page ≤ p.page
  other : ∀ pos < reserveBlocksMeta, pos ≠ p.blockPos + plane → ∀ page,
    SpentAt log' pos page → SpentAt log pos page

section Plane

variable {d : Device} {log : List MetaEvent} {plane : Nat}

theorem plane_inside (inGroup : InGroup d.metaPos) (less : plane < ssdMaxPlanes) :
    d.metaPos.blockPos + plane < reserveBlocksMeta := by
  obtain ⟨aligned, group, -⟩ := inGroup
  simp only [ssdMaxPlanes, reserveBlocksMeta] at *
  omega

/-- The block before its page is programmed. -/
theorem eraseIfFirstPage_logged (inGroup : InGroup d.metaPos) (less : plane < ssdMaxPlanes)
    (once : OncePerErase log) (may : MayProgram d.metaPos log plane) :
    LogsMeta (eraseIfFirstPage (d.metaPos.blockPos + plane) d.metaPos.page) (fun _ d' log' =>
      globals d' = globals d ∧ PlaneLogged d.metaPos plane d.metadata.version log log' ∧
        ∀ page, SpentAt log' (d.metaPos.blockPos + plane) page → page < d.metaPos.page) d log := by
  rw [eraseIfFirstPage]
  split
  · refine (eraseOneReserveBlock_logged (plane_inside inGroup less)).weaken ?_
    rintro _ d1 log1 ⟨same, rfl⟩
    have none : ∀ page, ¬ SpentAt (log ++ [.erase (posChannel (d.metaPos.blockPos + plane))
        (physBlock (d.metaPos.blockPos + plane))]) (d.metaPos.blockPos + plane) page :=
      fun page spent => (spentAt_erase spent).2 rfl
    refine ⟨same, ⟨⟨_, rfl, ?_⟩, once_erase once, fun page spent => absurd spent (none page), ?_⟩,
      fun page spent => absurd spent (none page)⟩
    · intro e member v eq
      obtain rfl := List.mem_singleton.1 member
      cases eq
    · exact fun pos _ _ page spent => (spentAt_erase spent).1
  · rename_i later
    have fresh := may.resolve_left later
    refine Traced.pure ⟨rfl, ⟨⟨[], (List.append_nil log).symm, fun _ member => absurd member List.not_mem_nil⟩,
      once, fun page spent => Nat.le_of_lt (fresh page spent), fun _ _ _ _ spent => spent⟩, fresh⟩

theorem writeMetaPage_logged (inGroup : InGroup d.metaPos) (less : plane < ssdMaxPlanes)
    (once : OncePerErase log) (may : MayProgram d.metaPos log plane) :
    LogsMeta (writeMetaPage plane) (fun _ d' log' =>
      globals d' = globals d ∧ PlaneLogged d.metaPos plane d.metadata.version log log') d log := by
  have inside := plane_inside inGroup less
  refine Traced.seq (OnGlobals.logged (OnGlobals.getMetaPos (Q := fun _ => True) trivial)) ?_
  rintro p d1 log ⟨⟨here, same1⟩, rfl⟩
  obtain rfl : p = d.metaPos := here
  have pos1 : d1.metaPos = d.metaPos := congrArg Globals.metaPos same1
  have version1 : d1.metadata.version = d.metadata.version :=
    congrArg (fun g : Globals => g.metadata.version) same1
  have inGroup1 : InGroup d1.metaPos := by rwa [pos1]
  have may1 : MayProgram d1.metaPos log plane := by rwa [pos1]
  have erase := eraseIfFirstPage_logged inGroup1 less once may1
  rw [pos1, version1] at erase
  rw [if_neg (not_not.2 inGroup.aligned)]
  refine Traced.seq erase ?_
  rintro ret d2 log2 ⟨same2, erased, fresh⟩
  have same2 := same2.trans same1
  split
  · exact Traced.pure ⟨same2, erased⟩
  have version2 : d2.metadata.version = d.metadata.version :=
    congrArg (fun g : Globals => g.metadata.version) same2
  refine Traced.seq (writeOneReservePage_logged inside inGroup.page) ?_
  rintro ret d3 log3 ⟨same3, rfl⟩
  rw [version2]
  have written : PlaneLogged d.metaPos plane d.metadata.version log
      (log2 ++ [.program (posChannel (d.metaPos.blockPos + plane)) (physBlock (d.metaPos.blockPos + plane))
        d.metaPos.page d.metadata.version]) := by
    obtain ⟨new, rfl, ofVersion⟩ := erased.new
    refine ⟨⟨_, List.append_assoc .., ?_⟩, once_program erased.once fun spent => ?_, ?_, ?_⟩
    · intro e member v eq
      rcases List.mem_append.1 member with old | last
      · exact ofVersion e old v eq
      · obtain rfl := List.mem_singleton.1 last
        exact (Option.some.inj eq).symm
    · exact absurd (fresh _ spent) (Nat.lt_irrefl _)
    · intro page spent
      rcases spentAt_program inside inside spent with ⟨-, rfl⟩ | old
      · exact Nat.le_refl _
      · exact Nat.le_of_lt (fresh page old)
    · intro pos inside' apart page spent
      rcases spentAt_program inside inside' spent with ⟨same, -⟩ | old
      · exact absurd same apart
      · exact erased.other pos inside' apart page old
  have same3 := same3.trans same2
  split
  · exact Traced.pure ⟨same3, written⟩
  refine (within_logged (readOneReservePage_within inGroup.page)).weaken ?_
  rintro _ d4 _ ⟨same4, rfl⟩
  exact ⟨same4.trans same3, written⟩

end Plane

/-! ## Flushes -/

/-- What is known of a log between the planes of an attempt: `planes` are to come. -/
structure Attempting (p : MetaPosition) (planes : List Nat) (log : List MetaEvent) : Prop where
  once : OncePerErase log
  later : ∀ plane ∈ planes, MayProgram p log plane
  below : ∀ plane < ssdMaxPlanes, plane ∉ planes → ∀ page, SpentAt log (p.blockPos + plane) page → page ≤ p.page

section Flush

variable {d : Device} {log : List MetaEvent}

theorem OfVersion.append {version : UInt64} {log' : List MetaEvent} (first : OfVersion version log)
    (second : OfVersion version log') : OfVersion version (log ++ log') := by
  intro e member
  rcases List.mem_append.1 member with old | new
  · exact first e old
  · exact second e new

theorem Attempting.next {p : MetaPosition} {plane : Nat} {planes : List Nat} {version : UInt64}
    {log' : List MetaEvent} (inside : ∀ k < ssdMaxPlanes, p.blockPos + k < reserveBlocksMeta)
    (few : ∀ k ∈ plane :: planes, k < ssdMaxPlanes) (distinct : (plane :: planes).Nodup)
    (attempting : Attempting p (plane :: planes) log) (logged : PlaneLogged p plane version log log') :
    Attempting p planes log' := by
  have apart : ∀ {k : Nat}, k ≠ plane → p.blockPos + k ≠ p.blockPos + plane := fun other same =>
    other (Nat.add_left_cancel same)
  refine ⟨logged.once, fun k member => ?_, fun k less absent page spent => ?_⟩
  · have other : k ≠ plane := fun same => (List.nodup_cons.1 distinct).1 (same ▸ member)
    have less := few k (List.mem_cons_of_mem _ member)
    refine (attempting.later k (List.mem_cons_of_mem _ member)).imp_right fun fresh page spent => ?_
    exact fresh page (logged.other _ (inside k less) (apart other) page spent)
  · by_cases here : k = plane
    · subst here
      exact logged.here page spent
    · refine attempting.below k less ?_ page (logged.other _ (inside k less) (apart here) page spent)
      exact fun member => (List.mem_cons.1 member).elim here absent

/-- What a part of a flush adds to a log. -/
structure AttemptLogged (d : Device) (log : List MetaEvent) (d' : Device) (log' : List MetaEvent) : Prop where
  new : ∃ new, log' = log ++ new ∧ OfVersion d.metadata.version new
  metadata : d'.metadata = d.metadata
  inGroup : InGroup d'.metaPos
  tidy : Tidy d'.metaPos log'

theorem writeMetaPages_logged (planes : List Nat) (n : Nat) (inGroup : InGroup d.metaPos)
    (few : ∀ k ∈ planes, k < ssdMaxPlanes) (distinct : planes.Nodup)
    (attempting : Attempting d.metaPos planes log) :
    LogsMeta (writeMetaPages planes n) (fun _ d' log' => globals d' = globals d ∧
      AttemptLogged d log d' log') d log := by
  induction planes generalizing n d log with
  | nil =>
      refine Traced.pure ⟨rfl, ⟨[], (List.append_nil log).symm, fun _ member => absurd member List.not_mem_nil⟩,
        rfl, inGroup, attempting.once, fun plane less => ?_⟩
      exact attempting.below plane less List.not_mem_nil
  | cons plane rest ih =>
      have less := few plane (List.mem_cons_self ..)
      refine Traced.seq (writeMetaPage_logged inGroup less attempting.once
        (attempting.later plane (List.mem_cons_self ..))) ?_
      rintro ret d1 log1 ⟨same1, logged⟩
      have pos1 : d1.metaPos = d.metaPos := congrArg Globals.metaPos same1
      have metadata1 : d1.metadata = d.metadata := congrArg Globals.metadata same1
      have next := attempting.next (fun k small => plane_inside inGroup small) few distinct logged
      rw [← pos1] at next
      refine (ih _ (by rwa [pos1]) (fun k member => few k (List.mem_cons_of_mem _ member))
        (List.nodup_cons.1 distinct).2 next).weaken ?_
      rintro _ d2 log2 ⟨same2, ⟨new2, rfl, version2⟩, metadata2, inGroup2, tidy2⟩
      obtain ⟨new1, rfl, version1⟩ := logged.new
      rw [metadata1] at version2
      exact ⟨same2.trans same1, ⟨new1 ++ new2, List.append_assoc .., version1.append version2⟩,
        metadata2.trans metadata1, inGroup2, tidy2⟩

/-- The next position may be programmed. -/
theorem Tidy.next {p : MetaPosition} (tidy : Tidy p log) (ret : Int) :
    Attempting (nextMetaPos ret p) (List.range ssdMaxPlanes) log := by
  refine ⟨tidy.once, fun plane member => ?_, fun plane less absent =>
    absurd (List.mem_range.2 less) absent⟩
  have less := List.mem_range.1 member
  simp only [nextMetaPos]
  split
  · exact .inl rfl
  split
  · exact .inl rfl
  · exact .inr fun page spent => Nat.lt_succ_of_le (tidy.below plane less page spent)

theorem flushMetadataLoop_logged (n : Nat) (ret : Int) (inGroup : InGroup d.metaPos)
    (tidy : Tidy d.metaPos log) :
    LogsMeta (flushMetadataLoop n ret) (fun _ d' log' => AttemptLogged d log d' log') d log := by
  induction n generalizing ret d log with
  | zero =>
      exact Traced.pure ⟨⟨[], (List.append_nil log).symm, fun _ member => absurd member List.not_mem_nil⟩,
        rfl, inGroup, tidy⟩
  | succ n ih =>
      refine Traced.seq (M := fun moved d' log' => moved = ssdOk ∧ d'.metaPos = nextMetaPos ret d.metaPos ∧
        d'.metadata = d.metadata ∧ log' = log) ?_ ?_
      · refine Traced.seq (OnGlobals.logged (OnGlobals.modMetaPos (Q := fun _ => True) trivial _)) ?_
        rintro _ d1 _ ⟨moved, rfl⟩
        exact Traced.pure ⟨rfl, congrArg Globals.metaPos moved, congrArg Globals.metadata moved, rfl⟩
      rintro _ d1 log ⟨rfl, moved, metadata1, rfl⟩
      rw [if_neg (by decide)]
      have inGroup1 : InGroup d1.metaPos := by
        rw [moved]
        exact nextMetaPos_inGroup ret inGroup
      have attempting := tidy.next ret
      rw [← moved] at attempting
      refine Traced.seq (M := fun _ d' log' => AttemptLogged d1 log d' log') ?_ ?_
      · refine Traced.seq (writeMetaPages_logged _ 0 inGroup1 (fun k member => List.mem_range.1 member)
          List.nodup_range attempting) ?_
        rintro count d2 log2 ⟨-, logged⟩
        exact Traced.pure logged
      rintro ret d2 log2 ⟨⟨new2, rfl, version2⟩, metadata2, inGroup2, tidy2⟩
      rw [metadata1] at version2
      have done : AttemptLogged d log d2 (log ++ new2) :=
        ⟨⟨new2, rfl, version2⟩, metadata2.trans metadata1, inGroup2, tidy2⟩
      split
      · exact Traced.pure done
      refine (ih ret inGroup2 tidy2).weaken ?_
      rintro _ d3 log3 ⟨⟨new3, rfl, version3⟩, metadata3, inGroup3, tidy3⟩
      rw [done.metadata] at version3
      exact ⟨⟨new2 ++ new3, List.append_assoc .., version2.append version3⟩,
        metadata3.trans done.metadata, inGroup3, tidy3⟩

/-- The next version; 0 is left out. -/
def nextVersion (version : UInt64) : UInt64 := if version + 1 = 0 then 1 else version + 1

/-- What a flush adds to a log. -/
structure FlushLogged (d : Device) (log : List MetaEvent) (d' : Device) (log' : List MetaEvent) : Prop where
  new : ∃ new, log' = log ++ new ∧ OfVersion d'.metadata.version new ∧
    (new = [] ∧ d'.metadata.version = d.metadata.version ∨
      d'.metadata.version = nextVersion d.metadata.version)
  inGroup : InGroup d'.metaPos
  tidy : Tidy d'.metaPos log'

theorem flushTabledata_logged (n : Nat) (type : FlushType) :
    LogsMeta (flushTabledata n type) (fun ret d' log' => log' = log ∧ d'.metaPos = d.metaPos ∧
      (ret = ssdOk ∧ d'.metadata.version = nextVersion d.metadata.version ∨
        ret ≠ ssdOk ∧ d'.metadata.version = d.metadata.version)) d log := by
  have triple := flushTabledata_globals (Q := fun _ => True) (R := TableRegion) (g := globals d) n type
    (fun _ _ _ _ _ _ => trivial) (fun _ _ _ _ _ _ => trivial) (fun _ p ring => ring_range ring) trivial
  refine triple.logged.weaken ?_
  rintro ret d' log' ⟨⟨-, same, m, j, off, placed, -, answer⟩, rfl⟩
  have version : m.version = d.metadata.version := placed.only.version
  refine ⟨rfl, congrArg Globals.metaPos same, ?_⟩
  rcases answer with ⟨ok, -, -, now, record⟩ | ⟨failed, record⟩
  · refine .inl ⟨ok, ?_⟩
    rw [show d'.metadata = _ from record, nextVersion, ← version]
    rfl
  · exact .inr ⟨failed, by rw [show d'.metadata = m from record, version]⟩

theorem ssdSysFlushBody_logged (type : FlushType) (inGroup : InGroup d.metaPos) (tidy : Tidy d.metaPos log) :
    LogsMeta (ssdSysFlushBody type) (fun _ d' log' => FlushLogged d log d' log') d log := by
  -- where nothing is programmed
  have still : ∀ {d' : Device}, d'.metaPos = d.metaPos → d'.metadata.version = d.metadata.version →
      FlushLogged d log d' log := fun moved version =>
    ⟨⟨[], (List.append_nil log).symm, fun _ member => absurd member List.not_mem_nil, .inl ⟨rfl, version⟩⟩,
      by rwa [moved], by rwa [moved]⟩
  have versionOf : ∀ {d' : Device}, globals d' = globals d → d'.metadata.version = d.metadata.version :=
    congrArg fun g : Globals => g.metadata.version
  refine Traced.seq (within_logged (.perform trivial)) ?_
  rintro _ d1 log ⟨same1, rfl⟩
  refine Traced.seq (within_logged copyRamTables_within) ?_
  rintro found d2 log ⟨same2, rfl⟩
  have same2 := same2.trans same1
  cases found with
  | some ret => exact Traced.pure (still (congrArg Globals.metaPos same2) (versionOf same2))
  | none =>
      refine Traced.seq (within_logged copyIdHash_within) ?_
      rintro n d3 log ⟨same3, rfl⟩
      have same3 := same3.trans same2
      have pos3 : d3.metaPos = d.metaPos := congrArg Globals.metaPos same3
      refine Traced.seq (flushTabledata_logged n type) ?_
      rintro ret d4 log ⟨rfl, moved, answer⟩
      have pos4 := moved.trans pos3
      rw [versionOf same3] at answer
      rcases answer with ⟨rfl, version⟩ | ⟨failed, version⟩
      · rw [if_neg (by decide)]
        refine (flushMetadataLoop_logged _ ssdOk (by rwa [pos4]) (by rwa [pos4])).weaken ?_
        rintro ret d5 log5 ⟨⟨new, rfl, ofVersion⟩, metadata, inGroup5, tidy5⟩
        rw [← metadata] at ofVersion version
        exact ⟨⟨new, rfl, ofVersion, .inr version⟩, inGroup5, tidy5⟩
      · rw [if_pos failed]
        exact Traced.pure (still pos4 version)

/-- **A flush keeps the log tidy**, and what it programs has the next version. -/
theorem ssdSysFlush_logged (type : FlushType) (inGroup : InGroup d.metaPos) (tidy : Tidy d.metaPos log) :
    LogsMeta (ssdSysFlush type) (fun _ d' log' => FlushLogged d log d' log') d log := by
  refine Traced.seq (within_logged (.perform trivial)) ?_
  rintro opened d1 log ⟨same1, rfl⟩
  have pos1 : d1.metaPos = d.metaPos := congrArg Globals.metaPos same1
  have metadata1 : d1.metadata = d.metadata := congrArg Globals.metadata same1
  split
  · refine Traced.pure ⟨⟨[], (List.append_nil log).symm, fun _ member => absurd member List.not_mem_nil,
      .inl ⟨rfl, by rw [metadata1]⟩⟩, by rwa [pos1], by rwa [pos1]⟩
  refine Traced.seq (within_logged (.perform trivial)) ?_
  rintro _ d2 log ⟨same2, rfl⟩
  have pos2 : d2.metaPos = d.metaPos := (congrArg Globals.metaPos same2).trans pos1
  have metadata2 : d2.metadata = d.metadata := (congrArg Globals.metadata same2).trans metadata1
  refine Traced.seq (ssdSysFlushBody_logged type (by rwa [pos2]) (by rwa [pos2])) ?_
  rintro ret d3 log3 ⟨⟨new, rfl, ofVersion, version⟩, inGroup3, tidy3⟩
  refine Traced.seq (within_logged (.perform trivial)) ?_
  rintro _ d4 log4 ⟨same4, rfl⟩
  have pos4 : d4.metaPos = d3.metaPos := congrArg Globals.metaPos same4
  have metadata4 : d4.metadata = d3.metadata := congrArg Globals.metadata same4
  rw [metadata2] at version
  refine Traced.pure ⟨⟨new, rfl, by rwa [metadata4], by rwa [metadata4]⟩, by rwa [pos4], by rwa [pos4]⟩

end Flush

end FpgaSsd.Theory
