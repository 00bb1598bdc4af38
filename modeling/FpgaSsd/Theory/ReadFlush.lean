/-
# Theory.ReadFlush — reading the flush history

`ssd_read_flush` loads the record it finds into the two globals from which the next
flush takes its version and its position.

* `Glimpsed v v'` — nothing but reads of the flash;
* `ssdReadFlush_spec` — a read is a glimpse, or a glimpse behind the record it found;
* `unmoved_iff` — a read leaves the globals alone if and only if it finds no other
  record than the one the driver has;
* `reading_history_is_quiet` — in runs of flushes and such reads the versions increase,
  no page is programmed twice without an erase, and the last flush is found again.
-/
import FpgaSsd.Theory.Durable
import FpgaSsd.Theory.Programmed

namespace FpgaSsd.Theory

open FpgaSsd.Lib FpgaSsd.Driver

set_option autoImplicit false

/-! ## Glimpses -/

/-- The flash holds what it held; marks of pages under a program may be cleared. -/
structure Glimpsed (v v' : View) : Prop where
  page : ∀ c p, (v'.flash c).page p = (v.flash c).page p
  suspect : ∀ c p, (v'.flash c).suspect p = (v.flash c).suspect p ∨ (v'.flash c).suspect p = false
  metadata : v'.metadata = v.metadata
  metaPos : v'.metaPos = v.metaPos
  opened : v'.opened = v.opened

section Glimpses

variable {may : May} {v v' v'' : View} {c : Nat}

theorem Glimpsed.refl (v : View) : Glimpsed v v := ⟨fun _ _ => rfl, fun _ _ => .inl rfl, rfl, rfl, rfl⟩

theorem Glimpsed.trans (first : Glimpsed v v') (second : Glimpsed v' v'') : Glimpsed v v'' := by
  refine ⟨fun c p => (second.page c p).trans (first.page c p), fun c p => ?_,
    second.metadata.trans first.metadata, second.metaPos.trans first.metaPos, second.opened.trans first.opened⟩
  rcases second.suspect c p with same | cleared
  · rw [same]
    exact first.suspect c p
  · exact .inr cleared

/-- A completed read of a page. -/
theorem glimpsed_read {start : Nat} {o : Outcome} {kbuf kbuf' : Mem} {flash : Flash}
    (done : Flash.exec ⟨start, 1, flagReadtablesFromFlash⟩ o kbuf (v.flash c) = some (kbuf', flash)) :
    Glimpsed v (v.setFlash c flash) := by
  have here : flash.page = (v.flash c).page ∧
      ∀ p, flash.suspect p = (v.flash c).suspect p ∨ flash.suspect p = false := by
    simp only [Flash.exec] at done
    split at done
    · split at done
      · cases done
        exact ⟨rfl, fun _ => .inl rfl⟩
      · cases done
    · cases done
      refine ⟨rfl, fun p => ?_⟩
      by_cases same : p = start
      · subst same
        exact .inr (Function.update_self ..)
      · exact .inl (Function.update_of_ne same ..)
  refine ⟨fun c' p => ?_, fun c' p => ?_, rfl, rfl, rfl⟩
  · by_cases same : c' = c
    · subst same
      rw [View.flash_setFlash, here.1]
    · rw [View.flash_setFlash_other same]
  · by_cases same : c' = c
    · subst same
      rw [View.flash_setFlash]
      exact here.2 p
    · rw [View.flash_setFlash_other same]
      exact .inl rfl

/-- The read of a page of any block, reserved or not. -/
theorem decode_read (block : Int) {page : Nat} (low : page < ssdPagesPerBlock) :
    Command.ofWord (tableCmd (block % 65536).toNat page flagReadtablesFromFlash) =
      ⟨(block % 65536).toNat * ssdPagesPerBlock + page, 1, flagReadtablesFromFlash⟩ := by
  simp only [ssdPagesPerBlock] at *
  exact decode_cmdValue (by simp only [ssdPagesPerBlock]; omega) (by decide) (by decide)

theorem glimpsed_command {cmd start : Nat}
    (read : Command.ofWord cmd = ⟨start, 1, flagReadtablesFromFlash⟩) :
    OnView always may (channelOp c cmd) (fun _ v' => Glimpsed v v') v := by
  refine (OnView.channelOp trivial).weaken ?_
  rintro ret v' ⟨d, o, kbuf, kbuf', flash, -, -, -, done, -, rfl⟩
  rw [read] at done
  exact glimpsed_read done

/-- A program that glimpses and goes on. -/
theorem OnView.glimpse {α β : Type} {p : Drv α} {next : α → Drv β}
    (first : OnView always may p (fun _ v' => Glimpsed v v') v)
    (rest : ∀ value v', OnView always may (next value) (fun _ v'' => Glimpsed v' v'') v') :
    OnView always may (p >>= next) (fun _ v' => Glimpsed v v') v := by
  refine OnView.seq first ?_
  intro value v1 before
  exact (rest value v1).weaken fun _ _ after => before.trans after

theorem OnView.glimpse_silent {a : Act} (silent : Act.Silent a) :
    OnView always may (Program.perform a) (fun _ v' => Glimpsed v v') v := by
  refine (OnView.silent trivial silent).weaken ?_
  rintro _ v' rfl
  exact .refl v'

theorem OnView.glimpse_modFlush (f : Mem → Mem) :
    OnView always may (Drv.modFlush f) (fun _ v' => Glimpsed v v') v := by
  refine (OnView.modFlush trivial f).weaken ?_
  rintro _ v' rfl
  exact ⟨fun _ _ => rfl, fun _ _ => .inl rfl, rfl, rfl, rfl⟩

theorem OnView.glimpse_pure {α : Type} (value : α) :
    OnView always may (Program.pure value) (fun _ v' => Glimpsed v v') v := OnView.pure (.refl v)

theorem readTableCopy_glimpsed (pos offset : Nat) :
    OnView always may (readTableCopy pos offset) (fun _ v' => Glimpsed v v') v := by
  have pages : ∀ (pages : List Nat) (v : View), (∀ page ∈ pages, page < ssdPagesPerBlock) →
      OnView always may (Program.firstSome (fun page => do
        let ret ← ssdReadTabledata pos page
        if ret ≠ ssdOk then pure (some ret)
        else
          let kbuf ← Drv.readKbuf (posChannel pos)
          Drv.modFlush fun m => copyBytes m (offset + ssdPageSize * page) kbuf 0 ssdPageSize
          pure none) pages) (fun _ v' => Glimpsed v v') v := by
    intro pages
    induction pages with
    | nil => exact fun v _ => OnView.glimpse_pure _
    | cons page rest ih =>
        intro v low
        have later := fun v' => ih v' fun page member => low page (List.mem_cons_of_mem _ member)
        refine OnView.glimpse ?_ fun found v' => ?_
        · refine OnView.glimpse (glimpsed_command (decode_read _ (low page (List.mem_cons_self ..)))) ?_
          intro ret v1
          split
          · exact OnView.glimpse_pure _
          refine OnView.glimpse (OnView.glimpse_silent trivial) fun kbuf v2 => ?_
          exact OnView.glimpse (OnView.glimpse_modFlush _) fun _ v3 => OnView.glimpse_pure _
        · cases found with
          | some x => exact OnView.glimpse_pure _
          | none => exact later v'
  exact pages _ v fun page member => List.mem_range.1 member

theorem readTableCopies_glimpsed (blockNum : Nat) (copies : List Nat) :
    OnView always may (readTableCopies blockNum copies) (fun _ v' => Glimpsed v v') v := by
  induction copies generalizing v with
  | nil => exact OnView.glimpse_pure _
  | cons i rest ih =>
      refine OnView.glimpse (OnView.glimpse_silent trivial) fun record v1 => ?_
      refine OnView.glimpse (readTableCopy_glimpsed _ _) fun found v2 => ?_
      cases found with
      | none => exact OnView.glimpse_pure _
      | some ret =>
          simp only
          split
          · exact OnView.glimpse_pure _
          · exact ih

theorem ssdReadFlushTabledata_glimpsed :
    OnView always may ssdReadFlushTabledata (fun _ v' => Glimpsed v v') v := by
  have blocks : ∀ fuel n (v : View), OnView always may (readFlushLoop fuel n) (fun _ v' => Glimpsed v v') v := by
    intro fuel
    induction fuel with
    | zero => exact fun _ _ => OnView.glimpse_pure _
    | succ fuel ih =>
        intro n v
        refine OnView.glimpse (OnView.glimpse_silent trivial) fun record v1 => ?_
        split
        · refine OnView.glimpse (readTableCopies_glimpsed _ _) fun found v2 => ?_
          cases found with
          | some ret => exact OnView.glimpse_pure _
          | none => exact ih _ _
        · exact OnView.glimpse_pure _
  exact blocks _ 0 v

end Glimpses

/-! ## One read -/

namespace View

/-- The record of a page that can be read. -/
def shown (v : View) (pos page : Nat) : Option SsdMetadata :=
  if v.suspect pos page then none else v.record pos page

/-- The globals behind a read that finds `r`. -/
def loaded (v : View) (pos page : Nat) (r : SsdMetadata) : View :=
  { v with metadata := { r with metadataMagic := flushMagicClose }, metaPos := ⟨page, pos⟩ }

end View

section OneRead

variable {may : May} {d : Device} {q : MetaVersion}

theorem loaded_tail (v : View) (r : SsdMetadata) :
    OnView always may (do
      Drv.modMetaPos fun p => { p with blockPos := q.block }
      Drv.modMeta fun _ => r
      Drv.modMetaPos fun p => { p with page := q.page }
      Drv.modMeta fun m => { m with metadataMagic := flushMagicClose }
      let ret ← ssdReadFlushTabledata
      if ret ≠ ssdOk then pure (ret, none)
      else
        let record ← Drv.getMeta
        match ← Program.perform (Act.copyFlushToUser (imageSize record)) with
        | none => pure (-errCopyToUser, none)
        | some bytes => pure (ret, some bytes)) (fun _ v' => Glimpsed (v.loaded q.block q.page r) v') v := by
  refine OnView.seq (OnView.modMetaPos trivial _) ?_
  rintro _ v1 ⟨rfl, -⟩
  refine OnView.seq (OnView.modMeta trivial _) ?_
  rintro _ v2 ⟨rfl, -⟩
  refine OnView.seq (OnView.modMetaPos trivial _) ?_
  rintro _ v3 ⟨rfl, -⟩
  refine OnView.seq (OnView.modMeta trivial _) ?_
  rintro _ v4 ⟨rfl, -⟩
  refine OnView.glimpse ssdReadFlushTabledata_glimpsed fun ret v5 => ?_
  split
  · exact OnView.glimpse_pure _
  refine OnView.glimpse (OnView.glimpse_silent trivial) fun record v6 => ?_
  refine OnView.glimpse (OnView.glimpse_silent trivial) fun bytes v7 => ?_
  cases bytes with
  | none => exact OnView.glimpse_pure _
  | some bytes => exact OnView.glimpse_pure _

/-- **One read**: it finds nothing and is a glimpse, or it loads the record it finds. -/
theorem ssdReadFlushBody_spec (inside : q.block < reserveBlocksMeta) (byte : q.page < ssdPagesPerBlock) :
    OnDevice always may (ssdReadFlushBody q) (fun _ v' =>
      (Glimpsed (view d) v' ∧ (Flawless may → (view d).shown q.block q.page = none)) ∨
        ∃ r, (view d).shown q.block q.page = some r ∧
          Glimpsed ((view d).loaded q.block q.page r) v') d := by
  have total := metaPos_inside inside
  rw [ssdReadFlushBody, ssdReadMetadata, physBlock_mod total]
  refine Safe.seq (solo_steady _ _) (OnView.op trivial) ?_
  rintro ret d1 ⟨o, kbuf, flash, allowed, done, rfl, rfl⟩
  have asked : MayTable may (view d) q.block q.page flagReadtablesFromFlash o :=
    ⟨_, view_issue d _ _, by rw [Device.setCh_ch_same], allowed⟩
  rw [ofWord_tableCmd byte (by decide)] at done
  have glimpse : Glimpsed (view d) (view (d.setCh (posChannel q.block)
      { d.ch (posChannel q.block) with outstanding := none, kbuf := kbuf, flash := flash })) := by
    have shows : view (d.setCh (posChannel q.block)
        { d.ch (posChannel q.block) with outstanding := none, kbuf := kbuf, flash := flash }) =
          (view d).setFlash (posChannel q.block) flash := view_setCh_flash rfl rfl
    rw [shows]
    exact glimpsed_read done
  generalize reached : d.setCh (posChannel q.block) { d.ch (posChannel q.block) with
    outstanding := none, kbuf := kbuf, flash := flash } = d1 at glimpse
  by_cases ok : o.ret = .ok
  swap
  · -- the page is not read
    rw [if_pos fun same => ok (ChannelRet.toInt_eq_zero.1 same)]
    suffices none : Flawless may → (view d).shown q.block q.page = none by
      rintro d2 rfl
      exact Or.inl ⟨glimpse, none⟩
    intro flawless
    rw [View.shown]
    split
    · rfl
    rename_i clean
    cases content : (view d).page q.block q.page with
    | none => rw [View.record, content]; rfl
    | some m => exact absurd (MayTable.ok_read flawless asked byte content (by simpa using clean)) ok
  rw [ok]
  rw [if_neg (by decide)]
  simp only [Flash.exec, ok, if_true] at done
  split at done
  swap
  · cases done
  rename_i m content clean
  cases done
  have shown : (view d).shown q.block q.page = validRecord m := by
    rw [View.shown, show (view d).suspect q.block q.page = false from clean, if_neg (by decide),
      View.record, show (view d).page q.block q.page = some m from content]
    rfl
  have decoded : SsdMetadata.decode (d1.ch (posChannel q.block)).kbuf = SsdMetadata.decode m := by
    rw [← reached, Device.setCh_ch_same]
    exact SsdMetadata.decode_copyBytes ..
  refine Safe.seq (solo_steady _ _) (OnView.readKbuf trivial) ?_
  rintro image d2 ⟨rfl, same⟩
  simp only [decoded]
  rw [validRecord] at shown
  split
  · rename_i invalid
    rw [if_neg invalid] at shown
    rintro d3 rfl
    exact Or.inl ⟨by rwa [same], fun _ => shown⟩
  · rename_i valid
    rw [if_pos (not_not.1 valid)] at shown
    refine Safe.weaken (loaded_tail (view d2) (SsdMetadata.decode m) d2 rfl) ?_
    intro _ v' after
    refine .inr ⟨_, shown, Glimpsed.trans ?_ after⟩
    rw [same]
    exact ⟨glimpse.page, glimpse.suspect, rfl, rfl, glimpse.opened⟩

/-- The same with the semaphore. -/
theorem ssdReadFlush_spec (inside : q.block < reserveBlocksMeta) (byte : q.page < ssdPagesPerBlock) :
    OnDevice always may (ssdReadFlush q) (fun _ v' =>
      (Glimpsed (view d) v' ∧ (Flawless may → (view d).shown q.block q.page = none)) ∨
        ∃ r, (view d).shown q.block q.page = some r ∧
          Glimpsed ((view d).loaded q.block q.page r) v') d := by
  rw [ssdReadFlush, if_neg (Nat.not_le.2 inside)]
  refine OnView.withSema trivial (fun _ _ _ => trivial) (fun d1 same => ?_) d rfl
  rw [← same]
  exact ssdReadFlushBody_spec inside byte

/-- The read leaves the record and its position alone, whatever happens. -/
def Unmoved (d : Device) (q : MetaVersion) : Prop :=
  ∀ answer d', Run anyOutcome (ssdReadFlush q) d answer d' → d'.metadata = d.metadata ∧ d'.metaPos = d.metaPos

/-- The page shows no record, or the one that the driver has, with its position. -/
def FindsNothingElse (d : Device) (q : MetaVersion) : Prop :=
  q.block < reserveBlocksMeta → ∀ r, (view d).shown q.block q.page = some r →
    d.metadata = { r with metadataMagic := flushMagicClose } ∧ d.metaPos = ⟨q.page, q.block⟩

/-- Such a read is a glimpse. -/
theorem ssdReadFlush_glimpsed (byte : q.page < ssdPagesPerBlock) (finds : FindsNothingElse d q) :
    OnDevice always may (ssdReadFlush q) (fun _ v' => Glimpsed (view d) v') d := by
  by_cases inside : q.block < reserveBlocksMeta
  · refine Safe.weaken (ssdReadFlush_spec inside byte) ?_
    rintro _ d' (⟨glimpse, -⟩ | ⟨r, shown, glimpse⟩)
    · exact glimpse
    · obtain ⟨metadata, metaPos⟩ := finds inside r shown
      have same : (view d).loaded q.block q.page r = view d := by
        rw [View.loaded, ← metadata, ← metaPos]
        rfl
      rwa [same] at glimpse
  · rw [ssdReadFlush, if_pos (Nat.not_lt.1 inside)]
    exact OnView.glimpse_pure _ d rfl

theorem ssdReadFlush_runs_on (idle : Mirrors Held.none d) :
    ∃ answer d', Run noFailure (ssdReadFlush q) d answer d' ∧ Mirrors Held.none d' := by
  apply exists_run noFailure_live idle
  rw [ssdReadFlush]
  split
  · rfl
  have ready : ∀ c, Ready false (Held.none.take (posChannel q.block)) c := fun c =>
    ⟨fun strict => absurd strict Bool.false_ne_true, rfl⟩
  refine withSema_locks free_none ((ssdReadMetadata_locks (ready _) q.page).bind fun ret => ?_)
  split
  · rfl
  refine (chan_locks (ready _) trivial).bind fun kbuf => ?_
  dsimp only
  split
  · rfl
  refine (Program.Returns.perform trivial rfl).bind fun _ => ?_
  refine (Program.Returns.perform trivial rfl).bind fun _ => ?_
  refine (Program.Returns.perform trivial rfl).bind fun _ => ?_
  refine (Program.Returns.perform trivial rfl).bind fun _ => ?_
  refine (ssdReadFlushTabledata_locks ready).bind fun ret => ?_
  split
  · rfl
  refine (Program.Returns.perform trivial rfl).bind fun record => ?_
  refine (Program.Returns.perform trivial rfl).bind fun bytes => ?_
  cases bytes <;> rfl

/-- **A read leaves the globals alone** if and only if it finds nothing else. -/
theorem unmoved_iff (idle : Mirrors Held.none d) (byte : q.page < ssdPagesPerBlock) :
    Unmoved d q ↔ FindsNothingElse d q := by
  constructor
  · intro unmoved inside r shown
    obtain ⟨answer, d', run, -⟩ := ssdReadFlush_runs_on (q := q) idle
    obtain ⟨metadata, metaPos⟩ := unmoved answer d' (run_any run)
    have spec := Safe.runs (fun _ => rfl) (ssdReadFlush_spec inside byte) run
    rcases spec with ⟨-, none⟩ | ⟨r', shown', glimpse⟩
    · rw [none fun _ _ _ => id] at shown
      cases shown
    · obtain rfl := Option.some.inj (shown'.symm.trans shown)
      have loaded : d'.metadata = { r' with metadataMagic := flushMagicClose } := glimpse.metadata
      have moved : d'.metaPos = ⟨q.page, q.block⟩ := glimpse.metaPos
      exact ⟨metadata.symm.trans loaded, metaPos.symm.trans moved⟩
  · intro finds answer d' run
    have glimpse := Safe.runs (fun _ => rfl) (ssdReadFlush_glimpsed byte finds) run
    exact ⟨glimpse.metadata, glimpse.metaPos⟩

end OneRead

/-! ## Runs of flushes and reads -/

/-- Flushes and reads from `start`, with what each flush programmed and the answer of
the last one. -/
inductive ReadRun (may : May) (ready : View → Prop) (start : Device) :
    List (List MetaEvent) → Option Int → Device → Prop
  | start : ReadRun may ready start [] none start
  | flush {hist : List (List MetaEvent)} {last : Option Int} {d d' : Device} {ret : Int}
      {events : List MetaEvent} (type : FlushType) (before : ReadRun may ready start hist last d)
      (now : ready (view d))
      (run : Runs (recorded (Device.perform 0) logMeta) (fun s => may s.1) (ssdSysFlush type) (d, []) ret
        (d', events)) : ReadRun may ready start (hist ++ [events]) (some ret) d'
  | read {hist : List (List MetaEvent)} {last : Option Int} {d d' : Device} {answer : Int × Option Mem}
      (q : MetaVersion) (before : ReadRun may ready start hist last d) (byte : q.page < ssdPagesPerBlock)
      (finds : FindsNothingElse d q) (run : Run may (ssdReadFlush q) d answer d') :
      ReadRun may ready start hist last d'

/-- The counter of the flush does not wrap. -/
def Counts (v : View) : Prop := v.metadata.version.toNat + 1 < 2 ^ 64

/-- What the flushes of a run programmed. -/
structure InOrder (hist : List (List MetaEvent)) : Prop where
  /-- One flush programs one version, -/
  one : ∀ events ∈ hist, ∃ version, OfVersion version events
  /-- a later flush a later one. -/
  increase : hist.Pairwise fun events later => ∀ e ∈ events, ∀ v, e.version = some v →
    ∀ e' ∈ later, ∀ v', e'.version = some v' → v < v'
  once : OncePerErase hist.flatten

section Runs

variable {may : May} {start d : Device} {hist : List (List MetaEvent)} {last : Option Int}

/-- The invariant of a run. -/
structure RunKept (hist : List (List MetaEvent)) (d : Device) : Prop where
  inGroup : InGroup d.metaPos
  tidy : Tidy d.metaPos hist.flatten
  older : ∀ events ∈ hist, ∀ e ∈ events, ∀ v, e.version = some v → v ≤ d.metadata.version
  order : InOrder hist

theorem nextVersion_lt {version : UInt64} (counts : version.toNat + 1 < 2 ^ 64) : version < nextVersion version := by
  have sum : (version + 1).toNat = version.toNat + 1 := by
    rw [UInt64.toNat_add]
    exact Nat.mod_eq_of_lt counts
  have nonzero : version + 1 ≠ 0 := fun zero => by
    rw [zero] at sum
    exact absurd sum (Nat.succ_ne_zero _).symm
  rw [nextVersion, if_neg nonzero, UInt64.lt_iff_toNat_lt, sum]
  exact Nat.lt_succ_self _

/-- A log is continued as it is started. -/
theorem logMeta_append (log : List MetaEvent) (a : Act) (r : a.Reply) (d d' : Device) (events : List MetaEvent) :
    logMeta a r d d' (log ++ events) = log ++ logMeta a r d d' events := by
  cases a
  case chan c a =>
      cases a
      case issue cmd =>
          simp only [logMeta]
          split
          · exact List.append_assoc ..
          · rfl
      all_goals rfl
  all_goals rfl

theorem InOrder.snoc {events : List MetaEvent} {version : UInt64} (order : InOrder hist)
    (ofVersion : OfVersion version events)
    (newer : events = [] ∨ ∀ old ∈ hist, ∀ e ∈ old, ∀ v, e.version = some v → v < version)
    (once : OncePerErase (hist ++ [events]).flatten) : InOrder (hist ++ [events]) := by
  refine ⟨fun later member => ?_, ?_, once⟩
  · rcases List.mem_append.1 member with old | last
    · exact order.one later old
    · obtain rfl := List.mem_singleton.1 last
      exact ⟨version, ofVersion⟩
  · refine List.pairwise_append.2 ⟨order.increase, List.pairwise_singleton .., ?_⟩
    intro old member later last e inOld v eq e' inLater v' eq'
    obtain rfl := List.mem_singleton.1 last
    rcases newer with rfl | newer
    · exact absurd inLater List.not_mem_nil
    · rw [ofVersion e' inLater v' eq']
      exact newer old member e inOld v eq

theorem ReadRun.kept (inGroup : InGroup start.metaPos) (run : ReadRun may Counts start hist last d) :
    RunKept hist d := by
  induction run with
  | start =>
      refine ⟨inGroup, ⟨fun _ _ _ => renewed_nil, fun _ _ _ spent => absurd spent not_spent_nil⟩, ?_, ?_⟩
      · exact fun _ member => absurd member List.not_mem_nil
      · exact ⟨fun _ member => absurd member List.not_mem_nil, .nil, fun _ _ _ => renewed_nil⟩
  | @read hist last d d' answer q before byte finds run ih =>
      have glimpse := Safe.runs (fun _ => rfl) (ssdReadFlush_glimpsed byte finds) run
      have metadata : d'.metadata = d.metadata := glimpse.metadata
      have metaPos : d'.metaPos = d.metaPos := glimpse.metaPos
      exact ⟨by rw [metaPos]; exact ih.inGroup, by rw [metaPos]; exact ih.tidy,
        by rw [metadata]; exact ih.older, ih.order⟩
  | @flush hist last d d' ret events type before now run ih =>
      have continued := run.mapHistory (fun log => hist.flatten ++ log) (logMeta_append hist.flatten)
      simp only [List.append_nil] at continued
      have any : Runs (recorded (Device.perform 0) logMeta) (fun s => anyOutcome s.1) (ssdSysFlush type)
        (d, hist.flatten) ret (d', hist.flatten ++ events) := continued.mono fun _ _ _ _ => trivial
      obtain ⟨⟨new, same, ofVersion, version⟩, inGroup', tidy⟩ :=
        (ssdSysFlush_logged type ih.inGroup ih.tidy).runs any
      obtain rfl : events = new := List.append_cancel_left same
      have flat : (hist ++ [events]).flatten = hist.flatten ++ events := by
        rw [List.flatten_append, List.flatten_singleton]
      have less := nextVersion_lt now
      have grows : d.metadata.version ≤ d'.metadata.version := by
        rcases version with ⟨-, same⟩ | next
        · rw [same]
          exact UInt64.le_refl _
        · rw [next]
          exact UInt64.le_of_lt less
      refine ⟨inGroup', by rwa [flat], fun old member e inside v eq => ?_, ?_⟩
      · rcases List.mem_append.1 member with before | last
        · exact UInt64.le_trans (ih.older old before e inside v eq) grows
        · obtain rfl := List.mem_singleton.1 last
          rw [ofVersion e inside v eq]
          exact UInt64.le_refl _
      · refine ih.order.snoc ofVersion ?_ (by rw [flat]; exact tidy.once)
        rcases version with ⟨none, -⟩ | next
        · exact .inl none
        · refine .inr fun old member e inside v eq => ?_
          rw [next]
          exact UInt64.lt_of_le_of_lt (ih.older old member e inside v eq) less

/-- The same run without its log, with the reads as steps between flushes. -/
theorem ReadRun.flushes {b0 : Nat} (area0 : Area (view start) b0) (opened0 : start.opened = true)
    (run : ReadRun durable FlushReady start hist last d) : Flushes durable FlushReady start last d := by
  induction run with
  | start => exact .start
  | flush type before now run ih => exact .flush type ih now run.forget
  | @read hist last d d' answer q before byte finds run ih =>
      have glimpse := Safe.runs (fun _ => rfl) (ssdReadFlush_glimpsed byte finds) run
      obtain ⟨b, area, -⟩ := ih.area area0 opened0
      refine .between ih ⟨fun pos inside page low => ⟨glimpse.page .., ?_⟩, glimpse.metadata, glimpse.metaPos,
        glimpse.opened⟩
      have clean := area.clean pos page inside low
      rw [clean]
      rcases glimpse.suspect (posChannel pos) (pageAddr pos page) with same | cleared
      · exact same.trans clean
      · exact cleared

end Runs

/-- **Reading the history is quiet.** A read leaves the globals alone if and only if it
finds no other record than the driver has. In runs of flushes and such reads the
versions increase, no page is programmed twice between erases of its block, and, from every
open card whose metadata blocks are in order, the last flush is the one that the search
selects. -/
theorem reading_history_is_quiet (start d : Device) :
    (∀ q : MetaVersion, Mirrors Held.none d → q.page < ssdPagesPerBlock →
      (Unmoved d q ↔ FindsNothingElse d q)) ∧
    (∀ (hist : List (List MetaEvent)) (last : Option Int), InGroup start.metaPos →
      ReadRun anyOutcome Counts start hist last d → InOrder hist) ∧
    ∀ (d' : Device) (hist : List (List MetaEvent)) (b : Nat), Area (view start) b → start.opened = true →
      ReadRun durable FlushReady start hist (some ssdOk) d →
      (∀ pos < reserveBlocksMeta, ∀ pg < ssdPagesPerBlock, (view d').page pos pg = (view d).page pos pg ∧
        (view d').suspect pos pg = (view d).suspect pos pg) → Mirrors Held.none d' →
      (∃ ret d'', Run noFailure ssdSearchMetadata d' ret d'') ∧
        ∀ ret d'', Run noFailure ssdSearchMetadata d' ret d'' → ret = ssdOk ∧ d''.metadata = d.metadata := by
  refine ⟨fun q idle byte => unmoved_iff idle byte, ?_, ?_⟩
  · intro hist last inGroup run
    exact (run.kept inGroup).order
  · intro d' hist b area opened run same idle
    exact (run.flushes area opened).selected area opened same idle

/-! ## The first flush is read -/

/-- A read of a page of a new card that was never written. -/
theorem unwritten_page_finds_nothing : FindsNothingElse newCard ⟨39, 255⟩ := by
  intro inside r shown
  have none : (view newCard).record 39 255 = none := newCard_new.bare.record inside (by decide)
  rw [View.shown, none] at shown
  split at shown <;> cases shown

/-- That read, and the first flush. -/
theorem first_flush_is_quiet : Unmoved newCard ⟨39, 255⟩ ∧
    ∃ events d, ReadRun durable FlushReady newCard [events] (some ssdOk) d ∧ InOrder [events] ∧
      ∀ ret d', Run noFailure ssdSearchMetadata d ret d' → ret = ssdOk ∧ d'.metadata = d.metadata := by
  obtain ⟨reads, -, -⟩ := reading_history_is_quiet newCard newCard
  obtain ⟨d, run, -, idle⟩ := first_flush_run
  obtain ⟨-, logs, selects⟩ := reading_history_is_quiet newCard d
  obtain ⟨events, logged⟩ := run.withHistory logMeta []
  have counted : ReadRun anyOutcome Counts newCard [events] (some ssdOk) d :=
    .flush .normal .start newCard_ready.1 (logged.mono fun _ _ _ _ => trivial)
  have history : ReadRun durable FlushReady newCard [events] (some ssdOk) d :=
    .flush .normal .start newCard_ready logged
  have inGroup : InGroup newCard.metaPos := ⟨by decide, by decide, by decide⟩
  refine ⟨(reads ⟨39, 255⟩ newCard_mirrors (by decide)).2 unwritten_page_finds_nothing, events, d, history,
    logs [events] _ inGroup counted, ?_⟩
  exact (selects d [events] 0 newCard_new.area rfl history (fun _ _ _ _ => ⟨rfl, rfl⟩) idle).2

/-- The record of the first flush is read from its second plane: the driver then stands
on a position that is no group, with a record that it did not write. -/
theorem read_moves_the_globals : ∃ hist d, ReadRun durable FlushReady newCard hist (some ssdOk) d ∧
    Mirrors Held.none d ∧ ¬ Unmoved d ⟨5, 0⟩ := by
  obtain ⟨d, run, ⟨v1, tabled, attempt, planes⟩, idle⟩ := first_flush_run
  obtain ⟨events, logged⟩ := run.withHistory logMeta []
  have history : ReadRun durable FlushReady newCard [events] (some ssdOk) d :=
    .flush .normal .start newCard_ready logged
  obtain ⟨b, area, -⟩ := (history.flushes newCard_new.area rfl).area newCard_new.area rfl
  refine ⟨[events], d, history, idle, fun unmoved => ?_⟩
  have shown : (view d).shown 5 0 = some v1.metadata := by
    rw [View.shown, area.clean 5 0 (by decide) (by decide), if_neg (by decide)]
    exact planes 1 (by decide)
  obtain ⟨-, position⟩ := (unmoved_iff idle (by decide)).1 unmoved (by decide) _ shown
  have moved : d.metaPos = nextMetaPos ssdOk initMetaPos :=
    attempt.frame.metaPos.trans (congrArg (nextMetaPos ssdOk) tabled.frame.metaPos)
  rw [moved] at position
  exact absurd position (by decide)

end FpgaSsd.Theory
