/-
# Theory.Moments — of which moments the image of a flush is

* `ShowsMoments` — each channel is in the image as it was in one state of the card in
  which no operation on it was in progress;
* `quiet_flush_shows_moments` — it holds behind every flush that answers `SSD_OK` where no
  request links or unlinks an id of a bucket between the tables of its channel and the
  bucket;
* `failing_delete_hides_id` — elsewhere the image can miss an id that the card had all the
  time.
-/
import FpgaSsd.Theory.Course
import FpgaSsd.Theory.FlushRun
import FpgaSsd.Theory.Globals
import FpgaSsd.Theory.Reload

namespace FpgaSsd.Theory

open FpgaSsd.Lib FpgaSsd.Driver

set_option autoImplicit false

/-! ## The property -/

/-- The image shows each channel, its tables and its ids, as it was in one state with its
semaphore free. -/
def ShowsMoments (s : Watched) : Prop := ∃ moment : Nat → Device,
  (∀ c < ssdMaxChannel, moment c ∈ s.2.past ∧ ((moment c).ch c).sema = none) ∧
    ImageOf s.1.kbufFlush (assembled moment) ∧ s.1.metadata.idNum.toNat = (assembled moment).nodes.length

section Flush

variable {moment : Nat → Device} {image : Mem} {s s' : Watched}

/-- The image of a flush that has copied everything. -/
theorem Along.shows {image : Mem} (along : Along ssdMaxChannel moment (putNodes (assembled moment).nodes 0 image) s)
    (tables : TablesIn image (assembled moment) ssdMaxChannel) (few : (assembled moment).nodes.length ≤ ssdMaxIdNum)
    (number : s.1.metadata.idNum = .ofNat (assembled moment).nodes.length) : ShowsMoments s := by
  refine ⟨moment, along.past, ?_, ?_⟩
  · rw [along.image]
    exact imageOf_putNodes tables
  · rw [number, UInt32.toNat_ofNat']
    simp only [ssdMaxIdNum] at few
    exact Nat.mod_eq_of_lt (by omega)

theorem ShowsMoments.later (shows : ShowsMoments s) (image : s'.1.kbufFlush = s.1.kbufFlush)
    (metadata : s'.1.metadata = s.1.metadata) (past : ∀ d ∈ s.2.past, d ∈ s'.2.past) : ShowsMoments s' := by
  obtain ⟨moment, free, shown, number⟩ := shows
  refine ⟨moment, fun c less => ⟨past _ (free c less).1, (free c less).2⟩, ?_, ?_⟩
  · rwa [image]
  · rwa [metadata]

theorem ShowsMoments.moves (shows : ShowsMoments s) (moves : Moves 0 s s') : ShowsMoments s' :=
  shows.later (moves.spared rfl).kbufFlush (moves.spared rfl).metadata (moves.spared rfl).past

theorem ssdSysFlushBody_moment {type : FlushType} (start : Along 0 moment image s)
    (unmarked : ∀ c b, s.2.copied c b = false) :
    Flushing (ssdSysFlushBody type) (fun ret s' => ret = ssdOk → ShowsMoments s') s := by
  rw [ssdSysFlushBody]
  refine Safe.seq flushing_steady (flushing_modFlush start _) ?_
  rintro _ s₁ ⟨along₁, same₁, -⟩
  refine Safe.seq flushing_steady (copyRamTables_moment along₁) ?_
  rintro found s₂ ⟨bad, copied⟩
  cases found with
  | some ret => exact fun t _ ok => absurd ok (bad ret rfl)
  | none =>
      obtain ⟨moment, image, along₂, tables, same₂⟩ := copied rfl
      have fresh : ∀ c b, s₂.2.copied c b = false := fun c b => by
        rw [same₂, same₁]
        exact unmarked c b
      refine Safe.seq flushing_steady (copyIdHash_moment along₂ fresh) ?_
      rintro count s₃ ⟨rfl, along₃⟩
      refine Safe.seq flushing_steady (flushTabledata_moment along₃) ?_
      intro ret s₄ recorded
      split
      · rename_i bad
        exact fun t _ ok => absurd ok bad
      · rename_i ok
        obtain ⟨along₄, few, number⟩ := recorded (not_not.1 ok)
        refine (flushing_keeps (I := fun n => n = .ofNat (assembled moment).nodes.length) flushMetadata_keepsImage
          along₄ number).weaken ?_
        rintro ret s₅ ⟨along₅, number⟩ _
        exact along₅.shows tables few number

/-- **The flush** of an open card, among the requests of the clients. -/
theorem ssdSysFlush_moment {type : FlushType} (opened : s.1.opened = true)
    (unmarked : ∀ c b, s.2.copied c b = false) :
    Flushing (ssdSysFlush type) (fun ret s' => ret = ssdOk → ShowsMoments s') s := by
  have start : ∀ s : Watched, Along 0 (fun _ => s.1) s.1.kbufFlush s := fun s =>
    ⟨fun c no => absurd no (Nat.not_lt_zero c), fun c no => absurd no (Nat.not_lt_zero c),
      fun c no => absurd no (Nat.not_lt_zero c), rfl⟩
  rw [ssdSysFlush]
  refine Safe.seq flushing_steady (p := Program.perform Act.getOpened)
    (M := fun flag s' => flag = true ∧ ∀ c b, s'.2.copied c b = false) ?_ ?_
  · refine Flushing.act fun s₁ o r d s₂ before _ acted behind => ?_
    have same : s₂.2.copied = s.2.copied := by
      rw [(behind.spared rfl).copied]
      exact (before.spared rfl).copied
    cases acted
    exact ⟨(before.spared rfl).opened.trans opened, fun c b => by rw [same]; exact unmarked c b⟩
  rintro flag s₁ ⟨rfl, unmarked₁⟩
  rw [if_neg (by decide)]
  refine Safe.seq flushing_steady (p := Program.perform Act.downFlush)
    (M := fun _ s' => ∀ c b, s'.2.copied c b = false) ?_ ?_
  · refine Flushing.act fun s₂ o r d s₃ before _ _ behind c b => ?_
    rw [(behind.spared rfl).copied]
    show s₂.2.copied c b = false
    rw [(before.spared rfl).copied]
    exact unmarked₁ c b
  intro _ s₂ unmarked₂
  refine Safe.seq flushing_steady (ssdSysFlushBody_moment (start s₂) unmarked₂) ?_
  intro ret s₃ shows
  refine Safe.seq flushing_steady (p := Program.perform Act.upFlush)
    (M := fun _ s' => ret = ssdOk → ShowsMoments s') ?_ fun _ s₄ shown t later ok => (shown ok).moves later
  refine Flushing.act fun s₄ o r d s₅ before _ acted behind ok => ?_
  have shown := (shows ok).moves before
  refine ShowsMoments.moves (shown.later ?_ ?_ fun d member => List.mem_cons_of_mem _ member) behind
  all_goals
    cases acted
    rfl

end Flush

/-! ## The theorem -/

/-- An open card at rest with an unmarked watch is safe. -/
theorem FlushAtRest.secure {p : FlushSystem} (rest : FlushAtRest p) :
    p.Secure watched (fun t _ => threadContract t)
      fun t ret s => Resting t s.1 ∧ (t = 0 → ret = ssdOk → ShowsMoments s) := by
  have resting : ∀ t, Resting t p.state.1 := by
    intro t
    refine ⟨fun c => ?_, ?_, fun _ => id, fun _ held => Bool.noConfusion held, fun c _ => rest.idle c,
      fun c cmd out => ?_⟩
    · rw [rest.sema c]
      exact iff_of_false Bool.false_ne_true (by simp)
    · rw [rest.free]
      exact iff_of_false Bool.false_ne_true (by simp)
    · rw [rest.idle c] at out
      cases out
  intro t
  by_cases first : t = 0
  · subst first
    obtain ⟨type, flush⟩ := rest.flush
    rw [flush]
    have shows : Flushing (ssdSysFlush type) (fun ret s' => ret = ssdOk → ShowsMoments s') p.state :=
      ssdSysFlush_moment rest.opened fun c b => by rw [rest.unmarked]; rfl
    have locks := watched_permitted (ssdSysFlush_locks free_none rfl type) (resting 0)
    have whole : Safe (watched 0) (threadContract 0) (ssdSysFlush type) _ p.state :=
      (locks.both shows).relax id (fun _ _ both => ⟨both.1, fun no => absurd rfl no⟩) fun _ _ _ => id
    exact whole.weaken fun _ _ both => ⟨both.1, fun _ => both.2⟩
  · rw [rest.begins t first]
    exact (client_safe _ (resting t)).weaken fun _ _ rest => ⟨rest, fun eq => absurd eq first⟩

/-- **A flush image shows moments.** Where the ids of a bucket wait for the flush between the
tables of the channel and the bucket, the image of a flush that answers `SSD_OK` shows each
channel as it was in one state of the card with no operation on the channel in progress. -/
theorem quiet_flush_shows_moments {p p' : FlushSystem} (rest : FlushAtRest p) (run : FlushRuns quietSteps p p')
    (returned : p'.prog 0 = .pure ssdOk) : ShowsMoments p'.state := by
  have secure := rest.secure.while (fun t _ => moves_steady t _ _) @threads_guarantee (fun _ _ _ _ _ may => may)
    (fun t client _ s other holds => (client_safe client holds.1).weaken
      fun _ _ rest => ⟨rest, fun eq => absurd eq other⟩) run
  exact (secure.returned (fun t _ => moves_steady t _ _) returned).2 rfl rfl

/-! ## Two runs -/

section Links

variable {R : Nat → Prop}

theorem Within.linksNone {a : Act} (within : Within R a) : LinksNone a := by
  cases a
  case chan c a => cases a <;> trivial
  all_goals trivial

/-- A flush links and unlinks no id. -/
theorem flushImage_linksNone (type : FlushType) (count : Nat) : (flushImage type count).All LinksNone := by
  have blocks : (flushTabledata count type).All LinksNone := by
    rw [flushTabledata]
    split
    · trivial
    apply Program.All.bind (p := Drv.getMeta) (.perform trivial)
    intro old
    apply ((flushTableBlocks_keepsImage ..).mono fun _ => KeepsImage.linksNone).bind
    intro ret
    split
    · trivial
    apply Program.All.bind (p := Program.perform Act.gettime) (.perform trivial)
    intro now
    exact Program.All.bind (p := Drv.modMeta _) (.perform trivial) fun _ => trivial
  apply blocks.bind
  intro ret
  split
  · trivial
  · exact flushMetadata_keepsImage.mono fun _ => KeepsImage.linksNone

theorem flushRelease_linksNone (ret : Int) : (flushRelease ret).All LinksNone :=
  Program.All.bind (p := Program.perform Act.upFlush) (.perform trivial) fun _ => trivial

theorem ssdSysFlush_linksNone (type : FlushType) : (ssdSysFlush type).All LinksNone := by
  have body : (ssdSysFlushBody type).All LinksNone := by
    apply Program.All.bind (p := Drv.modFlush _) (.perform trivial)
    intro _
    apply ((copyRamTables_within (R := fun _ => True)).mono fun _ => Within.linksNone).bind
    intro found
    cases found with
    | some ret => trivial
    | none =>
        exact ((copyIdHash_within (R := fun _ => True)).mono fun _ => Within.linksNone).bind
          (flushImage_linksNone type)
  apply Program.All.bind (p := Program.perform Act.getOpened) (.perform trivial)
  intro opened
  split
  · trivial
  apply Program.All.bind (p := Program.perform Act.downFlush) (.perform trivial)
  intro _
  exact body.bind flushRelease_linksNone

end Links

/-- The id of `oneId`. -/
def onlyId : BlockId := ⟨0, 0⟩

/-- Thread 0 is about to flush the card with one id, the others to delete it. -/
def deleteSystem : FlushSystem :=
  ⟨(oneId, .none), fun _ => .delete onlyId, Function.update (fun _ => ssdIdDelete onlyId) 0 (ssdSysFlush .normal)⟩

theorem oneId_channel (c : Nat) : (oneId.ch c).sema = none ∧ (oneId.ch c).outstanding = none := by
  simp only [oneId, Device.setCh, Function.update_apply]
  split <;> exact ⟨rfl, rfl⟩

theorem oneId_mirrors : Mirrors Held.none oneId :=
  ⟨fun c => (oneId_channel c).1, rfl, fun c => by rw [(oneId_channel c).2]; rfl⟩

theorem deleteSystem_atRest : FlushAtRest deleteSystem where
  opened := rfl
  sema c := (oneId_channel c).1
  idle c := (oneId_channel c).2
  free := rfl
  unmarked := rfl
  flush := ⟨.normal, rfl⟩
  begins t other := by
    show Function.update (fun _ => ssdIdDelete onlyId) 0 (ssdSysFlush .normal) t = ssdIdDelete onlyId
    rw [Function.update_of_ne other]

theorem oneId_empty {c b : Nat} (other : c ≠ 0 ∨ b ≠ 0) : ((oneId.ch c).hash b).first = [] := by
  by_cases first : c = 0
  · subst first
    show (Function.update emptyChannel.hash 0 _ b).first = []
    rw [Function.update_of_ne (other.resolve_left (not_not_intro rfl))]
    rfl
  · show ((Function.update emptyDevice.ch 0 oneIdChannel c).hash b).first = []
    rw [Function.update_of_ne first]
    rfl

theorem oneId_nodes : (view oneId).nodes = [⟨onlyId, IdInfo.at 0 0 .iblock⟩] := by
  refine (flatMap_range_single (show 0 < ssdMaxChannel by decide) fun c _ other =>
    List.flatMap_eq_nil_iff.2 fun b _ => oneId_empty (.inl other)).trans ?_
  exact flatMap_range_single (show 0 < ssdHashSize by decide) fun b _ other => oneId_empty (c := 0) (.inr other)

/-- The card without its id. -/
theorem nodes_unlinked {d : Device} {k : Channel} (same : ∀ c, (d.ch c).hash = (oneId.ch c).hash)
    (empty : ∀ b, (k.hash b).first = []) : (view (d.setCh 0 k)).nodes = [] := by
  refine nodes_nil fun c b => ?_
  show (((d.setCh 0 k).ch c).hash b).first = []
  by_cases first : c = 0
  · subst first
    rw [Device.setCh_ch_same, empty]
  · rw [Device.setCh_ch_other _ _ first, same]
    exact oneId_empty (.inl first)

/-- The id is there where no operation on its channel is in progress. -/
def Present (d : Device) : Prop := (d.ch 0).sema = none → lookup ((d.ch 0).hash 0).first onlyId ≠ none

/-- Steps where the id is there. -/
def presently : May := fun d a o => effectiveTables d a o ∧ Present d

section Runs

variable {q q' : Drv Int} {d d' : Device} {w : Watch} {t : Nat} {p : FlushSystem}

theorem reaches_present (run : Reaches (Device.perform t) presently q d q' d') (before : ∀ m ∈ w.past, Present m) :
    ∃ w', Reaches (watched t) tablesRead q (d, w) q' (d', w') ∧ ∀ m ∈ w'.past, Present m := by
  refine run.withHistory (watch t) (I := fun w : Watch => ∀ m ∈ w.past, Present m) (fun _ _ _ allowed _ => allowed.1)
    (fun allowed _ before m member => ?_) before
  rcases List.mem_cons.1 member with rfl | old
  · exact allowed.2
  · exact before m old

/-- A part of the flush while nothing changes the ids. -/
theorem flush_present (all : q.All LinksNone) (there : lookup ((d.ch 0).hash 0).first onlyId ≠ none)
    (run : Reaches (Device.perform 0) noFailure q d q' d') :
    Reaches (Device.perform 0) presently q d q' d' ∧ ∀ c, (d'.ch c).hash = (d.ch c).hash := by
  refine run.keeps (J := fun e => ∀ c, (e.ch c).hash = (d.ch c).hash) (fun nothing same step c => ?_)
    (fun e a o allowed _ same => ?_) all fun _ => rfl
  · exact (linksNone_hash nothing step c).trans (same c)
  · refine ⟨fun _ _ _ _ _ _ => allowed.2.1, fun _ => ?_⟩
    rwa [same 0]

/-- While the semaphore is held. -/
theorem presently_held {a : Act} {o : Outcome} (held : (d.ch 0).sema ≠ none) (taken : o.taken = true) :
    presently d a o := ⟨fun _ _ _ _ _ _ => taken, fun free => absurd free held⟩

/-- Copying buckets changes nothing but the image. -/
theorem copyIdBuckets_runs (held : (d.ch 0).sema ≠ none) (c : Nat) (buckets : List Nat) (count : Nat) :
    ∃ count' image, Run presently (copyIdBuckets c buckets count) d count' { d with kbufFlush := image } := by
  induction buckets generalizing d count with
  | nil => exact ⟨count, d.kbufFlush, .pure _ _⟩
  | cons b rest ih =>
      have looked : d.perform 0 (.chan c (.copyBucket b)) succeeds = some (((d.ch c).hash b).first, d) := by
        simp only [Device.perform, Channel.perform, Option.map_some, Device.setCh_self]
      obtain ⟨count', image, tail⟩ := ih
        (d := { d with kbufFlush := putNodes ((d.ch c).hash b).first count d.kbufFlush }) held
        (count + ((d.ch c).hash b).first.length)
      refine ⟨count', image, .act (o := succeeds) (presently_held held rfl) looked ?_⟩
      exact .act (o := succeeds) (presently_held held rfl) rfl tail

theorem copyIdHash_runs (held : (d.ch 0).sema ≠ none) :
    ∃ image, Run presently copyIdHash d (view d).nodes.length { d with kbufFlush := image } := by
  have channels : ∀ (l : List Nat) (d : Device) (count : Nat), (d.ch 0).sema ≠ none →
      ∃ count' image, Run presently (copyIdChannels l count) d count' { d with kbufFlush := image } := by
    intro l
    induction l with
    | nil => exact fun d count _ => ⟨count, d.kbufFlush, .pure _ _⟩
    | cons c rest ih =>
        intro d count held
        obtain ⟨count', image, first⟩ := copyIdBuckets_runs held c (List.range ssdHashSize) count
        obtain ⟨count'', image', second⟩ := ih { d with kbufFlush := image } count' held
        exact ⟨count'', image', runs_bind_iff.2 ⟨_, _, first, second⟩⟩
  obtain ⟨count, image, run⟩ := channels _ d 0 held
  have blindImage : BlindImage always := fun _ _ _ => trivial
  have copied := (copyIdHash_spec blindImage trivial).runs run
  rw [copied.1] at run
  exact ⟨image, run⟩

theorem copyIdHash_acts : ∃ a rest, copyIdHash = .act a rest := by
  rw [copyIdHash, List.range_eq_range', List.range'_succ, copyIdChannels]
  rw [List.range_eq_range', List.range'_succ, copyIdBuckets]
  exact Program.bind_acts (Program.bind_acts ⟨_, _, rfl⟩ _) _

theorem flushImage_acts {count : Nat} (few : count ≤ ssdMaxIdNum) (type : FlushType) :
    ∃ a rest, flushImage type count = .act a rest := by
  rw [flushImage, flushTabledata, if_neg (Nat.not_lt.2 few)]
  exact Program.bind_acts (Program.bind_acts (p := Drv.getMeta) ⟨_, _, rfl⟩ _) _

/-- The end of a flush without failures. -/
theorem exists_flushImage (idle : Mirrors Held.flushing d) (pos : d.metaPos = initMetaPos) (type : FlushType)
    (count : Nat) (few : count ≤ ssdMaxIdNum) :
    ∃ d', Run noFailure (flushImage type count >>= flushRelease) d ssdOk d' ∧ d'.metadata.idNum = .ofNat count := by
  have flawless : Flawless noFailure := fun _ _ _ => id
  have blind : ∀ P, Blind always P := fun _ _ _ _ _ => trivial
  obtain ⟨ret, d1, blocks, idle1⟩ := exists_run noFailure_live idle (flushTabledata_locks free_flushing count type)
  obtain ⟨frame, ⟨m, j, off, -, -, -, answer⟩, fine⟩ :=
    (flushTabledata_spec (v := view d) count type (blind _) trivial).runs blocks
  obtain rfl := fine flawless few
  obtain ⟨-, -, -, ⟨now, record⟩, -⟩ | ⟨bad, -⟩ := answer
  swap
  · exact absurd rfl bad
  have pos1 : (view d1).metaPos = initMetaPos := frame.metaPos.trans pos
  obtain ⟨ret, d2, written, idle2⟩ := exists_run noFailure_live idle1 (flushMetadata_locks free_flushing)
  obtain ⟨rfl, attempt, -⟩ := (flushMetadata_flawless (b := 1) (v := view d1) flawless (by decide)
    (by rw [pos1]; rfl) (by rw [pos1]; decide) (by rw [record]; exact updateMeta_valid ..)
    (show always (view d1) from trivial) fun _ _ => trivial).runs written
  have kept : (view d2).metadata = (view d1).metadata := attempt.metadata
  refine ⟨{ d2 with flushSema := none }, runs_bind_iff.2 ⟨ssdOk, d2, runs_bind_iff.2 ⟨ssdOk, d1, blocks, ?_⟩, ?_⟩, ?_⟩
  · rw [if_neg (by decide)]
    exact written
  · exact .act (o := succeeds) ⟨rfl, rfl, fun _ no => nomatch no⟩ rfl (.pure _ _)
  · show (view d2).metadata.idNum = _
    rw [kept, record]
    rfl

/-- The delete has unlinked the id, and links it again when its `ERASE` has timed out. -/
theorem delete_times_out (free : (d.ch 0).sema = none) (hash : (d.ch 0).hash = oneIdChannel.hash) :
    Leads (Device.perform 1) presently (fun q d1 => (∃ k, d1 = d.setCh 0 k ∧ k.sema = some 1 ∧
      ∀ b, (k.hash b).first = []) ∧ ∀ d2, d2.ch 0 = d1.ch 0 → Leads (Device.perform 1) presently (fun q' d3 =>
        q' = .pure (-errTimeout) ∧ ∃ k, d3 = d2.setCh 0 k ∧ k.sema = none ∧ k.outstanding = none ∧
          k.hash = oneIdChannel.hash) q d2) (ssdIdDelete onlyId) d := by
  have held : ∀ {d : Device} {k : Channel} {a o}, o.taken = true → k.sema = some 1 →
      presently (d.setCh 0 k) a o := fun taken held => presently_held (by
    rw [Device.setCh_ch_same, held]
    exact Option.some_ne_none 1) taken
  have there : Present d := fun _ => by
    rw [hash]
    exact Option.some_ne_none _
  refine Leads.act succeeds ⟨fun _ _ _ _ _ _ => rfl, there⟩
    (show d.perform 1 (.down 0) succeeds = some ((), d.setCh 0 { d.ch 0 with sema := some 1 }) from if_pos free) ?_
  refine device_leads_chan_at (a := .delIdInfo onlyId) succeeds (held rfl rfl)
    (r := some (IdInfo.at 0 0 .iblock)) (k := _) (by simp only [Channel.perform, hash]; rfl) ?_
  refine Leads.here ⟨⟨_, rfl, rfl, fun b => ?_⟩, fun d2 same => ?_⟩
  · by_cases first : b = 0
    · subst first
      rfl
    · show (Function.update oneIdChannel.hash 0 _ b).first = []
      rw [Function.update_of_ne first]
      exact oneId_empty (c := 0) (.inr first)
  · have same := same.trans (Device.setCh_ch_same d 0 _)
    generalize d.ch 0 = ch at same
    obtain ⟨sema, out, kbuf, flash, hash, space, stat⟩ := ch
    rw [← Device.setCh_self d2 0, same]
    change Leads (Device.perform 1) presently _ (Program.act (.chan 0 (.stat _)) _) _
    refine device_leads_chan_at (k := ⟨some 1, _, _, _, _, _, _⟩) succeeds (held rfl rfl) rfl ?_
    refine device_leads_chan_at (k := ⟨some 1, some _, _, _, _, _, _⟩) succeeds (held rfl rfl) rfl ?_
    refine device_leads_chan_at (k := ⟨some 1, none, _, _, _, _, _⟩) timesOut (held rfl rfl) rfl ?_
    refine device_leads_chan_at (k := ⟨some 1, none, _, _, _, _, _⟩) succeeds (held rfl rfl) rfl ?_
    refine device_leads_up_at succeeds (held rfl rfl) ?_
    simp only [Device.setCh_setCh]
    refine Leads.here ⟨rfl, _, rfl, rfl, rfl, ?_⟩
    show Function.update (Function.update oneIdChannel.hash 0 _) 0 _ = oneIdChannel.hash
    rw [Function.update_idem]
    exact Function.update_eq_self 0 oneIdChannel.hash

/-- A thread performs a part of its program while the flush is at work. -/
theorem FlushRuns.leg {may : Watched → Act → Outcome → Prop} {p₁ : FlushSystem} {s s' : Watched}
    (run : FlushRuns may p p₁) (cut : Reaches (watched t) may q s q' s') (here : p₁.prog t = q) (state : p₁.state = s)
    (busy : t ≠ 0 → ∃ a rest, p₁.prog 0 = .act a rest) :
    ∃ p₂, FlushRuns may p p₂ ∧ p₂.state = s' ∧ p₂.prog = Function.update p₁.prog t q' := by
  rw [← here, ← state] at cut
  exact ⟨_, Relation.ReflTransGen.trans run (Pool.while_of_reaches busy cut), rfl, rfl⟩

/-- The id is in no image of a card without ids. -/
theorem not_showsMoments {s : Watched} (past : ∀ d ∈ s.2.past, Present d) (number : s.1.metadata.idNum = 0) :
    ¬ ShowsMoments s := by
  rintro ⟨moment, free, -, count⟩
  rw [number] at count
  have empty : (assembled moment).nodes = [] := List.eq_nil_of_length_eq_zero count.symm
  have bucket : (((moment 0).ch 0).hash 0).first = [] :=
    List.flatMap_eq_nil_iff.1 (List.flatMap_eq_nil_iff.1 empty 0 (List.mem_range.2 (by decide))) 0
      (List.mem_range.2 (by decide))
  obtain ⟨member, sema⟩ := free 0 (by decide)
  have there := past _ member sema
  rw [bucket] at there
  exact there rfl

/-- **A failing delete hides its id.** The flush has copied the tables when a delete takes the
semaphore of channel 0 and unlinks the id; it copies no id, and the `ERASE` of the delete times
out. The id is there whenever the channel is free, and not in the image. -/
theorem failing_delete_hides_id : FlushAtRest deleteSystem ∧ ∃ p', FlushRuns tablesRead deleteSystem p' ∧
    p'.prog 0 = .pure ssdOk ∧ p'.prog 1 = .pure (-errTimeout) ∧ (∀ d ∈ p'.state.2.past, Present d) ∧
      p'.state.1.metadata.idNum = 0 ∧ ¬ ShowsMoments p'.state := by
  refine ⟨deleteSystem_atRest, ?_⟩
  have there : lookup ((oneId.ch 0).hash 0).first onlyId ≠ none := Option.some_ne_none _
  -- the tables
  obtain ⟨d1, image1, idle1, view1, -, run1⟩ := reaches_ids (fun _ _ _ => id) oneId_mirrors rfl .normal
  obtain ⟨run1, hash1⟩ := flush_present (ssdSysFlush_linksNone .normal) there run1
  obtain ⟨w1, cut1, past1⟩ := reaches_present (w := .none) run1 nofun
  obtain ⟨p1, legs1, state1, prog1⟩ := FlushRuns.leg (p := deleteSystem) .refl cut1 rfl rfl (absurd rfl)
  -- the delete unlinks the id
  obtain ⟨q, d2, run2, ⟨k2, rfl, held2, empty2⟩, back⟩ := delete_times_out (idle1.sema 0) (hash1 0)
  obtain ⟨w2, cut2, past2⟩ := reaches_present run2 past1
  obtain ⟨p2, legs2, state2, prog2⟩ := legs1.leg cut2 (by rw [prog1]; rfl) state1 fun _ => by
    rw [prog1, Function.update_self]
    exact Program.bind_acts (Program.bind_acts copyIdHash_acts _) _
  -- no bucket has an id
  obtain ⟨image3, run3⟩ := copyIdHash_runs (d := d1.setCh 0 k2) (by
    rw [Device.setCh_ch_same, held2]
    exact Option.some_ne_none 1)
  rw [nodes_unlinked hash1 empty2] at run3
  obtain ⟨w3, cut3, past3⟩ := reaches_present
    ((run3.then_reaches (.here (flushImage .normal 0) _)).bind flushRelease) past2
  obtain ⟨p3, legs3, state3, prog3⟩ := legs2.leg cut3 (by rw [prog2, prog1]; rfl) state2 (absurd rfl)
  -- its `ERASE` times out
  obtain ⟨q', d4, run4, rfl, k4, rfl, free4, idle4, linked4⟩ :=
    back (Device.setCh { d1 with kbufFlush := image3 } 0 k2) rfl
  obtain ⟨w4, cut4, past4⟩ := reaches_present run4 past3
  obtain ⟨p4, legs4, state4, prog4⟩ := legs3.leg cut4 (by rw [prog3, prog2]; rfl) state3 fun _ => by
    rw [prog3, Function.update_self]
    exact Program.bind_acts (flushImage_acts (Nat.zero_le _) .normal) _
  -- the flush ends
  have flushing : Mirrors Held.flushing ((Device.setCh { d1 with kbufFlush := image3 } 0 k2).setCh 0 k4) := by
    rw [Device.setCh_setCh]
    exact Mirrors.setCh ⟨idle1.sema, idle1.flush, idle1.issued⟩ rfl free4 (by rw [idle4]; rfl) fun _ _ => ⟨rfl, rfl⟩
  obtain ⟨d5, run5, number⟩ := exists_flushImage flushing (congrArg View.metaPos view1) .normal 0 (by decide)
  obtain ⟨run5, -⟩ := flush_present ((flushImage_linksNone .normal 0).bind flushRelease_linksNone)
    (by rw [Device.setCh_ch_same, linked4]; exact there) run5.reaches
  obtain ⟨w5, cut5, past5⟩ := reaches_present run5 past4
  obtain ⟨p5, legs5, state5, prog5⟩ := legs4.leg cut5 (by rw [prog4, prog3]; rfl) state4 (absurd rfl)
  have past : ∀ d ∈ p5.state.2.past, Present d := by
    rw [state5]
    exact past5
  have zero : p5.state.1.metadata.idNum = 0 := by
    rw [state5]
    exact number
  exact ⟨p5, legs5, by rw [prog5]; rfl, by rw [prog5, prog4]; rfl, past, zero, not_showsMoments past zero⟩

/-- A flush without failures. -/
theorem exists_flush (idle : Mirrors Held.none d) (opened : d.opened = true) (pos : d.metaPos = initMetaPos)
    (few : (view d).nodes.length ≤ ssdMaxIdNum) (type : FlushType) : ∃ d', Run noFailure (ssdSysFlush type) d ssdOk d' ∧
      d'.metadata.idNum = .ofNat (view d).nodes.length := by
  obtain ⟨d1, image, idle1, view1, -, run1⟩ := reaches_ids (fun _ _ _ => id) idle opened type
  obtain ⟨n, d2, run2, idle2⟩ := exists_run noFailure_live idle1 copyIdHash_locks
  have blindImage : BlindImage always := fun _ _ _ => trivial
  obtain ⟨count, view2⟩ := (copyIdHash_spec (v := view d1) blindImage trivial).runs run2
  have nodes : (view d1).nodes = (view d).nodes := by
    rw [view1]
    rfl
  rw [nodes] at count
  have pos2 : (view d2).metaPos = initMetaPos := by
    rw [view2, view1]
    exact pos
  obtain ⟨d3, run3, number⟩ := exists_flushImage idle2 pos2 type n (count.symm ▸ few)
  rw [count] at run3 number
  have rest := (run2.then_reaches (.here (flushImage type n) _)).bind flushRelease
  rw [count] at rest
  exact ⟨d3, (run1.trans (rest.trans run3.reaches)).runs, number⟩

/-- Before the first table no id has to wait. -/
theorem waits_of_closed {s : Watched} {a : Act} (closed : ∀ c, s.2.tables c = false) : Waits s a := by
  have shut : ∀ c b, ¬ s.2.Window c b := fun c b window => Bool.false_ne_true ((closed c).symm.trans window.1)
  cases a
  case chan c a =>
      cases a
      case setIdInfo => exact shut _ _
      case delIdInfo => exact .inr (shut _ _)
      all_goals trivial
  all_goals trivial

theorem LinksNone.waits {s : Watched} {a : Act} (nothing : LinksNone a) : Waits s a := by
  cases a
  case chan c a =>
      cases a
      case setIdInfo | delIdInfo => cases nothing
      all_goals trivial
  all_goals trivial

/-- What links and unlinks no id need not wait. -/
theorem reaches_quiet (all : q.All LinksNone) (run : Reaches (Device.perform t) noFailure q d q' d') (w : Watch) :
    ∃ w', Reaches (watched t) quietSteps q (d, w) q' (d', w') := by
  have quiet : Reaches (Device.perform t) (fun d a o => effectiveTables d a o ∧ LinksNone a) q d q' d' ∧ True :=
    run.keeps (fun _ _ _ => trivial) (fun _ _ _ allowed nothing _ => ⟨fun _ _ _ _ _ _ => allowed.2.1, nothing⟩)
      all trivial
  have cut : ∃ w', Reaches (watched t) quietSteps q (d, w) q' (d', w') ∧ True :=
    quiet.1.withHistory (watch t) (fun _ _ _ allowed _ => ⟨allowed.1, allowed.2.waits⟩) (fun _ _ _ => trivial) trivial
  obtain ⟨w', cut, -⟩ := cut
  exact ⟨w', cut⟩

theorem flush_behind_delete_shows_moments : ∃ p', FlushRuns quietSteps deleteSystem p' ∧ p'.prog 0 = .pure ssdOk ∧
    p'.prog 1 = .pure (-errTimeout) ∧ p'.state.1.metadata.idNum = 1 ∧ ShowsMoments p'.state := by
  -- the delete, before the flush has begun
  obtain ⟨q, d1, unlink, ⟨k1, rfl, -, -⟩, back⟩ := delete_times_out (d := oneId) rfl rfl
  obtain ⟨q', d2, relink, rfl, k2, rfl, free2, idle2, linked2⟩ := back _ rfl
  have deleted : ∃ w, Reaches (watched 1) quietSteps (ssdIdDelete onlyId) (oneId, .none) (.pure (-errTimeout))
      ((oneId.setCh 0 k1).setCh 0 k2, w) ∧ ∀ c, w.tables c = false :=
    (unlink.trans relink).withHistory (watch 1) (I := fun w => ∀ c, w.tables c = false)
      (fun _ _ _ allowed closed => ⟨allowed.1, waits_of_closed closed⟩) (fun _ _ closed => closed) fun _ => rfl
  obtain ⟨w2, cut2, -⟩ := deleted
  obtain ⟨p2, legs2, state2, prog2⟩ := FlushRuns.leg (p := deleteSystem) .refl cut2 rfl rfl fun _ => ⟨_, _, rfl⟩
  -- the flush
  rw [Device.setCh_setCh] at state2
  have same : ∀ c, ((oneId.setCh 0 k2).ch c).hash = (oneId.ch c).hash := by
    intro c
    by_cases first : c = 0
    · subst first
      rw [Device.setCh_ch_same, linked2]
      rfl
    · rw [Device.setCh_ch_other _ _ first]
  have nodes : (view (oneId.setCh 0 k2)).nodes.length = 1 := by
    have nodes : (view (oneId.setCh 0 k2)).nodes = (view oneId).nodes := by
      simp only [View.nodes, view, same]
    rw [nodes, oneId_nodes]
    rfl
  have mirrors : Mirrors Held.none (oneId.setCh 0 k2) :=
    oneId_mirrors.setCh rfl free2 (by rw [idle2]; rfl) fun _ _ => ⟨rfl, rfl⟩
  obtain ⟨d3, run3, number⟩ := exists_flush mirrors rfl rfl (by rw [nodes]; decide) .normal
  obtain ⟨w3, cut3⟩ := reaches_quiet (ssdSysFlush_linksNone .normal) run3.reaches w2
  obtain ⟨p3, legs3, state3, prog3⟩ := legs2.leg cut3 (by rw [prog2]; rfl) state2 (absurd rfl)
  have returned : p3.prog 0 = .pure ssdOk := by
    rw [prog3]
    rfl
  refine ⟨p3, legs3, returned, by rw [prog3, prog2]; rfl, ?_, ?_⟩
  · rw [state3]
    rw [nodes] at number
    exact number
  · exact quiet_flush_shows_moments deleteSystem_atRest legs3 returned

end Runs

end FpgaSsd.Theory
