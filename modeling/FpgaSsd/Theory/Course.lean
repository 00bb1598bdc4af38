/-
# Theory.Course — the course of a flush among other threads

What a flush copies while the clients go on. Each channel has a moment: the state of the
card in which its semaphore was free and the flush took it to copy its tables.

* `Along` — the image so far, and the buckets that are still to be copied are what they
  were at the moments of their channels;
* `copyRamTables_moment`, `copyIdHash_moment` — the tables and the ids go into the image as
  they were at the moments;
* `flushTabledata_moment`, `flushing_keeps` — the rest leaves the image alone.
-/
import FpgaSsd.Theory.Clients
import FpgaSsd.Theory.Image

namespace FpgaSsd.Theory

open FpgaSsd.Lib FpgaSsd.Driver

set_option autoImplicit false

/-- A card on which each channel is as in a state of its own. -/
def assembled (moment : Nat → Device) : View := { view (moment 0) with
  flash := fun c => ((moment c).ch c).flash
  hash := fun c => ((moment c).ch c).hash }

/-! ## The image -/

/-- Actions of the flush that leave the image and the ids alone, and the number of ids in the record. -/
def KeepsImage : Act → Prop
  | .modFlush _ | .chan _ (.setIdInfo ..) | .chan _ (.delIdInfo _) => False
  | .chan _ (.initBucket _) | .chan _ (.freeBucket _) => False
  | .modMeta f => ∀ m, (f m).idNum = m.idNum
  | _ => True

section Tail

theorem channelOp_keepsImage (c cmd : Nat) : (channelOp c cmd).All KeepsImage :=
  ⟨trivial, fun _ => ⟨trivial, fun _ => trivial⟩⟩

theorem onReserveBlock_keepsImage {pos : Nat} {body : Nat → Nat → Drv Int}
    (inner : ∀ c block, (body c block).All KeepsImage) : (onReserveBlock pos body).All KeepsImage := by
  simp only [onReserveBlock]
  split
  · trivial
  · exact withSema_all trivial trivial (inner ..)

/-- A loop that stops at the first failure, and its answer. -/
theorem untilError_keepsImage {body : Nat → Drv Int} {items : List Nat} (each : ∀ i, (body i).All KeepsImage) :
    (Program.firstSome (fun i => do
      let ret ← body i
      pure (if ret ≠ ssdOk then some ret else none)) items >>= fun
      | some ret => pure ret
      | none => pure ssdOk : Drv Int).All KeepsImage := by
  apply Program.All.bind
  · exact Program.All.firstSome fun i _ => (each i).bind fun _ => trivial
  · intro found
    cases found <;> trivial

theorem eraseOneReserveBlock_keepsImage (pos : Nat) : (eraseOneReserveBlock pos).All KeepsImage :=
  onReserveBlock_keepsImage fun _ _ => channelOp_keepsImage ..

theorem readOneReservePage_keepsImage (pos page : Nat) : (readOneReservePage pos page).All KeepsImage :=
  onReserveBlock_keepsImage fun _ _ => channelOp_keepsImage ..

theorem writeOneReservePage_keepsImage (pos page : Nat) : (writeOneReservePage pos page).All KeepsImage := by
  apply onReserveBlock_keepsImage
  intro c block
  apply Program.All.bind (p := Drv.getMeta) (.perform trivial)
  intro record
  apply Program.All.bind (p := Drv.modKbuf ..) (.perform trivial)
  intro _
  exact channelOp_keepsImage ..

theorem writeTabledataBlock_keepsImage (pos offset : Nat) : (writeTabledataBlock pos offset).All KeepsImage := by
  have write : (writeOneReserveBlock pos offset).All KeepsImage := by
    apply onReserveBlock_keepsImage
    intro c block
    apply untilError_keepsImage
    intro page
    apply Program.All.bind (p := Drv.readFlush) (.perform trivial)
    intro image
    exact Program.All.bind (p := Drv.modKbuf ..) (.perform trivial) fun _ => channelOp_keepsImage ..
  have read : (readOneReserveBlock pos).All KeepsImage :=
    onReserveBlock_keepsImage fun _ _ => untilError_keepsImage fun _ => channelOp_keepsImage ..
  apply (eraseOneReserveBlock_keepsImage pos).bind
  intro ret
  split
  · trivial
  apply write.bind
  intro ret
  split
  · trivial
  · exact read

theorem flushTableBlocks_keepsImage (n i cur : Nat) : (flushTableBlocks n i cur).All KeepsImage := by
  have retry : ∀ (i offset n cur : Nat), (retryWriteTabledataBlock i offset n cur).All KeepsImage := by
    intro i offset n
    induction n with
    | zero => exact fun _ => trivial
    | succ n ih =>
        intro cur
        apply (untilError_keepsImage fun _ => writeTabledataBlock_keepsImage ..).bind
        intro ret
        split
        · exact Program.All.bind (p := Drv.modMeta _) (.perform fun _ => rfl) fun _ => trivial
        · exact ih _
  induction n generalizing i cur with
  | zero => trivial
  | succ n ih =>
      apply (retry ..).bind
      intro ret
      split
      · trivial
      · exact ih ..

theorem writeMetaPage_keepsImage (plane : Nat) : (writeMetaPage plane).All KeepsImage := by
  apply Program.All.bind (p := Drv.getMetaPos) (.perform trivial)
  intro p
  split
  · trivial
  have erase : (eraseIfFirstPage (p.blockPos + plane) p.page).All KeepsImage := by
    rw [eraseIfFirstPage]
    split
    · exact eraseOneReserveBlock_keepsImage _
    · trivial
  apply erase.bind
  intro ret
  split
  · trivial
  apply (writeOneReservePage_keepsImage ..).bind
  intro ret
  split
  · trivial
  · exact readOneReservePage_keepsImage ..

theorem flushMetadata_keepsImage : flushMetadata.All KeepsImage := by
  have planes : ∀ (l : List Nat) (n : Nat), (writeMetaPages l n).All KeepsImage := by
    intro l
    induction l with
    | nil => exact fun _ => trivial
    | cons plane rest ih => exact fun n => (writeMetaPage_keepsImage plane).bind fun _ => ih _
  have attempts : ∀ (n : Nat) (ret : Int), (flushMetadataLoop n ret).All KeepsImage := by
    intro n
    induction n with
    | zero => exact fun _ => trivial
    | succ n ih =>
        intro ret
        apply Program.All.bind (p := findNewMetaPos ret)
          (Program.All.bind (p := Drv.modMetaPos _) (.perform trivial) fun _ => trivial)
        intro ret
        split
        · trivial
        apply Program.All.bind
        · exact (planes ..).bind fun _ => trivial
        intro ret
        split
        · trivial
        · exact ih _
  exact attempts ..

end Tail

/-! ## The course of the flush -/

/-- The course of the flush among the other threads. -/
abbrev Flushing {α : Type} (p : Drv α) (post : α → Watched → Prop) (s : Watched) : Prop :=
  Safe (watched 0) ⟨Moves 0, fun _ _ => True, quietSteps⟩ p post s

/-- The image so far. The channels below `n` have their moments: a bucket of them that is
still to be copied is what it was then. -/
structure Along (n : Nat) (moment : Nat → Device) (image : Mem) (s : Watched) : Prop where
  past : ∀ c < n, moment c ∈ s.2.past ∧ ((moment c).ch c).sema = none
  tables : ∀ c < n, s.2.tables c = true
  hash : ∀ c < n, ∀ b, s.2.copied c b = false → (s.1.ch c).hash b = ((moment c).ch c).hash b
  image : s.1.kbufFlush = image

/-- The flush has channel `c`, whose hardware is what it was in `m`. -/
structure Reading (c : Nat) (m : Device) (s : Watched) : Prop where
  sema : (s.1.ch c).sema = some 0
  flash : (s.1.ch c).flash = (m.ch c).flash

section Course

variable {α : Type} {n c : Nat} {moment : Nat → Device} {image : Mem} {m : Device} {s s' : Watched}

theorem flushing_steady : Contract.Steady (⟨Moves 0, fun _ _ => True, quietSteps⟩ : Contract Act Watched Outcome) :=
  moves_steady 0 _ _

/-- One action of the flush, with what happens before and behind it. -/
theorem Flushing.act {a : Act} {post : a.Reply → Watched → Prop}
    (each : ∀ s₁ o r d s₂, Moves 0 s s₁ → quietSteps s₁ a o → s₁.1.perform 0 a o = some (r, d) →
      Moves 0 (d, watch 0 a r s₁.1 d s₁.2) s₂ → post r s₂) : Flushing (Program.perform a) post s := by
  refine fun s₁ before => ⟨trivial, fun o r t may step => ?_⟩
  obtain ⟨acted, told⟩ := recorded_eq_some.1 step
  obtain ⟨d, w⟩ := t
  change w = watch 0 a r s₁.1 d s₁.2 at told
  subst told
  exact fun s₂ behind => each s₁ o r d s₂ before may acted behind

theorem Along.moves (along : Along n moment image s) (moves : Moves 0 s s') : Along n moment image s' := by
  have spared := moves.spared rfl
  refine ⟨fun c less => ?_, fun c less => ?_, fun c less b waiting => ?_, spared.kbufFlush.trans along.image⟩
  · exact ⟨spared.past _ (along.past c less).1, (along.past c less).2⟩
  · rw [spared.tables]
    exact along.tables c less
  · rw [spared.copied] at waiting
    exact (spared.hash c b ⟨along.tables c less, waiting⟩).trans (along.hash c less b waiting)

theorem Reading.moves (reading : Reading c m s) (moves : Moves 0 s s') : Reading c m s' :=
  ⟨(moves.undisturbed.sema c).1 reading.sema, ((moves.spared rfl).flash c reading.sema).trans reading.flash⟩

theorem mark_tables {w : Watch} {a : Act} (marked : w.tables c = true) : (w.mark a).tables c = true := by
  cases a
  case down c' =>
      by_cases same : c = c'
      · subst same
        exact Function.update_self ..
      · exact (Function.update_of_ne same ..).trans marked
  case chan c' a => cases a <;> exact marked
  all_goals exact marked

theorem mark_copied {w : Watch} {a : Act} {b : Nat} (waiting : (w.mark a).copied c b = false) :
    w.copied c b = false := by
  cases a
  case chan c' a =>
      cases a
      case copyBucket b' =>
          simp only [Watch.mark, Function.update_apply] at waiting
          split at waiting
          · rename_i same
            subst same
            simp only [Function.update_apply] at waiting
            split at waiting
            · cases waiting
            · exact waiting
          · exact waiting
      all_goals exact waiting
  all_goals exact waiting

theorem KeepsImage.linksNone {a : Act} (keeps : KeepsImage a) : LinksNone a := by
  cases a
  case chan c a => cases a <;> trivial
  all_goals trivial

/-- What such an action leaves as it was, apart from the ids. -/
theorem keepsImage_step {a : Act} {o : Outcome} {r : a.Reply} {d d' : Device} (keeps : KeepsImage a)
    (step : d.perform 0 a o = some (r, d')) :
    d'.kbufFlush = d.kbufFlush ∧ d'.metadata.idNum = d.metadata.idNum := by
  cases a
  case chan c a =>
      obtain ⟨⟨r', ch⟩, -, eq⟩ := Option.map_eq_some_iff.1 step
      cases eq
      exact ⟨rfl, rfl⟩
  case down | downFlush =>
      simp only [Device.perform] at step
      split at step
      · cases step
        exact ⟨rfl, rfl⟩
      · cases step
  case modMeta f =>
      cases step
      exact ⟨rfl, keeps _⟩
  case modFlush => cases keeps
  all_goals
    cases step
    exact ⟨rfl, rfl⟩

/-- The ids and the marks stay at an action of the flush, and its image is `image'`. -/
theorem Along.renew {a : Act} {r : a.Reply} {d : Device} {image' : Mem} (along : Along n moment image s)
    (hash : ∀ c, (d.ch c).hash = (s.1.ch c).hash) (renewed : d.kbufFlush = image') :
    Along n moment image' (d, watch 0 a r s.1 d s.2) := by
  refine ⟨fun c less => ⟨List.mem_cons_of_mem _ (along.past c less).1, (along.past c less).2⟩,
    fun c less => mark_tables (along.tables c less), fun c less b waiting => ?_, renewed⟩
  rw [hash]
  exact along.hash c less b (mark_copied waiting)

theorem Along.step {a : Act} {o : Outcome} {r : a.Reply} {d : Device} (along : Along n moment image s)
    (keeps : KeepsImage a) (acted : s.1.perform 0 a o = some (r, d)) :
    Along n moment image (d, watch 0 a r s.1 d s.2) := by
  exact along.renew (linksNone_hash keeps.linksNone acted) ((keepsImage_step keeps acted).1.trans along.image)

/-- A change of the image. -/
theorem flushing_modFlush (along : Along n moment image s) (f : Mem → Mem) :
    Flushing (Drv.modFlush f) (fun _ s' => Along n moment (f image) s' ∧ s'.2.copied = s.2.copied ∧
      ∀ c m, Reading c m s → Reading c m s') s := by
  refine Flushing.act fun s₁ o r d s₂ before _ acted behind => ?_
  obtain ⟨same, renewed⟩ : d.ch = s₁.1.ch ∧ d.kbufFlush = f s₁.1.kbufFlush := by
    cases acted
    exact ⟨rfl, rfl⟩
  have now := along.moves before
  have changed := now.renew (a := .modFlush f) (r := r) (fun c => by rw [same]) (renewed.trans (congrArg f now.image))
  refine ⟨changed.moves behind, (behind.spared rfl).copied.trans (before.spared rfl).copied, fun c m reading => ?_⟩
  have held := reading.moves before
  exact Reading.moves (⟨by rw [same]; exact held.sema, by rw [same]; exact held.flash⟩) behind

theorem Reading.setCh {ch : Channel} {w : Watch} (reading : Reading c m s) (sema : ch.sema = (s.1.ch c).sema)
    (flash : ch.flash = (s.1.ch c).flash) : Reading c m (s.1.setCh c ch, w) := by
  refine ⟨?_, ?_⟩
  · rw [Device.setCh_ch_same]
    exact sema.trans reading.sema
  · rw [Device.setCh_ch_same]
    exact flash.trans reading.flash

/-- The command that reads a table is out. -/
theorem flushing_issue (cmd : Nat) (along : Along n moment image s) (reading : Reading c m s) :
    Flushing (Drv.chan c (.issue cmd)) (fun _ s' => Along n moment image s' ∧ Reading c m s' ∧
      s'.2.copied = s.2.copied ∧ (s'.1.ch c).outstanding = some cmd) s := by
  refine Flushing.act fun s₁ o r d s₂ before _ acted behind => ?_
  have issued := (along.moves before).step (a := .chan c (.issue cmd)) trivial acted
  obtain rfl : d = s₁.1.setCh c { s₁.1.ch c with outstanding := some cmd } := by
    cases acted
    rfl
  have held : ∀ w, Reading c m (s₁.1.setCh c { s₁.1.ch c with outstanding := some cmd }, w) :=
    fun w => (reading.moves before).setCh rfl rfl
  refine ⟨issued.moves behind, (held _).moves behind, (behind.spared rfl).copied.trans (before.spared rfl).copied, ?_⟩
  rw [(behind.undisturbed.held c (held s.2).sema).2, Device.setCh_ch_same]

/-- A table of channel `c` comes into its buffer. -/
theorem ramTableRead_moment {type : Nat} (along : Along n moment image s) (reading : Reading c m s) :
    Flushing (ramTableRead ⟨c, type⟩) (fun ret s' => Along n moment image s' ∧ Reading c m s' ∧
      s'.2.copied = s.2.copied ∧
      (ret = ssdOk → ∀ i < ssdTableSize, (s'.1.ch c).kbuf i = ramTable (m.ch c).flash type i)) s := by
  refine Safe.seq flushing_steady (flushing_issue (readTableCmd type) along reading) ?_
  rintro _ s₁ ⟨along₁, reading₁, same₁, out₁⟩
  refine Flushing.act fun s₂ o r d s₃ before may acted behind => ?_
  have out : (s₂.1.ch c).outstanding = some (readTableCmd type) :=
    ((before.undisturbed.held c reading₁.sema).2).trans out₁
  have mine := reading₁.moves before
  have waited := (along₁.moves before).step (a := .chan c .await) trivial acted
  obtain ⟨⟨ret, ch⟩, done, eq⟩ := Option.map_eq_some_iff.1 acted
  cases eq
  obtain ⟨cmd, kbuf, flash, issued, exec, answer, rfl⟩ := Channel.perform_await done
  obtain rfl : readTableCmd type = cmd := Option.some.inj (out.symm.trans issued)
  obtain ⟨filled, rfl⟩ := readTable_exec exec
  have ready : ∀ w, Reading c m (s₂.1.setCh c { s₂.1.ch c with
      outstanding := none, kbuf := kbuf, flash := (s₂.1.ch c).flash }, w) := fun w => mine.setCh rfl rfl
  refine ⟨waited.moves behind, (ready _).moves behind, ?_, fun fine i small => ?_⟩
  · exact ((behind.spared rfl).copied.trans (before.spared rfl).copied).trans same₁
  · have ok : o.ret = .ok := ChannelRet.toInt_eq_zero.1 (answer.symm.trans fine)
    have taken : o.taken = true := may.1 c _ rfl out (onRamTable_read type) ok
    rw [(behind.undisturbed.held c (ready s.2).sema).1, Device.setCh_ch_same]
    show kbuf i = _
    rw [filled, fill_table ok taken i small, mine.flash]

/-- A table of channel `c` goes into the image. -/
theorem copyTable_moment {type offset : Nat} (next stop : Int → Drv Int) {post : Int → Watched → Prop}
    (along : Along n moment image s) (reading : Reading c m s)
    (copied : ∀ s', Along n moment (copyBytes image offset (ramTable (m.ch c).flash type) 0 ssdTableSize) s' →
      Reading c m s' → s'.2.copied = s.2.copied → Flushing (next ssdOk) post s')
    (failed : ∀ ret s', ret ≠ ssdOk → Flushing (stop ret) post s') :
    Flushing (do
      let ret ← ramTableRead ⟨c, type⟩
      if ret ≠ ssdOk then stop ret
      else
        let table ← Drv.readKbuf c
        Drv.modFlush fun m => copyBytes m offset table 0 ssdTableSize
        next ret) post s := by
  refine Safe.seq flushing_steady (ramTableRead_moment along reading) ?_
  rintro ret s₁ ⟨along₁, reading₁, same₁, table⟩
  by_cases ok : ret = ssdOk
  · subst ok
    rw [if_neg (not_not.2 rfl)]
    refine Safe.seq flushing_steady (M := fun kbuf s₂ => Along n moment image s₂ ∧ Reading c m s₂ ∧
      s₂.2.copied = s.2.copied ∧ ∀ i < ssdTableSize, kbuf i = ramTable (m.ch c).flash type i) ?_ ?_
    · refine Flushing.act fun s₂ o r d s₃ before _ acted behind => ?_
      have kept := ((along₁.moves before).step (a := .chan c .readKbuf) trivial acted).moves behind
      have held := reading₁.moves before
      obtain rfl : d = s₂.1.setCh c (s₂.1.ch c) := by
        cases acted
        rfl
      obtain rfl : (s₂.1.ch c).kbuf = r := by
        cases acted
        rfl
      refine ⟨kept, (held.setCh rfl rfl).moves behind, ?_, fun i small => ?_⟩
      · exact ((behind.spared rfl).copied.trans (before.spared rfl).copied).trans same₁
      · rw [(before.undisturbed.held c reading₁.sema).1]
        exact table rfl i small
    · rintro kbuf s₂ ⟨along₂, reading₂, same₂, read⟩
      refine Safe.seq flushing_steady (flushing_modFlush along₂ _) ?_
      rintro _ s₃ ⟨along₃, same₃, keeps⟩
      rw [copyBytes_first read] at along₃
      exact copied s₃ along₃ (keeps c m reading₂) (same₃.trans same₂)
  · rw [if_pos ok]
    exact failed ret s₁ ok

/-- The image after the tables of channel `c`. -/
def withTables (image : Mem) (c offset : Nat) (m : Device) : Mem :=
  copyBytes (copyBytes image offset (m.ch c).flash.addrTable 0 ssdTableSize)
    (offset + ssdTableSize) (m.ch c).flash.eraseTable 0 ssdTableSize

/-- The moment of the next channel is the one in which its semaphore is taken. -/
theorem flushing_down (along : Along n moment image s) :
    Flushing (Drv.down n) (fun _ s' => ∃ m, Along (n + 1) (Function.update moment n m) image s' ∧
      Reading n m s' ∧ s'.2.copied = s.2.copied) s := by
  refine Flushing.act fun s₁ o r d s₂ before _ acted behind => ⟨s₁.1, ?_⟩
  have now := (along.moves before).step (a := .down n) trivial acted
  simp only [Device.perform] at acted
  split at acted
  · rename_i free
    cases acted
    have held : ∀ w, Reading n s₁.1 (s₁.1.setCh n { s₁.1.ch n with sema := some 0 }, w) := by
      intro w
      refine ⟨?_, ?_⟩ <;> rw [Device.setCh_ch_same]
    refine ⟨Along.moves ⟨fun c less => ?_, fun c less => ?_, fun c less b waiting => ?_, now.image⟩ behind,
      (held _).moves behind, (behind.spared rfl).copied.trans (before.spared rfl).copied⟩
    all_goals
      rcases Nat.lt_succ_iff_lt_or_eq.1 less with below | rfl
    · rw [Function.update_of_ne (Nat.ne_of_lt below)]
      exact now.past c below
    · rw [Function.update_self]
      exact ⟨List.mem_cons_self .., free⟩
    · exact now.tables c below
    · exact Function.update_self ..
    · rw [Function.update_of_ne (Nat.ne_of_lt below)]
      exact now.hash c below b waiting
    · rw [Function.update_self, Device.setCh_ch_same]
  · cases acted

/-- **The tables of one channel** are those of its moment. -/
theorem copyRamTable_moment {offset : Nat} (along : Along n moment image s) :
    Flushing (copyRamTable n offset) (fun ret s' => ret = ssdOk → ∃ m,
      Along (n + 1) (Function.update moment n m) (withTables image n offset m) s' ∧
        s'.2.copied = s.2.copied) s := by
  refine Safe.seq flushing_steady (flushing_down along) ?_
  rintro _ s₁ ⟨m, along₁, reading₁, same₁⟩
  refine Safe.seq flushing_steady (M := fun ret s' => ret = ssdOk →
    Along (n + 1) (Function.update moment n m) (withTables image n offset m) s' ∧ s'.2.copied = s.2.copied) ?_ ?_
  · refine copyTable_moment (fun _ => do
      let ret ← ramTableRead ⟨n, tableEraseType⟩
      if ret ≠ ssdOk then pure ret
      else
        let erase ← Drv.readKbuf n
        Drv.modFlush fun m => copyBytes m (offset + ssdTableSize) erase 0 ssdTableSize
        pure ret) pure along₁ reading₁ (fun s₂ along₂ reading₂ same₂ => ?_)
      fun ret s' bad t later ok => absurd ok bad
    refine copyTable_moment pure pure along₂ reading₂ (fun s₃ along₃ _ same₃ t later _ => ?_)
      fun ret s' bad t later ok => absurd ok bad
    exact ⟨along₃.moves later, (later.spared rfl).copied.trans (same₃.trans (same₂.trans same₁))⟩
  · intro ret s₂ read
    refine Safe.seq flushing_steady (p := Drv.up n) (M := fun _ s' => ret = ssdOk →
      Along (n + 1) (Function.update moment n m) (withTables image n offset m) s' ∧ s'.2.copied = s.2.copied) ?_ ?_
    · refine Flushing.act fun s₃ o r d s₄ before _ acted behind ok => ?_
      obtain ⟨along₂, same₂⟩ := read ok
      refine ⟨((along₂.moves before).step (a := .up n) trivial acted).moves behind, ?_⟩
      exact ((behind.spared rfl).copied.trans (before.spared rfl).copied).trans same₂
    · intro _ s₃ given t later ok
      obtain ⟨along₃, same₃⟩ := given ok
      exact ⟨m, along₃.moves later, (later.spared rfl).copied.trans same₃⟩

theorem assembled_flash (moment : Nat → Device) (c : Nat) :
    (assembled moment).flash c = ((moment c).ch c).flash := rfl

/-- The moments of the channels below do not change. -/
theorem tablesIn_assembled {moment' : Nat → Device} (tables : TablesIn image (assembled moment) n)
    (same : ∀ c < n, moment' c = moment c) : TablesIn image (assembled moment') n := by
  intro c less i small
  rw [assembled_flash, same c less]
  exact tables c less i small

/-- **The tables of all channels.** -/
theorem copyRamTables_moment (start : Along 0 moment image s) :
    Flushing copyRamTables (fun found s' => (∀ ret, found = some ret → ret ≠ ssdOk) ∧
      (found = none → ∃ moment image, Along ssdMaxChannel moment image s' ∧
        TablesIn image (assembled moment) ssdMaxChannel ∧ s'.2.copied = s.2.copied)) s := by
  have loop : ∀ k n s' moment image, n + k = ssdMaxChannel → Along n moment image s' →
      TablesIn image (assembled moment) n → s'.2.copied = s.2.copied →
        Flushing (Program.firstSome (fun channel => do
          let ret ← copyRamTable channel (channel * (2 * ssdTableSize))
          pure (if ret ≠ ssdOk then some ret else none)) (List.range' n k))
          (fun found s'' => (∀ ret, found = some ret → ret ≠ ssdOk) ∧
            (found = none → ∃ moment image, Along ssdMaxChannel moment image s'' ∧
              TablesIn image (assembled moment) ssdMaxChannel ∧ s''.2.copied = s.2.copied)) s' := by
    intro k
    induction k with
    | zero =>
        intro n s' moment image total along tables same t later
        obtain rfl : n = ssdMaxChannel := total
        exact ⟨fun ret no => absurd no.symm (Option.some_ne_none ret), fun _ =>
          ⟨moment, image, along.moves later, tables, (later.spared rfl).copied.trans same⟩⟩
    | succ k ih =>
        intro n s' moment image total along tables same
        rw [List.range'_succ]
        refine Safe.seq flushing_steady (Safe.seq flushing_steady (copyRamTable_moment along) fun ret s₁ read => ?_)
          (M := fun found s₁ => (∀ ret, found = some ret → ret ≠ ssdOk) ∧ (found = none → ∃ m,
            Along (n + 1) (Function.update moment n m) (withTables image n (n * (2 * ssdTableSize)) m) s₁ ∧
              s₁.2.copied = s'.2.copied)) fun found s₁ read => ?_
        · intro t later
          by_cases ok : ret = ssdOk
          · obtain ⟨m, along₁, same₁⟩ := read ok
            rw [if_neg (not_not.2 ok)]
            exact ⟨fun ret no => absurd no.symm (Option.some_ne_none ret), fun _ =>
              ⟨m, along₁.moves later, (later.spared rfl).copied.trans same₁⟩⟩
          · rw [if_pos ok]
            exact ⟨fun ret' eq => Option.some.inj eq ▸ ok, fun no => absurd no (Option.some_ne_none ret)⟩
        · obtain ⟨bad, read⟩ := read
          cases found with
          | some ret => exact fun t _ => ⟨bad, fun no => absurd no (Option.some_ne_none ret)⟩
          | none =>
              obtain ⟨m, along₁, same₁⟩ := read rfl
              refine ih (n + 1) s₁ _ _ (by omega) along₁ ?_ (same₁.trans same)
              have kept : TablesIn image (assembled (Function.update moment n m)) n :=
                tablesIn_assembled tables fun c less => Function.update_of_ne (Nat.ne_of_lt less) ..
              have next := tablesIn_succ kept
              rw [assembled_flash, Function.update_self] at next
              exact next
  rw [copyRamTables, List.range_eq_range']
  exact loop ssdMaxChannel 0 s moment image (Nat.zero_add _) start (fun c no => absurd no (Nat.not_lt_zero c)) rfl

/-- The buckets that are still to be copied. -/
def Waiting (todo : List (Nat × Nat)) (s : Watched) : Prop := ∀ x ∈ todo, s.2.copied x.1 x.2 = false

/-- **A bucket** is copied as it was at the moment of its channel. -/
theorem copyBucket_moment {b : Nat} {todo : List (Nat × Nat)} (inside : c < n) (along : Along n moment image s)
    (waiting : Waiting ((c, b) :: todo) s) (fresh : (c, b) ∉ todo) :
    Flushing (Drv.chan c (.copyBucket b)) (fun nodes s' => nodes = ((assembled moment).hash c b).first ∧
      Along n moment image s' ∧ Waiting todo s') s := by
  refine Flushing.act fun s₁ o r d s₂ before _ acted behind => ?_
  have now := along.moves before
  have same : s₁.2.copied = s.2.copied := (before.spared rfl).copied
  have copied := now.step (a := .chan c (.copyBucket b)) trivial acted
  cases acted
  refine ⟨?_, copied.moves behind, fun x member => ?_⟩
  · have kept := now.hash c inside b (by rw [same]; exact waiting _ (List.mem_cons_self ..))
    exact congrArg HashHead.first kept
  · rw [(behind.spared rfl).copied]
    show Function.update s₁.2.copied c (Function.update (s₁.2.copied c) b true) x.1 x.2 = false
    have old : s₁.2.copied x.1 x.2 = false := by
      rw [same]
      exact waiting x (List.mem_cons_of_mem _ member)
    by_cases channel : x.1 = c
    · have bucket : x.2 ≠ b := fun eq => fresh (by rw [← channel, ← eq]; exact member)
      rw [channel, Function.update_self, Function.update_of_ne bucket, ← channel]
      exact old
    · rw [Function.update_of_ne channel]
      exact old

/-- The nodes of some buckets of a channel, in the order of the buckets. -/
def bucketNodes (moment : Nat → Device) (c : Nat) (buckets : List Nat) : List HashNode :=
  buckets.flatMap fun b => ((assembled moment).hash c b).first

theorem copyIdBuckets_moment {todo : List (Nat × Nat)} (inside : c < n) (buckets : List Nat) (count : Nat)
    (along : Along n moment image s) (waiting : Waiting (buckets.map (Prod.mk c) ++ todo) s)
    (once : (buckets.map (Prod.mk c) ++ todo).Nodup) :
    Flushing (copyIdBuckets c buckets count) (fun count' s' =>
      count' = count + (bucketNodes moment c buckets).length ∧
        Along n moment (putNodes (bucketNodes moment c buckets) count image) s' ∧ Waiting todo s') s := by
  induction buckets generalizing s image count with
  | nil =>
      intro t later
      refine ⟨rfl, along.moves later, fun x member => ?_⟩
      rw [(later.spared rfl).copied]
      exact waiting x member
  | cons b rest ih =>
      rw [List.map_cons, List.cons_append] at waiting once
      obtain ⟨fresh, once⟩ := List.nodup_cons.1 once
      rw [copyIdBuckets]
      refine Safe.seq flushing_steady (copyBucket_moment inside along waiting fresh) ?_
      rintro nodes s₁ ⟨rfl, along₁, waiting₁⟩
      refine Safe.seq flushing_steady (flushing_modFlush along₁ _) ?_
      rintro _ s₂ ⟨along₂, same₂, -⟩
      refine (ih _ along₂ (fun x member => by rw [same₂]; exact waiting₁ x member) once).weaken ?_
      rintro count' s' ⟨rfl, along', waiting'⟩
      have all : bucketNodes moment c (b :: rest) =
          ((assembled moment).hash c b).first ++ bucketNodes moment c rest := List.flatMap_cons
      rw [all, putNodes_append, List.length_append]
      exact ⟨Nat.add_assoc .., along', waiting'⟩

theorem copyIdChannels_moment (channels : List Nat) (inside : ∀ c ∈ channels, c < n) (count : Nat)
    (along : Along n moment image s) (waiting : Waiting (channels ×ˢ List.range ssdHashSize) s)
    (once : (channels ×ˢ List.range ssdHashSize).Nodup) :
    Flushing (copyIdChannels channels count) (fun count' s' =>
      count' = count + (channels.flatMap fun c => bucketNodes moment c (List.range ssdHashSize)).length ∧
        Along n moment (putNodes (channels.flatMap fun c => bucketNodes moment c (List.range ssdHashSize))
          count image) s') s := by
  induction channels generalizing s image count with
  | nil => exact fun t later => ⟨rfl, along.moves later⟩
  | cons c rest ih =>
      rw [List.product_cons] at waiting once
      rw [copyIdChannels]
      refine Safe.seq flushing_steady
        (copyIdBuckets_moment (inside c (List.mem_cons_self ..)) _ count along waiting once) ?_
      rintro count₁ s₁ ⟨rfl, along₁, waiting₁⟩
      refine (ih (fun c' member => inside c' (List.mem_cons_of_mem _ member)) _ along₁ waiting₁
        (List.nodup_append.1 once).2.1).weaken ?_
      rintro count' s' ⟨rfl, along'⟩
      rw [List.flatMap_cons, putNodes_append, List.length_append]
      exact ⟨Nat.add_assoc .., along'⟩

/-- **The ids of all channels.** -/
theorem copyIdHash_moment (along : Along ssdMaxChannel moment image s) (none : ∀ c b, s.2.copied c b = false) :
    Flushing copyIdHash (fun count s' => count = (assembled moment).nodes.length ∧
      Along ssdMaxChannel moment (putNodes (assembled moment).nodes 0 image) s') s := by
  refine (copyIdChannels_moment (List.range ssdMaxChannel) (fun c member => List.mem_range.1 member) 0 along
    (fun x _ => none x.1 x.2) (List.nodup_range.product List.nodup_range)).weaken ?_
  rintro count s' ⟨rfl, along'⟩
  exact ⟨Nat.zero_add _, along'⟩

/-! ### The end of the flush -/

/-- The image stays, and the number of ids in the record. -/
theorem flushing_keeps {p : Drv α} {I : UInt32 → Prop} (all : p.All KeepsImage) (along : Along n moment image s)
    (number : I s.1.metadata.idNum) :
    Flushing p (fun _ s' => Along n moment image s' ∧ I s'.1.metadata.idNum) s := by
  refine Safe.all (I := fun s => Along n moment image s ∧ I s.1.metadata.idNum) (fun s s' moves kept => ?_)
    (fun _ _ _ _ => trivial) (fun a o s r s' keeps _ step kept => ?_) all ⟨along, number⟩
  · refine ⟨kept.1.moves moves, ?_⟩
    rw [(moves.spared rfl).metadata]
    exact kept.2
  · obtain ⟨acted, told⟩ := recorded_eq_some.1 step
    obtain ⟨d, w⟩ := s'
    change w = watch 0 a r s.1 d s.2 at told
    subst told
    refine ⟨kept.1.step keeps acted, ?_⟩
    rw [(keepsImage_step keeps acted).2]
    exact kept.2

/-- The record of the image gets its number of ids. -/
theorem flushTabledata_moment {count : Nat} {type : FlushType} (along : Along n moment image s) :
    Flushing (flushTabledata count type) (fun ret s' => ret = ssdOk → Along n moment image s' ∧
      count ≤ ssdMaxIdNum ∧ s'.1.metadata.idNum = .ofNat count) s := by
  rw [flushTabledata]
  split
  · exact fun t _ no => absurd no (by decide)
  rename_i few
  refine Safe.seq flushing_steady (flushing_keeps (I := fun _ => True) (.perform trivial) along trivial) ?_
  rintro old s₁ ⟨along₁, -⟩
  refine Safe.seq flushing_steady
    (flushing_keeps (I := fun _ => True) (flushTableBlocks_keepsImage ..) along₁ trivial) ?_
  rintro ret s₂ ⟨along₂, -⟩
  split
  · rename_i bad
    intro t _ no
    rw [no] at bad
    exact absurd bad (by decide)
  refine Safe.seq flushing_steady (flushing_keeps (I := fun _ => True) (.perform trivial) along₂ trivial) ?_
  rintro now s₃ ⟨along₃, -⟩
  refine Safe.seq flushing_steady (M := fun _ s' => Along n moment image s' ∧ s'.1.metadata.idNum = .ofNat count) ?_ ?_
  · refine Flushing.act fun s₄ o r d s₅ before _ acted behind => ?_
    have before' := along₃.moves before
    obtain ⟨same, kept, number⟩ : d.ch = s₄.1.ch ∧ d.kbufFlush = s₄.1.kbufFlush ∧
        d.metadata.idNum = .ofNat count := by
      cases acted
      exact ⟨rfl, rfl, rfl⟩
    have renewed := before'.renew (a := .modMeta _) (r := r) (fun c => by rw [same]) (kept.trans before'.image)
    refine ⟨renewed.moves behind, ?_⟩
    rw [(behind.spared rfl).metadata]
    exact number
  · rintro _ s₄ ⟨along₄, number⟩ t later _
    refine ⟨along₄.moves later, Nat.not_lt.1 few, ?_⟩
    rw [(later.spared rfl).metadata]
    exact number

end Course

end FpgaSsd.Theory
