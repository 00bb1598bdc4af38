/-
# Theory.ReadBounds — what a read may ask for, in the library and in the driver

The library checks the range of a read against the size of the id; the driver checks
only that the id is there and that its node is sound.

* `read_validated` — the checks of `SSD_read` hold what they promise, unless the sum of
  offset and length wraps in 64 bits (`Wraps`);
* `reads_stay_inside` — a read of the driver stays inside its id if and only if the
  range it is asked for fits (`ReadFits`): then the bytes it returns are those of the
  id, whatever the rest of the card holds.
-/
import FpgaSsd.Api.Library
import FpgaSsd.Lib.Twin
import FpgaSsd.Theory.Effects

namespace FpgaSsd.Theory

open FpgaSsd.Lib FpgaSsd.Driver FpgaSsd.Api

set_option autoImplicit false

/-! ## The library -/

theorem dataSize_le (id : BlockId) : dataSize id ≤ ssdMaxFlushSize := by
  unfold dataSize
  split <;> decide

/-- A range of whole pages of the id. -/
structure ValidRange (id : BlockId) (count : Nat) (offset : Int) : Prop where
  nonneg : 0 ≤ offset
  offsetAligned : offset % ssdPageSize = 0
  countAligned : count % ssdPageSize = 0
  inside : offset + count ≤ dataSize id

/-- The requests of a read that has passed the checks. -/
def sendRead (p : ReadParam) : Drv (Int × Option Mem) := do
  let (ret, data) ← readAttempts p 3 ssdOk none
  pure (apiValue ret, data)

/-- A read sends the request of a valid range, or refuses. -/
inductive Validated (lib : Library) (id : BlockId) (null : Bool) (count : Nat) (offset : Int) :
    Prop where
  | sent (p : ReadParam) (valid : ValidRange id count offset) (some : 0 < count) (sameId : p.id = id)
      (offsetField : (p.offset : Int) * ssdPageSize = offset)
      (lenField : p.len * ssdPageSize = count)
      (sent : ssdRead lib id null count offset = sendRead p)
  | refused (ret : Int) (answer : ssdRead lib id null count offset = pure (ret, none))
      (code : null = false → ValidRange id count offset ∧ count = 0 ∧ ret = ssdOk ∨
        ¬ ValidRange id count offset ∧ ret < 0)

/-- The range is not one of the id, but its end is, in 64 bits. -/
def Wraps (id : BlockId) (count : Nat) (offset : Int) : Prop :=
  offset % ssdPageSize = 0 ∧ count % ssdPageSize = 0 ∧
    (offset < 0 ∧ 0 ≤ offset + count ∧ offset + count ≤ dataSize id ∨
      0 ≤ offset ∧ offset ≤ dataSize id ∧ 2 ^ 64 ≤ offset + count)

instance (id : BlockId) (count : Nat) (offset : Int) : Decidable (Wraps id count offset) :=
  inferInstanceAs (Decidable (_ ∧ _ ∧ _))

section Checks

variable {lib : Library} {id : BlockId} {null : Bool} {count : Nat} {offset : Int}

theorem ssdRead_answer {ret : Int} (check : ssdReadCheck lib id null count offset = .answer ret) :
    ssdRead lib id null count offset = pure (apiValue ret, none) := by
  simp only [ssdRead, check]

theorem ssdRead_request {p : ReadParam}
    (check : ssdReadCheck lib id null count offset = .request p) :
    ssdRead lib id null count offset = sendRead p := by
  simp only [ssdRead, check, sendRead]

/-- A refusal with an error. -/
theorem refused_error {ret : Int} (check : ssdReadCheck lib id null count offset = .answer ret)
    (error : ret ≠ 0) (invalid : null = false → ¬ ValidRange id count offset) :
    Validated lib id null count offset := by
  apply Validated.refused (apiValue ret) (ssdRead_answer check)
  intro present
  exact .inr ⟨invalid present, by unfold apiValue; omega⟩

theorem sendRead_ne_pure (p : ReadParam) (value : Int × Option Mem) : sendRead p ≠ pure value := by
  intro equal
  cases equal

/-- The end of a range in 64 bits. -/
theorem wrapped_end (small : count < 2 ^ 64) (low : -2 ^ 63 ≤ offset) (below : offset ≤ dataSize id) :
    (count + offset) % 2 ^ 64 ≤ (dataSize id : Int) ↔
      (0 ≤ offset ∧ offset + count ≤ dataSize id) ∨
      (offset < 0 ∧ 0 ≤ offset + count ∧ offset + count ≤ dataSize id) ∨
      (0 ≤ offset ∧ 2 ^ 64 ≤ offset + count) := by
  have size := dataSize_le id
  simp only [ssdMaxFlushSize] at size
  omega

/-- The checks behind those of the range. -/
theorem ssdReadCheck_passed (opened : lib.opened = true) (countAligned : count % ssdPageSize = 0)
    (offsetAligned : offset % ssdPageSize = 0) (below : offset ≤ dataSize id)
    (passes : (count + offset) % 2 ^ 64 ≤ (dataSize id : Int)) :
    ssdReadCheck lib id null count offset = if null then .answer errNull
      else if count = 0 then .answer ssdOk
      else .request ⟨id, count / ssdPageSize % 2 ^ 32, (offset / ssdPageSize % 2 ^ 32).toNat⟩ := by
  rw [ssdReadCheck, if_neg (by simp [opened]), if_neg (not_not.2 countAligned),
    if_neg (not_not.2 offsetAligned), if_neg (not_lt.2 below), if_neg (not_lt.2 passes)]

/-- A wrapping range passes the checks. -/
theorem wraps_request (opened : lib.opened = true) (small : count < 2 ^ 64) (low : -2 ^ 63 ≤ offset)
    (wraps : Wraps id count offset) : ∃ p, ssdReadCheck lib id false count offset = .request p := by
  obtain ⟨offsetAligned, countAligned, range⟩ := wraps
  have below : offset ≤ dataSize id := by omega
  have passes := (wrapped_end small low below).2 (.inr (by omega))
  have positive : count ≠ 0 := by
    have size := dataSize_le id
    simp only [ssdMaxFlushSize] at size
    omega
  have check := @ssdReadCheck_passed lib id false count offset opened countAligned offsetAligned below passes
  rw [if_neg (by decide), if_neg positive] at check
  exact ⟨_, check⟩

theorem wraps_invalid (wraps : Wraps id count offset) : ¬ ValidRange id count offset := by
  rintro ⟨nonneg, -, -, inside⟩
  have size := dataSize_le id
  obtain ⟨-, -, range⟩ := wraps
  simp only [ssdMaxFlushSize] at size
  omega

theorem wraps_not_validated (opened : lib.opened = true) (small : count < 2 ^ 64)
    (low : -2 ^ 63 ≤ offset) (wraps : Wraps id count offset) :
    ¬ Validated lib id false count offset := by
  obtain ⟨p, check⟩ := wraps_request opened small low wraps
  rintro (⟨_, valid, _⟩ | ⟨ret, answer, _⟩)
  · exact wraps_invalid wraps valid
  · exact sendRead_ne_pure p _ ((ssdRead_request check).symm.trans answer)

/-- The fields of a valid range do not wrap. -/
theorem validated_request (valid : ValidRange id count offset) (positive : 0 < count)
    (check : ssdReadCheck lib id null count offset =
      .request ⟨id, count / ssdPageSize % 2 ^ 32, (offset / ssdPageSize % 2 ^ 32).toNat⟩) :
    Validated lib id null count offset := by
  obtain ⟨nonneg, offsetAligned, countAligned, inside⟩ := valid
  have size := dataSize_le id
  simp only [ssdMaxFlushSize, ssdPageSize] at *
  apply Validated.sent _ ⟨nonneg, offsetAligned, countAligned, inside⟩ positive rfl _ _
    (ssdRead_request check)
  · simp only [ssdPageSize]
    omega
  · simp only [ssdPageSize]
    omega

theorem validated (opened : lib.opened = true) (small : count < 2 ^ 64) (low : -2 ^ 63 ≤ offset)
    (sound : null = true ∨ ¬ Wraps id count offset) : Validated lib id null count offset := by
  by_cases countAligned : count % ssdPageSize = 0
  swap
  · have check : ssdReadCheck lib id null count offset = .answer errLenPageAlign := by
      rw [ssdReadCheck, if_neg (by simp [opened]), if_pos countAligned]
    exact refused_error check (by decide) fun _ valid => countAligned valid.countAligned
  by_cases offsetAligned : offset % ssdPageSize = 0
  swap
  · have check : ssdReadCheck lib id null count offset = .answer errStartPageAlign := by
      rw [ssdReadCheck, if_neg (by simp [opened]), if_neg (not_not.2 countAligned),
        if_pos offsetAligned]
    exact refused_error check (by decide) fun _ valid => offsetAligned valid.offsetAligned
  by_cases below : offset ≤ dataSize id
  swap
  · have check : ssdReadCheck lib id null count offset = .answer errParamOverflow := by
      rw [ssdReadCheck, if_neg (by simp [opened]), if_neg (not_not.2 countAligned),
        if_neg (not_not.2 offsetAligned), if_pos (not_le.1 below)]
    apply refused_error check (by decide)
    intro _ valid
    have inside := valid.inside
    omega
  have ending := wrapped_end small low below
  by_cases passes : (count + offset) % 2 ^ 64 ≤ (dataSize id : Int)
  swap
  · have check : ssdReadCheck lib id null count offset = .answer errParamOverflow := by
      rw [ssdReadCheck, if_neg (by simp [opened]), if_neg (not_not.2 countAligned),
        if_neg (not_not.2 offsetAligned), if_neg (not_lt.2 below), if_pos (not_le.1 passes)]
    apply refused_error check (by decide)
    exact fun _ valid => passes (ending.2 (.inl ⟨valid.nonneg, valid.inside⟩))
  have check := @ssdReadCheck_passed lib id null count offset opened countAligned offsetAligned below passes
  cases null with
  | true =>
      exact refused_error (check.trans (if_pos rfl)) (by decide) nofun
  | false =>
      have straight : ¬ Wraps id count offset := by simpa using sound
      have valid : ValidRange id count offset := by
        rcases ending.1 passes with inside | wraps
        · exact ⟨inside.1, offsetAligned, countAligned, inside.2⟩
        · exact (straight ⟨offsetAligned, countAligned, by omega⟩).elim
      rw [if_neg (by decide)] at check
      by_cases empty : count = 0
      · rw [if_pos empty] at check
        apply Validated.refused _ (ssdRead_answer check)
        exact fun _ => .inl ⟨valid, empty, rfl⟩
      · rw [if_neg empty] at check
        exact validated_request valid (Nat.pos_of_ne_zero empty) check

end Checks

/-- **A read of the library is validated**, unless its range wraps in 64 bits. -/
theorem read_validated (lib : Library) (opened : lib.opened = true) (id : BlockId) (null : Bool)
    (count : UInt64) (offset : Int64) :
    Validated lib id null count.toNat offset.toInt ↔
      null = true ∨ ¬ Wraps id count.toNat offset.toInt := by
  have small : count.toNat < 2 ^ 64 := count.toNat_lt
  have low : -2 ^ 63 ≤ offset.toInt := offset.le_toInt
  constructor
  · intro holds
    cases null with
    | true => exact .inl rfl
    | false => exact .inr fun wraps => wraps_not_validated opened small low wraps holds
  · exact validated opened small low

theorem read_validated_page :
    Validated openLibrary ⟨0, 0⟩ false (8192 : UInt64).toNat (0 : Int64).toInt ↔
      false = true ∨ ¬ Wraps ⟨0, 0⟩ (8192 : UInt64).toNat (0 : Int64).toInt :=
  read_validated openLibrary rfl ⟨0, 0⟩ false 8192 0

/-- The page before the id: offset and length add up to zero. -/
theorem page_before_read :
    ¬ Validated openLibrary ⟨0, 0⟩ false (8192 : UInt64).toNat (-8192 : Int64).toInt :=
  wraps_not_validated rfl (by decide) (by decide) (by decide)

/-! ## The driver -/

/-- The driver finds a sound node of the id. -/
def Entry (d : Device) (id : BlockId) (info : IdInfo) : Prop :=
  find (d.ch (id2channel id)).hash id = some info ∧ checkIdInfo info = ssdOk

/-- The range that is asked for fits the id, when the id is there. -/
def ReadFits (d : Device) (p : ReadParam) : Prop :=
  ∀ info, Entry d p.id info → p.offset + p.len ≤ ssdPagesPerBlock * info.len.size

/-- What a read of `p` may do on a card `d`: a command for pages of the id, and a copy of
as many bytes. -/
def ReadInside (d : Device) (p : ReadParam) : Act → Prop
  | .chan c (.issue cmd) => c = id2channel p.id ∧ ∃ info, Entry d p.id info ∧
      Command.ofWord cmd = ⟨info.block.val * ssdPagesPerBlock + p.offset, p.len, flagRead⟩ ∧
      p.offset + p.len ≤ ssdPagesPerBlock * info.len.size
  | .chan c (.copyToUser n) => c = id2channel p.id ∧ ∃ info, Entry d p.id info ∧
      n = p.len * ssdPageSize ∧ n ≤ info.len.size * ssdBlockSize ∧ n ≤ ssdMaxFlushSize
  | _ => True

/-- Two cards with the same id: the same node, and the same data in its extent. -/
structure Alike (id : BlockId) (d e : Device) : Prop where
  sema : (e.ch (id2channel id)).sema = (d.ch (id2channel id)).sema
  node : find (e.ch (id2channel id)).hash id = find (d.ch (id2channel id)).hash id
  data : ∀ info, find (d.ch (id2channel id)).hash id = some info →
    ∀ i < info.len.size * ssdBlockSize,
      (e.ch (id2channel id)).flash.data (info.block.val * ssdBlockSize + i) =
        (d.ch (id2channel id)).flash.data (info.block.val * ssdBlockSize + i)

/-- The runs of a program for one choice of outcomes. -/
abbrev Allowed (allow : Act → Outcome → Prop) : May := fun _ => allow

/-- A read of `p` on the card `d` stays inside its id. -/
structure StaysInside (d : Device) (p : ReadParam) : Prop where
  actions : ∀ a rest d',
    Reaches (Device.perform 0) anyOutcome (ssdIdRead p) d (.act a rest) d' → ReadInside d p a
  refused : ∀ ret data d', Run anyOutcome (ssdIdRead p) d (ret, data) d' →
    (¬ ∃ info, Entry d p.id info ∧ p.offset + p.len ≤ ssdPagesPerBlock * info.len.size) →
      ret ≠ ssdOk ∧ data = none
  secret : ∀ e allow value d', Alike p.id d e → Run (Allowed allow) (ssdIdRead p) d value d' →
    ∃ e', Run (Allowed allow) (ssdIdRead p) e value e'

section Reading

variable {d : Device} {p : ReadParam} {info : IdInfo}

theorem checkIdInfo_bounds (ok : checkIdInfo info = ssdOk) :
    info.block.val + info.len.size ≤ ssdMaxVirblocksPerChannel := by
  unfold checkIdInfo at ok
  split at ok
  · cases ok
  split at ok
  · cases ok
  split at ok
  · cases ok
  exact not_lt.1 ‹_›

/-- A range that fits is read back from its command word. -/
theorem read_command (sound : checkIdInfo info = ssdOk)
    (fits : p.offset + p.len ≤ ssdPagesPerBlock * info.len.size) :
    Command.ofWord (cmdValue (info.block.val * ssdPagesPerBlock + p.offset) p.len flagRead) =
      ⟨info.block.val * ssdPagesPerBlock + p.offset, p.len, flagRead⟩ := by
  have bounds := checkIdInfo_bounds sound
  have size := info.len.size_le
  simp only [ssdPagesPerBlock, ssdMaxVirblocksPerChannel] at *
  apply decode_cmdValue
  · omega
  · omega
  · decide

/-- The bytes of a range that fits. -/
theorem read_bytes (fits : p.offset + p.len ≤ ssdPagesPerBlock * info.len.size) :
    p.len * ssdPageSize % 2 ^ 32 = p.len * ssdPageSize ∧
      p.len * ssdPageSize ≤ info.len.size * ssdBlockSize ∧ p.len * ssdPageSize ≤ ssdMaxFlushSize := by
  have size := info.len.size_le
  simp only [ssdPagesPerBlock, ssdPageSize, ssdBlockSize, ssdMaxFlushSize] at *
  omega

/-- What is behind the lookup. -/
theorem found_inside (entry : Entry d p.id info)
    (fits : p.offset + p.len ≤ ssdPagesPerBlock * info.len.size) :
    (do
      Drv.addReadCount (id2channel p.id) p.len
      let ret ← channelOp (id2channel p.id)
        (cmdValue (info.block.val * ssdPagesPerBlock + p.offset) p.len flagRead)
      if ret % 128 ≠ ssdOk then pure (ret, none)
      else
        match ← Drv.copyToUser (id2channel p.id) (p.len * ssdPageSize % 2 ^ 32) with
        | none => pure (-errCopyToUser, none)
        | some bytes => pure (ret, some bytes) : Drv (Int × Option Mem)).All (ReadInside d p) := by
  obtain ⟨whole, inExtent, inBuffer⟩ := read_bytes fits
  have command : (channelOp (id2channel p.id)
      (cmdValue (info.block.val * ssdPagesPerBlock + p.offset) p.len flagRead)).All (ReadInside d p) :=
    ⟨⟨rfl, info, entry, read_command entry.2 fits, fits⟩, fun _ => ⟨trivial, fun _ => trivial⟩⟩
  have copy : (Drv.copyToUser (id2channel p.id) (p.len * ssdPageSize % 2 ^ 32)).All (ReadInside d p) := by
    rw [whole]
    exact ⟨⟨rfl, info, entry, rfl, inExtent, inBuffer⟩, fun _ => trivial⟩
  refine ⟨trivial, fun _ => command.bind fun ret => ?_⟩
  split
  · trivial
  · apply copy.bind
    intro reply
    cases reply <;> trivial

/-- A read whose range fits permits the actions inside only, and refuses ids that are not there. -/
theorem fitting_read (fits : ReadFits d p) :
    Safe (Device.perform 0) (Permits anyOutcome (ReadInside d p)) (ssdIdRead p)
      (fun value _ => (¬ ∃ info, Entry d p.id info) → value.1 ≠ ssdOk ∧ value.2 = none) d := by
  have steady := permits_steady anyOutcome (ReadInside d p)
  have body : ∀ d1, (d1.ch (id2channel p.id)).hash = (d.ch (id2channel p.id)).hash →
      Safe (Device.perform 0) (Permits anyOutcome (ReadInside d p)) (ssdIdReadBody (id2channel p.id) p)
        (fun value _ => (¬ ∃ info, Entry d p.id info) → value.1 ≠ ssdOk ∧ value.2 = none) d1 := by
    intro d1 same
    refine Safe.seq steady (M := fun reply _ => reply = find (d.ch (id2channel p.id)).hash p.id) ?_ ?_
    · rintro d2 rfl
      refine ⟨trivial, fun o reply d3 _ step => ?_⟩
      cases step
      rintro d4 rfl
      rw [find, ← same]
    rintro reply d2 rfl
    cases found : find (d.ch (id2channel p.id)).hash p.id with
    | none => exact fun _ _ _ => ⟨by decide, rfl⟩
    | some info =>
        simp only
        split
        · exact fun _ _ _ => ⟨‹_›, rfl⟩
        · rename_i sound
          have entry : Entry d p.id info := ⟨found, not_not.1 sound⟩
          refine (permits_all (found_inside entry (fits info entry)) _).weaken fun _ _ _ absent => ?_
          exact absurd ⟨info, entry⟩ absent
  exact permits_withSema trivial trivial (body _ (by rw [Device.setCh_ch_same]))

/-! ### Two cards -/

/-- One action of channel `c` on two cards. -/
theorem twin_chan {allow : Act → Outcome → Prop} {c : Nat} {a : ChanAct} {e : Device}
    (post : a.Reply → Channel → Channel → Prop)
    (each : ∀ o r k, (d.ch c).perform a o = some (r, k) →
      ∃ k', (e.ch c).perform a o = some (r, k') ∧ post r k k') :
    Twin (Device.perform 0) allow (Drv.chan c a) (fun r d' e' => post r (d'.ch c) (e'.ch c)) d e := by
  apply Twin.action
  intro o r d' _ step
  obtain ⟨⟨r', k⟩, acted, eq⟩ := Option.map_eq_some_iff.1 step
  cases eq
  obtain ⟨k', acted', holds⟩ := each o r k acted
  refine ⟨e.setCh c k', ?_, ?_⟩
  · simp only [Device.perform, acted', Option.map_some]
  · simpa only [Device.setCh_ch_same] using holds

/-- The semaphore of channel `c` on two cards. -/
theorem twin_down {allow : Act → Outcome → Prop} {c : Nat} {e : Device}
    (free : (e.ch c).sema = (d.ch c).sema) :
    Twin (Device.perform 0) allow (Drv.down c) (fun _ d' e' =>
      d'.ch c = { d.ch c with sema := some 0 } ∧ e'.ch c = { e.ch c with sema := some 0 }) d e := by
  apply Twin.action
  intro o r d' _ step
  simp only [Device.perform] at step
  split at step
  · rename_i here
    cases step
    refine ⟨e.setCh c { e.ch c with sema := some 0 }, ?_, ?_, ?_⟩
    · simp only [Device.perform, free, here, if_true]
    · exact Device.setCh_ch_same ..
    · exact Device.setCh_ch_same ..
  · cases step

/-- The completion of a read command. -/
theorem perform_await_read {k : Channel} {o : Outcome} {cmd start len : Nat}
    (issued : k.outstanding = some cmd) (reads : Command.ofWord cmd = ⟨start, len, flagRead⟩) :
    k.perform .await o = some (o.ret.toInt, { k with
      outstanding := none
      kbuf := Flash.fill o k.kbuf 0 (len * ssdPageSize)
        (fun i => k.flash.data (start * ssdPageSize + i)) o.kbuf }) := by
  simp only [Channel.perform, issued, Option.bind_eq_bind, Option.bind_some, reads]
  rfl

/-- The data of an extent is the same on both channels. -/
def SameExtent (info : IdInfo) (k k' : Channel) : Prop :=
  ∀ i < info.len.size * ssdBlockSize, k'.flash.data (info.block.val * ssdBlockSize + i) =
    k.flash.data (info.block.val * ssdBlockSize + i)

/-- Two buffers are filled with the same bytes. -/
theorem fill_same {o : Outcome} {m m' old new : Mem} {n i : Nat} (inside : i < n)
    (same : new i = old i) : Flash.fill o m' 0 n new o.kbuf i = Flash.fill o m 0 n old o.kbuf i := by
  have read : ∀ (dst src : Mem), copyBytes dst 0 src 0 n i = src i := fun dst src => by
    simpa only [Nat.zero_add] using @copyBytes_inside dst src 0 0 n i inside
  simp only [Flash.fill]
  split
  · rw [read, read]
    exact same
  · rw [read, read]

theorem clip_same {m m' : Mem} {n : Nat} (same : ∀ i < n, m' i = m i) : clip n m' = clip n m := by
  funext i
  simp only [clip]
  split
  · exact same i ‹_›
  · rfl

/-- A read command fills both buffers with the same bytes. -/
theorem twin_channelOp {allow : Act → Outcome → Prop} {c : Nat} {e : Device}
    (fits : p.offset + p.len ≤ ssdPagesPerBlock * info.len.size)
    (sound : checkIdInfo info = ssdOk) (same : SameExtent info (d.ch c) (e.ch c)) :
    Twin (Device.perform 0) allow
      (channelOp c (cmdValue (info.block.val * ssdPagesPerBlock + p.offset) p.len flagRead))
      (fun _ d' e' => ∀ i < p.len * ssdPageSize, (e'.ch c).kbuf i = (d'.ch c).kbuf i) d e := by
  have command := read_command sound fits
  generalize cmdValue (info.block.val * ssdPagesPerBlock + p.offset) p.len flagRead = cmd at command
  refine Twin.seq (twin_chan (fun _ k k' => (k.outstanding = some cmd ∧ k'.outstanding = some cmd) ∧
    SameExtent info k k') ?_) ?_
  · intro o r k step
    cases step
    exact ⟨_, rfl, ⟨rfl, rfl⟩, same⟩
  rintro _ d1 e1 ⟨⟨issued, issued'⟩, same⟩
  apply twin_chan fun _ k k' => ∀ i < p.len * ssdPageSize, k'.kbuf i = k.kbuf i
  intro o r k step
  rw [perform_await_read issued command] at step
  cases step
  refine ⟨_, perform_await_read issued' command, fun i inside => fill_same inside ?_⟩
  have extent := same (p.offset * ssdPageSize + i) (by
    simp only [ssdPageSize, ssdPagesPerBlock, ssdBlockSize] at *
    omega)
  simp only [ssdPageSize, ssdPagesPerBlock, ssdBlockSize] at extent ⊢
  rw [show (info.block.val * 256 + p.offset) * 8192 + i =
    info.block.val * 2097152 + (p.offset * 8192 + i) by omega]
  exact extent

/-- A read that fits returns the bytes of its id. -/
theorem twin_read {allow : Act → Outcome → Prop} {e : Device} (fits : ReadFits d p)
    (alike : Alike p.id d e) :
    Twin (Device.perform 0) allow (ssdIdRead p) (fun _ _ _ => True) d e := by
  obtain ⟨sema, node, data⟩ := alike
  have release : ∀ (value : Int × Option Mem) (d1 e1 : Device), Twin (Device.perform 0) allow
      (do Drv.up (id2channel p.id); pure value) (fun _ _ _ => True) d1 e1 :=
    fun value d1 e1 o r s' _ step => by
      cases step
      exact ⟨_, rfl, trivial⟩
  refine Twin.seq (twin_down sema) ?_
  rintro _ d1 e1 ⟨here, here'⟩
  refine Twin.seq (M := fun _ _ _ => True) ?_ fun value d2 e2 _ => release value d2 e2
  refine Twin.seq (twin_chan (fun found k k' => found = find (d.ch (id2channel p.id)).hash p.id ∧
    k.flash = (d.ch (id2channel p.id)).flash ∧ k'.flash = (e.ch (id2channel p.id)).flash) ?_) ?_
  · intro o r k step
    cases step
    rw [here, here']
    exact ⟨_, congrArg some (Prod.ext node rfl), rfl, rfl, rfl⟩
  rintro found d2 e2 ⟨rfl, flash, flash'⟩
  cases found : find (d.ch (id2channel p.id)).hash p.id with
  | none => trivial
  | some info =>
      simp only
      split
      · trivial
      rename_i sound
      have sound := not_not.1 sound
      have range := fits info ⟨found, sound⟩
      have same : SameExtent info (d2.ch (id2channel p.id)) (e2.ch (id2channel p.id)) := by
        unfold SameExtent
        rw [flash, flash']
        exact data info found
      refine Twin.seq (twin_chan (fun _ k k' => SameExtent info k k') ?_) ?_
      · intro o r k step
        cases step
        exact ⟨_, rfl, same⟩
      rintro _ d3 e3 same
      refine Twin.seq (twin_channelOp range sound same) ?_
      rintro ret d4 e4 bytes
      split
      · trivial
      refine Twin.seq (twin_chan (fun _ _ _ => True) ?_) ?_
      · intro o r k step
        cases step
        rw [(read_bytes range).1, ← clip_same bytes]
        exact ⟨_, rfl, trivial⟩
      · intro reply d5 e5 _
        cases reply <;> trivial

/-! ### The exact condition -/

/-- The command of a sound node is always given. -/
theorem read_reaches_command (free : (d.ch (id2channel p.id)).sema = none) (entry : Entry d p.id info) :
    ∃ rest d', Reaches (Device.perform 0) anyOutcome (ssdIdRead p) d (.act (.chan (id2channel p.id)
      (.issue (cmdValue (info.block.val * ssdPagesPerBlock + p.offset) p.len flagRead))) rest) d' := by
  obtain ⟨found, sound⟩ := entry
  have body : ∀ d1, (d1.ch (id2channel p.id)).hash = (d.ch (id2channel p.id)).hash →
      Leads (Device.perform 0) anyOutcome (fun q _ => ∃ rest, q = .act (.chan (id2channel p.id)
        (.issue (cmdValue (info.block.val * ssdPagesPerBlock + p.offset) p.len flagRead))) rest)
        (ssdIdReadBody (id2channel p.id) p) d1 := by
    intro d1 same
    have lookup : Run anyOutcome (Drv.getIdInfo (id2channel p.id) p.id) d1 (some info) d1 := by
      refine .act (o := succeeds) trivial ?_ (.pure _ _)
      rw [← found]
      simp only [Device.perform, Channel.perform, Option.map_some, Device.setCh_self, same, find]
    refine Leads.seq lookup ?_
    simp only [sound, ssdOk, ne_eq, not_true_eq_false, if_false]
    exact Leads.act succeeds trivial rfl (.here ⟨_, rfl⟩)
  have leads := withSema_leads trivial free
    (by rintro q t next ⟨rest, rfl⟩; exact ⟨_, rfl⟩) (body _ (by rw [Device.setCh_ch_same]))
  obtain ⟨q, d', reaches, rest, rfl⟩ := leads
  exact ⟨rest, d', reaches⟩

theorem fits_of_staysInside (free : (d.ch (id2channel p.id)).sema = none) (inside : StaysInside d p) :
    ReadFits d p := by
  intro info entry
  obtain ⟨rest, d', reaches⟩ := read_reaches_command free entry
  obtain ⟨-, info', entry', -, fits⟩ := inside.actions _ _ _ reaches
  cases entry.1.symm.trans entry'.1
  exact fits

end Reading

/-- **A read stays inside its id if and only if its range fits**, when the semaphore of
the channel is free for it. -/
theorem reads_stay_inside (d : Device) (p : ReadParam) (free : (d.ch (id2channel p.id)).sema = none) :
    StaysInside d p ↔ ReadFits d p := by
  refine ⟨fits_of_staysInside free, fun fits => ⟨?_, ?_, ?_⟩⟩
  · intro a rest d' reaches
    exact ((fitting_read fits).reaches (fun _ => rfl) reaches _ rfl).1
  · intro ret data d' run unfit
    apply (fitting_read fits).runs (fun _ => rfl) run
    rintro ⟨info, entry⟩
    exact unfit ⟨info, entry, fits info entry⟩
  · intro e allow value d' alike run
    obtain ⟨e', twin, -⟩ := (twin_read fits alike).runs run
    exact ⟨e', twin⟩

/-- The first page of an index block. -/
theorem read_first_page : (oneId.ch 0).sema = none ∧
    (StaysInside oneId ⟨⟨0, 0⟩, 1, 0⟩ ↔ ReadFits oneId ⟨⟨0, 0⟩, 1, 0⟩) :=
  ⟨rfl, reads_stay_inside oneId ⟨⟨0, 0⟩, 1, 0⟩ rfl⟩

/-- The page behind an index block, which belongs to another id or to nobody. -/
theorem read_next_block : ¬ StaysInside oneId ⟨⟨0, 0⟩, 1, 256⟩ := by
  intro inside
  have fits := fits_of_staysInside (show (oneId.ch 0).sema = none from rfl) inside
  exact absurd (fits (.at 0 0 .iblock) ⟨rfl, rfl⟩) (by decide)

end FpgaSsd.Theory
