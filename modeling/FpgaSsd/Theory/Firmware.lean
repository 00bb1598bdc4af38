/-
# Theory.Firmware — a bad firmware file and the flash

`file_change` returns 0 on every path, and `main` does not look at what it returns:
whatever is in `file_tmp.tmp` behind it is written to the flash.

* `convertLines_stops` — the conversion is cut short exactly by a bad record;
* `waitStatus_late` — a wait times out exactly when every poll finds the card busy;
* `sends_iff` — when a command is sent to the flash;
* `bad_file_stays_out_iff` — a bad file never reaches the flash if and only if the file
  is good, or the run ends before the erase for another reason.
-/
import FpgaSsd.Tools.CfgOnline

namespace FpgaSsd.Theory

open FpgaSsd.Lib FpgaSsd.Tools

set_option autoImplicit false

/-! ## Records -/

/-- What `one_line` holds behind each `fgets`. -/
def records : List (List UInt8) → Mem → List Mem
  | [], _ => []
  | line :: rest, oneLine => storeLine oneLine line :: records rest (storeLine oneLine line)

/-- A checksum error or an unsupported type. -/
def BadRecord (oneLine : Mem) : Prop := chkData oneLine ≠ 0 ∨ recordType oneLine = .unsupported

/-- The end-of-file record. -/
def EndRecord (oneLine : Mem) : Prop := chkData oneLine = 0 ∧ recordType oneLine = .endOfFile

/-- Some record in front of the end-of-file record is bad. -/
def HasBadRecord (oneLines : List Mem) : Prop :=
  ∃ before r after, oneLines = before ++ r :: after ∧ BadRecord r ∧ ∀ e ∈ before, ¬ EndRecord e

section Records

variable {r : Mem} {rest : List Mem}

theorem hasBadRecord_cons : HasBadRecord (r :: rest) ↔ BadRecord r ∨ ¬ EndRecord r ∧ HasBadRecord rest := by
  constructor
  · rintro ⟨before, bad, after, eq, isBad, none⟩
    cases before with
    | nil =>
        obtain ⟨rfl, -⟩ := List.cons.inj eq
        exact .inl isBad
    | cons first before =>
        obtain ⟨rfl, tail⟩ := List.cons.inj eq
        refine .inr ⟨none _ (List.mem_cons_self ..), before, bad, after, tail, isBad, fun e member => ?_⟩
        exact none e (List.mem_cons_of_mem _ member)
  · rintro (bad | ⟨goes, before, bad, after, rfl, isBad, none⟩)
    · exact ⟨[], r, rest, rfl, bad, fun e member => absurd member List.not_mem_nil⟩
    · refine ⟨r :: before, bad, after, rfl, isBad, fun e member => ?_⟩
      rcases List.mem_cons.1 member with rfl | later
      · exact goes
      · exact none e later

theorem not_hasBadRecord_nil : ¬ HasBadRecord [] := by
  rintro ⟨before, r, after, eq, -⟩
  cases before <;> cases eq

/-- **The conversion stops short** exactly at a bad record. -/
theorem convertLines_stops (lines : List (List UInt8)) (oneLine : Mem) (s : Convert) :
    (convertLines lines oneLine s).2 = false ↔ HasBadRecord (records lines oneLine) := by
  induction lines generalizing oneLine s with
  | nil => exact ⟨nofun, fun bad => absurd bad not_hasBadRecord_nil⟩
  | cons line rest ih =>
      rw [records, hasBadRecord_cons]
      simp only [convertLines]
      by_cases sum : chkData (storeLine oneLine line) = 0
      · rw [if_neg (not_not.2 sum)]
        have bad : BadRecord (storeLine oneLine line) ↔ recordType (storeLine oneLine line) = .unsupported :=
          or_iff_right (not_not.2 sum)
        have ends : EndRecord (storeLine oneLine line) ↔ recordType (storeLine oneLine line) = .endOfFile :=
          and_iff_right sum
        rw [bad, ends]
        cases type : recordType (storeLine oneLine line) with
        | extended => simp only [ih]; simp
        | data => simp only [ih]; simp
        | endOfFile => simp
        | unsupported => simp
      · rw [if_pos sum]
        exact ⟨fun _ => .inl (.inl sum), fun _ => rfl⟩

end Records

/-! ## Commands -/

/-- A register write that erases the flash or programs a page of it. -/
def IsCommand (e : Nat × Nat) : Prop :=
  e.1 = spiAddrCtrl ∧ (e.2 = cmdErase ∨ ∃ start, e.2 = start ||| cmdWrite)

/-- Some run sends a command. -/
def Sends (log : List (Nat × Nat)) : Prop := ∃ e ∈ log, IsCommand e

section Waits

variable {card : Card}

/-- **A wait times out** exactly when the card is busy at every poll. -/
theorem waitStatus_late (n : Nat) (s : Spi) :
    (waitStatus card n s).1 = true ↔ ∀ k ≤ n, (card.polls (s.polled + k)).busy = true := by
  induction n generalizing s with
  | zero =>
      rw [waitStatus]
      cases busy : (card.polls s.polled).busy with
      | true => simp [busy]
      | false => simp [busy]
  | succ n ih =>
      rw [waitStatus]
      cases busy : (card.polls s.polled).busy with
      | false =>
          refine ⟨nofun, fun all => ?_⟩
          exact absurd (busy.symm.trans (all 0 (Nat.zero_le _))) (by decide)
      | true =>
          simp only [if_true]
          rw [ih]
          constructor
          · intro later k le
            cases k with
            | zero => exact busy
            | succ k =>
                have := later k (by omega)
                rwa [Nat.add_assoc, Nat.add_comm 1 k] at this
          · intro all k le
            have := all (k + 1) (by omega)
            rwa [Nat.add_assoc, Nat.add_comm 1 k]

theorem waitStatus_log (card : Card) (n : Nat) (s : Spi) : (waitStatus card n s).2.log = s.log := by
  induction n generalizing s with
  | zero =>
      rw [waitStatus]
      cases (card.polls s.polled).busy <;> rfl
  | succ n ih =>
      rw [waitStatus]
      cases (card.polls s.polled).busy
      · rfl
      · exact ih _

theorem waitWritten_log (card : Card) (n : Nat) (s : Spi) : (waitWritten card n s).2.log = s.log := by
  induction n generalizing s with
  | zero => rfl
  | succ n ih =>
      rw [waitWritten]
      cases (card.polls s.polled).busy
      · rfl
      · exact ih _

theorem spiWriteWords_log (card : Card) (buf : Mem) (n i : Nat) (s : Spi) :
    ∃ more, (spiWriteWords card buf n i s).2.log = s.log ++ more := by
  induction n generalizing i s with
  | zero => exact ⟨[], (List.append_nil _).symm⟩
  | succ n ih =>
      obtain ⟨more, eq⟩ := ih (i + 1) (ssdRegWrite card (spiRamStart + 8 * i) (getLE buf (8 * i) 8) s).2
      exact ⟨_ :: more, eq.trans (List.append_assoc ..)⟩

theorem writePages_log (card : Card) (fuel : Nat) (pages : List (List UInt8)) (buf : Mem) (start : Nat) (s : Spi) :
    ∃ more, (writePages card fuel pages buf start s).2.log = s.log ++ more := by
  induction pages generalizing buf start s with
  | nil => exact ⟨[], (List.append_nil _).symm⟩
  | cons page rest ih =>
      let buf' := copyBytes buf 0 (fun i => page.getD i 0) 0 page.length
      obtain ⟨words, sent⟩ := spiWriteWords_log card buf' ((page.length + 7) / 8) 0 s
      let s1 := (spiWriteRam card buf' page.length s).2
      let s2 := (ssdRegWrite card spiAddrCtrl (start ||| cmdWrite) s1).2
      have log2 : s2.log = s.log ++ (words ++ [(spiAddrCtrl, start ||| cmdWrite)]) := by
        show s1.log ++ _ = _
        rw [show s1.log = s.log ++ words from sent, List.append_assoc]
      show ∃ more, (if (waitWritten card fuel s2).1 then
        writePages card fuel rest buf' (start + 256) (waitWritten card fuel s2).2
        else (false, (waitWritten card fuel s2).2)).2.log = s.log ++ more
      split
      · obtain ⟨more, eq⟩ := ih buf' (start + 256) (waitWritten card fuel s2).2
        rw [waitWritten_log, log2, List.append_assoc] at eq
        exact ⟨_, eq⟩
      · exact ⟨_, (waitWritten_log card fuel s2).trans log2⟩

end Waits

/-! ## The program -/

/-- The status wait before the erase times out. -/
def StaysBusy (card : Card) : Prop := ∀ k ≤ spiTimeReadStatus, (card.polls k).busy = true

/-- There is no temporary file behind `file_change`, or it cannot be opened again. -/
def NoImage (w : Started) : Prop :=
  w.reopens = false ∨ (w.files.mcs = none ∨ w.files.creates = false) ∧ w.files.tmp = none

section Program

variable {w : Started} {card : Card} {fuel : Nat} {buf : Mem} {bin : Option (List UInt8)}

/-- **The flash is erased** when there is an image and the card gets ready in time. -/
theorem cfgFlash_sends :
    Sends (cfgFlash card fuel buf bin .initial).2.log ↔ bin.isSome ∧ ¬ StaysBusy card := by
  have late : (waitStatus card spiTimeReadStatus .initial).1 = true ↔ StaysBusy card := by
    rw [waitStatus_late]
    simp only [Spi.initial, Nat.zero_add]
    rfl
  cases bin with
  | none =>
      refine ⟨?_, fun no => absurd no.1 (by decide)⟩
      rintro ⟨e, member, -⟩
      exact absurd member List.not_mem_nil
  | some image =>
      rw [cfgFlash, ← late]
      simp only [Option.isSome_some, true_and]
      have silent := waitStatus_log card spiTimeReadStatus .initial
      cases timeout : (waitStatus card spiTimeReadStatus .initial).1 with
      | true =>
          simp only [if_true]
          refine ⟨?_, fun no => absurd trivial no⟩
          rintro ⟨e, member, -⟩
          rw [silent] at member
          exact absurd member List.not_mem_nil
      | false =>
          refine ⟨fun _ => by decide, fun _ => ⟨(spiAddrCtrl, cmdErase), ?_, rfl, .inl rfl⟩⟩
          let s1 := (ssdRegWrite card spiAddrCtrl cmdErase (waitStatus card spiTimeReadStatus .initial).2).2
          have log1 : s1.log = [(spiAddrCtrl, cmdErase)] := by
            show _ ++ _ = _
            rw [silent]
            rfl
          let s2 := (waitStatus card spiTimeErase s1).2
          have log2 : s2.log = [(spiAddrCtrl, cmdErase)] := (waitStatus_log card _ _).trans log1
          obtain ⟨more, pages⟩ := writePages_log card fuel (pagesOf image) buf 0 s2
          show (spiAddrCtrl, cmdErase) ∈ (if (waitStatus card spiTimeErase s1).1 then
            (some (-cfgEraseTimeout), s2) else
              (if (writePages card fuel (pagesOf image) buf 0 s2).1 then some cfgOk else none,
                (writePages card fuel (pagesOf image) buf 0 s2).2)).2.log
          split
          · rw [log2]
            exact List.mem_singleton_self _
          · rw [pages, log2]
            exact List.mem_cons_self ..

/-- There is something to write behind `file_change`. -/
theorem image_isSome (w : Started) :
    (if w.reopens then (fileChange w.files).2 else none).isSome = true ↔ ¬ NoImage w := by
  cases reopens : w.reopens with
  | false => simp [NoImage, reopens]
  | true =>
      simp only [if_true, NoImage, reopens, Bool.true_eq_false, false_or]
      cases opens : w.files.mcs with
      | none => cases tmp : w.files.tmp <;> simp [fileChange, opens, tmp]
      | some input =>
          cases creates : w.files.creates with
          | false => cases tmp : w.files.tmp <;> simp [fileChange, opens, creates, tmp]
          | true =>
              simp only [fileChange, opens, creates]
              cases (convertLines (fgetsAll [] (bufSize - 1) input) w.files.stack .initial).2 <;> simp

/-- **`main` sends a command** when it is given a name, there is an image, and the card
gets ready in time. -/
theorem sends_iff : Sends (main w fuel).2.1.log ↔ w.named = true ∧ ¬ NoImage w ∧ ¬ StaysBusy w.card := by
  rw [main]
  cases named : w.named with
  | false =>
      refine ⟨?_, fun no => absurd no.1 (by decide)⟩
      rintro ⟨e, member, -⟩
      exact absurd member List.not_mem_nil
  | true =>
      show Sends (cfgFlash w.card fuel w.buf (if w.reopens then (fileChange w.files).2 else none) .initial).2.log ↔ _
      rw [cfgFlash_sends, image_isSome]
      simp only [true_and]

/-! ## A bad file -/

/-- The file cannot be opened, or has a bad record. -/
def BadFile (f : Files) : Prop :=
  ∀ input, f.mcs = some input → HasBadRecord (records (fgetsAll [] (bufSize - 1) input) f.stack)

/-- `file_change` got to the end, and this is its image. -/
def CompletedImage (f : Files) (image : List UInt8) : Prop :=
  f.creates = true ∧ ∃ input s, f.mcs = some input ∧
    convertLines (fgetsAll [] (bufSize - 1) input) f.stack .initial = (s, true) ∧
      image = s.image ++ List.replicate (maxFlashAddr - s.currAddr) emptyByte

/-- A bad file never reaches the flash: for one no command is sent, and the commands
that are sent are those of a completed image. -/
structure StaysOut (w : Started) : Prop where
  bad : BadFile w.files → ∀ fuel, ¬ Sends (main w fuel).2.1.log
  image : ∀ fuel, Sends (main w fuel).2.1.log → ∃ image, CompletedImage w.files image ∧
    (main w fuel).2.1 = (cfgFlash w.card fuel w.buf (some image) .initial).2

/-- The run ends before the erase, or the file is good. -/
def HarmlessRun (w : Started) : Prop :=
  w.named = false ∨ NoImage w ∨ StaysBusy w.card ∨ w.files.creates = true ∧ ¬ BadFile w.files

theorem completedImage_of_good {f : Files} (creates : f.creates = true) (good : ¬ BadFile f) :
    ∃ image, CompletedImage f image ∧ (fileChange f).2 = some image := by
  obtain ⟨input, opens, good⟩ : ∃ input, f.mcs = some input ∧
      ¬ HasBadRecord (records (fgetsAll [] (bufSize - 1) input) f.stack) := by
    simpa [BadFile] using good
  rw [← convertLines_stops _ _ .initial, Bool.not_eq_false] at good
  refine ⟨_, ⟨creates, input, _, opens, Prod.ext rfl good, rfl⟩, ?_⟩
  simp only [fileChange, opens, creates]
  rw [if_neg (by decide), if_pos good]

theorem CompletedImage.good {f : Files} {image : List UInt8} (completed : CompletedImage f image) :
    f.creates = true ∧ ¬ BadFile f := by
  obtain ⟨creates, input, s, opens, done, -⟩ := completed
  refine ⟨creates, fun bad => ?_⟩
  have stops := (convertLines_stops _ _ .initial).2 (bad input opens)
  rw [done] at stops
  cases stops

/-- **A bad file stays out of the flash** if and only if the run is harmless. -/
theorem bad_file_stays_out_iff (w : Started) : StaysOut w ↔ HarmlessRun w := by
  constructor
  · intro out
    by_contra harmful
    simp only [HarmlessRun, not_or] at harmful
    obtain ⟨named, image, ready, notGood⟩ := harmful
    have sends : Sends (main w 0).2.1.log := sends_iff.2 ⟨by simpa using named, image, ready⟩
    obtain ⟨_, completed, -⟩ := out.image 0 sends
    exact notGood completed.good
  · intro harmless
    by_cases sends : w.named = true ∧ ¬ NoImage w ∧ ¬ StaysBusy w.card
    · obtain ⟨named, image, ready⟩ := sends
      obtain ⟨creates, good⟩ : w.files.creates = true ∧ ¬ BadFile w.files := by
        rcases harmless with unnamed | none | busy | good
        · exact absurd (unnamed.symm.trans named) (by decide)
        · exact absurd none image
        · exact absurd busy ready
        · exact good
      constructor
      · intro bad
        exact absurd bad good
      · intro fuel _
        obtain ⟨made, completed, written⟩ := completedImage_of_good creates good
        have reopens : w.reopens = true := by
          by_contra closed
          exact image (Or.inl (by simpa using closed))
        refine ⟨made, completed, ?_⟩
        simp only [main, named, reopens, if_true, written]
    · constructor
      · intro _ fuel sent
        exact sends (sends_iff.1 sent)
      · intro fuel sent
        exact absurd (sends_iff.1 sent) sends

/-- The text of one record whose bytes do not add up to 0. -/
def brokenRecord : List UInt8 := [58, 48, 49, 48, 48, 48, 48, 48, 48, 65, 65, 53, 54, 10]

/-- Everything works but the file. -/
def startedBroken : Started :=
  ⟨true, ⟨some brokenRecord, none, true, fun _ => 0⟩, true, ⟨fun _ => ⟨0, 0⟩, fun _ => 0⟩, fun _ => 0⟩

/-- **The flash is erased** and written with what was converted in front of the error. -/
theorem broken_record_reaches_the_flash : ¬ StaysOut startedBroken := by
  intro out
  rcases (bad_file_stays_out_iff startedBroken).1 out with unnamed | none | busy | ⟨-, good⟩
  · cases unnamed
  · rcases none with closed | ⟨missing | uncreated, -⟩
    · cases closed
    · cases missing
    · cases uncreated
  · exact absurd (busy 0 (Nat.zero_le _)) (by decide)
  · apply good
    rintro input ⟨⟩
    refine ⟨[], _, [], rfl, .inl ?_, fun e member => absurd member List.not_mem_nil⟩
    decide

end Program

end FpgaSsd.Theory
