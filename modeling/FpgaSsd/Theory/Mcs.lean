/-
# Theory.Mcs — the image of an MCS file

`file_change` appends to the image and keeps the address of its end. What a data record
puts there depends on where the records before it have ended.

* `textLines`, `mcsPieces?` — what a text says, read without the functions of the tool;
* `fgetsAll_lines` — a file of lines that fit the buffer is read line by line;
* `convertLines_image` — the image is the stream of the data records as they are read;
* `mcsPieces?_eq` — a text that means something is read as what it means;
* `rightImage_iff` — the image is the one that the file means exactly when its bytes are
  written in digits and the records that start behind the end only repeat what is there.
-/
import FpgaSsd.Lib.Overlay
import FpgaSsd.Theory.Firmware

namespace FpgaSsd.Theory

open FpgaSsd.Lib FpgaSsd.Tools

set_option autoImplicit false

/-! ## Lines -/

/-- The lines of a text, each with its end. -/
def textLines : List UInt8 → List (List UInt8)
  | [] => []
  | c :: rest =>
      if c = 10 then [c] :: textLines rest
      else match textLines rest with
        | [] => [[c]]
        | line :: lines => (c :: line) :: lines

/-- Every line fits the buffer, with the 0 behind it. -/
def LinesFit (text : List UInt8) : Prop := ∀ line ∈ textLines text, line.length < bufSize

section Lines

/-- What was read of a line comes in front of the rest of it. -/
def withStart (so : List UInt8) : List (List UInt8) → List (List UInt8)
  | [] => if so = [] then [] else [so]
  | line :: lines => (so ++ line) :: lines

theorem withStart_nil (lines : List (List UInt8)) : withStart [] lines = lines := by
  cases lines <;> rfl

theorem textLines_ne_nil {text : List UInt8} (some : text ≠ []) : textLines text ≠ [] := by
  cases text with
  | nil => exact absurd rfl some
  | cons c rest =>
      rw [textLines]
      split
      · exact nofun
      · split <;> exact nofun

/-- No line is empty. -/
theorem ne_nil_of_textLines {text line : List UInt8} (member : line ∈ textLines text) : line ≠ [] := by
  induction text generalizing line with
  | nil => cases member
  | cons c rest ih =>
      rw [textLines] at member
      split at member
      · rcases List.mem_cons.1 member with rfl | later
        · exact nofun
        · exact ih later
      · split at member
        · rw [List.mem_singleton.1 member]
          exact nofun
        · rename_i lines eq
          rcases List.mem_cons.1 member with rfl | later
          · exact nofun
          · exact ih (eq ▸ List.mem_cons_of_mem _ later)

theorem fgetsAll_eq (text so : List UInt8) (room : Nat)
    (first : ∀ line lines, textLines text = line :: lines →
      line.length ≤ room ∧ ∀ other ∈ lines, other.length < bufSize) :
    fgetsAll so room text = withStart so (textLines text) := by
  induction text generalizing so room with
  | nil => rfl
  | cons c rest ih =>
      rw [fgetsAll]
      rw [textLines] at first ⊢
      by_cases ends : c = 10
      · rw [if_pos ends] at first ⊢
        have fit := (first _ _ rfl).2
        rw [if_pos (.inl ends), ih [] (bufSize - 1) ?_, withStart_nil]
        · rfl
        · intro line lines eq
          rw [eq] at fit
          have here := fit line (List.mem_cons_self ..)
          exact ⟨by omega, fun other member => fit other (List.mem_cons_of_mem _ member)⟩
      · rw [if_neg ends] at first ⊢
        cases later : textLines rest with
        | nil =>
            have none : rest = [] := Classical.byContradiction fun some => textLines_ne_nil some later
            subst none
            have some : so ++ [c] ≠ [] := List.append_ne_nil_of_right_ne_nil so (List.cons_ne_nil c [])
            simp only [fgetsAll, if_neg some, if_true, ite_self]
            rfl
        | cons line lines =>
            rw [later] at first
            obtain ⟨fits, others⟩ := first _ _ rfl
            rw [List.length_cons] at fits
            have some : line ≠ [] := ne_nil_of_textLines (later ▸ List.mem_cons_self ..)
            have more := List.length_pos_iff.2 some
            rw [if_neg (not_or.2 ⟨ends, by omega⟩), ih _ (room - 1) ?_, later]
            · simp only [withStart, List.append_assoc, List.singleton_append]
            · intro line' lines' eq
              obtain ⟨rfl, rfl⟩ := List.cons.inj (later.symm.trans eq)
              exact ⟨by omega, others⟩

/-- **Lines that fit the buffer** are read one after the other. -/
theorem fgetsAll_lines {text : List UInt8} (fit : LinesFit text) :
    fgetsAll [] (bufSize - 1) text = textLines text := by
  rw [fgetsAll_eq text [] (bufSize - 1) ?_, withStart_nil]
  intro line lines eq
  unfold LinesFit at fit
  rw [eq] at fit
  have here := fit line (List.mem_cons_self ..)
  exact ⟨by omega, fun other member => fit other (List.mem_cons_of_mem _ member)⟩

end Lines

/-! ## What the text says -/

/-- The sixteen digits, in order. -/
def hexDigits : List UInt8 := [48, 49, 50, 51, 52, 53, 54, 55, 56, 57, 65, 66, 67, 68, 69, 70]

/-- A digit is worth its place among them. -/
def digit? (c : UInt8) : Option Nat := hexDigits.idxOf? c

/-- The byte that two digits of a line stand for. -/
def byteAt? (row : List UInt8) (i : Nat) : Option Nat := do
  let high ← row[i]? >>= digit?
  let low ← row[i + 1]? >>= digit?
  return 16 * high + low

/-- `n` bytes one behind the other. -/
def bytesAt? (row : List UInt8) : Nat → Nat → Option (List Nat)
  | 0, _ => some []
  | n + 1, i => do
      let b ← byteAt? row i
      let rest ← bytesAt? row n (i + 2)
      return b :: rest

/-- The bytes of a record: its length, the two of the address, the type, as many as the
length means, and the checksum that makes their sum a multiple of 256. -/
def recordBytes? (row : List UInt8) : Option (List Nat) := do
  let length ← byteAt? row 1
  let bytes ← bytesAt? row (length + 5) 1
  if bytes.sum % 256 = 0 then some bytes else none

/-- The data that a text puts at addresses, in order; `none` where it is no MCS text. An
extended record holds the upper half of the addresses behind it. -/
def mcsPieces? : Nat → List (List UInt8) → Option (List (Piece UInt8))
  | _, [] => some []
  | highAddr, row :: lines =>
      match recordBytes? row with
      | some [2, _, _, 4, high, low, _] => mcsPieces? (high * 256 + low) lines
      | some (_ :: high :: low :: 0 :: rest) =>
          (mcsPieces? highAddr lines).map fun ps =>
            ⟨highAddr * 65536 + (high * 256 + low), rest.dropLast.map UInt8.ofNat⟩ :: ps
      | some (_ :: _ :: _ :: 1 :: _) => some []
      | _ => none

/-- What the file says. -/
def meaningOf (f : Files) : Option (List (Piece UInt8)) := f.mcs.bind fun text => mcsPieces? 0 (textLines text)

/-- The image covers the flash and all data, and each of its bytes is the one of the last
record that covers it, or empty. -/
structure FileImage (ps : List (Piece UInt8)) (image : List UInt8) : Prop where
  flash : maxFlashAddr ≤ image.length
  data : ∀ p ∈ ps, p.reach ≤ image.length
  byte : ∀ a < image.length, image[a]? = some (overlay emptyByte ps a)

/-- The file says something, and the image is what it says. -/
def RightImage (f : Files) (image : List UInt8) : Prop := ∃ ps, meaningOf f = some ps ∧ FileImage ps image

/-! ## What is converted -/

/-- The bytes of a data record and their address, as `file_change` reads them. -/
def dataPiece (highAddr : Nat) (oneLine : Mem) : Piece UInt8 where
  base := highAddr * 65536 + (hex2int oneLine 3 * 256 + hex2int oneLine 5)
  items := (List.range (lengthOf oneLine)).map fun j => .ofNat (hex2int oneLine (9 + 2 * j))

/-- The data records in front of the end-of-file record. -/
def dataPieces : Nat → List Mem → List (Piece UInt8)
  | _, [] => []
  | highAddr, oneLine :: rest =>
      match recordType oneLine with
      | .extended => dataPieces (hex2int oneLine 9 * 256 + hex2int oneLine 11) rest
      | .data => dataPiece highAddr oneLine :: dataPieces highAddr rest
      | .endOfFile | .unsupported => []

def piecesOf (f : Files) : List (Piece UInt8) :=
  match f.mcs with
  | none => []
  | some input => dataPieces 0 (records (fgetsAll [] (bufSize - 1) input) f.stack)

section Reading

variable {row : List UInt8} {oneLine : Mem} {i n b : Nat} {bytes : List Nat}

theorem digit?_place {c : UInt8} {v : Nat} (digit : digit? c = some v) :
    ∃ place : Fin hexDigits.length, place.val = v ∧ hexDigits.get place = c := by
  rw [digit?, List.idxOf?_eq_some_iff] at digit
  obtain ⟨inside, rfl, -⟩ := digit
  exact ⟨⟨v, inside⟩, rfl, rfl⟩

theorem hexDigit_place : ∀ place, hexDigit (hexDigits.get place) = place.val := by
  decide

theorem digit_places : ∀ place, (hexDigits.get place = 48 ↔ place.val = 0) ∧
    (hexDigits.get place = 49 ↔ place.val = 1) ∧ (hexDigits.get place = 52 ↔ place.val = 4) := by
  decide

theorem storeLine_of {c : UInt8} (there : row[i]? = some c) : storeLine oneLine row i = c := by
  obtain ⟨inside, rfl⟩ := List.getElem?_eq_some_iff.1 there
  exact dif_pos inside

/-- Two places of the line, and the digits that stand there. -/
theorem byteAt?_digits (read : byteAt? row i = some b) : ∃ high low : Fin hexDigits.length,
    b = 16 * high.val + low.val ∧ row[i]? = some (hexDigits.get high) ∧ row[i + 1]? = some (hexDigits.get low) := by
  simp only [byteAt?, Option.bind_eq_bind, Option.bind_eq_some_iff, Option.pure_def, Option.some.injEq] at read
  obtain ⟨_, ⟨_, there, digit⟩, _, ⟨_, there', digit'⟩, rfl⟩ := read
  obtain ⟨high, rfl, rfl⟩ := digit?_place digit
  obtain ⟨low, rfl, rfl⟩ := digit?_place digit'
  exact ⟨high, low, rfl, there, there'⟩

/-- **Digits are read** as what they stand for. -/
theorem hex2int_of (read : byteAt? row i = some b) : hex2int (storeLine oneLine row) i = b := by
  obtain ⟨high, low, rfl, there, there'⟩ := byteAt?_digits read
  rw [hex2int, storeLine_of there, storeLine_of there', hexDigit_place, hexDigit_place, Nat.mul_comm]

theorem bytesAt?_length (read : bytesAt? row n i = some bytes) : bytes.length = n := by
  induction n generalizing i bytes with
  | zero =>
      cases read
      rfl
  | succ n ih =>
      simp only [bytesAt?, Option.bind_eq_bind, Option.bind_eq_some_iff, Option.pure_def, Option.some.injEq] at read
      obtain ⟨b, first, rest, later, rfl⟩ := read
      rw [List.length_cons, ih later]

theorem bytesAt?_getElem? (read : bytesAt? row n i = some bytes) {j : Nat} (inside : j < n) :
    byteAt? row (i + 2 * j) = bytes[j]? := by
  induction n generalizing i bytes j with
  | zero => exact absurd inside (Nat.not_lt_zero j)
  | succ n ih =>
      simp only [bytesAt?, Option.bind_eq_bind, Option.bind_eq_some_iff, Option.pure_def, Option.some.injEq] at read
      obtain ⟨b, first, rest, later, rfl⟩ := read
      cases j with
      | zero => exact first
      | succ j =>
          rw [List.getElem?_cons_succ, ← ih later (Nat.lt_of_succ_lt_succ inside)]
          congr 1
          omega

/-- The type of a record is told by its two digits. -/
theorem recordType_of {v : Nat} (read : byteAt? row 7 = some v) : recordType (storeLine oneLine row) =
    if v = 4 then .extended else if v = 0 then .data else if v = 1 then .endOfFile else .unsupported := by
  obtain ⟨high, low, rfl, there, there'⟩ := byteAt?_digits read
  rw [recordType, storeLine_of there, storeLine_of there']
  obtain ⟨zero, -, -⟩ := digit_places high
  obtain ⟨zero', one, four⟩ := digit_places low
  simp only [zero, zero', one, four, show 16 * high.val + low.val = 4 ↔ high.val = 0 ∧ low.val = 4 by omega,
    show 16 * high.val + low.val = 0 ↔ high.val = 0 ∧ low.val = 0 by omega,
    show 16 * high.val + low.val = 1 ↔ high.val = 0 ∧ low.val = 1 by omega]

/-- What the converter reads of a record. -/
structure ReadAs (oneLine : Mem) (bytes : List Nat) : Prop where
  count : bytes.length = lengthOf oneLine + 5
  byte : ∀ j < bytes.length, bytes[j]? = some (hex2int oneLine (1 + 2 * j))
  type : ∀ v, bytes[3]? = some v → recordType oneLine =
    if v = 4 then .extended else if v = 0 then .data else if v = 1 then .endOfFile else .unsupported

/-- **The bytes of a record** are the ones that the converter reads. -/
theorem recordBytes?_readAs (read : recordBytes? row = some bytes) : ReadAs (storeLine oneLine row) bytes := by
  simp only [recordBytes?, Option.bind_eq_bind, Option.bind_eq_some_iff] at read
  obtain ⟨length, first, all, read, sum⟩ := read
  split at sum
  · cases sum
    have count := bytesAt?_length read
    refine ⟨?_, fun j inside => ?_, fun v type => ?_⟩
    · rw [lengthOf, hex2int_of first, count]
    · have at_j := bytesAt?_getElem? read (count ▸ inside)
      rw [List.getElem?_eq_getElem inside] at at_j ⊢
      rw [hex2int_of at_j]
    · exact recordType_of ((bytesAt?_getElem? read (j := 3) (by omega)).trans type)
  · cases sum

end Reading

section Conversion

variable {s : Convert}

/-- The address of the end is the length of the image. -/
def Convert.AtEnd (s : Convert) : Prop := s.currAddr = s.image.length

theorem dataRecord_image (oneLine : Mem) (atEnd : Convert.AtEnd s) :
    (dataRecord oneLine s).image = appendPiece emptyByte s.image (dataPiece s.highAddr oneLine) := by
  have count : (dataPiece s.highAddr oneLine).items.length = lengthOf oneLine := by
    rw [dataPiece, List.length_map, List.length_range]
  unfold Convert.AtEnd at atEnd
  simp only [dataRecord, appendPiece, Piece.reach, count, atEnd]
  congr 1
  simp only [dataPiece]
  rw [← List.map_take, List.take_range]
  congr 2
  omega

theorem dataRecord_atEnd (oneLine : Mem) (atEnd : Convert.AtEnd s) : Convert.AtEnd (dataRecord oneLine s) := by
  have length := congrArg List.length (dataRecord_image oneLine atEnd)
  rw [appendPiece_length] at length
  unfold Convert.AtEnd at *
  rw [length]
  simp only [dataRecord, dataPiece, Piece.reach, List.length_map, List.length_range, atEnd]
  omega

/-- **The image is the stream of the data records.** -/
theorem convertLines_image (lines : List (List UInt8)) (oneLine : Mem) {s s' : Convert} (atEnd : Convert.AtEnd s)
    (done : convertLines lines oneLine s = (s', true)) :
    Convert.AtEnd s' ∧
      s'.image = (dataPieces s.highAddr (records lines oneLine)).foldl (appendPiece emptyByte) s.image := by
  induction lines generalizing oneLine s with
  | nil =>
      cases done
      exact ⟨atEnd, rfl⟩
  | cons line rest ih =>
      rw [convertLines] at done
      rw [records, dataPieces]
      split at done
      · cases done
      cases type : recordType (storeLine oneLine line) with
      | extended =>
          rw [type] at done
          exact ih _ (s := { s with
            highAddr := hex2int (storeLine oneLine line) 9 * 256 + hex2int (storeLine oneLine line) 11 }) atEnd done
      | data =>
          rw [type] at done
          obtain ⟨atEnd', image⟩ := ih _ (dataRecord_atEnd _ atEnd) done
          refine ⟨atEnd', ?_⟩
          rw [image, dataRecord_image _ atEnd]
          rfl
      | endOfFile =>
          rw [type] at done
          cases done
          exact ⟨atEnd, rfl⟩
      | unsupported =>
          rw [type] at done
          cases done

/-- A completed image is the stream, and empty bytes up to the end of the flash. -/
theorem CompletedImage.eq_stream {f : Files} {image : List UInt8} (completed : CompletedImage f image) :
    image = stream emptyByte (piecesOf f) ++
      List.replicate (maxFlashAddr - (stream emptyByte (piecesOf f)).length) emptyByte := by
  obtain ⟨-, input, s, opens, done, rfl⟩ := completed
  obtain ⟨atEnd, made⟩ := convertLines_image _ _ (s := .initial) rfl done
  have same : s.image = stream emptyByte (piecesOf f) := by
    rw [made, piecesOf, opens]
    rfl
  rw [show s.currAddr = s.image.length from atEnd, same]

theorem getD_padded (image : List UInt8) (n a : Nat) :
    (image ++ List.replicate n emptyByte).getD a emptyByte = image.getD a emptyByte := by
  simp only [List.getD_eq_getElem?_getD, List.getElem?_append, List.getElem?_replicate]
  split
  · rfl
  · rename_i outside
    rw [List.getElem?_eq_none (Nat.le_of_not_lt outside)]
    split <;> rfl

section Records

variable {oneLine : Mem} {high low chk : Nat}

theorem ReadAs.extended {a b : Nat} (reads : ReadAs oneLine [2, a, b, 4, high, low, chk]) :
    recordType oneLine = .extended ∧ hex2int oneLine 9 * 256 + hex2int oneLine 11 = high * 256 + low := by
  have first := Option.some.inj (reads.byte 4 (by simp))
  have second := Option.some.inj (reads.byte 5 (by simp))
  exact ⟨reads.type 4 rfl, by rw [show high = _ from first, show low = _ from second]⟩

theorem ReadAs.data {length : Nat} {rest : List Nat} (reads : ReadAs oneLine (length :: high :: low :: 0 :: rest))
    (highAddr : Nat) : recordType oneLine = .data ∧
      dataPiece highAddr oneLine = ⟨highAddr * 65536 + (high * 256 + low), rest.dropLast.map UInt8.ofNat⟩ := by
  have first := Option.some.inj (reads.byte 1 (by simp))
  have second := Option.some.inj (reads.byte 2 (by simp))
  have count : rest.length = lengthOf oneLine + 1 := by simpa using reads.count
  refine ⟨reads.type 0 rfl, ?_⟩
  rw [dataPiece, show high = _ from first, show low = _ from second, Piece.mk.injEq]
  refine ⟨rfl, List.ext_getElem? fun j => ?_⟩
  by_cases inside : j < lengthOf oneLine
  · have byte := reads.byte (j + 4) (by simp only [List.length_cons]; omega)
    simp only [List.getElem?_cons_succ] at byte
    rw [List.getElem?_map, List.getElem?_map, List.getElem?_range inside, List.getElem?_dropLast,
      if_pos (by omega), byte]
    simp only [Option.map_some]
    rw [show 1 + 2 * (j + 4) = 9 + 2 * j by omega]
  · rw [List.getElem?_eq_none, List.getElem?_eq_none]
    · rw [List.length_map, List.length_dropLast]
      omega
    · rw [List.length_map, List.length_range]
      omega

end Records

/-- **A text that means something** is converted to what it means. -/
theorem mcsPieces?_eq {lines : List (List UInt8)} {oneLine : Mem} {s s' : Convert} {ps : List (Piece UInt8)}
    (done : convertLines lines oneLine s = (s', true)) (means : mcsPieces? s.highAddr lines = some ps) :
    dataPieces s.highAddr (records lines oneLine) = ps := by
  induction lines generalizing oneLine s ps with
  | nil =>
      cases means
      rfl
  | cons line lines ih =>
      rw [convertLines] at done
      rw [records, dataPieces]
      split at done
      · cases done
      rw [mcsPieces?] at means
      split at means
      · rename_i a b high low chk read
        have reads : ReadAs (storeLine oneLine line) _ := recordBytes?_readAs read
        obtain ⟨type, addr⟩ := reads.extended
        rw [type] at done ⊢
        simp only [addr] at done ⊢
        exact ih (s := { s with highAddr := high * 256 + low }) done means
      · rename_i length high low rest read
        have reads : ReadAs (storeLine oneLine line) _ := recordBytes?_readAs read
        obtain ⟨type, piece⟩ := reads.data s.highAddr
        obtain ⟨ps', means', rfl⟩ := Option.map_eq_some_iff.1 means
        rw [type] at done ⊢
        simp only [piece]
        exact congrArg _ (ih (s := dataRecord _ s) done means')
      · rename_i a b c rest read
        have reads : ReadAs (storeLine oneLine line) _ := recordBytes?_readAs read
        cases means
        rw [reads.type 1 rfl]
        rfl
      · cases means

theorem piecesOf_eq {f : Files} {image : List UInt8} (completed : CompletedImage f image)
    (fit : ∀ text, f.mcs = some text → LinesFit text) {ps : List (Piece UInt8)} (means : meaningOf f = some ps) :
    piecesOf f = ps := by
  obtain ⟨-, input, s, opens, done, -⟩ := completed
  simp only [meaningOf, opens, Option.bind_some] at means
  rw [fgetsAll_lines (fit input opens)] at done
  simp only [piecesOf, opens, fgetsAll_lines (fit input opens)]
  exact mcsPieces?_eq done means

theorem fileImage_iff {f : Files} {image : List UInt8} (completed : CompletedImage f image) :
    FileImage (piecesOf f) image ↔ RepeatsOnly emptyByte (piecesOf f) := by
  have padded := completed.eq_stream
  have length := congrArg List.length padded
  rw [List.length_append, List.length_replicate, stream_length] at length
  have bytes : ∀ a, image.getD a emptyByte = (stream emptyByte (piecesOf f)).getD a emptyByte := by
    intro a
    rw [padded, getD_padded]
  rw [← stream_eq_overlay_iff]
  constructor
  · intro right a
    rw [← bytes]
    by_cases inside : a < image.length
    · rw [List.getD_eq_getElem?_getD, right.byte a inside]
      rfl
    · rw [List.getD_eq_default _ _ (Nat.le_of_not_lt inside)]
      refine (foldl_uncovered emptyByte fun p member covers => ?_).symm
      have reach : p.reach ≤ reached 0 (piecesOf f) := reach_le_reached member
      have past := covers.2
      omega
  · intro same
    constructor
    · omega
    · intro p member
      have reach : p.reach ≤ reached 0 (piecesOf f) := reach_le_reached member
      omega
    · intro a inside
      rw [← same, ← bytes, List.getD_eq_getElem?_getD, List.getElem?_eq_getElem inside]
      rfl

/-- **A conversion that gets to its end makes the image of the file** exactly when every
byte of its records is written in digits, and the data records that start behind the end
of the ones before them only repeat what is there. -/
theorem rightImage_iff (f : Files) (image : List UInt8) (completed : CompletedImage f image)
    (fit : ∀ text, f.mcs = some text → LinesFit text) :
    RightImage f image ↔ ∃ ps, meaningOf f = some ps ∧ RepeatsOnly emptyByte ps := by
  constructor
  · rintro ⟨ps, means, right⟩
    obtain rfl := piecesOf_eq completed fit means
    exact ⟨_, means, (fileImage_iff completed).1 right⟩
  · rintro ⟨ps, means, repeats⟩
    obtain rfl := piecesOf_eq completed fit means
    exact ⟨_, means, (fileImage_iff completed).2 repeats⟩

/-- Lines as text. -/
def mcsFile (lines : List (List UInt8)) : Files where
  mcs := some (lines.flatMap fun line => line ++ [10])
  tmp := none
  creates := true
  stack := fun _ => 0

/-- `:01000000BB44`, `:01000100AA54` and `:00000001FF`. -/
def lowRecord : List UInt8 := [58, 48, 49, 48, 48, 48, 48, 48, 48, 66, 66, 52, 52]

def highRecord : List UInt8 := [58, 48, 49, 48, 48, 48, 49, 48, 48, 65, 65, 53, 52]

def endRecord : List UInt8 := [58, 48, 48, 48, 48, 48, 48, 48, 49, 70, 70]

/-- `:01000000ffFF`, with a data byte in small letters. -/
def smallRecord : List UInt8 := [58, 48, 49, 48, 48, 48, 48, 48, 48, 102, 102, 70, 70]

theorem exists_completed {f : Files} (creates : f.creates = true) {input : List UInt8} (opens : f.mcs = some input)
    (done : (convertLines (fgetsAll [] (bufSize - 1) input) f.stack .initial).2 = true) :
    ∃ image, CompletedImage f image :=
  ⟨_, creates, input, _, opens, Prod.ext rfl done, rfl⟩

/-- **Ascending records** are converted. -/
theorem ascending_file_is_right : ∃ image, CompletedImage (mcsFile [lowRecord, highRecord, endRecord]) image ∧
    RightImage (mcsFile [lowRecord, highRecord, endRecord]) image := by
  obtain ⟨image, completed⟩ := exists_completed (f := mcsFile [lowRecord, highRecord, endRecord]) rfl rfl (by decide)
  refine ⟨image, completed, (rightImage_iff _ image completed ?_).2 ⟨[⟨0, [0xBB]⟩, ⟨1, [0xAA]⟩], by decide, ?_⟩⟩
  · rintro text ⟨⟩
    unfold LinesFit
    decide
  · exact repeatsOnly_of_ascending ⟨Nat.le_refl _, Nat.le_refl _, trivial⟩

/-- **A record behind another one** is lost: its byte is not in the image. A file in which
a byte stands in small letters is converted as well, and has no image. -/
theorem descending_record_is_lost :
    (∃ image, CompletedImage (mcsFile [highRecord, lowRecord, endRecord]) image ∧
      meaningOf (mcsFile [highRecord, lowRecord, endRecord]) = some [⟨1, [0xAA]⟩, ⟨0, [0xBB]⟩] ∧
      ¬ RightImage (mcsFile [highRecord, lowRecord, endRecord]) image) ∧
    ∃ image, CompletedImage (mcsFile [smallRecord, endRecord]) image ∧
      ¬ RightImage (mcsFile [smallRecord, endRecord]) image := by
  have means : meaningOf (mcsFile [highRecord, lowRecord, endRecord]) = some [⟨1, [0xAA]⟩, ⟨0, [0xBB]⟩] := by decide
  have pieces : piecesOf (mcsFile [highRecord, lowRecord, endRecord]) = [⟨1, [0xAA]⟩, ⟨0, [0xBB]⟩] := by decide
  constructor
  · obtain ⟨image, completed⟩ := exists_completed (f := mcsFile [highRecord, lowRecord, endRecord]) rfl rfl (by decide)
    refine ⟨image, completed, means, ?_⟩
    rintro ⟨ps, means', right⟩
    obtain rfl := Option.some.inj (means.symm.trans means')
    have padded := completed.eq_stream
    rw [pieces] at padded
    have first := right.byte 0 (Nat.lt_of_lt_of_le (by decide) right.flash)
    have lost : image.getD 0 emptyByte = emptyByte := by
      rw [padded, getD_padded]
      rfl
    rw [List.getD_eq_getElem?_getD, first] at lost
    exact absurd lost (by decide)
  · obtain ⟨image, completed⟩ := exists_completed (f := mcsFile [smallRecord, endRecord]) rfl rfl (by decide)
    refine ⟨image, completed, ?_⟩
    rintro ⟨ps, means', -⟩
    have nothing : meaningOf (mcsFile [smallRecord, endRecord]) = none := by decide
    rw [nothing] at means'
    cases means'

end Conversion

end FpgaSsd.Theory
