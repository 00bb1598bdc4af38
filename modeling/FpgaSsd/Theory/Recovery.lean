/-
# Theory.Recovery — what a recovery keeps, and what it erases

* `fateOf`, `checkIdFlush_eq` — what becomes of each id does not depend on the others,
  only whether its turn comes;
* `entryUsed_foldl`, `tableEntry_foldl` — the marks in the erase table;
* `keepsIntact_iff` — which ids with good data are kept, with their blocks;
* `sparesKept_iff` — when no block of an id that is kept is erased.
-/
import FpgaSsd.Tools.SsdRecover
import FpgaSsd.Theory.Checksum
import FpgaSsd.Theory.DirectoryWalk
import FpgaSsd.Theory.IdleSpace

namespace FpgaSsd.Theory

open FpgaSsd.Lib FpgaSsd.Driver FpgaSsd.Api FpgaSsd.Tools

set_option autoImplicit false

/-! ## Marks -/

/-- The `use_flag` of an entry set. -/
def withUseFlag (entry : Nat) : Nat := entry % 16384 + 16384 + entry / 32768 * 32768

section Marks

variable {table : Mem}

theorem tableEntry_setEntryUse (i flag j : Nat) (bit : flag < 2) :
    tableEntry (setEntryUse table i flag) j =
      if j = i then tableEntry table i % 16384 + flag * 16384 + tableEntry table i / 32768 * 32768
      else tableEntry table j := by
  have word : tableEntry table i < 256 ^ 2 := getLE_lt table (2 * i) 2
  unfold setEntryUse
  by_cases same : j = i
  · subst same
    rw [if_pos rfl]
    exact getLE_putLE_of_lt _ (by omega)
  · rw [if_neg same]
    exact getLE_putLE_disjoint _ (by omega)

theorem entryUsed_setEntryUse (i flag j : Nat) (bit : flag < 2) :
    entryUsed (setEntryUse table i flag) j = if j = i then decide (flag = 1) else entryUsed table j := by
  unfold entryUsed
  rw [tableEntry_setEntryUse i flag j bit]
  split
  · exact decide_eq_decide.2 (by omega)
  · rfl

/-- A loop over entries sets the flag of these and leaves the others. -/
theorem entryUsed_foldl (flag : Nat) (bit : flag < 2) (blocks : List Nat) (table : Mem) (j : Nat) :
    entryUsed (blocks.foldl (fun table i => setEntryUse table i flag) table) j =
      if j ∈ blocks then decide (flag = 1) else entryUsed table j := by
  induction blocks generalizing table with
  | nil => rw [if_neg List.not_mem_nil, List.foldl_nil]
  | cons i rest ih =>
      rw [List.foldl_cons, ih, entryUsed_setEntryUse i flag j bit]
      by_cases later : j ∈ rest
      · rw [if_pos later, if_pos (List.mem_cons_of_mem _ later)]
      · by_cases same : j = i
        · rw [if_neg later, if_pos same, if_pos (List.mem_cons.2 (.inl same))]
        · rw [if_neg later, if_neg same, if_neg fun member => (List.mem_cons.1 member).elim same later]

theorem withUseFlag_idem (entry : Nat) : withUseFlag (withUseFlag entry) = withUseFlag entry := by
  simp only [withUseFlag]
  omega

/-- The flag is set in the entries that a loop marks, and the others stay. -/
theorem tableEntry_foldl (blocks : List Nat) (table : Mem) (j : Nat) :
    tableEntry (blocks.foldl (fun table i => setEntryUse table i 1) table) j =
      if j ∈ blocks then withUseFlag (tableEntry table j) else tableEntry table j := by
  induction blocks generalizing table with
  | nil => rw [if_neg List.not_mem_nil, List.foldl_nil]
  | cons i rest ih =>
      rw [List.foldl_cons, ih, tableEntry_setEntryUse i 1 j (by decide)]
      by_cases same : j = i
      · subst same
        rw [if_pos rfl, if_pos (List.mem_cons_self ..)]
        split
        · exact withUseFlag_idem _
        · rfl
      · rw [if_neg same]
        exact if_congr (by simp [same]) rfl rfl

end Marks

/-! ## The fate of an id -/

/-- The stored length lies between the header and 10M. -/
def LengthOk (data : Mem) : Prop := crcBlockHeader < loadInt data 4 ∧ loadInt data 4 ≤ btDataSize

/-- The stored checksum is the one of the data. -/
def CrcMatches (data : Mem) : Prop :=
  BitVec.ofNat 32 (getLE data 0 4) =
    baiduCrc32Fast data crcBlockHeader 0 (loadInt data 4 - crcBlockHeader).toNat ssdCrcTable

instance (data : Mem) : Decidable (LengthOk data) := inferInstanceAs (Decidable (_ ∧ _))
instance (data : Mem) : Decidable (CrcMatches data) := inferInstanceAs (Decidable (_ = _))

def fateBlocks : Fate → List Nat
  | .marked blocks => blocks
  | _ => []

section Flush

variable {ssdRead : Turn → Mem → Int × Mem} {addrTable : Mem}

/-- What the read of an id answers. -/
def readOf (ssdRead : Turn → Mem → Int × Mem) (t : Turn) : Int := (ssdRead t fun _ => 0).1

/-- What is in the buffer then. -/
def dataOf (ssdRead : Turn → Mem → Int × Mem) (t : Turn) : Mem := (ssdRead t fun _ => 0).2

/-- What becomes of an id whose turn comes and whose read does not time out. -/
def fateOf (ssdRead : Turn → Mem → Int × Mem) (addrTable : Mem) (t : Turn) : Fate :=
  if readOf ssdRead t ≠ ssdOk then .deleted (ssdRecoverDelete t.delete)
  else if ¬ LengthOk (dataOf ssdRead t) then .skipped
  else if CrcMatches (dataOf ssdRead t) then .marked (correctBlocks addrTable t.logic)
  else .deleted (ssdRecoverDelete t.delete)

/-- The ids whose turn comes and ends. -/
def reached (ssdRead : Turn → Mem → Int × Mem) (turns : List Turn) : List Turn :=
  turns.takeWhile fun t => decide (readOf ssdRead t ≠ -9)

/-- What the check leaves behind these turns. -/
def flushOf (ssdRead : Turn → Mem → Int × Mem) (addrTable : Mem) (turns : List Turn) (eraseTable : Mem) : Checked where
  ret := if turns.any (fun t => decide (readOf ssdRead t = -9)) then -1 else 0
  fates := (reached ssdRead turns).map (fateOf ssdRead addrTable)
  eraseTable := ((reached ssdRead turns).flatMap fun t => fateBlocks (fateOf ssdRead addrTable t)).foldl
    (fun table i => setEntryUse table i 1) eraseTable

/-- A read does not show what was in the buffer before. -/
def Fresh (ssdRead : Turn → Mem → Int × Mem) : Prop := ∀ t idBuf,
  (ssdRead t idBuf).1 = readOf ssdRead t ∧ (readOf ssdRead t = ssdOk → (ssdRead t idBuf).2 = dataOf ssdRead t)

theorem readOf_eq {t : Turn} {ret : Int} {data : Mem} (read : ssdRead t (fun _ => 0) = (ret, data)) :
    readOf ssdRead t = ret ∧ dataOf ssdRead t = data := by
  unfold readOf dataOf
  rw [read]
  exact ⟨rfl, rfl⟩

theorem reached_cons {t : Turn} (rest : List Turn) (answers : readOf ssdRead t ≠ -9) :
    reached ssdRead (t :: rest) = t :: reached ssdRead rest := by
  unfold reached
  rw [List.takeWhile_cons, decide_eq_true answers, if_pos rfl]

theorem flushOf_cons {t : Turn} (rest : List Turn) (eraseTable : Mem) (answers : readOf ssdRead t ≠ -9) :
    flushOf ssdRead addrTable (t :: rest) eraseTable =
      (flushOf ssdRead addrTable rest ((fateBlocks (fateOf ssdRead addrTable t)).foldl
        (fun table i => setEntryUse table i 1) eraseTable)).after (fateOf ssdRead addrTable t) := by
  unfold flushOf Checked.after
  rw [reached_cons rest answers, List.flatMap_cons, List.foldl_append, List.map_cons, List.any_cons,
    decide_eq_false answers, Bool.false_or]

/-- **The check of the ids**: the fate of each that is reached, and the marks of those. -/
theorem checkIdFlush_eq (fresh : Fresh ssdRead) (turns : List Turn) (idBuf eraseTable : Mem) :
    checkIdFlush ssdRead addrTable turns idBuf eraseTable = flushOf ssdRead addrTable turns eraseTable := by
  induction turns generalizing idBuf eraseTable with
  | nil => rfl
  | cons t rest ih =>
      obtain ⟨ret, data⟩ := fresh t idBuf
      by_cases late : readOf ssdRead t = -9
      · have ends : reached ssdRead (t :: rest) = [] := by
          unfold reached
          rw [List.takeWhile_cons, late]
          rfl
        have failed : (ssdRead t idBuf).1 ≠ ssdOk := by
          rw [ret, late]
          decide
        unfold checkIdFlush flushOf
        dsimp only
        rw [if_pos failed, ret, if_pos late, ends, List.any_cons, decide_eq_true late, Bool.true_or, if_pos rfl]
        rfl
      · rw [flushOf_cons rest eraseTable late]
        unfold checkIdFlush fateOf
        dsimp only
        rw [ret]
        by_cases ok : readOf ssdRead t = ssdOk
        · have same := data ok
          simp only [ok, ne_eq, not_true, if_false, same]
          by_cases length : LengthOk (dataOf ssdRead t)
          · have inside : ¬ ((btDataSize : Int) < loadInt (dataOf ssdRead t) 4 ∨
                loadInt (dataOf ssdRead t) 4 ≤ crcBlockHeader) := by
              have := length.1
              have := length.2
              omega
            rw [if_neg inside]
            simp only [length, not_true, if_false]
            by_cases crc : CrcMatches (dataOf ssdRead t)
            · rw [if_neg fun differ => differ crc, if_pos crc, ih]
              rfl
            · have differ := crc
              unfold CrcMatches at differ
              rw [if_pos differ, if_neg crc, ih]
              rfl
          · have outside : (btDataSize : Int) < loadInt (dataOf ssdRead t) 4 ∨
                loadInt (dataOf ssdRead t) 4 ≤ crcBlockHeader := by
              unfold LengthOk at length
              omega
            rw [if_pos outside, ih]
            simp only [length, not_false_eq_true, if_true]
            rfl
        · rw [if_pos ok, if_neg late, if_pos ok, ih]
          rfl

theorem reached_all {turns : List Turn} (answers : ∀ t ∈ turns, readOf ssdRead t ≠ -9) :
    reached ssdRead turns = turns := by
  induction turns with
  | nil => rfl
  | cons t rest ih =>
      rw [reached_cons rest (answers t (List.mem_cons_self ..)),
        ih fun u member => answers u (List.mem_cons_of_mem _ member)]

theorem reached_getElem? (turns : List Turn) (k : Nat) (t : Turn) :
    (reached ssdRead turns)[k]? = some t ↔
      turns[k]? = some t ∧ (∀ u ∈ turns.take k, readOf ssdRead u ≠ -9) ∧ readOf ssdRead t ≠ -9 := by
  induction turns generalizing k with
  | nil => simp [reached]
  | cons u rest ih =>
      by_cases late : readOf ssdRead u = -9
      · have ends : reached ssdRead (u :: rest) = [] := by
          unfold reached
          rw [List.takeWhile_cons, late]
          rfl
        rw [ends, List.getElem?_nil]
        constructor
        · intro none
          cases none
        · rintro ⟨found, before, answers⟩
          cases k with
          | zero =>
              rw [List.getElem?_cons_zero, Option.some.injEq] at found
              rw [found] at late
              exact absurd late answers
          | succ k => exact absurd late (before u (List.mem_cons_self ..))
      · rw [reached_cons rest late]
        cases k with
        | zero =>
            simp only [List.getElem?_cons_zero, Option.some.injEq, List.take_zero]
            constructor
            · rintro rfl
              exact ⟨rfl, fun _ member => absurd member List.not_mem_nil, late⟩
            · intro found
              exact found.1
        | succ k =>
            rw [List.getElem?_cons_succ, List.getElem?_cons_succ, ih, List.take_succ_cons]
            simp only [List.forall_mem_cons, late, ne_eq, not_false_eq_true, true_and]

/-- The id is read, its data are good, and its five blocks are marked. -/
def GoodData (ssdRead : Turn → Mem → Int × Mem) (t : Turn) : Prop :=
  readOf ssdRead t = ssdOk ∧ LengthOk (dataOf ssdRead t) ∧ CrcMatches (dataOf ssdRead t)

/-- The id is not read, or its checksum is wrong, and the driver removes it. -/
def Removed (ssdRead : Turn → Mem → Int × Mem) (t : Turn) : Prop :=
  (readOf ssdRead t ≠ ssdOk ∨ LengthOk (dataOf ssdRead t) ∧ ¬ CrcMatches (dataOf ssdRead t)) ∧
    ssdRecoverDelete t.delete = ssdOk

theorem fateOf_removed {t : Turn} : fateOf ssdRead addrTable t = .deleted ssdOk ↔ Removed ssdRead t := by
  unfold fateOf Removed
  by_cases ok : readOf ssdRead t = ssdOk
  · by_cases length : LengthOk (dataOf ssdRead t)
    · by_cases crc : CrcMatches (dataOf ssdRead t)
      · simp [ok, length, crc]
      · simp [ok, length, crc]
    · simp [ok, length]
  · simp [ok]

theorem fateOf_marks {t : Turn} {p : Nat} :
    p ∈ fateBlocks (fateOf ssdRead addrTable t) ↔ GoodData ssdRead t ∧ p ∈ correctBlocks addrTable t.logic := by
  unfold fateOf GoodData
  by_cases ok : readOf ssdRead t = ssdOk
  · by_cases length : LengthOk (dataOf ssdRead t)
    · by_cases crc : CrcMatches (dataOf ssdRead t)
      · simp [ok, length, crc, fateBlocks]
      · simp [ok, length, crc, fateBlocks]
    · simp [ok, length, fateBlocks]
  · simp [ok, fateBlocks]

end Flush

/-! ## The read of an id -/

/-- The checks of a read of `count` bytes from the start, as far as the size of the id. -/
theorem ssdReadCheck_start {id : BlockId} {count : Nat} (pages : count % ssdPageSize = 0) (some_bytes : count ≠ 0)
    (small : count < 2 ^ 64) :
    ssdReadCheck openLibrary id false count 0 =
      if dataSize id < count then .answer errParamOverflow
      else .request ⟨id, count / ssdPageSize % 2 ^ 32, 0⟩ := by
  have start : ¬ ((dataSize id : Int) < 0) := by omega
  have far : ((dataSize id : Int) < ((count : Int) + 0) % 2 ^ 64) ↔ dataSize id < count := by omega
  unfold ssdReadCheck
  rw [if_neg (by decide), if_neg fun odd => odd pages, if_neg (by decide), if_neg start]
  by_cases over_size : dataSize id < count
  · rw [if_pos (far.2 over_size), if_pos over_size]
  · rw [if_neg fun less => over_size (far.1 less), if_neg over_size, if_neg (by decide), if_neg some_bytes]
    rfl

/-- Ten megabytes are too many for an index id. -/
theorem ssdReadCheck_recover (id : BlockId) : ssdReadCheck openLibrary id false btDataSize 0 =
    if id.mNHigh.toNat % 8 = 0 then .answer errParamOverflow else .request ⟨id, 1280, 0⟩ := by
  rw [ssdReadCheck_start (by decide) (by decide) (by decide)]
  unfold dataSize
  by_cases low : id.mNHigh.toNat % 8 = 0
  · rw [if_pos low, if_pos low, if_pos (by decide)]
  · have pages : btDataSize / ssdPageSize % 2 ^ 32 = 1280 := by decide
    rw [if_neg low, if_neg low, if_neg (by decide), pages]

theorem ssdRead_iblock {t : Turn} (index : idType t.id = .iblock) (idBuf : Mem) :
    t.ssdRead idBuf = (apiValue errParamOverflow, idBuf) := by
  have low : t.id.mNHigh.toNat % 8 = 0 := by
    unfold idType at index
    split at index
    · assumption
    · cases index
  have check := (ssdReadCheck_recover t.id).trans (if_pos low)
  unfold Turn.ssdRead
  rw [check]
  rfl

theorem ssdRead_dblock {t : Turn} (data : idType t.id = .dblock) (idBuf : Mem) :
    t.ssdRead idBuf = (apiValue (t.answer ⟨t.id, 1280, 0⟩).1, (t.answer ⟨t.id, 1280, 0⟩).2) := by
  have high : ¬ t.id.mNHigh.toNat % 8 = 0 := by
    unfold idType at data
    split at data
    · cases data
    · assumption
  have check := (ssdReadCheck_recover t.id).trans (if_neg high)
  unfold Turn.ssdRead
  rw [check]
  rfl

theorem ssdRead_fresh : Fresh Turn.ssdRead := by
  intro t idBuf
  cases type : idType t.id with
  | iblock =>
      obtain ⟨ret, -⟩ := readOf_eq (ssdRead_iblock type fun _ => 0)
      rw [ret, ssdRead_iblock type]
      exact ⟨rfl, fun ok => absurd ok (by decide)⟩
  | dblock =>
      obtain ⟨ret, data⟩ := readOf_eq (ssdRead_dblock type fun _ => 0)
      rw [ret, data, ssdRead_dblock type]
      exact ⟨rfl, fun _ => rfl⟩

/-! ## Ids with good data -/

/-- The read of all that an id holds. -/
def ownRead (id : BlockId) : ReadParam := ⟨id, dataSize id / ssdPageSize, 0⟩

/-- The data read without error, and state a length and a checksum that fit them. -/
structure Intact (t : Turn) : Prop where
  reads : (t.answer (ownRead t.id)).1 = ssdOk
  header : crcBlockHeader ≤ loadInt (t.answer (ownRead t.id)).2 4
  fits : loadInt (t.answer (ownRead t.id)).2 4 ≤ dataSize t.id
  crc : CrcMatches (t.answer (ownRead t.id)).2

/-- The physical blocks of an id. -/
def extentBlocks (addrTable : Mem) (t : Turn) : List Nat :=
  (List.range (idType t.id).size).map fun i => addrEntryBlock addrTable (t.logic + i)

/-- Every id with good data whose turn comes is kept, and marked in the erase table. -/
structure KeepsIntact (addrTable : Mem) (turns : List Turn) : Prop where
  /-- It is not passed to `SSD_recover_delete`. -/
  kept : ∀ (idBuf eraseTable : Mem) (k : Nat) (t : Turn) (fate : Fate), turns[k]? = some t → Intact t →
    (checkIdFlush Turn.ssdRead addrTable turns idBuf eraseTable).fates[k]? = some fate → ∀ ret, fate ≠ .deleted ret
  /-- Its turn sets the flag of its own blocks, and changes nothing else in the table. -/
  marks : ∀ (idBuf eraseTable : Mem) (k : Nat) (t : Turn), turns[k]? = some t → Intact t →
    (∀ u ∈ turns.take k, readOf Turn.ssdRead u ≠ -9) → ∀ p,
      tableEntry (checkIdFlush Turn.ssdRead addrTable [t] idBuf eraseTable).eraseTable p =
        if p ∈ extentBlocks addrTable t then withUseFlag (tableEntry eraseTable p) else tableEntry eraseTable p
  /-- The flags are set in the table that the check leaves. -/
  used : ∀ (idBuf eraseTable : Mem) (k : Nat) (t : Turn), turns[k]? = some t → Intact t →
    (∀ u ∈ turns.take k, readOf Turn.ssdRead u ≠ -9) → ∀ p ∈ extentBlocks addrTable t,
      entryUsed (checkIdFlush Turn.ssdRead addrTable turns idBuf eraseTable).eraseTable p = true

section Kept

variable {addrTable : Mem} {t : Turn}

theorem fateOf_iblock (index : idType t.id = .iblock) :
    fateOf Turn.ssdRead addrTable t = .deleted (ssdRecoverDelete t.delete) := by
  obtain ⟨ret, -⟩ := readOf_eq (ssdRead_iblock index fun _ => 0)
  unfold fateOf
  rw [ret, if_pos (by decide)]

/-- The read of the recovery is the one of the whole id. -/
theorem readOf_dblock (data : idType t.id = .dblock) :
    readOf Turn.ssdRead t = apiValue (t.answer (ownRead t.id)).1 ∧
      dataOf Turn.ssdRead t = (t.answer (ownRead t.id)).2 := by
  have whole : ownRead t.id = ⟨t.id, 1280, 0⟩ := by
    have size : dataSize t.id / ssdPageSize = 1280 := by
      rw [dataSize_eq, data]
      decide
    unfold ownRead
    rw [size]
  rw [whole]
  exact readOf_eq (ssdRead_dblock data fun _ => 0)

theorem fateOf_intact (data : idType t.id = .dblock) (intact : Intact t) :
    fateOf Turn.ssdRead addrTable t =
      if crcBlockHeader < loadInt (t.answer (ownRead t.id)).2 4
        then .marked (extentBlocks addrTable t) else .skipped := by
  obtain ⟨ret, buffer⟩ := readOf_dblock data
  have blocks : extentBlocks addrTable t = correctBlocks addrTable t.logic := by
    unfold extentBlocks correctBlocks
    rw [data]
    rfl
  have fits : loadInt (t.answer (ownRead t.id)).2 4 ≤ btDataSize := by
    have size : dataSize t.id = btDataSize := by
      rw [dataSize_eq, data]
      rfl
    have := intact.fits
    rwa [size] at this
  have length : LengthOk (t.answer (ownRead t.id)).2 ↔ crcBlockHeader < loadInt (t.answer (ownRead t.id)).2 4 :=
    ⟨fun ok => ok.1, fun above => ⟨above, fits⟩⟩
  unfold fateOf
  rw [ret, buffer, intact.reads, if_neg (by decide), blocks]
  by_cases above : crcBlockHeader < loadInt (t.answer (ownRead t.id)).2 4
  · rw [if_neg fun short => short (length.2 above), if_pos intact.crc, if_pos above]
  · rw [if_pos fun ok => above (length.1 ok), if_neg above]

theorem readOf_intact (intact : Intact t) : readOf Turn.ssdRead t ≠ -9 := by
  cases type : idType t.id with
  | iblock =>
      rw [(readOf_eq (ssdRead_iblock type fun _ => 0)).1]
      decide
  | dblock =>
      rw [(readOf_dblock type).1, intact.reads]
      decide

/-- What a check leaves of an id that is reached, and of the table. -/
theorem flush_getElem? (turns : List Turn) (idBuf eraseTable : Mem) (k : Nat) (fate : Fate) :
    (checkIdFlush Turn.ssdRead addrTable turns idBuf eraseTable).fates[k]? = some fate ↔
      ∃ t, (reached Turn.ssdRead turns)[k]? = some t ∧ fateOf Turn.ssdRead addrTable t = fate := by
  rw [checkIdFlush_eq ssdRead_fresh]
  unfold flushOf
  rw [List.getElem?_map, Option.map_eq_some_iff]

/-- The table behind the turn of a good id alone. -/
theorem turn_eraseTable (intact : Intact t) (idBuf eraseTable : Mem) :
    (checkIdFlush Turn.ssdRead addrTable [t] idBuf eraseTable).eraseTable =
      (fateBlocks (fateOf Turn.ssdRead addrTable t)).foldl (fun table i => setEntryUse table i 1) eraseTable := by
  have turn : reached Turn.ssdRead [t] = [t] := reached_cons [] (readOf_intact intact)
  rw [checkIdFlush_eq ssdRead_fresh]
  unfold flushOf
  rw [turn, List.flatMap_singleton]

/-- **Which good ids a recovery keeps**: the ones of 10M, with data behind the header. -/
theorem keepsIntact_iff (addrTable : Mem) (turns : List Turn) :
    KeepsIntact addrTable turns ↔
      ∀ (k : Nat) (t : Turn), turns[k]? = some t → Intact t → (∀ u ∈ turns.take k, readOf Turn.ssdRead u ≠ -9) →
        idType t.id = .dblock ∧ crcBlockHeader < loadInt (t.answer (ownRead t.id)).2 4 := by
  constructor
  · intro keeps k t found intact before
    have turn := (reached_getElem? turns k t).2 ⟨found, before, readOf_intact intact⟩
    have fate := (@flush_getElem? addrTable turns (fun _ => 0) (fun _ => 0) k _).2 ⟨t, turn, rfl⟩
    cases type : idType t.id with
    | iblock => exact absurd (fateOf_iblock type) (keeps.kept _ _ k t _ found intact fate _)
    | dblock =>
        refine ⟨rfl, ?_⟩
        by_contra short
        -- nothing is marked, and the table was empty
        have marks := keeps.marks (fun _ => 0) (fun _ => 0) k t found intact before
          (addrEntryBlock addrTable (t.logic + 0))
        have own : addrEntryBlock addrTable (t.logic + 0) ∈ extentBlocks addrTable t :=
          List.mem_map_of_mem (List.mem_range.2 (idType t.id).size_pos)
        have empty : ∀ i, tableEntry (fun _ => 0) i = 0 := fun i => by simp [tableEntry, getLE]
        rw [turn_eraseTable intact, fateOf_intact type intact, if_neg short, if_pos own] at marks
        simp only [fateBlocks, List.foldl_nil, empty] at marks
        exact absurd marks (by decide)
  · intro sound
    have fates : ∀ {k : Nat} {t : Turn}, turns[k]? = some t → Intact t →
        (∀ u ∈ turns.take k, readOf Turn.ssdRead u ≠ -9) →
        fateOf Turn.ssdRead addrTable t = .marked (extentBlocks addrTable t) := by
      intro k t found intact before
      obtain ⟨data, above⟩ := sound k t found intact before
      rw [fateOf_intact data intact, if_pos above]
    constructor
    · intro idBuf eraseTable k t fate found intact happened ret
      obtain ⟨t1, turn, rfl⟩ := (flush_getElem? turns idBuf eraseTable k fate).1 happened
      obtain ⟨found1, before, -⟩ := (reached_getElem? turns k t1).1 turn
      rw [found, Option.some.injEq] at found1
      subst found1
      rw [fates found intact before]
      exact Fate.noConfusion
    · intro idBuf eraseTable k t found intact before p
      rw [turn_eraseTable intact, fates found intact before, fateBlocks, tableEntry_foldl]
    · intro idBuf eraseTable k t found intact before p own
      have turn := (reached_getElem? turns k t).2 ⟨found, before, readOf_intact intact⟩
      rw [checkIdFlush_eq ssdRead_fresh]
      unfold flushOf
      rw [entryUsed_foldl 1 (by decide), if_pos]
      · rfl
      · refine List.mem_flatMap.2 ⟨t, List.mem_of_getElem? turn, ?_⟩
        rw [fates found intact before]
        exact own

/-- An index id whose data are one byte of 0, with the checksum of that. -/
def indexTurn : Turn where
  id := ⟨0, 0⟩
  logic := 0
  answer _ := (ssdOk, Function.update (fun _ => 0) 4 33)
  delete := ⟨true, 0⟩

theorem indexTurn_intact : Intact indexTurn := by
  have crc : CrcMatches (Function.update (fun _ => 0) 4 33) := by
    unfold CrcMatches
    rw [baiduCrc32Fast_feeds]
    decide +kernel
  exact ⟨rfl, by decide, by decide, crc⟩

/-- The recovery deletes it. -/
theorem index_id_is_deleted : ¬ KeepsIntact (fun _ => 0) [indexTurn] := by
  intro keeps
  have turn := (reached_getElem? [indexTurn] 0 indexTurn).2
    ⟨rfl, fun _ member => absurd member List.not_mem_nil, readOf_intact indexTurn_intact⟩
  have fate := (@flush_getElem? (fun _ => 0) [indexTurn] (fun _ => 0) (fun _ => 0) 0 _).2
    ⟨indexTurn, turn, fateOf_iblock rfl⟩
  exact keeps.kept _ _ 0 indexTurn _ rfl indexTurn_intact fate _ rfl

end Kept

/-! ## The thread of a channel -/

/-- The driver still has the id: no call of `SSD_recover_delete` for it answered 0. -/
def KeepsId (r : Recovery) (id : BlockId) : Prop :=
  ∀ (k : Nat) (t : Turn), r.turns[k]? = some t → t.id = id → (work r).fates[k]? ≠ some (.deleted ssdOk)

/-- No block of an id that is kept is erased, and all are marked in the table handed back. -/
structure SparesKept (r : Recovery) : Prop where
  erased : ∀ t ∈ r.turns, KeepsId r t.id → ∀ p ∈ extentBlocks r.addrTable t, p ∉ (work r).erased
  used : ∀ t ∈ r.turns, KeepsId r t.id → ∀ p ∈ extentBlocks r.addrTable t,
    ∀ table, (work r).written = some table → entryUsed table p = true

/-- The thread ends before it erases anything. -/
def Stops (r : Recovery) : Prop :=
  r.memory = false ∨ r.readErasetable ≠ 0 ∨ r.readAddrtable ≠ 0 ∨ r.unreturned ≠ 0 ∨
    ∃ t ∈ r.turns, readOf Turn.ssdRead t = -9

section Thread

variable {r : Recovery}

theorem addrEntryBlock_lt (table : Mem) (i : Nat) : addrEntryBlock table i < 8192 := Nat.mod_lt _ (by decide)

theorem eraseBlocks_unused {channel : Int} {answer : Nat → OwnRequest} {table : Mem} {blocks : List Nat} {p : Nat}
    (erased : p ∈ (eraseBlocks channel answer table blocks).1) : entryUsed table p = false := by
  induction blocks with
  | nil => exact absurd erased List.not_mem_nil
  | cons i rest ih =>
      unfold eraseBlocks at erased
      split at erased
      · exact ih erased
      split at erased
      · exact ih erased
      · rename_i free
        have unused : entryUsed table i = false := by
          unfold entryUsed
          exact decide_eq_false (by omega)
        dsimp only at erased
        split at erased
        · rw [List.mem_singleton.1 erased]
          exact unused
        · rcases List.mem_cons.1 erased with same | later
          · rw [same]
            exact unused
          · exact ih later

/-- The erase table behind `read_init_table`. -/
def clearedTable (r : Recovery) : Mem := (List.range 8192).foldl (fun table i => setEntryUse table i 0) r.eraseTable

/-- The tables are read, and nothing is behind the missing `return`. -/
def Starts (r : Recovery) : Prop :=
  r.memory = true ∧ r.readErasetable = 0 ∧ r.readAddrtable = 0 ∧ r.unreturned = 0

theorem readInitTable_starts (starts : Starts r) : readInitTable r = (0, clearedTable r) := by
  obtain ⟨-, erase, addr, unreturned⟩ := starts
  unfold readInitTable
  rw [if_neg fun failed => failed erase, if_neg fun failed => failed addr, unreturned]
  rfl

theorem work_starts (starts : Starts r) : work r =
    let checked := flushOf Turn.ssdRead r.addrTable r.turns (clearedTable r)
    if checked.ret ≠ 0 then ⟨checked.fates, [], none, false⟩
    else
      let (erased, ret) := eraseFreeBlock r.channel r.erase checked.eraseTable
      ⟨checked.fates, erased, some checked.eraseTable,
        decide (ret = 0) && decide (ssdUpdateTablesToRam r.channel r.update = 0)⟩ := by
  unfold work
  rw [starts.1, if_neg (by decide), readInitTable_starts starts]
  dsimp only
  rw [if_neg (by decide), checkIdFlush_eq ssdRead_fresh]

theorem work_not_starts (starts : ¬ Starts r) : (work r).erased = [] ∧ (work r).written = none := by
  unfold work
  by_cases memory : r.memory = false
  · rw [if_pos memory]
    exact ⟨rfl, rfl⟩
  · have failed : (readInitTable r).1 ≠ 0 := by
      unfold readInitTable
      split
      · exact (by decide : (-1 : Int) ≠ 0)
      split
      · exact (by decide : (-1 : Int) ≠ 0)
      · rename_i erase addr
        intro unreturned
        exact starts ⟨by simpa using memory, Classical.not_not.1 erase, Classical.not_not.1 addr, unreturned⟩
    rw [if_neg memory]
    dsimp only
    rw [if_pos failed]
    exact ⟨rfl, rfl⟩

theorem stops_iff : Stops r ↔ ¬ Starts r ∨ ∃ t ∈ r.turns, readOf Turn.ssdRead t = -9 := by
  unfold Stops Starts
  rw [← Bool.not_eq_false]
  constructor
  · rintro (memory | erase | addr | unreturned | late)
    · exact .inl fun starts => starts.1 memory
    · exact .inl fun starts => erase starts.2.1
    · exact .inl fun starts => addr starts.2.2.1
    · exact .inl fun starts => unreturned starts.2.2.2
    · exact .inr late
  · rintro (missing | late)
    · apply Classical.byContradiction
      intro none
      simp only [not_or] at none
      exact missing ⟨none.1, Classical.not_not.1 none.2.1, Classical.not_not.1 none.2.2.1,
        Classical.not_not.1 none.2.2.2.1⟩
    · exact .inr (.inr (.inr (.inr late)))

/-- A thread that stops erases nothing and hands nothing back. -/
theorem work_stops (stops : Stops r) : (work r).erased = [] ∧ (work r).written = none := by
  by_cases starts : Starts r
  · obtain ⟨t, member, late⟩ := (stops_iff.1 stops).resolve_left fun missing => missing starts
    have failed : (flushOf Turn.ssdRead r.addrTable r.turns (clearedTable r)).ret ≠ 0 := by
      have any : r.turns.any (fun t => decide (readOf Turn.ssdRead t = -9)) = true :=
        List.any_eq_true.2 ⟨t, member, decide_eq_true late⟩
      unfold flushOf
      rw [any]
      exact (by decide : (-1 : Int) ≠ 0)
    rw [work_starts starts]
    dsimp only
    rw [if_pos failed]
    exact ⟨rfl, rfl⟩
  · exact work_not_starts starts

/-- Every block that the thread marks is marked in the table, and no other. -/
theorem work_runs (runs : ¬ Stops r) : ∃ table,
    (work r).fates = r.turns.map (fateOf Turn.ssdRead r.addrTable) ∧ (work r).written = some table ∧
      (work r).erased = (eraseFreeBlock r.channel r.erase table).1 ∧
      ∀ p < 8192, entryUsed table p = true ↔
        ∃ g ∈ r.turns, GoodData Turn.ssdRead g ∧ p ∈ correctBlocks r.addrTable g.logic := by
  rw [stops_iff, not_or] at runs
  have starts := Classical.not_not.1 runs.1
  have answers : ∀ t ∈ r.turns, readOf Turn.ssdRead t ≠ -9 := fun t member late => runs.2 ⟨t, member, late⟩
  have fine : (flushOf Turn.ssdRead r.addrTable r.turns (clearedTable r)).ret = 0 := by
    have none : r.turns.any (fun t => decide (readOf Turn.ssdRead t = -9)) = false := by
      rw [List.any_eq_false]
      intro t member late
      exact answers t member (of_decide_eq_true late)
    unfold flushOf
    rw [none]
    rfl
  rw [work_starts starts]
  dsimp only
  rw [if_neg fun failed => failed fine]
  refine ⟨_, ?_, rfl, rfl, ?_⟩
  · unfold flushOf
    rw [reached_all answers]
  · intro p small
    have cleared : entryUsed (clearedTable r) p = false := by
      unfold clearedTable
      rw [entryUsed_foldl 0 (by decide), if_pos (List.mem_range.2 small)]
      decide
    unfold flushOf
    rw [entryUsed_foldl 1 (by decide), cleared, reached_all answers]
    simp only [List.mem_flatMap, fateOf_marks, decide_true, Bool.if_false_right, Bool.and_true, decide_eq_true_eq]

/-- **What a recovery spares**: it erases no block of an id that it keeps exactly where it stops before, or
every such block is also one of the five that are marked for an id with good data. -/
theorem sparesKept_iff (r : Recovery) :
    SparesKept r ↔ Stops r ∨
      ∀ t ∈ r.turns, (∀ u ∈ r.turns, u.id = t.id → ¬ Removed Turn.ssdRead u) →
        ∀ p ∈ extentBlocks r.addrTable t,
          ∃ g ∈ r.turns, GoodData Turn.ssdRead g ∧ p ∈ correctBlocks r.addrTable g.logic := by
  by_cases stops : Stops r
  · obtain ⟨erased, written⟩ := work_stops stops
    constructor
    · intro _
      exact .inl stops
    · intro _
      constructor
      · intro t _ _ p _
        rw [erased]
        exact List.not_mem_nil
      · intro t _ _ p _ table handed
        rw [written] at handed
        cases handed
  · obtain ⟨table, fates, written, erased, marks⟩ := work_runs stops
    have small {t : Turn} {p : Nat} (member : p ∈ extentBlocks r.addrTable t) : p < 8192 := by
      obtain ⟨i, -, rfl⟩ := List.mem_map.1 member
      exact addrEntryBlock_lt ..
    have keeps (id : BlockId) : KeepsId r id ↔ ∀ u ∈ r.turns, u.id = id → ¬ Removed Turn.ssdRead u := by
      unfold KeepsId
      rw [fates]
      constructor
      · intro kept u member same removed
        obtain ⟨k, found⟩ := List.mem_iff_getElem?.1 member
        apply kept k u found same
        rw [List.getElem?_map, found, Option.map_some, fateOf_removed.2 removed]
      · intro kept k u found same gone
        rw [List.getElem?_map, found, Option.map_some, Option.some.injEq] at gone
        exact kept u (List.mem_iff_getElem?.2 ⟨k, found⟩) same (fateOf_removed.1 gone)
    constructor
    · intro spares
      apply Or.inr
      intro t member kept p block
      exact (marks p (small block)).1 (spares.used t member ((keeps _).2 kept) p block table written)
    · intro either
      have covered := either.resolve_left stops
      have used (t : Turn) (member : t ∈ r.turns) (kept : KeepsId r t.id) (p : Nat)
          (block : p ∈ extentBlocks r.addrTable t) : entryUsed table p = true :=
        (marks p (small block)).2 (covered t member ((keeps _).1 kept) p block)
      constructor
      · intro t member kept p block
        rw [erased]
        intro wiped
        have unused := eraseBlocks_unused wiped
        rw [used t member kept p block] at unused
        cases unused
      · intro t member kept p block handed same
        rw [written, Option.some.injEq] at same
        rw [← same]
        exact used t member kept p block

/-- A data id whose header states no length, on a card that works. -/
def lengthlessTurn : Turn where
  id := ⟨0, 1⟩
  logic := 0
  answer _ := (ssdOk, fun _ => 0)
  delete := ⟨true, 0⟩

/-- Logic block 0 of the channel is physical block 100. -/
def lengthlessRecovery : Recovery where
  channel := 0
  turns := [lengthlessTurn]
  memory := true
  readErasetable := 0
  eraseTable _ := 0
  readAddrtable := 0
  addrTable := putLE (fun _ => 0) 0 2 100
  unreturned := 0
  erase _ := ⟨true, 0⟩
  update := ⟨true, 0⟩

/-- The id is neither removed nor marked. -/
theorem lengthless_id_is_erased : ¬ SparesKept lengthlessRecovery := by
  intro spares
  obtain ⟨ret, data⟩ := readOf_dblock (t := lengthlessTurn) rfl
  have runs : ¬ Stops lengthlessRecovery := by
    rintro (memory | erase | addr | unreturned | ⟨t, member, late⟩)
    · exact absurd memory (by decide)
    · exact erase rfl
    · exact addr rfl
    · exact unreturned rfl
    · rw [List.mem_singleton.1 member, ret] at late
      exact absurd late (by decide)
  have short : ¬ LengthOk (dataOf Turn.ssdRead lengthlessTurn) := by
    rw [data]
    decide
  obtain ⟨table, fates, written, -, marks⟩ := work_runs runs
  have kept : KeepsId lengthlessRecovery lengthlessTurn.id := by
    intro k t found _ gone
    have only := List.mem_singleton.1 (List.mem_of_getElem? found)
    rw [fates, List.getElem?_map, found, Option.map_some, Option.some.injEq, fateOf_removed, only] at gone
    rcases gone.1 with failed | wrong
    · exact failed ret
    · exact short wrong.1
  have used := spares.used lengthlessTurn (List.mem_singleton_self _) kept 100 (by decide) table written
  obtain ⟨g, member, good, -⟩ := (marks 100 (by decide)).1 used
  rw [List.mem_singleton.1 member] at good
  exact short good.2.1

end Thread

end FpgaSsd.Theory
