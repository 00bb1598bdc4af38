/-
# Theory.Payload — what the record of a flush says about the size of its payload

The payload is the tables of all channels and the ids behind them. `flush_tabledata`
splits its size into blocks and the bytes of the last one, and hands these bytes to
`update_meta` through a parameter of 16 bits.

* `payload_split` — the blocks and the bytes that are computed make up the payload;
* `flushed_used` — what the record keeps of the bytes;
* `describes_iff` — the record describes the payload exactly when the last block is
  begun and holds less than 64 KB.
-/
import FpgaSsd.Theory.FlushRun

namespace FpgaSsd.Theory

open FpgaSsd.Lib FpgaSsd.Driver

set_option autoImplicit false

/-- The record says how many bytes the tables and the entries of `n` ids take. -/
structure Describes (n : Nat) (m : SsdMetadata) : Prop where
  blocks : 1 ≤ m.blockNum.toNat ∧ m.blockNum.toNat ≤ 5
  used : 0 < m.lastBlockUsedBytes.toNat ∧ m.lastBlockUsedBytes.toNat ≤ ssdBlockSize
  ids : m.idNum.toNat = n
  bytes : (m.blockNum.toNat - 1) * ssdBlockSize + m.lastBlockUsedBytes.toNat = 44 * 2 * 16384 + 24 * n

section Payload

variable {n : Nat}

/-- The full blocks and the last one, before they are stored. -/
theorem payload_split (n : Nat) : (tableBlockNum n - 1) * ssdBlockSize +
    lastBlockUsedBytes n = 44 * 2 * 16384 + 24 * n := by
  unfold tableBlockNum lastBlockUsedBytes
  dsimp only
  split <;> split <;> simp only [tabledataBytes, idListOffset, flushIdInfoSize, ssdBlockSize] at * <;> omega

theorem lastBlockUsedBytes_bounds (n : Nat) : 0 < lastBlockUsedBytes n ∧ lastBlockUsedBytes n ≤ ssdBlockSize := by
  unfold lastBlockUsedBytes
  simp only [ssdBlockSize]
  split <;> omega

/-- The parameter of `update_meta` cuts the bytes to 16 bits. -/
theorem flushed_used (type : FlushType) (now : UInt64) (m : SsdMetadata) :
    (flushed n type now m).lastBlockUsedBytes.toNat = lastBlockUsedBytes n % 65536 := by
  simp only [flushed, updateMeta]
  rw [UInt32.toNat_ofNat']
  exact Nat.mod_eq_of_lt ((Nat.mod_lt _ (by decide)).trans (by decide))

theorem flushed_ids (few : n ≤ ssdMaxIdNum) (type : FlushType) (now : UInt64) (m : SsdMetadata) :
    (flushed n type now m).idNum.toNat = n := by
  simp only [flushed, updateMeta]
  rw [UInt32.toNat_ofNat']
  simp only [ssdMaxIdNum] at few
  exact Nat.mod_eq_of_lt (by omega)

/-- What is left of the bytes is all of them only below 64 KB. -/
theorem used_kept (n : Nat) : lastBlockUsedBytes n % 65536 = lastBlockUsedBytes n ↔
    0 < tabledataBytes n % ssdBlockSize ∧ tabledataBytes n % ssdBlockSize < 65536 := by
  unfold lastBlockUsedBytes
  simp only [ssdBlockSize]
  split
  · constructor
    · intro same
      exact absurd same (by decide)
    · intro inside
      omega
  · constructor
    · intro same
      constructor <;> omega
    · intro inside
      exact Nat.mod_eq_of_lt inside.2

theorem flushed_describes (few : n ≤ ssdMaxIdNum) (type : FlushType) (now : UInt64) (m : SsdMetadata) :
    Describes n (flushed n type now m) ↔
      0 < tabledataBytes n % ssdBlockSize ∧ tabledataBytes n % ssdBlockSize < 65536 := by
  have blocks := flushed_blockNum few type now m
  have whole := payload_split n
  rw [← used_kept]
  constructor
  · intro describes
    have bytes := describes.bytes
    rw [blocks, flushed_used, ← whole] at bytes
    exact Nat.add_left_cancel bytes
  · intro kept
    have used := flushed_used (n := n) type now m
    rw [kept] at used
    constructor
    · rw [blocks]
      exact ⟨tableBlockNum_pos n, tableBlockNum_le few⟩
    · rw [used]
      exact lastBlockUsedBytes_bounds n
    · exact flushed_ids few type now m
    · rw [blocks, used]
      exact whole

/-- The record behind a flush that succeeds. -/
theorem flushTabledata_record {type : FlushType} {d d' : Device}
    (run : Run anyOutcome (flushTabledata n type) d ssdOk d') :
    n ≤ ssdMaxIdNum ∧ ∃ m now, d'.metadata = flushed n type now m := by
  have blind : ∀ P, Blind always P := fun _ _ _ _ _ => trivial
  obtain ⟨-, ⟨m, j, off, -, -, -, answer⟩, -⟩ := (flushTabledata_spec (v := view d) n type (blind _) trivial).runs run
  rcases answer with ⟨-, few, -, ⟨now, record⟩, -⟩ | ⟨bad, -⟩
  · exact ⟨few, m, now, record⟩
  · exact absurd rfl bad

/-- **The record describes its payload exactly** when the payload ends behind the start of
its last block, and less than 64 KB behind it. -/
theorem describes_iff (n : Nat) (type : FlushType) (d d' : Device)
    (run : Run anyOutcome (flushTabledata n type) d ssdOk d') :
    Describes n d'.metadata ↔
      0 < tabledataBytes n % ssdBlockSize ∧ tabledataBytes n % ssdBlockSize < 65536 := by
  obtain ⟨few, m, now, record⟩ := flushTabledata_record run
  rw [record]
  exact flushed_describes few type now m

/-- A flush that nothing hinders. -/
theorem exists_flushTabledata (few : n ≤ ssdMaxIdNum) (type : FlushType) :
    ∃ d', Run anyOutcome (flushTabledata n type) emptyDevice ssdOk d' := by
  have flawless : Flawless noFailure := fun _ _ _ => id
  have blind : ∀ P, Blind always P := fun _ _ _ _ _ => trivial
  obtain ⟨ret, d', run, -⟩ := exists_run noFailure_live emptyDevice_mirrors (flushTabledata_locks free_none n type)
  obtain ⟨-, -, fine⟩ := (flushTabledata_spec (v := view emptyDevice) n type (blind _) trivial).runs run
  obtain rfl := fine flawless few
  exact ⟨d', run_any run⟩

/-- **27307 ids** begin a second block with eight bytes. -/
theorem describes_27307 : ∃ d', Run anyOutcome (flushTabledata 27307 .normal) emptyDevice ssdOk d' ∧
    Describes 27307 d'.metadata := by
  obtain ⟨d', run⟩ := exists_flushTabledata (n := 27307) (by decide) .normal
  exact ⟨d', run, (describes_iff 27307 .normal emptyDevice d' run).2 (by decide)⟩

/-- **No ids**: the tables take 22 times 64 KB, and the record says that they take nothing. -/
theorem empty_payload_says_zero : ∃ d', Run anyOutcome (flushTabledata 0 .normal) emptyDevice ssdOk d' ∧
    d'.metadata.lastBlockUsedBytes.toNat = 0 ∧ ¬ Describes 0 d'.metadata := by
  obtain ⟨d', run⟩ := exists_flushTabledata (n := 0) (by decide) .normal
  obtain ⟨few, m, now, record⟩ := flushTabledata_record run
  have zero : d'.metadata.lastBlockUsedBytes.toNat = 0 := by
    rw [record, flushed_used]
    decide
  refine ⟨d', run, zero, fun describes => ?_⟩
  have positive := describes.used.1
  rw [zero] at positive
  exact Nat.lt_irrefl 0 positive

end Payload

end FpgaSsd.Theory
