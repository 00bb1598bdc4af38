/-
# Theory.WriteCheck — what the checksum of a write reads

`SSD_write` sums as many bytes behind the header as the buffer itself says.

* `Summed` — the bytes on which a checksum depends;
* `summed_iff` — they are the ones it is called for, every one of them;
* `asksFor_iff` — the one checksum that `SSD_write` calls;
* `checksOnlyBuffer_iff` — when its bytes lie in the buffer of the caller.
-/
import FpgaSsd.Api.Library
import FpgaSsd.Theory.Checksum

namespace FpgaSsd.Theory

open FpgaSsd.Lib FpgaSsd.Driver FpgaSsd.Api

set_option autoImplicit false

/-! ## The bytes of a sum -/

/-- The result depends on byte `i`. -/
def Summed (sum : Mem → BitVec 32) (i : Nat) : Prop := ∃ m v, sum (Function.update m i v) ≠ sum m

theorem crc32_table (j : Nat) (small : j < 256) :
    crc32 8 0 j = crcFeed crc32cPoly (fun _ => false) 8 (BitVec.ofNat 32 j) := by
  have all : ∀ j < 256, crc32 8 0 j = crcFeed crc32cPoly (fun _ => false) 8 (BitVec.ofNat 32 j) := by
    decide +kernel
  exact all j small

/-- Different bytes leave different registers. -/
theorem crc32_byte_injective (s : BitVec 32) {b b' : Nat} (small : b < 256) (small' : b' < 256)
    (same : crc32 8 s b = crc32 8 s b') : b = b' := by
  have below (j : Nat) : (s.toNat ^^^ j) % 256 < 256 := Nat.mod_lt _ (by decide)
  rw [crc32_byte s b, crc32_byte s b', crc32_table _ (below b), crc32_table _ (below b')] at same
  have entries := crcFeed_injective crc32cPoly (by decide) _ _ (BitVec.xor_left_inj _ |>.1 same)
  have indices : (s.toNat ^^^ b) % 2 ^ 8 = (s.toNat ^^^ b') % 2 ^ 8 := by
    have equal := congrArg BitVec.toNat entries
    simp only [BitVec.toNat_ofNat] at equal
    have := below b
    have := below b'
    omega
  rw [Nat.xor_mod_two_pow, Nat.xor_mod_two_pow, Nat.mod_eq_of_lt (a := b) small,
    Nat.mod_eq_of_lt (a := b') small'] at indices
  exact Nat.xor_right_injective indices

theorem feedBytes_injective (m : Mem) (src n : Nat) : Function.Injective (feedBytes m src n) :=
  crcFeed_injective crc32cPoly (by decide) _ _

theorem feedBytes_summed (src n : Nat) (crc : BitVec 32) (i : Nat) :
    Summed (fun m => feedBytes m src n crc) i ↔ src ≤ i ∧ i < src + n := by
  constructor
  · intro summed
    obtain ⟨m, v, differ⟩ := summed
    apply Classical.byContradiction
    intro outside
    apply differ
    apply feedBytes_congr
    intro j inside
    rw [Function.update_of_ne (by omega)]
  · intro inside
    obtain ⟨k, rfl⟩ := Nat.exists_eq_add_of_le inside.1
    obtain ⟨l, rfl⟩ := Nat.exists_eq_add_of_le (show k + 1 ≤ n by omega)
    refine ⟨fun _ => 0, 1, ?_⟩
    intro same
    -- up to byte `k` the registers agree, there they part, and they do not meet again
    have before : feedBytes (Function.update (fun _ => 0) (src + k) 1) src k crc =
        feedBytes (fun _ => 0) src k crc := by
      apply feedBytes_congr
      intro j small
      rw [Function.update_of_ne (by omega)]
    have behind (s : BitVec 32) : feedBytes (Function.update (fun _ => 0) (src + k) 1) (src + k + 1) l s =
        feedBytes (fun _ => 0) (src + k + 1) l s := by
      apply feedBytes_congr
      intro j _
      rw [Function.update_of_ne (by omega)]
    have parted := same
    simp only [Nat.add_assoc k 1 l, feedBytes_add, before, behind, feedBytes_one, Function.update_self] at parted
    exact absurd (crc32_byte_injective _ (by decide) (by decide) (feedBytes_injective _ _ _ parted)) (by decide)

/-- **The bytes of a sum** are the ones it is called for, and every one of them. -/
theorem summed_iff (src length : Nat) (crc : BitVec 32) (i : Nat) :
    Summed (fun m => baiduCrc32Fast m src crc length ssdCrcTable) i ↔ src ≤ i ∧ i < src + length := by
  simp only [baiduCrc32Fast_feeds]
  exact feedBytes_summed src length crc i

/-! ## The check of a write -/

/-- The length that a buffer states. -/
def statedLength (buffer : Mem) : Int := loadInt buffer 4

/-- The library with its check enabled. -/
def checkingWith (crc : Mem → Nat → Nat → Nat) : Library := ⟨true, true, crc⟩

/-- The same with the checksum of `bhp-lib.h`. -/
def checkingLibrary : Library :=
  checkingWith fun buffer src length => (baiduCrc32Fast buffer src 0 length ssdCrcTable).toNat

/-- `SSD_write` calls the checksum for `length` bytes from `src` on: what it does depends on
the answer to this call. -/
def AsksFor (id : BlockId) (buffer : Mem) (count src length : Nat) : Prop :=
  ∃ crc crc' : Mem → Nat → Nat → Nat, (∀ m s n, (s, n) ≠ (src, length) → crc' m s n = crc m s n) ∧
    ssdWrite (checkingWith crc') id (some buffer) count ≠ ssdWrite (checkingWith crc) id (some buffer) count

/-- What a write sums lies in the buffer of `count` bytes, and an impossible length is rejected. -/
structure ChecksOnlyBuffer (id : BlockId) (buffer : Mem) (count : Nat) : Prop where
  inside : ∀ src length, AsksFor id buffer count src length → ∀ i,
    Summed (fun m => baiduCrc32Fast m src 0 length ssdCrcTable) i → i < count
  rejects : getLE buffer 0 4 ≠ 0 → statedLength buffer < crcBlockHeader ∨ (count : Int) < statedLength buffer →
    ssdWrite checkingLibrary id (some buffer) count = pure (apiValue errCrc)

theorem dataSize_small (id : BlockId) : dataSize id < 2 ^ 31 := by
  unfold dataSize
  split <;> decide

/-- A length is possible exactly when the bytes that are summed for it fit. -/
theorem sumLength_fits {n count : Nat} (word : n < 2 ^ 32) (small : count < 2 ^ 31) (header : crcBlockHeader ≤ count) :
    crcBlockHeader + sumLength n ≤ count ↔
      (crcBlockHeader : Int) ≤ Int.bmod n (2 ^ 32) ∧ Int.bmod n (2 ^ 32) ≤ count := by
  simp only [sumLength, crcBlockHeader, Int.bmod] at *
  split <;> omega

section Write

variable {id : BlockId} {buffer : Mem} {crc : Mem → Nat → Nat → Nat}

/-- The request of a write that passes the check. -/
def writeRequest (id : BlockId) (buffer : Mem) : Drv Int := do
  let (ret, _) ← ssdBlockIoctl (.write ⟨id, buffer, dataSize id / ssdBlockSize⟩)
  pure (if ret = ssdOk then ssdOk else apiValue ret)

/-- What `SSD_write` does with the size of its id. -/
theorem ssdWrite_checking : ssdWrite (checkingWith crc) id (some buffer) (dataSize id) =
    if getLE buffer 0 4 = 0 ∨ crc buffer crcBlockHeader (sumLength (getLE buffer 4 4)) = getLE buffer 0 4 then
      writeRequest id buffer
    else pure (apiValue errCrc) := by
  have passes : (checkingWith crc).crcOk buffer = decide (getLE buffer 0 4 = 0 ∨
      crc buffer crcBlockHeader (sumLength (getLE buffer 4 4)) = getLE buffer 0 4) := by
    simp only [Library.crcOk, checkingWith, Bool.not_true, Bool.false_or, Bool.decide_or]
    rfl
  unfold ssdWrite
  rw [if_neg (by simp only [checkingWith]; decide), if_neg (not_not.2 rfl)]
  dsimp only
  rw [passes]
  by_cases fine : getLE buffer 0 4 = 0 ∨ crc buffer crcBlockHeader (sumLength (getLE buffer 4 4)) = getLE buffer 0 4
  · rw [if_pos fine, decide_eq_true fine, if_neg (by decide)]
    rfl
  · rw [if_neg fine, decide_eq_false fine, if_pos rfl]

/-- A request is no answer. -/
theorem writeRequest_ne (value : Int) : writeRequest id buffer ≠ pure value := nofun

/-- **The one checksum** that a write calls: behind the header, as long as the buffer says. -/
theorem asksFor_iff (src length : Nat) : AsksFor id buffer (dataSize id) src length ↔
    getLE buffer 0 4 ≠ 0 ∧ src = crcBlockHeader ∧ length = sumLength (getLE buffer 4 4) := by
  constructor
  · rintro ⟨crc, crc', same, differ⟩
    rw [ssdWrite_checking, ssdWrite_checking] at differ
    refine ⟨fun none => differ ?_, ?_⟩
    · rw [if_pos (.inl none), if_pos (.inl none)]
    · by_contra other
      have elsewhere : (crcBlockHeader, sumLength (getLE buffer 4 4)) ≠ (src, length) := by
        rintro ⟨⟩
        exact other ⟨rfl, rfl⟩
      rw [same buffer _ _ elsewhere] at differ
      exact differ rfl
  · rintro ⟨stored, rfl, rfl⟩
    -- one answer is the stored checksum, the other is not
    refine ⟨fun _ _ _ => getLE buffer 0 4, fun _ s n =>
      if (s, n) = (crcBlockHeader, sumLength (getLE buffer 4 4)) then getLE buffer 0 4 + 1 else getLE buffer 0 4,
      fun _ s n other => if_neg other, ?_⟩
    have refused : ¬ (getLE buffer 0 4 = 0 ∨ getLE buffer 0 4 + 1 = getLE buffer 0 4) := by omega
    rw [ssdWrite_checking, ssdWrite_checking, if_pos rfl, if_neg refused, if_pos (.inr rfl)]
    exact fun same => writeRequest_ne _ same.symm

end Write

/-- **The check of a write** reads the buffer alone exactly where there is no checksum, or the stated length
lies between the header and the buffer. -/
theorem checksOnlyBuffer_iff (id : BlockId) (buffer : Mem) :
    ChecksOnlyBuffer id buffer (dataSize id) ↔
      getLE buffer 0 4 = 0 ∨ crcBlockHeader ≤ statedLength buffer ∧ statedLength buffer ≤ dataSize id := by
  have word : getLE buffer 4 4 < 2 ^ 32 := getLE_lt buffer 4 4
  have header : crcBlockHeader ≤ dataSize id := by
    unfold dataSize
    split <;> decide
  have fits := sumLength_fits word (dataSize_small id) header
  constructor
  · intro only
    by_cases none : getLE buffer 0 4 = 0
    · exact .inl none
    · apply Or.inr
      apply fits.1
      -- the last byte that is summed has to lie inside
      by_cases empty : sumLength (getLE buffer 4 4) = 0
      · omega
      · have asks : AsksFor id buffer (dataSize id) crcBlockHeader (sumLength (getLE buffer 4 4)) :=
          (asksFor_iff ..).2 ⟨none, rfl, rfl⟩
        have last := only.inside _ _ asks (crcBlockHeader + sumLength (getLE buffer 4 4) - 1)
          ((summed_iff ..).2 (by omega))
        omega
  · intro either
    constructor
    · intro src length asks i summed
      obtain ⟨stored, rfl, rfl⟩ := (asksFor_iff ..).1 asks
      have possible := either.resolve_left stored
      have end_inside := fits.2 possible
      have := (summed_iff ..).1 summed
      omega
    · intro stored impossible
      have possible := either.resolve_left stored
      omega

/-- A checksum of 1 over a length of 0: four gigabytes are summed. -/
theorem zero_length_is_summed :
    ¬ ChecksOnlyBuffer ⟨0, 0⟩ (Function.update (fun _ => 0) 0 1) (dataSize ⟨0, 0⟩) := by
  intro only
  have asks : AsksFor ⟨0, 0⟩ (Function.update (fun _ => 0) 0 1) (dataSize ⟨0, 0⟩) 32 4294967264 :=
    (asksFor_iff ..).2 ⟨by decide, rfl, by decide⟩
  have far := only.inside _ _ asks (2 ^ 31) ((summed_iff ..).2 (by decide))
  exact absurd far (by decide)

end FpgaSsd.Theory
