/-
# Theory.Decoding — what the interrupt handler makes of its registers

The handler walks the pending word and the status word of a chip in step, but a channel
that it leaves with `continue` does not move the status word on. So the field that a
channel is given is its own only when no such channel stands before it.

* `serveChip_served`, `ssdInterruptChips_channel` — the field that every channel is
  given: that of the channel as many places before it as channels were left;
* `decodes_iff_ownFields` — the registers are decoded as they should be if and only if
  the fields that can be mixed up are equal (`OwnFields`).
-/
import FpgaSsd.Driver.Interrupt
import Mathlib.Data.Nat.Count

namespace FpgaSsd.Theory

open FpgaSsd.Driver

set_option autoImplicit false

/-! ## Bits -/

section Bits

/-- The error bit of chip `i`. -/
def ErrorBit (pending : BitVec 64) (i : Nat) : Prop := pending.getLsbD (16 * i + 15) = true

/-- The bit of channel `j` of chip `i`. -/
def PendingBit (pending : BitVec 64) (i j : Nat) : Prop := pending.getLsbD (16 * i + 14 - j) = true

instance (pending : BitVec 64) (i : Nat) : Decidable (ErrorBit pending i) :=
  inferInstanceAs (Decidable (_ = _))

instance (pending : BitVec 64) (i : Nat) : DecidablePred (PendingBit pending i) :=
  fun _ => inferInstanceAs (Decidable (_ = _))

/-- The field of channel `j` in a status word. -/
def statusField (status : BitVec 64) (j : Nat) : Nat := ((status >>> (5 * j)) &&& 0x1f).toNat

theorem statusField_succ (status : BitVec 64) (j : Nat) :
    statusField (status >>> 5) j = statusField status (j + 1) := by
  simp only [statusField, ← BitVec.shiftRight_add]
  rw [show 5 + 5 * j = 5 * (j + 1) by omega]

theorem statusField_zero (status : BitVec 64) : (status &&& 0x1f).toNat = statusField status 0 := by
  simp only [statusField, Nat.mul_zero, BitVec.ushiftRight_zero]

variable {w : BitVec 16}

theorem neg_iff : w.toInt < 0 ↔ w.getLsbD 15 = true := by
  have top : w.msb = w.getLsbD 15 := BitVec.msb_eq_getLsbD_last w
  rw [← top, BitVec.msb_eq_toInt]
  simp

theorem shift_bit {k : Nat} (below : k < 15) : (w <<< 1).getLsbD (k + 1) = w.getLsbD k := by
  simp [BitVec.getLsbD_shiftLeft]
  omega

theorem zero_bit (zero : w = 0) (k : Nat) : w.getLsbD k = false := by
  subst zero
  simp

theorem zero_iff : w = 0 ↔ ¬ w.toInt < 0 ∧ ¬ 0 < w.toInt := by
  constructor
  · rintro rfl
    decide
  · rintro ⟨low, high⟩
    apply BitVec.eq_of_toInt_eq
    rw [show (0 : BitVec 16).toInt = 0 by decide]
    omega

end Bits

/-! ## The two loops -/

/-- The control block of a channel, and whether its completion was completed. -/
def channelOf (s : Irq) (c : Nat) : ChannelCtl × Bool := (s.ctl c, s.woken c)

theorem take_same (s : Irq) (failed : Bool) (field c : Nat) :
    channelOf (s.take failed field c) c = ssdInterrupt failed field (s.ctl c) := by
  simp only [channelOf, Irq.take, Function.update_self]

theorem take_other (s : Irq) (failed : Bool) (field : Nat) {c c' : Nat} (apart : c' ≠ c) :
    channelOf (s.take failed field c) c' = channelOf s c' := by
  simp only [channelOf, Irq.take, Function.update_of_ne apart]

theorem ssdInterrupt_ok (a b : Nat) (c : ChannelCtl) : ssdInterrupt false a c = ssdInterrupt false b c := by
  simp only [ssdInterrupt, Bool.false_eq_true, if_false]

/-- The loop of chip `i` has gone over the `n` channels from `j` on: those with `bit` were
given their `field`. -/
structure Served (s s' : Irq) (i j n : Nat) (failed : Bool) (bit : Nat → Bool) (field : Nat → Nat) :
    Prop where
  inside : ∀ m < n, channelOf s' (j + m + i * 11) =
    if bit m then ssdInterrupt failed (field m) (s.ctl (j + m + i * 11))
    else channelOf s (j + m + i * 11)
  outside : ∀ c, c < j + i * 11 ∨ j + n + i * 11 ≤ c → channelOf s' c = channelOf s c

section Loops

variable {i j n : Nat} {failed : Bool} {bit : Nat → Bool} {field : Nat → Nat} {s s₁ s' : Irq}

theorem Served.none (clear : ∀ m < n, bit m = false) : Served s s i j n failed bit field := by
  constructor
  · intro m inside
    rw [clear m inside, if_neg (by decide)]
  · intro _ _
    rfl

theorem Served.cons (first : channelOf s₁ (j + i * 11) =
      if bit 0 then ssdInterrupt failed (field 0) (s.ctl (j + i * 11)) else channelOf s (j + i * 11))
    (others : ∀ c, c ≠ j + i * 11 → channelOf s₁ c = channelOf s c)
    (rest : Served s₁ s' i (j + 1) n failed (fun m => bit (m + 1)) (fun m => field (m + 1))) :
    Served s s' i j (n + 1) failed bit field := by
  constructor
  · intro m inside
    cases m with
    | zero => rw [rest.outside _ (.inl (by omega)), Nat.add_zero, first]
    | succ m =>
        have here := others (j + 1 + m + i * 11) (by omega)
        have later := rest.inside m (by omega)
        rw [here, show s₁.ctl (j + 1 + m + i * 11) = s.ctl (j + 1 + m + i * 11) from
          congrArg Prod.fst here] at later
        rwa [show j + (m + 1) = j + 1 + m by omega]
  · intro c apart
    rw [rest.outside c (by omega), others c (by omega)]

/-- The bits of a word that is shifted are those behind the first. -/
theorem bits_succ {w : BitVec 16} (short : n + 1 ≤ 11) :
    ∀ m < n, (w <<< 1).getLsbD (14 - m) = w.getLsbD (14 - (m + 1)) := by
  intro m inside
  rw [show 14 - m = 14 - (m + 1) + 1 by omega, shift_bit (by omega)]

theorem Served.congr {bit' : Nat → Bool} {field' : Nat → Nat}
    (served : Served s s' i j n failed bit field) (bits : ∀ m < n, bit m = bit' m)
    (fields : ∀ m < n, field m = field' m) : Served s s' i j n failed bit' field' := by
  refine ⟨fun m inside => ?_, served.outside⟩
  rw [← bits m inside, ← fields m inside]
  exact served.inside m inside

/-- Without an error the fields do not matter. -/
theorem Served.ok (served : Served s s' i j n false bit field) (field' : Nat → Nat) :
    Served s s' i j n false bit field' := by
  refine ⟨fun m inside => ?_, served.outside⟩
  rw [served.inside m inside, ssdInterrupt_ok (field m) (field' m)]

/-- The channels of a chip without an error are given nothing of the status. -/
theorem okLoop_served (i n : Nat) : ∀ (j : Nat) (w : BitVec 16) (s : Irq), n ≤ 11 →
    Served s (okLoop i n j w s) i j n false (fun m => w.getLsbD (14 - m)) (fun _ => 0) := by
  induction n with
  | zero => exact fun _ _ _ _ => Served.none fun m inside => absurd inside (Nat.not_lt_zero m)
  | succ n ih =>
      intro j w s short
      have next := fun s₁ => (ih (j + 1) (w <<< 1) s₁ (by omega)).congr (bits_succ short) fun _ _ => rfl
      have top : (w <<< 1).getLsbD 15 = w.getLsbD 14 := shift_bit (by decide)
      rw [okLoop]
      split
      · rename_i set
        rw [neg_iff, top] at set
        apply Served.cons _ _ (next _)
        · simp only [set, Nat.sub_zero, if_true, take_same]
        · exact fun c apart => take_other _ _ _ apart
      rename_i clear
      have unset : w.getLsbD 14 = false :=
        Bool.eq_false_iff.2 fun set => clear (neg_iff.2 (top.trans set))
      split
      · apply Served.cons _ _ (next _)
        · simp only [unset, Nat.sub_zero, Bool.false_eq_true, if_false]
        · exact fun _ _ => rfl
      · rename_i low
        have zero := zero_iff.2 ⟨clear, low⟩
        apply Served.none
        intro m inside
        cases m with
        | zero => exact unset
        | succ m => rw [← bits_succ short m (by omega), zero_bit zero]

/-- The channels of a failing chip that are left before channel `m`. -/
def leftBefore (bit : Nat → Bool) (ctl : Nat → ChannelCtl) (m : Nat) : Nat :=
  Nat.count (fun k => bit k = true ∧ (ctl k).Skipped) m

theorem leftBefore_le (bit : Nat → Bool) (ctl : Nat → ChannelCtl) (m : Nat) : leftBefore bit ctl m ≤ m :=
  Nat.count_le _

theorem leftBefore_succ (bit : Nat → Bool) (ctl : Nat → ChannelCtl) (m : Nat) :
    leftBefore bit ctl (m + 1) = leftBefore (fun k => bit (k + 1)) (fun k => ctl (k + 1)) m +
      if bit 0 = true ∧ (ctl 0).Skipped then 1 else 0 := Nat.count_succ' ..

theorem leftBefore_congr {bit bit' : Nat → Bool} {ctl ctl' : Nat → ChannelCtl} {m : Nat}
    (bits : ∀ k < m, bit k = bit' k) (same : ∀ k < m, ctl k = ctl' k) :
    leftBefore bit ctl m = leftBefore bit' ctl' m := by
  induction m with
  | zero => rfl
  | succ m ih =>
      have before := ih (fun k inside => bits k (by omega)) fun k inside => same k (by omega)
      simp only [leftBefore] at before ⊢
      simp only [Nat.count_succ, before, bits m (by omega), same m (by omega)]

/-- The channels of a chip with an error are given the fields in their turn. -/
theorem failLoop_served (i n : Nat) : ∀ (j : Nat) (w : BitVec 16) (status : BitVec 64) (s : Irq), n ≤ 11 →
    Served s (failLoop i n j w status s) i j n true (fun m => w.getLsbD (14 - m))
      (fun m => statusField status
        (m - leftBefore (fun k => w.getLsbD (14 - k)) (fun k => s.ctl (j + k + i * 11)) m)) := by
  induction n with
  | zero => exact fun _ _ _ _ _ => Served.none fun m inside => absurd inside (Nat.not_lt_zero m)
  | succ n ih =>
      intro j w status s short
      have top : (w <<< 1).getLsbD 15 = w.getLsbD 14 := shift_bit (by decide)
      rw [failLoop]
      split
      · exact Served.none fun m inside => zero_bit ‹_› _
      -- the rest of the loop, behind a state that differs at channel `j` only
      have rest : ∀ (s₁ : Irq) (status₁ : BitVec 64),
          (∀ c, c ≠ j + i * 11 → channelOf s₁ c = channelOf s c) →
          (∀ m < n, statusField status₁
            (m - leftBefore (fun k => w.getLsbD (14 - (k + 1))) (fun k => s.ctl (j + (k + 1) + i * 11)) m) =
            statusField status (m + 1 -
              leftBefore (fun k => w.getLsbD (14 - k)) (fun k => s.ctl (j + k + i * 11)) (m + 1))) →
          Served s₁ (failLoop i n (j + 1) (w <<< 1) status₁ s₁) i (j + 1) n true
            (fun m => w.getLsbD (14 - (m + 1)))
            (fun m => statusField status (m + 1 -
              leftBefore (fun k => w.getLsbD (14 - k)) (fun k => s.ctl (j + k + i * 11)) (m + 1))) := by
        intro s₁ status₁ others fields
        refine (ih (j + 1) (w <<< 1) status₁ s₁ (by omega)).congr (bits_succ short) fun m inside => ?_
        rw [← fields m inside]
        have turn : leftBefore (fun k => (w <<< 1).getLsbD (14 - k)) (fun k => s₁.ctl (j + 1 + k + i * 11)) m =
            leftBefore (fun k => w.getLsbD (14 - (k + 1))) (fun k => s.ctl (j + (k + 1) + i * 11)) m := by
          apply leftBefore_congr
          · exact fun k below => bits_succ short k (by omega)
          · intro k _
            rw [show j + (k + 1) = j + 1 + k by omega]
            exact congrArg Prod.fst (others (j + 1 + k + i * 11) (by omega))
        simp only [turn]
      have bound : ∀ m, leftBefore (fun k => w.getLsbD (14 - (k + 1)))
          (fun k => s.ctl (j + (k + 1) + i * 11)) m ≤ m := fun m => leftBefore_le _ _ m
      have succ := leftBefore_succ (fun k => w.getLsbD (14 - k)) (fun k => s.ctl (j + k + i * 11))
      simp only [Nat.sub_zero, Nat.add_zero] at succ
      simp only
      split
      · rename_i set
        rw [neg_iff, top] at set
        have first : channelOf (s.take true (status &&& 0x1f).toNat (j + i * 11)) (j + i * 11) =
            if w.getLsbD (14 - 0) = true then ssdInterrupt true (statusField status
              (0 - leftBefore (fun k => w.getLsbD (14 - k)) (fun k => s.ctl (j + k + i * 11)) 0))
              (s.ctl (j + i * 11)) else channelOf s (j + i * 11) := by
          rw [take_same, Nat.sub_zero, if_pos set, Nat.zero_sub, statusField_zero]
        split
        · rename_i skipped
          refine Served.cons first (fun c apart => take_other _ _ _ apart)
            (rest _ _ (fun c apart => take_other _ _ _ apart) fun m inside => ?_)
          rw [succ m, if_pos ⟨set, skipped⟩, Nat.add_sub_add_right]
        · rename_i kept
          refine Served.cons first (fun c apart => take_other _ _ _ apart)
            (rest _ _ (fun c apart => take_other _ _ _ apart) fun m inside => ?_)
          rw [succ m, if_neg fun both => kept both.2, Nat.add_zero (leftBefore _ _ m),
            statusField_succ, Nat.sub_add_comm (bound m)]
      · rename_i clear
        have unset : ¬ w.getLsbD 14 = true := fun set => clear (neg_iff.2 (top.trans set))
        refine Served.cons ?_ (fun _ _ => rfl) (rest _ _ (fun _ _ => rfl) fun m inside => ?_)
        · rw [Nat.sub_zero, if_neg unset]
        · rw [succ m, if_neg fun both => unset both.1, Nat.add_zero (leftBefore _ _ m),
            statusField_succ, Nat.sub_add_comm (bound m)]

end Loops

/-! ## The card -/

section Card

variable {pending : BitVec 64} {status : Nat → BitVec 64} {i j : Nat}

/-- The channels of chip `i` that are left before its channel `j`. -/
def turnsLost (pending : BitVec 64) (ctl : Nat → ChannelCtl) (i j : Nat) : Nat :=
  leftBefore (fun k => decide (PendingBit pending i k)) (fun k => ctl (k + i * 11)) j

/-- What the handler does on channel `j` of chip `i`. -/
def given (pending : BitVec 64) (status : Nat → BitVec 64) (ctl : Nat → ChannelCtl) (i j : Nat) :
    ChannelCtl × Bool :=
  if PendingBit pending i j then
    ssdInterrupt (decide (ErrorBit pending i))
      (statusField (status i) (j - turnsLost pending ctl i j)) (ctl (j + i * 11))
  else (ctl (j + i * 11), false)

theorem chip_bit (i : Nat) {k : Nat} (inside : k < 16) :
    ((pending >>> (i * 16)).setWidth 16).getLsbD k = pending.getLsbD (16 * i + k) := by
  simp only [BitVec.getLsbD_setWidth, BitVec.getLsbD_ushiftRight, inside, decide_true, Bool.true_and,
    Nat.mul_comm]

theorem chip_pending (i : Nat) : ∀ m < 11, ((pending >>> (i * 16)).setWidth 16).getLsbD (14 - m) =
    decide (PendingBit pending i m) := by
  intro m inside
  rw [Bool.eq_iff_iff, decide_eq_true_iff, chip_bit i (by omega),
    show 16 * i + (14 - m) = 16 * i + 14 - m by omega]
  rfl

theorem chip_error :
    ((pending >>> (i * 16)).setWidth 16).toInt < 0 ↔ ErrorBit pending i := by
  rw [neg_iff, chip_bit i (by decide)]
  rfl

/-- What a served channel has been given. -/
theorem Served.given {s s' : Irq} {failed : Bool} {word : BitVec 64}
    (served : Served s s' i 0 11 failed (fun m => ((pending >>> (i * 16)).setWidth 16).getLsbD (14 - m))
      (fun m => statusField word (m - turnsLost pending s.ctl i m)))
    (fresh : ∀ j < 11, s.woken (j + i * 11) = false) (error : failed = decide (ErrorBit pending i))
    (same : word = status i) :
    ∀ j < 11, channelOf s' (j + i * 11) = given pending status s.ctl i j := by
  intro j inside
  have here := served.inside j inside
  rw [chip_pending i j inside, Nat.zero_add] at here
  rw [here, FpgaSsd.Theory.given, error, same]
  by_cases set : PendingBit pending i j
  · rw [if_pos (decide_eq_true set), if_pos set]
  · rw [if_neg (by simpa using set), if_neg set, channelOf, fresh j inside]

/-- A chip serves its own channels. -/
theorem serveChip_served (s : Irq) (i : Nat) (fresh : ∀ j < 11, s.woken (j + i * 11) = false) :
    (∀ j < 11, channelOf (serveChip pending status s i) (j + i * 11) = given pending status s.ctl i j) ∧
      ∀ c, c < i * 11 ∨ i * 11 + 11 ≤ c → channelOf (serveChip pending status s i) c = channelOf s c := by
  have turns : ∀ m < 11, leftBefore (fun k => ((pending >>> (i * 16)).setWidth 16).getLsbD (14 - k))
      (fun k => s.ctl (0 + k + i * 11)) m = turnsLost pending s.ctl i m := by
    intro m inside
    apply leftBefore_congr
    · exact fun k below => chip_pending i k (by omega)
    · intro k _
      rw [Nat.zero_add]
  simp only [serveChip]
  split
  · rename_i positive
    have noError : ¬ ErrorBit pending i := fun set => by
      have := chip_error.2 set
      omega
    have served := (okLoop_served i 11 0 ((pending >>> (i * 16)).setWidth 16) s (by decide)).ok
      fun m => statusField (status i) (m - turnsLost pending s.ctl i m)
    refine ⟨served.given fresh (decide_eq_false noError).symm rfl, fun c apart => served.outside c ?_⟩
    omega
  split
  · rename_i negative
    have served := failLoop_served i 11 0 ((pending >>> (i * 16)).setWidth 16) (status i) { s with
      localBusError := if s.localBusError = 0 then status i >>> 60 &&& 0xf else s.localBusError }
      (by decide)
    have served := served.congr (fun _ _ => rfl) fun m inside => congrArg
      (fun k => statusField (status i) (m - k)) (turns m inside)
    have error := (decide_eq_true (chip_error.1 negative)).symm
    refine ⟨served.given fresh error rfl, fun c apart => served.outside c ?_⟩
    omega
  · rename_i low high
    have zero := zero_iff.2 ⟨high, low⟩
    refine ⟨fun j inside => ?_, fun _ _ => rfl⟩
    have clear : ¬ PendingBit pending i j := by
      have bit := @chip_pending pending i j inside
      rw [zero_bit zero] at bit
      exact of_decide_eq_false bit.symm
    rw [FpgaSsd.Theory.given, if_neg clear, channelOf, fresh j inside]

theorem turnsLost_congr {ctl ctl' : Nat → ChannelCtl} (same : ∀ k < j, ctl (k + i * 11) = ctl' (k + i * 11)) :
    turnsLost pending ctl i j = turnsLost pending ctl' i j :=
  leftBefore_congr (fun _ _ => rfl) same

theorem given_congr {ctl ctl' : Nat → ChannelCtl} (same : ∀ k ≤ j, ctl (k + i * 11) = ctl' (k + i * 11)) :
    given pending status ctl i j = given pending status ctl' i j := by
  rw [given, given, same j le_rfl, turnsLost_congr fun k below => same k (by omega)]

/-- After `n` chips the channels of these are served, and the others are as they were. -/
theorem chips_served (ctl : Nat → ChannelCtl) (e : BitVec 64) (n : Nat) :
    (∀ i < n, ∀ j < 11, channelOf ((List.range n).foldl (serveChip pending status)
      ⟨ctl, fun _ => false, e⟩) (j + i * 11) = given pending status ctl i j) ∧
      ∀ c, n * 11 ≤ c → channelOf ((List.range n).foldl (serveChip pending status)
        ⟨ctl, fun _ => false, e⟩) c = (ctl c, false) := by
  induction n with
  | zero => exact ⟨fun i none => absurd none (Nat.not_lt_zero i), fun _ _ => rfl⟩
  | succ n ih =>
      obtain ⟨before, behind⟩ := ih
      rw [List.range_succ, List.foldl_append, List.foldl_cons, List.foldl_nil]
      generalize (List.range n).foldl (serveChip pending status) ⟨ctl, fun _ => false, e⟩ = s at before behind
      have fresh : ∀ j < 11, s.woken (j + n * 11) = false := fun j _ =>
        congrArg Prod.snd (behind (j + n * 11) (by omega))
      obtain ⟨own, others⟩ := @serveChip_served pending status s n fresh
      constructor
      · intro i inside j below
        rcases Nat.lt_succ_iff_lt_or_eq.1 inside with earlier | rfl
        · rw [others _ (by omega), before i earlier j below]
        · rw [own j below]
          exact given_congr fun k _ => congrArg Prod.fst (behind (k + i * 11) (by omega))
      · intro c outside
        rw [others c (by omega), behind c (by omega)]

/-- **Every channel is given a field**: its own, or that of a channel before it. -/
theorem ssdInterruptChips_channel (ctl : Nat → ChannelCtl) (e : BitVec 64) (inChips : i < ssdS6Nums)
    (inChip : j < ssdChannelsInS6) :
    channelOf (ssdInterruptChips pending status ctl e) (j + i * 11) = given pending status ctl i j :=
  (chips_served ctl e 4).1 i inChips j inChip

end Card

/-! ## The exact condition -/

/-- A timer that fires still. -/
def Armed (c : ChannelCtl) : Prop := c.timerFunction = true ∧ c.timerPending = true

/-- A data command is out, its request waits, and the timer has not fired. -/
structure DataWaiting (c : ChannelCtl) : Prop where
  data : c.errorRam ≠ ramPending
  inTime : c.errors ≠ -errTimeout
  waiting : c.waiting = true

/-- The registers are decoded as they should be. -/
structure Decoded (pending : BitVec 64) (status : Nat → BitVec 64) (ctl : Nat → ChannelCtl)
    (e : BitVec 64) : Prop where
  succeeds : ∀ i < ssdS6Nums, ∀ j < ssdChannelsInS6, PendingBit pending i j → ¬ ErrorBit pending i →
    DataWaiting (ctl (j + i * 11)) → Armed (ctl (j + i * 11)) →
      let s := ssdInterruptChips pending status ctl e
      (s.ctl (j + i * 11)).errors = ssdOk ∧ s.woken (j + i * 11) = true
  fails : ∀ i < ssdS6Nums, ∀ j < ssdChannelsInS6, PendingBit pending i j → ErrorBit pending i →
    DataWaiting (ctl (j + i * 11)) →
      let s := ssdInterruptChips pending status ctl e
      (s.ctl (j + i * 11)).errors = statusField (status i) j * 128 ∧ s.woken (j + i * 11) = true
  ramTable : ∀ i < ssdS6Nums, ∀ j < ssdChannelsInS6, PendingBit pending i j →
    (ctl (j + i * 11)).errorRam = ramPending →
      ((ssdInterruptChips pending status ctl e).ctl (j + i * 11)).errorRam = ssdOk →
        statusField (status i) j = 0
  untouched : ∀ i < ssdS6Nums, ∀ j < ssdChannelsInS6, ¬ PendingBit pending i j →
    (ssdInterruptChips pending status ctl e).ctl (j + i * 11) = ctl (j + i * 11)
  independent : ∀ i < ssdS6Nums, ∀ j < ssdChannelsInS6, ∀ ctl' e',
    ctl' (j + i * 11) = ctl (j + i * 11) →
      channelOf (ssdInterruptChips pending status ctl' e') (j + i * 11) =
        channelOf (ssdInterruptChips pending status ctl e) (j + i * 11)

/-- The fields that a channel can be given are its own, and a RAM-table command that is
over has no error. -/
def OwnFields (pending : BitVec 64) (status : Nat → BitVec 64) (ctl : Nat → ChannelCtl) : Prop :=
  ∀ i < ssdS6Nums, ∀ j < ssdChannelsInS6, PendingBit pending i j →
    ((ctl (j + i * 11)).errorRam = ramPending → statusField (status i) j = 0) ∧
    (ErrorBit pending i → ¬ (ctl (j + i * 11)).Skipped →
      ∀ k ≤ Nat.count (PendingBit pending i) j, statusField (status i) (j - k) = statusField (status i) j)

section Exact

variable {pending : BitVec 64} {status : Nat → BitVec 64} {ctl : Nat → ChannelCtl} {i j : Nat}

/-- What a channel is to be given. -/
def due (pending : BitVec 64) (status : Nat → BitVec 64) (i j : Nat) (c : ChannelCtl) : ChannelCtl × Bool :=
  if PendingBit pending i j then
    ssdInterrupt (decide (ErrorBit pending i)) (statusField (status i) j) c
  else (c, false)

theorem ssdInterrupt_skipped {c : ChannelCtl} (skipped : c.Skipped) (failed : Bool) (a b : Nat) :
    ssdInterrupt failed a c = ssdInterrupt failed b c := by
  unfold ssdInterrupt
  split
  · rfl
  split
  · rfl
  · rename_i data inTime
    exact (skipped.elim data inTime).elim

theorem turnsLost_le (pending : BitVec 64) (ctl : Nat → ChannelCtl) (i j : Nat) :
    turnsLost pending ctl i j ≤ Nat.count (PendingBit pending i) j :=
  Nat.count_mono_left fun _ _ left => of_decide_eq_true left.1

/-- Under the condition every channel is given what is due, whatever the others are doing. -/
theorem given_due (own : OwnFields pending status ctl) (inChips : i < ssdS6Nums)
    (inChip : j < ssdChannelsInS6) {ctl' : Nat → ChannelCtl} (same : ctl' (j + i * 11) = ctl (j + i * 11)) :
    given pending status ctl' i j = due pending status i j (ctl (j + i * 11)) := by
  unfold given due
  rw [same]
  split
  swap
  · rfl
  rename_i set
  by_cases skipped : (ctl (j + i * 11)).Skipped
  · exact ssdInterrupt_skipped skipped ..
  by_cases error : ErrorBit pending i
  · have equal := (own i inChips j inChip set).2 error skipped (turnsLost pending ctl' i j)
      (turnsLost_le pending ctl' i j)
    rw [equal]
  · rw [decide_eq_false error]
    exact ssdInterrupt_ok ..

theorem ssdInterrupt_errors (failed : Bool) (field : Nat) {c : ChannelCtl} (waits : DataWaiting c)
    (armed : failed = true ∨ Armed c) :
    (ssdInterrupt failed field c).1.errors = (if failed then (field : Int) * 128 else ssdOk) ∧
      (ssdInterrupt failed field c).2 = true := by
  obtain ⟨data, inTime, waiting⟩ := waits
  simp only [ssdInterrupt, if_neg data, if_neg inTime]
  cases failed with
  | true => simp [ssdDeleteTimer, waiting, apply_ite]
  | false =>
      obtain ⟨function, pending⟩ := armed.resolve_left (by decide)
      simp [ssdDeleteTimer, function, pending, waiting]

theorem ssdInterrupt_ram (failed : Bool) (field : Nat) {c : ChannelCtl} (ram : c.errorRam = ramPending) :
    ssdInterrupt failed field c = ({ c with errorRam := 0 }, false) := by
  unfold ssdInterrupt
  rw [if_pos ram]

theorem decoded_of_ownFields (own : OwnFields pending status ctl) (e : BitVec 64) :
    Decoded pending status ctl e := by
  have channel : ∀ i < ssdS6Nums, ∀ j < ssdChannelsInS6, ∀ ctl' e', ctl' (j + i * 11) = ctl (j + i * 11) →
      channelOf (ssdInterruptChips pending status ctl' e') (j + i * 11) =
        due pending status i j (ctl (j + i * 11)) := fun i inChips j inChip ctl' e' same =>
    (ssdInterruptChips_channel ctl' e' inChips inChip).trans (given_due own inChips inChip same)
  constructor
  · intro i inChips j inChip set noError waits armed
    have here := channel i inChips j inChip ctl e rfl
    rw [due, if_pos set, decide_eq_false noError] at here
    obtain ⟨errors, woken⟩ := ssdInterrupt_errors false (statusField (status i) j) waits (.inr armed)
    exact ⟨(congrArg (fun r => r.1.errors) here).trans errors, (congrArg Prod.snd here).trans woken⟩
  · intro i inChips j inChip set error waits
    have here := channel i inChips j inChip ctl e rfl
    rw [due, if_pos set, decide_eq_true error] at here
    obtain ⟨errors, woken⟩ := ssdInterrupt_errors true (statusField (status i) j) waits (.inl rfl)
    exact ⟨(congrArg (fun r => r.1.errors) here).trans errors, (congrArg Prod.snd here).trans woken⟩
  · exact fun i inChips j inChip set ram _ => (own i inChips j inChip set).1 ram
  · intro i inChips j inChip clear
    have here := channel i inChips j inChip ctl e rfl
    rw [due, if_neg clear] at here
    exact congrArg Prod.fst here
  · intro i inChips j inChip ctl' e' same
    rw [channel i inChips j inChip ctl' e' same, channel i inChips j inChip ctl e rfl]

/-- Control blocks of which the first `k` pending channels of chip `i` are left. -/
def firstLeft (pending : BitVec 64) (i j k : Nat) (c : ChannelCtl) : Nat → ChannelCtl := fun m =>
  if m = j + i * 11 then c
  else if Nat.count (PendingBit pending i) (m - i * 11) < k then ⟨0, ramPending, false, false, false⟩
  else ⟨0, 0, false, false, false⟩

theorem turnsLost_firstLeft {k : Nat} (c : ChannelCtl) (enough : k ≤ Nat.count (PendingBit pending i) j) :
    turnsLost pending (firstLeft pending i j k c) i j = k := by
  have upTo : ∀ m ≤ j, turnsLost pending (firstLeft pending i j k c) i m =
      min k (Nat.count (PendingBit pending i) m) := by
    intro m
    induction m with
    | zero => exact fun _ => by simp [turnsLost, leftBefore]
    | succ m ih =>
        intro below
        have before := ih (by omega)
        have left : (firstLeft pending i j k c (m + i * 11)).Skipped ↔
            Nat.count (PendingBit pending i) m < k := by
          rw [firstLeft, if_neg (by omega), Nat.add_sub_cancel]
          split
          · exact iff_of_true (.inl rfl) ‹_›
          · exact iff_of_false (by decide) ‹_›
        simp only [turnsLost, leftBefore, decide_eq_true_eq] at before ⊢
        simp only [Nat.count_succ, before, left]
        by_cases set : PendingBit pending i m
        · by_cases more : Nat.count (PendingBit pending i) m < k
          · simp only [set, more, and_self, if_true]
            omega
          · simp only [set, more, and_false, if_false, if_true]
            omega
        · simp only [set, false_and, if_false, Nat.add_zero]
  rw [upTo j le_rfl, Nat.min_eq_left enough]

theorem ownFields_of_decoded {e : BitVec 64} (decoded : Decoded pending status ctl e) :
    OwnFields pending status ctl := by
  intro i inChips j inChip set
  constructor
  · intro ram
    apply decoded.ramTable i inChips j inChip set ram
    have here := @ssdInterruptChips_channel pending status i j ctl e inChips inChip
    rw [given, if_pos set, ssdInterrupt_ram _ _ ram] at here
    exact congrArg (fun r => r.1.errorRam) here
  · intro error kept
    -- the state of the other channels moves the field that is given
    have field : ∀ k ≤ Nat.count (PendingBit pending i) j,
        channelOf (ssdInterruptChips pending status ctl e) (j + i * 11) =
          ssdInterrupt true (statusField (status i) (j - k)) (ctl (j + i * 11)) := by
      intro k enough
      have same : firstLeft pending i j k (ctl (j + i * 11)) (j + i * 11) = ctl (j + i * 11) := if_pos rfl
      rw [← decoded.independent i inChips j inChip _ e same, ssdInterruptChips_channel _ e inChips inChip,
        given, if_pos set, decide_eq_true error, same, turnsLost_firstLeft _ enough]
    have errors : ∀ f, (ssdInterrupt true f (ctl (j + i * 11))).1.errors = f * 128 := by
      intro f
      simp [ssdInterrupt, if_neg fun data => kept (.inl data), if_neg fun late => kept (.inr late)]
    intro k enough
    have equal := congrArg (fun r => r.1.errors) ((field k enough).symm.trans (field 0 (Nat.zero_le _)))
    simp only [errors, Nat.sub_zero] at equal
    omega

end Exact

/-- **The registers are decoded as they should be exactly on their own fields.** -/
theorem decodes_iff_ownFields (pending : BitVec 64) (status : Nat → BitVec 64) (ctl : Nat → ChannelCtl)
    (e : BitVec 64) : Decoded pending status ctl e ↔ OwnFields pending status ctl :=
  ⟨ownFields_of_decoded, fun own => decoded_of_ownFields own e⟩

/-- Channel 0 has timed out, channel 1 waits for a data command. -/
def lateNeighbour : Nat → ChannelCtl := fun c =>
  if c = 0 then ⟨-errTimeout, 0, false, false, false⟩ else ⟨-errWait, 0, true, true, true⟩

/-- The command of channel 1 fails with status 3, and is reported as successful. -/
theorem late_neighbour_hides_error : ¬ Decoded 0xe000 (fun _ => 0x60) lateNeighbour 0 := by
  intro decoded
  have reported := (decoded.fails 0 (by decide) 1 (by decide) (by decide) (by decide)
    ⟨by decide, by decide, rfl⟩).1
  exact absurd reported (by decide)

end FpgaSsd.Theory
