/-
# Theory.Spread — where consecutive serial numbers go

The channel of an id depends on `m_nLow` modulo 44 and its bucket on `m_nLow` modulo 391.
These are coprime, so channel and bucket together depend on `m_nLow` modulo 17204, and
nothing less.

* `place_eq_iff` — ids at one place are those whose low words differ by a multiple of 17204;
* `card_modEq_le` — how many numbers of a window have one remainder;
* `consecutive_ids_spread` — the windows of 17204, of 44 and of `n` serial numbers.
-/
import FpgaSsd.Tools.SsdIdToChannel
import Mathlib.Data.Nat.ModEq
import Mathlib.Data.Finset.Card
import Mathlib.Tactic.IntervalCases

namespace FpgaSsd.Theory

open FpgaSsd.Driver FpgaSsd.Tools

set_option autoImplicit false

/-! ## Windows of numbers -/

/-- In a window of `n` numbers, one in `m` has a given remainder, rounded up. -/
theorem card_modEq_le {m : Nat} (pos : 0 < m) (t n v : Nat) :
    ((Finset.range n).filter fun i => t + i ≡ v [MOD m]).card ≤ (n + (m - 1)) / m := by
  -- numbers of the window with one remainder have different quotients
  have quotients : ((Finset.range n).filter fun i => t + i ≡ v [MOD m]).card ≤
      (Finset.range ((n + (m - 1)) / m)).card := by
    apply Finset.card_le_card_of_injOn fun i => i / m
    · intro i member
      have inside : i < n := Finset.mem_range.1 (Finset.mem_filter.1 member).1
      apply Finset.mem_coe.2
      apply Finset.mem_range.2
      show i / m < (n + (m - 1)) / m
      rw [Nat.lt_iff_add_one_le, Nat.le_div_iff_mul_le pos, Nat.add_mul, Nat.one_mul]
      have below := Nat.div_mul_le_self i m
      omega
    · intro i member j member' same
      have left := (Finset.mem_filter.1 member).2
      have right := (Finset.mem_filter.1 member').2
      have remainders : i % m = j % m := Nat.ModEq.add_left_cancel' t (left.trans right.symm)
      rw [← Nat.div_add_mod i m, ← Nat.div_add_mod j m, remainders, show i / m = j / m from same]
  rwa [Finset.card_range] at quotients

/-! ## Places -/

/-- The channel and the bucket of an id. -/
def place (id : BlockId) : Nat × Nat := (id2channel id, idHash id)

section Places

variable {x y : BlockId}

/-- The channels are a mixed radix: `m_nLow % 4` first, and the quotient modulo 11. -/
theorem id2channel_eq {c : Nat} (channel : c < ssdMaxChannel) :
    id2channel x = c ↔ x.mNLow.toNat % 44 = 4 * (c % 11) + c / 11 := by
  have radix : x.mNLow.toNat % 44 = 4 * (x.mNLow.toNat / 4 % 11) + x.mNLow.toNat % 4 := by omega
  have low : x.mNLow.toNat / 4 % 11 < 11 := Nat.mod_lt _ (by decide)
  have high : x.mNLow.toNat % 4 < 4 := Nat.mod_lt _ (by decide)
  rw [radix]
  unfold id2channel
  generalize x.mNLow.toNat / 4 % 11 = a at *
  generalize x.mNLow.toNat % 4 = b at *
  simp only [ssdMaxChannel] at channel
  omega

theorem id2channel_eq_iff : id2channel x = id2channel y ↔ x.mNLow.toNat ≡ y.mNLow.toNat [MOD 44] := by
  rw [id2channel_eq (id2channel_lt y), ← (id2channel_eq (id2channel_lt y)).1 rfl]
  exact Iff.rfl

theorem idHash_eq_iff : idHash x = idHash y ↔ x.mNLow.toNat ≡ y.mNLow.toNat [MOD 391] := Iff.rfl

/-- **Ids at one place** are a multiple of 44 · 391 apart. -/
theorem place_eq_iff : place x = place y ↔ x.mNLow.toNat ≡ y.mNLow.toNat [MOD 17204] := by
  have coprime : Nat.Coprime 44 391 := by decide
  rw [place, place, Prod.mk.injEq, id2channel_eq_iff, idHash_eq_iff, Nat.modEq_and_modEq_iff_modEq_mul coprime]

/-- The command-line tool computes the channel of the driver. -/
theorem tool_id2channel (id : BlockId) : SsdIdToChannel.id2channel id = id2channel id := by
  have chips : SsdIdToChannel.ssdS6Nums.toNat = 4 := rfl
  have channels : SsdIdToChannel.ssdChannelsInS6.toNat = 11 := rfl
  simp only [SsdIdToChannel.id2channel, id2channel, UInt64.toNat_add, UInt64.toNat_mul,
    UInt64.toNat_div, UInt64.toNat_mod, chips, channels]
  omega

end Places

/-! ## Consecutive ids -/

/-- The ids with the serial numbers from `s` on; their high words do not matter. -/
def serialId (high : Nat → UInt64) (s i : Nat) : BlockId := ⟨.ofNat (s + i), high i⟩

section Windows

variable {high : Nat → UInt64} {s n : Nat}

theorem serialId_low (fits : s + n ≤ 2 ^ 64) {i : Nat} (inside : i < n) : (serialId high s i).mNLow.toNat = s + i := by
  have small : s + i < 2 ^ 64 := by omega
  exact UInt64.toNat_ofNat_of_lt' small

/-- Two ids of a window of at most 17204 are at different places. -/
theorem place_injective (fits : s + n ≤ 2 ^ 64) (few : n ≤ 17204) {i j : Nat} (inside : i < n) (inside' : j < n)
    (same : place (serialId high s i) = place (serialId high s j)) : i = j := by
  rw [place_eq_iff, serialId_low fits inside, serialId_low fits inside'] at same
  simp only [Nat.ModEq] at same
  omega

/-- Any 44 consecutive serial numbers hit every channel once. -/
theorem every_channel_once (fits : s + 44 ≤ 2 ^ 64) {c : Nat} (channel : c < ssdMaxChannel) :
    ∃! i, i < 44 ∧ id2channel (serialId high s i) = c := by
  have remainder : 4 * (c % 11) + c / 11 < 44 := by
    simp only [ssdMaxChannel] at channel
    omega
  have here : ∀ i < 44, (id2channel (serialId high s i) = c ↔ (s + i) % 44 = 4 * (c % 11) + c / 11) := by
    intro i inside
    rw [id2channel_eq channel, serialId_low fits inside]
  generalize 4 * (c % 11) + c / 11 = v at *
  have inside : (v + 44 - s % 44) % 44 < 44 := Nat.mod_lt _ (by decide)
  refine ⟨(v + 44 - s % 44) % 44, ⟨inside, (here _ inside).2 (by omega)⟩, ?_⟩
  rintro i ⟨inside, there⟩
  have same := (here i inside).1 there
  omega

/-- A window of `n` serial numbers puts at most one in 17204 of them, rounded up, at one place. -/
theorem place_load (fits : s + n ≤ 2 ^ 64) (p : Nat × Nat) :
    ((Finset.range n).filter fun i => place (serialId high s i) = p).card ≤ (n + 17203) / 17204 := by
  by_cases used : ∃ i < n, place (serialId high s i) = p
  · obtain ⟨i, inside, here⟩ := used
    refine Nat.le_trans (Finset.card_le_card fun j member => ?_) (card_modEq_le (by decide : 0 < 17204) s n (s + i))
    obtain ⟨inside', there⟩ := Finset.mem_filter.1 member
    have same := place_eq_iff.1 (there.trans here.symm)
    rw [serialId_low fits inside, serialId_low fits (Finset.mem_range.1 inside')] at same
    exact Finset.mem_filter.2 ⟨inside', same⟩
  · have empty : ((Finset.range n).filter fun i => place (serialId high s i) = p) = ∅ := by
      apply Finset.filter_eq_empty_iff.2
      intro i member here
      exact used ⟨i, Finset.mem_range.1 member, here⟩
    rw [empty, Finset.card_empty]
    exact Nat.zero_le _

/-- **Consecutive ids spread perfectly**: 17204 of them are at different places, 44 of them are
on different channels, and no bucket gets more than its share of any number of them. -/
theorem consecutive_ids_spread (high : Nat → UInt64) (s : Nat) :
    (∀ id, id2channel id < ssdMaxChannel ∧ SsdIdToChannel.id2channel id = id2channel id) ∧
    (s + 17203 < 2 ^ 64 → ∀ i < 17204, ∀ j < 17204, i ≠ j → place (serialId high s i) ≠ place (serialId high s j)) ∧
    (s + 43 < 2 ^ 64 → ∀ c < ssdMaxChannel, ∃! i, i < 44 ∧ id2channel (serialId high s i) = c) ∧
    ∀ n, s + n ≤ 2 ^ 64 → ∀ p,
      ((Finset.range n).filter fun i => place (serialId high s i) = p).card ≤ (n + 17203) / 17204 := by
  refine ⟨fun id => ⟨id2channel_lt id, tool_id2channel id⟩, fun fits i inside j inside' different same => ?_,
    fun fits c channel => every_channel_once (by omega) channel, fun n fits p => place_load fits p⟩
  exact different (place_injective (by omega) (Nat.le_refl _) inside inside' same)

end Windows

end FpgaSsd.Theory
