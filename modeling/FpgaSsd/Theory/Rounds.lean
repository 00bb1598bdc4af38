/-
# Theory.Rounds — where the records of a life are

Ten groups of four metadata blocks are used in turn, a page of each block for every flush, so the
number of the flushes says where the next record goes, and which groups still show records of the
round before.

* `Round.next` — one flush;
* `CardRun.round` — behind every life of a card.
-/
import FpgaSsd.Theory.Lifetime

namespace FpgaSsd.Theory

open FpgaSsd.Lib FpgaSsd.Driver FpgaSsd.Api

set_option autoImplicit false

/-! ## Rounds -/

/-- The number of records of a round. -/
abbrev roundRecords : Nat := metaBitmapSize * ssdPagesPerBlock

/-- The group of the record of the flush `n`. -/
def roundGroup (n : Nat) : Nat := (n + 255) / 256 % 10

/-- The position of the record of the flush `n`; none was flushed at 0. -/
def roundPos (n : Nat) : MetaPosition := ⟨(n + 255) % 256, roundGroup n * ssdMaxPlanes⟩

theorem nextMetaPos_round (n : Nat) : nextMetaPos ssdOk (roundPos n) = roundPos (n + 1) := by
  rw [nextMetaPos, if_neg (by decide)]
  by_cases last : (roundPos n).page = ssdPagesPerBlock - 1
  · rw [if_pos last]
    simp only [roundPos, roundGroup, findNewMetaBlock, ssdPagesPerBlock, ssdMaxPlanes, metaBitmapSize,
      MetaPosition.mk.injEq] at last ⊢
    omega
  · rw [if_neg last]
    simp only [roundPos, roundGroup, ssdPagesPerBlock, ssdMaxPlanes, MetaPosition.mk.injEq] at last ⊢
    omega

theorem roundGroup_lt (n : Nat) : roundGroup n < metaBitmapSize := Nat.mod_lt _ (by decide)

/-- A card behind `n` flushes. -/
structure Round (n : Nat) (v : View) : Prop where
  settled : Settled v (roundGroup n)
  place : v.metaPos = roundPos n
  version : v.metadata.version.toNat = n + 1
  older : ∀ pos < reserveBlocksMeta, pos / ssdMaxPlanes ≠ roundGroup n → ∀ pg < ssdPagesPerBlock, ∀ y,
    v.record pos pg = some y → y.version < v.metadata.version
  empty : ∀ pos < reserveBlocksMeta, (∀ k, 0 < k → k ≤ n → roundGroup k ≠ pos / ssdMaxPlanes) →
    ∀ pg < ssdPagesPerBlock, v.record pos pg = none
  /-- A group shows its last page until it is opened again. -/
  shows : ∀ k, 0 < k → k % 256 = 0 → k ≤ n → n < k + 2305 → ∃ x, v.record (roundGroup k * ssdMaxPlanes + 1) 255 = some x

section Round

variable {n : Nat} {v v' : View} {d : Device} {type : FlushType}

theorem Initialised.round (card : Initialised (view d)) : Round 0 (view d) := by
  have empty : ∀ pos < reserveBlocksMeta, ∀ pg < ssdPagesPerBlock, (view d).record pos pg = none :=
    fun pos inside pg low => card.card.bare.record inside low
  refine ⟨⟨card.card.area, fun more => ?_, card.card.opened⟩, card.card.metaPos, ?_,
    fun pos inside _ pg low y found => ?_, fun pos inside _ => empty pos inside,
    fun k positive _ le => absurd positive (Nat.not_lt.2 le)⟩
  · rw [card.card.metaPos] at more
    exact absurd more (by decide)
  · obtain ⟨m, first⟩ := card.card.metadata
    rw [first]
    rfl
  · rw [empty pos inside pg low] at found
    cases found

theorem Round.works (round : Round n v) (works : Works v v') : Round n v' := by
  have same : ∀ pos < reserveBlocksMeta, ∀ pg < ssdPagesPerBlock, v'.record pos pg = v.record pos pg :=
    fun pos inside pg low => View.record_congr (works.pages pos (metaPos_inside inside) pg low).1
  refine ⟨round.settled.works works, works.metaPos.trans round.place, by rw [works.metadata, round.version],
    fun pos inside other pg low y found => ?_, fun pos inside unused pg low => ?_, fun k positive last le soon => ?_⟩
  · rw [same pos inside pg low] at found
    rw [works.metadata]
    exact round.older pos inside other pg low y found
  · rw [same pos inside pg low]
    exact round.empty pos inside unused pg low
  · rw [same _ (groupPos_lt (roundGroup_lt k) (by decide)) 255 (by decide)]
    exact round.shows k positive last le soon

/-- **The next flush.** -/
theorem Round.next {b' : Nat} (round : Round n v) (room : n + 2 < 2 ^ 64)
    (atGroup : (nextMetaPos ssdOk v.metaPos).blockPos = b' * ssdMaxPlanes) (flushed : Flushed type v v' b') :
    Round (n + 1) v' := by
  have room' : v.metadata.version.toNat + 1 < 2 ^ 64 := by rwa [round.version]
  have next : nextMetaPos ssdOk v.metaPos = roundPos (n + 1) := by rw [round.place, nextMetaPos_round]
  obtain rfl : roundGroup (n + 1) = b' := by
    rw [next] at atGroup
    exact Nat.eq_of_mul_eq_mul_right (by decide) atGroup
  have settled := (Flushed.settled round.settled room' atGroup flushed).1
  have version := flushed.version room'
  obtain ⟨v1, tabled, attempt, planes⟩ := flushed
  have place : v'.metaPos = roundPos (n + 1) := attempt.frame.metaPos.trans (tabled.next.trans next)
  have elsewhere : ∀ pos < reserveBlocksMeta, pos / ssdMaxPlanes ≠ roundGroup (n + 1) → ∀ pg < ssdPagesPerBlock,
      v'.record pos pg = v.record pos pg := fun pos inside other pg low =>
    (attempt.elsewhere (Nat.le_refl _) inside other low).trans (tabled.records inside low)
  refine ⟨settled, place, by rw [version, round.version], fun pos inside other pg low y found => ?_,
    fun pos inside unused pg low => ?_, fun k positive last le soon => ?_⟩
  · rw [elsewhere pos inside other pg low] at found
    have old := (round.settled.area.versions pos inside pg low y found).2
    rw [UInt64.lt_iff_toNat_lt, version]
    exact Nat.lt_succ_of_le (UInt64.le_iff_toNat_le.1 old)
  · rw [elsewhere pos inside (unused (n + 1) (Nat.succ_pos n) (Nat.le_refl _)).symm pg low]
    exact round.empty pos inside (fun k positive le => unused k positive (Nat.le_succ_of_le le)) pg low
  · rcases Nat.le_succ_iff.1 le with before | rfl
    · have other : (roundGroup k * ssdMaxPlanes + 1) / ssdMaxPlanes ≠ roundGroup (n + 1) := by
        rw [plane_div (by decide)]
        simp only [roundGroup]
        omega
      rw [elsewhere _ (groupPos_lt (roundGroup_lt k) (by decide)) other 255 (by decide)]
      exact round.shows k positive last before (by omega)
    · have page : (nextMetaPos ssdOk v.metaPos).page = 255 := by
        rw [next]
        simp only [roundPos]
        omega
      rw [page] at planes
      exact ⟨_, planes 1 (by decide)⟩

end Round

/-! ## Lives -/

/-- The flushes of a life, with those of its closes. -/
def flushes (es : List CardEvent) : Nat := (es.filterMap CardEvent.flushed?).length

theorem flushes_le (es : List CardEvent) : flushes es ≤ es.length := List.length_filterMap_le ..

section Lives

variable {may : May} {lib : Library} {es : List CardEvent} {d : Device}

/-- **Behind every life** the records are where the number of its flushes says. -/
theorem CardRun.round (run : CardRun may lib es d) (few : es.length + 1 < 2 ^ 64) : Round (flushes es) (view d) := by
  induction run with
  | initialised run => exact ((ssdSysOpenNewcard_spec.runs run).1 rfl).round
  | @call es d d' call ret data before run ih =>
      rw [List.length_cons] at few
      exact (ih (by omega)).works (((Unrecorded.call lib call).holds d).runs run)
  | @flush es d d' ret before run ih =>
      rw [List.length_cons] at few
      have round := ih (by omega)
      obtain ⟨ids, room⟩ := (before.inv (by omega)).room few
      obtain ⟨-, saved⟩ := (ssdSysFlush_saves noFailure_flawless round.settled ids room .normal).runs run
      obtain ⟨b', atGroup, flushed⟩ := saved.flushed
      have le := flushes_le es
      exact round.next (by omega) atGroup flushed
  | @reopen es d d1 d2 d3 closed opened before close off start mapped ih =>
      rw [List.length_cons] at few
      have round := ih (by omega)
      have inv := before.inv (by omega)
      obtain ⟨ids, room⟩ := inv.room few
      obtain ⟨-, -, -, opens⟩ := close_spec round.settled inv.store.table.table ids room close
      obtain ⟨v1, saved, works⟩ := (opens off start).2.works
      obtain ⟨b', atGroup, flushed⟩ := saved.flushed
      have le := flushes_le es
      exact (round.next (by omega) atGroup flushed).works works

end Lives

end FpgaSsd.Theory
