/-
# Theory.Durable — a flush that succeeds is found again

A history of flushes from a freshly initialised card, where every erase, program
and read-back may fail. `Area` is what the ten groups of metadata blocks satisfy
between two flushes.

* `flushMetadata_spec` — a flush that writes its record keeps `Area`, and its
  record `Wins`;
* `flush_is_durable` — after a flush that succeeds the search selects its record,
  when the step condition `durable` and the condition `FlushReady` before each flush
  hold;
* `failed_groups_hide_a_flush` — without them the search finds nothing after a
  flush that succeeded.
-/
import FpgaSsd.Theory.FlushRun

namespace FpgaSsd.Theory

open FpgaSsd.Lib FpgaSsd.Driver

set_option autoImplicit false

/-! ## The record a group shows -/

namespace View

variable {v : View} {g pg : Nat} {m x : SsdMetadata}

theorem firstRecord_mem (shown : v.firstRecord g pg = some x) :
    ∃ plane < ssdMaxPlanes, v.record (g * ssdMaxPlanes + plane) pg = some x := by
  obtain ⟨plane, member, eq⟩ := List.exists_of_findSome?_eq_some shown
  exact ⟨plane, List.mem_range.1 member, eq⟩

theorem firstRecord_none (empty : ∀ plane < ssdMaxPlanes,
    v.record (g * ssdMaxPlanes + plane) pg = none) : v.firstRecord g pg = none :=
  List.findSome?_eq_none_iff.2 fun plane member => empty plane (List.mem_range.1 member)

theorem firstRecord_isSome {plane : Nat} (inside : plane < ssdMaxPlanes)
    (there : v.record (g * ssdMaxPlanes + plane) pg = some m) : ∃ x, v.firstRecord g pg = some x := by
  cases shown : v.firstRecord g pg with
  | some x => exact ⟨x, rfl⟩
  | none =>
      have none := List.findSome?_eq_none_iff.1 shown plane (List.mem_range.2 inside)
      rw [none] at there
      cases there

/-- Planes that agree show their record. -/
theorem firstRecord_eq {plane : Nat} (inside : plane < ssdMaxPlanes)
    (there : v.record (g * ssdMaxPlanes + plane) pg = some m)
    (agree : ∀ plane < ssdMaxPlanes, ∀ x, v.record (g * ssdMaxPlanes + plane) pg = some x → x = m) :
    v.firstRecord g pg = some m := by
  obtain ⟨x, shown⟩ := firstRecord_isSome inside there
  obtain ⟨plane', inside', eq⟩ := firstRecord_mem shown
  rw [shown, agree plane' inside' x eq]

end View

/-! ## The area of the metadata blocks -/

/-- What holds of the metadata blocks between two flushes; `b` is the group of the
position. -/
structure Area (v : View) (b : Nat) : Prop where
  clean : v.Clean
  group : b < metaBitmapSize
  atGroup : v.metaPos.blockPos = b * ssdMaxPlanes
  page : v.metaPos.page < ssdPagesPerBlock
  positive : 0 < v.metadata.version
  versions : ∀ pos < reserveBlocksMeta, ∀ pg < ssdPagesPerBlock, ∀ r, v.record pos pg = some r →
    0 < r.version ∧ r.version ≤ v.metadata.version
  ahead : ∀ plane < ssdMaxPlanes, ∀ pg, v.metaPos.page < pg → pg < ssdPagesPerBlock →
    v.record (b * ssdMaxPlanes + plane) pg = none
  leads : ∀ plane < ssdMaxPlanes, ∀ x, v.record (b * ssdMaxPlanes + plane) 0 = some x →
    ∀ pos < reserveBlocksMeta, pos / ssdMaxPlanes ≠ b → ∀ y, v.record pos 0 = some y →
      y.version < x.version

/-- Page 0 of every other group than the current one is older than the record. -/
def Fresher (v : View) : Prop := ∀ pos < reserveBlocksMeta,
  pos / ssdMaxPlanes * ssdMaxPlanes ≠ v.metaPos.blockPos → ∀ y, v.record pos 0 = some y →
    y.version < v.metadata.version

/-- The flush starts a new group, or page 0 of the current one can be read. -/
def Headed (v : View) : Prop := v.metaPos.page + 1 < ssdPagesPerBlock →
  ∃ plane < ssdMaxPlanes, ∃ x, v.record (v.metaPos.blockPos + plane) 0 = some x

section Area

variable {v v1 v2 : View} {b : Nat}

theorem plane_div {b plane : Nat} (inside : plane < ssdMaxPlanes) :
    (b * ssdMaxPlanes + plane) / ssdMaxPlanes = b := by
  simp only [ssdMaxPlanes] at *
  omega

/-- The position is that of a plane of its group. -/
theorem eq_plane (pos : Nat) : ∃ plane < ssdMaxPlanes,
    pos = pos / ssdMaxPlanes * ssdMaxPlanes + plane :=
  ⟨pos % ssdMaxPlanes, Nat.mod_lt _ (by decide), (Nat.div_add_mod' ..).symm⟩

/-- Other groups are as they were. -/
theorem Attempt.elsewhere {pos pg k : Nat} (attempt : Attempt v v2 b k)
    (few : k ≤ ssdMaxPlanes) (inside : pos < reserveBlocksMeta)
    (other : pos / ssdMaxPlanes ≠ b) (low : pg < ssdPagesPerBlock) : v2.record pos pg = v.record pos pg := by
  refine View.record_frame attempt.frame (metaPos_inside inside) ?_ low
  rintro ⟨plane, less, rfl⟩
  exact other (plane_div (Nat.lt_of_lt_of_le less few))

/-- Every record after an attempt is the new one, or was there. -/
theorem Attempt.source {pos pg : Nat} {r : SsdMetadata} (attempt : Attempt v v2 b ssdMaxPlanes)
    (inside : pos < reserveBlocksMeta) (low : pg < ssdPagesPerBlock)
    (there : v2.record pos pg = some r) : r = v.metadata ∨ v.record pos pg = some r := by
  by_cases other : pos / ssdMaxPlanes = b
  · obtain ⟨plane, less, eq⟩ := eq_plane pos
    rw [other] at eq
    subst eq
    by_cases here : pg = v.metaPos.page
    · subst here
      rcases attempt.page plane less with new | gone | ⟨-, old⟩
      · rw [new] at there
        exact .inl (Option.some.inj there).symm
      · rw [gone] at there
        cases there
      · exact .inr (old ▸ there)
    · rw [attempt.others plane less pg low here] at there
      split at there
      · cases there
      · exact .inr there
  · rw [attempt.elsewhere (Nat.le_refl _) inside other low] at there
    exact .inr there

/-- The versions stay below the one of the record. -/
theorem Attempt.versions (attempt : Attempt v v2 b ssdMaxPlanes) (positive : 0 < v.metadata.version)
    (before : ∀ pos < reserveBlocksMeta, ∀ pg < ssdPagesPerBlock, ∀ r, v.record pos pg = some r →
      0 < r.version ∧ r.version ≤ v.metadata.version) :
    ∀ pos < reserveBlocksMeta, ∀ pg < ssdPagesPerBlock, ∀ r, v2.record pos pg = some r →
      0 < r.version ∧ r.version ≤ v2.metadata.version := by
  intro pos inside pg low r there
  rw [attempt.metadata]
  rcases attempt.source inside low there with rfl | old
  · exact ⟨positive, UInt64.le_refl _⟩
  · exact before pos inside pg low r old

/-- An attempt on a later page leaves the first pages alone. -/
theorem Attempt.first {pos : Nat} (attempt : Attempt v v2 b ssdMaxPlanes) (later : v.metaPos.page ≠ 0)
    (inside : pos < reserveBlocksMeta) : v2.record pos 0 = v.record pos 0 := by
  by_cases other : pos / ssdMaxPlanes = b
  · obtain ⟨plane, less, eq⟩ := eq_plane pos
    rw [other] at eq
    subst eq
    rw [attempt.others plane less 0 (by decide) later.symm, if_neg later]
  · exact attempt.elsewhere (Nat.le_refl _) inside other (by decide)

/-- An attempt on the next page of the group. -/
theorem Area.nextPage (area : Area v b) (room : v.metaPos.page + 1 < ssdPagesPerBlock)
    (moved : v1 = { v with metaPos := { v.metaPos with page := v.metaPos.page + 1 } })
    (attempt : Attempt v1 v2 b ssdMaxPlanes) : Area v2 b := by
  subst moved
  have samePos := attempt.frame.metaPos
  have first : ∀ pos < reserveBlocksMeta, v2.record pos 0 = v.record pos 0 := fun pos inside =>
    attempt.first (Nat.succ_ne_zero _) inside
  refine ⟨attempt.clean area.clean, area.group, by rw [samePos]; exact area.atGroup, by rwa [samePos],
    by rw [attempt.metadata]; exact area.positive, attempt.versions area.positive area.versions,
    fun plane inside pg above high => ?_, fun plane inside x shown pos inside' other y shown' => ?_⟩
  · rw [samePos] at above
    rw [attempt.others plane inside pg high (Nat.ne_of_gt above), if_neg (Nat.succ_ne_zero _)]
    exact area.ahead plane inside pg (Nat.lt_of_succ_lt above) high
  · rw [first _ (groupPos_lt area.group inside)] at shown
    rw [first _ inside'] at shown'
    exact area.leads plane inside x shown pos inside' other y shown'

/-- An attempt on the first page of a group. -/
theorem Area.nextGroup {b' : Nat} (area : Area v b) (group : b' < metaBitmapSize)
    (moved : v1 = { v with metaPos := ⟨0, b' * ssdMaxPlanes⟩ }) (fresher : Fresher v1)
    (attempt : Attempt v1 v2 b' ssdMaxPlanes) : Area v2 b' := by
  subst moved
  have samePos := attempt.frame.metaPos
  refine ⟨attempt.clean area.clean, group, by rw [samePos], by rw [samePos]; exact Nat.zero_lt_of_lt area.page,
    by rw [attempt.metadata]; exact area.positive, attempt.versions area.positive area.versions,
    fun plane inside pg above high => ?_, fun plane inside x shown pos inside' other y shown' => ?_⟩
  · rw [samePos] at above
    rw [attempt.others plane inside pg high (Nat.ne_of_gt above), if_pos rfl]
  · rw [attempt.elsewhere (Nat.le_refl _) inside' other (by decide)] at shown'
    have older := fresher pos inside' (fun eq => other (Nat.eq_of_mul_eq_mul_right (by decide) eq)) y shown'
    rcases attempt.page plane inside with new | gone | ⟨no, -⟩
    · rw [new] at shown
      cases shown
      exact older
    · rw [gone] at shown
      cases shown
    · exact absurd rfl no

/-- The record of an attempt wins when a plane shows it, and one shows a page 0. -/
theorem Area.wins (area : Area v b) {m : SsdMetadata}
    (head : ∃ plane < ssdMaxPlanes, ∃ x, v.record (b * ssdMaxPlanes + plane) 0 = some x)
    (there : ∃ plane < ssdMaxPlanes, v.record (b * ssdMaxPlanes + plane) v.metaPos.page = some m)
    (agree : ∀ plane < ssdMaxPlanes, ∀ x,
      v.record (b * ssdMaxPlanes + plane) v.metaPos.page = some x → x = m) :
    Wins v b v.metaPos.page m := by
  obtain ⟨plane0, inside0, x0, head⟩ := head
  obtain ⟨x, first⟩ := View.firstRecord_isSome inside0 head
  obtain ⟨plane1, inside1, shown⟩ := View.firstRecord_mem first
  have low : 0 < ssdPagesPerBlock := by decide
  refine ⟨area.group, area.page, ⟨x, first, ?_, fun g y group other found => ?_⟩,
    fun pg above high => ?_, ?_⟩
  · exact (area.versions _ (groupPos_lt area.group inside1) 0 low x shown).1
  · obtain ⟨plane, inside, shown'⟩ := View.firstRecord_mem found
    exact area.leads plane1 inside1 x shown _ (groupPos_lt group inside) (by rwa [plane_div inside]) y
      shown'
  · exact View.firstRecord_none fun plane inside => area.ahead plane inside pg above high
  · obtain ⟨plane, inside, shown⟩ := there
    exact View.firstRecord_eq inside shown agree

/-- A record with `P` wins in the group `k` before the one of the position, and the groups that were
tried since then show no first page. -/
structure WonBy (P : SsdMetadata → Prop) (v : View) (b k : Nat) : Prop where
  wins : ∃ g p r, Wins v g p r ∧ P r ∧ b = (g + k) % metaBitmapSize
  tried : 0 < k → v.metaPos.page = 0 ∧ ∀ plane < ssdMaxPlanes, v.record (b * ssdMaxPlanes + plane) 0 = none

theorem WonBy.congr {P : SsdMetadata → Prop} {v' : View} {k : Nat} (won : WonBy P v b k) (group : b < metaBitmapSize)
    (samePos : v'.metaPos = v.metaPos)
    (same : ∀ pos < reserveBlocksMeta, ∀ pg < ssdPagesPerBlock, v'.record pos pg = v.record pos pg) :
    WonBy P v' b k := by
  obtain ⟨⟨g, p, r, wins, holds, at'⟩, tried⟩ := won
  refine ⟨⟨g, p, r, wins.congr fun g group pg low plane inside => same _ (groupPos_lt group inside) pg low, holds,
    at'⟩, fun positive => ?_⟩
  obtain ⟨first, none⟩ := tried positive
  refine ⟨by rw [samePos, first], fun plane inside => ?_⟩
  rw [same _ (groupPos_lt group inside) 0 (by decide)]
  exact none plane inside

/-- Where page 0 of the group can be read, the record is one of the group. -/
theorem WonBy.here {P : SsdMetadata → Prop} {k : Nat} (won : WonBy P v b k) (area : Area v b) (headed : Headed v) :
    k = 0 := by
  by_contra some
  obtain ⟨first, none⟩ := won.tried (Nat.pos_of_ne_zero some)
  obtain ⟨plane, inside, x, shown⟩ := headed (by rw [first]; decide)
  rw [area.atGroup, none plane inside] at shown
  cases shown

/-- The record of an attempt wins, when a plane shows it. -/
theorem Attempt.wonBy {P : SsdMetadata → Prop} (attempt : Attempt v v2 b ssdMaxPlanes) (after : Area v2 b)
    (new : P v.metadata) (head : ∃ plane < ssdMaxPlanes, ∃ x, v2.record (b * ssdMaxPlanes + plane) 0 = some x)
    (there : ∃ plane < ssdMaxPlanes, v2.record (b * ssdMaxPlanes + plane) v.metaPos.page = some v.metadata)
    (agree : ∀ plane < ssdMaxPlanes, ∀ x, v2.record (b * ssdMaxPlanes + plane) v.metaPos.page = some x →
      x = v.metadata) : WonBy P v2 b 0 := by
  rw [← attempt.frame.metaPos] at there agree
  refine ⟨⟨b, _, _, after.wins head there agree, new, ?_⟩, fun no => absurd no (Nat.lt_irrefl 0)⟩
  rw [Nat.add_zero, Nat.mod_eq_of_lt after.group]

/-- **An attempt on the next page** of the group. -/
theorem WonBy.nextPage {P : SsdMetadata → Prop} (won : WonBy P v b 0) (area : Area v b)
    (room : v.metaPos.page + 1 < ssdPagesPerBlock) (headed : Headed v)
    (moved : v1 = { v with metaPos := { v.metaPos with page := v.metaPos.page + 1 } })
    (attempt : Attempt v1 v2 b ssdMaxPlanes) (new : P v.metadata) : WonBy P v2 b 0 := by
  have after := area.nextPage room moved attempt
  subst moved
  have kept : ∀ pos < reserveBlocksMeta, ∀ pg < ssdPagesPerBlock,
      (pos / ssdMaxPlanes = b → pg ≠ v.metaPos.page + 1) → v2.record pos pg = v.record pos pg := by
    intro pos inside pg low off
    by_cases own : pos / ssdMaxPlanes = b
    · obtain ⟨plane, less, eq⟩ := eq_plane pos
      rw [own] at eq
      subst eq
      rw [attempt.others plane less pg low (off own), if_neg (Nat.succ_ne_zero _)]
      rfl
    · exact attempt.elsewhere (Nat.le_refl _) inside own low
  have before : ∀ plane < ssdMaxPlanes, v.record (b * ssdMaxPlanes + plane) (v.metaPos.page + 1) = none :=
    fun plane inside => area.ahead plane inside _ (Nat.lt_succ_self _) room
  by_cases there : ∃ plane < ssdMaxPlanes, v2.record (b * ssdMaxPlanes + plane) (v.metaPos.page + 1) = some v.metadata
  · refine attempt.wonBy after new ?_ there fun plane inside x shown => ?_
    · obtain ⟨plane, inside, x, shown⟩ := headed room
      rw [area.atGroup] at shown
      exact ⟨plane, inside, x, (kept _ (groupPos_lt area.group inside) 0 (by decide) fun _ =>
        (Nat.succ_ne_zero _).symm).trans shown⟩
    · rcases attempt.page plane inside with new | gone | ⟨-, old⟩
      · rw [new] at shown
        exact (Option.some.inj shown).symm
      · rw [gone] at shown
        cases shown
      · rw [old] at shown
        exact absurd ((before plane inside).symm.trans shown) (by simp)
  · -- no page has changed what it shows
    have same : ∀ pos < reserveBlocksMeta, ∀ pg < ssdPagesPerBlock, v2.record pos pg = v.record pos pg := by
      intro pos inside pg low
      by_cases at' : pos / ssdMaxPlanes = b ∧ pg = v.metaPos.page + 1
      · obtain ⟨own, rfl⟩ := at'
        obtain ⟨plane, less, eq⟩ := eq_plane pos
        rw [own] at eq
        subst eq
        rcases attempt.page plane less with new | gone | ⟨-, old⟩
        · exact absurd ⟨plane, less, new⟩ there
        · exact gone.trans (before plane less).symm
        · exact old
      · exact kept pos inside pg low fun own eq => at' ⟨own, eq⟩
    obtain ⟨⟨g, p, r, wins, holds, at'⟩, -⟩ := won
    exact ⟨⟨g, p, r, wins.congr fun g group pg low plane inside => same _ (groupPos_lt group inside) pg low, holds,
      at'⟩, fun no => absurd no (Nat.lt_irrefl 0)⟩

/-- A group whose first page shows nothing newer leaves the winner alone. -/
theorem Wins.elsewhere {g p b' : Nat} {r : SsdMetadata} (wins : Wins v g p r) (other : g ≠ b')
    (older : ∀ x y, v.firstRecord g 0 = some x → v2.firstRecord b' 0 = some y → y.version < x.version)
    (same : ∀ pos < reserveBlocksMeta, pos / ssdMaxPlanes ≠ b' → ∀ pg < ssdPagesPerBlock,
      v2.record pos pg = v.record pos pg) : Wins v2 g p r := by
  have first : ∀ g < metaBitmapSize, g ≠ b' → ∀ pg < ssdPagesPerBlock, v2.firstRecord g pg = v.firstRecord g pg := by
    intro g group other pg low
    refine View.firstRecord_congr fun plane inside => same _ (groupPos_lt group inside) ?_ pg low
    rwa [plane_div inside]
  obtain ⟨group, page, ⟨x, shown, positive, newest⟩, last, found⟩ := wins
  refine ⟨group, page, ⟨x, ?_, positive, fun g' y group' apart shown' => ?_⟩, fun q above high => ?_, ?_⟩
  · rw [first g group other 0 (by decide), shown]
  · by_cases here : g' = b'
    · subst here
      exact older x y shown shown'
    · rw [first g' group' here 0 (by decide)] at shown'
      exact newest g' y group' apart shown'
  · rw [first g group other q high, last q above high]
  · rw [first g group other p page, found]

/-- **An attempt on the first page** of the next group. -/
theorem WonBy.nextGroup {P : SsdMetadata → Prop} {b' k : Nat} (won : WonBy P v b k) (few : k + 1 < metaBitmapSize)
    (area : Area v b) (next : b' = (b + 1) % metaBitmapSize) (moved : v1 = { v with metaPos := ⟨0, b' * ssdMaxPlanes⟩ })
    (fresher : Fresher v1) (attempt : Attempt v1 v2 b' ssdMaxPlanes) (new : P v.metadata) :
    ∃ k' ≤ k + 1, WonBy P v2 b' k' := by
  have group : b' < metaBitmapSize := by
    rw [next]
    exact Nat.mod_lt _ (by decide)
  have after := area.nextGroup group moved fresher attempt
  subst moved
  by_cases there : ∃ plane < ssdMaxPlanes, v2.record (b' * ssdMaxPlanes + plane) 0 = some v.metadata
  · obtain ⟨plane, inside, shown⟩ := there
    refine ⟨0, Nat.zero_le _, attempt.wonBy after new ⟨plane, inside, _, shown⟩ ⟨plane, inside, shown⟩ ?_⟩
    intro plane inside x shown
    rcases attempt.page plane inside with new | gone | ⟨no, -⟩
    · rw [new] at shown
      exact (Option.some.inj shown).symm
    · rw [gone] at shown
      cases shown
    · exact absurd rfl no
  · have none : ∀ plane < ssdMaxPlanes, v2.record (b' * ssdMaxPlanes + plane) 0 = none := by
      intro plane inside
      rcases attempt.page plane inside with new | gone | ⟨no, -⟩
      · exact absurd ⟨plane, inside, new⟩ there
      · exact gone
      · exact absurd rfl no
    obtain ⟨⟨g, p, r, wins, holds, at'⟩, -⟩ := won
    have low := wins.group
    simp only [metaBitmapSize] at at' next few low
    have older : ∀ x y, v.firstRecord g 0 = some x → v2.firstRecord b' 0 = some y → y.version < x.version := by
      intro x y _ shown
      rw [View.firstRecord_none none] at shown
      cases shown
    refine ⟨k + 1, Nat.le_refl _, ⟨⟨g, p, r, wins.elsewhere (by omega) older fun pos inside other pg low =>
      attempt.elsewhere (Nat.le_refl _) inside other low, holds, ?_⟩, fun _ => ⟨?_, none⟩⟩⟩
    · simp only [metaBitmapSize]
      omega
    · rw [attempt.frame.metaPos]

end Area

/-! ## The record of a flush -/

/-- The step condition: while an erase of a metadata block is under way, page 0 of
every other group is older than the record to be written, and an erase that fails
leaves no record in its block. -/
def durable : May := fun d a o => ∀ pos < reserveBlocksMeta, a = .chan (posChannel pos) .await →
  (d.ch (posChannel pos)).outstanding = some (tableCmd (physBlock pos) 0 flagErasetables) →
    Fresher (view d) ∧
      (o.ret ≠ .ok → ∀ pg < ssdPagesPerBlock, ((view d).erased pos o).record pos pg = none)

/-- `may` keeps the step condition. -/
def Careful (may : May) : Prop := ∀ d a o, may d a o → durable d a o

section Flush

variable {may : May} {v : View} {b : Nat}

theorem Careful.asked (careful : Careful may) {pos : Nat} {o : Outcome}
    (inside : pos < reserveBlocksMeta) (allowed : MayTable may v pos 0 flagErasetables o) :
    Fresher v ∧ (o.ret ≠ .ok → ∀ pg < ssdPagesPerBlock, (v.erased pos o).record pos pg = none) := by
  obtain ⟨d, rfl, issued, mayO⟩ := allowed
  exact careful d _ o mayO pos inside rfl issued

theorem Careful.wipes (careful : Careful may) : Wipes may :=
  fun _ _ _ inside allowed => (careful.asked inside allowed).2

theorem findNewMetaBlock_group (b : Nat) : ∃ b' < metaBitmapSize,
    findNewMetaBlock (b * ssdMaxPlanes) = b' * ssdMaxPlanes :=
  ⟨_, Nat.mod_lt _ (by decide), rfl⟩

/-- The next position: the next page, or the first page of a group. -/
theorem nextMetaPos_cases (ret : Int) {p : MetaPosition} (page : p.page < ssdPagesPerBlock)
    (atGroup : p.blockPos = b * ssdMaxPlanes) :
    ret = ssdOk ∧ p.page + 1 < ssdPagesPerBlock ∧ nextMetaPos ret p = { p with page := p.page + 1 } ∨
      ∃ b' < metaBitmapSize, nextMetaPos ret p = ⟨0, b' * ssdMaxPlanes⟩ := by
  obtain ⟨b', group, eq⟩ := findNewMetaBlock_group b
  rw [nextMetaPos, atGroup, eq]
  by_cases ok : ret = ssdOk
  · rw [if_neg (not_not.2 ok)]
    by_cases last : p.page = ssdPagesPerBlock - 1
    · rw [if_pos last]
      exact .inr ⟨b', group, rfl⟩
    · rw [if_neg last]
      refine .inl ⟨ok, ?_, by rw [← atGroup]⟩
      omega
  · rw [if_pos ok]
    exact .inr ⟨b', group, rfl⟩

theorem nextMetaPos_group {ret : Int} {p : MetaPosition} {b' : Nat} (atGroup : p.blockPos = b * ssdMaxPlanes)
    (next : nextMetaPos ret p = ⟨0, b' * ssdMaxPlanes⟩) : b' = (b + 1) % metaBitmapSize := by
  simp only [nextMetaPos, atGroup, findNewMetaBlock, ssdMaxPlanes, metaBitmapSize] at next ⊢
  split at next
  · simp only [MetaPosition.mk.injEq] at next
    omega
  · split at next <;> simp only [MetaPosition.mk.injEq] at next <;> omega

/-- What one more attempt, or a few, make of the record that wins. -/
def StaysWon (ret : Int) (n : Nat) (v : View) (b : Nat) (v' : View) (b' : Nat) : Prop := ∀ P k, WonBy P v b k →
  (ret = ssdOk → k = 0) → k + n < metaBitmapSize → P v.metadata → ∃ k' ≤ k + n, WonBy P v' b' k'

/-- One attempt of `flush_metadata`, with the move before it. -/
theorem attempt_spec (careful : Careful may) (area : Area v b)
    (valid : metadataCheckVal v.metadata = ssdOk) (ret : Int) (headed : ret = ssdOk → Headed v) :
    OnView always may (findNewMetaPos ret >>= fun _ => writeMetadataPageDuplicate) (fun ret' v' =>
      ∃ b', Area v' b' ∧ v'.metadata = v.metadata ∧ v'.opened = v.opened ∧
        (ret' = ssdOk → Wins v' b' v'.metaPos.page v.metadata) ∧ StaysWon ret 1 v b v' b') v := by
  refine OnView.seq (M := fun _ v1 => v1 = { v with metaPos := nextMetaPos ret v.metaPos }) ?_ ?_
  · rw [findNewMetaPos]
    refine OnView.seq (OnView.modMetaPos trivial _) ?_
    rintro _ v1 ⟨rfl, -⟩
    exact OnView.pure rfl
  rintro _ v1 rfl
  rcases nextMetaPos_cases ret area.page area.atGroup with ⟨ok, room, next⟩ | ⟨b', group, next⟩
  · -- the next page of the group
    rw [next]
    refine (writeMetadataPageDuplicate_spec
      (v := { v with metaPos := { v.metaPos with page := v.metaPos.page + 1 } }) careful.wipes
      area.group area.atGroup room valid fun _ _ => trivial).weaken ?_
    rintro ret' v2 ⟨attempt, -, found, -⟩
    have after := area.nextPage room rfl attempt
    have samePos := attempt.frame.metaPos
    refine ⟨b, after, attempt.metadata, attempt.frame.opened, fun ok' => ?_, fun P k won zero _ new => ?_⟩
    swap
    · obtain rfl := zero ok
      exact ⟨0, Nat.zero_le _, won.nextPage area room (headed ok) rfl attempt new⟩
    rw [samePos]
    have wins := after.wins (m := v.metadata)
    rw [samePos] at wins
    refine wins ?_ (found ok') fun plane inside x shown => ?_
    · obtain ⟨plane, inside, x, there⟩ := headed ok room
      rw [area.atGroup] at there
      refine ⟨plane, inside, x, ?_⟩
      rw [attempt.others plane inside 0 (by decide) (Nat.succ_ne_zero _).symm,
        if_neg (Nat.succ_ne_zero _)]
      exact there
    · rcases attempt.page plane inside with new | gone | ⟨-, old⟩
      · rw [new] at shown
        exact (Option.some.inj shown).symm
      · rw [gone] at shown
        cases shown
      · rw [old] at shown
        have none := area.ahead plane inside (v.metaPos.page + 1) (Nat.lt_succ_self _) room
        exact absurd (none.symm.trans shown) (by simp)
  · -- the first page of the next group
    rw [next]
    refine (writeMetadataPageDuplicate_spec (v := { v with metaPos := ⟨0, b' * ssdMaxPlanes⟩ })
      careful.wipes group rfl (Nat.zero_lt_of_lt area.page) valid fun _ _ => trivial).weaken ?_
    rintro ret' v2 ⟨attempt, asked, found, -⟩
    obtain ⟨o, allowed⟩ := asked rfl
    have fresher := (careful.asked (groupPos_lt group (show 0 < ssdMaxPlanes by decide)) allowed).1
    have after := area.nextGroup group rfl fresher attempt
    have samePos := attempt.frame.metaPos
    refine ⟨b', after, attempt.metadata, attempt.frame.opened, fun ok' => ?_, fun P k won _ few new =>
      won.nextGroup few area (nextMetaPos_group area.atGroup next) rfl fresher attempt new⟩
    have wins := after.wins (m := v.metadata)
    rw [samePos] at wins
    rw [samePos]
    obtain ⟨plane, inside, there⟩ := found ok'
    refine wins ⟨plane, inside, _, there⟩ ⟨plane, inside, there⟩ fun plane inside x shown => ?_
    rcases attempt.page plane inside with new | gone | ⟨no, -⟩
    · rw [new] at shown
      exact (Option.some.inj shown).symm
    · rw [gone] at shown
      cases shown
    · exact absurd rfl no

theorem flushMetadataLoop_spec (careful : Careful may) (area : Area v b)
    (valid : metadataCheckVal v.metadata = ssdOk) (n : Nat) (ret : Int)
    (entry : ret = ssdOk → 0 < n ∧ Headed v) :
    OnView always may (flushMetadataLoop n ret) (fun ret' v' => ∃ b', Area v' b' ∧
      v'.metadata = v.metadata ∧ v'.opened = v.opened ∧
      (ret' = ssdOk → Wins v' b' v'.metaPos.page v.metadata) ∧ StaysWon ret n v b v' b') v := by
  induction n generalizing v b ret with
  | zero =>
      exact OnView.pure ⟨b, area, rfl, rfl, fun ok => absurd (entry ok).1 (Nat.lt_irrefl 0),
        fun P k won _ _ _ => ⟨k, Nat.le_refl _, won⟩⟩
  | succ n ih =>
      have attempt := attempt_spec careful area valid ret fun ok => (entry ok).2
      have split : flushMetadataLoop (n + 1) ret =
          (findNewMetaPos ret >>= fun _ => writeMetadataPageDuplicate) >>= fun ret' =>
            if ret' = ssdOk then pure ret' else flushMetadataLoop n ret' := by
        rw [flushMetadataLoop, findNewMetaPos]
        rfl
      rw [split]
      refine OnView.seq attempt ?_
      rintro ret' v1 ⟨b', area', metadata, opened, wins, stays⟩
      split
      · refine OnView.pure ⟨b', area', metadata, opened, wins, fun P k won zero few new => ?_⟩
        obtain ⟨k', le, won'⟩ := stays P k won zero (by omega) new
        exact ⟨k', by omega, won'⟩
      · rename_i failed
        refine (ih area' (by rwa [metadata]) ret' fun ok => absurd ok failed).weaken ?_
        rintro ret'' v2 ⟨b'', area'', metadata', opened', wins', stays'⟩
        refine ⟨b'', area'', metadata'.trans metadata, opened'.trans opened, ?_, fun P k won zero few new => ?_⟩
        · rwa [← metadata]
        · obtain ⟨k1, le1, won1⟩ := stays P k won zero (by omega) new
          obtain ⟨k2, le2, won2⟩ := stays' P k1 won1 (fun ok => absurd ok failed) (by omega) (by rwa [metadata])
          exact ⟨k2, by omega, won2⟩

/-- **The record of a flush.** When it is written it is the one that wins. -/
theorem flushMetadata_spec (careful : Careful may) (area : Area v b)
    (valid : metadataCheckVal v.metadata = ssdOk) (headed : Headed v) :
    OnView always may flushMetadata (fun ret v' => ∃ b', Area v' b' ∧
      v'.metadata = v.metadata ∧ v'.opened = v.opened ∧
      (ret = ssdOk → Wins v' b' v'.metaPos.page v.metadata) ∧ StaysWon ssdOk ssdMaxFlushMetaRetry v b v' b') v :=
  flushMetadataLoop_spec careful area valid _ ssdOk fun _ => ⟨by decide, headed⟩

/-- What a step leaves alone when the metadata blocks are as they were. -/
structure Untouched (v v' : View) : Prop where
  page : ∀ pos < reserveBlocksMeta, ∀ pg < ssdPagesPerBlock,
    v'.page pos pg = v.page pos pg ∧ v'.suspect pos pg = v.suspect pos pg
  metadata : v'.metadata = v.metadata
  metaPos : v'.metaPos = v.metaPos
  opened : v'.opened = v.opened

/-- The invariant moves to a state with the same blocks and a record that is not older. -/
theorem Area.keep {v' : View} (area : Area v b)
    (page : ∀ pos < reserveBlocksMeta, ∀ pg < ssdPagesPerBlock,
      v'.page pos pg = v.page pos pg ∧ v'.suspect pos pg = v.suspect pos pg)
    (samePos : v'.metaPos = v.metaPos) (newer : v.metadata.version ≤ v'.metadata.version) :
    Area v' b := by
  have record : ∀ pos < reserveBlocksMeta, ∀ pg < ssdPagesPerBlock,
      v'.record pos pg = v.record pos pg := fun pos inside pg low =>
    View.record_congr (page pos inside pg low).1
  have low : 0 < ssdPagesPerBlock := by decide
  refine ⟨fun pos pg inside low => ?_, area.group, by rw [samePos, area.atGroup], by
    rw [samePos]; exact area.page, UInt64.lt_of_lt_of_le area.positive newer,
    fun pos inside pg low r shown => ?_, fun plane inside pg above high => ?_,
    fun plane inside x shown pos inside' other y shown' => ?_⟩
  · rw [(page pos inside pg low).2]
    exact area.clean pos pg inside low
  · rw [record pos inside pg low] at shown
    obtain ⟨positive, older⟩ := area.versions pos inside pg low r shown
    exact ⟨positive, UInt64.le_trans older newer⟩
  · rw [samePos] at above
    rw [record _ (groupPos_lt area.group inside) pg high]
    exact area.ahead plane inside pg above high
  · rw [record _ (groupPos_lt area.group inside) 0 low] at shown
    rw [record pos inside' 0 low] at shown'
    exact area.leads plane inside x shown pos inside' other y shown'

/-- A flush without a wrapping counter gives the record a newer version. -/
theorem flushed_version {m : SsdMetadata} (n : Nat) (type : FlushType) (now : UInt64)
    (room : m.version.toNat + 1 < 2 ^ 64) :
    (flushed n type now m).version.toNat = m.version.toNat + 1 := by
  have sum : (m.version + 1).toNat = m.version.toNat + 1 := by
    rw [UInt64.toNat_add]
    exact Nat.mod_eq_of_lt room
  have nonzero : m.version + 1 ≠ 0 := fun zero => by
    rw [zero] at sum
    exact absurd sum (Nat.succ_ne_zero _).symm
  simp only [flushed, updateMeta]
  rw [if_neg nonzero, sum]

theorem OnlyPositions.version {m m' : SsdMetadata} (only : OnlyPositions m m') :
    m'.version = m.version := by
  rw [only]

/-- The conditions before a flush: the counter does not wrap, and the flush starts
a new group or finds a page 0 in the current one. -/
def FlushReady (v : View) : Prop := v.metadata.version.toNat + 1 < 2 ^ 64 ∧ Headed v

/-- A record with `P` still wins, where every record that the flush may write has `P`. -/
def FlushKeeps (type : FlushType) (v : View) (b : Nat) (v' : View) (b' : Nat) : Prop := ∀ P : SsdMetadata → Prop,
  (∀ n now m, P (flushed n type now m)) → WonBy P v b 0 → ∃ k ≤ ssdMaxFlushMetaRetry, WonBy P v' b' k

/-- **One flush.** -/
theorem ssdSysFlush_durable (careful : Careful may) (area : Area v b) (opened : v.opened = true)
    (ready : FlushReady v) (type : FlushType) : OnView always may (ssdSysFlush type) (fun ret v' =>
      ∃ b', Area v' b' ∧ v'.opened = true ∧ (ret = ssdOk → Wins v' b' v'.metaPos.page v'.metadata) ∧
        FlushKeeps type v b v' b') v := by
  have blind : ∀ P, Blind always P := fun _ _ _ _ _ => trivial
  have blindImage : BlindImage always := fun _ _ _ => trivial
  rw [ssdSysFlush]
  refine OnView.seq (OnView.getOpened trivial) ?_
  rintro flag v ⟨rfl, rfl⟩
  rw [opened, if_neg (by decide)]
  refine OnView.seq (OnView.silent (a := .downFlush) trivial trivial) ?_
  rintro _ v rfl
  refine OnView.seq (M := fun ret v' => ∃ b', Area v' b' ∧ v'.opened = true ∧
    (ret = ssdOk → Wins v' b' v'.metaPos.page v'.metadata) ∧ FlushKeeps type v b v' b') ?_ ?_
  · -- every image leaves the area alone
    have imaged : ∀ image, Area (v.setImage image) b := fun image =>
      area.keep (fun _ _ _ _ => ⟨rfl, rfl⟩) rfl (UInt64.le_refl _)
    rw [ssdSysFlushBody]
    refine OnView.seq (M := fun _ v' => ∃ image, v' = v.setImage image) ?_ ?_
    · refine (OnView.modFlush trivial _).weaken fun _ v' eq => ?_
      exact ⟨_, eq⟩
    rintro _ _ ⟨image, rfl⟩
    refine OnView.seq (copyRamTables_spec blindImage trivial) ?_
    rintro found _ ⟨image, rfl, -, bad, -⟩
    cases found with
    | some ret =>
        refine OnView.pure ⟨b, imaged _, opened, fun ok => absurd ok (bad ret rfl), fun P _ won => ?_⟩
        exact ⟨0, Nat.zero_le _, won.congr area.group rfl fun _ _ _ _ => rfl⟩
    | none =>
    refine OnView.seq (copyIdHash_spec blindImage trivial) ?_
    rintro n _ ⟨rfl, rfl⟩
    refine OnView.seq (flushTabledata_spec _ type (blind _) trivial) ?_
    rintro ret v2 ⟨frame, ⟨m, j, off, placed, -, -, answer⟩, -⟩
    have page : ∀ pos < reserveBlocksMeta, ∀ pg < ssdPagesPerBlock, v2.page pos pg = v.page pos pg ∧
        v2.suspect pos pg = v.suspect pos pg := fun pos inside pg low =>
      frame.page pos (metaPos_inside inside) (fun member => Nat.not_lt.2 (ring_range member) inside)
        pg low
    have samePos : v2.metaPos = v.metaPos := frame.metaPos
    have opened2 : v2.opened = true := frame.opened.trans opened
    have version : m.version = v.metadata.version := placed.only.version
    have record2 : ∀ pos < reserveBlocksMeta, ∀ pg < ssdPagesPerBlock, v2.record pos pg = v.record pos pg :=
      fun pos inside pg low => View.record_congr (page pos inside pg low).1
    rcases answer with ⟨rfl, -, -, ⟨now, record⟩, -⟩ | ⟨bad, record⟩
    swap
    · rw [if_pos bad]
      refine OnView.pure ⟨b, area.keep page samePos ?_, opened2, fun ok => absurd ok bad, fun P _ won => ?_⟩
      · rw [record, version]
        exact UInt64.le_refl _
      · exact ⟨0, Nat.zero_le _, won.congr area.group samePos record2⟩
    · rw [if_neg (by decide)]
      have newer : v.metadata.version ≤ v2.metadata.version := by
        rw [UInt64.le_iff_toNat_le, record, flushed_version _ _ _ (by rw [version]; exact ready.1),
          version]
        omega
      have valid : metadataCheckVal v2.metadata = ssdOk := by
        rw [record]
        exact updateMeta_valid ..
      have headed : Headed v2 := by
        intro room
        rw [samePos] at room ⊢
        obtain ⟨plane, inside, x, shown⟩ := ready.2 room
        refine ⟨plane, inside, x, ?_⟩
        rw [area.atGroup] at shown ⊢
        rw [View.record_congr (page _ (groupPos_lt area.group inside) 0 (by decide)).1]
        exact shown
      refine (flushMetadata_spec careful (area.keep page samePos newer) valid headed).weaken ?_
      rintro ret v3 ⟨b', area', metadata, opened3, wins, stays⟩
      refine ⟨b', area', opened3.trans opened2, by rwa [metadata], fun P new won => ?_⟩
      have won2 := won.congr area.group samePos record2
      obtain ⟨k, le, won3⟩ := stays P 0 won2 (fun _ => rfl) (by decide) (by rw [record]; exact new ..)
      exact ⟨k, by omega, won3⟩
  · rintro ret v2 ⟨b', area', opened', wins⟩
    refine OnView.seq (OnView.silent (a := .upFlush) trivial trivial) ?_
    rintro _ v2 rfl
    exact OnView.pure ⟨b', area', opened', wins⟩

end Flush

/-! ## Histories -/

/-- A history of flushes with the answer of the last one. Between two flushes
anything may happen that leaves the metadata blocks alone. -/
inductive Flushes (may : May) (ready : View → Prop) (start : Device) : Option Int → Device → Prop
  | start : Flushes may ready start none start
  | between {last : Option Int} {d d' : Device} (before : Flushes may ready start last d)
      (untouched : Untouched (view d) (view d')) : Flushes may ready start last d'
  | flush {last : Option Int} {d d' : Device} {ret : Int} (type : FlushType)
      (before : Flushes may ready start last d) (now : ready (view d))
      (run : Run may (ssdSysFlush type) d ret d') : Flushes may ready start (some ret) d'

/-- No metadata block holds anything. -/
structure Bare (v : View) : Prop where
  clean : v.Clean
  empty : ∀ pos < reserveBlocksMeta, ∀ pg < ssdPagesPerBlock, v.page pos pg = none

/-- An open card behind `ssd_init_meta`, with its metadata blocks erased. -/
structure NewCard (v : View) : Prop where
  bare : Bare v
  metadata : ∃ m, v.metadata = initMeta m
  metaPos : v.metaPos = initMetaPos
  opened : v.opened = true

theorem Bare.record {v : View} (bare : Bare v) {pos pg : Nat} (inside : pos < reserveBlocksMeta)
    (low : pg < ssdPagesPerBlock) : v.record pos pg = none := by
  rw [View.record, bare.empty pos inside pg low]
  rfl

theorem NewCard.area {v : View} (card : NewCard v) : Area v 0 := by
  obtain ⟨m, metadata⟩ := card.metadata
  have none : ∀ {pos pg : Nat}, pos < reserveBlocksMeta → pg < ssdPagesPerBlock →
      ∀ r, v.record pos pg ≠ some r := fun inside low r shown => by
    rw [card.bare.record inside low] at shown
    cases shown
  refine ⟨card.bare.clean, by decide, by rw [card.metaPos]; rfl, by rw [card.metaPos]; decide, by
    rw [metadata]; exact (by decide : (0 : UInt64) < 1), fun pos inside pg low r shown => ?_,
    fun plane inside pg _ high => ?_, fun plane inside x shown => ?_⟩
  · exact absurd shown (none inside low r)
  · exact card.bare.record (groupPos_lt (by decide) inside) high
  · exact absurd shown (none (groupPos_lt (by decide) inside) (by decide) x)

theorem Flushes.area {start d : Device} {last : Option Int} {b0 : Nat} (area0 : Area (view start) b0)
    (opened0 : start.opened = true) (history : Flushes durable FlushReady start last d) : ∃ b, Area (view d) b ∧
      d.opened = true ∧ (last = some ssdOk → Wins (view d) b d.metaPos.page d.metadata) := by
  induction history with
  | start => exact ⟨b0, area0, opened0, fun no => nomatch no⟩
  | @between last d d' before untouched ih =>
      obtain ⟨b, area, opened, wins⟩ := ih
      have samePos : (view d').metaPos = (view d).metaPos := untouched.metaPos
      have same : d'.metadata = d.metadata := untouched.metadata
      have record : ∀ {pos pg : Nat}, pos < reserveBlocksMeta → pg < ssdPagesPerBlock →
          (view d').record pos pg = (view d).record pos pg := fun inside low =>
        View.record_congr (untouched.page _ inside _ low).1
      refine ⟨b, area.keep untouched.page samePos (by rw [untouched.metadata]; exact UInt64.le_refl _),
        untouched.opened.trans opened, fun ok => ?_⟩
      rw [same, show d'.metaPos = d.metaPos from samePos]
      exact (wins ok).congr fun g group pg low plane inside => record (groupPos_lt group inside) low
  | @flush last d d' ret type before now run ih =>
      obtain ⟨b, area, opened, -⟩ := ih
      obtain ⟨b', area', opened', wins, -⟩ :=
        (ssdSysFlush_durable (fun _ _ _ => id) area opened now type).runs run
      refine ⟨b', area', opened', fun ok => wins ?_⟩
      exact Option.some.inj ok

/-- Behind a flush that succeeded the search selects its record, from every open card whose
metadata blocks are in order. -/
theorem Flushes.selected {start d d' : Device} {b0 : Nat} (area0 : Area (view start) b0)
    (opened0 : start.opened = true) (history : Flushes durable FlushReady start (some ssdOk) d)
    (same : ∀ pos < reserveBlocksMeta, ∀ pg < ssdPagesPerBlock,
      (view d').page pos pg = (view d).page pos pg ∧ (view d').suspect pos pg = (view d).suspect pos pg)
    (idle : Mirrors Held.none d') :
    (∃ ret d'', Run noFailure ssdSearchMetadata d' ret d'') ∧
      ∀ ret d'', Run noFailure ssdSearchMetadata d' ret d'' →
        ret = ssdOk ∧ d''.metadata = d.metadata := by
  obtain ⟨b, area, -, wins⟩ := history.area area0 opened0
  refine ⟨?_, fun ret d'' run => ?_⟩
  · obtain ⟨ret, d'', run, -⟩ := exists_run noFailure_live idle
      (ssdSearchMetadata_locks free_none)
    exact ⟨ret, d'', run⟩
  · have clean : (view d').Clean := fun pos pg inside low => by
      rw [(same pos inside pg low).2]
      exact area.clean pos pg inside low
    have wins' : Wins (view d') _ _ _ := (wins rfl).congr fun g group pg low plane inside =>
      View.record_congr (same _ (groupPos_lt group inside) pg low).1
    obtain ⟨ok, found⟩ := (ssdSearchMetadata_spec (fun _ _ _ => id) clean wins').runs run
    exact ⟨ok, congrArg View.metadata found⟩

/-- **A flush that succeeded is durable.** In a history whose steps keep `durable`
and whose flushes start `FlushReady`, a search of the card after a flush that
succeeded selects the record of that flush. -/
theorem flush_is_durable {start d d' : Device} (card : NewCard (view start))
    (history : Flushes durable FlushReady start (some ssdOk) d)
    (same : ∀ pos < reserveBlocksMeta, ∀ pg < ssdPagesPerBlock,
      (view d').page pos pg = (view d).page pos pg ∧ (view d').suspect pos pg = (view d).suspect pos pg)
    (idle : Mirrors Held.none d') :
    (∃ ret d'', Run noFailure ssdSearchMetadata d' ret d'') ∧
      ∀ ret d'', Run noFailure ssdSearchMetadata d' ret d'' →
        ret = ssdOk ∧ d''.metadata = d.metadata := history.selected card.area card.opened same idle

/-! ## A first flush -/

theorem durable_of_noFailure {d : Device} {a : Act} {o : Outcome} (allowed : noFailure d a o)
    (fresher : Fresher (view d)) : durable d a o := by
  rintro pos inside rfl issued
  have flawless : Flawless noFailure := fun _ _ _ => id
  refine ⟨fresher, fun failed => absurd ?_ failed⟩
  exact (MayTable.ok flawless ⟨d, rfl, issued, allowed⟩ (by decide) (by decide) (by decide)).1

/-- The card behind `ssd_sys_open_newcard`, with no ids. -/
def newCard : Device := { emptyDevice with metadata := initMeta emptyDevice.metadata }

theorem newCard_mirrors : Mirrors Held.none newCard := ⟨fun _ => rfl, rfl, fun _ => rfl⟩

theorem newCard_new : NewCard (view newCard) :=
  ⟨⟨fun _ _ _ _ => rfl, fun _ _ _ _ => rfl⟩, ⟨_, rfl⟩, rfl, rfl⟩

theorem newCard_ready : FlushReady (view newCard) :=
  ⟨by decide, fun room => absurd room (by decide)⟩

/-- No page of the metadata blocks shows a record. -/
def NoRecords (v : View) : Prop := ∀ pos < reserveBlocksMeta, ∀ pg < ssdPagesPerBlock,
  v.record pos pg = none

/-- Only the group of the position shows a page 0. -/
def Lone (v : View) : Prop := ∀ pos < reserveBlocksMeta, pos / ssdMaxPlanes * ssdMaxPlanes ≠ v.metaPos.blockPos →
  v.record pos 0 = none

theorem Lone.fresher {v : View} (lone : Lone v) : Fresher v := by
  intro pos inside other y shown
  rw [lone pos inside other] at shown
  cases shown

/-- The same, and it is the group `b` as well. -/
def LoneIn (b : Nat) (v : View) : Prop := ∀ pos < reserveBlocksMeta,
  pos / ssdMaxPlanes * ssdMaxPlanes ≠ v.metaPos.blockPos ∨ pos / ssdMaxPlanes ≠ b → v.record pos 0 = none

section Lone

variable {v v1 v' : View} {b : Nat} {type : FlushType}

theorem LoneIn.lone (lone : LoneIn b v) : Lone v := fun pos inside other => lone pos inside (.inl other)

theorem NoRecords.lone (none : NoRecords v) : LoneIn b v := fun pos inside _ => none pos inside 0 (by decide)

theorem blind_loneIn {n : Nat} {cur : Nat} : Blind (LoneIn b) (Ring cur n) := by
  intro v v' frame lone pos inside other
  rw [frame.metaPos] at other
  rw [View.record_frame frame (metaPos_inside inside) ?_ (by decide), lone pos inside other]
  exact fun member => Nat.not_lt.2 (ring_range member) inside

variable (alone : LoneIn b v) (atGroup : (nextMetaPos ssdOk v.metaPos).blockPos = b * ssdMaxPlanes)

include alone atGroup

/-- While the record is written, and behind it. -/
theorem Tabled.lone (tabled : Tabled type v v1)
    (frame : Frame (fun pos => ∃ plane < ssdMaxPlanes, pos = b * ssdMaxPlanes + plane) v1.moved v') : Lone v' := by
  intro pos inside other
  have samePos : v1.metaPos = v.metaPos := tabled.frame.metaPos
  rw [frame.metaPos, View.moved, samePos, atGroup] at other
  have out : pos / ssdMaxPlanes ≠ b := by
    rintro rfl
    exact other rfl
  rw [View.record_frame frame (metaPos_inside inside) ?_ (by decide)]
  · exact blind_loneIn tabled.frame alone pos inside (.inr out)
  · rintro ⟨plane, less, rfl⟩
    exact out (plane_div less)

theorem Flushed.lone (flushed : Flushed type v v' b) : Lone v' := by
  obtain ⟨v1, tabled, attempt, -⟩ := flushed
  exact tabled.lone alone atGroup attempt.frame

/-- **A flush beside no record.** -/
theorem lone_flush (opened : v.opened = true) (few : v.nodes.length ≤ ssdMaxIdNum) (group : b < metaBitmapSize)
    (low : (nextMetaPos ssdOk v.metaPos).page < ssdPagesPerBlock) (type : FlushType) :
    OnView Lone noFailure (ssdSysFlush type) (fun ret v' => ret = ssdOk ∧ Flushed type v v' b) v := by
  have flawless : Flawless noFailure := fun _ _ _ => id
  have blindImage : BlindImage (LoneIn b) := fun _ _ holds => holds
  refine ssdSysFlush_flawless flawless type opened few group atGroup low blindImage blind_loneIn alone
    (fun _ => LoneIn.lone) (fun v1 v' tabled stage => ?_) fun v' flushed => flushed.lone alone atGroup
  refine tabled.lone alone atGroup (stage.frame group ?_)
  rw [View.moved, tabled.frame.metaPos]
  exact low

end Lone

/-- The first flush of a card writes beside no record. -/
theorem first_flush {v : View} (none : NoRecords v) (opened : v.opened = true)
    (few : v.nodes.length ≤ ssdMaxIdNum) (start : v.metaPos = initMetaPos) (type : FlushType) :
    OnView Lone noFailure (ssdSysFlush type) (fun ret v' => ret = ssdOk ∧ Flushed type v v' 1) v := by
  have next : nextMetaPos ssdOk v.metaPos = ⟨0, 1 * ssdMaxPlanes⟩ := by rw [start]; rfl
  exact lone_flush none.lone (by rw [next]) opened few (by decide) (by rw [next]; decide) type

/-- The first flush of a new card keeps the step condition. -/
theorem first_flush_run : ∃ d, Run durable (ssdSysFlush .normal) newCard ssdOk d ∧
    Flushed .normal (view newCard) (view d) 1 ∧ Mirrors Held.none d := by
  have none : NoRecords (view newCard) := fun pos inside pg low => newCard_new.bare.record inside low
  have triple := first_flush none rfl (by rw [nodes_nil fun _ _ => rfl]; exact Nat.zero_le _) rfl .normal
  obtain ⟨ret, d, run, idle⟩ := exists_run noFailure_live newCard_mirrors
    (ssdSysFlush_locks free_none rfl .normal)
  obtain ⟨rfl, flushed⟩ := triple.runs run
  refine ⟨d, ?_, flushed, idle⟩
  exact (Safe.runs_must (fun _ => rfl) (triple newCard rfl) run).mono
    fun _ _ _ both => durable_of_noFailure both.1 both.2.fresher

theorem first_flush_is_durable : ∃ d, Flushes durable FlushReady newCard (some ssdOk) d ∧
    ∀ ret d', Run noFailure ssdSearchMetadata d ret d' → ret = ssdOk ∧ d'.metadata = d.metadata := by
  obtain ⟨d, run, -, idle⟩ := first_flush_run
  have history : Flushes durable FlushReady newCard (some ssdOk) d :=
    .flush .normal .start newCard_ready run
  exact ⟨d, history, (flush_is_durable newCard_new history (fun _ _ _ _ => ⟨rfl, rfl⟩) idle).2⟩

/-! ## Without the condition -/

/-- Every erase of a metadata block fails. -/
def brokenErase : May := fun d a o => o.failed = false ∧ ∀ pos < reserveBlocksMeta,
  a = .chan (posChannel pos) .await →
    (d.ch (posChannel pos)).outstanding = some (tableCmd (physBlock pos) 0 flagErasetables) →
      o.ret ≠ .ok

theorem brokenErase_live : Live brokenErase := by
  refine ⟨fun d c cmd issued => ⟨ramTimesOut, ⟨rfl, fun _ _ _ _ => nofun⟩, ?_⟩,
    fun d a other => ⟨ramTimesOut, ⟨rfl, fun _ _ _ _ => nofun⟩, rfl⟩⟩
  simp only [Flash.exec]
  split <;> rfl

theorem Bare.erased {v : View} (bare : Bare v) {pos : Nat} (inside : pos < reserveBlocksMeta)
    (o : Outcome) : Bare (v.erased pos o) := by
  refine ⟨clean_erased inside bare.clean, fun pos' inside' pg low => ?_⟩
  rw [View.page_erased (metaPos_inside inside) (metaPos_inside inside') low]
  split
  · rfl
  · exact bare.empty pos' inside' pg low

/-- The metadata blocks stay bare, and nothing else moves. -/
structure Blank (v v' : View) : Prop where
  bare : Bare v'
  hash : v'.hash = v.hash
  metaPos : v'.metaPos = v.metaPos
  opened : v'.opened = v.opened

section Broken

variable {v : View} {b : Nat}

/-- The planes of a first page, all of which fail. -/
theorem writeMetaPages_broken (group : b < metaBitmapSize) (atGroup : v.metaPos = ⟨0, b * ssdMaxPlanes⟩)
    (bare : Bare v) (planes : List Nat) (inside : ∀ plane ∈ planes, plane < ssdMaxPlanes) (n : Nat) :
    OnView always brokenErase (writeMetaPages planes n) (fun n' v' => n' = n ∧ Blank v v') v := by
  induction planes generalizing v n with
  | nil => exact OnView.pure ⟨rfl, bare, rfl, rfl, rfl⟩
  | cons plane rest ih =>
      have mine := inside plane (List.mem_cons_self ..)
      have insidePos := groupPos_lt group mine
      rw [writeMetaPages]
      refine OnView.seq (M := fun ret v' => ret ≠ ssdOk ∧ Blank v v') ?_ ?_
      · rw [writeMetaPage]
        refine OnView.seq (OnView.getMetaPos trivial) ?_
        rintro p v ⟨rfl, rfl⟩
        rw [atGroup, if_neg (by simp only [ssdMaxPlanes]; omega)]
        refine OnView.seq (M := fun ret v' => ret ≠ ssdOk ∧ Blank v v') ?_ ?_
        · rw [eraseIfFirstPage, if_pos rfl]
          refine (eraseOneReserveBlock_spec (fun _ _ _ => trivial) trivial
            (metaPos_inside insidePos)).weaken ?_
          rintro ret v1 ⟨o, ⟨d, -, issued, -, failed⟩, rfl, rfl⟩
          have rest : View.SameRest v (v.erased (b * ssdMaxPlanes + plane) o) := View.sameRest_erased
          exact ⟨fun ok => failed _ insidePos rfl issued (ChannelRet.toInt_eq_zero.1 ok),
            bare.erased insidePos o, rest.hash, rest.metaPos, rest.opened⟩
        · rintro ret v1 ⟨bad, blank⟩
          rw [if_pos bad]
          exact OnView.pure ⟨bad, blank⟩
      · rintro ret v1 ⟨bad, blank⟩
        rw [if_neg bad]
        refine (ih (by rw [blank.metaPos, atGroup]) blank.bare (fun other member =>
          inside other (List.mem_cons_of_mem _ member)) n).weaken ?_
        rintro n' v2 ⟨same, blank'⟩
        exact ⟨same, blank'.bare, blank'.hash.trans blank.hash, blank'.metaPos.trans blank.metaPos,
          blank'.opened.trans blank.opened⟩

/-- An attempt on the first page of a group fails. -/
theorem attempt_broken (group : b < metaBitmapSize) (bare : Bare v) (ret : Int)
    (next : nextMetaPos ret v.metaPos = ⟨0, b * ssdMaxPlanes⟩) (n : Nat) {post : Int → View → Prop}
    (rest : ∀ v', Bare v' → v'.hash = v.hash → v'.metaPos = ⟨0, b * ssdMaxPlanes⟩ →
      v'.opened = v.opened → OnView always brokenErase (flushMetadataLoop n ssdError) post v') :
    OnView always brokenErase (flushMetadataLoop (n + 1) ret) post v := by
  rw [flushMetadataLoop, findNewMetaPos]
  refine OnView.seq (M := fun ret' v1 => ret' = ssdOk ∧
    v1 = { v with metaPos := nextMetaPos ret v.metaPos }) ?_ ?_
  · refine OnView.seq (OnView.modMetaPos trivial _) ?_
    rintro _ v1 ⟨rfl, -⟩
    exact OnView.pure ⟨rfl, rfl⟩
  rintro _ v1 ⟨rfl, rfl⟩
  rw [if_neg (by decide), writeMetadataPageDuplicate]
  refine OnView.seq (M := fun ret' v2 => ret' = ssdError ∧
    Blank { v with metaPos := nextMetaPos ret v.metaPos } v2) ?_ ?_
  · refine OnView.seq (writeMetaPages_broken (v := { v with metaPos := nextMetaPos ret v.metaPos })
      group next ⟨bare.clean, bare.empty⟩ _ (fun plane member => List.mem_range.1 member) 0) ?_
    rintro n' v2 ⟨rfl, blank⟩
    exact OnView.pure ⟨rfl, blank⟩
  · rintro ret' v2 ⟨rfl, blank⟩
    rw [if_neg (by decide)]
    exact rest v2 blank.bare blank.hash (blank.metaPos.trans next) blank.opened

/-- **Three attempts that fail** leave the position at page 0 of a group without a record. -/
theorem flushMetadata_broken (bare : Bare v) (start : v.metaPos = initMetaPos) :
    OnView always brokenErase flushMetadata (fun ret v' => ret = ssdError ∧ Bare v' ∧
      v'.hash = v.hash ∧ v'.metaPos = ⟨0, 3 * ssdMaxPlanes⟩ ∧ v'.opened = v.opened) v := by
  refine attempt_broken (by decide : 1 < metaBitmapSize) bare ssdOk (by rw [start]; rfl) 2 ?_
  intro v1 bare1 hash1 pos1 opened1
  refine attempt_broken (by decide : 2 < metaBitmapSize) bare1 ssdError (by rw [pos1]; rfl) 1 ?_
  intro v2 bare2 hash2 pos2 opened2
  refine attempt_broken (by decide : 3 < metaBitmapSize) bare2 ssdError (by rw [pos2]; rfl) 0 ?_
  intro v3 bare3 hash3 pos3 opened3
  exact OnView.pure ⟨rfl, bare3, hash3.trans (hash2.trans hash1), pos3,
    opened3.trans (opened2.trans opened1)⟩

end Broken

/-- A flush whose tables are written and whose record fails three times. -/
theorem broken_flush : ∃ ret d, Run anyOutcome (ssdSysFlush .normal) newCard ret d ∧
    Mirrors Held.none d ∧ Bare (view d) ∧ (∀ c b, ((view d).hash c b).first = []) ∧
    d.metaPos = ⟨0, 3 * ssdMaxPlanes⟩ ∧ d.opened = true := by
  have few : (view newCard).nodes.length ≤ ssdMaxIdNum := by
    rw [nodes_nil fun _ _ => rfl]
    exact Nat.zero_le _
  obtain ⟨d1, image, idle1, frame, -, finish⟩ := exists_tables newCard_mirrors rfl few .normal
  have apart : ∀ pos < reserveBlocksMeta, ¬ Ring (tableCur newCard.metadata)
      (ssdMaxFlushTableRetry * tableBlockNum (view newCard).nodes.length) pos := fun pos inside member =>
    Nat.not_lt.2 (ring_range member) inside
  -- the record
  have bare1 : Bare (view d1) := by
    refine ⟨fun pos pg inside low => ?_, fun pos inside pg low => ?_⟩
    · exact (frame.page pos (metaPos_inside inside) (apart pos inside) pg low).2
    · exact (frame.page pos (metaPos_inside inside) (apart pos inside) pg low).1
  obtain ⟨ret, d2, run2, idle2⟩ := exists_run brokenErase_live idle1 (flushMetadata_locks free_flushing)
  obtain ⟨rfl, bare2, hash2, pos2, opened2⟩ := (flushMetadata_broken bare1 frame.metaPos).runs run2
  refine ⟨ssdError, { d2 with flushSema := none }, finish (run_any run2),
    ⟨idle2.sema, rfl, idle2.issued⟩, bare2, ?_, pos2, opened2.trans frame.opened⟩
  intro c b
  have same : (view d2).hash c b = (view newCard).hash c b := by
    rw [hash2, frame.hash]
    rfl
  exact congrArg HashHead.first same

/-- A flush that succeeds at page 1 of a group whose page 0 could not be written is
not found again. -/
theorem failed_groups_hide_a_flush : ∃ d ret d', Flushes anyOutcome (fun _ => True) newCard (some ssdOk) d ∧
    Run noFailure ssdSearchMetadata d ret d' ∧ ret = -enometa := by
  have flawless : Flawless noFailure := fun _ _ _ => id
  obtain ⟨ret1, d1, run1, idle1, bare1, empty1, pos1, opened1⟩ := broken_flush
  obtain ⟨ret2, d2, run2, idle2⟩ := exists_run noFailure_live idle1 (ssdSysFlush_locks free_none rfl .normal)
  have next : nextMetaPos ssdOk (view d1).metaPos = ⟨1, 3 * ssdMaxPlanes⟩ := by
    rw [show (view d1).metaPos = d1.metaPos from rfl, pos1]
    rfl
  have blindImage : BlindImage always := fun _ _ _ => trivial
  have triple : OnView always noFailure (ssdSysFlush .normal)
      (fun ret v' => ret = ssdOk ∧ Flushed .normal (view d1) v' 3) (view d1) :=
    ssdSysFlush_flawless flawless .normal opened1 (by rw [nodes_nil empty1]; exact Nat.zero_le _)
      (by decide) (by rw [next]) (by rw [next]; decide) blindImage (fun _ _ => trivial) trivial
      (fun _ _ => trivial) (fun _ _ _ _ => trivial) fun _ _ => trivial
  obtain ⟨rfl, v1, tabled, attempt, -⟩ := triple.runs run2
  have page : v1.moved.metaPos.page = 1 := by
    rw [View.moved, tabled.frame.metaPos, show ((view d1).setImage v1.kbufFlush).metaPos =
      (view d1).metaPos from rfl, next]
  have bare : ∀ pos < reserveBlocksMeta, ∀ pg < ssdPagesPerBlock, v1.moved.page pos pg = none ∧
      v1.moved.suspect pos pg = false := fun pos inside pg low => by
    obtain ⟨same, mark⟩ := tabled.frame.page pos (metaPos_inside inside)
      (fun member => Nat.not_lt.2 (ring_range member) inside) pg low
    exact ⟨same.trans (bare1.empty pos inside pg low), mark.trans (bare1.clean pos pg inside low)⟩
  -- no page 0 shows a record
  have first : ∀ pos < reserveBlocksMeta, (view d2).record pos 0 = none := by
    intro pos inside
    have low : 0 < ssdPagesPerBlock := by decide
    have empty : v1.moved.record pos 0 = none := by
      rw [View.record, (bare pos inside 0 low).1]
      rfl
    by_cases group : pos / ssdMaxPlanes = 3
    · obtain ⟨plane, less, eq⟩ := eq_plane pos
      rw [group] at eq
      subst eq
      rw [attempt.others plane less 0 low (by rw [page]; decide), if_neg (by rw [page]; decide), empty]
    · rw [attempt.elsewhere (Nat.le_refl _) inside group low, empty]
  obtain ⟨ret3, d3, run3, -⟩ := exists_run noFailure_live idle2 (ssdSearchMetadata_locks free_none)
  obtain ⟨rfl, -⟩ := (ssdSearchMetadata_none flawless
    (attempt.clean fun pos pg inside low => (bare pos inside pg low).2) fun g group =>
      View.firstRecord_none fun plane inside => first _ (groupPos_lt group inside)).runs run3
  have any : Run anyOutcome (ssdSysFlush .normal) d1 ssdOk d2 := run2.mono fun _ _ _ _ => trivial
  exact ⟨d2, _, d3, .flush .normal (.flush .normal .start trivial run1) trivial any, run3, rfl⟩

end FpgaSsd.Theory
