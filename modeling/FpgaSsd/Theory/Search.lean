/-
# Theory.Search — what the search of a card finds

`View.record` is the metadata record in a page, `View.firstRecord` the one that
the planes of a group show first. `Wins v b p r` says that group `b` has the
newest page 0, that `p` is its last page with a record, and that this page shows
`r`.

* `ssdSearchMetadata_spec` — when nothing fails, the search then selects `r`;
* `ssdSearchMetadata_none` — without a record in any page 0 it finds nothing.
-/
import FpgaSsd.Theory.Reserve

namespace FpgaSsd.Theory

open FpgaSsd.Lib FpgaSsd.Driver

set_option autoImplicit false

/-! ## Records -/

/-- The record in a page, when its magic is one of the two. -/
def validRecord (m : Mem) : Option SsdMetadata :=
  if metadataCheckVal (SsdMetadata.decode m) = ssdOk then some (SsdMetadata.decode m) else none

namespace View

def record (v : View) (pos page : Nat) : Option SsdMetadata := (v.page pos page).bind validRecord

/-- The record that a page of a group shows, plane by plane. -/
def firstRecord (v : View) (group page : Nat) : Option SsdMetadata :=
  (List.range ssdMaxPlanes).findSome? fun plane => v.record (group * ssdMaxPlanes + plane) page

/-- No page of a metadata block is under a program that took no effect. -/
def Clean (v : View) : Prop :=
  ∀ pos page, pos < reserveBlocksMeta → page < ssdPagesPerBlock → v.suspect pos page = false

end View

/-- The record that the search selects. -/
structure Wins (v : View) (b p : Nat) (r : SsdMetadata) : Prop where
  group : b < metaBitmapSize
  page : p < ssdPagesPerBlock
  newest : ∃ x, v.firstRecord b 0 = some x ∧ 0 < x.version ∧ ∀ g y, g < metaBitmapSize → g ≠ b →
    v.firstRecord g 0 = some y → y.version < x.version
  last : ∀ q, p < q → q < ssdPagesPerBlock → v.firstRecord b q = none
  shows : v.firstRecord b p = some r

theorem View.firstRecord_congr {v v' : View} {g pg : Nat}
    (same : ∀ plane < ssdMaxPlanes, v'.record (g * ssdMaxPlanes + plane) pg = v.record (g * ssdMaxPlanes + plane) pg) :
    v'.firstRecord g pg = v.firstRecord g pg := by
  have planes : ∀ l : List Nat, (∀ plane ∈ l, plane < ssdMaxPlanes) →
      (l.findSome? fun plane => v'.record (g * ssdMaxPlanes + plane) pg) =
        l.findSome? fun plane => v.record (g * ssdMaxPlanes + plane) pg := by
    intro l
    induction l with
    | nil => exact fun _ => rfl
    | cons plane rest ih =>
        intro inside
        rw [List.findSome?_cons, List.findSome?_cons, same plane (inside plane (List.mem_cons_self ..)),
          ih fun other member => inside other (List.mem_cons_of_mem _ member)]
  exact planes _ fun plane member => List.mem_range.1 member

/-- The winner depends on the records only. -/
theorem Wins.congr {v v' : View} {b p : Nat} {r : SsdMetadata} (wins : Wins v b p r)
    (same : ∀ g < metaBitmapSize, ∀ pg < ssdPagesPerBlock, ∀ plane < ssdMaxPlanes,
      v'.record (g * ssdMaxPlanes + plane) pg = v.record (g * ssdMaxPlanes + plane) pg) :
    Wins v' b p r := by
  have first : ∀ g < metaBitmapSize, ∀ pg < ssdPagesPerBlock, v'.firstRecord g pg = v.firstRecord g pg :=
    fun g group pg low => View.firstRecord_congr (same g group pg low)
  have low : 0 < ssdPagesPerBlock := by decide
  obtain ⟨x, shown, positive, newest⟩ := wins.newest
  refine ⟨wins.group, wins.page, ⟨x, ?_, positive, fun g y group other found => ?_⟩,
    fun q above high => ?_, ?_⟩
  · rw [first b wins.group 0 low, shown]
  · rw [first g group 0 low] at found
    exact newest g y group other found
  · rw [first b wins.group q high]
    exact wins.last q above high
  · rw [first b wins.group p wins.page, wins.shows]

/-! ## Reading a page -/

section Search

variable {α : Type} {may : May} {v : View}

/-- The search has no obligation. -/
abbrev always : View → Prop := fun _ => True

theorem physBlock_mod {pos : Nat} (inside : pos < reserveBlocksTotal) :
    (calcPhyblock pos % 65536).toNat = physBlock pos := by
  have := physBlock_lt pos
  rw [calcPhyblock_eq inside]
  simp only [ssdMaxPhyblocksPerChannel] at this
  omega

/-- Reading a metadata page: a page that can be read is in the DMA buffer, any
other answers with an error that is no timeout. -/
theorem ssdReadMetadata_spec {pos page : Nat} (flawless : Flawless may) (clean : v.Clean)
    (inside : pos < reserveBlocksMeta) (low : page < ssdPagesPerBlock) {next : Int → Drv α}
    {post : α → View → Prop}
    (found : ∀ m d, v.page pos page = some m → view d = v →
      SsdMetadata.decode (d.ch (posChannel pos)).kbuf = SsdMetadata.decode m →
      OnDevice always may (next ssdOk) post d)
    (lost : ∀ ret, v.page pos page = none → ret ≠ ssdOk → ret ≠ -errTimeout →
      OnView always may (next ret) post v) :
    OnView always may (ssdReadMetadata pos page >>= next) post v := by
  rintro d rfl
  have inside' : pos < reserveBlocksTotal := Nat.lt_of_lt_of_le inside (by decide)
  rw [ssdReadMetadata, physBlock_mod inside']
  refine Safe.seq (solo_steady _ _) (OnView.op trivial) ?_
  rintro ret d' ⟨o, kbuf, flash, allowed, done, rfl, rfl⟩
  rw [ofWord_tableCmd low (by decide)] at done
  have may' : MayTable may (view d) pos page flagReadtablesFromFlash o :=
    ⟨_, view_issue d _ _, by rw [Device.setCh_ch_same], allowed⟩
  have fine := clean pos page inside low
  simp only [Flash.exec] at done
  cases content : (view d).page pos page with
  | some m =>
      have ok := MayTable.ok_read flawless may' low content fine
      rw [if_pos ok] at done
      simp only [View.page, View.suspect, view] at content fine
      rw [content, fine] at done
      cases done
      rw [ok]
      refine found m _ content (view_setCh rfl rfl rfl) ?_
      rw [Device.setCh_ch_same]
      exact SsdMetadata.decode_copyBytes ..
  | none =>
      simp only [View.page, View.suspect, view] at content fine
      have failed : o.ret ≠ .ok := by
        intro ok
        rw [if_pos ok, content, fine] at done
        cases done
      rw [if_neg failed] at done
      cases done
      obtain ⟨d1, -, issued, mayO⟩ := may'
      have notTimeout : o.ret ≠ .timeout := by
        rcases (flawless _ _ _ mayO).2.2 _ rfl with ok | ⟨-, no⟩
        · exact absurd ok failed
        · exact no
      refine lost o.ret.toInt content (fun eq => failed (ChannelRet.toInt_eq_zero.1 eq)) ?_ _ ?_
      · exact fun eq => notTimeout (ChannelRet.toInt_eq_timeout.1 eq)
      · refine view_setCh ?_ rfl rfl
        have same : Function.update (d.ch (posChannel pos)).flash.suspect (pageAddr pos page) false =
            (d.ch (posChannel pos)).flash.suspect := by
          rw [← fine, Function.update_eq_self]
        simp only [same]

theorem readKbuf_record {pos page : Nat} {m : Mem} {d : Device} (shows : view d = v)
    (content : v.page pos page = some m)
    (kbuf : SsdMetadata.decode (d.ch (posChannel pos)).kbuf = SsdMetadata.decode m)
    {next : Mem → Drv α} {post : α → View → Prop}
    (valid : ∀ image r, v.record pos page = some r → metadataCheckVal (SsdMetadata.decode image) = ssdOk →
      SsdMetadata.decode image = r → OnView always may (next image) post v)
    (invalid : ∀ image, v.record pos page = none →
      metadataCheckVal (SsdMetadata.decode image) ≠ ssdOk → OnView always may (next image) post v) :
    OnDevice always may (Drv.readKbuf (posChannel pos) >>= next) post d := by
  refine Safe.seq (solo_steady _ _) (OnView.readKbuf trivial) ?_
  rintro image d' ⟨rfl, same⟩
  have record : v.record pos page = validRecord m := by
    rw [View.record, content]
    rfl
  rw [validRecord, ← kbuf] at record
  by_cases check : metadataCheckVal (SsdMetadata.decode (d.ch (posChannel pos)).kbuf) = ssdOk
  · rw [if_pos check] at record
    exact valid _ _ record check rfl d' (same.trans shows)
  · rw [if_neg check] at record
    exact invalid _ record check d' (same.trans shows)

/-! ## The groups -/

/-- The search moves the position only. -/
def AtBlock (v : View) (blockPos : Nat) : View :=
  { v with metaPos := { v.metaPos with blockPos := blockPos } }

theorem groupPos_lt {g plane : Nat} (group : g < metaBitmapSize) (inside : plane < ssdMaxPlanes) :
    g * ssdMaxPlanes + plane < reserveBlocksMeta := by
  simp only [metaBitmapSize, ssdMaxPlanes, reserveBlocksMeta] at *
  omega

/-- The planes of a group have one channel. -/
theorem posChannel_plane {g plane : Nat} (inside : plane < ssdMaxPlanes) :
    posChannel (g * ssdMaxPlanes + plane) = posChannel (g * ssdMaxPlanes) := by
  simp only [posChannel, reserveBlocksPerChannel, ssdMaxPlanes] at *
  omega

/-- One group: its first record counts when it is newer than those before. -/
theorem searchGroup_spec (flawless : Flawless may) (clean : v.Clean) {g : Nat} (group : g < metaBitmapSize)
    (version : UInt64) (planes : List Nat) (inside : ∀ plane ∈ planes, plane < ssdMaxPlanes) :
    OnView always may (searchGroup g version planes) (fun found v' =>
      match planes.findSome? fun plane => v.record (g * ssdMaxPlanes + plane) 0 with
      | none => found = .ok version ∧ v' = v
      | some r => if version < r.version then found = .ok r.version ∧ v' = AtBlock v (g * ssdMaxPlanes)
          else found = .ok version ∧ v' = v) v := by
  induction planes with
  | nil => exact OnView.pure ⟨rfl, rfl⟩
  | cons plane rest ih =>
      have mine := inside plane (List.mem_cons_self ..)
      have later := ih fun other member => inside other (List.mem_cons_of_mem _ member)
      simp only [List.findSome?_cons]
      have low : 0 < ssdPagesPerBlock := by decide
      rw [searchGroup]
      refine ssdReadMetadata_spec flawless clean (groupPos_lt group mine) low
        (fun m d' content shows' kbuf => ?_) fun ret lost bad noTimeout => ?_
      · rw [if_neg (by decide), if_neg (by decide)]
        refine readKbuf_record shows' content kbuf (fun image r record check decoded => ?_)
          fun image record check => ?_
        · rw [record]
          dsimp only
          rw [if_neg (not_not.2 check), decoded]
          split
          · refine OnView.seq (OnView.modMetaPos trivial _) ?_
            rintro _ v' ⟨rfl, -⟩
            exact OnView.pure ⟨rfl, rfl⟩
          · exact OnView.pure ⟨rfl, rfl⟩
        · rw [record]
          dsimp only
          rw [if_pos check]
          exact later
      · have none : v.record (g * ssdMaxPlanes + plane) 0 = none := by
          rw [View.record, lost]
          rfl
        rw [none, if_neg noTimeout, if_pos bad]
        exact later

/-- The version so far, and whether group `b` set it. -/
structure Leading (v : View) (b : Nat) (x : SsdMetadata) (k : Nat) (version : UInt64) (v' : View) :
    Prop where
  moved : ∃ blockPos, v' = AtBlock v blockPos ∧ (b < k → blockPos = b * ssdMaxPlanes)
  version : if b < k then version = x.version else version < x.version

theorem searchGroups_spec (flawless : Flawless may) (clean : v.Clean) {b : Nat} {x : SsdMetadata}
    (newest : ∀ g y, g < metaBitmapSize → g ≠ b → v.firstRecord g 0 = some y → y.version < x.version)
    (first : v.firstRecord b 0 = some x) {k m : Nat} (total : k + m = metaBitmapSize)
    {version : UInt64} {v1 : View} (leading : Leading v b x k version v1) :
    OnView always may (searchGroups (List.range' k m) version) (fun found v' => ∃ version',
      found = .ok version' ∧ Leading v b x metaBitmapSize version' v') v1 := by
  induction m generalizing k version v1 with
  | zero =>
      obtain rfl : k = metaBitmapSize := total
      exact OnView.pure ⟨version, rfl, leading⟩
  | succ m ih =>
      obtain ⟨⟨blockPos, rfl, atBlock⟩, best⟩ := leading
      have group : k < metaBitmapSize := by omega
      rw [List.range'_succ]
      refine OnView.seq (searchGroup_spec flawless (v := AtBlock v blockPos) clean group version
        (List.range ssdMaxPlanes) fun plane member => List.mem_range.1 member) ?_
      intro found v2 after
      have record : (List.range ssdMaxPlanes).findSome? (fun plane =>
          (AtBlock v blockPos).record (k * ssdMaxPlanes + plane) 0) = v.firstRecord k 0 := rfl
      rw [record] at after
      -- the group before, at or behind the newest one
      have keep : k ≠ b → Leading v b x (k + 1) version (AtBlock v blockPos) := by
        intro other
        refine ⟨⟨blockPos, rfl, fun less => atBlock (by omega)⟩, ?_⟩
        by_cases less : b < k
        · rw [if_pos less] at best
          rwa [if_pos (Nat.lt_succ_of_lt less)]
        · rw [if_neg less] at best
          rwa [if_neg (by omega)]
      by_cases here : k = b
      · subst here
        rw [if_neg (Nat.lt_irrefl k)] at best
        rw [first] at after
        dsimp only at after
        rw [if_pos best] at after
        obtain ⟨rfl, rfl⟩ := after
        refine ih (k := k + 1) (by omega) ⟨⟨k * ssdMaxPlanes, rfl, fun _ => rfl⟩, ?_⟩
        rw [if_pos (Nat.lt_succ_self k)]
      · cases shown : v.firstRecord k 0 with
        | none =>
            rw [shown] at after
            obtain ⟨rfl, rfl⟩ := after
            exact ih (k := k + 1) (by omega) (keep here)
        | some y =>
            rw [shown] at after
            dsimp only at after
            have older := newest k y group here shown
            split at after
            · rename_i newer
              obtain ⟨rfl, rfl⟩ := after
              have notYet : ¬ b < k := by
                intro less
                rw [if_pos less] at best
                rw [best] at newer
                exact UInt64.lt_asymm newer older
              refine ih (k := k + 1) (by omega) ⟨⟨k * ssdMaxPlanes, rfl, fun less => ?_⟩, ?_⟩
              · omega
              · rw [if_neg (by omega)]
                exact older
            · obtain ⟨rfl, rfl⟩ := after
              exact ih (k := k + 1) (by omega) (keep here)

theorem searchBlockMetadata_spec (flawless : Flawless may) (clean : v.Clean) {b p : Nat}
    {r : SsdMetadata} (wins : Wins v b p r) : OnView always may searchBlockMetadata (fun ret v' =>
      ret = ssdOk ∧ v' = AtBlock v (b * ssdMaxPlanes)) v := by
  obtain ⟨x, first, positive, newest⟩ := wins.newest
  have start : Leading v b x 0 0 v :=
    ⟨⟨v.metaPos.blockPos, rfl, fun no => absurd no (Nat.not_lt_zero b)⟩, by
      rw [if_neg (Nat.not_lt_zero b)]
      exact positive⟩
  rw [searchBlockMetadata, List.range_eq_range']
  refine OnView.seq (searchGroups_spec flawless clean newest first (Nat.zero_add _) start) ?_
  rintro found v' ⟨version, rfl, ⟨blockPos, rfl, atBlock⟩, best⟩
  rw [if_pos wins.group] at best
  subst best
  have nonzero : x.version ≠ 0 := fun zero => by
    rw [zero] at positive
    exact UInt64.lt_irrefl _ positive
  refine OnView.pure ⟨?_, by rw [atBlock wins.group]⟩
  rw [if_pos nonzero]

/-! ## The pages -/

/-- The state after the search has selected `r` in a page of the block it is at. -/
def Selected (v : View) (r : SsdMetadata) (page : Nat) : View :=
  { v with metadata := r, metaPos := { v.metaPos with page := page } }

theorem searchPage_spec (flawless : Flawless may) (clean : v.Clean) {g page : Nat}
    (group : g < metaBitmapSize) (low : page < ssdPagesPerBlock) (planes : List Nat)
    (inside : ∀ plane ∈ planes, plane < ssdMaxPlanes) :
    OnView always may (Program.firstSome (searchPage (g * ssdMaxPlanes) page) planes) (fun found v' =>
      match planes.findSome? fun plane => v.record (g * ssdMaxPlanes + plane) page with
      | none => found = none ∧ v' = v
      | some r => found = some ssdOk ∧ v' = Selected v r page) v := by
  induction planes with
  | nil => exact OnView.pure ⟨rfl, rfl⟩
  | cons plane rest ih =>
      have mine := inside plane (List.mem_cons_self ..)
      have later := ih fun other member => inside other (List.mem_cons_of_mem _ member)
      simp only [List.findSome?_cons]
      refine OnView.seq (M := fun found v' => match v.record (g * ssdMaxPlanes + plane) page with
        | none => found = none ∧ v' = v
        | some r => found = some ssdOk ∧ v' = Selected v r page) ?_ fun found v' after => ?_
      · rw [searchPage]
        refine ssdReadMetadata_spec flawless clean (groupPos_lt group mine) low
          (fun m d' content shows' kbuf => ?_) fun ret lost bad noTimeout => ?_
        · rw [if_neg (by decide), if_neg (by decide), ← posChannel_plane mine]
          refine readKbuf_record shows' content kbuf (fun image r record check decoded => ?_)
            fun image record check => ?_
          · rw [record]
            dsimp only
            rw [if_neg (not_not.2 check), decoded]
            refine OnView.seq (OnView.modMeta trivial _) ?_
            rintro _ v1 ⟨rfl, -⟩
            refine OnView.seq (OnView.modMetaPos trivial _) ?_
            rintro _ v2 ⟨rfl, -⟩
            exact OnView.pure ⟨rfl, rfl⟩
          · rw [record]
            dsimp only
            rw [if_pos check]
            exact OnView.pure ⟨rfl, rfl⟩
        · have none : v.record (g * ssdMaxPlanes + plane) page = none := by
            rw [View.record, lost]
            rfl
          rw [none, if_neg noTimeout, if_pos bad]
          exact OnView.pure ⟨rfl, rfl⟩
      · cases shown : v.record (g * ssdMaxPlanes + plane) page with
        | none =>
            rw [shown] at after
            obtain ⟨rfl, rfl⟩ := after
            exact later
        | some r =>
            rw [shown] at after
            obtain ⟨rfl, rfl⟩ := after
            exact OnView.pure ⟨rfl, rfl⟩

/-- **The search selects the winner.** -/
theorem ssdSearchMetadata_spec (flawless : Flawless may) (clean : v.Clean) {b p : Nat}
    {r : SsdMetadata} (wins : Wins v b p r) : OnView always may ssdSearchMetadata (fun ret v' =>
      ret = ssdOk ∧ v' = { v with metadata := r, metaPos := ⟨p, b * ssdMaxPlanes⟩ }) v := by
  refine OnView.seq (searchBlockMetadata_spec flawless clean wins) ?_
  rintro ret v1 ⟨rfl, rfl⟩
  rw [if_neg (by decide)]
  refine OnView.seq (OnView.getMetaPos trivial) ?_
  rintro pos v1 ⟨rfl, rfl⟩
  refine OnView.seq (OnView.forRangeDown
    (I := fun k v' => v' = AtBlock v (b * ssdMaxPlanes) ∧ p < k)
    (R := fun ret v' => ret = ssdOk ∧ v' = Selected (AtBlock v (b * ssdMaxPlanes)) r p)
    (fun k v' low before => ?_) ⟨rfl, wins.page⟩) fun found v' after => ?_
  · obtain ⟨rfl, above⟩ := before
    refine (searchPage_spec flawless (v := AtBlock v (b * ssdMaxPlanes)) clean wins.group low
      (List.range ssdMaxPlanes) fun plane member => List.mem_range.1 member).weaken ?_
    intro found v2 after
    have record : (List.range ssdMaxPlanes).findSome? (fun plane =>
        (AtBlock v (b * ssdMaxPlanes)).record (b * ssdMaxPlanes + plane) k) = v.firstRecord b k := rfl
    rw [record] at after
    by_cases here : k = p
    · subst here
      rw [wins.shows] at after
      obtain ⟨rfl, rfl⟩ := after
      exact ⟨rfl, rfl⟩
    · rw [wins.last k (by omega) low] at after
      obtain ⟨rfl, rfl⟩ := after
      exact ⟨rfl, by omega⟩
  · cases found with
    | none => exact absurd after.2 (Nat.not_lt_zero p)
    | some ret =>
        obtain ⟨rfl, rfl⟩ := after
        exact OnView.pure ⟨rfl, rfl⟩

/-- Without a record in a page 0 the search finds nothing, and changes nothing. -/
theorem ssdSearchMetadata_none (flawless : Flawless may) (clean : v.Clean)
    (empty : ∀ g, g < metaBitmapSize → v.firstRecord g 0 = none) :
    OnView always may ssdSearchMetadata (fun ret v' => ret = -enometa ∧ v' = v) v := by
  have groups : ∀ m k, k + m = metaBitmapSize →
      OnView always may (searchGroups (List.range' k m) 0)
        (fun found v' => found = .ok 0 ∧ v' = v) v := by
    intro m
    induction m with
    | zero => exact fun k _ => OnView.pure ⟨rfl, rfl⟩
    | succ m ih =>
        intro k total
        have group : k < metaBitmapSize := by omega
        rw [List.range'_succ]
        refine OnView.seq (searchGroup_spec flawless clean group 0 (List.range ssdMaxPlanes)
          fun plane member => List.mem_range.1 member) ?_
        intro found v1 after
        have none := empty k group
        rw [View.firstRecord] at none
        rw [none] at after
        obtain ⟨rfl, rfl⟩ := after
        exact ih (k + 1) (by omega)
  refine OnView.seq (M := fun ret v' => ret = -enometa ∧ v' = v) ?_ ?_
  · rw [searchBlockMetadata, List.range_eq_range']
    refine OnView.seq (groups _ 0 (Nat.zero_add _)) ?_
    rintro found v1 ⟨rfl, rfl⟩
    exact OnView.pure ⟨rfl, rfl⟩
  · rintro ret v1 ⟨rfl, rfl⟩
    rw [if_pos (by decide)]
    exact OnView.pure ⟨rfl, rfl⟩

end Search

end FpgaSsd.Theory
