/-
# Theory.Reserve — the pages of the reserved blocks

The 880 positions of the reserved blocks name distinct physical blocks, so the
hardware pages of the flush are addressed by a position and a page.

* `pageAddr_inj` — different positions and pages are different physical pages;
* `eraseOneReserveBlock_spec`, `writeOneReservePage_spec`, `readOneReservePage_spec`
  — what the three functions do to the view, for every outcome of their command;
* `View.page_erased`, `View.page_written` — and to the page of each position.
-/
import FpgaSsd.Theory.View

namespace FpgaSsd.Theory

open FpgaSsd.Lib FpgaSsd.Driver

set_option autoImplicit false

/-! ## Addresses -/

/-- The physical block of a position. -/
def physBlock (pos : Nat) : Nat := pos % 20 / 4 * 2 + planeTableStart (pos % 4)

def pageAddr (pos page : Nat) : Nat := physBlock pos * ssdPagesPerBlock + page

theorem planeTableStart_cases (n : Nat) : planeTableStart n = 0 ∧ n = 0 ∨ planeTableStart n = 1 ∧ n = 1 ∨
    planeTableStart n = 0x1000 ∧ n = 2 ∨ planeTableStart n = 0x1001 ∧ n ≠ 0 ∧ n ≠ 1 ∧ n ≠ 2 := by
  match n with
  | 0 | 1 | 2 => simp [planeTableStart]
  | n + 3 => simp [planeTableStart]

theorem calcPhyblock_eq {pos : Nat} (inside : pos < reserveBlocksTotal) :
    calcPhyblock pos = (physBlock pos : Int) := by
  have plane : pos % 20 % 4 = pos % 4 := by omega
  unfold calcPhyblock
  rw [if_neg (Nat.not_le.2 inside)]
  simp only [physBlock, reserveBlocksPerChannel, ssdMaxPlanes, plane]
  omega

theorem physBlock_lt (pos : Nat) : physBlock pos < ssdMaxPhyblocksPerChannel := by
  have := planeTableStart_cases (pos % 4)
  simp only [physBlock, ssdMaxPhyblocksPerChannel]
  omega

theorem posChannel_eq {pos : Nat} (inside : pos < reserveBlocksTotal) : posChannel pos = pos / 20 := by
  simp only [posChannel, reserveBlocksPerChannel, reserveBlocksTotal] at *
  omega

theorem physBlock_inj {pos pos' : Nat} (inside : pos < reserveBlocksTotal)
    (inside' : pos' < reserveBlocksTotal) (channel : posChannel pos = posChannel pos')
    (block : physBlock pos = physBlock pos') : pos = pos' := by
  have plane := planeTableStart_cases (pos % 4)
  have plane' := planeTableStart_cases (pos' % 4)
  rw [posChannel_eq inside, posChannel_eq inside'] at channel
  simp only [physBlock] at block
  omega

theorem pageAddr_div (pos : Nat) {page : Nat} (inside : page < ssdPagesPerBlock) :
    pageAddr pos page / ssdPagesPerBlock = physBlock pos := by
  simp only [pageAddr, ssdPagesPerBlock] at *
  omega

/-- **Positions and pages are distinct physical pages.** -/
theorem pageAddr_inj {pos pos' page page' : Nat} (inside : pos < reserveBlocksTotal)
    (inside' : pos' < reserveBlocksTotal) (channel : posChannel pos = posChannel pos')
    (low : page < ssdPagesPerBlock) (low' : page' < ssdPagesPerBlock)
    (addr : pageAddr pos page = pageAddr pos' page') : pos = pos' ∧ page = page' := by
  have block : physBlock pos = physBlock pos' := by
    rw [← pageAddr_div pos low, addr, pageAddr_div pos' low']
  refine ⟨physBlock_inj inside inside' channel block, ?_⟩
  simp only [pageAddr, block] at addr
  omega

/-- The hardware reads the command of a table page as the driver meant it. -/
theorem ofWord_tableCmd {pos page flag : Nat} (low : page < ssdPagesPerBlock) (small : flag < 32) :
    Command.ofWord (tableCmd (physBlock pos) page flag) = ⟨pageAddr pos page, 1, flag⟩ := by
  have := physBlock_lt pos
  simp only [ssdMaxPhyblocksPerChannel, ssdPagesPerBlock] at *
  exact decode_cmdValue (by simp only [ssdPagesPerBlock]; omega) (by decide) small

/-! ## Pages of the view -/

namespace View

/-- The content of a page of a reserved block, `none` when it cannot be read. -/
def page (v : View) (pos page : Nat) : Option Mem :=
  (v.flash (posChannel pos)).page (pageAddr pos page)

def suspect (v : View) (pos page : Nat) : Bool :=
  (v.flash (posChannel pos)).suspect (pageAddr pos page)

/-- The effect of an erase of a block with outcome `o`. -/
def erased (v : View) (pos : Nat) (o : Outcome) : View :=
  let f := v.flash (posChannel pos)
  let inBlock := fun p => p / ssdPagesPerBlock = pageAddr pos 0 / ssdPagesPerBlock
  v.setFlash (posChannel pos) { f with
    page := fun p => if inBlock p ∧ (o.ret = .ok ∨ o.keep p = false) then none else f.page p
    suspect := fun p => if inBlock p ∧ o.ret = .ok then false else f.suspect p }

/-- What a program of a page with outcome `o` leaves in it. -/
def programmed (v : View) (pos page : Nat) (o : Outcome) (kbuf : Mem) : Option Mem :=
  if decide (o.ret = .ok) && o.taken then some (clip ssdPageSize kbuf)
  else if o.keep (pageAddr pos page) then v.page pos page else none

/-- The effect of a program of a page. -/
def written (v : View) (pos page : Nat) (o : Outcome) (kbuf : Mem) : View :=
  let f := v.flash (posChannel pos)
  v.setFlash (posChannel pos) { f with
    page := Function.update f.page (pageAddr pos page) (v.programmed pos page o kbuf)
    suspect := Function.update f.suspect (pageAddr pos page) (decide (o.ret = .ok) && !o.taken) }

/-- The effect of a read: one that fails clears the mark of a page. -/
def read (v : View) (pos page : Nat) (o : Outcome) : View :=
  let f := v.flash (posChannel pos)
  if o.ret = .ok then v
  else v.setFlash (posChannel pos) { f with
    suspect := Function.update f.suspect (pageAddr pos page) false }

section Pages

variable {v : View} {pos pos' pg pg' : Nat} {o : Outcome} {kbuf : Mem}

theorem flash_setFlash_other {c c' : Nat} {f : Flash} (apart : c' ≠ c) :
    (v.setFlash c f).flash c' = v.flash c' := Function.update_of_ne apart ..

@[simp] theorem flash_setFlash (v : View) (c : Nat) (f : Flash) : (v.setFlash c f).flash c = f :=
  Function.update_self ..

theorem page_erased (inside : pos < reserveBlocksTotal) (inside' : pos' < reserveBlocksTotal)
    (low : pg < ssdPagesPerBlock) : (v.erased pos o).page pos' pg =
      if pos' = pos ∧ (o.ret = .ok ∨ o.keep (pageAddr pos pg) = false) then none
      else v.page pos' pg := by
  by_cases channel : posChannel pos' = posChannel pos
  · have block : pageAddr pos' pg / ssdPagesPerBlock = pageAddr pos 0 / ssdPagesPerBlock ↔
        pos' = pos := by
      rw [pageAddr_div _ low, pageAddr_div _ (by decide)]
      exact ⟨physBlock_inj inside' inside channel, fun eq => by rw [eq]⟩
    simp only [page, erased, channel, flash_setFlash, block]
    by_cases same : pos' = pos
    · subst same
      rfl
    · simp only [same, false_and, if_false]
  · have apart : pos' ≠ pos := fun eq => channel (by rw [eq])
    rw [if_neg (fun both => apart both.1), page, erased, flash_setFlash_other channel, page]

theorem page_written (inside : pos < reserveBlocksTotal) (inside' : pos' < reserveBlocksTotal)
    (low : pg < ssdPagesPerBlock) (low' : pg' < ssdPagesPerBlock) :
    (v.written pos pg o kbuf).page pos' pg' =
      if pos' = pos ∧ pg' = pg then v.programmed pos pg o kbuf else v.page pos' pg' := by
  by_cases channel : posChannel pos' = posChannel pos
  · simp only [page, written, channel, flash_setFlash]
    by_cases same : pos' = pos ∧ pg' = pg
    · rw [if_pos same, same.1, same.2, Function.update_self]
    · have addr : pageAddr pos' pg' ≠ pageAddr pos pg := fun eq =>
        same (pageAddr_inj inside' inside channel low' low eq)
      rw [if_neg same, Function.update_of_ne addr]
  · have apart : pos' ≠ pos := fun eq => channel (by rw [eq])
    rw [if_neg (fun both => apart both.1), page, written, flash_setFlash_other channel, page]

theorem suspect_erased (inside : pos < reserveBlocksTotal) (inside' : pos' < reserveBlocksTotal)
    (low : pg < ssdPagesPerBlock) : (v.erased pos o).suspect pos' pg =
      if pos' = pos ∧ o.ret = .ok then false else v.suspect pos' pg := by
  by_cases channel : posChannel pos' = posChannel pos
  · have block : pageAddr pos' pg / ssdPagesPerBlock = pageAddr pos 0 / ssdPagesPerBlock ↔
        pos' = pos := by
      rw [pageAddr_div _ low, pageAddr_div _ (by decide)]
      exact ⟨physBlock_inj inside' inside channel, fun eq => by rw [eq]⟩
    simp only [suspect, erased, channel, flash_setFlash, block]
  · have apart : pos' ≠ pos := fun eq => channel (by rw [eq])
    rw [if_neg (fun both => apart both.1), suspect, erased, flash_setFlash_other channel, suspect]

theorem suspect_written (inside : pos < reserveBlocksTotal) (inside' : pos' < reserveBlocksTotal)
    (low : pg < ssdPagesPerBlock) (low' : pg' < ssdPagesPerBlock) :
    (v.written pos pg o kbuf).suspect pos' pg' =
      if pos' = pos ∧ pg' = pg then decide (o.ret = .ok) && !o.taken else v.suspect pos' pg' := by
  by_cases channel : posChannel pos' = posChannel pos
  · simp only [suspect, written, channel, flash_setFlash]
    by_cases same : pos' = pos ∧ pg' = pg
    · rw [if_pos same, same.1, same.2, Function.update_self]
    · have addr : pageAddr pos' pg' ≠ pageAddr pos pg := fun eq =>
        same (pageAddr_inj inside' inside channel low' low eq)
      rw [if_neg same, Function.update_of_ne addr]
  · have apart : pos' ≠ pos := fun eq => channel (by rw [eq])
    rw [if_neg (fun both => apart both.1), suspect, written, flash_setFlash_other channel, suspect]

theorem suspect_read (inside : pos < reserveBlocksTotal) (inside' : pos' < reserveBlocksTotal)
    (low : pg < ssdPagesPerBlock) (low' : pg' < ssdPagesPerBlock) :
    (v.read pos pg o).suspect pos' pg' =
      if o.ret ≠ .ok ∧ pos' = pos ∧ pg' = pg then false else v.suspect pos' pg' := by
  simp only [read]
  split
  · rename_i ok
    rw [if_neg (fun both => both.1 ok)]
  · rename_i failed
    by_cases channel : posChannel pos' = posChannel pos
    · simp only [suspect, channel, flash_setFlash]
      by_cases same : pos' = pos ∧ pg' = pg
      · rw [if_pos ⟨failed, same⟩, same.1, same.2, Function.update_self]
      · have addr : pageAddr pos' pg' ≠ pageAddr pos pg := fun eq =>
          same (pageAddr_inj inside' inside channel low' low eq)
        rw [if_neg (fun both => same both.2), Function.update_of_ne addr]
    · have apart : pos' ≠ pos := fun eq => channel (by rw [eq])
      rw [if_neg (fun both => apart both.2.1), suspect, flash_setFlash_other channel, suspect]

theorem page_read : (v.read pos pg o).page pos' pg' = v.page pos' pg' := by
  simp only [read]
  split
  · rfl
  · by_cases channel : posChannel pos' = posChannel pos
    · simp only [page, channel, flash_setFlash]
    · rw [page, flash_setFlash_other channel, page]

/-- Erasing, writing and reading touch no global of the driver and no table. -/
structure SameRest (v v' : View) : Prop where
  hash : v'.hash = v.hash
  space : v'.space = v.space
  kbufFlush : v'.kbufFlush = v.kbufFlush
  metadata : v'.metadata = v.metadata
  metaPos : v'.metaPos = v.metaPos
  opened : v'.opened = v.opened
  addrTable : ∀ c, (v'.flash c).addrTable = (v.flash c).addrTable
  eraseTable : ∀ c, (v'.flash c).eraseTable = (v.flash c).eraseTable
  data : ∀ c, (v'.flash c).data = (v.flash c).data

theorem SameRest.refl (v : View) : SameRest v v :=
  ⟨rfl, rfl, rfl, rfl, rfl, rfl, fun _ => rfl, fun _ => rfl, fun _ => rfl⟩

theorem SameRest.trans {v v' v'' : View} (first : SameRest v v') (second : SameRest v' v'') :
    SameRest v v'' :=
  ⟨second.hash.trans first.hash, second.space.trans first.space,
    second.kbufFlush.trans first.kbufFlush, second.metadata.trans first.metadata,
    second.metaPos.trans first.metaPos, second.opened.trans first.opened,
    fun c => (second.addrTable c).trans (first.addrTable c),
    fun c => (second.eraseTable c).trans (first.eraseTable c),
    fun c => (second.data c).trans (first.data c)⟩

theorem sameRest_setFlash {c : Nat} {f : Flash} (addrTable : f.addrTable = (v.flash c).addrTable)
    (eraseTable : f.eraseTable = (v.flash c).eraseTable) (data : f.data = (v.flash c).data) :
    SameRest v (v.setFlash c f) := by
  have each : ∀ {α : Type} (g : Flash → α), g f = g (v.flash c) → ∀ c',
      g ((v.setFlash c f).flash c') = g (v.flash c') := by
    intro α g eq c'
    by_cases same : c' = c
    · subst same
      rw [flash_setFlash, eq]
    · rw [flash_setFlash_other same]
  exact ⟨rfl, rfl, rfl, rfl, rfl, rfl, each _ addrTable, each _ eraseTable, each _ data⟩

theorem sameRest_erased : SameRest v (v.erased pos o) := sameRest_setFlash rfl rfl rfl

theorem sameRest_written : SameRest v (v.written pos pg o kbuf) := sameRest_setFlash rfl rfl rfl

theorem sameRest_read : SameRest v (v.read pos pg o) := by
  simp only [read]
  split
  · exact .refl v
  · exact sameRest_setFlash rfl rfl rfl

end Pages

end View

/-! ## The three functions -/

section Functions

variable {must : View → Prop} {may : May} {v : View} {pos pg : Nat}

/-- The outcome `o` is one that `may` allows for the table command on a page. -/
def MayTable (may : May) (v : View) (pos pg flag : Nat) (o : Outcome) : Prop :=
  ∃ d, view d = v ∧ (d.ch (posChannel pos)).outstanding = some (tableCmd (physBlock pos) pg flag) ∧
    may d (.chan (posChannel pos) .await) o

/-- Without failures, erases and programs succeed. -/
theorem MayTable.ok {flag : Nat} {o : Outcome} (flawless : Flawless may)
    (allowed : MayTable may v pos pg flag o) (low : pg < ssdPagesPerBlock) (small : flag < 32)
    (change : flag ≠ flagReadtablesFromFlash) : o.ret = .ok ∧ o.taken = true := by
  obtain ⟨d, -, issued, mayO⟩ := allowed
  obtain ⟨-, taken, answer⟩ := flawless _ _ _ mayO
  refine ⟨?_, taken⟩
  rcases answer _ rfl with ok | ⟨⟨cmd, out, read, -⟩, -⟩
  · exact ok
  · rw [issued] at out
    cases out
    rw [ofWord_tableCmd low small] at read
    exact absurd read change

/-- Without failures, a page that can be read is read. -/
theorem MayTable.ok_read {o : Outcome} {m : Mem} (flawless : Flawless may)
    (allowed : MayTable may v pos pg flagReadtablesFromFlash o) (low : pg < ssdPagesPerBlock)
    (found : v.page pos pg = some m) (clean : v.suspect pos pg = false) : o.ret = .ok := by
  obtain ⟨d, rfl, issued, mayO⟩ := allowed
  obtain ⟨-, -, answer⟩ := flawless _ _ _ mayO
  rcases answer _ rfl with ok | ⟨⟨cmd, out, -, lost⟩, -⟩
  · exact ok
  · rw [issued] at out
    cases out
    rw [ofWord_tableCmd low (by decide)] at lost
    simp only [View.page, View.suspect, view] at found clean
    rw [found, clean] at lost
    simp at lost

theorem onReserveBlock_eq (inside : pos < reserveBlocksTotal) (body : Nat → Nat → Drv Int) :
    onReserveBlock pos body = Drv.withSema (posChannel pos) (body (posChannel pos) (physBlock pos)) := by
  simp only [onReserveBlock, calcPhyblock_eq inside]
  rw [if_neg (by omega), Int.toNat_natCast]

theorem eraseOneReserveBlock_spec
    (stable : ∀ o, MayTable may v pos 0 flagErasetables o → must v → must (v.erased pos o))
    (here : must v) (inside : pos < reserveBlocksTotal) : OnView must may (eraseOneReserveBlock pos)
      (fun ret v' => ∃ o, MayTable may v pos 0 flagErasetables o ∧ ret = o.ret.toInt ∧
        v' = v.erased pos o) v := by
  rw [eraseOneReserveBlock, onReserveBlock_eq inside]
  refine OnView.withSema here ?_ ((OnView.channelOp here).weaken ?_)
  · rintro ret v' ⟨o, allowed, -, rfl⟩
    exact stable o allowed here
  · rintro ret v' ⟨d, o, kbuf, kbuf', flash, shows, issued, allowed, done, rfl, rfl⟩
    rw [ofWord_tableCmd (by decide) (by decide)] at done
    cases done
    exact ⟨o, ⟨d, shows, issued, allowed⟩, rfl, rfl⟩

/-- The bytes that `write_one_reserve_page` sends. -/
def IsRecord (m : SsdMetadata) (kbuf : Mem) : Prop := ∃ old, kbuf = m.encode (fillBytes old 0 ssdPageSize 0)

theorem decode_clip (kbuf : Mem) : SsdMetadata.decode (clip ssdPageSize kbuf) = SsdMetadata.decode kbuf :=
  SsdMetadata.decode_congr fun i small => by
    simp only [clip, ssdPageSize]
    rw [if_pos (by omega)]

theorem IsRecord.decode {m : SsdMetadata} {kbuf : Mem} (record : IsRecord m kbuf) :
    SsdMetadata.decode (clip ssdPageSize kbuf) = m := by
  obtain ⟨old, rfl⟩ := record
  rw [decode_clip, SsdMetadata.decode_encode]

theorem writeOneReservePage_spec
    (stable : ∀ o kbuf, MayTable may v pos pg flagWritetableToFlash o → IsRecord v.metadata kbuf →
      must v → must (v.written pos pg o kbuf)) (here : must v)
    (inside : pos < reserveBlocksTotal) (low : pg < ssdPagesPerBlock) :
    OnView must may (writeOneReservePage pos pg) (fun ret v' => ∃ o kbuf,
      MayTable may v pos pg flagWritetableToFlash o ∧ IsRecord v.metadata kbuf ∧ ret = o.ret.toInt ∧
        v' = v.written pos pg o kbuf) v := by
  rw [writeOneReservePage, onReserveBlock_eq inside]
  refine OnView.withSema here ?_ ?_
  · rintro ret v' ⟨o, kbuf, allowed, record, -, rfl⟩
    exact stable o kbuf allowed record here
  refine OnView.seq (OnView.getMeta here) ?_
  rintro record v' ⟨rfl, rfl⟩
  refine (OnView.loadedOp _ here).weaken ?_
  rintro ret v'' ⟨d, o, kbuf, kbuf', flash, shows, issued, allowed, done, rfl, rfl⟩
  rw [ofWord_tableCmd low (by decide)] at done
  cases done
  exact ⟨o, _, ⟨d, shows, issued, allowed⟩, ⟨kbuf, rfl⟩, rfl, rfl⟩

/-- A read that succeeds has found the page intact. -/
theorem readOneReservePage_spec
    (stable : ∀ o, MayTable may v pos pg flagReadtablesFromFlash o → must v → must (v.read pos pg o))
    (here : must v) (inside : pos < reserveBlocksTotal) (low : pg < ssdPagesPerBlock) :
    OnView must may (readOneReservePage pos pg) (fun ret v' => ∃ o,
      MayTable may v pos pg flagReadtablesFromFlash o ∧ ret = o.ret.toInt ∧ v' = v.read pos pg o ∧
        (o.ret = .ok → (∃ m, v.page pos pg = some m) ∧ v.suspect pos pg = false)) v := by
  rw [readOneReservePage, onReserveBlock_eq inside]
  refine OnView.withSema here ?_ ((OnView.channelOp here).weaken ?_)
  · rintro ret v' ⟨o, allowed, -, rfl, -⟩
    exact stable o allowed here
  · rintro ret v' ⟨d, o, kbuf, kbuf', flash, shows, issued, allowed, done, rfl, rfl⟩
    rw [ofWord_tableCmd low (by decide)] at done
    simp only [Flash.exec] at done
    refine ⟨o, ⟨d, shows, issued, allowed⟩, rfl, ?_⟩
    split at done
    · rename_i ok
      split at done
      · rename_i found clean
        cases done
        exact ⟨by rw [View.read, if_pos ok, View.setFlash_same], fun _ => ⟨⟨_, found⟩, clean⟩⟩
      · cases done
    · rename_i failed
      cases done
      exact ⟨by rw [View.read, if_neg failed], fun ok => absurd ok failed⟩

end Functions

end FpgaSsd.Theory
