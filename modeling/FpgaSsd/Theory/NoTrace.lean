/-
# Theory.NoTrace — a write or a delete that fails

`set_id_info` clears the node it allocates before it looks whether there is one, so a
slab allocation that fails is a dereference of NULL. Everything else that can fail is
rolled back:

* `WriteEffect.failed`, `DeleteEffect.failed` — an answer that is not `SSD_OK` leaves
  the map, the free set and the count of free blocks of the channel as they were;
* `failures_leave_no_trace` — the request leaves no trace and dereferences no NULL node
  if and only if the slab does not fail or the request inserts nothing (`Inserts`).
-/
import FpgaSsd.Theory.Capacity
import FpgaSsd.Theory.Wear

namespace FpgaSsd.Theory

open FpgaSsd.Lib FpgaSsd.Driver

set_option autoImplicit false

/-! ## Effects of failures -/

/-- The same map, the same free blocks and the same count of them. -/
structure SameBooks (books books' : Books) : Prop where
  map : ∀ id, find books'.2 id = find books.2 id
  free : freeSet books'.1 = freeSet books.1
  count : books'.1.freeBlocks = books.1.freeBlocks

section Failed

variable {c : Nat} {id : BlockId} {t : BlockType} {s s' : ChannelSpace} {h : Nat → HashHead}
variable {ret : Int} {books : Books} {used : List Extent}

theorem SameBooks.refl (books : Books) : SameBooks books books := ⟨fun _ => rfl, rfl, rfl⟩

/-- The books depend on the used extents only. -/
theorem SameBooks.of_space (ok : SpaceOk s used) (ok' : SpaceOk s' used) : SameBooks (s, h) (s', h) :=
  ⟨fun _ => rfl, freeSet_congr ok ok', freeBlocks_congr ok ok'⟩

/-- **A write that fails leaves no trace** in the books of its channel. -/
theorem WriteEffect.failed (effect : WriteEffect c id t s h ret books) (inv : ChannelInv c [] (s, h))
    (failed : ret ≠ ssdOk) : SameBooks (s, h) books := by
  cases effect with
  | known => exact .refl _
  | full fresh alloc => exact .of_space inv.space (alloc_full inv.space alloc)
  | undone fresh alloc => exact .of_space inv.space (alloc_undone inv.space alloc)
  | done => exact absurd rfl failed

/-- **A delete that fails leaves no trace** in the books of its channel. -/
theorem DeleteEffect.failed (effect : DeleteEffect id s h ret books) (placed : ChannelPlaced c h)
    (failed : ret ≠ ssdOk) : SameBooks (s, h) books := by
  cases effect with
  | absent => exact .refl _
  | undone found => exact ⟨find_restored placed found, rfl, rfl⟩
  | done => exact absurd rfl failed

end Failed

/-! ## Requests -/

/-- The requests that change the table. -/
inductive Change where
  | write (p : WriteParam)
  | delete (id : BlockId)

namespace Change

def id : Change → BlockId
  | .write p => p.id
  | .delete id => id

def run : Change → Drv Int
  | .write p => ssdIdWrite p
  | .delete id => ssdIdDelete id

end Change

/-- Every outcome; the slab fails only when `slab` says so. -/
def slabMay (slab : Bool) : May := fun _ a o =>
  ∀ c id info, a = .chan c (.setIdInfo id info) → o.failed = true → slab = true

/-- `set_id_info` is reached and is given no node. -/
def NullDereferenced {α : Type} (may : May) (p : Drv α) (d : Device) : Prop :=
  ∃ c id info rest d' o, Reaches (Device.perform 0) may p d (.act (.chan c (.setIdInfo id info)) rest) d' ∧
    may d' (.chan c (.setIdInfo id info)) o ∧ o.failed = true

/-- A failure of the request leaves no trace, and no NULL node is dereferenced. -/
structure LeavesNoTrace (slab : Bool) (d : Device) (r : Change) : Prop where
  books : ∀ ret d', Run (slabMay slab) r.run d ret d' → ret ≠ ssdOk →
    ∀ c, SameBooks (ledger d c) (ledger d' c)
  noNull : ¬ NullDereferenced (slabMay slab) r.run d

/-- The request comes to insert a node, when its actions go so. -/
def Inserts (d : Device) : Change → Prop
  | .write p => find (d.ch (id2channel p.id)).hash p.id = none ∧ ∃ t : BlockType, p.len = t.size ∧
      ∃ (i : Nat) (s : ChannelSpace), ssdAllocLogicBlock (d.ch (id2channel p.id)).space t = some ((i : Int), s)
  | .delete id => ∃ info, find (d.ch (id2channel id)).hash id = some info

/-- The table and space invariants of the channel, whose semaphore is free. -/
structure AtWork (d : Device) (c : Nat) : Prop where
  free : (d.ch c).sema = none
  space : ChannelInv c [] (ledger d c)
  table : ChannelPlaced c (d.ch c).hash

section Requests

variable {d : Device} {r : Change} {slab : Bool}

theorem failure_keeps_books {may : May} (work : AtWork d (id2channel r.id)) {ret : Int} {d' : Device}
    (run : Run may r.run d ret d') (failed : ret ≠ ssdOk) (c : Nat) :
    SameBooks (ledger d c) (ledger d' c) := by
  -- the ledger is changed in one channel, by an effect
  have update : ∀ books, SameBooks (ledger d (id2channel r.id)) books →
      ledger d' = Function.update (ledger d) (id2channel r.id) books →
        SameBooks (ledger d c) (ledger d' c) := by
    intro books same after
    rw [after]
    by_cases here : c = id2channel r.id
    · rw [here, Function.update_self]
      exact same
    · rw [Function.update_of_ne here]
      exact .refl _
  cases r with
  | write p =>
      rcases (ssdIdWrite_effect p).runs run with ⟨-, same⟩ | ⟨t, books, -, effect, after⟩
      · rw [same]
        exact .refl _
      · exact update books (effect.failed work.space failed) after
  | delete id =>
      obtain ⟨books, effect, after⟩ := (ssdIdDelete_effect id fun info found =>
        find_mem work.table found).runs run
      exact update books (effect.failed work.table failed) after

/-! ### Requests that insert nothing -/

/-- An action that allocates no node. -/
def NoInsert : Act → Prop
  | .chan _ (.setIdInfo ..) => False
  | _ => True

theorem safe_of_noInsert {α : Type} {may : May} {p : Drv α} {post : α → Device → Prop}
    (safe : Safe (Device.perform 0) (Permits may NoInsert) p post d) : ¬ NullDereferenced may p d := by
  rintro ⟨c, id, info, rest, d', o, reaches, -, -⟩
  exact (safe.reaches (fun _ => rfl) reaches _ rfl).1

/-- The lookup is all that a request does to a known or an unknown id. -/
theorem permits_perform {α : Type} {may : May} {G : Act → Prop} {a : Act} {next : a.Reply → Drv α}
    {post : α → Device → Prop} (here : G a) (each : ∀ o reply d', d.perform 0 a o = some (reply, d') →
      Safe (Device.perform 0) (Permits may G) (next reply) post d') :
    Safe (Device.perform 0) (Permits may G) (Program.perform a >>= next) post d := by
  rintro d' rfl
  exact ⟨here, fun o reply d'' _ step => each o reply d'' step⟩

theorem permits_value {α : Type} {may : May} {G : Act → Prop} (value : α) :
    Safe (Device.perform 0) (Permits may G) (.pure value) (fun _ _ => True) d := fun _ _ => trivial

theorem write_inserts_nothing {may : May} {p : WriteParam} (nothing : ¬ Inserts d (.write p)) :
    Safe (Device.perform 0) (Permits may NoInsert) (ssdIdWrite p) (fun _ _ => True) d := by
  have body : ∀ t, p.len = BlockType.size t → Safe (Device.perform 0) (Permits may NoInsert)
      (Drv.withSema (id2channel p.id) (ssdIdWriteBody (id2channel p.id) t p)) (fun _ _ => True) d := by
    intro t len
    refine permits_withSema trivial trivial (permits_perform trivial fun o known d1 step => ?_)
    simp only [Device.perform, Device.setCh_ch_same, Channel.perform, Option.map_some,
      Device.setCh_setCh] at step
    cases step
    split
    · exact permits_value _
    rename_i unknown
    have fresh : find (d.ch (id2channel p.id)).hash p.id = none := by simpa [find] using unknown
    refine permits_perform trivial fun o index d2 step => ?_
    simp only [Device.perform, Device.setCh_ch_same, Channel.perform] at step
    obtain ⟨⟨index', ch⟩, acted, eq⟩ := Option.map_eq_some_iff.1 step
    cases eq
    obtain ⟨⟨ret, s⟩, alloc, eq⟩ := Option.map_eq_some_iff.1 acted
    cases eq
    rcases alloc_answer alloc with rfl | ⟨i, rfl, -⟩
    · exact permits_value _
    · exact (nothing ⟨fresh, t, len, i, s, alloc⟩).elim
  simp only [ssdIdWrite]
  split
  · exact body .iblock ‹_›
  split
  · exact body .dblock ‹_›
  · exact permits_value _

theorem delete_inserts_nothing {may : May} {id : BlockId} (nothing : ¬ Inserts d (.delete id)) :
    Safe (Device.perform 0) (Permits may NoInsert) (ssdIdDelete id) (fun _ _ => True) d := by
  have absent : find (d.ch (id2channel id)).hash id = none :=
    Option.eq_none_iff_forall_ne_some.2 fun info found => nothing ⟨info, found⟩
  refine permits_withSema trivial trivial (permits_perform trivial fun o found d1 step => ?_)
  simp only [find] at absent
  simp only [Device.perform, Device.setCh_ch_same, Channel.perform, absent, Option.map_some] at step
  cases step
  exact permits_value _

/-! ### Requests that insert -/

/-- A node is about to be inserted. -/
def AboutToInsert {α : Type} (q : Drv α) (_ : Device) : Prop :=
  ∃ c id info rest, q = .act (.chan c (.setIdInfo id info)) rest

theorem aboutToInsert_bind {α β : Type} (q : Drv α) (t : Device) (next : α → Drv β)
    (inserts : AboutToInsert q t) : AboutToInsert (q >>= next) t := by
  obtain ⟨c, id, info, rest, rfl⟩ := inserts
  exact ⟨c, id, info, _, rfl⟩

theorem nullDereferenced_of_leads {α : Type} {p : Drv α}
    (leads : Leads (Device.perform 0) (slabMay true) AboutToInsert p d) :
    NullDereferenced (slabMay true) p d := by
  obtain ⟨q, d', reaches, c, id, info, rest, rfl⟩ := leads
  exact ⟨c, id, info, rest, d', { succeeds with failed := true }, reaches, fun _ _ _ _ _ => rfl, rfl⟩

/-- A command on the data of a channel, with any answer. -/
theorem dataOp_runs {c start len flag : Nat} (o : Outcome) (start_lt : start < 2 ^ 28)
    (len_lt : len < 2 ^ 11) (flag_lt : flag < 3) :
    ∃ d', Run (slabMay true) (channelOp c (cmdValue start len flag)) d o.ret.toInt d' := by
  have done : ∃ kbuf flash, Flash.exec (Command.ofWord (cmdValue start len flag)) o (d.ch c).kbuf
      (d.ch c).flash = some (kbuf, flash) := by
    rw [decode_cmdValue start_lt len_lt (by omega)]
    rcases (by omega : flag = 0 ∨ flag = 1 ∨ flag = 2) with rfl | rfl | rfl <;> exact ⟨_, _, rfl⟩
  obtain ⟨kbuf, flash, done⟩ := done
  exact ⟨_, channelOp_runs (o := succeeds) (fun _ _ _ _ _ => rfl) (fun _ _ _ _ _ => rfl) done⟩

theorem chan_runs {c : Nat} {a : ChanAct} {reply : a.Reply} {k : Channel} (o : Outcome)
    (step : (d.ch c).perform a o = some (reply, k)) :
    Run (slabMay true) (Drv.chan c a) d reply (d.setCh c k) := by
  refine .act (o := o) (fun _ _ _ _ _ => rfl) ?_ (.pure _ _)
  simp only [Device.perform, step, Option.map_some]

theorem write_leads {p : WriteParam} (free : (d.ch (id2channel p.id)).sema = none)
    (inserts : Inserts d (.write p)) :
    Leads (Device.perform 0) (slabMay true) AboutToInsert (ssdIdWrite p) d := by
  obtain ⟨fresh, t, len, i, s, alloc⟩ := inserts
  have body : ∀ d1, (d1.ch (id2channel p.id)).hash = (d.ch (id2channel p.id)).hash →
      (d1.ch (id2channel p.id)).space = (d.ch (id2channel p.id)).space →
      Leads (Device.perform 0) (slabMay true) AboutToInsert (ssdIdWriteBody (id2channel p.id) t p) d1 := by
    intro d1 hash space
    have short := t.size_le
    have known : (d1.ch (id2channel p.id)).perform (.getIdInfo p.id) succeeds =
        some (none, d1.ch (id2channel p.id)) := by
      rw [← fresh, find, ← hash]
      rfl
    refine Leads.seq (chan_runs succeeds known) ?_
    simp only [Option.isSome_none, Bool.false_eq_true, if_false, Device.setCh_self]
    have taken : (d1.ch (id2channel p.id)).perform
        (.space fun s => ssdAllocLogicBlock s t) succeeds =
          some ((i : Int), { d1.ch (id2channel p.id) with space := s }) := by
      simp only [Channel.perform, space, alloc, Option.map_some]
    refine Leads.seq (chan_runs succeeds taken) ?_
    obtain ⟨i', same, below⟩ := (alloc_answer alloc).resolve_left (by simp only [errAllocBlock]; omega)
    obtain rfl : i = i' := by omega
    simp only [ssdMaxVirblocksPerChannel] at below
    rw [if_neg (by simp only [errAllocBlock, ssdMaxVirblocksPerChannel]; omega)]
    refine Leads.seq (chan_runs succeeds rfl) (Leads.seq (chan_runs succeeds rfl) ?_)
    have copied : ∀ d2 : Device, (d2.ch (id2channel p.id)).perform
        (.copyFromUser p.buf (p.len * ssdBlockSize)) succeeds = some (false, _) := fun _ => rfl
    refine Leads.seq (chan_runs succeeds (copied _)) ?_
    simp only [Bool.false_eq_true, if_false, Int.toNat_natCast, len]
    have written : ∀ d2, ∃ d3, Run (slabMay true) (writeRetry (id2channel p.id)
        (cmdValue (i * ssdPagesPerBlock) (t.size * ssdPagesPerBlock) flagWrite)
        (cmdValue i t.size flagErase) 5 ssdOk) d2 ssdOk d3 := by
      intro d2
      simp only [ssdPagesPerBlock]
      obtain ⟨d3, run⟩ := dataOp_runs (d := d2) (c := id2channel p.id) succeeds
        (show i * 256 < 2 ^ 28 by omega) (show t.size * 256 < 2 ^ 11 by omega)
        (show flagWrite < 3 by decide)
      exact ⟨d3, runs_bind_iff.2 ⟨_, d3, run, .pure _ _⟩⟩
    obtain ⟨d3, run⟩ := written _
    refine Leads.seq run ?_
    rw [if_neg (by decide)]
    exact Leads.here ⟨_, _, _, _, rfl⟩
  have write : ssdIdWrite p = Drv.withSema (id2channel p.id) (ssdIdWriteBody (id2channel p.id) t p) := by
    cases t with
    | iblock => rw [ssdIdWrite, if_pos len]
    | dblock => rw [ssdIdWrite, if_neg (by rw [len]; decide), if_pos len]
  rw [write]
  refine withSema_leads (fun _ _ _ _ _ => rfl) free (fun q t next => aboutToInsert_bind q t next) ?_
  apply body
  · rw [Device.setCh_ch_same]
  · rw [Device.setCh_ch_same]

theorem delete_leads {id : BlockId} (free : (d.ch (id2channel id)).sema = none)
    (inserts : Inserts d (.delete id)) :
    Leads (Device.perform 0) (slabMay true) AboutToInsert (ssdIdDelete id) d := by
  obtain ⟨info, found⟩ := inserts
  refine withSema_leads (fun _ _ _ _ _ => rfl) free (fun q t next => aboutToInsert_bind q t next) ?_
  generalize taken : d.setCh (id2channel id) { d.ch (id2channel id) with sema := some 0 } = d1
  have found : lookup ((d1.ch (id2channel id)).hash (idHash id)).first id = some info := by
    rw [← taken, Device.setCh_ch_same]
    exact found
  have unlinked : (d1.ch (id2channel id)).perform (.delIdInfo id) succeeds = some (some info,
      (d1.ch (id2channel id)).setHead (idHash id)
        (((d1.ch (id2channel id)).hash (idHash id)).delete id)) := by
    simp only [Channel.perform, found]
  refine Leads.seq (chan_runs succeeds unlinked) ?_
  simp only
  split
  · exact Leads.here ⟨_, _, _, _, rfl⟩
  rename_i sound
  have short := info.len.size_le
  have low := info.block.isLt
  refine Leads.seq (chan_runs succeeds rfl) ?_
  obtain ⟨d3, run⟩ := dataOp_runs timesOut (show info.block.val < 2 ^ 28 by omega)
    (show info.len.size < 2 ^ 11 by omega) (show flagErase < 3 by decide)
  refine Leads.seq run ?_
  rw [if_pos (by decide)]
  exact Leads.here ⟨_, _, _, _, rfl⟩

theorem insert_derefs_null (free : (d.ch (id2channel r.id)).sema = none) (inserts : Inserts d r) :
    NullDereferenced (slabMay true) r.run d := by
  cases r with
  | write p => exact nullDereferenced_of_leads (write_leads free inserts)
  | delete id => exact nullDereferenced_of_leads (delete_leads free inserts)

theorem noNull_of_not_inserts {may : May} (nothing : ¬ Inserts d r) : ¬ NullDereferenced may r.run d := by
  cases r with
  | write p => exact safe_of_noInsert (write_inserts_nothing nothing)
  | delete id => exact safe_of_noInsert (delete_inserts_nothing nothing)

end Requests

/-- **A write or a delete that fails leaves no trace** and dereferences no NULL node, if
and only if the slab does not fail or there is nothing to insert. -/
theorem failures_leave_no_trace (slab : Bool) (d : Device) (r : Change)
    (work : AtWork d (id2channel r.id)) :
    LeavesNoTrace slab d r ↔ slab = false ∨ ¬ Inserts d r := by
  constructor
  · intro noTrace
    cases slab with
    | false => exact .inl rfl
    | true => exact .inr fun inserts => noTrace.noNull (insert_derefs_null work.free inserts)
  · intro condition
    refine ⟨fun ret d' run failed c => failure_keeps_books work run failed c, ?_⟩
    rcases condition with rfl | nothing
    · rintro ⟨c, id, info, rest, d', o, -, allowed, failed⟩
      exact Bool.false_ne_true (allowed c id info rfl failed)
    · exact noNull_of_not_inserts nothing

/-! ## A first write -/

theorem emptyDevice_atWork : AtWork emptyDevice 0 :=
  ⟨rfl, emptyDevice_inv 0 (by decide), fun _ _ _ member => absurd member List.not_mem_nil,
    fun _ _ => .nil, fun _ _ => rfl⟩

/-- A write of an index block with a new id. -/
def newWrite : Change := .write ⟨⟨0, 0⟩, fun _ => 0, 1⟩

theorem newWrite_inserts : Inserts emptyDevice newWrite := by
  have zero : emptyChannel.space.area.iblock.areaMap 0 = false := by
    rw [emptyChannel_space, reloadSpace_empty]
    rfl
  obtain ⟨s, alloc, -⟩ := alloc_first zero
  exact ⟨rfl, .iblock, rfl, 0, s, alloc⟩

theorem new_write_leaves_no_trace : AtWork emptyDevice (id2channel newWrite.id) ∧
    (LeavesNoTrace false emptyDevice newWrite ↔ false = false ∨ ¬ Inserts emptyDevice newWrite) :=
  ⟨emptyDevice_atWork, failures_leave_no_trace false emptyDevice newWrite emptyDevice_atWork⟩

/-- The slab is empty: the NULL node is cleared. -/
theorem new_write_derefs_null : AtWork emptyDevice (id2channel newWrite.id) ∧
    ¬ LeavesNoTrace true emptyDevice newWrite :=
  ⟨emptyDevice_atWork, fun noTrace => noTrace.noNull (insert_derefs_null rfl newWrite_inserts)⟩

end FpgaSsd.Theory
