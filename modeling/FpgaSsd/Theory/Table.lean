/-
# Theory.Table — the id table is a finite map

Any number of clients write, read and delete ids and mark bad ones, each request
under the semaphore of the channel of its id.

* `TableEffect` — what a request does to the map from ids to blocks: a write inserts
  where it links the new node, a delete or a mark-bad removes where it gives the
  blocks back;
* `ChannelPlaced` — the representation: nodes in the channel and the bucket of
  their id, no id twice, counts that are lengths;
* `Good` — the table is well placed, and agrees with the map on every channel
  whose semaphore is free;
* `table_refines_map` — what holds in every trace of the clients;
* `table_is_a_map` — where the commands on the tables in RAM are answered, every request has
  had the effect that its answer tells;
* `markBad_fails_and_removes` — a mark-bad whose tables are not answered may have removed its id.
-/
import FpgaSsd.Lib.Trace
import FpgaSsd.Theory.Exclusive
import FpgaSsd.Theory.Partition

namespace FpgaSsd.Theory

open FpgaSsd.Lib FpgaSsd.Driver

set_option autoImplicit false

/-! ## Requests and their effects -/

inductive TableRequest where
  | write (p : WriteParam)
  | read (p : ReadParam)
  | delete (id : BlockId)
  | markBad (id : BlockId)

def TableRequest.run : TableRequest → Drv (Int × Option Mem)
  | .write p => noData (ssdIdWrite p)
  | .read p => ssdIdRead p
  | .delete id => noData (ssdIdDelete id)
  | .markBad id => noData (ssdMarkBadBlock ⟨paramId, id, 0, 0⟩)

inductive TableEffect where
  | insert (id : BlockId) (info : IdInfo)
  | remove (id : BlockId)
  deriving DecidableEq, Repr

def TableEffect.id : TableEffect → BlockId
  | .insert id _ => id
  | .remove id => id

/-- A write takes effect when it links its node, the other requests when they give
the erased blocks back. -/
def effectOf : TableRequest → Act → Option TableEffect
  | .write _, .chan _ (.setIdInfo id info) => some (.insert id info)
  | .delete id, .chan _ (.space _) => some (.remove id)
  | .markBad id, .chan _ (.space _) => some (.remove id)
  | _, _ => none

/-! ## The map -/

/-- The blocks of each id. -/
abbrev IdMap := BlockId → Option IdInfo

def TableEffect.apply (m : IdMap) : TableEffect → IdMap
  | .insert id info => Function.update m id (some info)
  | .remove id => Function.update m id none

/-- Only an absent id is inserted, and only a present one removed. -/
def TableEffect.Legal (m : IdMap) : TableEffect → Prop
  | .insert id _ => m id = none
  | .remove id => m id ≠ none

/-- The map after the effects, the newest first. -/
def mapOf (m : IdMap) : List TableEffect → IdMap
  | [] => m
  | e :: log => e.apply (mapOf m log)

/-- Every effect is legal where it happens. -/
def LegalLog (m : IdMap) : List TableEffect → Prop
  | [] => True
  | e :: log => e.Legal (mapOf m log) ∧ LegalLog m log

theorem TableEffect.apply_other {m : IdMap} {e : TableEffect} {id : BlockId} (apart : id ≠ e.id) :
    e.apply m id = m id := by
  cases e with
  | insert => exact Function.update_of_ne apart ..
  | remove => exact Function.update_of_ne apart ..

/-- What the driver finds under an id. -/
def tableLookup (d : Device) (id : BlockId) : Option IdInfo :=
  lookup ((d.ch (id2channel id)).hash (idHash id)).first id

/-- The table of a channel says what the map says. -/
def Agrees (c : Nat) (d : Device) (m : IdMap) : Prop :=
  ∀ id, id2channel id = c → tableLookup d id = m id

/-! ## The representation -/

/-- The nodes of channel `c` are where lookups of their ids search for them. -/
structure ChannelPlaced (c : Nat) (hash : Nat → HashHead) : Prop where
  node : ∀ b < ssdHashSize, ∀ n ∈ (hash b).first,
    id2channel n.id = c ∧ n.info.channel.val = c ∧ idHash n.id = b
  distinct : ∀ b < ssdHashSize, ((hash b).first.map HashNode.id).Nodup
  count : ∀ b < ssdHashSize, (hash b).count = (hash b).first.length

def TablePlaced (d : Device) : Prop := ∀ c < ssdMaxChannel, ChannelPlaced c (d.ch c).hash

/-- All nodes of the table. -/
def tableNodes (d : Device) : List HashNode := (List.range ssdMaxChannel).flatMap fun c => (d.ch c).nodes

section Representation

variable {c : Nat} {hash : Nat → HashHead} {id : BlockId} {info : IdInfo}

theorem lookup_eq_none {nodes : List HashNode} : lookup nodes id = none ↔ id ∉ nodes.map HashNode.id := by
  simp only [lookup, Option.map_eq_none_iff, List.find?_eq_none, decide_eq_true_eq, List.mem_map,
    not_exists, not_and]

theorem lookup_mem {nodes : List HashNode} (found : lookup nodes id = some info) :
    ⟨id, info⟩ ∈ nodes := (lookup_eq_some found).mem_iff.2 (List.mem_cons_self ..)

theorem lookup_insert {nodes : List HashNode} (id' : BlockId) :
    lookup (⟨id, info⟩ :: nodes) id' = if id' = id then some info else lookup nodes id' := by
  simp only [lookup, List.find?_cons]
  by_cases same : id' = id
  · subst same
    simp
  · simp [same, Ne.symm same]

/-- Unlinking the node of an id leaves the other ids. -/
theorem lookup_delete {nodes : List HashNode} (nodup : (nodes.map HashNode.id).Nodup) (id' : BlockId) :
    lookup (nodes.eraseP fun n => n.id = id) id' = if id' = id then none else lookup nodes id' := by
  induction nodes with
  | nil => simp [lookup]
  | cons n rest ih =>
      obtain ⟨fresh, nodup'⟩ := List.nodup_cons.1 nodup
      have tail := ih nodup'
      obtain ⟨nodeId, nodeInfo⟩ := n
      by_cases here : nodeId = id
      · subst here
        rw [List.eraseP_cons_of_pos (by simp), lookup_insert]
        split
        · rename_i same
          subst same
          exact lookup_eq_none.2 fresh
        · rfl
      · rw [List.eraseP_cons_of_neg (by simpa using here), lookup_insert, lookup_insert, tail]
        by_cases same : id' = id
        · rw [if_pos same, if_pos same, if_neg (by rw [same]; exact Ne.symm here)]
        · rw [if_neg same, if_neg same]

theorem ChannelPlaced.insert (placed : ChannelPlaced c hash) (channel : id2channel id = c)
    (own : info.channel.val = c) (absent : lookup (hash (idHash id)).first id = none) :
    ChannelPlaced c (Function.update hash (idHash id) ((hash (idHash id)).insert ⟨id, info⟩)) := by
  refine ⟨fun b inside n member => ?_, fun b inside => ?_, fun b inside => ?_⟩
  all_goals
    by_cases same : b = idHash id
  · subst same
    rw [Function.update_self] at member
    rcases List.mem_cons.1 member with rfl | old
    · exact ⟨channel, own, rfl⟩
    · exact placed.node _ inside n old
  · rw [Function.update_of_ne same] at member
    exact placed.node b inside n member
  · subst same
    rw [Function.update_self]
    exact List.nodup_cons.2 ⟨lookup_eq_none.1 absent, placed.distinct _ inside⟩
  · rw [Function.update_of_ne same]
    exact placed.distinct b inside
  · subst same
    rw [Function.update_self]
    simp only [HashHead.insert, placed.count _ inside, List.length_cons]
    omega
  · rw [Function.update_of_ne same]
    exact placed.count b inside

theorem ChannelPlaced.delete (placed : ChannelPlaced c hash)
    (found : lookup (hash (idHash id)).first id = some info) :
    ChannelPlaced c (Function.update hash (idHash id) ((hash (idHash id)).delete id)) := by
  have perm := lookup_eq_some found
  refine ⟨fun b inside n member => ?_, fun b inside => ?_, fun b inside => ?_⟩
  all_goals
    by_cases same : b = idHash id
  · subst same
    rw [Function.update_self] at member
    exact placed.node _ inside n (perm.mem_iff.2 (List.mem_cons_of_mem _ member))
  · rw [Function.update_of_ne same] at member
    exact placed.node b inside n member
  · subst same
    rw [Function.update_self]
    have nodup := (perm.map HashNode.id).nodup_iff.1 (placed.distinct _ inside)
    exact (List.nodup_cons.1 nodup).2
  · rw [Function.update_of_ne same]
    exact placed.distinct b inside
  · subst same
    rw [Function.update_self]
    have length := perm.length_eq
    simp only [HashHead.delete, placed.count _ inside, length, List.length_cons]
    omega
  · rw [Function.update_of_ne same]
    exact placed.count b inside

end Representation

/-! ## The contract of a thread -/

/-- The driver, with the effects of all requests and those of the one at work. -/
abbrev Noted := Device × List TableEffect × List TableEffect

/-- The table is well placed, and where no request is at work it is the map. -/
structure Good (m0 : IdMap) (d : Device) (log : List TableEffect) : Prop where
  placed : TablePlaced d
  legal : LegalLog m0 log
  agrees : ∀ c, (d.ch c).sema = none → Agrees c d (mapOf m0 log)

/-- What the other threads leave alone. -/
structure Unnoticed (m0 : IdMap) (t : Nat) (s s' : Noted) : Prop where
  own : s'.2.2 = s.2.2
  sema : ∀ c, (s.1.ch c).sema = some t ↔ (s'.1.ch c).sema = some t
  table : ∀ c, (s.1.ch c).sema = some t → (s'.1.ch c).hash = (s.1.ch c).hash
  issued : ∀ c, (s.1.ch c).sema = some t → (s'.1.ch c).outstanding = (s.1.ch c).outstanding
  map : ∀ id, (s.1.ch (id2channel id)).sema = some t →
    mapOf m0 s'.2.1 id = mapOf m0 s.2.1 id
  good : Good m0 s.1 s.2.1 → Good m0 s'.1 s'.2.1

/-- What a thread may do to the table, the semaphores and the commands when the map is `m`. -/
def TableAct (m : IdMap) (t : Nat) (d : Device) : Act → Prop
  | .chan c (.issue _) | .chan c .await => (d.ch c).sema = some t
  | .chan c (.setIdInfo id info) =>
      (d.ch c).sema = some t ∧ id2channel id = c ∧ info.channel.val = c ∧ tableLookup d id = none
  | .chan c (.getIdInfo id) | .chan c (.delIdInfo id) =>
      (d.ch c).sema = some t ∧ id2channel id = c ∧ tableLookup d id = m id
  | .chan _ (.initBucket _) | .chan _ (.freeBucket _) => False
  | .up c => (d.ch c).sema = some t ∧ Agrees c d m
  | _ => True

structure Orderly (m0 : IdMap) (t : Nat) (job : TableRequest) (s : Noted) (a : Act) : Prop where
  good : Good m0 s.1 s.2.1
  act : TableAct (mapOf m0 s.2.1) t s.1 a
  effect : ∀ e, effectOf job a = some e →
    e.Legal (mapOf m0 s.2.1) ∧ (s.1.ch (id2channel e.id)).sema = some t

def tableContract (may : May) (m0 : IdMap) (t : Nat) (job : TableRequest) : Contract Act Noted Outcome :=
  ⟨Unnoticed m0 t, Orderly m0 t job, fun s => may s.1⟩

theorem tableContract_steady (may : May) (m0 : IdMap) (t : Nat) (job : TableRequest) :
    (tableContract may m0 t job).Steady where
  refl _ := ⟨rfl, fun _ => Iff.rfl, fun _ _ => rfl, fun _ _ => rfl, fun _ _ => rfl, id⟩
  trans first second :=
    ⟨second.own.trans first.own, fun c => (first.sema c).trans (second.sema c),
      fun c held => (second.table c ((first.sema c).1 held)).trans (first.table c held),
      fun c held => (second.issued c ((first.sema c).1 held)).trans (first.issued c held),
      fun id held => (second.map id ((first.sema _).1 held)).trans (first.map id held),
      fun good => second.good (first.good good)⟩

/-- Actions that leave tables and semaphores alone. -/
def Act.Untabled : Act → Prop
  | .chan _ (.setIdInfo ..) | .chan _ (.delIdInfo _) | .chan _ (.initBucket _)
  | .chan _ (.freeBucket _) | .down _ | .up _ => False
  | _ => True

section Steps

variable {m0 : IdMap} {t t' : Nat} {job : TableRequest} {d d' : Device} {log own own' : List TableEffect}
variable {a : Act} {o : Outcome}

theorem chanAct_hash {c : Nat} {a : ChanAct} {ch ch' : Channel} {r : a.Reply}
    (untabled : Act.Untabled (.chan c a)) (step : ch.perform a o = some (r, ch')) :
    ch'.hash = ch.hash ∧ ch'.sema = ch.sema := by
  have sema := (chanAct_frame step).1
  cases a
  case setIdInfo | delIdInfo | initBucket | freeBucket => cases untabled
  case await =>
      obtain ⟨-, -, -, -, -, -, rfl⟩ := Channel.perform_await step
      exact ⟨rfl, rfl⟩
  case space f =>
      obtain ⟨⟨r', space⟩, -, eq⟩ := Option.map_eq_some_iff.1 step
      cases eq
      exact ⟨rfl, rfl⟩
  all_goals
    cases step
    exact ⟨rfl, sema⟩

theorem untabled_frame {r : a.Reply} (untabled : Act.Untabled a)
    (step : d.perform t a o = some (r, d')) (c : Nat) :
    (d'.ch c).hash = (d.ch c).hash ∧ (d'.ch c).sema = (d.ch c).sema := by
  cases a
  case chan c' a =>
      obtain ⟨⟨r', ch⟩, acted, eq⟩ := Option.map_eq_some_iff.1 step
      cases eq
      by_cases same : c = c'
      · subst same
        rw [Device.setCh_ch_same]
        exact chanAct_hash untabled acted
      · rw [Device.setCh_ch_other _ _ same]
        exact ⟨rfl, rfl⟩
  case down | up => cases untabled
  case downFlush =>
      simp only [Device.perform] at step
      split at step
      · cases step
        exact ⟨rfl, rfl⟩
      · cases step
  all_goals
    cases step
    exact ⟨rfl, rfl⟩

/-- Commands are issued and answered on channels of the thread only. -/
theorem Orderly.issued_same {r : a.Reply} (orderly : Orderly m0 t job (d, log, own) a)
    (step : d.perform t a o = some (r, d')) (untabled : Act.Untabled a) {c : Nat} (foreign : (d.ch c).sema ≠ some t) :
    (d'.ch c).outstanding = (d.ch c).outstanding := by
  have act := orderly.act
  cases a
  case chan c' a =>
      obtain ⟨⟨r', ch⟩, acted, eq⟩ := Option.map_eq_some_iff.1 step
      cases eq
      by_cases same : c = c'
      · subst same
        rw [Device.setCh_ch_same]
        refine (chanAct_frame acted).2.2 (fun cmd issue => ?_) fun await => ?_
        · subst issue
          exact foreign act
        · subst await
          exact foreign act
      · rw [Device.setCh_ch_other _ _ same]
  case down | up => cases untabled
  case downFlush =>
      simp only [Device.perform] at step
      split at step
      · cases step
        rfl
      · cases step
  all_goals
    cases step
    rfl

/-- The map changes on channels of the thread only. -/
theorem Orderly.map_same (orderly : Orderly m0 t job (d, log, own) a) {id : BlockId}
    (foreign : (d.ch (id2channel id)).sema ≠ some t) :
    mapOf m0 ((effectOf job a).toList ++ log) id = mapOf m0 log id := by
  cases effect : effectOf job a with
  | none => rfl
  | some e =>
      apply TableEffect.apply_other
      rintro rfl
      exact foreign (orderly.effect e effect).2

theorem Orderly.legal (orderly : Orderly m0 t job (d, log, own) a) :
    LegalLog m0 ((effectOf job a).toList ++ log) := by
  cases effect : effectOf job a with
  | none => exact orderly.good.legal
  | some e => exact ⟨(orderly.effect e effect).1, orderly.good.legal⟩

theorem tableLookup_congr {id : BlockId}
    (same : (d'.ch (id2channel id)).hash = (d.ch (id2channel id)).hash) :
    tableLookup d' id = tableLookup d id := by
  simp only [tableLookup, same]

theorem Orderly.good_after (orderly : Orderly m0 t job (d, log, own) a) (placed : TablePlaced d')
    (table : ∀ c, (d.ch c).sema ≠ some t → (d'.ch c).hash = (d.ch c).hash)
    (free : ∀ c, (d'.ch c).sema = none → (d.ch c).sema = none ∨
      Agrees c d' (mapOf m0 ((effectOf job a).toList ++ log))) :
    Good m0 d' ((effectOf job a).toList ++ log) := by
  constructor
  · exact placed
  · exact orderly.legal
  · intro c now
    rcases free c now with before | agrees
    · intro id here
      have foreign : (d.ch (id2channel id)).sema ≠ some t := by simp [here, before]
      rw [tableLookup_congr (table _ foreign), orderly.map_same foreign]
      exact orderly.good.agrees c before id here
    · exact agrees

/-- What one thread does on channels of its own, the others do not notice. -/
theorem Orderly.unnoticed (orderly : Orderly m0 t job (d, log, own) a) (other : t' ≠ t)
    (placed : TablePlaced d') (sema : ∀ c, (d.ch c).sema = some t' ↔ (d'.ch c).sema = some t')
    (table : ∀ c, (d.ch c).sema ≠ some t → (d'.ch c).hash = (d.ch c).hash)
    (issued : ∀ c, (d.ch c).sema ≠ some t → (d'.ch c).outstanding = (d.ch c).outstanding)
    (free : ∀ c, (d'.ch c).sema = none → (d.ch c).sema = none ∨
      Agrees c d' (mapOf m0 ((effectOf job a).toList ++ log))) :
    Unnoticed m0 t' (d, log, own') (d', (effectOf job a).toList ++ log, own') := by
  have foreign : ∀ c, (d.ch c).sema = some t' → (d.ch c).sema ≠ some t := by
    intro c theirs mine
    rw [theirs] at mine
    exact other (Option.some.inj mine)
  constructor
  · rfl
  · exact sema
  · exact fun c held => table c (foreign c held)
  · exact fun c held => issued c (foreign c held)
  · exact fun id held => orderly.map_same (foreign _ held)
  · exact fun _ => orderly.good_after placed table free

/-- The table after a change of the buckets of channel `c`. -/
theorem TablePlaced.setCh {c : Nat} {ch : Channel} (placed : TablePlaced d)
    (here : c < ssdMaxChannel → ChannelPlaced c ch.hash) : TablePlaced (d.setCh c ch) := by
  intro c' inside
  by_cases same : c' = c
  · subst same
    rw [Device.setCh_ch_same]
    exact here inside
  · rw [Device.setCh_ch_other _ _ same]
    exact placed c' inside

/-- A change of the buckets of a channel that thread `t` holds. -/
theorem Orderly.setHash {c : Nat} {ch : Channel} (orderly : Orderly m0 t job (d, log, own) a)
    (other : t' ≠ t) (held : (d.ch c).sema = some t) (kept : ch.sema = (d.ch c).sema)
    (here : c < ssdMaxChannel → ChannelPlaced c ch.hash) :
    Unnoticed m0 t' (d, log, own') (d.setCh c ch, (effectOf job a).toList ++ log, own') := by
  have sema : ∀ c', ((d.setCh c ch).ch c').sema = (d.ch c').sema := by
    intro c'
    by_cases same : c' = c
    · subst same
      rw [Device.setCh_ch_same, kept]
    · rw [Device.setCh_ch_other _ _ same]
  have apart : ∀ c', (d.ch c').sema ≠ some t → (d.setCh c ch).ch c' = d.ch c' := by
    intro c' foreign
    refine Device.setCh_ch_other _ _ ?_
    rintro rfl
    exact foreign held
  apply orderly.unnoticed other (orderly.good.placed.setCh here)
  · intro c'
    rw [sema]
  · exact fun c' foreign => by rw [apart c' foreign]
  · exact fun c' foreign => by rw [apart c' foreign]
  · intro c' now
    rw [sema] at now
    exact .inl now

/-- A semaphore that is taken, or given back where the table agrees with the map. -/
theorem Orderly.setSema {c : Nat} {holder : Option Nat} (orderly : Orderly m0 t job (d, log, own) a)
    (other : t' ≠ t) (theirs : (d.ch c).sema = some t' ↔ holder = some t')
    (agrees : holder = none → Agrees c d (mapOf m0 ((effectOf job a).toList ++ log))) :
    Unnoticed m0 t' (d, log, own')
      (d.setCh c { d.ch c with sema := holder }, (effectOf job a).toList ++ log, own') := by
  have rest : ∀ c', ((d.setCh c { d.ch c with sema := holder }).ch c').hash = (d.ch c').hash ∧
      ((d.setCh c { d.ch c with sema := holder }).ch c').outstanding = (d.ch c').outstanding := by
    intro c'
    by_cases same : c' = c
    · subst same
      rw [Device.setCh_ch_same]
      exact ⟨rfl, rfl⟩
    · rw [Device.setCh_ch_other _ _ same]
      exact ⟨rfl, rfl⟩
  have hash := fun c' => (rest c').1
  apply orderly.unnoticed other
  · intro c' inside
    rw [hash]
    exact orderly.good.placed c' inside
  · intro c'
    by_cases same : c' = c
    · subst same
      rwa [Device.setCh_ch_same]
    · rw [Device.setCh_ch_other _ _ same]
  · exact fun c' _ => hash c'
  · exact fun c' _ => (rest c').2
  · intro c' now
    by_cases same : c' = c
    · subst same
      rw [Device.setCh_ch_same] at now
      refine .inr fun id here => ?_
      rw [tableLookup_congr (hash _)]
      exact agrees now id here
    · rw [Device.setCh_ch_other _ _ same] at now
      exact .inl now

/-- **An orderly action is not noticed by the other threads.** -/
theorem Orderly.separate {r : a.Reply} (orderly : Orderly m0 t job (d, log, own) a) (other : t' ≠ t)
    (step : d.perform t a o = some (r, d')) :
    Unnoticed m0 t' (d, log, own') (d', (effectOf job a).toList ++ log, own') := by
  have act := orderly.act
  have same : Act.Untabled a →
      Unnoticed m0 t' (d, log, own') (d', (effectOf job a).toList ++ log, own') := by
    intro untabled
    have frame := untabled_frame untabled step
    apply orderly.unnoticed other
    · intro c inside
      rw [(frame c).1]
      exact orderly.good.placed c inside
    · exact fun c => by rw [(frame c).2]
    · exact fun c _ => (frame c).1
    · exact fun c foreign => orderly.issued_same step untabled foreign
    · exact fun c now => .inl ((frame c).2 ▸ now)
  cases a with
  | chan c a =>
      cases a with
      | setIdInfo id info =>
          obtain ⟨held, rfl, channel, absent⟩ := act
          obtain ⟨⟨r', ch⟩, acted, eq⟩ := Option.map_eq_some_iff.1 step
          cases eq
          simp only [Channel.perform] at acted
          split at acted
          · cases acted
          cases acted
          refine orderly.setHash other held ?_ fun inside => ?_
          · rfl
          · exact (orderly.good.placed _ inside).insert rfl channel absent
      | delIdInfo id =>
          obtain ⟨held, rfl, -⟩ := act
          obtain ⟨⟨r', ch⟩, acted, eq⟩ := Option.map_eq_some_iff.1 step
          cases eq
          simp only [Channel.perform] at acted
          split at acted
          · cases acted
            exact orderly.setHash other held rfl (orderly.good.placed _)
          rename_i info found
          cases acted
          refine orderly.setHash other held ?_ fun inside => ?_
          · rfl
          · exact (orderly.good.placed _ inside).delete found
      | initBucket | freeBucket => exact absurd act id
      | _ => exact same trivial
  | down c =>
      simp only [Device.perform] at step
      split at step
      · rename_i free
        cases step
        apply orderly.setSema other
        · rw [free]
          exact iff_of_false (Option.some_ne_none t').symm fun theirs => other (Option.some.inj theirs).symm
        · intro none
          cases none
      · cases step
  | up c =>
      obtain ⟨held, agrees⟩ := act
      cases step
      have effect : effectOf job (.up c) = none := by cases job <;> rfl
      apply orderly.setSema other
      · rw [held]
        exact iff_of_false (fun theirs => other (Option.some.inj theirs).symm) (Option.some_ne_none t').symm
      · rw [effect]
        exact fun _ => agrees
  | _ => exact same trivial

theorem Orderly.keeps {r : a.Reply} (orderly : Orderly m0 t job (d, log, own) a)
    (step : d.perform t a o = some (r, d')) : Good m0 d' ((effectOf job a).toList ++ log) := by
  have unnoticed : Unnoticed m0 (t + 1) (d, log, []) (d', (effectOf job a).toList ++ log, []) :=
    orderly.separate (Nat.succ_ne_self t) step
  exact unnoticed.good orderly.good

end Steps

/-! ## One request -/

/-- The triple of a request of thread `t`. -/
abbrev Tables (may : May) (m0 : IdMap) (t : Nat) (job : TableRequest) {α : Type} (p : Drv α)
    (post : α → Noted → Prop) (s : Noted) : Prop :=
  Safe (noted (Device.perform t) (effectOf job)) (tableContract may m0 t job) p post s

/-- Thread `t` holds the channel of `id`: the table has `known` for it and the map
`mapped`, for the other ids of the channel they agree. -/
structure Section (m0 : IdMap) (t : Nat) (id : BlockId) (known mapped : Option IdInfo)
    (own : List TableEffect) (s : Noted) : Prop where
  good : Good m0 s.1 s.2.1
  held : (s.1.ch (id2channel id)).sema = some t
  others : ∀ id', id2channel id' = id2channel id → id' ≠ id →
    tableLookup s.1 id' = mapOf m0 s.2.1 id'
  known : tableLookup s.1 id = known
  mapped : mapOf m0 s.2.1 id = mapped
  own : s.2.2 = own

section Sections

variable {may : May} {m0 : IdMap} {t : Nat} {job : TableRequest} {id : BlockId} {known mapped : Option IdInfo}
variable {own : List TableEffect} {s s' : Noted} {α β : Type}

theorem Section.env (sec : Section m0 t id known mapped own s) (moved : Unnoticed m0 t s s') :
    Section m0 t id known mapped own s' := by
  have held : ∀ {id'}, id2channel id' = id2channel id → (s.1.ch (id2channel id')).sema = some t := by
    intro id' here
    rw [here]
    exact sec.held
  constructor
  · exact moved.good sec.good
  · exact (moved.sema _).1 sec.held
  · intro id' here apart
    rw [tableLookup_congr (moved.table _ (held here)), moved.map _ (held here)]
    exact sec.others id' here apart
  · rw [tableLookup_congr (moved.table _ (held rfl))]
    exact sec.known
  · rw [moved.map _ (held rfl)]
    exact sec.mapped
  · exact moved.own.trans sec.own

theorem Tables.seq {p : Drv α} {next : α → Drv β} {M : α → Noted → Prop} {post : β → Noted → Prop}
    (first : Tables may m0 t job p M s) (rest : ∀ value s', M value s' → Tables may m0 t job (next value) post s') :
    Tables may m0 t job (p >>= next) post s :=
  Safe.seq (tableContract_steady may m0 t job) first rest

/-- An action of the section, with what it does. -/
theorem Section.act {a : Act} {post : a.Reply → Noted → Prop}
    (sec : Section m0 t id known mapped own s)
    (orderly : ∀ s', Section m0 t id known mapped own s' → Orderly m0 t job s' a)
    (next : ∀ s' o r d', Section m0 t id known mapped own s' →
      s'.1.perform t a o = some (r, d') → Good m0 d' ((effectOf job a).toList ++ s'.2.1) →
        post r (d', (effectOf job a).toList ++ s'.2.1, (effectOf job a).toList ++ s'.2.2))
    (stable : ∀ r s' s'', post r s' → Unnoticed m0 t s' s'' → post r s'') :
    Tables may m0 t job (Program.perform a) post s := by
  intro s1 moved
  have now := sec.env moved
  refine ⟨orderly s1 now, fun o r s2 _ step => ?_⟩
  obtain ⟨acted, lists⟩ := recorded_eq_some.1 step
  obtain ⟨d2, log2, own2⟩ := s2
  cases lists
  intro s3 later
  have good := (orderly s1 now).keeps acted
  exact stable r _ s3 (next s1 o r d2 now acted good) later

/-- Commands are those of channel `c`. -/
def Act.CommandsOn (c : Nat) : Act → Prop
  | .chan c' (.issue _) | .chan c' .await => c' = c
  | _ => True

/-- Actions that are no effects, and neither read nor change the table. -/
structure TableQuiet (job : TableRequest) (c : Nat) (a : Act) : Prop where
  untabled : Act.Untabled a
  effect : effectOf job a = none
  noLookup : ∀ c id, a ≠ .chan c (.getIdInfo id)
  commands : Act.CommandsOn c a

theorem TableQuiet.orderly {c : Nat} {a : Act} (quiet : TableQuiet job c a) (good : Good m0 s.1 s.2.1)
    (held : (s.1.ch c).sema = some t) : Orderly m0 t job s a := by
  obtain ⟨untabled, effect, noLookup, commands⟩ := quiet
  constructor
  · exact good
  · cases a with
    | chan c' a =>
        cases a with
        | getIdInfo id => exact absurd rfl (noLookup c' id)
        | issue | await =>
            obtain rfl : c' = c := commands
            exact held
        | _ => trivial
    | up => cases untabled
    | _ => trivial
  · rw [effect]
    exact nofun

theorem Act.OnBuffer.quiet {c : Nat} {a : Act} (onBuffer : Act.OnBuffer c a) : TableQuiet job c a := by
  cases a with
  | chan c' a =>
      have none : effectOf job (.chan c' a) = none := by
        cases a <;> first | (cases job <;> rfl) | cases onBuffer
      constructor
      · cases a <;> trivial
      · exact none
      · rintro c id ⟨⟩
        cases onBuffer
      · cases a <;> first | exact onBuffer | trivial
  | _ => cases onBuffer

theorem TableQuiet.perform {c : Nat} {a : Act} (quiet : TableQuiet job c a) :
    (Program.perform a : Drv a.Reply).All (TableQuiet job c) := ⟨quiet, fun _ => trivial⟩

theorem TableQuiet.keeps {d d2 : Device} {log own1 : List TableEffect} {a : Act} {o : Outcome} {r : a.Reply}
    (quiet : TableQuiet job (id2channel id) a) (now : Section m0 t id known mapped own (d, log, own1))
    (step : d.perform t a o = some (r, d2)) :
    Section m0 t id known mapped own (d2, (effectOf job a).toList ++ log, (effectOf job a).toList ++ own1) := by
  have good := (quiet.orderly now.good now.held).keeps step
  have frame := untabled_frame quiet.untabled step
  simp only [quiet.effect, Option.toList_none, List.nil_append] at good ⊢
  constructor
  · exact good
  · rw [(frame _).2]
    exact now.held
  · intro id' here apart
    rw [tableLookup_congr (frame _).1]
    exact now.others id' here apart
  · rw [tableLookup_congr (frame _).1]
    exact now.known
  · exact now.mapped
  · exact now.own

/-- A section that goes on without an effect. -/
theorem Section.quiet {p : Drv α} (all : p.All (TableQuiet job (id2channel id)))
    (sec : Section m0 t id known mapped own s) :
    Tables may m0 t job p (fun _ => Section m0 t id known mapped own) s := by
  refine Safe.all (fun _ _ moved now => now.env moved) (fun _ a quiet now => quiet.orderly now.good now.held)
    (fun a o s1 r s2 quiet _ step now => ?_) all sec
  obtain ⟨acted, lists⟩ := recorded_eq_some.1 step
  obtain ⟨d2, log2, own2⟩ := s2
  cases lists
  exact quiet.keeps now acted

theorem Section.agrees (sec : Section m0 t id known known own s) :
    Agrees (id2channel id) s.1 (mapOf m0 s.2.1) := by
  intro id' here
  by_cases same : id' = id
  · subst same
    exact sec.known.trans sec.mapped.symm
  · exact sec.others id' here same

theorem getIdInfo_section (sec : Section m0 t id known known own s) :
    Tables may m0 t job (Drv.getIdInfo (id2channel id) id)
      (fun found s' => found = known ∧ Section m0 t id known known own s') s := by
  have effect : effectOf job (.chan (id2channel id) (.getIdInfo id)) = none := by cases job <;> rfl
  apply sec.act
  · intro s1 now
    refine ⟨now.good, ⟨now.held, rfl, now.known.trans now.mapped.symm⟩, ?_⟩
    rw [effect]
    exact nofun
  · intro s1 o r d2 now step _
    cases step
    rw [effect, Device.setCh_self]
    exact ⟨now.known, now⟩
  · exact fun r s1 s2 now moved => ⟨now.1, now.2.env moved⟩

theorem tableLookup_setCh {d : Device} {c : Nat} {ch : Channel} (here : id2channel id = c) :
    tableLookup (d.setCh c ch) id = lookup (ch.hash (idHash id)).first id := by
  subst here
  simp only [tableLookup, Device.setCh_ch_same]

/-- A new head of a bucket in which `id` has `info` and the other ids are as before. -/
theorem lookup_setHead {ch : Channel} {head : HashHead} {id' : BlockId} {info : Option IdInfo}
    (new : ∀ id', lookup head.first id' =
      if id' = id then info else lookup (ch.hash (idHash id)).first id') :
    lookup ((ch.setHead (idHash id) head).hash (idHash id')).first id' =
      if id' = id then info else lookup (ch.hash (idHash id')).first id' := by
  simp only [Channel.setHead]
  by_cases bucket : idHash id' = idHash id
  · rw [bucket, Function.update_self]
    exact new id'
  · rw [Function.update_of_ne bucket, if_neg]
    rintro rfl
    exact bucket rfl

/-- The section after a change of the bucket of `id` and an effect on `id`. -/
theorem Section.setHead {d : Device} {log log' : List TableEffect} {head : HashHead}
    {info mapped' : Option IdInfo} {own' : List TableEffect}
    (sec : Section m0 t id known mapped own (d, log, own))
    (good : Good m0 (d.setCh (id2channel id) ((d.ch (id2channel id)).setHead (idHash id) head)) log')
    (new : ∀ id', lookup head.first id' =
      if id' = id then info else lookup ((d.ch (id2channel id)).hash (idHash id)).first id')
    (others : ∀ id', id' ≠ id → mapOf m0 log' id' = mapOf m0 log id')
    (same : mapOf m0 log' id = mapped') :
    Section m0 t id info mapped' own'
      (d.setCh (id2channel id) ((d.ch (id2channel id)).setHead (idHash id) head), log', own') := by
  constructor
  · exact good
  · rw [Device.setCh_ch_same]
    exact sec.held
  · intro id' here apart
    rw [tableLookup_setCh here, lookup_setHead new, if_neg apart, ← here]
    exact (sec.others id' here apart).trans (others id' apart).symm
  · rw [tableLookup_setCh rfl, lookup_setHead new, if_pos rfl]
  · exact same
  · rfl

theorem delIdInfo_section (sec : Section m0 t id known known own s) :
    Tables may m0 t job (Drv.delIdInfo (id2channel id) id)
      (fun found s' => found = known ∧ (∀ info, known = some info →
        info.channel.val = id2channel id) ∧ Section m0 t id none known own s') s := by
  have effect : effectOf job (.chan (id2channel id) (.delIdInfo id)) = none := by cases job <;> rfl
  apply sec.act
  · intro s1 now
    refine ⟨now.good, ⟨now.held, rfl, now.known.trans now.mapped.symm⟩, ?_⟩
    rw [effect]
    intro e none
    cases none
  · rintro ⟨d, log, own1⟩ o r d2 now step good
    obtain rfl := now.own
    simp only [effect, Option.toList_none, List.nil_append] at good ⊢
    have placed := now.good.placed _ (id2channel_lt id)
    have looked := now.known
    obtain ⟨⟨r', ch⟩, acted, eq⟩ := Option.map_eq_some_iff.1 step
    cases eq
    simp only [Channel.perform] at acted
    simp only [tableLookup] at looked
    split at acted
    · rename_i absent
      obtain rfl := looked.symm.trans absent
      cases acted
      rw [Device.setCh_self]
      refine ⟨rfl, fun info none => ?_, now⟩
      cases none
    · rename_i info found
      obtain rfl := looked.symm.trans found
      cases acted
      have node := placed.node _ (idHash_lt id) _ (lookup_mem found)
      refine ⟨rfl, fun info' eq => ?_, now.setHead good ?_ (fun _ _ => rfl) now.mapped⟩
      · cases eq
        exact node.2.1
      · exact lookup_delete (placed.distinct _ (idHash_lt id))
  · exact fun r s1 s2 now moved => ⟨now.1, now.2.1, now.2.2.env moved⟩

/-- Linking a node: as the effect of a write, or again where it was. -/
theorem setIdInfo_section {info : IdInfo} {e : Option TableEffect}
    (channel : info.channel.val = id2channel id) (sec : Section m0 t id none mapped own s)
    (effect : effectOf job (.chan (id2channel id) (.setIdInfo id info)) = e)
    (cases : e = none ∧ mapped = some info ∨ e = some (.insert id info) ∧ mapped = none) :
    Tables may m0 t job (Drv.setIdInfo id info) (fun ret s' => ret = ssdOk ∧
      Section m0 t id (some info) (some info) (e.toList ++ own) s') s := by
  simp only [Drv.setIdInfo, channel]
  apply sec.act
  · intro s1 now
    refine ⟨now.good, ⟨now.held, rfl, channel, now.known⟩, ?_⟩
    rw [effect]
    rcases cases with ⟨rfl, -⟩ | ⟨rfl, rfl⟩
    · exact nofun
    · rintro e' ⟨⟩
      exact ⟨now.mapped, now.held⟩
  · rintro ⟨d, log, own1⟩ o r d2 now step good
    obtain rfl := now.own
    rw [effect] at good ⊢
    obtain ⟨⟨r', ch⟩, acted, eq⟩ := Option.map_eq_some_iff.1 step
    cases eq
    simp only [Channel.perform] at acted
    split at acted
    · cases acted
    cases acted
    refine ⟨rfl, now.setHead good (fun id' => lookup_insert id') ?_ ?_⟩
    all_goals
      rcases cases with ⟨rfl, rfl⟩ | ⟨rfl, rfl⟩
    · exact fun _ _ => rfl
    · exact fun id' apart => TableEffect.apply_other apart
    · exact now.mapped
    · exact Function.update_self ..
  · exact fun r s1 s2 now moved => ⟨now.1, now.2.env moved⟩

/-- Giving the blocks of an unlinked node back, as the effect of a delete. -/
theorem deleteLogicBlock_section {info info' : IdInfo}
    (effect : ∀ f, effectOf job (.chan info.channel.val (.space f)) = some (.remove id))
    (sec : Section m0 t id none (some info') own s) :
    Tables may m0 t job (Drv.deleteLogicBlock info)
      (fun _ => Section m0 t id none none (.remove id :: own)) s := by
  apply Tables.seq (M := fun _ => Section m0 t id none none (.remove id :: own))
  · apply sec.act
    · intro s1 now
      refine ⟨now.good, trivial, ?_⟩
      rw [effect]
      rintro e ⟨⟩
      exact ⟨by simp [TableEffect.Legal, now.mapped], now.held⟩
    · rintro ⟨d, log, own1⟩ o r d2 now step good
      obtain rfl := now.own
      rw [effect] at good ⊢
      have frame := untabled_frame (a := .chan _ (.space _)) trivial step
      constructor
      · exact good
      · rw [(frame _).2]
        exact now.held
      · intro id' here apart
        rw [tableLookup_congr (frame _).1]
        exact (now.others id' here apart).trans (TableEffect.apply_other apart).symm
      · rw [tableLookup_congr (frame _).1]
        exact now.known
      · exact Function.update_self ..
      · rfl
    · exact fun r s1 s2 now moved => now.env moved
  · exact fun _ s1 sec1 => sec1.quiet trivial

/-- The request holds nothing yet, or nothing any more. -/
structure Between (m0 : IdMap) (own : List TableEffect) (s : Noted) : Prop where
  good : Good m0 s.1 s.2.1
  own : s.2.2 = own

theorem Between.env (between : Between m0 own s) (moved : Unnoticed m0 t s s') : Between m0 own s' :=
  ⟨moved.good between.good, moved.own.trans between.own⟩

theorem between_pure {value : α} {post : α → List TableEffect → Prop} (between : Between m0 own s)
    (holds : post value own) : Tables may m0 t job (.pure value)
      (fun value s' => Good m0 s'.1 s'.2.1 ∧ post value s'.2.2) s := by
  intro s1 moved
  have now := between.env moved
  refine ⟨now.good, ?_⟩
  rw [now.own]
  exact holds

theorem down_section {c : Nat} (here : id2channel id = c) (between : Between m0 own s) :
    Tables may m0 t job (Drv.down c) (fun _ s' => ∃ known, Section m0 t id known known own s') s := by
  have effect : effectOf job (.down c) = none := by cases job <;> rfl
  intro s1 moved
  have now := between.env moved
  have orderly : Orderly m0 t job s1 (.down c) := by
    refine ⟨now.good, trivial, ?_⟩
    rw [effect]
    exact nofun
  refine ⟨orderly, fun o r s2 _ step => ?_⟩
  obtain ⟨d1, log, own1⟩ := s1
  obtain rfl := now.own
  obtain ⟨acted, lists⟩ := recorded_eq_some.1 step
  obtain ⟨d2, log2, own2⟩ := s2
  cases lists
  have good := orderly.keeps acted
  simp only [effect, Option.toList_none, List.nil_append] at good ⊢
  simp only [Device.perform] at acted
  split at acted
  · rename_i free
    cases acted
    intro s3 later
    subst here
    have hash : ∀ id', id2channel id' = id2channel id →
        tableLookup (d1.setCh (id2channel id) { d1.ch (id2channel id) with sema := some t }) id' =
          tableLookup d1 id' := by
      intro id' same
      rw [tableLookup_setCh same, tableLookup, same]
    refine ⟨mapOf m0 log id, Section.env ?_ later⟩
    constructor
    · exact good
    · rw [Device.setCh_ch_same]
    · intro id' same _
      exact (hash id' same).trans (now.good.agrees _ free id' same)
    · exact (hash id rfl).trans (now.good.agrees _ free id rfl)
    · rfl
    · rfl
  · cases acted

theorem up_section {c : Nat} (here : id2channel id = c) (sec : Section m0 t id known known own s) :
    Tables may m0 t job (Drv.up c) (fun _ => Between m0 own) s := by
  have effect : effectOf job (.up c) = none := by cases job <;> rfl
  apply sec.act
  · intro s1 now
    subst here
    refine ⟨now.good, ⟨now.held, now.agrees⟩, ?_⟩
    rw [effect]
    exact nofun
  · intro s1 o r d2 now step good
    rw [effect] at good ⊢
    exact ⟨good, now.own⟩
  · exact fun r s1 s2 now moved => now.env moved

/-- A request is a section under the semaphore of its channel. -/
theorem withSema_section {c : Nat} {body : Drv α} {post : α → List TableEffect → Prop}
    (here : id2channel id = c) (between : Between m0 [] s)
    (spec : ∀ known s', Section m0 t id known known [] s' → Tables may m0 t job body
      (fun value s'' => ∃ known' own', Section m0 t id known' known' own' s'' ∧ post value own') s') :
    Tables may m0 t job (Drv.withSema c body)
      (fun value s' => Good m0 s'.1 s'.2.1 ∧ post value s'.2.2) s := by
  apply Tables.seq (down_section here between)
  rintro _ s1 ⟨known, sec⟩
  apply Tables.seq (spec known s1 sec)
  rintro value s2 ⟨known', own', sec', holds⟩
  apply Tables.seq (up_section here sec')
  intro _ s3 after
  exact between_pure after holds

end Sections

/-! ## Answers -/

/-- A command on one of the tables in RAM is answered with success. -/
def tablesAnswered : May := fun d a o => ∀ c cmd, a = .chan c .await → (d.ch c).outstanding = some cmd →
  OnRamTable cmd → o.ret = .ok

def TablesAnswered (may : May) : Prop := ∀ d a o, may d a o → tablesAnswered d a o

/-- What a request that returns `value` has done to the map. -/
def Answers : TableRequest → Int × Option Mem → List TableEffect → Prop
  | .write p, value, own =>
      (value.1 = ssdOk ∧ ∃ info, own = [.insert p.id info]) ∨ (value.1 ≠ ssdOk ∧ own = [])
  | .read _, _, own => own = []
  | .delete id, value, own => (value.1 = ssdOk ∧ own = [.remove id]) ∨ (value.1 ≠ ssdOk ∧ own = [])
  | .markBad id, value, own => (value.1 = ssdOk ∧ own = [.remove id]) ∨ (value.1 ≠ ssdOk ∧ own = [])

/-- A mark-bad whose tables are not answered can have removed its id and fail. -/
def AnswersUnless (failed : Prop) (job : TableRequest) (value : Int × Option Mem) (own : List TableEffect) : Prop :=
  Answers job value own ∨ failed ∧ ∃ id, job = .markBad id ∧ own = [.remove id]

section Requests

variable {may : May} {m0 : IdMap} {t : Nat} {s : Noted} {known : Option IdInfo} {c : Nat} {α : Type}

/-- The end of a section. -/
theorem section_pure {job : TableRequest} {id : BlockId} {own : List TableEffect} {value : α}
    {post : α → List TableEffect → Prop} (sec : Section m0 t id known known own s)
    (holds : post value own) : Tables may m0 t job (.pure value) (fun value s' =>
      ∃ known' own', Section m0 t id known' known' own' s' ∧ post value own') s :=
  fun _ moved => ⟨known, own, sec.env moved, holds⟩

/-- Commands and buffer accesses in a section. -/
theorem Section.onBuffer {job : TableRequest} {id : BlockId} {mapped : Option IdInfo}
    {own : List TableEffect} {p : Drv α} (all : p.All (Act.OnBuffer (id2channel id)))
    (sec : Section m0 t id known mapped own s) :
    Tables may m0 t job p (fun _ => Section m0 t id known mapped own) s :=
  sec.quiet (all.mono fun _ => Act.OnBuffer.quiet)

/-- A command of a section; one on a table in RAM is answered with success where all are. -/
theorem channelOp_section {job : TableRequest} {id : BlockId} {mapped : Option IdInfo} {own : List TableEffect}
    (cmd : Nat) (sec : Section m0 t id known mapped own s) :
    Tables may m0 t job (channelOp (id2channel id) cmd) (fun ret s' =>
      (TablesAnswered may → OnRamTable cmd → ret = ssdOk) ∧ Section m0 t id known mapped own s') s := by
  have issue : TableQuiet job (id2channel id) (.chan (id2channel id) (.issue cmd)) :=
    Act.OnBuffer.quiet (show id2channel id = id2channel id from rfl)
  have await : TableQuiet job (id2channel id) (.chan (id2channel id) .await) :=
    Act.OnBuffer.quiet (show id2channel id = id2channel id from rfl)
  apply Tables.seq (M := fun _ s' => Section m0 t id known mapped own s' ∧
    (s'.1.ch (id2channel id)).outstanding = some cmd)
  · apply sec.act
    · exact fun s1 now => issue.orderly now.good now.held
    · rintro ⟨d, log, own1⟩ o r d2 now step _
      refine ⟨issue.keeps now step, ?_⟩
      cases step
      show ((d.setCh _ _).ch _).outstanding = _
      rw [Device.setCh_ch_same]
    · exact fun r s1 s2 now moved => ⟨now.1.env moved, (moved.issued _ now.1.held).trans now.2⟩
  · rintro _ s1 ⟨sec1, issued⟩
    rintro ⟨d, log, own1⟩ moved
    have now := sec1.env moved
    have issued : (d.ch (id2channel id)).outstanding = some cmd := (moved.issued _ sec1.held).trans issued
    refine ⟨await.orderly now.good now.held, fun o r s2 allowed step => ?_⟩
    obtain ⟨acted, lists⟩ := recorded_eq_some.1 step
    obtain ⟨d2, log2, own2⟩ := s2
    cases lists
    refine fun s3 later => ⟨fun answered table => ?_, (await.keeps now acted).env later⟩
    have ok := answered d _ o allowed _ cmd rfl issued table
    obtain ⟨⟨r', ch⟩, performed, eq⟩ := Option.map_eq_some_iff.1 acted
    cases eq
    obtain ⟨-, -, -, -, -, rfl, -⟩ := Channel.perform_await performed
    rw [ok]
    rfl

theorem stat_quiet (job : TableRequest) (c c' : Nat) (f : ChannelStat → ChannelSpace → ChannelStat) :
    (Drv.chan c' (.stat f)).All (TableQuiet job c) :=
  TableQuiet.perform ⟨trivial, by cases job <;> rfl, nofun, trivial⟩

theorem copy_quiet (job : TableRequest) (c c' : Nat) (src : Mem) (n : Nat) :
    (Drv.copyFromUser c' src n).All (TableQuiet job c) :=
  TableQuiet.perform ⟨trivial, by cases job <;> rfl, nofun, trivial⟩

/-- For a write the allocator is no part of the map. -/
theorem space_quiet (p : WriteParam) (c c' : Nat) (f : ChannelSpace → Option (Int × ChannelSpace)) :
    (Drv.chan c' (.space f)).All (TableQuiet (.write p) c) := TableQuiet.perform ⟨trivial, rfl, nofun, trivial⟩

theorem ssdIdWriteBody_section (type : BlockType) (p : WriteParam)
    (sec : Section m0 t p.id known known [] s) :
    Tables may m0 t (.write p) (ssdIdWriteBody (id2channel p.id) type p) (fun ret s' =>
      ∃ known' own, Section m0 t p.id known' known' own s' ∧ Answers (.write p) (ret, none) own) s := by
  apply Tables.seq (getIdInfo_section sec)
  rintro _ s1 ⟨rfl, sec1⟩
  split
  · exact section_pure sec1 (.inr ⟨by decide, rfl⟩)
  rename_i absent
  obtain rfl := Option.not_isSome_iff_eq_none.1 absent
  have giveBack : ∀ info, (Drv.deleteLogicBlock info).All (TableQuiet (.write p) (id2channel p.id)) :=
    fun info => (space_quiet ..).bind fun _ => trivial
  apply Tables.seq (sec1.quiet (space_quiet ..))
  intro index s2 sec2
  split
  · exact section_pure sec2 (.inr ⟨by decide, rfl⟩)
  have channel : (IdInfo.at (id2channel p.id) index.toNat type).channel.val = id2channel p.id :=
    IdInfo.at_channel (id2channel_lt p.id) ..
  dsimp only
  apply Tables.seq (sec2.quiet (stat_quiet ..))
  intro _ s3 sec3
  apply Tables.seq (sec3.quiet (stat_quiet ..))
  intro _ s4 sec4
  apply Tables.seq (sec4.quiet (copy_quiet ..))
  intro failed s5 sec5
  split
  · apply Tables.seq (sec5.quiet (giveBack _))
    exact fun _ s6 sec6 => section_pure sec6 (.inr ⟨by decide, rfl⟩)
  apply Tables.seq (sec5.onBuffer (writeRetry_onBuffer ..))
  intro ret s6 sec6
  split
  · rename_i notOk
    apply Tables.seq (sec6.quiet (giveBack _))
    exact fun _ s7 sec7 => section_pure sec7 (.inr ⟨notOk, rfl⟩)
  apply Tables.seq (setIdInfo_section channel sec6 rfl (.inr ⟨rfl, rfl⟩))
  rintro _ s7 ⟨rfl, sec7⟩
  rw [if_neg (by decide)]
  exact section_pure sec7 (.inl ⟨rfl, _, rfl⟩)

theorem ssdIdReadBody_section (p : ReadParam) (sec : Section m0 t p.id known known [] s) :
    Tables may m0 t (.read p) (ssdIdReadBody (id2channel p.id) p) (fun value s' =>
      ∃ known' own, Section m0 t p.id known' known' own s' ∧ Answers (.read p) value own) s := by
  apply Tables.seq (getIdInfo_section sec)
  rintro _ s1 ⟨rfl, sec1⟩
  split
  · exact section_pure sec1 rfl
  dsimp only
  split
  · exact section_pure sec1 rfl
  apply Tables.seq (sec1.quiet (stat_quiet ..))
  intro _ s2 sec2
  apply Tables.seq (sec2.onBuffer (channelOp_onBuffer ..))
  intro ret s3 sec3
  split
  · exact section_pure sec3 rfl
  have copy : (Drv.copyToUser (id2channel p.id) (p.len * ssdPageSize % 2 ^ 32)).All
      (TableQuiet (.read p) (id2channel p.id)) :=
    TableQuiet.perform ⟨trivial, rfl, nofun, trivial⟩
  apply Tables.seq (sec3.quiet copy)
  intro bytes s4 sec4
  cases bytes <;> exact section_pure sec4 rfl

theorem ssdIdDeleteBody_section (id : BlockId) (sec : Section m0 t id known known [] s) :
    Tables may m0 t (.delete id) (ssdIdDeleteBody (id2channel id) id) (fun ret s' =>
      ∃ known' own, Section m0 t id known' known' own s' ∧ Answers (.delete id) (ret, none) own)
      s := by
  apply Tables.seq (delIdInfo_section sec)
  rintro found s1 ⟨rfl, channel, sec1⟩
  cases found with
  | none => exact section_pure sec1 (.inr ⟨by decide, rfl⟩)
  | some info =>
      have channel := channel info rfl
      dsimp only
      split
      · rename_i notOk
        apply Tables.seq (setIdInfo_section channel sec1 rfl (.inl ⟨rfl, rfl⟩))
        exact fun _ s2 inserted => section_pure inserted.2 (.inr ⟨notOk, rfl⟩)
      apply Tables.seq (sec1.quiet (stat_quiet ..))
      intro _ s2 sec2
      apply Tables.seq (sec2.onBuffer (channelOp_onBuffer ..))
      intro ret s3 sec3
      split
      · rename_i notOk
        apply Tables.seq (setIdInfo_section channel sec3 rfl (.inl ⟨rfl, rfl⟩))
        exact fun _ s4 inserted => section_pure inserted.2 (.inr ⟨notOk, rfl⟩)
      rename_i ok
      apply Tables.seq (deleteLogicBlock_section (fun _ => rfl) sec3)
      intro _ s4 sec4
      apply Tables.seq (sec4.quiet (stat_quiet ..))
      exact fun _ s5 sec5 => section_pure sec5 (.inl ⟨not_not.1 ok, rfl⟩)

/-- The tables of a mark-bad that is past its erase. -/
theorem markBadTables_section {job : TableRequest} {id : BlockId} {mapped : Option IdInfo} {own : List TableEffect}
    (block : Nat) (blocks : List Nat) (sec : Section m0 t id known mapped own s) :
    Tables may m0 t job (markBadTables (id2channel id) block blocks) (fun ret s' =>
      (TablesAnswered may → ret = ssdOk) ∧ Section m0 t id known mapped own s') s := by
  have readAddr : OnRamTable (cmdValue 0 addrTablePages flagReadAddrTable) := by decide
  have readErase : OnRamTable (cmdValue 0 addrTablePages flagReadEraseTable) := by decide
  have writeErase : OnRamTable (cmdValue 0 addrTablePages flagWriteEraseTable) := by decide
  have read : (Drv.readKbuf (id2channel id)).All (Act.OnBuffer (id2channel id)) := ⟨rfl, fun _ => trivial⟩
  have marks : ∀ f, (Drv.modKbuf (id2channel id) f).All (Act.OnBuffer (id2channel id)) :=
    fun _ => ⟨rfl, fun _ => trivial⟩
  apply Tables.seq (channelOp_section _ sec)
  rintro ret s1 ⟨answer, sec1⟩
  split
  · rename_i failed
    exact fun s2 moved => ⟨fun answered => absurd (answer answered readAddr) failed, sec1.env moved⟩
  apply Tables.seq (sec1.onBuffer read)
  intro addr s2 sec2
  dsimp only
  apply Tables.seq (channelOp_section _ sec2)
  rintro ret s3 ⟨answer, sec3⟩
  split
  · rename_i failed
    exact fun s4 moved => ⟨fun answered => absurd (answer answered readErase) failed, sec3.env moved⟩
  apply Tables.seq (sec3.onBuffer (marks _))
  intro _ s4 sec4
  exact Safe.weaken (channelOp_section _ sec4) fun ret s5 last => ⟨fun answered => last.1 answered writeErase, last.2⟩

theorem markBadId_section (id : BlockId) (sec : Section m0 t id known known [] s) :
    Tables may m0 t (.markBad id) (markBadId (id2channel id) id) (fun ret s' =>
      ∃ known' own, Section m0 t id known' known' own s' ∧
        AnswersUnless (¬ TablesAnswered may) (.markBad id) (ret, none) own) s := by
  apply Tables.seq (getIdInfo_section sec)
  rintro found s1 ⟨rfl, sec1⟩
  cases found with
  | none => exact section_pure sec1 (.inl (.inr ⟨by decide, rfl⟩))
  | some info =>
      have kmalloc : (Program.perform Act.kmalloc : Drv Bool).All (TableQuiet (.markBad id) (id2channel id)) :=
        TableQuiet.perform ⟨trivial, rfl, nofun, trivial⟩
      dsimp only
      apply Tables.seq (sec1.quiet kmalloc)
      intro null s2 sec2
      split
      · exact section_pure sec2 (.inl (.inr ⟨by decide, rfl⟩))
      split
      · exact section_pure sec2 (.inl (.inr ⟨by decide, rfl⟩))
      apply Tables.seq (sec2.onBuffer (findBadBlocks_onBuffer ..))
      intro blocks s3 sec3
      split
      · exact section_pure sec3 (.inl (.inr ⟨by decide, rfl⟩))
      apply Tables.seq (delIdInfo_section sec3)
      rintro _ s4 ⟨rfl, channel, sec4⟩
      have channel := channel info rfl
      apply Tables.seq (sec4.onBuffer (channelOp_onBuffer ..))
      intro ret s5 sec5
      split
      · rename_i notOk
        apply Tables.seq (setIdInfo_section channel sec5 rfl (.inl ⟨rfl, rfl⟩))
        exact fun _ s6 inserted => section_pure inserted.2 (.inl (.inr ⟨notOk, rfl⟩))
      apply Tables.seq (deleteLogicBlock_section (fun _ => rfl) sec5)
      intro _ s6 sec6
      refine Safe.weaken (markBadTables_section _ _ sec6) fun ret s7 last => ⟨_, _, last.2, ?_⟩
      by_cases answered : TablesAnswered may
      · exact .inl (.inl ⟨last.1 answered, rfl⟩)
      · exact .inr ⟨answered, id, rfl, rfl⟩

/-- What holds when a request has returned. -/
def Returned (may : May) (m0 : IdMap) (job : TableRequest) (value : Int × Option Mem) (s : Noted) : Prop :=
  Good m0 s.1 s.2.1 ∧ AnswersUnless (¬ TablesAnswered may) job value s.2.2

theorem noData_returned {job : TableRequest} {p : Drv Int}
    (spec : Tables may m0 t job p (fun ret s' => Good m0 s'.1 s'.2.1 ∧
      AnswersUnless (¬ TablesAnswered may) job (ret, none) s'.2.2) s) :
    Tables may m0 t job (noData p) (Returned may m0 job) s := by
  apply Tables.seq spec
  rintro ret s1 ⟨good, holds⟩
  exact between_pure ⟨good, rfl⟩ holds

/-- Every request of a thread that holds nothing answers for what it does. -/
theorem request_returned (job : TableRequest) (between : Between m0 [] s) :
    Tables may m0 t job job.run (Returned may m0 job) s := by
  cases job with
  | write p =>
      apply noData_returned
      refine Safe.weaken (?_ : Tables may m0 t (.write p) (ssdIdWrite p) (fun ret s' => Good m0 s'.1 s'.2.1 ∧
        Answers (.write p) (ret, none) s'.2.2) s) fun _ _ done => ⟨done.1, .inl done.2⟩
      simp only [ssdIdWrite]
      split
      · exact withSema_section rfl between fun _ _ => ssdIdWriteBody_section .iblock p
      split
      · exact withSema_section rfl between fun _ _ => ssdIdWriteBody_section .dblock p
      · exact between_pure between (.inr ⟨by decide, rfl⟩)
  | read p =>
      exact Safe.weaken (withSema_section rfl between fun _ _ => ssdIdReadBody_section p)
        fun _ _ done => ⟨done.1, .inl done.2⟩
  | delete id =>
      apply noData_returned
      exact Safe.weaken (withSema_section rfl between fun _ _ => ssdIdDeleteBody_section id)
        fun _ _ done => ⟨done.1, .inl done.2⟩
  | markBad id =>
      apply noData_returned
      exact withSema_section rfl between fun _ _ => markBadId_section id

end Requests

/-! ## Traces -/

/-- Clients of the id table. -/
abbrev TableSystem := Pool Act Act.Reply TableRequest (Int × Option Mem) Device

abbrev TableEvent := Event Act TableRequest (Int × Option Mem)

abbrev TableTrace (may : May) := Pool.Trace Device.perform (fun _ : TableRequest => may) TableRequest.run

/-- A well placed table with every semaphore free, and every client about to begin. -/
structure TableAtRest (p : TableSystem) : Prop where
  placed : TablePlaced p.state
  sema : ∀ c, (p.state.ch c).sema = none
  begins : ∀ t, p.prog t = (p.job t).run

/-- The map after the events, the newest first. -/
abbrev mapAt (m0 : IdMap) (es : List TableEvent) : IdMap := mapOf m0 (logOf effectOf es)

section Traces

variable {may : May} {m0 : IdMap} {p q : TableSystem} {es : List TableEvent} {id : BlockId}

theorem tables_separate (may : May) (m0 : IdMap) :
    Pool.Separate Device.perform effectOf (tableContract may m0) :=
  fun other orderly _ step => Orderly.separate orderly other step

theorem tables_ready (may : May) (m0 : IdMap) : Pool.Ready Device.perform effectOf (tableContract may m0)
    (fun _ => Returned may m0) TableRequest.run :=
  fun job returned => request_returned job ⟨returned.1, rfl⟩

/-- Every thread is safe in every trace. -/
theorem tables_logged (rest : TableAtRest p) (trace : TableTrace may p es q) :
    q.Logged Device.perform effectOf (tableContract may (tableLookup p.state))
      (fun _ => Returned may (tableLookup p.state)) es := by
  refine trace.logged (tableContract_steady _ _) (tables_separate _ _) (fun _ _ _ _ _ _ allowed => allowed)
    (tables_ready _ _) fun t => ?_
  rw [rest.begins]
  apply request_returned
  constructor
  · exact ⟨rest.placed, trivial, fun c _ id _ => rfl⟩
  · rfl

theorem tables_good (rest : TableAtRest p) (trace : TableTrace may p es q) :
    Good (tableLookup p.state) q.state (logOf effectOf es) := by
  have logged := tables_logged rest trace
  cases here : q.prog 0 with
  | pure value => exact (logged.returned (tableContract_steady _ _) here).1
  | act a next => exact (logged.must (tableContract_steady _ _) here).good

/-- The ids of a well placed channel are distinct. -/
theorem ChannelPlaced.nodup {c : Nat} {hash : Nat → HashHead} (placed : ChannelPlaced c hash) :
    (((List.range ssdHashSize).flatMap fun b => (hash b).first).map HashNode.id).Nodup := by
  rw [List.map_flatMap, List.nodup_flatMap]
  constructor
  · exact fun b below => placed.distinct b (List.mem_range.1 below)
  · refine List.nodup_range.imp_of_mem fun {b b'} below below' apart => ?_
    simp only [Function.onFun, List.disjoint_left, List.mem_map, not_exists, not_and]
    rintro _ ⟨node, member, rfl⟩ node' member' same
    have first := (placed.node b (List.mem_range.1 below) node member).2.2
    have second := (placed.node b' (List.mem_range.1 below') node' member').2.2
    rw [same] at second
    exact apart (first.symm.trans second)

/-- The ids of a well placed table are distinct. -/
theorem TablePlaced.nodup {d : Device} (placed : TablePlaced d) :
    ((tableNodes d).map HashNode.id).Nodup := by
  have bucket : ∀ {c b node}, c < ssdMaxChannel → b < ssdHashSize →
      node ∈ ((d.ch c).hash b).first → id2channel node.id = c ∧ idHash node.id = b := by
    intro c b node inside below member
    obtain ⟨channel, -, hash⟩ := (placed c inside).node b below node member
    exact ⟨channel, hash⟩
  simp only [tableNodes, Channel.nodes, List.map_flatMap]
  rw [List.nodup_flatMap]
  constructor
  · intro c inside
    rw [← List.map_flatMap]
    exact (placed c (List.mem_range.1 inside)).nodup
  · refine List.nodup_range.imp_of_mem fun {c c'} inside inside' apart => ?_
    simp only [Function.onFun, List.disjoint_left, List.mem_flatMap, List.mem_map, not_exists,
      not_and]
    rintro _ ⟨b, below, node, member, rfl⟩ b' below' node' member' same
    have first := bucket (List.mem_range.1 inside) (List.mem_range.1 below) member
    have second := bucket (List.mem_range.1 inside') (List.mem_range.1 below') member'
    rw [same] at second
    exact apart (first.1.symm.trans second.1)

/-! ## Two writes of one id -/

theorem LegalLog.suffix {log : List TableEffect} (later : List TableEffect)
    (legal : LegalLog m0 (later ++ log)) : LegalLog m0 log := by
  induction later with
  | nil => exact legal
  | cons e later ih => exact ih legal.2

theorem logOf_append (later : List TableEvent) :
    logOf effectOf (later ++ es) = logOf effectOf later ++ logOf effectOf es := by
  induction later with
  | nil => rfl
  | cons event later ih =>
      cases event with
      | act => simp only [List.cons_append, logOf, ih, List.append_assoc]
      | turn => exact ih

/-- Only a removal makes a present id absent. -/
theorem event_removes {event : TableEvent} {info : IdInfo} (present : mapAt m0 es id = some info)
    (absent : mapAt m0 (event :: es) id = none) : ∃ t, event.Has effectOf t (.remove id) := by
  cases event with
  | turn => exact absurd (present.symm.trans absent) nofun
  | act t job a =>
      refine ⟨t, rfl, ?_⟩
      simp only [mapAt, logOf] at absent
      cases effect : effectOf job a with
      | none =>
          rw [effect] at absent
          exact absurd (present.symm.trans absent) nofun
      | some e =>
          rw [effect] at absent
          have here : id = e.id := by
            by_contra apart
            exact absurd (present.symm.trans ((TableEffect.apply_other apart).symm.trans absent)) nofun
          cases e with
          | insert id' info' =>
              obtain rfl : id = id' := here
              exact absurd ((Function.update_self ..).symm.trans absent) nofun
          | remove id' =>
              obtain rfl : id = id' := here
              rfl

/-- An id that is present once and absent later has been removed in between. -/
theorem removed_between {j k : Nat} {info : IdInfo} (order : j ≤ k)
    (present : mapAt m0 (es.drop k) id = some info) (absent : mapAt m0 (es.drop j) id = none) :
    ∃ i event t, j ≤ i ∧ i < k ∧ es[i]? = some event ∧ event.Has effectOf t (.remove id) := by
  induction k, order using Nat.le_induction generalizing info with
  | base => exact absurd (present.symm.trans absent) nofun
  | succ k order ih =>
      cases now : mapAt m0 (es.drop k) id with
      | some info' =>
          obtain ⟨i, event, t, from_j, below, found⟩ := ih now
          exact ⟨i, event, t, from_j, by omega, found⟩
      | none =>
          by_cases inside : k < es.length
          · rw [List.drop_eq_getElem_cons inside] at now
            obtain ⟨t, removes⟩ := event_removes present now
            exact ⟨k, _, t, order, by omega, List.getElem?_eq_getElem inside, removes⟩
          · rw [List.drop_eq_nil_of_le (by omega)] at present now
            exact absurd (present.symm.trans now) nofun

theorem logOf_insert {k t : Nat} {event : TableEvent} {info : IdInfo} (found : es[k]? = some event)
    (inserts : event.Has effectOf t (.insert id info)) :
    logOf effectOf (es.drop k) = .insert id info :: logOf effectOf (es.drop (k + 1)) := by
  obtain ⟨inside, here⟩ := List.getElem?_eq_some_iff.1 found
  rw [List.drop_eq_getElem_cons inside, here]
  cases event with
  | turn => cases inserts
  | act tid job a => simp [logOf, inserts.2]

/-- Between two inserts of an id it is removed. -/
theorem inserted_twice {k k' t t' : Nat} {event event' : TableEvent} {info info' : IdInfo}
    (legal : LegalLog m0 (logOf effectOf es)) (order : k < k')
    (found : es[k]? = some event) (inserts : event.Has effectOf t (.insert id info))
    (found' : es[k']? = some event') (inserts' : event'.Has effectOf t' (.insert id info')) :
    ∃ i event t, k < i ∧ i < k' ∧ es[i]? = some event ∧ event.Has effectOf t (.remove id) := by
  have present : mapAt m0 (es.drop k') id = some info' := by
    rw [mapAt, logOf_insert found' inserts']
    exact Function.update_self ..
  have suffix : LegalLog m0 (logOf effectOf (es.drop k)) := by
    apply LegalLog.suffix (logOf effectOf (es.take k))
    rwa [← logOf_append, List.take_append_drop]
  rw [logOf_insert found inserts] at suffix
  exact removed_between order present suffix.1

/-- A write that returned `SSD_OK` has inserted its id while it ran. -/
theorem write_inserts {t b r : Nat} {w : WriteParam} {value : Int × Option Mem}
    (rest : TableAtRest p) (trace : TableTrace may p es q) (call : Call es t (.write w) value b r)
    (ok : value.1 = ssdOk) : ∃ k event info, r < k ∧ k < b ∧ es[k]? = some event ∧
      event.Has effectOf t (.insert w.id info) := by
  obtain ⟨later, next, es', rfl, rfl⟩ := call.split
  obtain ⟨q', before, here, job⟩ := trace.at_turn
  have answers := ((tables_logged rest before).returned (tableContract_steady _ _) here).2
  rw [job] at answers
  rcases answers with (⟨-, info, own⟩ | ⟨notOk, -⟩) | ⟨-, id, other, -⟩
  · have effects : ownOf effectOf t es' = [.insert w.id info] := own
    have member : .insert w.id info ∈ ownOf effectOf t es' := by
      rw [effects]
      exact List.mem_singleton_self _
    obtain ⟨k, event, found, has, after, within⟩ := call.effect_index member
    exact ⟨k, event, info, after, within, found, has⟩
  · exact absurd ok notOk
  · cases other

end Traces

/-! ## A mark-bad that fails -/

def oneRequest (job : TableRequest) : TableSystem := ⟨oneId, fun _ => job, fun _ => job.run⟩

theorem oneRequest_atRest (job : TableRequest) : TableAtRest (oneRequest job) := by
  have empty : ∀ c, ChannelPlaced c emptyChannel.hash :=
    fun c => ⟨fun _ _ _ member => absurd member List.not_mem_nil, fun _ _ => .nil, fun _ _ => rfl⟩
  constructor
  · have placed : TablePlaced emptyDevice := fun c _ => empty c
    have absent : lookup (emptyChannel.hash (idHash ⟨0, 0⟩)).first ⟨0, 0⟩ = none := rfl
    exact placed.setCh fun _ => (empty 0).insert rfl rfl absent
  · intro c
    show ((emptyDevice.setCh 0 oneIdChannel).ch c).sema = none
    by_cases first : c = 0
    · subst first
      rw [Device.setCh_ch_same]
      rfl
    · rw [Device.setCh_ch_other _ _ first]
      rfl
  · exact fun _ => rfl

/-- The mark-bad of an id whose block cannot be read, up to its tables. -/
theorem markBad_leads_tables {may : May} {P : Drv (Int × Option Mem) → Device → Prop}
    (succeed : ∀ d a, may d a succeeds)
    (timeOut : ∀ d c cmd, (d.ch c).outstanding = some cmd → ¬ OnRamTable cmd → may d (.chan c .await) timesOut)
    (d : Device) {ch : Channel} (free : ch.sema = none)
    (found : lookup (ch.hash 0).first ⟨0, 0⟩ = some (IdInfo.at 0 0 .iblock))
    (tables : ∀ ch', ch'.sema = some 0 → ch'.hash = Function.update ch.hash 0 ((ch.hash 0).delete ⟨0, 0⟩) →
      Leads (Device.perform 0) may P (noData (do
        let ret ← markBadTables 0 0 [badBlock]
        Drv.up 0
        pure ret)) (d.setCh 0 ch')) :
    Leads (Device.perform 0) may P (TableRequest.markBad ⟨0, 0⟩).run (d.setCh 0 ch) := by
  obtain ⟨sema, out, kbuf, flash, hash, space, stat⟩ := ch
  obtain rfl : sema = none := free
  have looked : ∀ {out kbuf flash}, Channel.perform (.getIdInfo ⟨0, 0⟩) succeeds
      ⟨some 0, out, kbuf, flash, hash, space, stat⟩ =
        some (some (IdInfo.at 0 0 .iblock), ⟨some 0, out, kbuf, flash, hash, space, stat⟩) :=
    congrArg (fun info => some (info, _)) found
  have unlinked : ∀ {out kbuf flash}, Channel.perform (.delIdInfo ⟨0, 0⟩) succeeds
      ⟨some 0, out, kbuf, flash, hash, space, stat⟩ = some (some (IdInfo.at 0 0 .iblock),
        ⟨some 0, out, kbuf, flash, Function.update hash 0 ((hash 0).delete ⟨0, 0⟩), space, stat⟩) := by
    intro out kbuf flash
    simp only [Channel.perform, show idHash ⟨0, 0⟩ = 0 from rfl, found, Channel.setHead]
  generalize Function.update hash 0 ((hash 0).delete ⟨0, 0⟩) = hash' at *
  refine device_leads_down succeeds (fun _ => succeed ..) rfl ?_
  refine device_leads_chan succeeds (fun _ => succeed ..) looked ?_
  refine Leads.act succeeds (succeed ..) (r := false) rfl ?_
  refine device_leads_chan (k := ⟨some 0, some _, _, _, _, _, _⟩) succeeds (fun _ => succeed ..) rfl ?_
  have read : ¬ OnRamTable (cmdValue ((0 + 0) * ssdPagesPerBlock) ssdPagesPerBlock flagRead) := by decide
  refine device_leads_chan_at (k := ⟨some 0, none, _, _, hash, space, stat⟩) timesOut (timeOut _ 0 _ ?_ read) rfl ?_
  · exact congrArg Channel.outstanding (Device.setCh_ch_same _ 0 _)
  refine device_leads_chan succeeds (fun _ => succeed ..) unlinked ?_
  refine device_leads_chan (k := ⟨some 0, some _, _, _, _, _, _⟩) succeeds (fun _ => succeed ..) rfl ?_
  refine device_leads_chan (k := ⟨some 0, none, _, _, hash', space, stat⟩) succeeds (fun _ => succeed ..) rfl ?_
  refine device_leads_chan (k := ⟨some 0, _, _, _, _, _, _⟩) succeeds (fun _ => succeed ..) rfl ?_
  exact tables ⟨some 0, _, _, _, hash', _, stat⟩ rfl rfl

/-- The poll for the address table runs out. -/
theorem markBad_leads (d : Device) {ch : Channel} (free : ch.sema = none)
    (found : lookup (ch.hash 0).first ⟨0, 0⟩ = some (IdInfo.at 0 0 .iblock)) :
    Leads (Device.perform 0) (fun _ _ _ => True)
      (fun rest d' => rest = .pure (-49, none) ∧ ∃ ch', d' = d.setCh 0 ch' ∧
        ch'.sema = none ∧ ch'.hash = Function.update ch.hash 0 ((ch.hash 0).delete ⟨0, 0⟩))
      (TableRequest.markBad ⟨0, 0⟩).run (d.setCh 0 ch) := by
  refine markBad_leads_tables (fun _ _ => trivial) (fun _ _ _ _ _ => trivial) d free found ?_
  rintro ⟨sema, out, kbuf, flash, hash, space, stat⟩ held rfl
  refine device_leads_chan (k := ⟨sema, some _, _, _, _, _, _⟩) succeeds (fun _ => trivial) rfl ?_
  refine device_leads_chan (k := ⟨sema, none, _, _, _, _, _⟩) ramTimesOut (fun _ => trivial) rfl ?_
  exact device_leads_up succeeds (fun _ => trivial) (Leads.here ⟨rfl, _, rfl, rfl, rfl⟩)

/-- The tables are answered. -/
theorem markBad_leads_answered (d : Device) {ch : Channel} (free : ch.sema = none)
    (found : lookup (ch.hash 0).first ⟨0, 0⟩ = some (IdInfo.at 0 0 .iblock)) :
    Leads (Device.perform 0) tablesAnswered (fun rest _ => rest = .pure (ssdOk, none))
      (TableRequest.markBad ⟨0, 0⟩).run (d.setCh 0 ch) := by
  have succeed : ∀ d a, tablesAnswered d a succeeds := fun _ _ _ _ _ _ _ => rfl
  refine markBad_leads_tables succeed (fun d c cmd issued other c' cmd' same out table => ?_) d free found ?_
  · cases same
    rw [issued] at out
    cases out
    exact absurd table other
  rintro ⟨sema, out, kbuf, flash, hash, space, stat⟩ held rfl
  refine device_leads_chan (k := ⟨sema, some _, _, _, _, _, _⟩) succeeds (fun _ => succeed _ _) rfl ?_
  refine device_leads_chan (k := ⟨sema, none, _, _, _, _, _⟩) succeeds (fun _ => succeed _ _) rfl ?_
  refine device_leads_chan succeeds (fun _ => succeed _ _) rfl ?_
  refine device_leads_chan (k := ⟨sema, some _, _, _, _, _, _⟩) succeeds (fun _ => succeed _ _) rfl ?_
  refine device_leads_chan (k := ⟨sema, none, _, _, _, _, _⟩) succeeds (fun _ => succeed _ _) rfl ?_
  refine device_leads_chan succeeds (fun _ => succeed _ _) rfl ?_
  refine device_leads_chan (k := ⟨sema, some _, _, _, _, _, _⟩) succeeds (fun _ => succeed _ _) rfl ?_
  refine device_leads_chan (k := ⟨sema, none, _, _, _, _, _⟩) succeeds (fun _ => succeed _ _) rfl ?_
  exact device_leads_up succeeds (fun _ => succeed _ _) (Leads.here rfl)

/-- A trace of the request of one thread alone. -/
theorem oneRequest_trace {may : May} {job : TableRequest} {P : Drv (Int × Option Mem) → Device → Prop}
    (leads : Leads (Device.perform 0) may P job.run oneId) :
    ∃ es q, TableTrace may (oneRequest job) es q ∧ (∀ e ∈ es, ∃ a, e = .act 0 job a) ∧ q.job 0 = job ∧
      P (q.prog 0) q.state := by
  obtain ⟨rest, d, cut, holds⟩ := leads
  have start : TableTrace may (oneRequest job) [] (oneRequest job) := .nil
  obtain ⟨es, only, trace⟩ := start.trace_of_reaches cut
  rw [List.append_nil] at trace
  refine ⟨es, _, trace, only, rfl, ?_⟩
  show P (Function.update (oneRequest job).prog 0 rest 0) d
  rwa [Function.update_self]

/-! ## The table as a map -/

/-- What a trace shows of the table, whatever is answered; `m0` is the map at its start. -/
structure TableRefines (m0 : IdMap) (es : List TableEvent) (q : TableSystem) : Prop where
  /-- Every node is in the channel and the bucket of its id, every count is a length. -/
  placed : TablePlaced q.state
  /-- No id is in two nodes. -/
  distinct : ((tableNodes q.state).map HashNode.id).Nodup
  /-- The effects are those of a map, one after the other. -/
  legal : LegalLog m0 (logOf effectOf es)
  /-- Where no request is at work the table is the map, -/
  free : ∀ c, (q.state.ch c).sema = none → Agrees c q.state (mapAt m0 es)
  /-- and every lookup of a request finds what the map says. -/
  lookups : ∀ {t c id a rest}, q.prog t = .act (.chan c a) rest →
    a = .getIdInfo id ∨ a = .delIdInfo id →
      id2channel id = c ∧ tableLookup q.state id = mapAt m0 es id
  /-- Two writes of one id return `SSD_OK` only when the id is removed meanwhile. -/
  writes : ∀ {t t' b b' r r' w w' value value'}, Call es t (.write w) value b r →
    Call es t' (.write w') value' b' r' → w.id = w'.id → (t, r) ≠ (t', r') →
      value.1 = ssdOk → value'.1 = ssdOk → ∃ k event u, min r r' < k ∧ k < max b b' ∧
        es[k]? = some event ∧ event.Has effectOf u (.remove w.id)

/-- The table is the map of the successful operations. -/
structure TableIsMap (m0 : IdMap) (es : List TableEvent) (q : TableSystem) : Prop
    extends TableRefines m0 es q where
  /-- A request that returns has had its one effect if it answers `SSD_OK`, and none if not. -/
  answers : ∀ {t value}, q.prog t = .pure value → Answers (q.job t) value (ownOf effectOf t es)

section Main

variable {may : May} {p q : TableSystem} {es : List TableEvent}

theorem writes_removed (rest : TableAtRest p) (trace : TableTrace may p es q)
    {t t' b b' r r' : Nat} {w w' : WriteParam} {value value' : Int × Option Mem}
    (call : Call es t (.write w) value b r) (call' : Call es t' (.write w') value' b' r')
    (same : w.id = w'.id) (apart : (t, r) ≠ (t', r')) (ok : value.1 = ssdOk)
    (ok' : value'.1 = ssdOk) : ∃ k event u, min r r' < k ∧ k < max b b' ∧
      es[k]? = some event ∧ event.Has effectOf u (.remove w.id) := by
  have legal := (tables_good rest trace).legal
  obtain ⟨k, event, info, lo, hi, found, inserts⟩ := write_inserts rest trace call ok
  obtain ⟨k', event', info', lo', hi', found', inserts'⟩ := write_inserts rest trace call' ok'
  rw [← same] at inserts'
  rcases Nat.lt_trichotomy k k' with less | equal | more
  · obtain ⟨i, removal, u, after, before, at_i, removes⟩ :=
      inserted_twice legal less found inserts found' inserts'
    exact ⟨i, removal, u, by omega, by omega, at_i, removes⟩
  · subst equal
    rw [found] at found'
    cases found'
    cases event with
    | turn => cases inserts
    | act tid job a =>
        obtain rfl := inserts.1.symm.trans inserts'.1
        exact absurd (congrArg _ (call.same call' ⟨lo, hi⟩ ⟨lo', hi'⟩)) apart
  · obtain ⟨i, removal, u, after, before, at_i, removes⟩ :=
      inserted_twice legal more found' inserts' found inserts
    exact ⟨i, removal, u, by omega, by omega, at_i, removes⟩

/-- **The table refines a map**, for any number of clients, any interleaving of their requests
and any outcomes. -/
theorem table_refines_map (rest : TableAtRest p) (trace : TableTrace may p es q) :
    TableRefines (tableLookup p.state) es q := by
  have good := tables_good rest trace
  have logged := tables_logged rest trace
  constructor
  · exact good.placed
  · exact good.placed.nodup
  · exact good.legal
  · exact good.agrees
  · intro t c id a next here isLookup
    have act := (logged.must (tableContract_steady _ _) here).act
    rcases isLookup with rfl | rfl
    · exact act.2
    · exact act.2
  · exact writes_removed rest trace

/-- **The id table is the map of the successful operations**, for any number of clients and any
interleaving of their writes, reads, deletes and mark-bads, where the commands on the tables in
RAM are answered with success. -/
theorem table_is_a_map (rest : TableAtRest p) (trace : TableTrace tablesAnswered p es q) :
    TableIsMap (tableLookup p.state) es q := by
  refine ⟨table_refines_map rest trace, fun {t value} here => ?_⟩
  rcases ((tables_logged rest trace).returned (tableContract_steady _ _) here).2 with answers | ⟨failed, -⟩
  · exact answers
  · exact absurd (fun _ _ _ => id) failed

/-- The trace of a mark-bad that succeeds, on a card with one id. -/
theorem table_is_a_map_markBad : ∃ es q, TableTrace tablesAnswered (oneRequest (.markBad ⟨0, 0⟩)) es q ∧
    q.prog 0 = .pure (ssdOk, none) ∧ ownOf effectOf 0 es = [.remove ⟨0, 0⟩] ∧
      TableIsMap (tableLookup oneId) es q := by
  obtain ⟨es, q, trace, -, job, finished⟩ :=
    oneRequest_trace (markBad_leads_answered emptyDevice (show oneIdChannel.sema = none from rfl) rfl)
  have map := table_is_a_map (oneRequest_atRest _) trace
  have answers := map.answers finished
  rw [job] at answers
  rcases answers with ⟨-, own⟩ | ⟨failed, -⟩
  · exact ⟨es, q, trace, finished, own, map⟩
  · exact absurd rfl failed

/-- **A mark-bad that fails may have removed its id**: the only request of the trace
returns an error, and its id is no longer found. -/
theorem markBad_fails_and_removes : ∃ es q,
    TableAtRest (oneRequest (.markBad ⟨0, 0⟩)) ∧
      TableTrace anyOutcome (oneRequest (.markBad ⟨0, 0⟩)) es q ∧
      (∀ e ∈ es, ∃ a, e = .act 0 (.markBad ⟨0, 0⟩) a) ∧
      q.prog 0 = .pure (-49, none) ∧ (∀ c, (q.state.ch c).sema = none) ∧
      (tableLookup oneId ⟨0, 0⟩).isSome = true ∧ tableLookup q.state ⟨0, 0⟩ = none := by
  obtain ⟨es, q, trace, only, -, finished, ch, state, free, hash⟩ :=
    oneRequest_trace (markBad_leads emptyDevice (show oneIdChannel.sema = none from rfl) rfl)
  refine ⟨es, q, oneRequest_atRest _, trace, only, finished, fun c => ?_, rfl, ?_⟩
  · rw [state]
    by_cases first : c = 0
    · subst first
      rwa [Device.setCh_ch_same]
    · rw [Device.setCh_ch_other _ _ first]
      rfl
  · have here : id2channel ⟨0, 0⟩ = 0 := rfl
    rw [state, tableLookup_setCh here, hash]
    rfl

end Main

end FpgaSsd.Theory
