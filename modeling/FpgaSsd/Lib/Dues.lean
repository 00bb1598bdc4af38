/-
# Lib.Dues — a copy that is refreshed behind every change

Two parts of a state should agree. Some actions disturb the agreement, and some restore
it; a program that disturbs it owes an action that restores it, whatever the replies are.

* `Program.Owes`, `Program.Pays` — what is owed, and that every disturbance is paid for;
* `Owes.after`, `Pays.bind` — their rules;
* `Pool.Settled` — in a pool whose jobs pay, the parts agree or some thread owes
  (`Pool.Settled.run`), so that they agree when nobody does.
-/
import FpgaSsd.Lib.Pool

namespace FpgaSsd.Lib

set_option autoImplicit false

/-- What an invariant of the machine asks of actions and promises about replies, and what
actions do to the agreement. -/
structure Dues (Act : Type) (Reply : Act → Type) where
  allowed : Act → Prop
  expects : (a : Act) → Reply a → Prop
  disturbs : (a : Act) → Reply a → Prop
  restores : Act → Prop

/-- The action keeps the invariant and the agreement. -/
def Dues.Calm {Act : Type} {Reply : Act → Type} (D : Dues Act Reply) (a : Act) : Prop :=
  D.allowed a ∧ ∀ r, ¬ D.disturbs a r

namespace Program

variable {Act : Type} {Reply : Act → Type} {α β : Type}

/-- Every course of the program restores the agreement. -/
def Owes (D : Dues Act Reply) : Program Act Reply α → Prop
  | .pure _ => False
  | .act a rest => D.restores a ∨ ∀ r, D.expects a r → Owes D (rest r)

/-- Every course of the program ends with `Q`. -/
def Ends (D : Dues Act Reply) (Q : α → Prop) : Program Act Reply α → Prop
  | .pure value => Q value
  | .act a rest => ∀ r, D.expects a r → Ends D Q (rest r)

/-- As long as only permitted actions happen, the invariant is kept, and what is disturbed
is restored later. -/
def Pays (D : Dues Act Reply) (permitted : Act → Prop) : Program Act Reply α → Prop
  | .pure _ => True
  | .act a rest => permitted a → D.allowed a ∧ ∀ r, D.expects a r →
      (D.disturbs a r → Owes D (rest r)) ∧ Pays D permitted (rest r)

variable {D : Dues Act Reply} {permitted : Act → Prop}
variable {p : Program Act Reply α} {next : α → Program Act Reply β} {Q : α → Prop}

theorem All.of_forall {P : Act → Prop} (each : ∀ a, P a) (p : Program Act Reply α) : p.All P := by
  induction p with
  | pure value => trivial
  | act a rest ih => exact ⟨each a, ih⟩

theorem Owes.bind (owes : p.Owes D) : (p >>= next).Owes D := by
  induction p with
  | pure value => exact owes.elim
  | act a rest ih => exact owes.imp id fun later r expected => ih r (later r expected)

/-- What is owed behind a part is owed. -/
theorem Owes.after (ends : p.Ends D Q) (owes : ∀ value, Q value → (next value).Owes D) :
    (p >>= next).Owes D := by
  induction p with
  | pure value => exact owes value ends
  | act a rest ih => exact .inr fun r expected => ih r (ends r expected)

/-- A program that does nothing to restore the agreement does not owe it. -/
theorem Owes.restores (answers : ∀ a, ∃ r, D.expects a r) (owes : p.Owes D) : ¬ p.All fun a => ¬ D.restores a := by
  induction p with
  | pure value => exact fun _ => owes
  | act a rest ih =>
      rintro ⟨here, later⟩
      rcases owes with restores | owes
      · exact here restores
      · obtain ⟨r, expected⟩ := answers a
        exact ih r (owes r expected) (later r)

theorem Ends.bind {γ : Type} {next : α → Program Act Reply γ} {R : γ → Prop} (ends : p.Ends D Q)
    (rest : ∀ value, Q value → (next value).Ends D R) : (p >>= next).Ends D R := by
  induction p with
  | pure value => exact rest value ends
  | act a tail ih => exact fun r expected => ih r (ends r expected)

theorem Ends.any (p : Program Act Reply α) : p.Ends D fun _ => True := by
  induction p with
  | pure value => trivial
  | act a rest ih => exact fun r _ => ih r

/-- A loop that is never left early. -/
theorem Ends.firstSome {ι : Type} {body : ι → Program Act Reply (Option α)} {items : List ι}
    (each : ∀ i ∈ items, (body i).Ends D fun found => found = none) :
    (Program.firstSome body items).Ends D fun found => found = none := by
  induction items with
  | nil => rfl
  | cons i rest ih =>
      refine (each i (List.mem_cons_self ..)).bind fun found none => ?_
      rw [none]
      exact ih fun j member => each j (List.mem_cons_of_mem _ member)

/-- A loop that comes to an item that restores the agreement. -/
theorem Owes.firstSome {ι : Type} {body : ι → Program Act Reply (Option α)} {items : List ι} {i : ι}
    (each : ∀ j ∈ items, (body j).Ends D fun found => found = none) (member : i ∈ items) (owes : (body i).Owes D) :
    (Program.firstSome body items).Owes D := by
  induction items with
  | nil => cases member
  | cons j rest ih =>
      rcases List.mem_cons.1 member with rfl | member
      · exact owes.bind
      · refine Owes.after (each j (List.mem_cons_self ..)) fun found none => ?_
        rw [none]
        exact ih (fun k member => each k (List.mem_cons_of_mem _ member)) member

theorem Pays.bind (first : p.Pays D permitted) (rest : ∀ value, (next value).Pays D permitted) :
    (p >>= next).Pays D permitted := by
  induction p with
  | pure value => exact rest value
  | act a tail ih =>
      intro may
      obtain ⟨allowed, each⟩ := first may
      refine ⟨allowed, fun r expected => ?_⟩
      obtain ⟨pays, later⟩ := each r expected
      exact ⟨fun disturbed => (pays disturbed).bind, ih r later⟩

/-- Nothing is owed behind a calm action. -/
theorem Pays.act {a : Act} {rest : Reply a → Program Act Reply α} (calm : D.Calm a)
    (later : ∀ r, D.expects a r → (rest r).Pays D permitted) : (Program.act a rest).Pays D permitted :=
  fun _ => ⟨calm.1, fun r expected => ⟨fun disturbed => absurd disturbed (calm.2 r), later r expected⟩⟩

/-- In front of a part that restores the agreement anything may happen. -/
theorem Pays.owed (allowed : p.All D.allowed) (ends : p.Ends D Q) (owes : ∀ value, Q value → (next value).Owes D)
    (pays : ∀ value, Q value → (next value).Pays D permitted) : (p >>= next).Pays D permitted := by
  induction p with
  | pure value => exact pays value ends
  | act a tail ih =>
      intro _
      obtain ⟨here, later⟩ := allowed
      exact ⟨here, fun r expected => ⟨fun _ => Owes.after (ends r expected) owes, ih r (later r) (ends r expected)⟩⟩

/-- A program of calm actions. -/
theorem Pays.of_calm (all : p.All D.Calm) : p.Pays D permitted := by
  induction p with
  | pure value => trivial
  | act a rest ih =>
      intro _
      obtain ⟨⟨allowed, quiet⟩, later⟩ := all
      exact ⟨allowed, fun r _ => ⟨fun disturbed => absurd disturbed (quiet r), ih r (later r)⟩⟩

end Program

/-! ## Pools -/

section Pools

variable {Act : Type} {Reply : Act → Type} {Job α S O : Type}

/-- The machine keeps the invariant, and the agreement is what the dues say. -/
structure Dues.Sound (D : Dues Act Reply) (perform : Nat → Perform Act Reply S O) (inv agree : S → Prop) : Prop where
  keeps : ∀ {t a o r s s'}, inv s → D.allowed a → perform t a o s = some (r, s') → inv s'
  promises : ∀ {t a o r s s'}, inv s → perform t a o s = some (r, s') → D.expects a r
  restored : ∀ {t a o r s s'}, D.restores a → perform t a o s = some (r, s') → agree s'
  kept : ∀ {t a o r s s'}, agree s → ¬ D.disturbs a r → perform t a o s = some (r, s') → agree s'

/-- The parts agree, or some thread owes; and every thread pays. -/
structure Pool.Settled (D : Dues Act Reply) (permitted : Job → Act → Prop) (inv agree : S → Prop)
    (p : Pool Act Reply Job α S) : Prop where
  inv : inv p.state
  agrees : agree p.state ∨ ∃ t, (p.prog t).Owes D
  pays : ∀ t, (p.prog t).Pays D (permitted (p.job t))

variable {D : Dues Act Reply} {perform : Nat → Perform Act Reply S O} {inv agree : S → Prop}
variable {permitted : Job → Act → Prop} {start : Job → Program Act Reply α} {p q : Pool Act Reply Job α S}

theorem Pool.Settled.step {tid : Nat} (sound : D.Sound perform inv agree)
    (pay : ∀ j, (start j).Pays D (permitted j)) (settled : p.Settled D permitted inv agree)
    (step : Pool.Step perform (fun j _ a _ => permitted j a) start tid p q) : q.Settled D permitted inv agree := by
  cases step with
  | @act a rest o r s here allowed acted =>
      have mine := settled.pays tid
      rw [here] at mine
      obtain ⟨allowed, each⟩ := mine allowed
      obtain ⟨owed, pays⟩ := each r (sound.promises settled.inv acted)
      constructor
      · exact sound.keeps settled.inv allowed acted
      · by_cases disturbed : D.disturbs a r
        · exact .inr ⟨tid, by simpa only [Function.update_self] using owed disturbed⟩
        rcases settled.agrees with agrees | ⟨t, owes⟩
        · exact .inl (sound.kept agrees disturbed acted)
        · by_cases same : t = tid
          · subst same
            rw [here] at owes
            rcases owes with restores | owes
            · exact .inl (sound.restored restores acted)
            · refine .inr ⟨t, ?_⟩
              simpa only [Function.update_self] using owes r (sound.promises settled.inv acted)
          · exact .inr ⟨t, by simpa only [Function.update_of_ne same] using owes⟩
      · intro t
        by_cases same : t = tid
        · subst same
          simpa only [Function.update_self] using pays
        · simpa only [Function.update_of_ne same] using settled.pays t
  | @start value job here =>
      constructor
      · exact settled.inv
      · refine settled.agrees.imp id ?_
        rintro ⟨t, owes⟩
        refine ⟨t, ?_⟩
        by_cases same : t = tid
        · subst same
          rw [here] at owes
          exact owes.elim
        · simpa only [Function.update_of_ne same] using owes
      · intro t
        by_cases same : t = tid
        · subst same
          simpa only [Function.update_self] using pay job
        · simpa only [Function.update_of_ne same] using settled.pays t

/-- **In every run** the parts agree, or some thread still owes. -/
theorem Pool.Settled.run (sound : D.Sound perform inv agree) (pay : ∀ j, (start j).Pays D (permitted j))
    (settled : p.Settled D permitted inv agree)
    (run : Pool.Reachable perform (fun j _ a _ => permitted j a) start p q) : q.Settled D permitted inv agree := by
  induction run with
  | refl => exact settled
  | tail _ last ih =>
      obtain ⟨tid, step⟩ := last
      exact ih.step sound pay step

/-- What holds of every action of a job holds of what is left of it. -/
theorem Pool.Reachable.all {may : Job → S → Act → O → Prop} {P : Job → Act → Prop} (each : ∀ j, (start j).All (P j))
    (first : ∀ t, (p.prog t).All (P (p.job t))) (run : Pool.Reachable perform may start p q) :
    ∀ t, (q.prog t).All (P (q.job t)) := by
  induction run with
  | refl => exact first
  | tail _ last ih =>
      obtain ⟨tid, step⟩ := last
      intro t
      cases step with
      | @act a rest o r s here allowed acted =>
          by_cases same : t = tid
          · subst same
            have mine := ih t
            rw [here] at mine
            simpa only [Function.update_self] using mine.2 r
          · simpa only [Function.update_of_ne same] using ih t
      | @start value job here =>
          by_cases same : t = tid
          · subst same
            simpa only [Function.update_self] using each job
          · simpa only [Function.update_of_ne same] using ih t

end Pools

end FpgaSsd.Lib
