/-
# Lib.Pool — threads that run programs on one machine

A `Pool` is a machine with a program left to run in every thread. A step performs
the first action of one thread, or gives a thread that has finished a new job.

* `Guarantees` — what one thread may do is interference the others rely on;
* `Pool.Secure` — every thread satisfies its safety triple, a step keeps it
  (`Secure.step`), so every run does (`Secure.run`), and every run up to the return of one
  thread (`Secure.while`);
* `Pool.reachable_of_reaches`, `Pool.while_of_reaches` — one thread that runs alone for a
  while;
* `Pool.Secure.must` — what a thread is about to do, it may do;
* `Safe.ofObeys` — a program that obeys a typestate is safe where the machine
  mirrors the state of the protocol.
-/
import FpgaSsd.Lib.Typestate
import Mathlib.Logic.Function.Basic

namespace FpgaSsd.Lib

set_option autoImplicit false

structure Pool (Act : Type) (Reply : Act → Type) (Job α S : Type) where
  state : S
  job : Nat → Job
  prog : Nat → Program Act Reply α

section Pools

variable {Act : Type} {Reply : Act → Type} {Job α S O : Type}

/-- One step of thread `tid`. -/
inductive Pool.Step (perform : Nat → Perform Act Reply S O) (may : Job → S → Act → O → Prop)
    (start : Job → Program Act Reply α) (tid : Nat) :
    Pool Act Reply Job α S → Pool Act Reply Job α S → Prop
  | act {p : Pool Act Reply Job α S} {a : Act} {rest : Reply a → Program Act Reply α} {o : O}
      {r : Reply a} {s : S} (here : p.prog tid = .act a rest) (allowed : may (p.job tid) p.state a o)
      (step : perform tid a o p.state = some (r, s)) :
      Pool.Step perform may start tid p { p with
        state := s
        prog := Function.update p.prog tid (rest r) }
  | start {p : Pool Act Reply Job α S} {value : α} (job : Job) (here : p.prog tid = .pure value) :
      Pool.Step perform may start tid p { p with
        job := Function.update p.job tid job
        prog := Function.update p.prog tid (start job) }

/-- The runs: any thread at any time. -/
def Pool.Reachable (perform : Nat → Perform Act Reply S O) (may : Job → S → Act → O → Prop)
    (start : Job → Program Act Reply α) : Pool Act Reply Job α S → Pool Act Reply Job α S → Prop :=
  Relation.ReflTransGen fun p p' => ∃ tid, Pool.Step perform may start tid p p'

/-- What a thread does under its contract is interference that every other thread
relies on. -/
def Guarantees (perform : Nat → Perform Act Reply S O) (K : Nat → Job → Contract Act S O) : Prop :=
  ∀ {t t' : Nat} {j j' : Job} {s s' : S} {a : Act} {o : O} {r : Reply a}, t' ≠ t →
    (K t j).must s a → (K t j).may s a o → perform t a o s = some (r, s') → (K t' j').rely s s'

/-- The runs in which thread `t` is at work at every step. -/
def Pool.While (t : Nat) (perform : Nat → Perform Act Reply S O) (may : Job → S → Act → O → Prop)
    (start : Job → Program Act Reply α) : Pool Act Reply Job α S → Pool Act Reply Job α S → Prop :=
  Relation.ReflTransGen fun p p' =>
    (∃ a rest, p.prog t = .act a rest) ∧ ∃ tid, Pool.Step perform may start tid p p'

/-- Every thread is safe, and behind its value `post` holds. -/
def Pool.Secure (perform : Nat → Perform Act Reply S O) (K : Nat → Job → Contract Act S O)
    (post : Nat → α → S → Prop) (p : Pool Act Reply Job α S) : Prop :=
  ∀ t, Safe (perform t) (K t (p.job t)) (p.prog t) (post t) p.state

variable {perform : Nat → Perform Act Reply S O} {K : Nat → Job → Contract Act S O}
variable {may : Job → S → Act → O → Prop} {start : Job → Program Act Reply α} {post : Nat → α → S → Prop}
variable {p p' : Pool Act Reply Job α S}

theorem Pool.Secure.must (steady : ∀ t j, (K t j).Steady) (secure : p.Secure perform K post)
    {t : Nat} {a : Act} {rest : Reply a → Program Act Reply α} (next : p.prog t = .act a rest) :
    (K t (p.job t)).must p.state a := by
  have safe := secure t
  rw [next] at safe
  exact (safe p.state ((steady t _).refl _)).1

/-- What holds behind a thread that has returned. -/
theorem Pool.Secure.returned (steady : ∀ t j, (K t j).Steady) (secure : p.Secure perform K post)
    {t : Nat} {value : α} (here : p.prog t = .pure value) : post t value p.state := by
  have safe := secure t
  rw [here] at safe
  exact safe p.state ((steady t _).refl _)

theorem Pool.Secure.step (steady : ∀ t j, (K t j).Steady) (guarantees : Guarantees perform K)
    (mays : ∀ t j s a o, may j s a o → (K t j).may s a o) {tid : Nat}
    (ready : ∀ j value, p.prog tid = .pure value → post tid value p.state →
      Safe (perform tid) (K tid j) (start j) (post tid) p.state)
    (secure : p.Secure perform K post) (step : Pool.Step perform may start tid p p') :
    p'.Secure perform K post := by
  intro t
  cases step with
  | @act a rest o r s here allowed acted =>
      have must := secure.must steady here
      by_cases same : t = tid
      · subst same
        have safe := secure t
        rw [here] at safe
        simp only [Function.update_self]
        exact (safe _ ((steady t _).refl _)).2 o r s (mays _ _ _ _ _ allowed) acted
      · simp only [Function.update_of_ne same]
        exact (secure t).env (steady t _) (guarantees same must (mays _ _ _ _ _ allowed) acted)
  | @start value job here =>
      by_cases same : t = tid
      · subst same
        simp only [Function.update_self]
        exact ready job value here (secure.returned steady here)
      · simp only [Function.update_of_ne same]
        exact secure t

/-- **Every run keeps every thread safe.** -/
theorem Pool.Secure.run (steady : ∀ t j, (K t j).Steady) (guarantees : Guarantees perform K)
    (mays : ∀ t j s a o, may j s a o → (K t j).may s a o)
    (ready : ∀ t j value s, post t value s → Safe (perform t) (K t j) (start j) (post t) s)
    (secure : p.Secure perform K post) (run : Pool.Reachable perform may start p p') :
    p'.Secure perform K post := by
  induction run with
  | refl => exact secure
  | tail _ last ih =>
      obtain ⟨tid, step⟩ := last
      exact ih.step steady guarantees mays (fun j value _ => ready tid j value _) step

/-- The same while thread `t` is at work, which need not be ready for another job. -/
theorem Pool.Secure.while {t : Nat} (steady : ∀ t j, (K t j).Steady) (guarantees : Guarantees perform K)
    (mays : ∀ t j s a o, may j s a o → (K t j).may s a o)
    (ready : ∀ u j value s, u ≠ t → post u value s → Safe (perform u) (K u j) (start j) (post u) s)
    (secure : p.Secure perform K post) (run : Pool.While t perform may start p p') :
    p'.Secure perform K post := by
  induction run with
  | refl => exact secure
  | tail _ last ih =>
      obtain ⟨⟨a, rest, busy⟩, tid, step⟩ := last
      refine ih.step steady guarantees mays (fun j value here => ready tid j value _ ?_) step
      rintro rfl
      rw [busy] at here
      cases here

/-- A thread that runs alone for a while, as a run of any kind of steps that has its own. -/
theorem Pool.steps_of_reaches {R : Pool Act Reply Job α S → Pool Act Reply Job α S → Prop}
    {others : Nat → Program Act Reply α} {t : Nat} {q : Program Act Reply α} {s : S}
    (steps : ∀ p₁ p₂, (∃ a rest, p₁.prog t = .act a rest) → (∀ u, u ≠ t → p₁.prog u = others u) →
      Pool.Step perform may start t p₁ p₂ → R p₁ p₂)
    (rest : ∀ u, u ≠ t → p.prog u = others u)
    (cut : Reaches (perform t) (may (p.job t)) (p.prog t) p.state q s) :
    Relation.ReflTransGen R p { p with state := s, prog := Function.update p.prog t q } := by
  obtain ⟨state, job, prog⟩ := p
  simp only at cut rest
  generalize mine : prog t = first at cut
  induction cut generalizing prog with
  | here q s =>
      subst mine
      rw [Function.update_eq_self]
  | @act a next s s' s'' o r q allowed step tail ih =>
      have later := ih (Function.update prog t (next r)) (fun u apart => by
        rw [Function.update_of_ne apart, rest u apart]) (Function.update_self ..)
      rw [Function.update_idem] at later
      exact .head (steps _ _ ⟨a, next, mine⟩ rest (.act mine allowed step)) later

theorem Pool.reachable_of_reaches {t : Nat} {q : Program Act Reply α} {s : S}
    (cut : Reaches (perform t) (may (p.job t)) (p.prog t) p.state q s) :
    Pool.Reachable perform may start p
      { p with state := s, prog := Function.update p.prog t q } :=
  Pool.steps_of_reaches (fun _ _ _ _ step => ⟨t, step⟩) (fun _ _ => rfl) cut

/-- Thread `t` is at work while it runs alone, and while another thread does if it has not returned. -/
theorem Pool.while_of_reaches {t u : Nat} {q : Program Act Reply α} {s : S}
    (busy : u ≠ t → ∃ a rest, p.prog t = .act a rest)
    (cut : Reaches (perform u) (may (p.job u)) (p.prog u) p.state q s) :
    Pool.While t perform may start p { p with state := s, prog := Function.update p.prog u q } := by
  refine Pool.steps_of_reaches (fun p₁ p₂ acts stays step => ⟨?_, u, step⟩) (fun _ _ => rfl) cut
  by_cases same : u = t
  · exact same ▸ acts
  · rw [stays t (Ne.symm same)]
    exact busy same

end Pools

section Typestates

variable {Act : Type} {Reply : Act → Type} {H S O α : Type} {T : Typestate Act Reply H}
variable {perform : Perform Act Reply S O} {K : Contract Act S O} {R : H → S → Prop}

/-- Obeying a protocol is safe on a machine that mirrors it. -/
theorem Safe.ofObeys (env : ∀ {h s s'}, R h s → K.rely s s' → R h s')
    (allowed : ∀ {h s a}, R h s → T.allowed h a → K.must s a)
    (next : ∀ {h s a o r s'}, R h s → T.allowed h a → K.may s a o →
      perform a o s = some (r, s') → T.expects a r ∧ R (T.next h a) s')
    {p : Program Act Reply α} {post : α → H → Prop} {h : H} {s : S} (obeys : p.Obeys T post h)
    (related : R h s) : Safe perform K p (fun value s' => ∃ h', post value h' ∧ R h' s') s := by
  induction p generalizing h s with
  | pure value => exact fun t later => ⟨h, obeys, env related later⟩
  | act a rest ih =>
      intro t later
      have now := env related later
      refine ⟨allowed now obeys.1, fun o r t' mayO step => ?_⟩
      obtain ⟨expected, after⟩ := next now obeys.1 mayO step
      exact ih r (obeys.2 r expected) after

end Typestates

end FpgaSsd.Lib
