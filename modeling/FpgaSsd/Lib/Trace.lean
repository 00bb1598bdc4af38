/-
# Lib.Trace — the events of a pool, and the effects its jobs log

A `Trace` is a run of a pool with its events, the newest first: an action of a
thread, or the turn of a thread that returns a value and takes the next job. Some
actions of a job are its effects; `logOf` lists all of them in the order in which
they happened, `ownOf t` those of the job that thread `t` has at work.

* `noted` — the machine of one thread with both lists as its history;
* `Pool.Trace.logged` — threads that are safe on this machine are safe in every
  trace, when what one does is interference the others rely on;
* `Call.effect_index` — what a call has logged when it returns, it has logged since
  it began.
-/
import FpgaSsd.Lib.History
import FpgaSsd.Lib.Pool

namespace FpgaSsd.Lib

set_option autoImplicit false

section Traces

variable {Act : Type} {Reply : Act → Type} {Job α E S O : Type}

/-- What happens in a pool. -/
inductive Event (Act Job α : Type) where
  | act (tid : Nat) (job : Job) (a : Act)
  | turn (tid : Nat) (job : Job) (value : α) (next : Job)

/-- The runs from `p`, with their events. -/
inductive Pool.Trace (perform : Nat → Perform Act Reply S O) (may : Job → S → Act → O → Prop)
    (start : Job → Program Act Reply α) (p : Pool Act Reply Job α S) :
    List (Event Act Job α) → Pool Act Reply Job α S → Prop
  | nil : Pool.Trace perform may start p [] p
  | act {es : List (Event Act Job α)} {q : Pool Act Reply Job α S} {tid : Nat} {a : Act}
      {rest : Reply a → Program Act Reply α} {o : O} {r : Reply a} {s : S}
      (before : Pool.Trace perform may start p es q) (here : q.prog tid = .act a rest)
      (allowed : may (q.job tid) q.state a o) (step : perform tid a o q.state = some (r, s)) :
      Pool.Trace perform may start p (.act tid (q.job tid) a :: es) { q with
        state := s
        prog := Function.update q.prog tid (rest r) }
  | turn {es : List (Event Act Job α)} {q : Pool Act Reply Job α S} {tid : Nat} {value : α}
      (before : Pool.Trace perform may start p es q) (here : q.prog tid = .pure value) (next : Job) :
      Pool.Trace perform may start p (.turn tid (q.job tid) value next :: es) { q with
        job := Function.update q.job tid next
        prog := Function.update q.prog tid (start next) }

/-- All effects, the newest first. -/
def logOf (effect : Job → Act → Option E) : List (Event Act Job α) → List E
  | [] => []
  | .act _ job a :: es => (effect job a).toList ++ logOf effect es
  | .turn .. :: es => logOf effect es

/-- The effects of the job that thread `t` has at work. -/
def ownOf (effect : Job → Act → Option E) (t : Nat) : List (Event Act Job α) → List E
  | [] => []
  | .act tid job a :: es =>
      if tid = t then (effect job a).toList ++ ownOf effect t es else ownOf effect t es
  | .turn tid .. :: es => if tid = t then [] else ownOf effect t es

/-- The machine of a job, with all effects and its own ones. -/
def noted (perform : Perform Act Reply S O) (effect : Act → Option E) :
    Perform Act Reply (S × List E × List E) O :=
  recorded perform fun a _ _ _ lists =>
    ((effect a).toList ++ lists.1, (effect a).toList ++ lists.2)

variable {perform : Nat → Perform Act Reply S O} {may : Job → S → Act → O → Prop}
variable {start : Job → Program Act Reply α} {effect : Job → Act → Option E}
variable {K : Nat → Job → Contract Act (S × List E × List E) O}
variable {post : Nat → Job → α → S × List E × List E → Prop}
variable {p q : Pool Act Reply Job α S} {es : List (Event Act Job α)}

/-- Every thread is safe, with the effects of the trace as its history. -/
def Pool.Logged (perform : Nat → Perform Act Reply S O) (effect : Job → Act → Option E)
    (K : Nat → Job → Contract Act (S × List E × List E) O)
    (post : Nat → Job → α → S × List E × List E → Prop) (es : List (Event Act Job α))
    (q : Pool Act Reply Job α S) : Prop :=
  ∀ t, Safe (noted (perform t) (effect (q.job t))) (K t (q.job t)) (q.prog t)
    (post t (q.job t)) (q.state, logOf effect es, ownOf effect t es)

/-- What one job does under its contract is interference that the others rely on;
it leaves their own effects alone. -/
def Pool.Separate (perform : Nat → Perform Act Reply S O) (effect : Job → Act → Option E)
    (K : Nat → Job → Contract Act (S × List E × List E) O) : Prop :=
  ∀ {t t' : Nat} {j j' : Job} {s s' : S} {log own own' : List E} {a : Act} {o : O} {r : Reply a},
    t' ≠ t → (K t j).must (s, log, own) a → (K t j).may (s, log, own) a o →
      perform t a o s = some (r, s') →
        (K t' j').rely (s, log, own') (s', (effect j a).toList ++ log, own')

/-- A job that returns leaves a thread that can take any other. -/
def Pool.Ready (perform : Nat → Perform Act Reply S O) (effect : Job → Act → Option E)
    (K : Nat → Job → Contract Act (S × List E × List E) O)
    (post : Nat → Job → α → S × List E × List E → Prop) (start : Job → Program Act Reply α) : Prop :=
  ∀ {t : Nat} {j : Job} {value : α} {s : S} {log own : List E} (j' : Job),
    post t j value (s, log, own) →
      Safe (noted (perform t) (effect j')) (K t j') (start j') (post t j') (s, log, [])

theorem Pool.Logged.must (steady : ∀ t j, (K t j).Steady) (logged : q.Logged perform effect K post es)
    {t : Nat} {a : Act} {rest : Reply a → Program Act Reply α} (here : q.prog t = .act a rest) :
    (K t (q.job t)).must (q.state, logOf effect es, ownOf effect t es) a := by
  have safe := logged t
  rw [here] at safe
  exact (safe _ ((steady t _).refl _)).1

theorem Pool.Logged.returned (steady : ∀ t j, (K t j).Steady)
    (logged : q.Logged perform effect K post es) {t : Nat} {value : α}
    (here : q.prog t = .pure value) :
    post t (q.job t) value (q.state, logOf effect es, ownOf effect t es) := by
  have safe := logged t
  rw [here] at safe
  exact safe _ ((steady t _).refl _)

/-- **Safe threads are safe in every trace.** -/
theorem Pool.Trace.logged (steady : ∀ t j, (K t j).Steady)
    (separate : Pool.Separate perform effect K)
    (mays : ∀ t j s lists a o, may j s a o → (K t j).may (s, lists) a o)
    (ready : Pool.Ready perform effect K post start)
    (first : p.Logged perform effect K post []) (trace : Pool.Trace perform may start p es q) :
    q.Logged perform effect K post es := by
  induction trace with
  | nil => exact first
  | @act es q tid a rest o r s _ here allowed step ih =>
      intro t
      have must := ih.must steady here
      have mayO := mays tid _ _ (logOf effect es, ownOf effect tid es) a o allowed
      by_cases same : t = tid
      · subst same
        have safe := ih t
        rw [here] at safe
        simp only [Function.update_self, logOf, ownOf, if_true]
        exact (safe _ ((steady t _).refl _)).2 o r _ mayO (recorded_eq_some.2 ⟨step, rfl⟩)
      · simp only [Function.update_of_ne same, logOf, ownOf, if_neg (Ne.symm same)]
        exact (ih t).env (steady t _) (separate same must mayO step)
  | @turn es q tid value _ here next ih =>
      intro t
      by_cases same : t = tid
      · subst same
        simp only [Function.update_self, logOf, ownOf, if_true]
        exact ready next (ih.returned steady here)
      · simp only [Function.update_of_ne same, logOf, ownOf, if_neg (Ne.symm same)]
        exact ih t

/-- The pool in which a thread took its turn. -/
theorem Pool.Trace.at_turn {later : List (Event Act Job α)} {tid : Nat} {job next : Job} {value : α}
    (trace : Pool.Trace perform may start p (later ++ .turn tid job value next :: es) q) :
    ∃ q', Pool.Trace perform may start p es q' ∧ q'.prog tid = .pure value ∧ q'.job tid = job := by
  induction later generalizing q with
  | nil =>
      cases trace with
      | turn before here => exact ⟨_, before, here, rfl⟩
  | cons e later ih =>
      cases trace with
      | act before => exact ih before
      | turn before => exact ih before

/-! ## Calls -/

/-- A turn of thread `t`. -/
def Event.IsTurn (t : Nat) : Event Act Job α → Prop
  | .act .. => False
  | .turn tid .. => tid = t

/-- An effect of thread `t`. -/
def Event.Has (effect : Job → Act → Option E) (t : Nat) (e : E) : Event Act Job α → Prop
  | .act tid job a => tid = t ∧ effect job a = some e
  | .turn .. => False

/-- Thread `t` began `job` at event `b` of the trace, or had it at work when the
trace began, and returned `value` at event `r`; later events have smaller numbers. -/
structure Call (es : List (Event Act Job α)) (t : Nat) (job : Job) (value : α) (b r : Nat) :
    Prop where
  begins : b = es.length ∨ ∃ before v, es[b]? = some (.turn t before v job)
  returns : ∃ next, es[r]? = some (.turn t job value next)
  order : r < b
  within : ∀ k e, r < k → k < b → es[k]? = some e → ¬ e.IsTurn t

/-- The effects at work happened after the last turn. -/
theorem ownOf_index {t : Nat} {e : E} (member : e ∈ ownOf effect t es) :
    ∃ (k : Nat) (event : Event Act Job α), es[k]? = some event ∧ event.Has effect t e ∧
      ∀ (j : Nat) (event' : Event Act Job α), j ≤ k → es[j]? = some event' →
        ¬ event'.IsTurn t := by
  induction es with
  | nil => cases member
  | cons event es ih =>
      have deeper : e ∈ ownOf effect t es → ¬ event.IsTurn t →
          ∃ (k : Nat) (event' : Event Act Job α), (event :: es)[k]? = some event' ∧
            event'.Has effect t e ∧ ∀ (j : Nat) (event'' : Event Act Job α), j ≤ k →
              (event :: es)[j]? = some event'' → ¬ event''.IsTurn t := by
        intro old still
        obtain ⟨k, event', found, has, quiet⟩ := ih old
        refine ⟨k + 1, event', found, has, fun j event'' le at_j => ?_⟩
        cases j with
        | zero =>
            cases at_j
            exact still
        | succ j => exact quiet j event'' (by omega) at_j
      cases event with
      | act tid job a =>
          simp only [ownOf] at member
          split at member
          · rename_i same
            rcases List.mem_append.1 member with new | old
            · refine ⟨0, _, rfl, ⟨same, Option.mem_toList.1 new⟩, fun j event' le at_j => ?_⟩
              obtain rfl : j = 0 := by omega
              cases at_j
              exact id
            · exact deeper old id
          · exact deeper member id
      | turn tid job value next =>
          simp only [ownOf] at member
          split at member
          · cases member
          · rename_i apart
            exact deeper member apart

/-- What a call has logged when it returns, it has logged since it began. -/
theorem Call.effect_index {t : Nat} {job next : Job} {value : α} {b : Nat} {e : E}
    {later : List (Event Act Job α)}
    (call : Call (later ++ .turn t job value next :: es) t job value b later.length)
    (member : e ∈ ownOf effect t es) :
    ∃ k event, (later ++ .turn t job value next :: es)[k]? = some event ∧ event.Has effect t e ∧
      later.length < k ∧ k < b := by
  obtain ⟨k, event, found, has, quiet⟩ := ownOf_index member
  have shift : ∀ j, (later ++ .turn t job value next :: es)[later.length + 1 + j]? = es[j]? := by
    intro j
    rw [List.getElem?_append_right (by omega), show later.length + 1 + j - later.length = j + 1 by
      omega, List.getElem?_cons_succ]
  refine ⟨later.length + 1 + k, event, (shift k).trans found, has, by omega, ?_⟩
  by_contra beyond
  rcases call.begins with rfl | ⟨before, v, begins⟩
  · obtain ⟨inside, -⟩ := List.getElem?_eq_some_iff.1 ((shift k).trans found)
    exact beyond inside
  have order := call.order
  have at_b := shift (b - later.length - 1)
  rw [show later.length + 1 + (b - later.length - 1) = b by omega, begins] at at_b
  exact quiet (b - later.length - 1) _ (by omega) at_b.symm rfl

/-- Calls of one thread do not overlap. -/
theorem Call.same {t : Nat} {job job' : Job} {value value' : α} {b b' r r' k : Nat}
    (call : Call es t job value b r) (call' : Call es t job' value' b' r')
    (inside : r < k ∧ k < b) (inside' : r' < k ∧ k < b') : r = r' := by
  obtain ⟨next, returns⟩ := call.returns
  obtain ⟨next', returns'⟩ := call'.returns
  rcases Nat.lt_trichotomy r r' with less | same | more
  · exact absurd rfl (call.within r' _ less (by omega) returns')
  · exact same
  · exact absurd rfl (call'.within r _ more (by omega) returns)

/-- The trace up to the return of a call. -/
theorem Call.split {t : Nat} {job : Job} {value : α} {b r : Nat} (call : Call es t job value b r) :
    ∃ later next es', es = later ++ .turn t job value next :: es' ∧ later.length = r := by
  obtain ⟨next, returns⟩ := call.returns
  obtain ⟨inside, here⟩ := List.getElem?_eq_some_iff.1 returns
  refine ⟨es.take r, next, es.drop (r + 1), ?_, ?_⟩
  · rw [← here, ← List.drop_eq_getElem_cons inside, List.take_append_drop]
  · rw [List.length_take]
    omega

/-- A thread that runs alone for a while. -/
theorem Pool.Trace.trace_of_reaches {t : Nat} {prog : Program Act Reply α} {s : S}
    (trace : Pool.Trace perform may start p es q)
    (cut : Reaches (perform t) (may (q.job t)) (q.prog t) q.state prog s) :
    ∃ later, (∀ e ∈ later, ∃ a, e = .act t (q.job t) a) ∧
      Pool.Trace perform may start p (later ++ es)
        { q with state := s, prog := Function.update q.prog t prog } := by
  obtain ⟨state, job, progs⟩ := q
  simp only at cut
  generalize mine : progs t = first at cut
  induction cut generalizing progs es with
  | here q s =>
      subst mine
      rw [Function.update_eq_self]
      exact ⟨[], nofun, trace⟩
  | @act a rest s s' s'' o r q allowed step tail ih =>
      obtain ⟨later, only, whole⟩ :=
        ih (Function.update progs t (rest r)) (trace.act mine allowed step) (Function.update_self ..)
      rw [Function.update_idem] at whole
      refine ⟨later ++ [.act t (job t) a], fun e member => ?_, by simpa using whole⟩
      rcases List.mem_append.1 member with old | new
      · exact only e old
      · exact ⟨a, List.mem_singleton.1 new⟩

end Traces

end FpgaSsd.Lib
