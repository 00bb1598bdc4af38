/-
# Lib.Program — interaction programs and their safety triples

A `Program` is a finitely branching-in-depth tree of atomic actions: each action
waits for a reply and continues with it. What an action does to a state is not
part of the program; it is a `Perform`, so one program text is read by several
machines (the whole device, one channel of it, a lock discipline).

* `Runs` is the big-step reading of a program alone on a machine, `Reaches` the
  reading cut after any number of actions.
* `Safe` is the safety triple: an environment may change the state along `rely`
  before every action, every action is performed where `must` allows it, every
  outcome satisfies `may`, and the postcondition holds at the end.
* `Safe.bind`, `Safe.weaken`, `Safe.env` are its rules; `Safe.runs` and
  `Safe.reaches` say what it means for runs, and `Safe.total` turns a triple whose
  `must` is "some outcome is enabled" into an actual run.
* `OnlyIn` says that actions of one kind are performed inside certain calls only.
-/
import Mathlib.Logic.Relation

namespace FpgaSsd.Lib

set_option autoImplicit false

/-- A program over actions `Act`, each answered by a `Reply`. -/
inductive Program (Act : Type) (Reply : Act → Type) (α : Type) : Type where
  | pure (value : α)
  | act (action : Act) (rest : Reply action → Program Act Reply α)

/-- What one atomic action does: given an outcome chosen by the environment it
either replies and changes the state, or it is not enabled. -/
abbrev Perform (Act : Type) (Reply : Act → Type) (S O : Type) :=
  (a : Act) → O → S → Option (Reply a × S)

/-- The assumptions and obligations of a program in its environment. -/
structure Contract (Act S O : Type) where
  rely : S → S → Prop
  must : S → Act → Prop
  may : S → Act → O → Prop

/-- The interference of a contract is a preorder. -/
structure Contract.Steady {Act S O : Type} (K : Contract Act S O) : Prop where
  refl : ∀ s, K.rely s s
  trans : ∀ {a b c}, K.rely a b → K.rely b c → K.rely a c

namespace Program

variable {Act : Type} {Reply : Act → Type} {α β γ S O : Type}

def bind (p : Program Act Reply α) (next : α → Program Act Reply β) : Program Act Reply β :=
  match p with
  | .pure value => next value
  | .act action rest => .act action fun reply => (rest reply).bind next

instance : Monad (Program Act Reply) where
  pure := .pure
  bind := bind

/-- The program that performs one action and returns its reply. -/
def perform (a : Act) : Program Act Reply (Reply a) := .act a .pure

theorem pure_eq (value : α) : (Pure.pure value : Program Act Reply α) = .pure value := rfl

@[simp] theorem pure_bind' (value : α) (next : α → Program Act Reply β) :
    (Program.pure value : Program Act Reply α) >>= next = next value := rfl

@[simp] theorem act_bind (a : Act) (rest : Reply a → Program Act Reply α)
    (next : α → Program Act Reply β) :
    Program.act a rest >>= next = Program.act a fun reply => rest reply >>= next := rfl

@[simp] theorem perform_bind (a : Act) (next : Reply a → Program Act Reply β) :
    (perform a : Program Act Reply (Reply a)) >>= next = Program.act a next := rfl

/-- A program that begins with an action does so in a sequence. -/
theorem bind_acts {p : Program Act Reply α} (acts : ∃ a rest, p = .act a rest) (next : α → Program Act Reply β) :
    ∃ a rest, p >>= next = .act a rest := by
  obtain ⟨a, rest, rfl⟩ := acts
  exact ⟨a, _, rfl⟩

theorem bind_assoc' (p : Program Act Reply α) (f : α → Program Act Reply β)
    (g : β → Program Act Reply γ) : p >>= f >>= g = p >>= fun a => f a >>= g := by
  induction p with
  | pure value => rfl
  | act a rest ih =>
      simp only [act_bind]
      congr 1
      funext reply
      exact ih reply

theorem bind_pure' (p : Program Act Reply α) : p >>= Program.pure = p := by
  induction p with
  | pure value => rfl
  | act a rest ih =>
      simp only [act_bind]
      congr 1
      funext reply
      exact ih reply

/-- Every action the program can perform satisfies `P`. -/
def All (P : Act → Prop) : Program Act Reply α → Prop
  | .pure _ => True
  | .act a rest => P a ∧ ∀ reply, All P (rest reply)

theorem All.bind {P : Act → Prop} {p : Program Act Reply α} {next : α → Program Act Reply β}
    (first : p.All P) (rest : ∀ value, (next value).All P) : (p >>= next).All P := by
  induction p with
  | pure value => exact rest value
  | act a tail ih => exact ⟨first.1, fun reply => ih reply (first.2 reply)⟩

theorem All.mono {P Q : Act → Prop} {p : Program Act Reply α} (all : p.All P)
    (implies : ∀ a, P a → Q a) : p.All Q := by
  induction p with
  | pure value => trivial
  | act a tail ih => exact ⟨implies a all.1, fun reply => ih reply (all.2 reply)⟩

theorem All.perform {P : Act → Prop} {a : Act} (holds : P a) :
    (Program.perform a : Program Act Reply (Reply a)).All P := ⟨holds, fun _ => trivial⟩

/-- A `for` loop over the items with a `return` in it: `some` stops the loop, and
`none` after the last item is the loop running to its end. -/
def firstSome {ι : Type} (body : ι → Program Act Reply (Option α)) :
    List ι → Program Act Reply (Option α)
  | [] => .pure none
  | i :: rest => body i >>= fun
      | some value => .pure (some value)
      | none => firstSome body rest

theorem All.firstSome {P : Act → Prop} {ι : Type} {body : ι → Program Act Reply (Option α)}
    {items : List ι} (each : ∀ i ∈ items, (body i).All P) : (firstSome body items).All P := by
  induction items with
  | nil => trivial
  | cons i rest ih =>
      refine (each i (List.mem_cons_self ..)).bind fun r => ?_
      cases r with
      | some value => trivial
      | none => exact ih fun j member => each j (List.mem_cons_of_mem _ member)

instance : LawfulMonad (Program Act Reply) :=
  LawfulMonad.mk' _ (fun p => bind_pure' p) (fun _ _ => rfl) bind_assoc'

end Program

section Semantics

variable {Act : Type} {Reply : Act → Type} {α β S O : Type}

/-- A complete run of a program alone on a machine. -/
inductive Runs (perform : Perform Act Reply S O) (may : S → Act → O → Prop) :
    Program Act Reply α → S → α → S → Prop
  | pure (value : α) (s : S) : Runs perform may (.pure value) s value s
  | act {a : Act} {rest : Reply a → Program Act Reply α} {s s' s'' : S} {o : O} {r : Reply a}
      {value : α} (allowed : may s a o) (step : perform a o s = some (r, s'))
      (tail : Runs perform may (rest r) s' value s'') :
      Runs perform may (.act a rest) s value s''

/-- A run cut after some number of actions, with the program that is left. -/
inductive Reaches (perform : Perform Act Reply S O) (may : S → Act → O → Prop) :
    Program Act Reply α → S → Program Act Reply α → S → Prop
  | here (p : Program Act Reply α) (s : S) : Reaches perform may p s p s
  | act {a : Act} {rest : Reply a → Program Act Reply α} {s s' s'' : S} {o : O} {r : Reply a}
      {q : Program Act Reply α} (allowed : may s a o) (step : perform a o s = some (r, s'))
      (tail : Reaches perform may (rest r) s' q s'') :
      Reaches perform may (.act a rest) s q s''

/-- The safety triple. -/
def Safe (perform : Perform Act Reply S O) (K : Contract Act S O) :
    Program Act Reply α → (α → S → Prop) → S → Prop
  | .pure value, post, s => ∀ s', K.rely s s' → post value s'
  | .act a rest, post, s => ∀ s', K.rely s s' → K.must s' a ∧
      ∀ o r s'', K.may s' a o → perform a o s' = some (r, s'') →
        Safe perform K (rest r) post s''

variable {perform : Perform Act Reply S O} {K : Contract Act S O}

theorem Safe.env (steady : K.Steady) {p : Program Act Reply α} {post : α → S → Prop} {s s' : S}
    (safe : Safe perform K p post s) (moved : K.rely s s') : Safe perform K p post s' := by
  cases p with
  | pure value => exact fun t later => safe t (steady.trans moved later)
  | act a rest => exact fun t later => safe t (steady.trans moved later)

theorem Safe.weaken {p : Program Act Reply α} {post post' : α → S → Prop} {s : S}
    (safe : Safe perform K p post s) (implies : ∀ value t, post value t → post' value t) :
    Safe perform K p post' s := by
  induction p generalizing s with
  | pure value => exact fun t later => implies _ _ (safe t later)
  | act a rest ih =>
      intro t later
      obtain ⟨must, next⟩ := safe t later
      exact ⟨must, fun o r t' allowed step => ih r (next o r t' allowed step)⟩

/-- Two triples of one program hold together, with the obligations of both. -/
theorem Safe.both {must : S → Act → Prop} {p : Program Act Reply α} {post post' : α → S → Prop} {s : S}
    (safe : Safe perform K p post s) (safe' : Safe perform ⟨K.rely, must, K.may⟩ p post' s) :
    Safe perform ⟨K.rely, fun s a => K.must s a ∧ must s a, K.may⟩ p
      (fun value t => post value t ∧ post' value t) s := by
  induction p generalizing s with
  | pure value => exact fun t later => ⟨safe t later, safe' t later⟩
  | act a rest ih =>
      intro t later
      obtain ⟨here, next⟩ := safe t later
      obtain ⟨here', next'⟩ := safe' t later
      exact ⟨⟨here, here'⟩, fun o r t' allowed step => ih r (next o r t' allowed step) (next' o r t' allowed step)⟩

theorem Safe.bind (steady : K.Steady) {p : Program Act Reply α} {next : α → Program Act Reply β}
    {post : β → S → Prop} {s : S}
    (safe : Safe perform K p (fun value t => Safe perform K (next value) post t) s) :
    Safe perform K (p >>= next) post s := by
  induction p generalizing s with
  | pure value => exact safe s (steady.refl s)
  | act a rest ih =>
      intro t later
      obtain ⟨must, after⟩ := safe t later
      exact ⟨must, fun o r t' allowed step => ih r (after o r t' allowed step)⟩

/-- Sequencing with an intermediate assertion. -/
theorem Safe.seq (steady : K.Steady) {p : Program Act Reply α} {next : α → Program Act Reply β}
    {M : α → S → Prop} {post : β → S → Prop} {s : S} (first : Safe perform K p M s)
    (rest : ∀ value t, M value t → Safe perform K (next value) post t) :
    Safe perform K (p >>= next) post s :=
  (first.weaken rest).bind steady

/-- A step that keeps `I` whatever its outcome is, at every action of a program. -/
theorem Safe.all {P : Act → Prop} {I : S → Prop} (envKeeps : ∀ s t, K.rely s t → I s → I t)
    (allowed : ∀ s a, P a → I s → K.must s a)
    (keeps : ∀ a o s r t, P a → K.may s a o → perform a o s = some (r, t) → I s → I t)
    {p : Program Act Reply α} (all : p.All P) {s : S} (start : I s) :
    Safe perform K p (fun _ => I) s := by
  induction p generalizing s with
  | pure value => exact fun t later => envKeeps s t later start
  | act a rest ih =>
      intro t later
      have now := envKeeps s t later start
      exact ⟨allowed t a all.1 now, fun o r t' may step =>
        ih r (all.2 r) (keeps a o t r t' all.1 may step now)⟩

/-- The rule of loops: `I` holds whenever the items of the list are still to do. -/
theorem Safe.firstSome (steady : K.Steady) {ι : Type} {body : ι → Program Act Reply (Option α)}
    {I : List ι → S → Prop} {post : Option α → S → Prop}
    (step : ∀ i rest s, I (i :: rest) s → Safe perform K (body i)
      (fun
        | some value => fun t => ∀ t', K.rely t t' → post (some value) t'
        | none => I rest) s)
    (done : ∀ s t, I [] s → K.rely s t → post none t) {items : List ι} {s : S}
    (start : I items s) : Safe perform K (Program.firstSome body items) post s := by
  induction items generalizing s with
  | nil => exact fun t later => done s t start later
  | cons i rest ih =>
      refine Safe.seq steady (step i rest s start) fun r t holds => ?_
      cases r with
      | some value => exact fun t' later => holds t' later
      | none => exact ih holds

/-- A weaker environment and weaker obligations keep a triple. -/
theorem Safe.relax {K' : Contract Act S O} {p : Program Act Reply α} {post : α → S → Prop} {s : S}
    (safe : Safe perform K p post s) (rely : ∀ {a b}, K'.rely a b → K.rely a b)
    (must : ∀ t a, K.must t a → K'.must t a) (may : ∀ t a o, K'.may t a o → K.may t a o) :
    Safe perform K' p post s := by
  induction p generalizing s with
  | pure value => exact fun t later => safe t (rely later)
  | act a rest ih =>
      intro t later
      obtain ⟨here, next⟩ := safe t (rely later)
      exact ⟨must _ _ here, fun o r t' allowed step =>
        ih r (next o r t' (may _ _ _ allowed) step)⟩

/-- With the same obligations. -/
theorem Safe.and {p : Program Act Reply α} {post post' : α → S → Prop} {s : S}
    (safe : Safe perform K p post s) (safe' : Safe perform K p post' s) :
    Safe perform K p (fun value t => post value t ∧ post' value t) s :=
  (safe.both safe').relax id (fun _ _ both => both.1) fun _ _ _ => id

/-- A triple holds of every run. -/
theorem Safe.runs (refl : ∀ s, K.rely s s) {p : Program Act Reply α} {post : α → S → Prop}
    {s s' : S} {value : α} (safe : Safe perform K p post s)
    (run : Runs perform K.may p s value s') : post value s' := by
  induction run with
  | pure value s => exact safe s (refl s)
  | act allowed step _ ih => exact ih ((safe _ (refl _)).2 _ _ _ allowed step)

/-- A triple holds of the rest of every cut run. -/
theorem Safe.reaches (refl : ∀ s, K.rely s s) {p q : Program Act Reply α} {post : α → S → Prop}
    {s s' : S} (safe : Safe perform K p post s)
    (run : Reaches perform K.may p s q s') : Safe perform K q post s' := by
  induction run with
  | here p s => exact safe
  | act allowed step _ ih => exact ih ((safe _ (refl _)).2 _ _ _ allowed step)

/-- In a run of a safe program every action is performed where it must be. -/
theorem Safe.runs_must (refl : ∀ s, K.rely s s) {p : Program Act Reply α} {post : α → S → Prop}
    {s s' : S} {value : α} (safe : Safe perform K p post s) (run : Runs perform K.may p s value s') :
    Runs perform (fun s a o => K.may s a o ∧ K.must s a) p s value s' := by
  induction run with
  | pure value s => exact .pure value s
  | act allowed step _ ih =>
      obtain ⟨here, next⟩ := safe _ (refl _)
      exact .act ⟨allowed, here⟩ step (ih (next _ _ _ allowed step))

/-- Some outcome allowed by `may` is enabled. -/
def Enabled (perform : Perform Act Reply S O) (may : S → Act → O → Prop) (s : S) (a : Act) :
    Prop :=
  ∃ o r s', may s a o ∧ perform a o s = some (r, s')

/-- A triple whose every action is enabled has a run. -/
theorem Safe.total (refl : ∀ s, K.rely s s)
    (live : ∀ s a, K.must s a → Enabled perform K.may s a) {p : Program Act Reply α}
    {post : α → S → Prop} {s : S} (safe : Safe perform K p post s) :
    ∃ value s', Runs perform K.may p s value s' ∧ post value s' := by
  induction p generalizing s with
  | pure value => exact ⟨value, s, .pure value s, safe s (refl s)⟩
  | act a rest ih =>
      obtain ⟨here, next⟩ := safe s (refl s)
      obtain ⟨o, r, t, allowed, step⟩ := live s a here
      obtain ⟨value, t', run, holds⟩ := ih r (next o r t allowed step)
      exact ⟨value, t', .act allowed step run, holds⟩

theorem runs_bind_iff {may : S → Act → O → Prop} {p : Program Act Reply α}
    {next : α → Program Act Reply β} {s s'' : S} {value : β} :
    Runs perform may (p >>= next) s value s'' ↔
      ∃ mid s', Runs perform may p s mid s' ∧ Runs perform may (next mid) s' value s'' := by
  constructor
  · intro run
    induction p generalizing s with
    | pure mid => exact ⟨mid, s, .pure mid s, run⟩
    | act a rest ih =>
        cases run with
        | act allowed step tail =>
            obtain ⟨mid, s', first, second⟩ := ih _ tail
            exact ⟨mid, s', .act allowed step first, second⟩
  · rintro ⟨mid, s', first, second⟩
    induction first with
    | pure mid s => exact second
    | act allowed step _ ih => exact .act allowed step (ih second)

/-- Some cut run leaves a program and a state with `P`. -/
def Leads (perform : Perform Act Reply S O) (may : S → Act → O → Prop)
    (P : Program Act Reply α → S → Prop) (p : Program Act Reply α) (s : S) : Prop :=
  ∃ q s', Reaches perform may p s q s' ∧ P q s'

section Leads

variable {may : S → Act → O → Prop} {P : Program Act Reply α → S → Prop}
variable {Q : Program Act Reply β → S → Prop}

theorem Leads.here {p : Program Act Reply α} {s : S} (holds : P p s) : Leads perform may P p s :=
  ⟨p, s, .here p s, holds⟩

theorem Leads.act {a : Act} {rest : Reply a → Program Act Reply α} {s u : S} (o : O) {r : Reply a}
    (allowed : may s a o) (step : perform a o s = some (r, u))
    (tail : Leads perform may P (rest r) u) : Leads perform may P (.act a rest) s := by
  obtain ⟨q, t, reach, holds⟩ := tail
  exact ⟨q, t, .act allowed step reach, holds⟩

/-- The first part of a sequence is complete. -/
theorem Leads.seq {p : Program Act Reply α} {next : α → Program Act Reply β} {s s' : S} {value : α}
    (first : Runs perform may p s value s') (rest : Leads perform may Q (next value) s') :
    Leads perform may Q (p >>= next) s := by
  induction first with
  | pure value s => exact rest
  | act allowed step _ ih => exact Leads.act _ allowed step (ih rest)

/-- Cutting the first part of a sequence. -/
theorem Leads.bind {p : Program Act Reply α} {next : α → Program Act Reply β} {s : S}
    (first : Leads perform may P p s) (keeps : ∀ q t, P q t → Q (q >>= next) t) :
    Leads perform may Q (p >>= next) s := by
  obtain ⟨q, t, reach, holds⟩ := first
  refine ⟨q >>= next, t, ?_, keeps q t holds⟩
  clear holds
  induction reach with
  | here p s => exact .here _ _
  | act allowed step _ ih => exact .act allowed step ih

end Leads

section Calls

variable {γ : Type} {may : S → Act → O → Prop}

theorem Reaches.trans {p q r : Program Act Reply α} {s s' s'' : S}
    (first : Reaches perform may p s q s') (second : Reaches perform may q s' r s'') :
    Reaches perform may p s r s'' := by
  induction first with
  | here p s => exact second
  | act allowed step _ ih => exact .act allowed step (ih second)

theorem Reaches.bind {p q : Program Act Reply α} {s s' : S}
    (run : Reaches perform may p s q s') (next : α → Program Act Reply β) :
    Reaches perform may (p >>= next) s (q >>= next) s' := by
  induction run with
  | here p s => exact .here _ _
  | act allowed step _ ih => exact .act allowed step ih

theorem Runs.reaches {p : Program Act Reply α} {s s' : S} {value : α}
    (run : Runs perform may p s value s') : Reaches perform may p s (.pure value) s' := by
  induction run with
  | pure value s => exact .here _ _
  | act allowed step _ ih => exact .act allowed step ih

/-- Behind a complete first part. -/
theorem Runs.then_reaches {p : Program Act Reply α} {next : α → Program Act Reply β} {q : Program Act Reply β}
    {s s' s'' : S} {value : α} (first : Runs perform may p s value s')
    (rest : Reaches perform may (next value) s' q s'') : Reaches perform may (p >>= next) s q s'' :=
  (first.reaches.bind _).trans rest

/-- What is kept holds at every action of a run. -/
theorem Reaches.keeps {may' : S → Act → O → Prop} {P : Act → Prop} {J : S → Prop}
    (keeps : ∀ {a o r t t'}, P a → J t → perform a o t = some (r, t') → J t')
    (sub : ∀ t a o, may t a o → P a → J t → may' t a o) {p q : Program Act Reply α} {s s' : S} (all : p.All P)
    (start : J s) (run : Reaches perform may p s q s') : Reaches perform may' p s q s' ∧ J s' := by
  induction run with
  | here p s => exact ⟨.here p s, start⟩
  | act allowed step _ ih =>
      obtain ⟨tail, last⟩ := ih (all.2 _) (keeps all.1 start step)
      exact ⟨.act (sub _ _ _ allowed all.1 start) step tail, last⟩

/-- A cut run that has nothing left is complete. -/
theorem Reaches.runs {p : Program Act Reply α} {s s' : S} {value : α}
    (run : Reaches perform may p s (.pure value) s') : Runs perform may p s value s' := by
  generalize done : Program.pure value = q at run
  induction run with
  | here p s =>
      subst done
      exact .pure value s
  | act allowed step _ ih => exact .act allowed step (ih done)

/-- A sequence that is cut before an action is cut in its first part or behind it. -/
theorem reaches_bind {p : Program Act Reply α} {next : α → Program Act Reply β} {s s' : S} {a : Act}
    {rest : Reply a → Program Act Reply β}
    (run : Reaches perform may (p >>= next) s (.act a rest) s') :
    (∃ rest', Reaches perform may p s (.act a rest') s') ∨
      ∃ mid t, Runs perform may p s mid t ∧ Reaches perform may (next mid) t (.act a rest) s' := by
  induction p generalizing s with
  | pure value => exact .inr ⟨value, s, .pure value s, run⟩
  | act b tail ih =>
      cases run with
      | here => exact .inl ⟨tail, .here _ _⟩
      | act allowed step later =>
          rcases ih _ later with ⟨rest', reach⟩ | ⟨mid, t, first, second⟩
          · exact .inl ⟨rest', .act allowed step reach⟩
          · exact .inr ⟨mid, t, .act allowed step first, second⟩

/-- `p` is about to perform `a`, inside its call of `call`. -/
def PerformsIn (perform : Perform Act Reply S O) (may : S → Act → O → Prop)
    (call : Program Act Reply γ) (p : Program Act Reply α) (s : S) (a : Act) (s' : S) : Prop :=
  ∃ next t rest, Reaches perform may p s (call >>= next) t ∧
    Reaches perform may call t (.act a rest) s'

/-- Every action with `P` that `p` performs belongs to one of its `calls`. -/
def OnlyIn (perform : Perform Act Reply S O) (may : S → Act → O → Prop)
    (calls : Program Act Reply γ → Prop) (P : Act → Prop) (p : Program Act Reply α) (s : S) : Prop :=
  ∀ a rest s', Reaches perform may p s (.act a rest) s' → P a →
    ∃ call, calls call ∧ PerformsIn perform may call p s a s'

variable {calls : Program Act Reply γ → Prop} {P : Act → Prop}

theorem OnlyIn.bind {p : Program Act Reply α} {next : α → Program Act Reply β} {s : S}
    (first : OnlyIn perform may calls P p s)
    (rest : ∀ mid t, Runs perform may p s mid t → OnlyIn perform may calls P (next mid) t) :
    OnlyIn perform may calls P (p >>= next) s := by
  intro a tail s' run holds
  rcases reaches_bind run with ⟨rest', reach⟩ | ⟨mid, t, done, reach⟩
  · obtain ⟨call, isCall, after, u, rest'', before, inside⟩ := first a rest' s' reach holds
    refine ⟨call, isCall, fun value => after value >>= next, u, rest'', ?_, inside⟩
    have whole := before.bind next
    rwa [Program.bind_assoc'] at whole
  · obtain ⟨call, isCall, after, u, rest'', before, inside⟩ := rest mid t done a tail s' reach holds
    exact ⟨call, isCall, after, u, rest'', (done.reaches.bind next).trans before, inside⟩

theorem Reaches.all {P : Act → Prop} {p q : Program Act Reply α} {s s' : S}
    (run : Reaches perform may p s q s') (all : p.All P) : q.All P := by
  induction run with
  | here p s => exact all
  | act _ _ _ ih => exact ih (all.2 _)

/-- A program without such actions. -/
theorem OnlyIn.of_all {p : Program Act Reply α} {s : S} (all : p.All fun a => ¬ P a) :
    OnlyIn perform may calls P p s := by
  intro a tail s' run holds
  exact absurd holds (run.all all).1

theorem OnlyIn.self {call : Program Act Reply γ} {s : S} (isCall : calls call) :
    OnlyIn perform may calls P call s := by
  intro a rest s' run _
  refine ⟨call, isCall, .pure, s, rest, ?_, run⟩
  rw [Program.bind_pure']
  exact .here _ _

end Calls

theorem Runs.mono {may may' : S → Act → O → Prop} {p : Program Act Reply α} {s s' : S} {value : α}
    (run : Runs perform may p s value s') (le : ∀ t a o, may t a o → may' t a o) :
    Runs perform may' p s value s' := by
  induction run with
  | pure value s => exact .pure value s
  | act allowed step _ ih => exact .act (le _ _ _ allowed) step ih

end Semantics

end FpgaSsd.Lib
