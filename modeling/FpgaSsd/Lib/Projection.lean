/-
# Lib.Projection — triples on the part of a state that matters

Most programs change little of the machine they run on. `Via proj must may p post
v` is the safety triple of a program without interference, read through a
projection `proj` of the state: its obligation, which may depend on the action,
its assertions and its start are about the projected value only.

* `Via.pure`, `Via.seq`, `Via.act`, `Via.weaken`, `Via.relax` are its rules;
* `Via.still` is the rule of a program whose actions do not move the projection;
* `Via.runs` and `Via.reaches` say what it means for complete runs and for cut ones.
-/
import FpgaSsd.Lib.Program

namespace FpgaSsd.Lib

set_option autoImplicit false

section Projection

variable {Act : Type} {Reply : Act → Type} {α β S O V : Type}

/-- The triple of `p` from every state that projects to `v`. -/
def Via (perform : Perform Act Reply S O) (proj : S → V) (must : V → Act → Prop)
    (may : S → Act → O → Prop) (p : Program Act Reply α) (post : α → V → Prop) (v : V) : Prop :=
  ∀ s, proj s = v →
    Safe perform ⟨Eq, fun s a => must (proj s) a, may⟩ p (fun value s' => post value (proj s')) s

namespace Via

variable {perform : Perform Act Reply S O} {proj : S → V} {must : V → Act → Prop}
variable {may : S → Act → O → Prop} {v : V}

theorem pure {value : α} {post : α → V → Prop} (holds : post value v) :
    Via perform proj must may (.pure value) post v := by
  intro s shows s' same
  subst same
  subst shows
  exact holds

theorem weaken {p : Program Act Reply α} {post post' : α → V → Prop}
    (triple : Via perform proj must may p post v)
    (implies : ∀ value v', post value v' → post' value v') :
    Via perform proj must may p post' v :=
  fun s shows => (triple s shows).weaken fun value _ => implies value _

theorem seq {p : Program Act Reply α} {next : α → Program Act Reply β} {M : α → V → Prop}
    {post : β → V → Prop} (first : Via perform proj must may p M v)
    (rest : ∀ value v', M value v' → Via perform proj must may (next value) post v') :
    Via perform proj must may (p >>= next) post v := by
  intro s shows
  refine Safe.seq ⟨fun _ => rfl, Eq.trans⟩ (first s shows) fun value s' holds => ?_
  exact rest value _ holds s' rfl

/-- Stronger obligations imply weaker ones. -/
theorem relax {must' : V → Act → Prop} {p : Program Act Reply α} {post : α → V → Prop}
    (triple : Via perform proj must may p post v) (implies : ∀ v a, must v a → must' v a) :
    Via perform proj must' may p post v :=
  fun s shows => (triple s shows).relax id (fun _ _ => implies _ _) fun _ _ _ => id

/-- One action. -/
theorem act {a : Act} {post : Reply a → V → Prop} (here : must v a)
    (each : ∀ s o r s', proj s = v → may s a o → perform a o s = some (r, s') → post r (proj s')) :
    Via perform proj must may (Program.perform a) post v := by
  intro s shows s' same
  subst same
  subst shows
  refine ⟨here, fun o r s' allowed step s'' same => ?_⟩
  subst same
  exact each s o r s' rfl allowed step

/-- A program of actions that do not move the projection. -/
theorem still {P : Act → Prop} {p : Program Act Reply α} (all : p.All P)
    (allowed : ∀ a, P a → must v a)
    (keeps : ∀ s a o r s', P a → perform a o s = some (r, s') → proj s' = proj s) :
    Via perform proj must may p (fun _ v' => v' = v) v := by
  intro s shows
  refine Safe.all (I := fun s => proj s = v) ?_ ?_ ?_ all shows
  · intro s s' same shows
    rwa [← same]
  · intro s a permitted shows
    rw [← shows] at allowed
    exact allowed a permitted
  · intro a o s r s' permitted _ step shows
    rw [keeps s a o r s' permitted step, shows]

/-- What a triple says of a complete run. -/
theorem runs {p : Program Act Reply α} {post : α → V → Prop} {s s' : S} {value : α}
    (triple : Via perform proj must may p post (proj s)) (run : Runs perform may p s value s') :
    post value (proj s') := by
  have holds := Safe.runs (fun _ => rfl) (triple s rfl) run
  exact holds

/-- What it says of a run that is cut before an action. -/
theorem reaches {p : Program Act Reply α} {post : α → V → Prop} {s s' : S} {a : Act}
    {rest : Reply a → Program Act Reply α} (triple : Via perform proj must may p post (proj s))
    (run : Reaches perform may p s (.act a rest) s') : must (proj s') a := by
  have safe := Safe.reaches (fun _ => rfl) (triple s rfl) run
  exact (safe s' rfl).1

end Via

end Projection

end FpgaSsd.Lib
