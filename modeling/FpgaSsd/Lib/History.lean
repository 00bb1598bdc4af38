/-
# Lib.History — machines with a history variable

`recorded perform record` is a machine that also keeps a value that no action of
a program ever reads: `record` says what each action and its reply do to it.

* `recorded_eq_some` — a step is a step of the machine, and the value is determined;
* `Runs.withHistory`, `Reaches.withHistory`, `Runs.forget` — every run of the machine has a
  history, and back;
* `Runs.mapHistory` — a run goes the same way behind any history;
* `Traced` — the triple whose postcondition sees the history; `Traced.quiet` and
  `Traced.unrecorded` carry a triple of the machine over to it where no action is recorded.
-/
import FpgaSsd.Lib.Program

namespace FpgaSsd.Lib

set_option autoImplicit false

section History

variable {Act : Type} {Reply : Act → Type} {α S G O : Type}

/-- The machine with a history; `record` sees the states before and behind the action. -/
def recorded (perform : Perform Act Reply S O) (record : (a : Act) → Reply a → S → S → G → G) :
    Perform Act Reply (S × G) O := fun a o s =>
  (perform a o s.1).map fun (r, t) => (r, t, record a r s.1 t s.2)

variable {perform : Perform Act Reply S O} {record : (a : Act) → Reply a → S → S → G → G}
variable {may : S → Act → O → Prop} {p : Program Act Reply α}

theorem recorded_eq_some {a : Act} {o : O} {r : Reply a} {s s' : S × G} :
    recorded perform record a o s = some (r, s') ↔
      perform a o s.1 = some (r, s'.1) ∧ s'.2 = record a r s.1 s'.1 s.2 := by
  obtain ⟨t, g⟩ := s'
  constructor
  · intro step
    obtain ⟨⟨r', t'⟩, acted, eq⟩ := Option.map_eq_some_iff.1 step
    cases eq
    exact ⟨acted, rfl⟩
  · rintro ⟨acted, told⟩
    refine Option.map_eq_some_iff.2 ⟨(r, t), acted, ?_⟩
    rw [show g = _ from told]

/-- Every run is a run with some history. -/
theorem Runs.withHistory (record : (a : Act) → Reply a → S → S → G → G) {s s' : S} {value : α}
    (run : Runs perform may p s value s') (g : G) :
    ∃ g', Runs (recorded perform record) (fun s => may s.1) p (s, g) value (s', g') := by
  induction run generalizing g with
  | pure value s => exact ⟨g, .pure value (s, g)⟩
  | @act a rest s s' s'' o r value allowed step _ ih =>
      obtain ⟨g', tail⟩ := ih (record a r s s' g)
      exact ⟨g', .act allowed (recorded_eq_some.2 ⟨step, rfl⟩) tail⟩

/-- The same of a cut run, with an invariant of the history. -/
theorem Reaches.withHistory (record : (a : Act) → Reply a → S → S → G → G) {may' : S × G → Act → O → Prop}
    {I : G → Prop} {q : Program Act Reply α} {s s' : S}
    (sub : ∀ s a o, may s.1 a o → I s.2 → may' s a o)
    (told : ∀ {a o r t u g}, may t a o → perform a o t = some (r, u) → I g → I (record a r t u g))
    (run : Reaches perform may p s q s') {g : G} (start : I g) :
    ∃ g', Reaches (recorded perform record) may' p (s, g) q (s', g') ∧ I g' := by
  induction run generalizing g with
  | here p s => exact ⟨g, .here p (s, g), start⟩
  | @act a rest s s' s'' o r q allowed step _ ih =>
      obtain ⟨g', tail, last⟩ := ih (told allowed step start)
      exact ⟨g', .act (sub (s, g) a o allowed start) (recorded_eq_some.2 ⟨step, rfl⟩) tail, last⟩

/-- A run with a history is a run. -/
theorem Runs.forget {record : (a : Act) → Reply a → S → S → G → G} {s s' : S × G} {value : α}
    (run : Runs (recorded perform record) (fun s => may s.1) p s value s') :
    Runs perform may p s.1 value s'.1 := by
  induction run with
  | pure value s => exact .pure value s.1
  | act allowed step _ ih => exact .act allowed (recorded_eq_some.1 step).1 ih

/-- A run goes the same way with another history, where recording commutes with `f`. -/
theorem Runs.mapHistory {record : (a : Act) → Reply a → S → S → G → G} {s s' : S × G} {value : α} (f : G → G)
    (commutes : ∀ a r t u g, record a r t u (f g) = f (record a r t u g))
    (run : Runs (recorded perform record) (fun s => may s.1) p s value s') :
    Runs (recorded perform record) (fun s => may s.1) p (s.1, f s.2) value (s'.1, f s'.2) := by
  induction run with
  | pure value s => exact .pure value _
  | @act a rest s t u o r value allowed step _ ih =>
      obtain ⟨acted, told⟩ := recorded_eq_some.1 step
      have continued : recorded perform record a o (s.1, f s.2) = some (r, (t.1, f t.2)) := by
        refine recorded_eq_some.2 ⟨acted, ?_⟩
        show f t.2 = record a r s.1 t.1 (f s.2)
        rw [told, commutes]
      exact .act allowed continued ih

/-! ## Triples -/

/-- Alone on the machine, with the history `g` so far. -/
def Traced (perform : Perform Act Reply S O) (record : (a : Act) → Reply a → S → S → G → G)
    (may : S → Act → O → Prop) (p : Program Act Reply α) (post : α → S → G → Prop) (s : S) (g : G) : Prop :=
  Safe (recorded perform record) ⟨Eq, fun _ _ => True, fun s => may s.1⟩ p
    (fun value t => post value t.1 t.2) (s, g)

namespace Traced

variable {β : Type} {s s' : S} {g g' : G} {q : Program Act Reply α}

theorem pure {value : α} {post : α → S → G → Prop} (holds : post value s g) :
    Traced perform record may (Program.pure value) post s g := by
  rintro t rfl
  exact holds

theorem weaken {post post' : α → S → G → Prop} (traced : Traced perform record may q post s g)
    (implies : ∀ value t h, post value t h → post' value t h) : Traced perform record may q post' s g :=
  Safe.weaken traced fun value t => implies value t.1 t.2

theorem seq {next : α → Program Act Reply β} {M : α → S → G → Prop} {post : β → S → G → Prop}
    (first : Traced perform record may q M s g)
    (rest : ∀ value t h, M value t h → Traced perform record may (next value) post t h) :
    Traced perform record may (q >>= next) post s g :=
  Safe.seq ⟨fun _ => rfl, Eq.trans⟩ first fun value t => rest value t.1 t.2

theorem action {a : Act} {post : Reply a → S → G → Prop}
    (each : ∀ o r t, may s a o → perform a o s = some (r, t) → post r t (record a r s t g)) :
    Traced perform record may (Program.perform a) post s g := by
  rintro t rfl
  refine ⟨trivial, fun o r t allowed step => ?_⟩
  obtain ⟨acted, told⟩ := recorded_eq_some.1 step
  rintro u rfl
  show post r t.1 t.2
  rw [told]
  exact each o r t.1 allowed acted

/-- The history stays where the obligation of a triple lets nothing be recorded. -/
theorem unrecorded {must : S → Act → Prop} {post : α → S → Prop}
    (none : ∀ s a, must s a → ∀ r t u h, record a r t u h = h)
    (safe : Safe perform ⟨Eq, must, may⟩ q post s) :
    Traced perform record may q (fun value t h => post value t ∧ h = g) s g := by
  induction q generalizing s with
  | pure value =>
      rintro t rfl
      exact ⟨safe s rfl, rfl⟩
  | act a rest ih =>
      rintro t rfl
      refine ⟨trivial, fun o r t allowed step => ?_⟩
      obtain ⟨acted, told⟩ := recorded_eq_some.1 step
      obtain ⟨u, h⟩ := t
      obtain rfl : h = g := told.trans (none s a (safe s rfl).1 r s u g)
      exact ih r ((safe s rfl).2 o r u allowed acted)

/-- Where nothing is recorded the history stays. -/
theorem quiet {post : α → S → Prop} (all : q.All fun a => ∀ r t u h, record a r t u h = h)
    (safe : Safe perform ⟨Eq, fun _ _ => True, may⟩ q post s) :
    Traced perform record may q (fun value t h => post value t ∧ h = g) s g := by
  induction q generalizing s with
  | pure value =>
      rintro t rfl
      exact ⟨safe s rfl, rfl⟩
  | act a rest ih =>
      rintro t rfl
      refine ⟨trivial, fun o r t allowed step => ?_⟩
      obtain ⟨acted, told⟩ := recorded_eq_some.1 step
      obtain ⟨u, h⟩ := t
      obtain rfl : h = g := told.trans (all.1 r s u g)
      exact ih r (all.2 r) ((safe s rfl).2 o r u allowed acted)

theorem runs {value : α} {post : α → S → G → Prop} (traced : Traced perform record may q post s g)
    (run : Runs (recorded perform record) (fun s => may s.1) q (s, g) value (s', g')) :
    post value s' g' := by
  have safe : Safe (recorded perform record) ⟨Eq, fun _ _ => True, fun s => may s.1⟩ q
    (fun value t => post value t.1 t.2) (s, g) := traced
  exact safe.runs (fun _ => rfl) run

end Traced

end History

end FpgaSsd.Lib
