/-
# Lib.Embedding — a program as a part of a larger machine

`Program.embed` reads a program over the actions `Act` as one over the actions `Act'`:
`name` says which action it is there, and `back` what its reply says here.

* `Safe.embed` — what a triple promises, the larger machine keeps;
* `Runs.embed` — every run is a run there.
-/
import FpgaSsd.Lib.Program

namespace FpgaSsd.Lib

set_option autoImplicit false

section Embedding

variable {Act Act' : Type} {Reply : Act → Type} {Reply' : Act' → Type} {α S O : Type}
variable (name : Act → Act') (back : (a : Act) → Reply' (name a) → Reply a)

def Program.embed : Program Act Reply α → Program Act' Reply' α
  | .pure value => .pure value
  | .act a rest => .act (name a) fun r => Program.embed (rest (back a r))

variable {name back}
variable {perform : Perform Act Reply S O} {perform' : Perform Act' Reply' S O}
variable {K : Contract Act S O} {K' : Contract Act' S O}

/-- **A triple of the part** is a triple of the whole. -/
theorem Safe.embed (rely : ∀ {s t}, K'.rely s t → K.rely s t)
    (must : ∀ s a, K.must s a → K'.must s (name a)) (may : ∀ s a o, K'.may s (name a) o → K.may s a o)
    (step : ∀ a o s r t, perform' (name a) o s = some (r, t) → perform a o s = some (back a r, t))
    {p : Program Act Reply α} {post : α → S → Prop} {s : S} (safe : Safe perform K p post s) :
    Safe perform' K' (p.embed name back) post s := by
  induction p generalizing s with
  | pure value => exact fun t later => safe t (rely later)
  | act a rest ih =>
      intro t later
      obtain ⟨here, next⟩ := safe t (rely later)
      refine ⟨must t a here, fun o r u allowed acted => ?_⟩
      exact ih _ (next o _ u (may t a o allowed) (step a o t r u acted))

/-- **A run of the part** is a run of the whole. -/
theorem Runs.embed {may : S → Act → O → Prop} {may' : S → Act' → O → Prop}
    (allow : ∀ s a o, may s a o → may' s (name a) o)
    (step : ∀ a o s r t, perform a o s = some (r, t) → ∃ r', back a r' = r ∧ perform' (name a) o s = some (r', t))
    {p : Program Act Reply α} {s t : S} {value : α} (run : Runs perform may p s value t) :
    Runs perform' may' (p.embed name back) s value t := by
  induction run with
  | pure value s => exact .pure value s
  | act allowed acted _ ih =>
      obtain ⟨r', rfl, acted'⟩ := step _ _ _ _ _ acted
      exact .act (allow _ _ _ allowed) acted' ih

end Embedding

end FpgaSsd.Lib
