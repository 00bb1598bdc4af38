/-
# Lib.Twin — two runs of one program

A relational triple for programs: `Twin perform allow p post s t` says that every run of
`p` from `s` whose outcomes `allow` permits has a twin from `t`, with the same outcomes
and the same replies, and that the two end as `post` says.

* `Twin.seq`, `Twin.action` — the rules of sequencing and of one action;
* `Twin.runs` — what a twin says of complete runs: the same value from the other state.
-/
import FpgaSsd.Lib.Program

namespace FpgaSsd.Lib

set_option autoImplicit false

section Twin

variable {Act : Type} {Reply : Act → Type} {α β S O : Type}

/-- The relational triple. `allow` does not see the state, so one choice of outcomes
drives both runs. -/
def Twin (perform : Perform Act Reply S O) (allow : Act → O → Prop) :
    Program Act Reply α → (α → S → S → Prop) → S → S → Prop
  | .pure value, post, s, t => post value s t
  | .act a rest, post, s, t => ∀ o r s', allow a o → perform a o s = some (r, s') →
      ∃ t', perform a o t = some (r, t') ∧ Twin perform allow (rest r) post s' t'

variable {perform : Perform Act Reply S O} {allow : Act → O → Prop} {s t s' : S}

theorem Twin.action {a : Act} {post : Reply a → S → S → Prop}
    (each : ∀ o r s', allow a o → perform a o s = some (r, s') →
      ∃ t', perform a o t = some (r, t') ∧ post r s' t') :
    Twin perform allow (Program.perform a) post s t := each

/-- Sequencing with an intermediate relation. -/
theorem Twin.seq {p : Program Act Reply α} {next : α → Program Act Reply β}
    {M : α → S → S → Prop} {post : β → S → S → Prop} (first : Twin perform allow p M s t)
    (rest : ∀ value s t, M value s t → Twin perform allow (next value) post s t) :
    Twin perform allow (p >>= next) post s t := by
  induction p generalizing s t with
  | pure value => exact rest value s t first
  | act a tail ih =>
      intro o r s' allowed step
      obtain ⟨t', step', after⟩ := first o r s' allowed step
      exact ⟨t', step', ih r after⟩

/-- A run has a twin that returns the same value. -/
theorem Twin.runs {p : Program Act Reply α} {post : α → S → S → Prop} {value : α}
    (twin : Twin perform allow p post s t) (run : Runs perform (fun _ => allow) p s value s') :
    ∃ t', Runs perform (fun _ => allow) p t value t' ∧ post value s' t' := by
  induction run generalizing t with
  | pure value s => exact ⟨t, .pure value t, twin⟩
  | act allowed step _ ih =>
      obtain ⟨t1, step', after⟩ := twin _ _ _ allowed step
      obtain ⟨t', run', holds⟩ := ih after
      exact ⟨t', .act allowed step' run', holds⟩

end Twin

end FpgaSsd.Lib
