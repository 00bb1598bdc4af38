/-
# Lib.Machine — machines that take inputs

A machine is its `next` state function. `Reach next sound s t` says that inputs
which are `sound` where they are taken lead from `s` to `t`.

* `Reach.invariant` — what holds at the start and is kept holds of every state;
* `Reach.exact` — where an invariant makes soundness of the next input necessary and
  sufficient for a property of it, it is so after every run.
-/
import Mathlib.Init

namespace FpgaSsd.Lib

set_option autoImplicit false

section Machine

variable {S C : Type} {next : S → C → S} {sound : S → C → Prop} {s t : S}

inductive Reach (next : S → C → S) (sound : S → C → Prop) (s : S) : S → Prop
  | here : Reach next sound s s
  | step {t : S} (before : Reach next sound s t) (c : C) (allowed : sound t c) :
      Reach next sound s (next t c)

theorem Reach.invariant {I : S → Prop} (start : I s)
    (keeps : ∀ t c, I t → sound t c → I (next t c)) (run : Reach next sound s t) : I t := by
  induction run with
  | here => exact start
  | step _ c allowed ih => exact keeps _ c ih allowed

theorem Reach.exact {I : S → Prop} {P : S → C → Prop} (start : I s)
    (keeps : ∀ t c, I t → sound t c → I (next t c)) (exact : ∀ t c, I t → (P t c ↔ sound t c))
    (run : Reach next sound s t) (c : C) : P t c ↔ sound t c :=
  exact t c (run.invariant start keeps)

end Machine

end FpgaSsd.Lib
