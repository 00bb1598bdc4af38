/-
# Lib.Renewal — uses with a renewal between any two

In a log of events, some are uses and some are renewals.

* `Renewed use renew log` — between any two uses there is a renewal;
* `Spent use renew log` — there is a use that no renewal follows;
* `renewed_concat`, `spent_concat` — what one more event changes.
-/
import Mathlib.Tactic.Common

namespace FpgaSsd.Lib

set_option autoImplicit false

section Renewal

variable {E : Type} {use renew : E → Prop} {log : List E} {e : E}

/-- Between two uses there is a renewal. -/
def Renewed (use renew : E → Prop) (log : List E) : Prop :=
  ∀ first e between e' last, log = first ++ e :: (between ++ e' :: last) → use e → use e' →
    ∃ x ∈ between, renew x

/-- The last use is not followed by a renewal. -/
def Spent (use renew : E → Prop) (log : List E) : Prop :=
  ∃ first e last, log = first ++ e :: last ∧ use e ∧ ∀ x ∈ last, ¬ renew x

theorem renewed_nil : Renewed use renew [] := by
  intro first e between e' last eq
  cases first <;> cases eq

theorem not_spent_nil : ¬ Spent use renew [] := by
  rintro ⟨first, e, last, eq, -⟩
  cases first <;> cases eq

/-- A list that ends in `e` and has `x` in it ends in `x`, or in `e` behind it. -/
theorem concat_eq_append {x : E} {first last : List E} (eq : log ++ [e] = first ++ x :: last) :
    (last = [] ∧ x = e ∧ log = first) ∨ ∃ rest, last = rest ++ [e] ∧ log = first ++ x :: rest := by
  rcases List.eq_nil_or_concat last with rfl | ⟨rest, y, rfl⟩
  · obtain ⟨same, tail⟩ := List.append_inj' eq rfl
    exact .inl ⟨rfl, (List.cons.inj tail).1.symm, same⟩
  · rw [List.concat_eq_append, ← List.cons_append, ← List.append_assoc] at eq
    obtain ⟨same, tail⟩ := List.append_inj' eq rfl
    obtain rfl : e = y := (List.cons.inj tail).1
    exact .inr ⟨rest, by rw [List.concat_eq_append], same⟩

theorem spent_concat : Spent use renew (log ++ [e]) ↔ use e ∨ Spent use renew log ∧ ¬ renew e := by
  constructor
  · rintro ⟨first, x, last, eq, uses, none⟩
    rcases concat_eq_append eq with ⟨rfl, rfl, -⟩ | ⟨rest, rfl, same⟩
    · exact .inl uses
    · refine .inr ⟨⟨first, x, rest, same, uses, fun y member => ?_⟩, ?_⟩
      · exact none y (List.mem_append_left _ member)
      · exact none e (List.mem_append_right _ (List.mem_singleton_self e))
  · rintro (uses | ⟨⟨first, x, last, rfl, uses, none⟩, fresh⟩)
    · exact ⟨log, e, [], rfl, uses, fun x member => absurd member List.not_mem_nil⟩
    · refine ⟨first, x, last ++ [e], by rw [List.append_assoc, List.cons_append], uses, ?_⟩
      intro y member
      rcases List.mem_append.1 member with old | new
      · exact none y old
      · rwa [List.mem_singleton.1 new]

theorem renewed_concat (renewed : Renewed use renew log) (fresh : use e → ¬ Spent use renew log) :
    Renewed use renew (log ++ [e]) := by
  intro first x between x' last eq uses uses'
  have split : log ++ [e] = (first ++ x :: between) ++ x' :: last := by
    rw [eq, List.append_assoc, List.cons_append]
  rcases concat_eq_append split with ⟨-, rfl, same⟩ | ⟨rest, -, same⟩
  · -- the later use is the new event
    by_contra none
    refine fresh uses' ⟨first, x, between, same, uses, fun y member renews => ?_⟩
    exact none ⟨y, member, renews⟩
  · refine renewed first x between x' rest ?_ uses uses'
    rw [same, List.append_assoc, List.cons_append]

end Renewal

end FpgaSsd.Lib
