/-
# Lib.Fence — what a program may do next, as long as it is told the truth

Some replies are known: a cell that nothing changes answers with what it holds. A fence says
which replies a program may be told, and what it may do next: an action, and how what follows
may depend on the reply.

* `Program.Fenced` — every action of a program is allowed, and its value is as expected;
* `Fenced.bind`, `Fenced.firstSome` — the rules for sequences and loops;
* `Fenced.reaches` — in a run whose states tell the truth, what is left is fenced.
-/
import FpgaSsd.Lib.Program

namespace FpgaSsd.Lib

set_option autoImplicit false

/-- The replies that are known, and what is allowed next. -/
structure Fence (Act : Type) (Reply : Act → Type) where
  told : (a : Act) → Reply a → Prop
  allows : {α : Type} → (a : Act) → (Reply a → Program Act Reply α) → Prop
  bind : ∀ {α β : Type} {a : Act} {rest : Reply a → Program Act Reply α} (next : α → Program Act Reply β),
    allows a rest → allows a fun reply => rest reply >>= next

section Fences

variable {Act : Type} {Reply : Act → Type} {α β ι S O : Type} {F : Fence Act Reply}
variable {perform : Perform Act Reply S O} {I : S → Prop}

def Program.Fenced (F : Fence Act Reply) (post : α → Prop) : Program Act Reply α → Prop
  | .pure value => post value
  | .act a rest => F.allows a rest ∧ ∀ reply, F.told a reply → (rest reply).Fenced F post

/-- The actions that a fence allows keep `I`, and where it holds the replies are true. -/
def Fence.Truthful (F : Fence Act Reply) (perform : Perform Act Reply S O) (I : S → Prop) : Prop :=
  ∀ {α : Type} {a : Act} {rest : Reply a → Program Act Reply α} {o : O} {s s' : S} {reply : Reply a},
    I s → F.allows a rest → perform a o s = some (reply, s') → F.told a reply ∧ I s'

namespace Program

variable {post : α → Prop} {p q : Program Act Reply α}

/-- A sequence is fenced when its first part is, and what follows is for each of its values. -/
theorem Fenced.bind {later : β → Prop} {next : α → Program Act Reply β} (first : p.Fenced F post)
    (rest : ∀ value, post value → (next value).Fenced F later) : (p >>= next).Fenced F later := by
  induction p with
  | pure value => exact rest value first
  | act a tail ih => exact ⟨F.bind next first.1, fun reply known => ih reply (first.2 reply known)⟩

/-- A loop of rounds that are fenced each. -/
theorem Fenced.firstSome {body : ι → Program Act Reply (Option α)} {items : List ι}
    (each : ∀ i ∈ items, (body i).Fenced F fun _ => True) : (Program.firstSome body items).Fenced F fun _ => True := by
  induction items with
  | nil => trivial
  | cons i rest ih =>
      apply (each i (List.mem_cons_self ..)).bind
      intro found _
      cases found with
      | some value => trivial
      | none => exact ih fun j member => each j (List.mem_cons_of_mem _ member)

theorem Fenced.allows {a : Act} {rest : Reply a → Program Act Reply α} (fenced : (Program.act a rest).Fenced F post) :
    F.allows a rest := fenced.1

/-- **What is left of a run is fenced**, and its state still tells the truth. -/
theorem Fenced.reaches {may : S → Act → O → Prop} {s s' : S} (truthful : F.Truthful perform I)
    (fenced : p.Fenced F post)
    (holds : I s) (run : Reaches perform may p s q s') : q.Fenced F post ∧ I s' := by
  induction run with
  | here p s => exact ⟨fenced, holds⟩
  | act _ step _ ih =>
      obtain ⟨known, kept⟩ := truthful holds fenced.1 step
      exact ih (fenced.2 _ known) kept

end Program

end Fences

end FpgaSsd.Lib
