/-
# Lib.Typestate — protocols a program must obey

A `Typestate` says which actions are allowed in which state of a protocol (a set
of held locks, an open or closed connection) and how an action moves it; replies
are open, apart from what `expects` promises about them.

* `Program.Obeys` — a program follows the protocol; `Obeys.bind`, `Obeys.weaken`;
* `Returns` — it does, and ends in the protocol state it started in;
* `Obeys.total` — on a machine where allowed actions are enabled, a program that
  obeys has a run.
-/
import FpgaSsd.Lib.Program

namespace FpgaSsd.Lib

set_option autoImplicit false

structure Typestate (Act : Type) (Reply : Act → Type) (H : Type) where
  allowed : H → Act → Prop
  next : H → Act → H
  expects : (a : Act) → Reply a → Prop

namespace Program

variable {Act : Type} {Reply : Act → Type} {H α β : Type} {T : Typestate Act Reply H}

/-- Every action is allowed where it is performed, and `post` holds at the end. -/
def Obeys (T : Typestate Act Reply H) : Program Act Reply α → (α → H → Prop) → H → Prop
  | .pure value, post, h => post value h
  | .act a rest, post, h => T.allowed h a ∧ ∀ r, T.expects a r → Obeys T (rest r) post (T.next h a)

theorem Obeys.weaken {p : Program Act Reply α} {post post' : α → H → Prop} {h : H}
    (obeys : p.Obeys T post h) (implies : ∀ value h', post value h' → post' value h') :
    p.Obeys T post' h := by
  induction p generalizing h with
  | pure value => exact implies _ _ obeys
  | act a rest ih => exact ⟨obeys.1, fun r expected => ih r (obeys.2 r expected)⟩

theorem Obeys.bind {p : Program Act Reply α} {next : α → Program Act Reply β}
    {post : β → H → Prop} {h : H}
    (obeys : p.Obeys T (fun value h' => (next value).Obeys T post h') h) :
    (p >>= next).Obeys T post h := by
  induction p generalizing h with
  | pure value => exact obeys
  | act a rest ih => exact ⟨obeys.1, fun r expected => ih r (obeys.2 r expected)⟩

/-- The program obeys the protocol and leaves it where it was. -/
def Returns (T : Typestate Act Reply H) (p : Program Act Reply α) (h : H) : Prop :=
  p.Obeys T (fun _ h' => h' = h) h

theorem Returns.bind {p : Program Act Reply α} {next : α → Program Act Reply β} {h : H}
    (first : p.Returns T h) (rest : ∀ value, (next value).Returns T h) :
    (p >>= next).Returns T h :=
  Obeys.bind (first.weaken fun value _ same => same ▸ rest value)

theorem Returns.perform {a : Act} {h : H} (allowed : T.allowed h a) (same : T.next h a = h) :
    (Program.perform a : Program Act Reply (Reply a)).Returns T h :=
  ⟨allowed, fun _ _ => same⟩

theorem Returns.firstSome {ι : Type} {body : ι → Program Act Reply (Option α)} {h : H}
    (items : List ι) (each : ∀ i ∈ items, (body i).Returns T h) :
    (Program.firstSome body items).Returns T h := by
  induction items with
  | nil => rfl
  | cons i rest ih =>
      refine (each i (List.mem_cons_self ..)).bind fun r => ?_
      cases r with
      | some value => rfl
      | none => exact ih fun j member => each j (List.mem_cons_of_mem _ member)

end Program

section Machine

variable {Act : Type} {Reply : Act → Type} {H S O α : Type} {T : Typestate Act Reply H}
variable {perform : Perform Act Reply S O} {may : S → Act → O → Prop} {rel : H → S → Prop}

/-- A program that obeys a protocol whose allowed actions are enabled has a run. -/
theorem Program.Obeys.total
    (live : ∀ h s a, rel h s → T.allowed h a →
      ∃ o r s', may s a o ∧ perform a o s = some (r, s') ∧ T.expects a r ∧ rel (T.next h a) s')
    {p : Program Act Reply α} {post : α → H → Prop} {h : H} {s : S} (obeys : p.Obeys T post h)
    (related : rel h s) :
    ∃ value s' h', Runs perform may p s value s' ∧ post value h' ∧ rel h' s' := by
  induction p generalizing h s with
  | pure value => exact ⟨value, s, h, .pure value s, obeys, related⟩
  | act a rest ih =>
      obtain ⟨o, r, t, allowed, step, expected, related'⟩ := live h s a related obeys.1
      obtain ⟨value, t', h', run, holds, final⟩ := ih r (obeys.2 r expected) related'
      exact ⟨value, t', h', .act allowed step run, holds, final⟩

end Machine

end FpgaSsd.Lib
