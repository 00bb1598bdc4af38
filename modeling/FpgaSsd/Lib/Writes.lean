/-
# Lib.Writes — writes to distinct addresses

A run of writes leaves at an address what the last write to it has put there. Where no
address is written twice, each write stays, and the order of the writes does not matter.

* `runWrites_of_mem` — a write to an address of its own is what is read there;
* `runWrites_perm` — the same memory after any order of the writes.
-/
import Mathlib.Data.List.Nodup
import Mathlib.Logic.Function.Basic

namespace FpgaSsd.Lib

set_option autoImplicit false

structure Write (α β : Type) where
  address : α
  value : β
  deriving DecidableEq, Repr

section Writes

variable {α β : Type} [DecidableEq α] {ws ws' : List (Write α β)} {w : Write α β} {a : α}

def Write.run (w : Write α β) (memory : α → β) : α → β := Function.update memory w.address w.value

def runWrites (ws : List (Write α β)) (memory : α → β) : α → β := ws.foldl (fun m w => w.run m) memory

theorem runWrites_append (memory : α → β) : runWrites (ws ++ ws') memory = runWrites ws' (runWrites ws memory) :=
  List.foldl_append

/-- An address that no write is to keeps its value. -/
theorem runWrites_outside (memory : α → β) (untouched : a ∉ ws.map Write.address) :
    runWrites ws memory a = memory a := by
  induction ws generalizing memory with
  | nil => rfl
  | cons w rest ih =>
      rw [List.map_cons, List.mem_cons, not_or] at untouched
      calc runWrites rest (w.run memory) a
          = w.run memory a := ih _ untouched.2
        _ = memory a := Function.update_of_ne untouched.1 _ _

/-- Where no address is written twice, every write stays. -/
theorem runWrites_of_mem (memory : α → β) (once : (ws.map Write.address).Nodup) (member : w ∈ ws) :
    runWrites ws memory w.address = w.value := by
  induction ws generalizing memory with
  | nil => cases member
  | cons first rest ih =>
      rw [List.map_cons, List.nodup_cons] at once
      cases List.mem_cons.1 member with
      | inl here =>
          subst here
          calc runWrites rest (w.run memory) w.address
              = w.run memory w.address := runWrites_outside _ once.1
            _ = w.value := Function.update_self ..
      | inr there => exact ih _ once.2 there

/-- Writes to distinct addresses can be made in any order. -/
theorem runWrites_perm (memory : α → β) (once : (ws.map Write.address).Nodup) (same : ws.Perm ws') :
    runWrites ws memory = runWrites ws' memory := by
  apply same.foldl_eq'
  intro x member y member' m
  by_cases equal : x.address = y.address
  · rw [List.inj_on_of_nodup_map once member member' equal]
  · exact Function.update_comm equal _ _ m

end Writes

end FpgaSsd.Lib
