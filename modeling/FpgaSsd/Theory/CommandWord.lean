/-
# Theory.CommandWord — what a command word keeps of its arguments

`cmd_value` puts the flag, the start and the length of a command next to each other in one
word. Its mask for the start is said to cover bits 5 to 36, and covers bits 1 to 32.

* `cmdValue_wraps` — the start is taken modulo 2²⁸;
* `cmdValue_flag`, `cmdValue_len` — the flag and the length are read back whatever the start is;
* `losslessOn_iff` — the sets of commands that can be told apart and read back.
-/
import FpgaSsd.Driver.Types

namespace FpgaSsd.Theory

open FpgaSsd.Driver

set_option autoImplicit false

/-- Arguments of the widths that the fields have. -/
structure Encodable (a : Command) : Prop where
  start : a.start < 2 ^ 32
  len : a.len < 2 ^ 11
  flag : a.flag < 2 ^ 5

/-- The word that `cmd_value` makes of the arguments. -/
def wordOf (a : Command) : Nat := cmdValue a.start a.len a.flag

/-- Each command of the set is read back from its fields, and different ones are different words. -/
structure LosslessOn (S : Set Command) : Prop where
  fields : ∀ a ∈ S, Command.ofWord (wordOf a) = a
  differ : ∀ a ∈ S, ∀ b ∈ S, a ≠ b → wordOf a ≠ wordOf b

section Words

variable {a b : Command}

/-- The mask of the start keeps its low 28 bits. -/
theorem and_startMask_mod (start : Nat) : start <<< 5 &&& 0x1fffffffe = (start % 2 ^ 28) <<< 5 := by
  rw [← and_startMask (Nat.mod_lt start (by decide))]
  apply Nat.eq_of_testBit_eq
  intro i
  simp only [Nat.testBit_and, Nat.testBit_shiftLeft, Nat.testBit_mod_two_pow]
  by_cases low : i < 33
  · by_cases shifted : 5 ≤ i
    · simp [shifted, show i - 5 < 28 by omega]
    · simp [shifted]
  · have above : Nat.testBit 0x1fffffffe i = false :=
      Nat.testBit_lt_two_pow (Nat.lt_of_lt_of_le (by decide) (Nat.pow_le_pow_right (by decide) (Nat.le_of_not_lt low)))
    rw [above, Bool.and_false, Bool.and_false]

/-- **The start is taken modulo 2²⁸.** -/
theorem cmdValue_wraps (start len flag : Nat) : cmdValue start len flag = cmdValue (start % 2 ^ 28) len flag := by
  rw [cmdValue, cmdValue, and_startMask_mod, and_startMask (Nat.mod_lt start (by decide))]

/-- The low five bits of a command word are the flag. -/
theorem cmdValue_flag (start len flag : Nat) : (Command.ofWord (cmdValue start len flag)).flag = flag % 32 := by
  show cmdValue start len flag % 2 ^ 5 = flag % 2 ^ 5
  apply Nat.eq_of_testBit_eq
  intro i
  simp only [cmdValue, Nat.testBit_mod_two_pow, Nat.testBit_or, Nat.testBit_and, Nat.testBit_shiftLeft]
  by_cases low : i < 5
  · have kept : ∀ j < 5, Nat.testBit 0x1f j = true := by decide
    simp only [kept i low, ge_iff_le, show ¬ 5 ≤ i by omega, show ¬ 37 ≤ i by omega, decide_false, Bool.false_and,
      Bool.and_true, Bool.or_false]
  · simp only [low, decide_false, Bool.false_and]

/-- Bits 37 to 47 are the length. -/
theorem cmdValue_len (start len flag : Nat) : (Command.ofWord (cmdValue start len flag)).len = len % 2 ^ 11 := by
  show cmdValue start len flag / 2 ^ 37 % 2 ^ 11 = len % 2 ^ 11
  apply Nat.eq_of_testBit_eq
  intro i
  simp only [cmdValue, Nat.testBit_mod_two_pow, Nat.testBit_div_two_pow, Nat.testBit_or, Nat.testBit_and,
    Nat.testBit_shiftLeft]
  by_cases low : i < 11
  · have flags : ∀ j < 11, Nat.testBit 0x1f (j + 37) = false := by decide
    have starts : ∀ j < 11, Nat.testBit 0x1fffffffe (j + 37) = false := by decide
    have kept : ∀ j < 11, Nat.testBit 0xffe000000000 (j + 37) = true := by decide
    simp [flags i low, starts i low, kept i low]
  · simp only [low, decide_false, Bool.false_and]

theorem ofWord_wordOf (encodable : Encodable a) : Command.ofWord (wordOf a) = ⟨a.start % 2 ^ 28, a.len, a.flag⟩ := by
  rw [wordOf, cmdValue_wraps]
  exact decode_cmdValue (Nat.mod_lt _ (by decide)) encodable.len encodable.flag

/-- A command is read back exactly when its start has 28 bits. -/
theorem ofWord_wordOf_eq_iff (encodable : Encodable a) : Command.ofWord (wordOf a) = a ↔ a.start < 2 ^ 28 := by
  obtain ⟨start, len, flag⟩ := a
  rw [ofWord_wordOf encodable, Command.mk.injEq]
  constructor
  · rintro ⟨same, -, -⟩
    rw [← same]
    exact Nat.mod_lt _ (by decide)
  · intro small
    exact ⟨Nat.mod_eq_of_lt small, rfl, rfl⟩

end Words

/-- **The encoding is lossless** on the sets of commands whose starts have 28 bits, and on no others. -/
theorem losslessOn_iff (S : Set Command) (encodable : ∀ a ∈ S, Encodable a) :
    LosslessOn S ↔ ∀ a ∈ S, a.start < 2 ^ 28 := by
  constructor
  · intro lossless a member
    exact (ofWord_wordOf_eq_iff (encodable a member)).1 (lossless.fields a member)
  · intro small
    have fields : ∀ a ∈ S, Command.ofWord (wordOf a) = a := fun a member =>
      (ofWord_wordOf_eq_iff (encodable a member)).2 (small a member)
    refine ⟨fields, fun a member b member' different same => different ?_⟩
    rw [← fields a member, same, fields b member']

/-- The commands for the logical pages of a channel. -/
def pageCommands : Set Command :=
  fun a => a.start < ssdMaxVirblocksPerChannel * ssdPagesPerBlock ∧ a.len < 2 ^ 11 ∧ a.flag < 2 ^ 5

theorem pageCommands_lossless : LosslessOn pageCommands := by
  have small : ∀ a ∈ pageCommands, a.start < 2 ^ 28 := fun a page => Nat.lt_trans page.1 (by decide)
  exact (losslessOn_iff pageCommands fun a page =>
    ⟨Nat.lt_trans (small a page) (by decide), page.2.1, page.2.2⟩).2 small

/-- The first start that is lost, which is read as 0. -/
theorem start_2_28_is_lost : ¬ LosslessOn {a | Encodable a} := by
  intro lossless
  have first : Encodable ⟨2 ^ 28, 1, 0⟩ := ⟨by decide, by decide, by decide⟩
  have other : Encodable ⟨0, 1, 0⟩ := ⟨by decide, by decide, by decide⟩
  exact lossless.differ _ first _ other (by decide) (by decide)

end FpgaSsd.Theory
