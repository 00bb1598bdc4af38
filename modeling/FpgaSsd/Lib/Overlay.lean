/-
# Lib.Overlay — pieces of memory, laid over each other or appended to a stream

A piece holds items for consecutive addresses. Laid over each other in order, the last
piece that covers an address says what is there. A writer that can only append fills the
gaps in front of a piece, and of a piece that starts behind the end it appends as many
items as the piece reaches beyond it, from the first item on.

* `overlay`, `stream` — the two results;
* `stream_getD` — an item of the stream is put there by the first piece that reaches past it;
* `stream_eq_overlay_iff` — the stream is the overlay exactly when the pieces that start
  behind the ones before them only repeat what is there.
-/
import Mathlib.Data.List.GetD

namespace FpgaSsd.Lib

set_option autoImplicit false

variable {β : Type}

structure Piece (β : Type) where
  base : Nat
  items : List β
  deriving DecidableEq, Repr

/-- The address behind the last item. -/
def Piece.reach (p : Piece β) : Nat := p.base + p.items.length

def Piece.Covers (p : Piece β) (a : Nat) : Prop := p.base ≤ a ∧ a < p.reach

instance (p : Piece β) (a : Nat) : Decidable (p.Covers a) := inferInstanceAs (Decidable (_ ∧ _))

/-- The item for an address that is covered. -/
def Piece.itemAt (fill : β) (p : Piece β) (a : Nat) : β := p.items.getD (a - p.base) fill

/-- The last piece that covers an address says what is there. -/
def overlay (fill : β) (ps : List (Piece β)) (a : Nat) : β :=
  ps.foldl (fun b p => if p.Covers a then p.itemAt fill a else b) fill

/-- The highest address that the pieces reach, or `start`. -/
def reached (start : Nat) (ps : List (Piece β)) : Nat := ps.foldl (fun n p => max n p.reach) start

def appendPiece (fill : β) (image : List β) (p : Piece β) : List β :=
  image ++ List.replicate (p.base - image.length) fill ++ p.items.take (p.reach - max image.length p.base)

def stream (fill : β) (ps : List (Piece β)) : List β := ps.foldl (appendPiece fill) []

/-- What a piece that is appended at `start` puts at an address. -/
def Piece.put (fill : β) (p : Piece β) (start a : Nat) : β :=
  if a < p.base then fill else p.items.getD (a - max start p.base) fill

/-- The first piece that reaches past an address puts an item there. -/
def firstPut (fill : β) : Nat → List (Piece β) → Nat → β
  | _, [], _ => fill
  | start, p :: rest, a => if a < p.reach then p.put fill start a else firstPut fill (max start p.reach) rest a

/-- What a piece that starts behind the ones before it says, where no later piece
covers it, is what the first piece that reached past the address has put there. -/
def RepeatsOnly (fill : β) (ps : List (Piece β)) : Prop :=
  ∀ before p after, ps = before ++ p :: after → p.base < reached 0 before →
    ∀ a, p.Covers a → (∀ q ∈ after, ¬ q.Covers a) →
      ∀ before' f after', ps = before' ++ f :: after' → reached 0 before' ≤ a → a < f.reach →
        f.put fill (reached 0 before') a = p.itemAt fill a

/-- Every piece starts where the ones before it have ended, or ahead of that. -/
def Ascending : Nat → List (Piece β) → Prop
  | _, [] => True
  | start, p :: rest => start ≤ p.base ∧ Ascending (max start p.reach) rest

section Stream

variable {fill : β} {p : Piece β} {ps : List (Piece β)} {a start : Nat}

theorem le_reached (start : Nat) (ps : List (Piece β)) : start ≤ reached start ps := by
  induction ps generalizing start with
  | nil => exact Nat.le_refl _
  | cons p rest ih => exact Nat.le_trans (Nat.le_max_left ..) (ih _)

theorem reach_le_reached (member : p ∈ ps) : p.reach ≤ reached start ps := by
  induction ps generalizing start with
  | nil => cases member
  | cons q rest ih =>
      rcases List.mem_cons.1 member with rfl | later
      · exact Nat.le_trans (Nat.le_max_right ..) (le_reached ..)
      · exact ih later

theorem appendPiece_length (image : List β) : (appendPiece fill image p).length = max image.length p.reach := by
  simp only [appendPiece, Piece.reach, List.length_append, List.length_replicate, List.length_take]
  omega

theorem foldl_appendPiece_length (image : List β) :
    (ps.foldl (appendPiece fill) image).length = reached image.length ps := by
  induction ps generalizing image with
  | nil => rfl
  | cons p rest ih => rw [List.foldl_cons, ih, appendPiece_length]; rfl

theorem stream_length : (stream fill ps).length = reached 0 ps := foldl_appendPiece_length []

/-- What is in the stream stays, and what is appended is what the piece puts. -/
theorem appendPiece_getD (image : List β) : (appendPiece fill image p).getD a fill =
    if a < image.length then image.getD a fill
    else if a < p.reach then p.put fill image.length a else fill := by
  unfold appendPiece
  simp only [List.getD_eq_getElem?_getD, List.getElem?_append, List.length_append, List.length_replicate,
    List.getElem?_replicate, List.getElem?_take, Piece.put, Piece.reach]
  by_cases old : a < image.length
  · rw [if_pos (by omega), if_pos old, if_pos old]
  · rw [if_neg old, if_neg old]
    by_cases gap : a < p.base
    · rw [if_pos (by omega), if_pos (by omega), if_pos (by omega), if_pos gap]
      rfl
    · rw [if_neg (by omega), if_neg gap, show image.length + (p.base - image.length) = max image.length p.base by omega]
      by_cases inside : a < p.base + p.items.length
      · rw [if_pos (by omega), if_pos inside]
      · rw [if_neg (by omega), if_neg inside]
        rfl

/-- **An item of the stream** was there, or the first piece that reaches past it put it there. -/
theorem foldl_appendPiece_getD (image : List β) : (ps.foldl (appendPiece fill) image).getD a fill =
    if a < image.length then image.getD a fill else firstPut fill image.length ps a := by
  induction ps generalizing image with
  | nil =>
      rw [List.foldl_nil, firstPut]
      split
      · rfl
      · rename_i outside
        exact List.getD_eq_default _ _ (Nat.le_of_not_lt outside)
  | cons p rest ih =>
      rw [List.foldl_cons, ih, appendPiece_length, appendPiece_getD, firstPut]
      by_cases old : a < image.length
      · rw [if_pos (by omega), if_pos old, if_pos old]
      · rw [if_neg old, if_neg old]
        by_cases past : a < p.reach
        · rw [if_pos (by omega), if_pos past, if_pos past]
        · rw [if_neg (by omega), if_neg past]

theorem stream_getD : (stream fill ps).getD a fill = firstPut fill 0 ps a := foldl_appendPiece_getD []

/-! ### The first piece and the last -/

theorem firstPut_split {before after : List (Piece β)} (below : reached start before ≤ a) (past : a < p.reach) :
    firstPut fill start (before ++ p :: after) a = p.put fill (reached start before) a := by
  induction before generalizing start with
  | nil => exact if_pos past
  | cons q rest ih =>
      have short : q.reach ≤ a := Nat.le_trans (reach_le_reached (List.mem_cons_self ..)) below
      rw [List.cons_append, firstPut, if_neg (Nat.not_lt.2 short)]
      exact ih below

/-- The first piece that reaches past an address. -/
theorem exists_first (low : start ≤ a) (member : p ∈ ps) (past : a < p.reach) :
    ∃ before f after, ps = before ++ f :: after ∧ reached start before ≤ a ∧ a < f.reach := by
  induction ps generalizing start with
  | nil => cases member
  | cons q rest ih =>
      by_cases here : a < q.reach
      · exact ⟨[], q, rest, rfl, low, here⟩
      · rcases List.mem_cons.1 member with rfl | later
        · exact absurd past here
        · obtain ⟨before, f, after, rfl, below, past'⟩ := ih (Nat.max_le.2 ⟨low, Nat.le_of_not_lt here⟩) later
          exact ⟨q :: before, f, after, rfl, below, past'⟩

theorem firstPut_uncovered (low : start ≤ a) (none : ∀ p ∈ ps, ¬ p.Covers a) : firstPut fill start ps a = fill := by
  induction ps generalizing start with
  | nil => rfl
  | cons p rest ih =>
      have here := none p (List.mem_cons_self ..)
      rw [firstPut]
      split
      · rename_i past
        have gap : a < p.base := Nat.lt_of_not_le fun covered => here ⟨covered, past⟩
        exact if_pos gap
      · rename_i short
        exact ih (Nat.max_le.2 ⟨low, Nat.le_of_not_lt short⟩) fun q later => none q (List.mem_cons_of_mem _ later)

theorem foldl_uncovered (b : β) (none : ∀ p ∈ ps, ¬ p.Covers a) :
    ps.foldl (fun b p => if p.Covers a then p.itemAt fill a else b) b = b := by
  induction ps with
  | nil => rfl
  | cons p rest ih =>
      rw [List.foldl_cons, if_neg (none p (List.mem_cons_self ..))]
      exact ih fun q later => none q (List.mem_cons_of_mem _ later)

theorem overlay_split {before after : List (Piece β)} (covers : p.Covers a) (last : ∀ q ∈ after, ¬ q.Covers a) :
    overlay fill (before ++ p :: after) a = p.itemAt fill a := by
  rw [overlay, List.foldl_append, List.foldl_cons, if_pos covers]
  exact foldl_uncovered _ last

/-- The last piece that covers an address, if any does. -/
theorem exists_last (ps : List (Piece β)) (a : Nat) : (∀ p ∈ ps, ¬ p.Covers a) ∨
    ∃ before p after, ps = before ++ p :: after ∧ p.Covers a ∧ ∀ q ∈ after, ¬ q.Covers a := by
  induction ps with
  | nil => exact .inl fun _ member => absurd member List.not_mem_nil
  | cons q rest ih =>
      rcases ih with none | ⟨before, p, after, rfl, covers, last⟩
      · by_cases here : q.Covers a
        · exact .inr ⟨[], q, rest, rfl, here, none⟩
        · refine .inl fun p member => ?_
          rcases List.mem_cons.1 member with rfl | later
          · exact here
          · exact none p later
      · exact .inr ⟨q :: before, p, after, rfl, covers, last⟩

/-- A piece that starts at the end or ahead of it is appended whole. -/
theorem put_ahead (ahead : start ≤ p.base) (covers : p.Covers a) : p.put fill start a = p.itemAt fill a := by
  rw [Piece.put, if_neg (Nat.not_lt.2 covers.1), Nat.max_eq_right ahead]
  rfl

/-- **The stream is the overlay** exactly when pieces that start behind the end only
repeat what is there. -/
theorem stream_eq_overlay_iff (fill : β) (ps : List (Piece β)) :
    (∀ a, (stream fill ps).getD a fill = overlay fill ps a) ↔ RepeatsOnly fill ps := by
  constructor
  · intro same before p after split _ a covers last before' f after' split' below past
    rw [← @overlay_split _ _ _ _ before _ covers last, ← split, ← same a, stream_getD, split',
      firstPut_split below past]
  · intro repeats a
    rw [stream_getD]
    rcases exists_last ps a with none | ⟨before, p, after, split, covers, last⟩
    · rw [firstPut_uncovered (Nat.zero_le _) none]
      exact (foldl_uncovered fill none).symm
    · have value : overlay fill ps a = p.itemAt fill a := by
        rw [split]
        exact overlay_split covers last
      rw [value]
      by_cases behind : p.base < reached 0 before
      · have member : p ∈ ps := split ▸ List.mem_append_right _ (List.mem_cons_self ..)
        obtain ⟨before', f, after', split', below, past⟩ := exists_first (Nat.zero_le _) member covers.2
        have puts := repeats before p after split behind a covers last before' f after' split' below past
        rw [← puts, split', firstPut_split below past]
      · have ahead := Nat.le_of_not_lt behind
        rw [split, firstPut_split (Nat.le_trans ahead covers.1) covers.2, put_ahead ahead covers]

theorem Ascending.ahead {before after : List (Piece β)} (ascending : Ascending start (before ++ p :: after)) :
    reached start before ≤ p.base := by
  induction before generalizing start with
  | nil => exact ascending.1
  | cons q rest ih => exact ih ascending.2

/-- Pieces in ascending order do not repeat anything. -/
theorem repeatsOnly_of_ascending (ascending : Ascending 0 ps) : RepeatsOnly fill ps := by
  intro before p after split behind
  rw [split] at ascending
  exact absurd ascending.ahead (Nat.not_le.2 behind)

end Stream

end FpgaSsd.Lib
