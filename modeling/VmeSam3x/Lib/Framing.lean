import Mathlib.Data.List.Basic
import Mathlib.Tactic.Common

/-! # Framed streams

A stream carries items one after the other. A format says what a stream begins
with: an item and what follows it, something that no item begins with, or the
beginning of an item that is not complete yet. The first two do not change when
more of the stream arrives, so the items of a stream do not depend on how it is
cut into deliveries: `Format.items_append` and `Format.tail_append`.
-/

namespace Framing

/-- What a stream begins with. -/
inductive Head (α β : Type) where
  | more
  | bad
  | item (a : β) (rest : List α)
deriving DecidableEq

/-- A way to recognise the first item of a stream. An item has bytes of its own, and
these are all that is needed to recognise it. -/
structure Format (α β : Type) where
  head : List α → Head α β
  split : ∀ {s a rest}, head s = .item a rest → ∃ w, w ≠ [] ∧ s = w ++ rest ∧ head w = .item a []
  item_append : ∀ {s a rest} (t), head s = .item a rest → head (s ++ t) = .item a (rest ++ t)
  bad_append : ∀ {s} (t), head s = .bad → head (s ++ t) = .bad

namespace Format

variable {α β : Type} (F : Format α β)

theorem shrinks {s : List α} {a : β} {rest : List α} (h : F.head s = .item a rest) :
    rest.length < s.length := by
  obtain ⟨w, hw, rfl, -⟩ := F.split h
  have := List.length_pos_of_ne_nil hw
  rw [List.length_append]
  omega

/-- What completes an item ends in the delivery that does so. -/
theorem length_lt_of_more {s t : List α} {a : β} {rest : List α} (hs : F.head s = .more)
    (h : F.head (s ++ t) = .item a rest) : rest.length < t.length := by
  obtain ⟨w, -, hst, hw⟩ := F.split h
  rcases List.append_eq_append_iff.mp hst with ⟨u, rfl, rfl⟩ | ⟨u, rfl, rfl⟩
  · have hu : u ≠ [] := by
      rintro rfl
      rw [List.append_nil, hs] at hw
      cases hw
    have := List.length_pos_of_ne_nil hu
    rw [List.length_append]
    omega
  · rw [F.item_append u hw] at hs
    cases hs

/-- The complete items of a stream, and what is left after them; `none` if no item
begins there. -/
def drain (s : List α) : List β × Option (List α) :=
  match h : F.head s with
  | .more => ([], some s)
  | .bad => ([], none)
  | .item a rest =>
    have := F.shrinks h
    (a :: (drain rest).1, (drain rest).2)
termination_by s.length

/-- The complete items of a stream. -/
def items (s : List α) : List β := (F.drain s).1

/-- What is left after the complete items: the beginning of one more, or `none` if no
item begins there. -/
def tail (s : List α) : Option (List α) := (F.drain s).2

variable {F} {s : List α} {a : β} {rest : List α}

theorem items_more (h : F.head s = .more) : F.items s = [] := by
  rw [items, drain]
  split <;> simp_all

theorem items_bad (h : F.head s = .bad) : F.items s = [] := by
  rw [items, drain]
  split <;> simp_all

theorem items_item (h : F.head s = .item a rest) : F.items s = a :: F.items rest := by
  rw [items, drain]
  split
  · simp_all
  · simp_all
  · rename_i h'
    rw [h] at h'
    cases h'
    rfl

theorem tail_more (h : F.head s = .more) : F.tail s = some s := by
  rw [tail, drain]
  split <;> simp_all

theorem tail_bad (h : F.head s = .bad) : F.tail s = none := by
  rw [tail, drain]
  split <;> simp_all

theorem tail_item (h : F.head s = .item a rest) : F.tail s = F.tail rest := by
  rw [tail, drain]
  split
  · simp_all
  · simp_all
  · rename_i h'
    rw [h] at h'
    cases h'
    rfl

/-- Induction along the items of a stream. -/
theorem drain_induction (F : Format α β) {P : List α → Prop}
    (more : ∀ s, F.head s = .more → P s) (bad : ∀ s, F.head s = .bad → P s)
    (item : ∀ s a rest, F.head s = .item a rest → P rest → P s) (s : List α) : P s := by
  induction hn : s.length using Nat.strongRecOn generalizing s with
  | ind n ih =>
    subst hn
    cases h : F.head s with
    | more => exact more s h
    | bad => exact bad s h
    | item a rest => exact item s a rest h (ih _ (F.shrinks h) rest rfl)

/-- What is left of a stream begins an item that is not complete. -/
theorem head_tail {p : List α} (h : F.tail s = some p) : F.head p = .more := by
  induction s using F.drain_induction with
  | more s hs =>
    rw [tail_more hs] at h
    cases h
    exact hs
  | bad s hs =>
    rw [tail_bad hs] at h
    cases h
  | item s a rest hs ih => exact ih (by rwa [tail_item hs] at h)

/-- A later delivery continues with what was left. -/
theorem items_append {p : List α} (h : F.tail s = some p) (t : List α) :
    F.items (s ++ t) = F.items s ++ F.items (p ++ t) := by
  induction s using F.drain_induction with
  | more s hs =>
    rw [tail_more hs] at h
    cases h
    rw [items_more hs, List.nil_append]
  | bad s hs =>
    rw [tail_bad hs] at h
    cases h
  | item s a rest hs ih =>
    rw [tail_item hs] at h
    rw [items_item (F.item_append t hs), items_item hs, ih h, List.cons_append]

theorem tail_append {p : List α} (h : F.tail s = some p) (t : List α) :
    F.tail (s ++ t) = F.tail (p ++ t) := by
  induction s using F.drain_induction with
  | more s hs =>
    rw [tail_more hs] at h
    cases h
    rfl
  | bad s hs =>
    rw [tail_bad hs] at h
    cases h
  | item s a rest hs ih =>
    rw [tail_item hs] at h
    rw [tail_item (F.item_append t hs), ih h]

/-- After something that begins no item, nothing that arrives later changes anything. -/
theorem items_append_of_tail_none (h : F.tail s = none) (t : List α) :
    F.items (s ++ t) = F.items s := by
  induction s using F.drain_induction with
  | more s hs =>
    rw [tail_more hs] at h
    cases h
  | bad s hs => rw [items_bad hs, items_bad (F.bad_append t hs)]
  | item s a rest hs ih =>
    rw [tail_item hs] at h
    rw [items_item (F.item_append t hs), items_item hs, ih h]

end Format
end Framing
