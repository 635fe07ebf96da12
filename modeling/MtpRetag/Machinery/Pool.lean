import Mathlib.Algebra.Order.Ring.Nat
import Mathlib.Data.List.Basic

/-!
# Machinery/Pool — a list of threads, one of which moves

A pool keeps its threads in a list; a step replaces the `i`-th one.  Each thread owns a list of
tokens, and a share of every total; `sum_map_set` and `count_flatMap_set` book what one replacement
does to the totals.
-/

namespace Pool

variable {α β : Type*}

/-- Every thread of the pool after a move is an old one or the moved one. -/
theorem forall_mem_set {P : α → Prop} {l : List α} {i : ℕ} {b : α} (hl : ∀ x ∈ l, P x) (hb : P b) :
    ∀ x ∈ l.set i b, P x := fun x hx => by
  rcases List.mem_or_eq_of_mem_set hx with h | rfl
  · exact hl x h
  · exact hb

/-- **Book-keeping.**  Replacing thread `a` by `b` exchanges `a`'s share of a sum for `b`'s. -/
theorem sum_map_set {f : α → ℕ} {a b : α} :
    ∀ {l : List α} {i : ℕ}, l[i]? = some a →
      ((l.set i b).map f).sum + f a = (l.map f).sum + f b
  | [], i, h => by simp at h
  | x :: l, 0, h => by
      obtain rfl : x = a := by simpa using h
      simp only [List.set_cons_zero, List.map_cons, List.sum_cons]
      omega
  | x :: l, i + 1, h => by
      have ih := sum_map_set (f := f) (b := b) (l := l) (i := i) (by simpa using h)
      simp only [List.set_cons_succ, List.map_cons, List.sum_cons]
      omega

/-- …and `a`'s tokens for `b`'s. -/
theorem count_flatMap_set [BEq β] {f : α → List β} (r : β) {a b : α} {l : List α} {i : ℕ}
    (h : l[i]? = some a) :
    ((l.set i b).flatMap f).count r + (f a).count r = (l.flatMap f).count r + (f b).count r := by
  rw [List.count_flatMap, List.count_flatMap]
  exact sum_map_set h

/-- A change of one thread that `f` does not see. -/
theorem map_modify_of_eq {f : α → β} {g : α → α} (hfg : ∀ a, f (g a) = f a) :
    ∀ (l : List α) (i : ℕ), (l.modify i g).map f = l.map f
  | [], _ => by simp
  | x :: l, 0 => by simp [hfg]
  | x :: l, i + 1 => by simp [map_modify_of_eq hfg l i]

/-- Changing the last thread. -/
theorem modify_append_singleton (g : α → α) (l : List α) (a : α) :
    (l ++ [a]).modify l.length g = l ++ [g a] :=
  List.modifyTailIdx_add (List.modifyHead g) 0 l [a]

end Pool
