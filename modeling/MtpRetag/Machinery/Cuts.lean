import Mathlib.Data.List.Infix

/-!
# Machinery/Cuts — cutting a list at a separator, and joining it again

A list is cut at the first occurrence of a separator `d`, `n` elements are skipped there, and what
follows is cut likewise: these are its `Pieces d n`.

They hold the separator nowhere (`Pieces.not_infix`), and the elements that are skipped join them to
the list again (`Pieces.intercalate_take`).  Joined with `d` itself they give the list back only if
all of `d` is skipped, or if nothing is cut: `Pieces.intercalate_eq_iff`.
-/

namespace Cuts

variable {α : Type*} {d s : List α} {i n : ℕ}

/-! ## The first occurrence -/

/-- The separator begins at `i`, and nowhere before. -/
structure FirstAt (d s : List α) (i : ℕ) : Prop where
  here : d <+: s.drop i
  earlier : ∀ j < i, ¬ d <+: s.drop j

namespace FirstAt

theorem zero (h : d <+: s) : FirstAt d s 0 := ⟨h, fun j hj => absurd hj (Nat.not_lt_zero j)⟩

theorem cons {c : α} (hc : ¬ d <+: c :: s) (h : FirstAt d s i) : FirstAt d (c :: s) (i + 1) where
  here := h.here
  earlier j hj := by
    cases j with
    | zero => exact hc
    | succ j => exact h.earlier j (Nat.lt_of_succ_lt_succ hj)

theorem infix_self (h : FirstAt d s i) : d <:+: s :=
  h.here.isInfix.trans (List.drop_suffix i s).isInfix

theorem add_length_le (hd : d ≠ []) (h : FirstAt d s i) : i + d.length ≤ s.length := by
  have hlen := h.here.length_le
  have hpos := List.length_pos_iff.mpr hd
  rw [List.length_drop] at hlen
  omega

/-- What lies before the separator, as much of it as is skipped, and the rest. -/
theorem take_append (hn : n ≤ d.length) (h : FirstAt d s i) :
    s.take i ++ (d.take n ++ s.drop (i + n)) = s := by
  obtain ⟨t, ht⟩ := h.here
  have hskip : d.take n = (s.drop i).take n := by rw [← ht, List.take_append_of_le_length hn]
  rw [hskip, ← List.drop_drop, List.take_append_drop, List.take_append_drop]

/-- The separator does not lie before its first occurrence. -/
theorem not_infix_take (hd : d ≠ []) (h : FirstAt d s i) : ¬ d <:+: s.take i := by
  rintro ⟨a, b, hab⟩
  have hlt : a.length < i := by
    have hlen := congrArg List.length hab
    have hpos := List.length_pos_iff.mpr hd
    simp only [List.length_append, List.length_take] at hlen
    omega
  refine h.earlier a.length hlt ⟨b ++ s.drop i, ?_⟩
  have hs : s = a ++ (d ++ (b ++ s.drop i)) := by
    conv_lhs => rw [← List.take_append_drop i s, ← hab]
    simp only [List.append_assoc]
  conv_rhs => rw [hs]
  exact List.drop_left.symm

end FirstAt

/-! ## The pieces -/

/-- The pieces of a list, cut at each occurrence of `d` that is met; `n` elements are skipped
there. -/
inductive Pieces (d : List α) (n : ℕ) : List α → List (List α) → Prop
  | last {s : List α} (h : ¬ d <:+: s) : Pieces d n s [s]
  | cut {s : List α} {i : ℕ} {pieces : List (List α)} (h : FirstAt d s i)
      (rest : Pieces d n (s.drop (i + n)) pieces) : Pieces d n s (s.take i :: pieces)

theorem length_intercalate (d : List α) :
    ∀ pieces : List (List α),
      (d.intercalate pieces).length = pieces.flatten.length + (pieces.length - 1) * d.length
  | [] => by simp
  | [a] => by simp
  | a :: b :: pieces => by
      have hflat : (a :: b :: pieces).flatten.length = a.length + (b :: pieces).flatten.length := by
        rw [List.flatten_cons, List.length_append]
      rw [List.intercalate_cons_cons, List.length_append, List.length_append,
        length_intercalate d (b :: pieces), hflat]
      simp only [List.length_cons, Nat.add_sub_cancel, Nat.add_one_mul]
      omega

theorem length_filter_ne_nil_le [DecidableEq α] :
    ∀ pieces : List (List α), (pieces.filter (· ≠ [])).length ≤ pieces.flatten.length
  | [] => le_rfl
  | a :: pieces => by
      have ih := length_filter_ne_nil_le pieces
      rw [List.filter_cons, List.flatten_cons, List.length_append]
      split
      case isTrue ha =>
        have hpos : 0 < a.length := List.length_pos_iff.mpr (of_decide_eq_true ha)
        rw [List.length_cons]
        omega
      case isFalse => omega

namespace Pieces

variable {pieces : List (List α)}

theorem ne_nil (h : Pieces d n s pieces) : pieces ≠ [] := by cases h <;> simp

/-- **No piece holds the separator.** -/
theorem not_infix (hd : d ≠ []) (h : Pieces d n s pieces) : ∀ a ∈ pieces, ¬ d <:+: a := by
  induction h with
  | last hs => simpa using hs
  | cut hfirst _ ih => exact List.forall_mem_cons.mpr ⟨hfirst.not_infix_take hd, ih⟩

/-- **The pieces, joined again** by what is skipped between them. -/
theorem intercalate_take (hn : n ≤ d.length) (h : Pieces d n s pieces) :
    (d.take n).intercalate pieces = s := by
  induction h with
  | last => exact List.intercalate_singleton
  | cut hfirst rest ih =>
    rw [List.intercalate_cons_of_ne_nil rest.ne_nil, ih, List.append_assoc]
    exact hfirst.take_append hn

/-- There is one piece if there is nothing to cut. -/
theorem length_eq_one_iff (h : Pieces d n s pieces) : pieces.length = 1 ↔ ¬ d <:+: s := by
  cases h with
  | last hs => exact iff_of_true rfl hs
  | cut hfirst rest =>
    refine iff_of_false (fun hone => rest.ne_nil ?_) (not_not.mpr hfirst.infix_self)
    simpa using hone

/-- **Joined with the separator** they are the list again, if all of it was skipped or none of it
was met. -/
theorem intercalate_eq_iff (hn : n ≤ d.length) (h : Pieces d n s pieces) :
    d.intercalate pieces = s ↔ n = d.length ∨ ¬ d <:+: s := by
  constructor
  · intro hjoin
    -- both ways to join give a list of the length of `s`
    have hlen := congrArg List.length (hjoin.trans (h.intercalate_take hn).symm)
    rw [length_intercalate, length_intercalate, List.length_take, Nat.min_eq_left hn] at hlen
    rcases Nat.eq_zero_or_pos (pieces.length - 1) with hzero | hcuts
    · have hpos := List.length_pos_iff.mpr h.ne_nil
      exact .inr (h.length_eq_one_iff.mp (by omega))
    · exact .inl (Nat.mul_left_cancel hcuts (Nat.add_left_cancel hlen)).symm
  · rintro (rfl | hs)
    · conv_lhs => rw [← List.take_length (l := d)]
      exact h.intercalate_take le_rfl
    · obtain ⟨a, rfl⟩ := List.length_eq_one_iff.mp (h.length_eq_one_iff.mpr hs)
      rw [List.intercalate_singleton]
      simpa using h.intercalate_take hn

end Pieces

end Cuts
