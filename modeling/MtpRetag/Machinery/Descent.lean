import Mathlib.Data.Set.Finite.Lattice

/-!
# Machinery/Descent — recursing into everything that is reported

A caller starts at a root and is told, at each path, the keys of what lies below; it recurses into
each of them.  `Visits report` are the paths it gets to.

The tree is finite if it is of bounded depth (`finite_visits`), since each report is; it is not if a
key keeps being reported below itself (`infinite_visits`).
-/

namespace Descent

variable {κ : Type*} {report report' : List κ → List κ}

/-- The paths that a caller visits which recurses into every key it is told. -/
inductive Visits (report : List κ → List κ) : List κ → Prop
  | root : Visits report []
  | sub {ks : List κ} {k : κ} (h : Visits report ks) (hk : k ∈ report ks) :
      Visits report (ks ++ [k])

/-- A caller that is told no more visits no more. -/
theorem Visits.mono (h : ∀ ks, Visits report ks → report ks ⊆ report' ks) {ks : List κ}
    (hks : Visits report ks) : Visits report' ks := by
  induction hks with
  | root => exact .root
  | sub hks hk ih => exact .sub ih (h _ hks hk)

/-- The visited paths of one more key. -/
theorem Visits.exists_of_length {n : ℕ} {ks : List κ} (h : Visits report ks)
    (hn : ks.length = n + 1) :
    ∃ ks' k, Visits report ks' ∧ ks'.length = n ∧ k ∈ report ks' ∧ ks = ks' ++ [k] := by
  cases h with
  | root => simp at hn
  | @sub ks' k hks' hk => exact ⟨ks', k, hks', by simpa using hn, hk, rfl⟩

theorem finite_visits_of_length (report : List κ → List κ) (n : ℕ) :
    {ks | Visits report ks ∧ ks.length = n}.Finite := by
  induction n with
  | zero =>
    refine (Set.finite_singleton []).subset fun ks hks => ?_
    exact List.length_eq_zero_iff.mp hks.2
  | succ n ih =>
    refine (ih.biUnion fun ks _ => ((report ks).finite_toSet.image fun k => ks ++ [k])).subset ?_
    rintro ks ⟨hks, hn⟩
    obtain ⟨ks', k, hks', hn', hk, rfl⟩ := hks.exists_of_length hn
    exact Set.mem_biUnion ⟨hks', hn'⟩ (Set.mem_image_of_mem _ hk)

/-- **A tree of bounded depth is finite.** -/
theorem finite_visits {d : ℕ} (h : ∀ ks, Visits report ks → ks.length ≤ d) :
    {ks | Visits report ks}.Finite := by
  refine ((Set.finite_le_nat d).biUnion fun n _ => finite_visits_of_length report n).subset fun ks hks => ?_
  exact Set.mem_biUnion (h ks hks) ⟨hks, rfl⟩

theorem Visits.append_replicate {ks : List κ} {k : κ} (hks : Visits report ks)
    (h : ∀ n, k ∈ report (ks ++ List.replicate n k)) :
    ∀ n, Visits report (ks ++ List.replicate n k)
  | 0 => by simpa using hks
  | n + 1 => by
      rw [List.replicate_succ', ← List.append_assoc]
      exact .sub (hks.append_replicate h n) (h n)

/-- **A key that keeps being reported below itself** leads on for ever. -/
theorem infinite_visits {ks : List κ} {k : κ} (hks : Visits report ks)
    (h : ∀ n, k ∈ report (ks ++ List.replicate n k)) : {ks | Visits report ks}.Infinite := by
  refine Set.infinite_of_injective_forall_mem (f := fun n => ks ++ List.replicate n k) ?_
    (hks.append_replicate h)
  intro m n hmn
  simpa using congrArg List.length hmn

end Descent
