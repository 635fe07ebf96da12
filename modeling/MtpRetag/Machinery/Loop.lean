import Mathlib.Data.Nat.Init

/-!
# Machinery/Loop — loops that are left with a result

A round of a loop either goes on in a new state or leaves the loop with a result.  `Leaves` says
that the loop is left after finitely many rounds; it determines the result (`Leaves.unique`).

The rule is `exists_leaves`: an invariant and a variant give a result, and what the invariant says
of it.
-/

namespace Loop

variable {σ ρ : Type*}

/-- What a round does. -/
inductive Round (σ ρ : Type*)
  | again (s : σ)
  | leave (r : ρ)

/-- The loop, for at most `fuel` rounds. -/
def run (round : σ → Round σ ρ) : ℕ → σ → Option ρ
  | 0, _ => none
  | fuel + 1, s =>
    match round s with
    | .again s' => run round fuel s'
    | .leave r => some r

/-- **The loop is left with `r`**, if it is entered in `s`. -/
def Leaves (round : σ → Round σ ρ) (s : σ) (r : ρ) : Prop := ∃ fuel, run round fuel s = some r

variable {round : σ → Round σ ρ} {s s' : σ} {r r' : ρ}

theorem run_succ_of_again (h : round s = .again s') (fuel : ℕ) :
    run round (fuel + 1) s = run round fuel s' := by rw [run, h]

theorem run_succ_of_leave (h : round s = .leave r) (fuel : ℕ) :
    run round (fuel + 1) s = some r := by rw [run, h]

/-- More fuel changes no result. -/
theorem run_add : ∀ {fuel : ℕ} {s : σ}, run round fuel s = some r →
    ∀ more, run round (fuel + more) s = some r
  | 0, _, h, _ => by cases h
  | fuel + 1, s, h, more => by
      rw [Nat.succ_add]
      cases hround : round s with
      | again s' =>
        rw [run_succ_of_again hround] at h ⊢
        exact run_add h more
      | leave r =>
        rw [run_succ_of_leave hround] at h ⊢
        exact h

theorem leaves_of_leave (h : round s = .leave r) : Leaves round s r := ⟨1, run_succ_of_leave h 0⟩

/-- A round that goes on leaves the rest to the next state. -/
theorem leaves_of_again (h : round s = .again s') (hr : Leaves round s' r) : Leaves round s r := by
  obtain ⟨fuel, hr⟩ := hr
  exact ⟨fuel + 1, (run_succ_of_again h fuel).trans hr⟩

/-- A loop is left with one result. -/
theorem Leaves.unique (h : Leaves round s r) (h' : Leaves round s r') : r = r' := by
  obtain ⟨fuel, hr⟩ := h
  obtain ⟨fuel', hr'⟩ := h'
  have hmore : run round (fuel + fuel') s = some r' := by
    rw [Nat.add_comm]
    exact run_add hr' fuel
  exact Option.some.inj ((run_add hr fuel').symm.trans hmore)

/-- **The rule for loops.**  A round that goes on keeps the invariant and lowers the variant; one
that leaves gives a result that is asked for.  So the loop is left, with such a result. -/
theorem exists_leaves {Inv : σ → Prop} {Post : ρ → Prop} (variant : σ → ℕ)
    (hagain : ∀ s s', Inv s → round s = .again s' → Inv s' ∧ variant s' < variant s)
    (hleave : ∀ s r, Inv s → round s = .leave r → Post r) (hs : Inv s) :
    ∃ r, Leaves round s r ∧ Post r := by
  induction hn : variant s using Nat.strong_induction_on generalizing s with
  | _ n ih =>
    cases hround : round s with
    | leave r => exact ⟨r, leaves_of_leave hround, hleave s r hs hround⟩
    | again s' =>
      obtain ⟨hs', hlt⟩ := hagain s s' hs hround
      obtain ⟨r, hr, hpost⟩ := ih (variant s') (hn ▸ hlt) hs' rfl
      exact ⟨r, leaves_of_again hround hr, hpost⟩

end Loop
