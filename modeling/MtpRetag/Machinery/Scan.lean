import Mathlib.Data.Nat.Find

/-!
# Machinery/Scan — a search that a failure ends

A scan asks the elements of a list one by one.  It ends at the first element that fails, at the
first one that is looked for, or at the end of the list.

`run_eq_found_iff` says which element a scan finds: the first one that is looked for and that no
failure comes before.
-/

namespace Scan

variable {α ε : Type*}

/-- How a scan ends. -/
inductive Outcome (α ε : Type*)
  | exhausted
  | failed (err : ε)
  | found (a : α)

/-- The scan of a list for `p`; `fails` is the error of an element that cannot be asked. -/
def run (fails : α → Option ε) (p : α → Prop) [DecidablePred p] : List α → Outcome α ε
  | [] => .exhausted
  | a :: l =>
    match fails a with
    | some err => .failed err
    | none => if p a then .found a else run fails p l

/-- The element at `i` is looked for, and no element up to it fails. -/
structure Hits (fails : α → Option ε) (p : α → Prop) (l : List α) (i : ℕ) (a : α) : Prop where
  at_index : l[i]? = some a
  holds : p a
  asked : ∀ j ≤ i, ∀ b, l[j]? = some b → fails b = none

section Cons

variable {fails : α → Option ε} {p : α → Prop} {a b : α} {l : List α} {i : ℕ}

theorem not_hits_nil : ¬ Hits fails p [] i a := fun h => by simpa using h.at_index

theorem hits_cons_zero : Hits fails p (a :: l) 0 b ↔ a = b ∧ p a ∧ fails a = none := by
  constructor
  · intro h
    obtain rfl : a = b := by simpa using h.at_index
    exact ⟨rfl, h.holds, h.asked 0 le_rfl a rfl⟩
  · rintro ⟨rfl, hp, hfails⟩
    refine ⟨rfl, hp, fun j hj b hb => ?_⟩
    obtain rfl : j = 0 := Nat.le_zero.mp hj
    obtain rfl : a = b := by simpa using hb
    exact hfails

theorem hits_cons_succ :
    Hits fails p (a :: l) (i + 1) b ↔ fails a = none ∧ Hits fails p l i b := by
  constructor
  · intro h
    exact ⟨h.asked 0 (Nat.zero_le _) a rfl, by simpa using h.at_index, h.holds,
      fun j hj c hc => h.asked (j + 1) (Nat.succ_le_succ hj) c (by simpa using hc)⟩
  · rintro ⟨hfails, h⟩
    refine ⟨by simpa using h.at_index, h.holds, fun j hj c hc => ?_⟩
    cases j with
    | zero =>
      obtain rfl : a = c := by simpa using hc
      exact hfails
    | succ j => exact h.asked j (Nat.le_of_succ_le_succ hj) c (by simpa using hc)

/-- Nothing is hit behind a failure. -/
theorem not_hits_of_fails {err : ε} (h : fails a = some err) : ¬ Hits fails p (a :: l) i b :=
  fun hit => by simpa [h] using hit.asked 0 (Nat.zero_le _) a rfl

/-- An element that is looked for is the first hit… -/
theorem first_hits_cons_of_holds (hp : p a) (hfails : fails a = none) :
    (∃ i, Hits fails p (a :: l) i b ∧ ∀ j < i, ∀ c, ¬ Hits fails p (a :: l) j c) ↔ a = b := by
  have hzero : Hits fails p (a :: l) 0 a := hits_cons_zero.mpr ⟨rfl, hp, hfails⟩
  constructor
  · rintro ⟨i, h, hfirst⟩
    obtain rfl : i = 0 := by
      by_contra hi
      exact hfirst 0 (Nat.pos_of_ne_zero hi) a hzero
    exact (hits_cons_zero.mp h).1
  · rintro rfl
    exact ⟨0, hzero, fun j hj => absurd hj (Nat.not_lt_zero j)⟩

/-- …and one that is not shifts it by one. -/
theorem first_hits_cons_of_not (hp : ¬ p a) (hfails : fails a = none) :
    (∃ i, Hits fails p (a :: l) i b ∧ ∀ j < i, ∀ c, ¬ Hits fails p (a :: l) j c) ↔
      ∃ i, Hits fails p l i b ∧ ∀ j < i, ∀ c, ¬ Hits fails p l j c := by
  have hzero : ∀ c, ¬ Hits fails p (a :: l) 0 c := fun c h => hp (hits_cons_zero.mp h).2.1
  constructor
  · rintro ⟨i, h, hfirst⟩
    cases i with
    | zero => exact absurd h (hzero b)
    | succ i =>
      exact ⟨i, (hits_cons_succ.mp h).2, fun j hj c hc =>
        hfirst (j + 1) (Nat.succ_lt_succ hj) c (hits_cons_succ.mpr ⟨hfails, hc⟩)⟩
  · rintro ⟨i, h, hfirst⟩
    refine ⟨i + 1, hits_cons_succ.mpr ⟨hfails, h⟩, fun j hj c hc => ?_⟩
    cases j with
    | zero => exact hzero c hc
    | succ j => exact hfirst j (Nat.lt_of_succ_lt_succ hj) c (hits_cons_succ.mp hc).2

end Cons

section Run

variable {fails : α → Option ε} {p : α → Prop} [DecidablePred p]

/-- **A scan finds the first hit.** -/
theorem run_eq_found_iff {a : α} :
    ∀ {l : List α}, run fails p l = .found a ↔
      ∃ i, Hits fails p l i a ∧ ∀ j < i, ∀ b, ¬ Hits fails p l j b
  | [] => iff_of_false (fun h => nomatch h) fun ⟨_, h, _⟩ => not_hits_nil h
  | c :: l => by
      rw [run]
      rcases hfails : fails c with _ | err
      · dsimp only
        by_cases hp : p c
        · rw [if_pos hp, first_hits_cons_of_holds hp hfails, Outcome.found.injEq]
        · rw [if_neg hp, first_hits_cons_of_not hp hfails, run_eq_found_iff]
      · exact iff_of_false (fun h => nomatch h) fun ⟨_, h, _⟩ => not_hits_of_fails hfails h

/-- …so it finds something if there is a hit. -/
theorem exists_run_eq_found_iff {l : List α} :
    (∃ a, run fails p l = .found a) ↔ ∃ i a, Hits fails p l i a := by
  classical
  constructor
  · rintro ⟨a, h⟩
    obtain ⟨i, hit, -⟩ := run_eq_found_iff.mp h
    exact ⟨i, a, hit⟩
  · intro h
    obtain ⟨a, hit⟩ := Nat.find_spec h
    exact ⟨a, run_eq_found_iff.mpr ⟨Nat.find h, hit, fun j hj b hb => Nat.find_min h hj ⟨b, hb⟩⟩⟩

/-- The error that ends a scan is one of its elements'. -/
theorem exists_of_run_eq_failed {err : ε} :
    ∀ {l : List α}, run fails p l = .failed err → ∃ a ∈ l, fails a = some err
  | [], h => by cases h
  | c :: l, h => by
      rw [run] at h
      rcases hfails : fails c with _ | e
      · simp only [hfails] at h
        split at h
        · cases h
        · obtain ⟨a, ha, hfail⟩ := exists_of_run_eq_failed h
          exact ⟨a, List.mem_cons_of_mem c ha, hfail⟩
      · simp only [hfails] at h
        obtain rfl : e = err := by simpa using h
        exact ⟨c, List.mem_cons_self, hfails⟩

end Run

end Scan
