import Mathlib.Data.List.Basic

/-!
# Machinery/Transition — runs of a labelled step function

A system is a partial step function `step : σ → α → Option σ`.  `fired step s as` lists the steps
performed by attempting the labels `as` from `s`; a label that is not enabled ends the run.

Six rules are exported:

* `forall_fired_inv` — an invariant kept by every step that meets `ok` holds along every run whose
  steps all meet `ok`;
* `final_inv` — …and at its end;
* `forall_post_iff` — when moreover a step that misses `ok` leaves the good states, `ok` is
  *exactly* the condition under which a run stays in them;
* `countP_fired_add_le` — steps that lower a variant are no more than what the variant was granted;
* `exists_run_of_simulates` — a system each of whose steps is one of another has runs of the other;
* `lockstep` — where one system performs a run of labels, so does another that matches its steps.
-/

namespace Transition

variable {σ α : Type*}

/-- One performed step: the state before it, its label, the state after it. -/
structure Fired (σ α : Type*) where
  pre : σ
  label : α
  post : σ

variable (step : σ → α → Option σ)

/-- The steps a run performs when it attempts the labels `as` one after the other. -/
def fired : σ → List α → List (Fired σ α)
  | _, [] => []
  | s, a :: as =>
    match step s a with
    | none => []
    | some s' => ⟨s, a, s'⟩ :: fired s' as

variable {step}

theorem fired_cons_of_none {s : σ} {a : α} (h : step s a = none) (as : List α) :
    fired step s (a :: as) = [] := by simp [fired, h]

theorem fired_cons_of_some {s s' : σ} {a : α} (h : step s a = some s') (as : List α) :
    fired step s (a :: as) = ⟨s, a, s'⟩ :: fired step s' as := by simp [fired, h]

/-- The state a run ends in. -/
def final (step : σ → α → Option σ) : σ → List α → σ
  | s, [] => s
  | s, a :: as =>
    match step s a with
    | none => s
    | some s' => final step s' as

theorem final_cons_of_none {s : σ} {a : α} (h : step s a = none) (as : List α) :
    final step s (a :: as) = s := by simp [final, h]

theorem final_cons_of_some {s s' : σ} {a : α} (h : step s a = some s') (as : List α) :
    final step s (a :: as) = final step s' as := by simp [final, h]

/-- A run that performs all its steps ends where they lead. -/
theorem final_of_foldlM {s s' : σ} :
    ∀ {as : List α}, as.foldlM step s = some s' → final step s as = s'
  | [], h => Option.some.inj h
  | a :: as, h => by
      rw [List.foldlM_cons] at h
      obtain ⟨s₁, hs₁, hrest⟩ := Option.bind_eq_some_iff.mp h
      rw [final_cons_of_some hs₁]
      exact final_of_foldlM hrest

/-- A performed step is a step of the system. -/
theorem step_of_mem_fired {e : Fired σ α} :
    ∀ {s : σ} {as : List α}, e ∈ fired step s as → step e.pre e.label = some e.post
  | _, [], he => by simp [fired] at he
  | s, a :: as, he => by
      cases h : step s a with
      | none => simp [fired_cons_of_none h] at he
      | some s' =>
        rw [fired_cons_of_some h, List.mem_cons] at he
        rcases he with rfl | he
        · exact h
        · exact step_of_mem_fired he

/-- …and its label is one of those attempted. -/
theorem label_mem_of_mem_fired {e : Fired σ α} :
    ∀ {s : σ} {as : List α}, e ∈ fired step s as → e.label ∈ as
  | _, [], he => by simp [fired] at he
  | s, a :: as, he => by
      cases h : step s a with
      | none => simp [fired_cons_of_none h] at he
      | some s' =>
        rw [fired_cons_of_some h, List.mem_cons] at he
        rcases he with rfl | he
        · exact List.mem_cons_self
        · exact List.mem_cons_of_mem _ (label_mem_of_mem_fired he)

section Rules

variable (Inv P : σ → Prop) (ok : σ → α → Prop) (allowed : α → Prop)

/-- **The invariant rule.**  What every `ok` step keeps holds before and after each step of a run
all of whose steps are `ok`. -/
theorem forall_fired_inv
    (hstep : ∀ s a s', allowed a → Inv s → ok s a → step s a = some s' → Inv s') :
    ∀ (as : List α) {s : σ}, (∀ a ∈ as, allowed a) → Inv s →
      (∀ e ∈ fired step s as, ok e.pre e.label) → ∀ e ∈ fired step s as, Inv e.pre ∧ Inv e.post
  | [], _, _, _, _, e, he => by simp [fired] at he
  | a :: as, s, hal, hs, hok, e, he => by
      cases h : step s a with
      | none => simp [fired_cons_of_none h] at he
      | some s' =>
        rw [fired_cons_of_some h] at he hok
        have hs' : Inv s' :=
          hstep s a s' (hal a List.mem_cons_self) hs (hok ⟨s, a, s'⟩ List.mem_cons_self) h
        rcases List.mem_cons.mp he with rfl | he
        · exact ⟨hs, hs'⟩
        · exact forall_fired_inv hstep as (fun b hb => hal b (List.mem_cons_of_mem _ hb)) hs'
            (fun d hd => hok d (List.mem_cons_of_mem _ hd)) e he

/-- …and at the end of the run. -/
theorem final_inv
    (hstep : ∀ s a s', allowed a → Inv s → ok s a → step s a = some s' → Inv s') :
    ∀ (as : List α) {s : σ}, (∀ a ∈ as, allowed a) → Inv s →
      (∀ e ∈ fired step s as, ok e.pre e.label) → Inv (final step s as)
  | [], _, _, hs, _ => hs
  | a :: as, s, hal, hs, hok => by
      cases h : step s a with
      | none => rwa [final_cons_of_none h]
      | some s' =>
        rw [final_cons_of_some h]
        rw [fired_cons_of_some h, List.forall_mem_cons] at hok
        exact final_inv hstep as (fun b hb => hal b (List.mem_cons_of_mem _ hb))
          (hstep s a s' (hal a List.mem_cons_self) hs hok.1 h) hok.2

/-- **The exact-condition rule.**  If `ok` steps keep an invariant that implies `P`, and a step that
is not `ok` breaks `P`, then a run stays in `P` iff all its steps are `ok`. -/
theorem forall_post_iff
    (hstep : ∀ s a s', allowed a → Inv s → ok s a → step s a = some s' → Inv s')
    (hP : ∀ s, Inv s → P s)
    (hbad : ∀ s a s', allowed a → Inv s → ¬ ok s a → step s a = some s' → ¬ P s') :
    ∀ (as : List α) {s : σ}, (∀ a ∈ as, allowed a) → Inv s →
      ((∀ e ∈ fired step s as, P e.post) ↔ ∀ e ∈ fired step s as, ok e.pre e.label)
  | [], _, _, _ => by simp [fired]
  | a :: as, s, hal, hs => by
      cases h : step s a with
      | none => simp [fired_cons_of_none h]
      | some s' =>
        have ha : allowed a := hal a List.mem_cons_self
        simp only [fired_cons_of_some h, List.forall_mem_cons]
        by_cases hok : ok s a
        · have hs' : Inv s' := hstep s a s' ha hs hok h
          have ih := forall_post_iff hstep hP hbad as
            (fun b hb => hal b (List.mem_cons_of_mem _ hb)) hs'
          exact ⟨fun hp => ⟨hok, ih.mp hp.2⟩, fun ho => ⟨hP s' hs', ih.mpr ho.2⟩⟩
        · exact ⟨fun hp => absurd hp.1 (hbad s a s' ha hs hok h), fun ho => absurd ho.1 hok⟩

/-- **The variant rule.**  Where a counted step lowers the variant, and no step raises it by more
than it is granted, a run counts no more steps than the variant it had and what it was granted. -/
theorem countP_fired_add_le (variant granted : σ → ℕ) (counts : Fired σ α → Bool)
    (hstep : ∀ s a s', step s a = some s' →
      variant s' + (if counts ⟨s, a, s'⟩ then 1 else 0) + granted s ≤ variant s + granted s') :
    ∀ (as : List α) (s : σ),
      variant (final step s as) + (fired step s as).countP counts + granted s ≤
        variant s + granted (final step s as)
  | [], s => by simp [final, fired]
  | a :: as, s => by
      cases h : step s a with
      | none => simp [final_cons_of_none h, fired_cons_of_none h]
      | some s' =>
        have hrest := countP_fired_add_le variant granted counts hstep as s'
        have hfirst := hstep s a s' h
        rw [final_cons_of_some h, fired_cons_of_some h, List.countP_cons]
        omega

/-- **The simulation rule.**  Where every step, seen through `f`, is a step of another system, so is
every run: the states it comes to are those of a run of the other. -/
theorem exists_run_of_simulates {τ β : Type*} {step' : τ → β → Option τ} (f : σ → τ)
    (hstep : ∀ s a s', step s a = some s' → ∃ b, step' (f s) b = some (f s')) :
    ∀ (as : List α) (s : σ), ∃ bs,
      (fired step' (f s) bs).map Fired.post = (fired step s as).map (f ∘ Fired.post)
  | [], s => ⟨[], by simp [fired]⟩
  | a :: as, s => by
      cases h : step s a with
      | none =>
        refine ⟨[], ?_⟩
        rw [fired_cons_of_none h]
        rfl
      | some s' =>
        obtain ⟨b, hb⟩ := hstep s a s' h
        obtain ⟨bs, hbs⟩ := exists_run_of_simulates f hstep as s'
        refine ⟨b :: bs, ?_⟩
        rw [fired_cons_of_some hb, fired_cons_of_some h, List.map_cons, List.map_cons, hbs]
        rfl

/-- **The lockstep rule.**  Where a second system can follow each `ok` step of the first, it follows
a run of such steps to the end, by `ok'` ones. -/
theorem lockstep {τ : Type*} {step' : τ → α → Option τ} (R : σ → τ → Prop) (ok' : τ → α → Prop)
    (hstep : ∀ s t a s', allowed a → R s t → ok s a → step s a = some s' →
      ∃ t', step' t a = some t' ∧ ok' t a ∧ R s' t') :
    ∀ (as : List α) {s : σ} {t : τ}, (∀ a ∈ as, allowed a) → R s t →
      (∀ e ∈ fired step s as, ok e.pre e.label) → (fired step s as).length = as.length →
      (fired step' t as).length = as.length ∧ (∀ e ∈ fired step' t as, ok' e.pre e.label) ∧
        R (final step s as) (final step' t as)
  | [], _, _, _, hR, _, _ => ⟨rfl, by simp [fired], hR⟩
  | a :: as, s, t, hal, hR, hok, hall => by
      cases h : step s a with
      | none => simp [fired_cons_of_none h] at hall
      | some s' =>
        rw [fired_cons_of_some h] at hok hall
        obtain ⟨t', ht', hok', hR'⟩ := hstep s t a s' (hal a List.mem_cons_self) hR
          (hok ⟨s, a, s'⟩ List.mem_cons_self) h
        obtain ⟨hlen, hrest, hfinal⟩ := lockstep R ok' hstep as
          (fun b hb => hal b (List.mem_cons_of_mem _ hb)) hR'
          (fun e he => hok e (List.mem_cons_of_mem _ he)) (Nat.succ.inj hall)
        rw [fired_cons_of_some ht', final_cons_of_some h, final_cons_of_some ht']
        exact ⟨congrArg Nat.succ hlen, List.forall_mem_cons.mpr ⟨hok', hrest⟩, hfinal⟩

end Rules

end Transition
