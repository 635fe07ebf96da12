import MtpRetag.App.Moves

/-!
# App/Conservation — no queued file is lost or sent twice

A queued file is in the queue, in the hands of a worker, or in an ended `sendFile` call: `places`
lists them all.  A worker takes its file before it reads the field `usbDevice`, and if the window
has set that field to null the file is gone (`inOnePlace_run_iff`).
-/

namespace MtpRetag

/-- The files of the queue, of the workers and of the ended calls. -/
def CopyState.places (c : CopyState) : List ℕ :=
  c.transferQueue ++ c.workers.flatMap (fun w => w.pc.held) ++ c.sent.map SentFile.details

/-- Every file that was ever queued is in exactly one place. -/
def CopyState.InOnePlace (c : CopyState) : Prop := ∀ d < c.details.length, c.places.count d = 1

instance (c : CopyState) : Decidable c.InOnePlace :=
  inferInstanceAs (Decidable (∀ d < c.details.length, c.places.count d = 1))

/-! ## One step -/

section Places

variable {c : CopyState} {i : ℕ} {w : Worker}

theorem taken_append_transferQueue (c : CopyState) (i : ℕ) (eff : Effect) :
    eff.taken c.transferQueue.head? ++ (c.apply i eff).transferQueue = c.transferQueue := by
  cases eff with
  | remove => cases hqueue : c.transferQueue <;> simp [CopyState.apply, Effect.taken, hqueue]
  | _ => rfl

theorem sent_apply (c : CopyState) (i : ℕ) (eff : Effect) :
    (c.apply i eff).sent.map SentFile.details = c.sent.map SentFile.details ++ eff.finished := by
  cases eff <;> simp [CopyState.apply, Effect.finished]

theorem details_afterWork (c : CopyState) (i : ℕ) (w : Worker) (eff : Effect) :
    (c.afterWork i w eff).details = c.details := by
  cases eff <;> rfl

/-- **The book-keeping of a worker's step.** -/
theorem count_places_afterWork (hw : c.workers[i]? = some w) (pc' : WorkerPc) (eff : Effect)
    (d : ℕ) :
    (c.afterWork i (w.moveTo pc') eff).places.count d +
      ((eff.taken c.transferQueue.head?).count d + w.pc.held.count d) =
    c.places.count d + (pc'.held.count d + eff.finished.count d) := by
  have hqueue := congrArg (List.count d) (taken_append_transferQueue c i eff)
  have hset : ((c.workers.set i (w.moveTo pc')).flatMap fun w => w.pc.held).count d +
      w.pc.held.count d = (c.workers.flatMap fun w => w.pc.held).count d + pc'.held.count d :=
    Pool.count_flatMap_set d hw
  simp only [CopyState.places, CopyState.afterWork, List.count_append, sent_apply] at hqueue ⊢
  omega

end Places

/-! ## Runs without `terminate` -/

/-- What such runs keep: every queued file is in one place, other files are nowhere, and no worker
has been cancelled. -/
structure CopyState.Conserved (c : CopyState) : Prop where
  count : ∀ d, c.places.count d = if d < c.details.length then 1 else 0
  uncancelled : ∀ w ∈ c.workers, w.cancelled = false

/-- A worker that reads the field `usbDevice`, to call `sendFile` on it, finds a device there. -/
def DevicePresent (s : State) (a : Act) : Prop :=
  ∀ i x w d, a = .work i x → s.workers[i]? = some w → w.pc = .readDevice d → s.usbDevice ≠ none

theorem conserved_init : State.init.Conserved := ⟨fun _ => rfl, by simp [State.init]⟩

section Run

variable {s s' : State} {a : Act}

/-- **The book-keeping of a step**: `k` counts the file as lost, and stays what it is unless a
worker drops it. -/
theorem count_move (hmove : Move s a s') {d k : ℕ}
    (hs : s.places.count d + k = if d < s.details.length then 1 else 0) :
    ∃ k', (s'.places.count d + k' = if d < s'.details.length then 1 else 0) ∧
      ((∀ i x w, a = .work i x → s.workers[i]? = some w → ¬ w.pc.Drops s.view w.cancelled) →
        k' = k) := by
  cases hmove with
  | rest hcopy => exact ⟨k, by rwa [hcopy], fun _ => rfl⟩
  | setup | deliver => exact ⟨k, hs, fun _ => rfl⟩
  | stepProgressBar =>
    refine ⟨k, ?_, fun _ => rfl⟩
    dsimp only
    rwa [toCopyState_stepProgressBar]
  | cancel =>
    refine ⟨k, ?_, fun _ => rfl⟩
    have hplaces : s.cancelWorker.places = s.places := by
      rw [CopyState.places, List.flatMap_def, map_cancelWorker]
      rfl
    exact hplaces ▸ hs
  | launch =>
    refine ⟨k, ?_, fun _ => rfl⟩
    have hplaces : s.launch.places = s.places := by
      simp [CopyState.places, State.launch, Worker.new, WorkerPc.held]
    exact hplaces ▸ hs
  | enqueue =>
    refine ⟨k, ?_, fun _ => rfl⟩
    simp only [CopyState.places, State.enqueue, List.count_append, List.count_singleton,
      List.length_append, List.length_singleton] at hs ⊢
    by_cases hd : d = s.details.length
    · subst hd
      simp at hs ⊢
      omega
    · have hbeq : (s.details.length == d) = false := by simpa using fun h => hd h.symm
      have hlt : d < s.details.length + 1 ↔ d < s.details.length := by omega
      simp only [hbeq, hlt, Bool.false_eq_true, if_false]
      omega
  | @work i x w pc' eff hw hnext =>
    have hbooks := count_places_afterWork hw pc' eff d
    dsimp only
    rw [details_afterWork, ← hs]
    by_cases hdrop : w.pc.Drops s.view w.cancelled
    · obtain ⟨hheld, rfl⟩ := held_of_drops hnext hdrop
      refine ⟨k + w.pc.held.count d, ?_, fun hkeep => absurd hdrop (hkeep i x w rfl hw)⟩
      simp only [hheld, Effect.taken, Effect.finished, List.count_nil] at hbooks
      omega
    · have hkeep : (pc'.held ++ eff.finished).count d =
          (eff.taken s.transferQueue.head? ++ w.pc.held).count d :=
        congrArg (List.count d) (held_next hnext hdrop)
      rw [List.count_append, List.count_append] at hkeep
      exact ⟨k, by omega, fun _ => rfl⟩

theorem inOnePlace_of_conserved {c : CopyState} (hc : c.Conserved) : c.InOnePlace := fun d hd => by
  rw [hc.count d, if_pos hd]

/-- A file in a worker's hands is a queued one. -/
theorem lt_of_held {c : CopyState} (hc : c.Conserved) {i d : ℕ} {w : Worker}
    (hw : c.workers[i]? = some w) (hd : d ∈ w.pc.held) : d < c.details.length := by
  have hmem : d ∈ c.places := by
    simp only [CopyState.places, List.mem_append, List.mem_flatMap]
    exact .inl (.inr ⟨w, List.mem_of_getElem? hw, hd⟩)
  by_contra hlt
  have := hc.count d
  rw [if_neg hlt] at this
  exact absurd hmem (List.count_eq_zero.mp this)

/-- Without a cancel, a worker drops its file only where `usbDevice` is null. -/
theorem not_drops (hs : s.Conserved) {i : ℕ} {x : WorkerAct} {w : Worker}
    (hok : DevicePresent s (.work i x)) (hw : s.workers[i]? = some w) :
    ¬ w.pc.Drops s.view w.cancelled := by
  have hc := hs.uncancelled w (List.mem_of_getElem? hw)
  cases hpc : w.pc with
  | checkCancelled d => simp [WorkerPc.Drops, hc]
  | readDevice d => exact hok i x w d rfl hw hpc
  | _ => simp [WorkerPc.Drops]

theorem conserved_move (hmove : Move s a s') (hgui : s.gui ≠ .cancel) (hs : s.Conserved)
    (hok : DevicePresent s a) : s'.Conserved := by
  refine ⟨fun d => ?_, uncancelled_move hmove hgui hs.uncancelled⟩
  obtain ⟨k, hk, hkeep⟩ := count_move (k := 0) hmove (hs.count d)
  rw [← hk, hkeep fun i x w ha hw => not_drops hs (ha ▸ hok) hw, Nat.add_zero]

/-- Where `usbDevice` is null, the file of the worker is lost. -/
theorem not_inOnePlace_of_absent (hs : s.Conserved) (hbad : ¬ DevicePresent s a)
    (h : s.step a = some s') : ¬ s'.InOnePlace := by
  rw [DevicePresent] at hbad
  push Not at hbad
  obtain ⟨i, x, w, d, rfl, hw, hpc, hnull⟩ := hbad
  obtain ⟨w', pc', eff, hw', hnext, -, rfl⟩ := exists_of_workStep h
  obtain rfl : w = w' := Option.some.inj (hw.symm.trans hw')
  obtain ⟨hheld, rfl⟩ := held_of_drops hnext (by rw [hpc]; exact hnull)
  have hmem : w.pc.held = [d] := by rw [hpc]; rfl
  have hlt := lt_of_held hs hw (hmem ▸ List.mem_singleton_self d)
  have hone := inOnePlace_of_conserved hs d hlt
  have hbooks := count_places_afterWork hw pc' .nothing d
  rw [hheld, hmem, List.count_singleton_self] at hbooks
  intro hall
  have hd : (s.afterWork i (w.moveTo pc') .nothing).places.count d = 1 := hall d hlt
  simp only [Effect.taken, Effect.finished, List.count_nil] at hbooks
  omega

end Run

/-- **No file is lost or sent twice, exactly when no worker calls `sendFile` on null.** -/
theorem inOnePlace_run_iff {as : List Act} (h : ∀ a ∈ as, a ≠ .close) :
    (∀ e ∈ Transition.fired State.step .init as, e.post.InOnePlace) ↔
      ∀ e ∈ Transition.fired State.step .init as, DevicePresent e.pre e.label :=
  Transition.forall_post_iff (fun s => s.Conserved ∧ s.gui.terminating = false)
    (fun s => s.InOnePlace) DevicePresent (· ≠ .close)
    (fun _ _ _ ha hs hok hstep =>
      ⟨conserved_move (moves_of_step hstep).copy
        (fun hgui => by simp [hgui, GuiPc.terminating] at hs) hs.1 hok,
        terminating_step hstep ha hs.2⟩)
    (fun _ hs => inOnePlace_of_conserved hs.1)
    (fun _ _ _ _ hs hbad hstep => not_inOnePlace_of_absent hs.1 hbad hstep)
    as h ⟨conserved_init, rfl⟩

/-- In two copies side by side, a file is queued, held and sent, and always in one of the places. -/
theorem inOnePlace_run_iff_twoCopies :
    (∃ e ∈ Transition.fired State.step .init twoCopies, 1 ∈ e.post.transferQueue) ∧
      (∃ e ∈ Transition.fired State.step .init twoCopies, ∃ w ∈ e.post.workers, 1 ∈ w.pc.held) ∧
      (∃ e ∈ Transition.fired State.step .init twoCopies, ⟨1, some 1⟩ ∈ e.post.sent) ∧
      ∀ e ∈ Transition.fired State.step .init twoCopies, e.post.InOnePlace := by
  have hdevice : ∀ e ∈ Transition.fired State.step .init twoCopies,
      e.pre.workers = [] ∨ e.pre.usbDevice ≠ none := by decide
  refine ⟨by decide, by decide, by decide, (inOnePlace_run_iff (by decide)).mpr ?_⟩
  rintro e he i x w d - hw -
  rcases hdevice e he with hnone | hsome
  · simp [hnone] at hw
  · exact hsome

/-- A copy of one file whose implicit connect fails, up to the worker's reading of `usbDevice`. -/
def failedConnect : List Act :=
  [.editList [wide "C:\\a.mp3"], .clickCopy, .answer true ⟨none, []⟩, .gui, .dismiss, .gui,
    .readTags .cannotRead, .gui] ++ ticks 0 8

/-- Its file is lost. -/
theorem not_inOnePlace_failedConnect :
    (∀ a ∈ failedConnect, a ≠ .close) ∧
      ¬ ∀ e ∈ Transition.fired State.step .init failedConnect, e.post.InOnePlace := by
  decide

end MtpRetag
