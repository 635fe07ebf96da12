import MtpRetag.App.Moves

/-!
# App/Shutdown — `terminate` and the worker it waits for

`terminate` cancels the last worker and then waits until its progress is 100.  A worker sets its
progress to 100 and wakes the waiter only where it sees the cancel at the head of its loop; it may
also leave by an exception, never start, or have returned already, and then `terminate` waits for
good (`not_stuck_run_iff`).
-/

namespace MtpRetag

/-- In the wait loop of `terminate`, with a worker that is not going to release it. -/
def State.Stuck (s : State) : Prop :=
  ∃ w ∈ s.worker, w.Ended ∧
    (s.gui = .enterWait ∨ s.gui = .waiting ∨ (s.gui = .getProgress ∧ w.progress ≠ 100))

instance (s : State) : Decidable s.Stuck := inferInstanceAs (Decidable (∃ w ∈ s.worker, _ ∧ _))

/-- The cancel comes while `doInBackground` is running, -/
def CancelsRunning (s : State) (a : Act) : Prop :=
  a = .gui → s.gui = .cancel → ∀ w ∈ s.worker, w.pc.inside = true

/-- …and no exception takes a cancelled worker out of it. -/
def NoLateException (s : State) (a : Act) : Prop :=
  ∀ i x w, a = .work i x → s.workers[i]? = some w → w.cancelled = true → ¬ w.pc.Throws s.view x

/-! ## The invariant -/

/-- The last of the workers is cancelled, and no other. -/
def LastCancelled (l : List Worker) (w : Worker) : Prop :=
  ∃ old, l = old ++ [w] ∧ (∀ x ∈ old, x.cancelled = false) ∧ w.cancelled = true

/-- Where `terminate` is, and what the workers are meanwhile. -/
def InStep (workers : List Worker) : GuiPc → Prop
  | .cancel => workers ≠ [] ∧ ∀ w ∈ workers, w.cancelled = false
  | .getProgress => ∃ w, LastCancelled workers w ∧ (w.pc.inside = true ∨ w.progress = 100)
  | .enterWait | .waiting => ∃ w, LastCancelled workers w ∧ w.pc.inside = true
  | .exited => ∀ w ∈ workers, w.cancelled = true → w.progress = 100
  | _ => ∀ w ∈ workers, w.cancelled = false

/-- The invariant of the runs that end well. -/
structure State.EndsWell (s : State) : Prop where
  progressOk : ∀ w ∈ s.workers, w.ProgressOk
  inStep : InStep s.workers s.gui

section Workers

variable {l : List Worker} {w x x' : Worker} {i : ℕ}

theorem LastCancelled.getLast? (h : LastCancelled l w) : l.getLast? = some w := by
  obtain ⟨old, rfl, -, -⟩ := h
  simp

theorem LastCancelled.cancelled (h : LastCancelled l w) : w.cancelled = true := by
  obtain ⟨old, -, -, hw⟩ := h
  exact hw

/-- A cancelled worker is the last one. -/
theorem LastCancelled.eq_of_cancelled (h : LastCancelled l w) (hx : x ∈ l)
    (hc : x.cancelled = true) : x = w := by
  obtain ⟨old, rfl, hold, -⟩ := h
  rcases List.mem_append.mp hx with hx | hx
  · rw [hold x hx] at hc
    exact absurd hc (by simp)
  · exact List.mem_singleton.mp hx

/-- A step of one worker is a step of the last one, or leaves it alone. -/
theorem LastCancelled.set (h : LastCancelled l w) (hx : l[i]? = some x)
    (hc : x'.cancelled = x.cancelled) :
    (x = w ∧ LastCancelled (l.set i x') x') ∨
      (x.cancelled = false ∧ LastCancelled (l.set i x') w) := by
  obtain ⟨old, rfl, hold, hw⟩ := h
  rcases Nat.lt_trichotomy i old.length with hi | hi | hi
  · rw [List.getElem?_append_left hi] at hx
    have hx0 := hold x (List.mem_of_getElem? hx)
    refine .inr ⟨hx0, old.set i x', by rw [List.set_append_left _ _ hi], ?_, hw⟩
    exact Pool.forall_mem_set hold (hc.trans hx0)
  · subst hi
    obtain rfl : w = x := by simpa using hx
    refine .inl ⟨rfl, old, by simp, hold, hc.trans hw⟩
  · rw [List.getElem?_eq_none (by simp; omega)] at hx
    exact absurd hx (by simp)

end Workers

/-- Outside the wait loop, it is enough that no worker is cancelled. -/
theorem inStep_of_uncancelled {workers : List Worker} {g : GuiPc} (hgui : g ≠ .getProgress ∧
    g ≠ .enterWait ∧ g ≠ .waiting) (hne : g = .cancel → workers ≠ [])
    (hs : ∀ w ∈ workers, w.cancelled = false) : InStep workers g := by
  cases g with
  | cancel => exact ⟨hne rfl, hs⟩
  | getProgress => exact absurd rfl hgui.1
  | enterWait => exact absurd rfl hgui.2.1
  | waiting => exact absurd rfl hgui.2.2
  | exited => exact fun w hw hc => absurd (hs w hw) (by simp [hc])
  | _ => exact hs

/-- …and before the cancel, none is. -/
theorem uncancelled_of_inStep {workers : List Worker} {g : GuiPc} (h : InStep workers g)
    (hgui : g.terminating = false ∨ g = .forgetDevice true ∨ g = .isDone ∨ g = .cancel) :
    ∀ w ∈ workers, w.cancelled = false := by
  cases g with
  | cancel => exact h.2
  | getProgress | enterWait | waiting | exited => simp [GuiPc.terminating] at hgui
  | _ => exact h

/-- A cancelled worker that is not through is the one `terminate` waits for. -/
theorem lastCancelled_of_cancelled {workers : List Worker} {g : GuiPc} {w : Worker}
    (h : InStep workers g) (hw : w ∈ workers) (hc : w.cancelled = true) (hne : w.progress ≠ 100) :
    LastCancelled workers w ∧ (g = .getProgress ∨ g = .enterWait ∨ g = .waiting) := by
  have hun : ¬ ∀ y ∈ workers, y.cancelled = false := fun hun => absurd hc (by simp [hun w hw])
  cases g with
  | cancel => exact absurd h.2 hun
  | getProgress =>
    obtain ⟨w₀, hlast, -⟩ := h
    exact ⟨hlast.eq_of_cancelled hw hc ▸ hlast, .inl rfl⟩
  | enterWait =>
    obtain ⟨w₀, hlast, -⟩ := h
    exact ⟨hlast.eq_of_cancelled hw hc ▸ hlast, .inr (.inl rfl)⟩
  | waiting =>
    obtain ⟨w₀, hlast, -⟩ := h
    exact ⟨hlast.eq_of_cancelled hw hc ▸ hlast, .inr (.inr rfl)⟩
  | exited => exact absurd (h w hw hc) hne
  | _ => exact absurd h hun

theorem progress_moveTo_of_100 {w : Worker} (hw : w.ProgressOk) (h100 : w.progress = 100)
    (pc' : WorkerPc) : (w.moveTo pc').progress = 100 := by
  rw [progress_moveTo, h100]
  rcases hw.behind h100 with h | h | h <;> simp [h]

section Step

variable {s s' : State} {a : Act}

theorem progressOk_move (hmove : Move s a s') (hs : ∀ w ∈ s.workers, w.ProgressOk) :
    ∀ w ∈ s'.workers, w.ProgressOk := by
  intro w hw
  rcases origin_of_move hmove hw with hw | rfl | ⟨-, hw₀, rfl⟩ | ⟨hw₀, hnext, rfl⟩
  · exact hs w hw
  · exact progressOk_new
  · obtain ⟨hc, hb, hn⟩ := hs _ hw₀
    exact ⟨fun h => by simp [hc h], hb, hn⟩
  · exact progressOk_moveTo (hs _ (List.mem_of_getElem? hw₀)) hnext

section Work

variable {i : ℕ} {x : WorkerAct} {w : Worker} {pc' : WorkerPc} {eff : Effect}

/-- A cancelled worker is still inside after a step of some worker, or has a progress of 100; it
comes out by `notifyMe` only. -/
theorem lastCancelled_work (hs : s.EndsWell) (hok : NoLateException s (.work i x))
    (hw : s.workers[i]? = some w) (hnext : w.pc.next s.view w.cancelled x = some (pc', eff))
    {w₀ : Worker} (hlast : LastCancelled s.workers w₀)
    (hcase : w₀.pc.inside = true ∨ w₀.progress = 100) :
    ∃ w', LastCancelled (s.workers.set i (w.moveTo pc')) w' ∧
      (w'.pc.inside = true ∨ w'.progress = 100) ∧
      (eff ≠ .notifyMe → w₀.pc.inside = true → w'.pc.inside = true) := by
  have hwok := hs.progressOk w (List.mem_of_getElem? hw)
  rcases hlast.set hw (cancelled_moveTo w pc') with ⟨rfl, hlast'⟩ | ⟨-, hlast'⟩
  · have hleave := fun hinside => inside_next hnext hinside (hok i x w rfl hw hlast.cancelled)
    refine ⟨_, hlast', ?_, fun heff hinside => ?_⟩
    · rcases hcase with hinside | h100
      · rcases hleave hinside with hinside' | ⟨hpc, -, -⟩
        · exact .inl hinside'
        · exact .inr (progress_moveTo_of_100 hwok (hwok.notify hpc) pc')
      · exact .inr (progress_moveTo_of_100 hwok h100 pc')
    · exact (hleave hinside).resolve_right fun h => heff h.2.2
  · exact ⟨w₀, hlast', hcase, fun _ hinside => hinside⟩

/-- A step of a worker keeps `terminate` in step with it. -/
theorem inStep_work (hs : s.EndsWell) (hok : NoLateException s (.work i x))
    (hw : s.workers[i]? = some w) (hnext : w.pc.next s.view w.cancelled x = some (pc', eff))
    (hmonitor : ¬ (eff = .notifyMe ∧ s.gui.inMonitor)) :
    InStep (s.workers.set i (w.moveTo pc'))
      (if eff = .notifyMe ∧ s.gui = .waiting then .getProgress else s.gui) := by
  have hin := hs.inStep
  have hset : (∀ y ∈ s.workers, y.cancelled = false) →
      ∀ y ∈ s.workers.set i (w.moveTo pc'), y.cancelled = false := fun hun =>
    Pool.forall_mem_set hun ((cancelled_moveTo w pc').trans (hun w (List.mem_of_getElem? hw)))
  by_cases hwaiting : s.gui = .waiting
  · -- the waiter is woken, or its worker has not come to `notifyMe` yet
    rw [hwaiting] at hin ⊢
    obtain ⟨w₀, hlast, hinside⟩ := hin
    obtain ⟨w', hlast', hcase, hstays⟩ := lastCancelled_work hs hok hw hnext hlast (.inl hinside)
    split
    next => exact ⟨w', hlast', hcase⟩
    next hnot => exact ⟨w', hlast', hstays (fun heff => hnot ⟨heff, rfl⟩) hinside⟩
  · rw [if_neg fun h => hwaiting h.2]
    cases hgui : s.gui with
    | cancel =>
      rw [hgui] at hin
      exact ⟨by simp [hin.1], hset hin.2⟩
    | getProgress =>
      rw [hgui] at hin
      obtain ⟨w₀, hlast, hcase⟩ := hin
      obtain ⟨w', hlast', hcase', -⟩ := lastCancelled_work hs hok hw hnext hlast hcase
      exact ⟨w', hlast', hcase'⟩
    | enterWait =>
      rw [hgui] at hin
      obtain ⟨w₀, hlast, hinside⟩ := hin
      obtain ⟨w', hlast', -, hstays⟩ := lastCancelled_work hs hok hw hnext hlast (.inl hinside)
      exact ⟨w', hlast', hstays (fun heff => hmonitor ⟨heff, by rw [hgui]; rfl⟩) hinside⟩
    | waiting => exact absurd hgui hwaiting
    | exited =>
      rw [hgui] at hin
      refine Pool.forall_mem_set hin fun hc => ?_
      have hmem := List.mem_of_getElem? hw
      exact progress_moveTo_of_100 (hs.progressOk w hmem)
        (hin w hmem ((cancelled_moveTo w pc').symm.trans hc)) pc'
    | _ =>
      rw [hgui] at hin
      exact hset hin

end Work

/-- In `terminate`, the GUI thread leaves the workers alone but for the cancel. -/
theorem workers_of_terminating (hmove : Move s a s') (hwork : ¬ ∃ i x, a = .work i x)
    (hs : s.gui.terminating = true) (hcancel : s.gui ≠ .cancel) : s'.workers = s.workers := by
  cases hmove with
  | rest hcopy => rw [hcopy]
  | cancel hgui => exact absurd hgui hcancel
  | work => exact absurd ⟨_, _, rfl⟩ hwork
  | setup hgui | enqueue hgui | launch hgui | deliver hgui | stepProgressBar hgui =>
    simp [hgui, GuiPc.terminating] at hs

/-- A cancel that comes while `doInBackground` is running marks the last worker. -/
theorem lastCancelled_cancelWorker (hne : s.workers ≠ [])
    (hun : ∀ w ∈ s.workers, w.cancelled = false) (hinside : ∀ w ∈ s.worker, w.pc.inside = true) :
    ∃ w, LastCancelled s.cancelWorker.workers w ∧ w.pc.inside = true := by
  obtain ⟨old, w, hworkers⟩ := List.eq_nil_or_concat s.workers |>.resolve_left hne
  have hw : w.pc.inside = true := hinside w (by simp [State.worker, hworkers])
  have hdone : w.pc ≠ .done := by
    intro hpc
    simp [hpc, WorkerPc.inside] at hw
  refine ⟨{ w with cancelled := true }, ⟨old, ?_, fun x hx => hun x ?_, rfl⟩, hw⟩
  · rw [State.cancelWorker, hworkers, List.concat_eq_append, List.length_append,
      List.length_singleton, Nat.add_sub_cancel, Pool.modify_append_singleton]
    simp [hdone]
  · simp [hworkers, hx]

theorem inStep_step (hs : s.EndsWell) (hrun : CancelsRunning s a) (hlate : NoLateException s a)
    (h : s.step a = some s') : InStep s'.workers s'.gui := by
  by_cases hwork : ∃ i x, a = .work i x
  · obtain ⟨i, x, rfl⟩ := hwork
    obtain ⟨w, pc', eff, hw, hnext, hmonitor, rfl⟩ := exists_of_workStep h
    exact inStep_work hs hlate hw hnext hmonitor
  have hmove := (moves_of_step h).copy
  have hgm := (moves_of_step h).gui
  have hin := hs.inStep
  have hsame := workers_of_terminating hmove hwork
  have huncancelled : s.gui ≠ .cancel →
      s.gui.terminating = false ∨ s.gui = .forgetDevice true ∨ s.gui = .isDone ∨ s.gui = .cancel →
        ∀ w ∈ s'.workers, w.cancelled = false := fun hne hgui =>
    uncancelled_move hmove hne (uncancelled_of_inStep hin hgui)
  generalize hg : s'.gui = g at hgm
  cases hgm with
  | window _ hs₀ hg₀ =>
    have hun := huncancelled (fun h => by simp [h, GuiPc.terminating] at hs₀) (.inl hs₀)
    refine inStep_of_uncancelled ⟨?_, ?_, ?_⟩ ?_ hun <;> rintro rfl <;>
      simp [GuiPc.terminating] at hg₀
  | close hs₀ hg₀ =>
    have hun := huncancelled (by simp [hs₀]) (.inl (by rw [hs₀]; rfl))
    rcases hg₀ with rfl | rfl
    · exact hun
    · exact hun
  | forgetDevice hs₀ =>
    exact huncancelled (by simp [hs₀]) (.inr (.inl hs₀))
  | done hs₀ =>
    have hun := huncancelled (by simp [hs₀]) (.inr (.inr (.inl hs₀)))
    exact fun w hw hc => absurd (hun w hw) (by simp [hc])
  | notDone hs₀ hw =>
    have hun := huncancelled (by simp [hs₀]) (.inr (.inr (.inl hs₀)))
    refine ⟨?_, hun⟩
    rw [hsame (hs₀ ▸ rfl) (by simp [hs₀])]
    rintro hnil
    simp [State.worker, hnil] at hw
  | cancel hs₀ =>
    rw [hs₀] at hin
    obtain ⟨w, hlast, hinside⟩ := lastCancelled_cancelWorker hin.1 hin.2 (hrun rfl hs₀)
    rw [State.step, hs₀] at h
    obtain rfl := Option.some.inj h
    exact ⟨w, hlast, .inl hinside⟩
  | exit hs₀ hw h100 =>
    rw [hs₀] at hin
    obtain ⟨w₀, hlast, -⟩ := hin
    obtain rfl := Option.some.inj (hw.symm.trans hlast.getLast?)
    rw [hsame (hs₀ ▸ rfl) (by simp [hs₀])]
    exact fun x hx hc => hlast.eq_of_cancelled hx hc ▸ h100
  | enterWait hs₀ hw hne =>
    rw [hs₀] at hin
    obtain ⟨w₀, hlast, hcase⟩ := hin
    obtain rfl := Option.some.inj (hw.symm.trans hlast.getLast?)
    rw [hsame (hs₀ ▸ rfl) (by simp [hs₀])]
    exact ⟨_, hlast, hcase.resolve_right hne⟩
  | wait hs₀ =>
    rw [hs₀] at hin
    rw [hsame (hs₀ ▸ rfl) (by simp [hs₀])]
    exact hin
  | wake hs₀ =>
    rw [hs₀] at hin
    obtain ⟨w₀, hlast, hinside⟩ := hin
    rw [hsame (hs₀ ▸ rfl) (by simp [hs₀])]
    exact ⟨w₀, hlast, .inl hinside⟩
  | work i x => exact absurd ⟨i, x, rfl⟩ hwork
  | notified => exact absurd ⟨_, _, rfl⟩ hwork

theorem endsWell_step (hs : s.EndsWell) (hrun : CancelsRunning s a) (hlate : NoLateException s a)
    (h : s.step a = some s') : s'.EndsWell :=
  ⟨progressOk_move (moves_of_step h).copy hs.progressOk, inStep_step hs hrun hlate h⟩

/-! ## Exactness -/

/-- The invariant leaves no stuck state. -/
theorem not_stuck_of_endsWell (hs : s.EndsWell) : ¬ s.Stuck := by
  rintro ⟨w, hw, hended, hgui⟩
  have hworker {w₀ : Worker} (hlast : LastCancelled s.workers w₀) : w₀ = w :=
    Option.some.inj (hlast.getLast?.symm.trans hw)
  have houtside : ¬ w.pc.inside = true := by
    rw [hended.1]
    simp
  have hin := hs.inStep
  rcases hgui with hgui | hgui | ⟨hgui, hne⟩ <;> rw [hgui] at hin
  · obtain ⟨w₀, hlast, hinside⟩ := hin
    exact houtside (hworker hlast ▸ hinside)
  · obtain ⟨w₀, hlast, hinside⟩ := hin
    exact houtside (hworker hlast ▸ hinside)
  · obtain ⟨w₀, hlast, hcase⟩ := hin
    exact hne ((hworker hlast ▸ hcase).resolve_left houtside)

/-- A cancel that finds `doInBackground` not running leaves a stuck state, -/
theorem stuck_of_not_running (hs : s.EndsWell) (hbad : ¬ CancelsRunning s a)
    (h : s.step a = some s') : s'.Stuck := by
  rw [CancelsRunning] at hbad
  push Not at hbad
  obtain ⟨rfl, hgui, w, hw, hout⟩ := hbad
  have hin := hs.inStep
  rw [hgui] at hin
  obtain ⟨old, w₀, hworkers⟩ := List.eq_nil_or_concat s.workers |>.resolve_left hin.1
  obtain rfl : w₀ = w := by simpa [State.worker, hworkers] using hw
  have hmem : w₀ ∈ s.workers := by simp [hworkers]
  have hcancelled : ¬ w₀.cancelled = true := by simp [hin.2 w₀ hmem]
  have hne : w₀.progress ≠ 100 := fun h100 =>
    hcancelled ((hs.progressOk w₀ hmem).cancelled (.inr h100))
  rw [State.step, hgui] at h
  obtain rfl := Option.some.inj h
  refine ⟨{ w₀ with cancelled := w₀.cancelled || w₀.pc ≠ .done }, ?_, ?_, .inr (.inr ⟨rfl, hne⟩)⟩
  · rw [State.worker, State.cancelWorker, hworkers, List.concat_eq_append, List.length_append,
      List.length_singleton, Nat.add_sub_cancel, Pool.modify_append_singleton]
    simp
  · exact ⟨by simpa using hout, fun hpc => by simp [show w₀.pc = .pending from hpc]⟩

/-- …and so does an exception of a cancelled worker. -/
theorem stuck_of_late_exception (hs : s.EndsWell) (hbad : ¬ NoLateException s a)
    (h : s.step a = some s') : s'.Stuck := by
  rw [NoLateException] at hbad
  push Not at hbad
  obtain ⟨i, x, w, rfl, hw, hc, hthrow⟩ := hbad
  obtain ⟨w', pc', eff, hw', hnext, -, rfl⟩ := exists_of_workStep h
  obtain rfl := Option.some.inj (hw.symm.trans hw')
  obtain ⟨rfl, heff⟩ := pc'_of_throws hnext hthrow
  have hwok := hs.progressOk w (List.mem_of_getElem? hw)
  have hne : w.progress ≠ 100 := fun h100 => by
    rcases hwok.behind h100 with hpc | hpc | hpc <;> simp [hpc, WorkerPc.Throws] at hthrow
  have hne' : (w.moveTo .returned).progress ≠ 100 := by
    rw [progress_moveTo]
    split
    · decide
    · split
      next hpc => simp [hpc, WorkerPc.Throws] at hthrow
      next => exact hne
  obtain ⟨hlast, hgui⟩ :=
    lastCancelled_of_cancelled hs.inStep (List.mem_of_getElem? hw) hc hne
  rcases hlast.set hw (cancelled_moveTo w .returned) with ⟨-, hlast'⟩ | ⟨hc', -⟩
  · refine ⟨_, hlast'.getLast?, ⟨rfl, by simp⟩, ?_⟩
    have hg : (if eff = .notifyMe ∧ s.gui = .waiting then GuiPc.getProgress else s.gui) = s.gui :=
      if_neg fun h => heff h.1
    rcases hgui with h | h | h
    · exact .inr (.inr ⟨hg.trans h, hne'⟩)
    · exact .inl (hg.trans h)
    · exact .inr (.inl (hg.trans h))
  · exact absurd hc (by simp [hc'])

end Step

/-- **`terminate` never waits for a worker that has left, exactly when** its cancel finds the worker
running and no exception takes the cancelled worker out. -/
theorem not_stuck_run_iff (as : List Act) :
    (∀ e ∈ Transition.fired State.step .init as, ¬ e.post.Stuck) ↔
      ∀ e ∈ Transition.fired State.step .init as,
        CancelsRunning e.pre e.label ∧ NoLateException e.pre e.label :=
  Transition.forall_post_iff State.EndsWell (fun s => ¬ s.Stuck)
    (fun s a => CancelsRunning s a ∧ NoLateException s a) (fun _ => True)
    (fun _ _ _ _ hs hok hstep => endsWell_step hs hok.1 hok.2 hstep)
    (fun _ hs => not_stuck_of_endsWell hs)
    (fun _ _ _ _ hs hbad hstep => not_not_intro
      ((not_and_or.mp hbad).elim (fun h => stuck_of_not_running hs h hstep)
        fun h => stuck_of_late_exception hs h hstep))
    as (fun _ _ => trivial) ⟨by simp [State.init], by simp [State.init, InStep]⟩

/-- A copy of one file, and a close when it has been sent. -/
def closeAfterLastFile : List Act :=
  connectPlayer ++ copyOneFile (wide "C:\\a.mp3") ++ ticks 0 9 ++
    [.work 0 (.ret 0), .close, .gui, .gui, .gui] ++ ticks 0 7

/-- The worker finds the queue empty, and `terminate` waits for good. -/
theorem stuck_closeAfterLastFile :
    ¬ ∀ e ∈ Transition.fired State.step .init closeAfterLastFile, ¬ e.post.Stuck := by
  decide

end MtpRetag
