import MtpRetag.App.Batch
import MtpRetag.App.Conservation

/-!
# App/Completion — copying comes to an end

A worker has no loop but the one over the queue, and each round takes a file from it.  So the steps
that are left to the workers, on the files that are queued and behind them, go down with every step
they make (`stepsLeft_next`); waiting in `transfer_file` is the one step that does not count.  And
as long as a worker is not done, one of them can go on, or the GUI thread is in `terminate` and can
(`workers_finish`).

What has been done by then is a question of who attends to the queue: in a run that nothing disturbs
no file is left in it without a worker that will come back to it (`copies_complete`).
-/

namespace MtpRetag

/-! ## The steps that are left -/

/-- The steps a worker makes from here on if it finds the queue empty. -/
def WorkerPc.stepsLeft : WorkerPc → ℕ
  | .pending => 7
  | .setProgress0 => 6
  | .initOld => 5
  | .initNew => 4
  | .fireStart => 3
  | .remove => 2
  | .checkCancelled _ => 12
  | .readDevice _ => 11
  | .lookup _ _ => 10
  | .transfer _ _ => 9
  | .readOk => 8
  | .writeOk _ => 7
  | .writeOld => 6
  | .writeNew => 5
  | .fire => 4
  | .countFile => 3
  | .setProgress100 => 3
  | .notifyMe => 2
  | .returned => 1
  | .done => 0

/-- The worker stays in `transfer_file`. -/
def WorkerPc.waits : WorkerPc → WorkerAct → Bool
  | .transfer _ _, .tick => true
  | _, _ => false

/-- A step of a worker that does not wait. -/
def State.works (s : State) : Act → Bool
  | .work i x => s.workers[i]?.any fun w => ! w.pc.waits x
  | _ => false

/-- What is left to the workers: a queued file costs one round, of eleven steps. -/
def CopyState.stepsLeft (c : CopyState) : ℕ :=
  11 * c.transferQueue.length + (c.workers.map fun w => w.pc.stepsLeft).sum

/-- What they have been given: the files, and the seven steps of a worker outside its rounds. -/
def CopyState.stepsGranted (c : CopyState) : ℕ := 11 * c.details.length + 7 * c.workers.length

section Variant

variable {s s' : State} {a : Act}

/-- **Every step counts down**, a taken file aside. -/
theorem stepsLeft_next {v : WorkerView} {isCancelled : Bool} {pc pc' : WorkerPc} {x : WorkerAct}
    {eff : Effect} (h : pc.next v isCancelled x = some (pc', eff)) :
    pc'.stepsLeft + (if pc.waits x then 0 else 1) ≤
      pc.stepsLeft + 11 * (eff.taken v.head).length := by
  revert h
  fun_cases WorkerPc.next v isCancelled pc x
  all_goals rintro ⟨⟩
  all_goals simp_all [WorkerPc.stepsLeft, WorkerPc.waits, Effect.taken]

/-- A worker's step, in the books of all. -/
theorem stepsLeft_afterWork {i : ℕ} {x : WorkerAct} {w : Worker} {pc' : WorkerPc} {eff : Effect}
    (hw : s.workers[i]? = some w) (hnext : w.pc.next s.view w.cancelled x = some (pc', eff)) :
    (s.afterWork i (w.moveTo pc') eff).stepsLeft + (if s.works (.work i x) then 1 else 0) ≤
      s.stepsLeft := by
  have hstep := stepsLeft_next hnext
  have hqueue := congrArg List.length (taken_append_transferQueue s.toCopyState i eff)
  rw [List.length_append] at hqueue
  have hset := Pool.sum_map_set (f := fun w : Worker => w.pc.stepsLeft) (b := w.moveTo pc') hw
  have hcount : (if s.works (.work i x) then 1 else 0) = if w.pc.waits x then 0 else 1 := by
    simp only [State.works, hw, Option.any_some]
    cases w.pc.waits x <;> rfl
  have hhead : s.view.head = s.transferQueue.head? := rfl
  rw [hhead] at hstep
  rw [hcount]
  simp only [CopyState.stepsLeft, CopyState.afterWork, pc_moveTo] at hset ⊢
  omega

/-- No step leaves the workers more than it grants them. -/
theorem stepsLeft_move (hmove : Move s a s') :
    s'.stepsLeft + s.stepsGranted ≤ s.stepsLeft + s'.stepsGranted := by
  cases hmove with
  | rest hcopy => rw [hcopy]
  | setup | deliver => exact le_rfl
  | stepProgressBar =>
    dsimp only
    rw [toCopyState_stepProgressBar]
  | cancel =>
    have hmap := map_cancelWorker WorkerPc.stepsLeft s
    have hlength := congrArg List.length (map_cancelWorker id s)
    simp only [List.length_map] at hlength
    simp only [CopyState.stepsLeft, CopyState.stepsGranted, hmap, hlength]
    exact le_rfl
  | launch =>
    simp only [CopyState.stepsLeft, CopyState.stepsGranted, State.launch, List.map_append,
      List.sum_append, List.length_append, List.map_singleton, List.sum_singleton,
      List.length_singleton, Worker.new, WorkerPc.stepsLeft]
    omega
  | enqueue =>
    simp only [CopyState.stepsLeft, CopyState.stepsGranted, State.enqueue, List.length_append,
      List.length_singleton]
    omega
  | @work i x w pc' eff hw hnext =>
    have hleft := stepsLeft_afterWork hw hnext
    have hgranted : (s.afterWork i (w.moveTo pc') eff).stepsGranted = s.stepsGranted := by
      rw [CopyState.stepsGranted, details_afterWork]
      simp [CopyState.stepsGranted, CopyState.afterWork]
    dsimp only
    omega

theorem stepsGranted_afterWork (c : CopyState) (i : ℕ) (w : Worker) (eff : Effect) :
    (c.afterWork i w eff).stepsGranted = c.stepsGranted := by
  rw [CopyState.stepsGranted, details_afterWork, CopyState.stepsGranted, CopyState.afterWork,
    List.length_set]

/-- **The books of a step**: one that works leaves a step less. -/
theorem stepsLeft_step (h : s.step a = some s') :
    s'.stepsLeft + (if s.works a then 1 else 0) + s.stepsGranted ≤
      s.stepsLeft + s'.stepsGranted := by
  cases a with
  | work i x =>
    obtain ⟨w, pc', eff, hw, hnext, -, rfl⟩ := exists_of_workStep h
    have hleft := stepsLeft_afterWork hw hnext
    have hgranted := stepsGranted_afterWork s.toCopyState i (w.moveTo pc') eff
    dsimp only
    omega
  | _ => exact stepsLeft_move (moves_of_step h).copy

/-- A worker that is not done can go on without waiting, where `notifyMe` can be entered. -/
theorem exists_next {pc : WorkerPc} (v : WorkerView) (isCancelled : Bool) (hpc : pc ≠ .done) :
    ∃ x pc' eff, pc.waits x = false ∧ pc.next v isCancelled x = some (pc', eff) := by
  cases pc with
  | done => exact absurd rfl hpc
  | transfer details usbdev => exact ⟨.ret 1, .writeOld, .sent details (some 1), rfl, rfl⟩
  | pending | checkCancelled =>
    cases isCancelled <;> exact ⟨.tick, _, _, rfl, rfl⟩
  | remove =>
    cases hhead : v.head with
    | none => exact ⟨.tick, .returned, .nothing, rfl, by rw [WorkerPc.next, hhead]⟩
    | some details =>
      exact ⟨.tick, .checkCancelled details, .remove, rfl, by rw [WorkerPc.next, hhead]⟩
  | readDevice details =>
    cases hdev : v.usbDevice with
    | none => exact ⟨.tick, .returned, .nothing, rfl, by rw [WorkerPc.next, hdev]⟩
    | some jdev => exact ⟨.tick, .lookup details jdev, .nothing, rfl, by rw [WorkerPc.next, hdev]⟩
  | lookup details jdev =>
    cases hdev : v.getDevicebyid jdev with
    | none => exact ⟨.tick, .writeOld, _, rfl, by rw [WorkerPc.next, hdev]⟩
    | some usbdev => exact ⟨.tick, .transfer details usbdev, _, rfl, by rw [WorkerPc.next, hdev]⟩
  | _ => exact ⟨.tick, _, _, rfl, rfl⟩

theorem workStep_isSome {i : ℕ} {x : WorkerAct} {w : Worker} {pc' : WorkerPc} {eff : Effect}
    (hw : s.workers[i]? = some w) (hnext : w.pc.next s.view w.cancelled x = some (pc', eff))
    (hmonitor : ¬ (eff = .notifyMe ∧ s.gui.inMonitor)) : (s.step (.work i x)).isSome := by
  rw [State.step, State.workStep, hw]
  simp [Worker.step, hnext, hmonitor]

/-- In `terminate`, and not waiting, the GUI thread can go on. -/
theorem guiStep_isSome (hworkers : s.workers ≠ []) (h : s.gui.inMonitor = true) :
    (s.step .gui).isSome := by
  have hworker : s.worker = some (s.workers.getLast hworkers) :=
    List.getLast?_eq_some_getLast hworkers
  rw [State.step]
  cases hgui : s.gui with
  | getProgress => simp [State.guiStep, hworker]
  | isDone => simp [State.guiStep, hworker]
  | cancel | enterWait => rfl
  | forgetDevice terminating => rfl
  | _ => simp [hgui, GuiPc.inMonitor] at h

/-- As long as a worker is not done, there is a step to make. -/
theorem exists_step (hlive : ¬ s.AllDone) :
    (∃ i x, s.works (.work i x) = true ∧ (s.step (.work i x)).isSome) ∨
      (s.gui.inMonitor = true ∧ (s.step .gui).isSome) := by
  rw [CopyState.AllDone] at hlive
  push Not at hlive
  obtain ⟨w, hmem, hpc⟩ := hlive
  obtain ⟨i, hw⟩ := List.mem_iff_getElem?.mp hmem
  obtain ⟨x, pc', eff, hwaits, hnext⟩ := exists_next s.view w.cancelled hpc
  by_cases hmonitor : eff = .notifyMe ∧ s.gui.inMonitor = true
  · exact .inr ⟨hmonitor.2, guiStep_isSome (List.ne_nil_of_mem hmem) hmonitor.2⟩
  · exact .inl ⟨i, x, by simp [State.works, hw, hwaits], workStep_isSome hw hnext hmonitor⟩

end Variant

/-- **The workers finish.**  In every run, whatever fails in it, they make no more than eleven steps
for each queued file and seven for each worker, besides waiting in `transfer_file`; and where it
ends, they are done, or one of them can go on, or the GUI thread is in `terminate` and can. -/
theorem workers_finish (as : List Act) :
    ((Transition.fired State.step .init as).countP fun e => e.pre.works e.label) ≤
        11 * (Transition.final State.step .init as).details.length +
          7 * (Transition.final State.step .init as).workers.length ∧
    ((Transition.final State.step .init as).AllDone ∨
      (∃ i x, (Transition.final State.step .init as).works (.work i x) = true ∧
        ((Transition.final State.step .init as).step (.work i x)).isSome) ∨
      ((Transition.final State.step .init as).gui.inMonitor = true ∧
        ((Transition.final State.step .init as).step .gui).isSome)) := by
  refine ⟨?_, or_iff_not_imp_left.mpr exists_step⟩
  have hcount := Transition.countP_fired_add_le (fun s : State => s.stepsLeft)
    (fun s => s.stepsGranted) (fun e => e.pre.works e.label) (fun _ _ _ h => stepsLeft_step h) as
    State.init
  have hinit : State.init.stepsLeft = 0 := rfl
  have hgranted : State.init.stepsGranted = 0 := rfl
  simp only [CopyState.stepsGranted] at hcount hgranted
  omega

/-! ## What has been done -/

/-- A step of a worker that leaves its loop by an exception, the end of the queue aside. -/
def WorkerPc.fails (v : WorkerView) (x : WorkerAct) : WorkerPc → Bool
  | .readDevice _ => v.usbDevice = none
  | .lookup _ _ | .transfer _ _ => x = .throw
  | _ => false

/-- The file whose tags Copy is about to read. -/
def State.reading (s : State) : Option WStr :=
  match s.gui with
  | .copyFiles index => s.listModel[index]?
  | _ => none

/-- A step that disturbs no copy: no worker fails, and Copy is not left by an exception about a
tag. -/
def Undisturbed (s : State) : Act → Prop
  | .work i x => ∀ w ∈ s.workers[i]?, w.pc.fails s.view x = false
  | .readTags o => ∀ path ∈ s.reading, copyFileDetails path o ≠ none
  | _ => True

instance (s : State) : ∀ a, Decidable (Undisturbed s a)
  | .work i x => inferInstanceAs (Decidable (∀ w ∈ s.workers[i]?, w.pc.fails s.view x = false))
  | .readTags o => inferInstanceAs (Decidable (∀ path ∈ s.reading, copyFileDetails path o ≠ none))
  | .editList _ | .clickConnect _ | .clickCopy | .answer _ _ | .dismiss | .close | .deliver | .gui
  | .wake => inferInstanceAs (Decidable True)

/-- The worker will come back to the queue. -/
def WorkerPc.attends : WorkerPc → Bool
  | .setProgress100 | .notifyMe | .returned | .done => false
  | _ => true

/-- Copy is at its list of files, or a worker is on its way to the queue, or the queue is empty. -/
def State.Attended (s : State) : Prop :=
  s.transferQueue = [] ∨ (∃ index, s.gui = .copyFiles index) ∨ ∃ w ∈ s.workers, w.pc.attends = true

section Attended

variable {s s' : State} {a : Act}

/-- **A worker leaves the queue empty.** -/
theorem attends_next {v : WorkerView} {pc pc' : WorkerPc} {x : WorkerAct} {eff : Effect}
    (h : pc.next v false x = some (pc', eff)) (hpc : pc.attends = true)
    (hok : pc.fails v x = false) : pc'.attends = true ∨ (v.head = none ∧ eff = .nothing) := by
  revert h
  fun_cases WorkerPc.next v false pc x
  all_goals rintro ⟨⟩
  all_goals simp_all [WorkerPc.attends, WorkerPc.fails]

theorem attended_work {i : ℕ} {x : WorkerAct} {w : Worker} {pc' : WorkerPc} {eff : Effect}
    (hs : s.Attended) (hw : s.workers[i]? = some w)
    (hnext : w.pc.next s.view w.cancelled x = some (pc', eff)) (hcancel : w.cancelled = false)
    (hok : w.pc.fails s.view x = false) {g : GuiPc}
    (hg : ∀ index, s.gui = .copyFiles index → g = s.gui) :
    State.Attended { s with toCopyState := s.afterWork i (w.moveTo pc') eff, gui := g } := by
  have hi : i < s.workers.length := (List.getElem?_eq_some_iff.mp hw).1
  rcases hs with hqueue | ⟨index, hgui⟩ | ⟨w₀, hw₀, hattends⟩
  · have htaken := taken_append_transferQueue s.toCopyState i eff
    rw [hqueue, List.append_eq_nil_iff] at htaken
    exact .inl htaken.2
  · exact .inr (.inl ⟨index, (hg index hgui).trans hgui⟩)
  · obtain ⟨j, hj⟩ := List.mem_iff_getElem?.mp hw₀
    by_cases hij : i = j
    · subst hij
      obtain rfl : w = w₀ := Option.some.inj (hw.symm.trans hj)
      rw [hcancel] at hnext
      rcases attends_next hnext hattends hok with hattends' | ⟨hhead, rfl⟩
      · exact .inr (.inr ⟨w.moveTo pc', List.mem_set hi _, hattends'⟩)
      · exact .inl (List.head?_eq_none_iff.mp hhead)
    · have hkept : (s.workers.set i (w.moveTo pc'))[j]? = some w₀ := by
        rw [List.getElem?_set_ne hij, hj]
      exact .inr (.inr ⟨w₀, List.mem_of_getElem? hkept, hattends⟩)

/-- From its list Copy goes on to the next file, or to the new worker. -/
theorem attended_of_copyFiles {index : ℕ} (hgui : s.gui = .copyFiles index)
    (hok : Undisturbed s a) (hwork : ∀ i x, a ≠ .work i x) (h : s.step a = some s') :
    s'.Attended := by
  cases a with
  | work i x => exact absurd rfl (hwork i x)
  | gui =>
    rw [State.step, hgui, State.guiStep] at h
    split at h
    · simp at h
    · obtain rfl := Option.some.inj h
      exact .inr (.inr ⟨Worker.new, by simp [State.launch], rfl⟩)
  | readTags o =>
    rw [State.step, hgui] at h
    obtain ⟨path, hpath, rfl⟩ := Option.map_eq_some_iff.mp h
    have hread : s.reading = some path := by
      rw [State.reading, hgui]
      exact hpath
    cases hdetails : copyFileDetails path o with
    | none => exact absurd hdetails (hok path hread)
    | some details => exact .inr (.inl ⟨index + 1, rfl⟩)
  | _ => simp [State.step, hgui] at h

/-- What a step of the GUI thread leaves to the workers. -/
theorem attended_move (hmove : Move s a s') (hwork : ∀ i x, a ≠ .work i x)
    (hs : s.transferQueue = [] ∨ ∃ w ∈ s.workers, w.pc.attends = true) : s'.Attended := by
  cases hmove with
  | rest hcopy =>
    rw [State.Attended, hcopy]
    exact hs.imp_right .inr
  | setup | deliver => exact hs.imp_right .inr
  | stepProgressBar =>
    have hcopy := toCopyState_stepProgressBar s
    rw [State.Attended]
    dsimp only
    rw [hcopy]
    exact hs.imp_right .inr
  | enqueue => exact .inr (.inl ⟨_, rfl⟩)
  | launch => exact .inr (.inr ⟨Worker.new, by simp [State.launch], rfl⟩)
  | cancel =>
    rcases hs with hqueue | ⟨w, hw, hattends⟩
    · exact .inl hqueue
    refine .inr (.inr ?_)
    have hmem := List.mem_map_of_mem (f := fun w : Worker => w.pc.attends) hw
    rw [← map_cancelWorker WorkerPc.attends s, hattends] at hmem
    obtain ⟨w', hw', hattends'⟩ := List.mem_map.mp hmem
    exact ⟨w', hw', hattends'⟩
  | work => exact absurd rfl (hwork _ _)

/-- **The queue stays attended** as long as nothing disturbs. -/
theorem attended_step (hs : s.Attended) (hcancel : ∀ w ∈ s.workers, w.cancelled = false)
    (hok : Undisturbed s a) (h : s.step a = some s') : s'.Attended := by
  cases a with
  | work i x =>
    obtain ⟨w, pc', eff, hw, hnext, -, rfl⟩ := exists_of_workStep h
    refine attended_work hs hw hnext (hcancel w (List.mem_of_getElem? hw)) (hok w hw)
      fun index hgui => if_neg fun hnotify => ?_
    simp [hgui] at hnotify
  | _ =>
    rcases hs with hqueue | ⟨index, hgui⟩ | hattends
    · exact attended_move (moves_of_step h).copy (by simp) (.inl hqueue)
    · exact attended_of_copyFiles hgui hok (by simp) h
    · exact attended_move (moves_of_step h).copy (by simp) (.inr hattends)

theorem devicePresent_of_undisturbed (hok : Undisturbed s a) : DevicePresent s a := by
  rintro i x w d rfl hw hpc hnull
  have hfails := hok w hw
  simp [hpc, WorkerPc.fails, State.view, hnull] at hfails

end Attended

/-- **Copying completes.**  In a run without `terminate` that nothing disturbs, each time the
workers are done and Copy is not at its list, the queue is empty and every file that was ever queued
has been sent exactly once. -/
theorem copies_complete (as : List Act) (hclose : ∀ a ∈ as, a ≠ .close)
    (hok : ∀ e ∈ Transition.fired State.step .init as, Undisturbed e.pre e.label) :
    (Transition.final State.step .init as).AllDone →
      (∀ index, (Transition.final State.step .init as).gui ≠ .copyFiles index) →
      (Transition.final State.step .init as).transferQueue = [] ∧
        ∀ d < (Transition.final State.step .init as).details.length,
          ((Transition.final State.step .init as).sent.map SentFile.details).count d = 1 := by
  intro hdone hcopy
  obtain ⟨hs, -, hattended⟩ := Transition.final_inv
    (fun s : State => s.Conserved ∧ s.gui.terminating = false ∧ s.Attended) Undisturbed (· ≠ .close)
    (fun _ _ _ ha hs hok hstep =>
      ⟨conserved_move (moves_of_step hstep).copy
          (fun hgui => by simp [hgui, GuiPc.terminating] at hs) hs.1
          (devicePresent_of_undisturbed hok),
        terminating_step hstep ha hs.2.1, attended_step hs.2.2 hs.1.uncancelled hok hstep⟩)
    as hclose ⟨conserved_init, rfl, .inl rfl⟩ hok
  have hqueue : (Transition.final State.step .init as).transferQueue = [] := by
    rcases hattended with hqueue | ⟨index, hgui⟩ | ⟨w, hw, hattends⟩
    · exact hqueue
    · exact absurd hgui (hcopy index)
    · simp [hdone w hw, WorkerPc.attends] at hattends
  have hheld : (Transition.final State.step .init as).workers.flatMap (fun w => w.pc.held) = [] :=
    List.flatMap_eq_nil_iff.mpr fun w hw => by rw [hdone w hw]; rfl
  refine ⟨hqueue, fun d hd => ?_⟩
  have hcount := inOnePlace_of_conserved hs d hd
  rwa [CopyState.places, hqueue, hheld, List.nil_append, List.nil_append] at hcount

/-- Both files of two copies side by side are sent. -/
theorem copies_complete_twoCopies :
    (Transition.final State.step .init twoCopies).details.length = 2 ∧
      (Transition.final State.step .init twoCopies).transferQueue = [] ∧
      ∀ d < (Transition.final State.step .init twoCopies).details.length,
        ((Transition.final State.step .init twoCopies).sent.map SentFile.details).count d = 1 := by
  have hgui : (Transition.final State.step .init twoCopies).gui = .idle := by decide
  exact ⟨by decide, copies_complete twoCopies (by decide) (by decide)
    (by rw [CopyState.AllDone]; decide) fun index => by rw [hgui]; simp⟩

end MtpRetag
