import MtpRetag.App.Machine
import MtpRetag.Machinery.Transition
import MtpRetag.Machinery.Pool

/-!
# App/Moves — what a step can do

The one case analysis of `State.step`: `moves_of_step` says what a step can do to the memory the
workers share and to the bar (`Move`), to the GUI thread (`GuiMove`), and to the devices
(`DeviceMove`).  The properties of the runs are proved from these, and none of them unfolds the step
function again.
-/

namespace MtpRetag

/-- **What a step can do** to what the workers share and to the progress bar. -/
inductive Move (s : State) : Act → State → Prop
  | rest {a : Act} {s' : State} (hcopy : s'.toCopyState = s.toCopyState)
      (hbar : s'.progressBar = s.progressBar) (hhandling : s'.gui.handling ≤ s.gui.handling)
      (hgui : ∀ index, s'.gui ≠ .copyFiles index) : Move s a s'
  | setup (hgui : s.gui = .setupBar) : Move s .gui s.setupBar
  | enqueue {index : ℕ} (hgui : s.gui = .copyFiles index) (hindex : index < s.listModel.length)
      (o : TagOutcome) (details : CopyFileDetails) :
      Move s (.readTags o) { s.enqueue details with gui := .copyFiles (index + 1) }
  | launch {index : ℕ} (hgui : s.gui = .copyFiles index) : Move s .gui s.launch
  | deliver {back : Dispatching} {i : ℕ} {events : List ℕ} (hgui : s.gui = .dispatching back)
      (hevents : s.events = i :: events) (newValue : ℤ) :
      Move s .deliver { s with events := events, gui := .propertyChange i newValue back }
  | stepProgressBar {back : Dispatching} (hgui : s.gui = .stepProgressBar back) :
      Move s .gui { s.stepProgressBar with gui := .dispatching back }
  | cancel (hgui : s.gui = .cancel) : Move s .gui { s.cancelWorker with gui := .getProgress }
  | work {i : ℕ} {a : WorkerAct} {w : Worker} {pc' : WorkerPc} {eff : Effect}
      (hw : s.workers[i]? = some w) (hnext : w.pc.next s.view w.cancelled a = some (pc', eff))
      (hmonitor : ¬ (eff = .notifyMe ∧ s.gui.inMonitor)) :
      Move s (.work i a) { s with
        toCopyState := s.afterWork i (w.moveTo pc') eff
        gui := if eff = .notifyMe ∧ s.gui = .waiting then .getProgress else s.gui }

/-- **What a step can do to the GUI thread**: move about outside `terminate`, enter it, or go on in
it. -/
inductive GuiMove (s : State) : Act → GuiPc → Prop
  | window (a : Act) {g : GuiPc} (hs : s.gui.terminating = false) (hg : g.terminating = false) :
      GuiMove s a g
  | close {g : GuiPc} (hs : s.gui = .idle) (hg : g = .forgetDevice true ∨ g = .isDone) :
      GuiMove s .close g
  | forgetDevice (hs : s.gui = .forgetDevice true) : GuiMove s .gui .isDone
  | done (hs : s.gui = .isDone) (hdone : ∀ w, s.worker = some w → w.pc = .done ∨ w.cancelled) :
      GuiMove s .gui .exited
  | notDone (hs : s.gui = .isDone) {w : Worker} (hw : s.worker = some w) : GuiMove s .gui .cancel
  | cancel (hs : s.gui = .cancel) : GuiMove s .gui .getProgress
  | exit (hs : s.gui = .getProgress) {w : Worker} (hw : s.worker = some w)
      (hprogress : w.progress = 100) : GuiMove s .gui .exited
  | enterWait (hs : s.gui = .getProgress) {w : Worker} (hw : s.worker = some w)
      (hprogress : w.progress ≠ 100) : GuiMove s .gui .enterWait
  | wait (hs : s.gui = .enterWait) : GuiMove s .gui .waiting
  | wake (hs : s.gui = .waiting) : GuiMove s .wake .getProgress
  | work (i : ℕ) (a : WorkerAct) : GuiMove s (.work i a) s.gui
  | notified {i : ℕ} {a : WorkerAct} (hs : s.gui = .waiting) : GuiMove s (.work i a) .getProgress

/-- **What a step can do to the devices**, with the devices it deletes. -/
inductive DeviceMove (d : DeviceState) : List ℕ → DeviceState → Prop
  | rest : DeviceMove d [] d
  | refresh (found : List WStr) : DeviceMove d d.registered (d.refreshDevices found)
  | assign (usbDevice : Option WStr) : DeviceMove d [] { d with usbDevice := usbDevice }
  | release (jdev : WStr) :
      DeviceMove d (d.listDevices.lookup jdev).toList (d.releaseDevice jdev)

/-- The devices that a scan deletes, -/
def DeviceState.deletedByScan (d : DeviceState) (scan : DeviceScan) : List ℕ :=
  if scan.refreshed = none then [] else d.registered

/-- …and those that `usbDisconnect` deletes. -/
def DeviceState.deletedByDisconnect (d : DeviceState) : List ℕ :=
  d.usbDevice.elim [] fun jdev => (d.listDevices.lookup jdev).toList

/-- The devices that a step deletes. -/
def State.deletes (s : State) : Act → List ℕ
  | .clickConnect scan =>
    if s.connected then s.deletedByDisconnect else s.deletedByScan scan
  | .answer ok scan => if ok then s.deletedByScan scan else []
  | .close => if s.connected then s.deletedByDisconnect else []
  | _ => []

section Moves

variable {s s' : State}

/-- A cancel changes nothing of a worker but the flag. -/
theorem map_cancelWorker {β : Type*} (f : WorkerPc → β) (s : State) :
    (s.cancelWorker.workers.map fun w => f w.pc) = s.workers.map fun w => f w.pc := by
  rw [State.cancelWorker, Pool.map_modify_of_eq]
  exact fun _ => rfl

theorem exists_of_workStep {i : ℕ} {a : WorkerAct} (h : s.workStep i a = some s') :
    ∃ w pc' eff, s.workers[i]? = some w ∧ w.pc.next s.view w.cancelled a = some (pc', eff) ∧
      ¬ (eff = .notifyMe ∧ s.gui.inMonitor) ∧
      s' = { s with
        toCopyState := s.afterWork i (w.moveTo pc') eff
        gui := if eff = .notifyMe ∧ s.gui = .waiting then .getProgress else s.gui } := by
  rw [State.workStep] at h
  split at h
  next => simp at h
  next w hw =>
    split at h
    next => simp at h
    next w' eff hstep =>
      rw [Worker.step, Option.map_eq_some_iff] at hstep
      obtain ⟨⟨pc', eff⟩, hnext, heq⟩ := hstep
      obtain ⟨rfl, rfl⟩ := Prod.mk.inj heq
      split at h
      next => simp at h
      next hmonitor => exact ⟨w, pc', eff, hw, hnext, hmonitor, (Option.some.inj h).symm⟩

theorem toCopyState_usbDisconnect (s : State) (terminating : Bool) :
    (s.usbDisconnect terminating).toCopyState = s.toCopyState := by
  rw [State.usbDisconnect]
  split <;> rfl

theorem progressBar_usbDisconnect (s : State) (terminating : Bool) :
    (s.usbDisconnect terminating).progressBar = s.progressBar := by
  rw [State.usbDisconnect]
  split <;> rfl

theorem gui_usbDisconnect (s : State) (terminating : Bool) :
    (s.usbDisconnect terminating).gui = .idle ∨
      (s.usbDisconnect terminating).gui = .forgetDevice terminating := by
  rw [State.usbDisconnect]
  split
  · exact .inl rfl
  · exact .inr rfl

@[simp] theorem toCopyState_stepProgressBar (s : State) :
    s.stepProgressBar.toCopyState = s.toCopyState := by
  simp only [State.stepProgressBar]
  split
  · rfl
  · split <;> rfl

@[simp] theorem toDeviceState_stepProgressBar (s : State) :
    s.stepProgressBar.toDeviceState = s.toDeviceState := by
  simp only [State.stepProgressBar]
  split
  · rfl
  · split <;> rfl

/-- `usbDisconnect` leaves the copy state and the bar alone. -/
theorem move_usbDisconnect {a : Act} (s s₀ : State) (hcopy : s₀.toCopyState = s.toCopyState)
    (hbar : s₀.progressBar = s.progressBar) (terminating : Bool) :
    Move s a (s₀.usbDisconnect terminating) := by
  refine .rest ((toCopyState_usbDisconnect _ _).trans hcopy)
    ((progressBar_usbDisconnect _ _).trans hbar) ?_ ?_ <;>
    rcases gui_usbDisconnect s₀ terminating with h | h <;> simp [h, GuiPc.handling]

theorem deviceMove_usbConnect (s : State) (scan : DeviceScan) (copy : Bool) :
    DeviceMove s.toDeviceState (s.deletedByScan scan) (s.usbConnect scan copy).toDeviceState := by
  rw [State.usbConnect, DeviceState.deletedByScan]
  cases scan.refreshed with
  | none => exact .rest
  | some found => exact .refresh found

theorem deviceMove_usbDisconnect (s : State) (terminating : Bool) :
    DeviceMove s.toDeviceState s.deletedByDisconnect
      (s.usbDisconnect terminating).toDeviceState := by
  rw [State.usbDisconnect, DeviceState.deletedByDisconnect]
  cases s.usbDevice with
  | none => exact .rest
  | some jdev => exact .release jdev

/-- What a step can do to the three parts of the state. -/
structure Moves (s : State) (a : Act) (s' : State) : Prop where
  copy : Move s a s'
  gui : GuiMove s a s'.gui
  device : DeviceMove s.toDeviceState (s.deletes a) s'.toDeviceState

/-- A step of the window's handlers to a place where no event is handled. -/
theorem moves_window {a : Act} (hs : s.gui.terminating = false) (hg : s'.gui.terminating = false)
    (hhandling : s'.gui.handling = 0) (hcopyFiles : ∀ index, s'.gui ≠ .copyFiles index)
    (hcopy : s'.toCopyState = s.toCopyState) (hbar : s'.progressBar = s.progressBar)
    (hdevice : DeviceMove s.toDeviceState (s.deletes a) s'.toDeviceState) : Moves s a s' where
  copy := .rest hcopy hbar (hhandling ▸ Nat.zero_le _) hcopyFiles
  gui := .window a hs hg
  device := hdevice

/-- A step of `terminate` that only goes on. -/
theorem moves_terminate {g : GuiPc} (hgui : GuiMove s .gui g) (hhandling : g.handling = 0)
    (hcopyFiles : ∀ index, g ≠ .copyFiles index) : Moves s .gui { s with gui := g } where
  copy := .rest rfl rfl (hhandling ▸ Nat.zero_le _) hcopyFiles
  gui := hgui
  device := .rest

theorem moves_of_guiStep (h : s.guiStep s.gui = some s') : Moves s .gui s' := by
  cases hgui : s.gui with
  | connectLoop devices success copy =>
    have hs : s.gui.terminating = false := hgui ▸ rfl
    cases devices with
    | nil =>
      obtain rfl := Option.some.inj (hgui ▸ h)
      cases success <;> cases copy <;> exact moves_window hs rfl rfl (by simp) rfl rfl .rest
    | cons usbDevice devices =>
      obtain rfl := Option.some.inj (hgui ▸ h)
      exact moves_window hs rfl rfl (by simp) rfl rfl (.assign usbDevice)
  | setupBar =>
    obtain rfl := Option.some.inj (hgui ▸ h)
    exact ⟨.setup hgui, .window _ (hgui ▸ rfl) rfl, .rest⟩
  | copyFiles index =>
    rw [hgui, State.guiStep, Option.ite_none_left_eq_some] at h
    obtain rfl := Option.some.inj h.2
    exact ⟨.launch hgui, .window _ (hgui ▸ rfl) rfl, .rest⟩
  | propertyChange worker newValue back =>
    rw [hgui, State.guiStep, Option.map_eq_some_iff] at h
    obtain ⟨w, -, rfl⟩ := h
    split
    · exact ⟨.rest rfl rfl (hgui ▸ le_rfl) (by simp), .window _ (hgui ▸ rfl) rfl, .rest⟩
    · exact moves_window (hgui ▸ rfl) rfl rfl (by simp) rfl rfl .rest
  | stepProgressBar back =>
    obtain rfl := Option.some.inj (hgui ▸ h)
    exact ⟨.stepProgressBar hgui, .window _ (hgui ▸ rfl) rfl,
      toDeviceState_stepProgressBar s ▸ .rest⟩
  | forgetDevice terminating =>
    obtain rfl := Option.some.inj (hgui ▸ h)
    cases terminating with
    | false => exact moves_window (hgui ▸ rfl) rfl rfl (by simp) rfl rfl (.assign none)
    | true => exact ⟨.rest rfl rfl (Nat.zero_le _) (by simp), .forgetDevice hgui, .assign none⟩
  | isDone =>
    rw [hgui, State.guiStep] at h
    split at h
    next hnone =>
      obtain rfl := Option.some.inj h
      exact moves_terminate (.done hgui fun w hw => absurd (hnone.symm.trans hw) (by simp)) rfl
        (by simp)
    next w hsome =>
      obtain rfl := Option.some.inj h
      split
      next hdone =>
        refine moves_terminate (.done hgui fun w' hw' => ?_) rfl (by simp)
        rwa [Option.some.inj (hw'.symm.trans hsome)]
      next => exact moves_terminate (.notDone hgui hsome) rfl (by simp)
  | cancel =>
    obtain rfl := Option.some.inj (hgui ▸ h)
    exact ⟨.cancel hgui, .cancel hgui, .rest⟩
  | getProgress =>
    rw [hgui, State.guiStep, Option.map_eq_some_iff] at h
    obtain ⟨w, hw, rfl⟩ := h
    split
    next hprogress => exact moves_terminate (.enterWait hgui hw hprogress) rfl (by simp)
    next hprogress => exact moves_terminate (.exit hgui hw (not_not.mp hprogress)) rfl (by simp)
  | enterWait =>
    obtain rfl := Option.some.inj (hgui ▸ h)
    exact moves_terminate (.wait hgui) rfl (by simp)
  | dispatching | waiting | exited => simp [hgui, State.guiStep] at h

/-- **What a step can do**, once for all. -/
theorem moves_of_step {a : Act} (h : s.step a = some s') : Moves s a s' := by
  cases a with
  | editList list =>
    rw [State.step, Option.ite_none_right_eq_some] at h
    obtain rfl := Option.some.inj h.2
    have hs : s.gui.terminating = false := h.1 ▸ rfl
    exact moves_window hs hs (h.1 ▸ rfl) (by simp [h.1]) rfl rfl .rest
  | clickConnect scan =>
    rw [State.step, Option.ite_none_right_eq_some] at h
    obtain rfl := Option.some.inj h.2
    have hs : s.gui.terminating = false := h.1 ▸ rfl
    split
    next hconnected =>
      refine ⟨move_usbDisconnect s { s with connected := false } rfl rfl false,
        .window _ hs ?_, ?_⟩
      · rcases gui_usbDisconnect { s with connected := false } false with hg | hg <;> rw [hg] <;> rfl
      · rw [State.deletes, if_pos hconnected]
        exact deviceMove_usbDisconnect { s with connected := false } false
    next hconnected =>
      refine moves_window hs rfl rfl (by simp [State.usbConnect]) rfl rfl ?_
      rw [State.deletes, if_neg hconnected]
      exact deviceMove_usbConnect { s with connected := true } scan false
  | clickCopy =>
    rw [State.step, Option.ite_none_right_eq_some] at h
    obtain rfl := Option.some.inj h.2
    split <;> exact moves_window (h.1 ▸ rfl) rfl rfl (by simp) rfl rfl .rest
  | answer ok scan =>
    rw [State.step, Option.ite_none_right_eq_some] at h
    obtain rfl := Option.some.inj h.2
    have hs : s.gui.terminating = false := h.1 ▸ rfl
    cases ok with
    | false => exact moves_window hs rfl rfl (by simp) rfl rfl .rest
    | true =>
      exact moves_window hs rfl rfl (by simp [State.usbConnect]) rfl rfl
        (deviceMove_usbConnect s scan true)
  | dismiss =>
    rw [State.step] at h
    split at h
    next copy hgui =>
      obtain rfl := Option.some.inj h
      cases copy <;> exact moves_window (hgui ▸ rfl) rfl rfl (by simp) rfl rfl .rest
    next => simp at h
  | close =>
    rw [State.step, Option.ite_none_right_eq_some] at h
    obtain rfl := Option.some.inj h.2
    split
    next hconnected =>
      refine ⟨move_usbDisconnect s s rfl rfl true, ?_, ?_⟩
      · rcases gui_usbDisconnect s true with hg | hg <;> rw [hg]
        · exact .window _ (h.1 ▸ rfl) rfl
        · exact .close h.1 (.inl rfl)
      · rw [State.deletes, if_pos hconnected]
        exact deviceMove_usbDisconnect s true
    next hconnected =>
      refine ⟨.rest rfl rfl (Nat.zero_le _) (by simp), .close h.1 (.inr rfl), ?_⟩
      rw [State.deletes, if_neg hconnected]
      exact .rest
  | deliver =>
    rw [State.step] at h
    split at h
    next back i events hgui hevents =>
      obtain ⟨w, -, rfl⟩ := Option.map_eq_some_iff.mp h
      exact ⟨.deliver hgui hevents _, .window _ (hgui ▸ rfl) rfl, .rest⟩
    next => simp at h
  | gui => exact moves_of_guiStep h
  | readTags o =>
    rw [State.step] at h
    split at h
    next index hgui =>
      have hs : s.gui.terminating = false := hgui ▸ rfl
      obtain ⟨path, hpath, rfl⟩ := Option.map_eq_some_iff.mp h
      split
      · exact ⟨.enqueue hgui (List.getElem?_eq_some_iff.mp hpath).1 o _, .window _ hs rfl, .rest⟩
      · exact moves_window hs rfl rfl (by simp) rfl rfl .rest
    next => simp at h
  | wake =>
    rw [State.step, Option.ite_none_right_eq_some] at h
    obtain rfl := Option.some.inj h.2
    exact ⟨.rest rfl rfl (Nat.zero_le _) (by simp), .wake h.1, .rest⟩
  | work i a =>
    obtain ⟨w, pc', eff, hw, hnext, hmonitor, rfl⟩ := exists_of_workStep h
    refine ⟨.work hw hnext hmonitor, ?_, .rest⟩
    dsimp only
    split
    next hnotify => exact .notified hnotify.2
    next => exact .work i a

/-- Only `close` leads into `terminate`. -/
theorem terminating_step {a : Act} (h : s.step a = some s') (ha : a ≠ .close)
    (hs : s.gui.terminating = false) : s'.gui.terminating = false := by
  have hmove := (moves_of_step h).gui
  generalize s'.gui = g at hmove ⊢
  cases hmove with
  | window _ _ hg => exact hg
  | close => exact absurd rfl ha
  | work => exact hs
  | forgetDevice hgui | done hgui | notDone hgui | cancel hgui | exit hgui | enterWait hgui
  | wait hgui | wake hgui | notified hgui => simp [hgui, GuiPc.terminating] at hs

/-- **Where the workers of a state come from**, in the step that led to it. -/
inductive Origin (s : State) (a : Act) (w : Worker) : Prop
  | kept (hw : w ∈ s.workers) : Origin s a w
  | launched (hw : w = Worker.new) : Origin s a w
  | cancelled {w₀ : Worker} (hgui : s.gui = .cancel) (hw₀ : w₀ ∈ s.workers)
      (hw : w = { w₀ with cancelled := w₀.cancelled || w₀.pc ≠ .done }) : Origin s a w
  | moved {i : ℕ} {x : WorkerAct} {w₀ : Worker} {pc' : WorkerPc} {eff : Effect}
      (hw₀ : s.workers[i]? = some w₀) (hnext : w₀.pc.next s.view w₀.cancelled x = some (pc', eff))
      (hw : w = w₀.moveTo pc') : Origin s a w

theorem origin_of_move {a : Act} (hmove : Move s a s') {w : Worker} (hw : w ∈ s'.workers) :
    Origin s a w := by
  cases hmove with
  | rest hcopy => exact .kept (hcopy ▸ hw)
  | setup | enqueue | deliver => exact .kept hw
  | stepProgressBar => exact .kept (toCopyState_stepProgressBar s ▸ hw)
  | launch => exact (List.mem_append.mp hw).elim .kept fun hw => .launched (List.mem_singleton.mp hw)
  | cancel hgui =>
    obtain ⟨i, hi⟩ := List.mem_iff_getElem?.mp hw
    rw [State.cancelWorker, List.getElem?_modify] at hi
    obtain ⟨w₀, hw₀, rfl⟩ := Option.map_eq_some_iff.mp hi
    split
    · exact .cancelled hgui (List.mem_of_getElem? hw₀) rfl
    · exact .kept (List.mem_of_getElem? hw₀)
  | work hw₀ hnext =>
    exact (List.mem_or_eq_of_mem_set hw).elim .kept fun hw => .moved hw₀ hnext hw

/-- Only `worker.cancel` cancels. -/
theorem uncancelled_move {a : Act} (hmove : Move s a s') (hgui : s.gui ≠ .cancel)
    (hs : ∀ w ∈ s.workers, w.cancelled = false) : ∀ w ∈ s'.workers, w.cancelled = false := by
  intro w hw
  rcases origin_of_move hmove hw with hw | rfl | ⟨hcancel, -, -⟩ | ⟨hw₀, -, rfl⟩
  · exact hs w hw
  · rfl
  · exact absurd hcancel hgui
  · rw [cancelled_moveTo]
    exact hs _ (List.mem_of_getElem? hw₀)

end Moves

end MtpRetag
