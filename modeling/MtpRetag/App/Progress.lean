import MtpRetag.App.Conservation
import Mathlib.Algebra.Order.BigOperators.Group.List
import Mathlib.Algebra.Order.Group.Nat
import Mathlib.Data.Finset.Card
import Mathlib.Data.Finset.Range

/-!
# App/Progress — what "Finished copying" is worth

The progress bar counts events, its maximum is set by Copy, and `transferredOk` counts the calls
that returned zero.  For a copy that overlaps an earlier one, Copy adds the value of the bar to the
new maximum: what has been counted, where it would have to be what is still to be counted.

What a bar is still to count is `owed` events and `unsent` files.  If they do not reach its maximum,
the display never comes (`CanFinish`); if they do, it is right as long as they are balanced at every
set-up (`Balanced`) and no increment of `transferredOk` is lost (`finishedRight_run`).
-/

namespace MtpRetag

/-! ## What the bar is still to count -/

/-- The events that are undelivered, or that a worker is still to fire without a further call. -/
def CopyState.owed (c : CopyState) : ℕ :=
  c.events.length + (c.workers.map fun w => w.pc.toFire).sum

/-- The files that are queued, or in the hands of a worker, -/
def CopyState.unsentFiles (c : CopyState) : List ℕ :=
  c.transferQueue ++ c.workers.flatMap fun w => w.pc.held

/-- …and how many they are. -/
def CopyState.unsent (c : CopyState) : ℕ := c.unsentFiles.length

/-- The increments of `transferredOk` that workers are still to make. -/
def CopyState.okPending (c : CopyState) : ℕ := (c.workers.map fun w => w.pc.okPending).sum

/-- The files that the running Copy is still to queue, -/
def State.toQueue (s : State) : ℕ :=
  match s.gui with
  | .copyFiles index => s.listModel.length - index
  | _ => 0

/-- …and the first event of the worker it is still to start. -/
def GuiPc.starting : GuiPc → ℕ
  | .copyFiles _ => 1
  | _ => 0

/-- The bar as the events that are counted, dispatched, owed and started take it. -/
def State.counted (s : State) : ℕ :=
  s.progressBar.value + s.gui.handling + s.owed + s.gui.starting

/-- With all that is still to come, the bar gets beyond its maximum. -/
def State.CanFinish (s : State) : Prop :=
  s.progressBar.maximum < s.counted + s.unsent + s.toQueue

instance (s : State) : Decidable s.CanFinish := inferInstanceAs (Decidable (_ < _))

/-! ## What the display says -/

/-- The call returned something other than zero. -/
def SentFile.failed (x : SentFile) : Bool := x.ret.any (· ≠ 0)

/-- Those of the `m` last queued files whose `sendFile` returned non-zero. -/
def CopyState.failedFiles (c : CopyState) (m : ℕ) : Finset ℕ :=
  (Finset.range c.details.length).filter fun d =>
    c.details.length - m ≤ d ∧ ∃ x ∈ c.sent, x.details = d ∧ x.failed

/-- "Finished copying (`f` of `m` failed)" is right: nothing is left to be sent, and `f` is the
number of those of the `m` last queued files whose `sendFile` returned non-zero. -/
structure CopyState.FinishedRight (c : CopyState) (f : ℤ) (m : ℕ) : Prop where
  transferQueue : c.transferQueue = []
  held : ∀ w ∈ c.workers, w.pc.held = []
  le : m ≤ c.details.length
  nonneg : 0 ≤ f
  le_m : f ≤ m
  failed : f = (c.failedFiles m).card

instance (c : CopyState) (f : ℤ) (m : ℕ) : Decidable (c.FinishedRight f m) :=
  decidable_of_iff (c.transferQueue = [] ∧ (∀ w ∈ c.workers, w.pc.held = []) ∧
      m ≤ c.details.length ∧ 0 ≤ f ∧ f ≤ m ∧ f = (c.failedFiles m).card)
    ⟨fun ⟨hqueue, hheld, hm, h0, hf, hfailed⟩ => ⟨hqueue, hheld, hm, h0, hf, hfailed⟩,
      fun h => ⟨h.transferQueue, h.held, h.le, h.nonneg, h.le_m, h.failed⟩⟩

/-- The GUI thread is in `stepProgressBar`. -/
def GuiPc.stepping : GuiPc → Bool
  | .stepProgressBar _ => true
  | _ => false

/-- A step of `stepProgressBar` that displays "Finished copying (`f` of `m` failed)". -/
def Displays (e : Transition.Fired State Act) (f : ℤ) (m : ℕ) : Prop :=
  e.label = .gui ∧ e.pre.gui.stepping = true ∧ e.post.statusBar = .finished f m

instance (e : Transition.Fired State Act) (f : ℤ) (m : ℕ) : Decidable (Displays e f m) :=
  inferInstanceAs (Decidable (_ ∧ _))

/-! ## The condition -/

/-- What earlier copies still owe the bar balances what it has counted: it is less, or it is files
only, as many as counted, and they are the last ones queued. -/
def State.Balanced (s : State) : Prop :=
  s.owed + s.unsent < s.progressBar.value ∨
    (s.owed = 0 ∧ s.unsent = s.progressBar.value ∧
      ∀ d ∈ s.unsentFiles, s.details.length ≤ d + s.unsent)

instance (s : State) : Decidable s.Balanced := inferInstanceAs (Decidable (_ ∨ _))

/-- Copy sets the bar up only in balance, -/
def SetupBalanced (s : State) (a : Act) : Prop := a = .gui → s.gui = .setupBar → s.Balanced

instance (s : State) (a : Act) : Decidable (SetupBalanced s a) :=
  inferInstanceAs (Decidable (_ → _))

/-- The value of `transferredOk` that a worker has read to increment it. -/
def WorkerPc.okRead : WorkerPc → Option ℕ
  | .writeOk transferredOk => some transferredOk
  | _ => none

/-- …and a worker increments `transferredOk` from what it is, if the display can still come. -/
def NoLostIncrement (s : State) : Act → Prop
  | .work i _ => s.CanFinish → ∀ w ∈ s.workers[i]?, ∀ n ∈ w.pc.okRead, n = s.transferredOk
  | _ => True

instance (s : State) : ∀ a, Decidable (NoLostIncrement s a)
  | .work _ _ => inferInstanceAs (Decidable (_ → _))
  | .editList _ | .clickConnect _ | .clickCopy | .answer _ _ | .dismiss | .close | .deliver | .gui
  | .readTags _ | .wake => inferInstanceAs (Decidable True)

/-! ## No file twice -/

/-- No file is in two places. -/
def CopyState.AtMostOnce (c : CopyState) : Prop :=
  ∀ d, c.places.count d ≤ if d < c.details.length then 1 else 0

theorem atMostOnce_move {s s' : State} {a : Act} (hmove : Move s a s') (hs : s.AtMostOnce) :
    s'.AtMostOnce := fun d => by
  obtain ⟨k, hk⟩ := Nat.exists_eq_add_of_le (hs d)
  obtain ⟨k', hk', -⟩ := count_move hmove hk.symm
  omega

section AtMostOnce

variable {c : CopyState}

theorem nodup_places (hc : c.AtMostOnce) : c.places.Nodup :=
  List.nodup_iff_count_le_one.mpr fun d => (hc d).trans (by split <;> omega)

theorem lt_of_mem_places (hc : c.AtMostOnce) {d : ℕ} (hd : d ∈ c.places) :
    d < c.details.length := by
  by_contra hlt
  have hcount := hc d
  rw [if_neg hlt, Nat.le_zero, List.count_eq_zero] at hcount
  exact hcount hd

theorem nodup_unsentFiles (hc : c.AtMostOnce) : c.unsentFiles.Nodup :=
  (List.nodup_append.mp (nodup_places hc)).1

theorem lt_of_mem_unsentFiles (hc : c.AtMostOnce) {d : ℕ} (hd : d ∈ c.unsentFiles) :
    d < c.details.length :=
  lt_of_mem_places hc (List.mem_append_left _ hd)

theorem unsent_le (hc : c.AtMostOnce) : c.unsent ≤ c.details.length := by
  have hsub : c.unsentFiles ⊆ List.range c.details.length := fun d hd =>
    List.mem_range.mpr (lt_of_mem_unsentFiles hc hd)
  have hle := ((nodup_unsentFiles hc).subperm hsub).length_le
  rwa [List.length_range] at hle

/-- If the unsent files are the last ones queued, the ended calls are for older ones. -/
theorem lt_of_mem_sent (hc : c.AtMostOnce)
    (hlast : ∀ d ∈ c.unsentFiles, c.details.length ≤ d + c.unsent) {x : SentFile}
    (hx : x ∈ c.sent) : x.details < c.details.length - c.unsent := by
  have hunsent := unsent_le hc
  have hmem : x.details ∈ c.sent.map SentFile.details := List.mem_map_of_mem hx
  have hlt : x.details < c.details.length := lt_of_mem_places hc (List.mem_append_right _ hmem)
  have hsub : c.unsentFiles ⊆ List.range' (c.details.length - c.unsent) c.unsent := by
    intro d hd
    have hd' := lt_of_mem_unsentFiles hc hd
    have := hlast d hd
    rw [List.mem_range'_1]
    omega
  have hperm := ((nodup_unsentFiles hc).subperm hsub).perm_of_length_le (by simp [CopyState.unsent])
  by_contra hge
  have hin : x.details ∈ c.unsentFiles := by
    rw [hperm.mem_iff, List.mem_range'_1]
    omega
  exact (List.nodup_append.mp (nodup_places hc)).2.2 _ hin _ hmem rfl

end AtMostOnce

/-! ## The books -/

/-- The returned calls for files from number `b` on, -/
def CopyState.returned (c : CopyState) (b : ℕ) : ℕ :=
  c.sent.countP fun x => b ≤ x.details && x.ret.isSome

/-- …and those of them that returned zero. -/
def CopyState.succeeded (c : CopyState) (b : ℕ) : ℕ :=
  c.sent.countP fun x => b ≤ x.details && x.ret = some 0

/-- **What a step does to the books**, if it does not set the bar up: `q` files are queued, and `r`
calls return, `z` of them zero. -/
structure Booked (s s' : State) (q r z : ℕ) : Prop where
  maximum : s'.progressBar.maximum = s.progressBar.maximum
  details : s'.details.length = s.details.length + q
  toQueue : s'.toQueue + q ≤ s.toQueue
  counted : s'.counted ≤ s.counted + r
  unsent : s'.unsent + r ≤ s.unsent + q
  unsentFiles : ∀ d ∈ s'.unsentFiles, d ∈ s.unsentFiles ∨ d = s.details.length
  returned : ∀ b, (∀ d ∈ s.unsentFiles, b ≤ d) → s'.returned b = s.returned b + r
  succeeded : ∀ b, (∀ d ∈ s.unsentFiles, b ≤ d) → s'.succeeded b = s.succeeded b + z

section Work

variable {c : CopyState} {i b : ℕ} {w : Worker} {v : WorkerView} {a : WorkerAct} {pc' : WorkerPc}
  {eff : Effect}

theorem transferredOk_apply (c : CopyState) (i : ℕ) (eff : Effect) :
    (c.apply i eff).transferredOk = eff.transferredOk c.transferredOk := by
  cases eff <;> rfl

theorem length_events_apply (c : CopyState) (i : ℕ) (eff : Effect) :
    (c.apply i eff).events.length = c.events.length + eff.fired := by
  cases eff <;> simp [CopyState.apply, Effect.fired]

theorem returned_apply (hb : ∀ d ∈ eff.finished, b ≤ d) :
    (c.apply i eff).returned b = c.returned b + eff.returned := by
  cases eff with
  | sent d ret =>
    have hd : b ≤ d := hb d (List.mem_singleton_self d)
    cases ret <;> simp [CopyState.apply, CopyState.returned, Effect.returned, hd]
  | _ => rfl

theorem succeeded_apply (hb : ∀ d ∈ eff.finished, b ≤ d) :
    (c.apply i eff).succeeded b = c.succeeded b + eff.succeeded := by
  cases eff with
  | sent d ret =>
    have hd : b ≤ d := hb d (List.mem_singleton_self d)
    cases ret with
    | none => simp [CopyState.apply, CopyState.succeeded, Effect.succeeded]
    | some r =>
      by_cases hr : r = 0 <;>
        simp [CopyState.apply, CopyState.succeeded, Effect.succeeded, hd, hr]
  | _ => rfl

theorem returned_le_finished (eff : Effect) : eff.returned ≤ eff.finished.length := by
  rcases eff with _ | _ | ⟨d, _ | r⟩ | _ | _ | _ <;> simp [Effect.returned, Effect.finished]

/-- A worker's step turns returned calls into owed events. -/
theorem owed_afterWork (hw : c.workers[i]? = some w)
    (h : w.pc.next v w.cancelled a = some (pc', eff)) :
    (c.afterWork i (w.moveTo pc') eff).owed ≤ c.owed + eff.returned := by
  have hfire := toFire_next h
  have hsum := Pool.sum_map_set (f := fun w => w.pc.toFire) (b := w.moveTo pc') hw
  have hevents := length_events_apply c i eff
  simp only [CopyState.owed, CopyState.afterWork, pc_moveTo] at hsum hevents ⊢
  omega

theorem okPending_afterWork (hw : c.workers[i]? = some w) (pc' : WorkerPc) (eff : Effect) :
    (c.afterWork i (w.moveTo pc') eff).okPending + w.pc.okPending =
      c.okPending + pc'.okPending :=
  Pool.sum_map_set (f := fun w => w.pc.okPending) (b := w.moveTo pc') hw

theorem mem_unsentFiles_of_held (hw : c.workers[i]? = some w) {d : ℕ} (hd : d ∈ w.pc.held) :
    d ∈ c.unsentFiles :=
  List.mem_append_right _ (List.mem_flatMap.mpr ⟨w, List.mem_of_getElem? hw, hd⟩)

theorem mem_of_taken {d : ℕ} (hd : d ∈ eff.taken c.transferQueue.head?) : d ∈ c.transferQueue :=
  taken_append_transferQueue c 0 eff ▸ List.mem_append_left _ hd

/-- The files a worker has after its step, or is done with, it had or took. -/
theorem mem_unsentFiles_of_next (hw : c.workers[i]? = some w) (hv : v.head = c.transferQueue.head?)
    (h : w.pc.next v w.cancelled a = some (pc', eff)) {d : ℕ}
    (hd : d ∈ pc'.held ++ eff.finished) : d ∈ c.unsentFiles := by
  rcases List.mem_append.mp ((held_sublist h).subset hd) with hd | hd
  · exact List.mem_append_left _ (mem_of_taken (hv ▸ hd))
  · exact mem_unsentFiles_of_held hw hd

theorem unsentFiles_afterWork (hw : c.workers[i]? = some w) (hv : v.head = c.transferQueue.head?)
    (h : w.pc.next v w.cancelled a = some (pc', eff)) :
    (c.afterWork i (w.moveTo pc') eff).unsentFiles ⊆ c.unsentFiles := fun d hd => by
  rcases List.mem_append.mp hd with hd | hd
  · rw [CopyState.unsentFiles, ← taken_append_transferQueue c i eff]
    exact List.mem_append_left _ (List.mem_append_right _ hd)
  · obtain ⟨x, hx, hd⟩ := List.mem_flatMap.mp hd
    rcases List.mem_or_eq_of_mem_set hx with hx | rfl
    · exact List.mem_append_right _ (List.mem_flatMap.mpr ⟨x, hx, hd⟩)
    · exact mem_unsentFiles_of_next hw hv h (List.mem_append_left _ hd)

theorem unsent_eq (c : CopyState) :
    c.unsent = c.transferQueue.length + (c.workers.map fun w => w.pc.held.length).sum := by
  rw [CopyState.unsent, CopyState.unsentFiles, List.length_append, List.length_flatMap]

theorem unsent_afterWork (hw : c.workers[i]? = some w) (hv : v.head = c.transferQueue.head?)
    (h : w.pc.next v w.cancelled a = some (pc', eff)) :
    (c.afterWork i (w.moveTo pc') eff).unsent + eff.returned ≤ c.unsent := by
  have hheld := (held_sublist h).length_le
  have hreturned := returned_le_finished eff
  have hsum := Pool.sum_map_set (f := fun w => w.pc.held.length) (b := w.moveTo pc') hw
  have hqueue := congrArg List.length (taken_append_transferQueue c i eff)
  rw [hv] at hheld
  simp only [unsent_eq, CopyState.afterWork, pc_moveTo, List.length_append] at *
  omega

end Work

section Step

variable {s s' : State} {a : Act}

theorem toQueue_of_ne (h : ∀ index, s.gui ≠ .copyFiles index) :
    s.toQueue = 0 ∧ s.gui.starting = 0 := by
  rw [State.toQueue]
  cases hgui : s.gui with
  | copyFiles index => exact absurd hgui (h index)
  | _ => exact ⟨rfl, rfl⟩

theorem stepProgressBar_le (s : State) :
    s.stepProgressBar.progressBar.maximum = s.progressBar.maximum ∧
      s.stepProgressBar.progressBar.value ≤ s.progressBar.value + 1 := by
  simp only [State.stepProgressBar]
  split
  · exact ⟨rfl, min_le_left _ _⟩
  · split
    · refine ⟨rfl, (min_le_left _ _).trans ?_⟩
      omega
    · exact ⟨rfl, by simp [ProgressBar.setValue]⟩

/-- Where neither the files nor the calls change, only the counting does. -/
theorem booked_of_counted (hmaximum : s'.progressBar.maximum = s.progressBar.maximum)
    (hdetails : s'.details = s.details) (htoQueue : s'.toQueue ≤ s.toQueue)
    (hcounted : s'.counted ≤ s.counted) (hunsent : s'.unsentFiles = s.unsentFiles)
    (hsent : s'.sent = s.sent) : Booked s s' 0 0 0 where
  maximum := hmaximum
  details := by rw [hdetails]; rfl
  toQueue := htoQueue
  counted := hcounted
  unsent := by rw [CopyState.unsent, CopyState.unsent, hunsent]
  unsentFiles d hd := .inl (hunsent ▸ hd)
  returned b _ := by rw [CopyState.returned, CopyState.returned, hsent]; rfl
  succeeded b _ := by rw [CopyState.succeeded, CopyState.succeeded, hsent]; rfl

theorem booked_enqueue {index : ℕ} (hgui : s.gui = .copyFiles index)
    (hindex : index < s.listModel.length) (details : CopyFileDetails) :
    Booked s { s.enqueue details with gui := .copyFiles (index + 1) } 1 0 0 where
  maximum := rfl
  details := List.length_append
  toQueue := by
    simp only [State.toQueue, State.enqueue, hgui]
    omega
  counted := by simp [State.counted, State.enqueue, hgui, GuiPc.handling, GuiPc.starting,
    CopyState.owed]
  unsent := by simp [unsent_eq, State.enqueue]; omega
  unsentFiles d hd := by
    simp only [CopyState.unsentFiles, State.enqueue, List.mem_append, List.mem_singleton] at hd ⊢
    tauto
  returned _ _ := rfl
  succeeded _ _ := rfl

theorem booked_work {i : ℕ} {x : WorkerAct} {w : Worker} {pc' : WorkerPc} {eff : Effect}
    (hw : s.workers[i]? = some w) (hnext : w.pc.next s.view w.cancelled x = some (pc', eff)) :
    Booked s { s with
      toCopyState := s.afterWork i (w.moveTo pc') eff
      gui := if eff = .notifyMe ∧ s.gui = .waiting then .getProgress else s.gui }
      0 eff.returned eff.succeeded where
  maximum := rfl
  details := congrArg List.length (details_afterWork s.toCopyState i _ eff)
  toQueue := by
    simp only [State.toQueue]
    split <;> split at * <;> simp_all
  counted := by
    have howed := owed_afterWork hw hnext
    simp only [State.counted]
    split <;> simp_all [GuiPc.handling, GuiPc.starting] <;> omega
  unsent := unsent_afterWork hw rfl hnext
  unsentFiles d hd := .inl (unsentFiles_afterWork hw rfl hnext hd)
  returned b hb := returned_apply fun d hd =>
    hb d (mem_unsentFiles_of_next hw rfl hnext (List.mem_append_right _ hd))
  succeeded b hb := succeeded_apply fun d hd =>
    hb d (mem_unsentFiles_of_next hw rfl hnext (List.mem_append_right _ hd))

/-- **What a step does to the books.**  No increment of `transferredOk` that follows is lost, if the
value that is written back is current. -/
theorem booked_move (hmove : Move s a s') (hsetup : a = .gui → s.gui ≠ .setupBar) :
    ∃ q r z, Booked s s' q r z ∧
      ((∀ i x, a = .work i x → ∀ w ∈ s.workers[i]?, ∀ n ∈ w.pc.okRead, n = s.transferredOk) →
        s'.transferredOk + s'.okPending = s.transferredOk + s.okPending + z) := by
  cases hmove with
  | rest hcopy hbar hhandling hgui =>
    obtain ⟨hqueue, hstart⟩ := toQueue_of_ne hgui
    refine ⟨0, 0, 0, booked_of_counted (by rw [hbar]) (by rw [hcopy]) (by omega) ?_ (by rw [hcopy])
      (by rw [hcopy]), fun _ => by rw [hcopy]; rfl⟩
    simp only [State.counted, hbar, hcopy]
    omega
  | setup hgui => exact absurd hgui (hsetup rfl)
  | enqueue hgui hindex o details =>
    exact ⟨1, 0, 0, booked_enqueue hgui hindex details, fun _ => rfl⟩
  | launch hgui =>
    refine ⟨0, 0, 0, booked_of_counted rfl rfl (Nat.zero_le _) ?_ ?_ rfl, fun _ => ?_⟩
    · simp [State.counted, State.launch, hgui, GuiPc.handling, GuiPc.starting, CopyState.owed,
        Worker.new, WorkerPc.toFire]
      omega
    · simp [CopyState.unsentFiles, State.launch, Worker.new, WorkerPc.held]
    · simp [CopyState.okPending, State.launch, Worker.new, WorkerPc.okPending]
  | deliver hgui hevents newValue =>
    refine ⟨0, 0, 0, booked_of_counted rfl rfl (Nat.zero_le _) ?_ rfl rfl, fun _ => rfl⟩
    simp only [State.counted, hgui, hevents, GuiPc.handling, GuiPc.starting, CopyState.owed,
      List.length_cons]
    omega
  | stepProgressBar hgui =>
    obtain ⟨hmaximum, hvalue⟩ := stepProgressBar_le s
    have hcopy := toCopyState_stepProgressBar s
    refine ⟨0, 0, 0, booked_of_counted hmaximum (by dsimp only; rw [hcopy]) (Nat.zero_le _) ?_
      (by dsimp only; rw [hcopy]) (by dsimp only; rw [hcopy]),
      fun _ => by dsimp only; rw [hcopy]; rfl⟩
    simp only [State.counted, hgui, hcopy, GuiPc.handling, GuiPc.starting]
    omega
  | cancel hgui =>
    refine ⟨0, 0, 0, booked_of_counted rfl rfl (Nat.zero_le _) ?_ ?_ rfl, fun _ => ?_⟩
    · simp only [State.counted, CopyState.owed, map_cancelWorker, hgui]
      rfl
    · simp only [CopyState.unsentFiles, List.flatMap_def, map_cancelWorker]
      rfl
    · simp only [CopyState.okPending, map_cancelWorker]
      rfl
  | @work i x w pc' eff hw hnext =>
    refine ⟨0, eff.returned, eff.succeeded, booked_work hw hnext, fun hread => ?_⟩
    have hok := (okPending_next hnext fun n hn => hread i x rfl w hw n (by rw [hn]; rfl)).1
    have hpending := okPending_afterWork (c := s.toCopyState) hw pc' eff
    have htransferred := transferredOk_apply s.toCopyState i eff
    simp only [CopyState.afterWork, State.view] at *
    omega

end Step

/-! ## Runs -/

/-- The books of a bar that can still finish: the files from number `b` on are the ones it
counts. -/
structure State.Counts (s : State) (b : ℕ) : Prop where
  unsentFiles : ∀ d ∈ s.unsentFiles, b ≤ d
  files : s.unsent + s.returned b + b ≤ s.details.length
  fits : s.details.length + s.toQueue ≤ b + s.progressBar.maximum
  counted : s.counted ≤ 1 + s.returned b
  transferredOk : s.transferredOk + s.okPending = s.succeeded b

/-- The invariant of the runs in balance. -/
structure State.InBalance (s : State) : Prop where
  atMostOnce : s.AtMostOnce
  counts : s.CanFinish → ∃ b, s.Counts b

theorem inBalance_init : State.init.InBalance where
  atMostOnce _ := Nat.zero_le _
  counts _ := ⟨0, by simp [State.init, CopyState.unsentFiles], le_refl 0, Nat.zero_le _,
    Nat.zero_le _, rfl⟩

section Run

variable {s s' : State} {a : Act} {b q r z : ℕ}

/-- A step without set-up brings no finish into reach, -/
theorem canFinish_of_booked (h : Booked s s' q r z) (hcan : s'.CanFinish) : s.CanFinish := by
  have := h.maximum
  have := h.counted
  have := h.unsent
  have := h.toQueue
  rw [State.CanFinish] at hcan ⊢
  omega

/-- …and keeps the books. -/
theorem counts_of_booked (h : Booked s s' q r z) (hs : s.Counts b)
    (hok : s'.transferredOk + s'.okPending = s.transferredOk + s.okPending + z) : s'.Counts b where
  unsentFiles d hd := by
    have := hs.files
    rcases h.unsentFiles d hd with hd | rfl
    · exact hs.unsentFiles d hd
    · omega
  files := by
    have := hs.files
    have := h.unsent
    rw [h.returned b hs.unsentFiles, h.details]
    omega
  fits := by
    have := hs.fits
    have := h.toQueue
    rw [h.details, h.maximum]
    omega
  counted := by
    have := hs.counted
    have := h.counted
    rw [h.returned b hs.unsentFiles]
    omega
  transferredOk := by rw [hok, hs.transferredOk, h.succeeded b hs.unsentFiles]

/-- Where the unsent files are the last ones, no call for them has ended. -/
theorem countP_sent_eq_zero {c : CopyState} (hc : c.AtMostOnce)
    (hlast : ∀ d ∈ c.unsentFiles, c.details.length ≤ d + c.unsent) (p : SentFile → Bool) :
    (c.sent.countP fun x => c.details.length - c.unsent ≤ x.details && p x) = 0 := by
  rw [List.countP_eq_zero]
  intro x hx
  have := lt_of_mem_sent hc hlast hx
  simp only [Bool.and_eq_true, decide_eq_true_eq, not_and]
  omega

theorem progressBar_setupBar (s : State) :
    s.setupBar.progressBar.value = 0 ∧
      s.setupBar.progressBar.maximum = s.listModel.length + s.progressBar.value := by
  refine ⟨Nat.zero_min _, ?_⟩
  simp only [State.setupBar, ProgressBar.setValue, ProgressBar.setMaximum]
  split <;> omega

theorem counted_setupBar (s : State) : s.setupBar.counted = s.owed + 1 := by
  rw [State.counted, (progressBar_setupBar s).1]
  simp [State.setupBar, GuiPc.handling, GuiPc.starting, CopyState.owed]

/-- A worker with an increment to make owes an event. -/
theorem okPending_le_owed (c : CopyState) : c.okPending ≤ c.owed := by
  have hle : c.okPending ≤ (c.workers.map fun w => w.pc.toFire).sum :=
    List.sum_le_sum fun w _ => okPending_le_toFire w.pc
  exact hle.trans (Nat.le_add_left _ _)

/-- A set-up in balance opens new books. -/
theorem counts_setupBar (hs : s.AtMostOnce) (hbalanced : s.Balanced)
    (hcan : s.setupBar.CanFinish) :
    s.setupBar.Counts (s.details.length - s.unsent) := by
  obtain ⟨-, hmaximum⟩ := progressBar_setupBar s
  have hcounted := counted_setupBar s
  have hqueue : s.setupBar.toQueue = s.listModel.length := rfl
  have hunsent : s.setupBar.unsent = s.unsent := rfl
  have hle := unsent_le hs
  obtain hless | ⟨howed, hfiles, hlast⟩ := hbalanced
  · rw [State.CanFinish] at hcan
    omega
  · have hreturned : s.setupBar.returned (s.details.length - s.unsent) = 0 :=
      countP_sent_eq_zero hs hlast _
    have hsucceeded : s.setupBar.succeeded (s.details.length - s.unsent) = 0 :=
      countP_sent_eq_zero hs hlast _
    have hpending : s.setupBar.okPending = 0 := Nat.le_zero.mp (howed ▸ okPending_le_owed _)
    have hdetails : s.setupBar.details = s.details := rfl
    refine ⟨fun d hd => ?_, ?_, ?_, ?_, ?_⟩
    · have := hlast d hd
      omega
    · rw [hreturned, hunsent, hdetails]
      omega
    · rw [hqueue, hmaximum, hdetails]
      omega
    · rw [hreturned, hcounted, howed]
    · rw [hsucceeded, hpending]
      rfl

theorem inBalance_step (hs : s.InBalance) (hsetup : SetupBalanced s a)
    (hincrement : NoLostIncrement s a) (h : s.step a = some s') : s'.InBalance := by
  have hmove := (moves_of_step h).copy
  refine ⟨atMostOnce_move hmove hs.atMostOnce, fun hcan => ?_⟩
  by_cases hgui : a = .gui ∧ s.gui = .setupBar
  · obtain ⟨rfl, hgui⟩ := hgui
    rw [State.step, hgui, State.guiStep] at h
    obtain rfl := Option.some.inj h
    exact ⟨_, counts_setupBar hs.atMostOnce (hsetup rfl hgui) hcan⟩
  · obtain ⟨q, r, z, hbooked, hok⟩ := booked_move hmove fun ha hg => hgui ⟨ha, hg⟩
    have hcan₀ := canFinish_of_booked hbooked hcan
    obtain ⟨b, hb⟩ := hs.counts hcan₀
    exact ⟨b, counts_of_booked hbooked hb
      (hok fun i x ha => by subst ha; exact hincrement hcan₀)⟩

/-! ## The display -/

/-- A display shows the maximum of the bar, whose value is the maximum. -/
theorem stepProgressBar_finished {f : ℤ} {m : ℕ}
    (h : s.stepProgressBar.statusBar = .finished f m) :
    s.progressBar.value = m ∧ s.progressBar.maximum = m ∧ f = (m : ℤ) - s.transferredOk := by
  have hle := s.progressBar.value_le
  simp only [State.stepProgressBar] at h
  split at h
  · simp at h
  · split at h
    · simp at h
    · simp only [StatusText.finished.injEq] at h
      omega

theorem exists_of_stepping {g : GuiPc} (h : g.stepping = true) :
    ∃ back, g = .stepProgressBar back := by
  cases g with
  | stepProgressBar back => exact ⟨back, rfl⟩
  | _ => simp [GuiPc.stepping] at h

/-- The failed files are as many as the failed calls. -/
theorem card_failedFiles {c : CopyState} (hc : c.AtMostOnce) {m : ℕ} :
    (c.failedFiles m).card =
      c.sent.countP fun x => c.details.length - m ≤ x.details && x.failed := by
  have hsent : (c.sent.map SentFile.details).Nodup :=
    (List.nodup_append.mp (nodup_places hc)).2.1
  have heq : c.failedFiles m = ((c.sent.filter fun x =>
      c.details.length - m ≤ x.details && x.failed).map SentFile.details).toFinset := by
    ext d
    simp only [CopyState.failedFiles, Finset.mem_filter, Finset.mem_range, List.mem_toFinset,
      List.mem_map, List.mem_filter, Bool.and_eq_true, decide_eq_true_eq]
    constructor
    · rintro ⟨-, hd, x, hx, rfl, hfailed⟩
      exact ⟨x, ⟨hx, hd, hfailed⟩, rfl⟩
    · rintro ⟨x, ⟨hx, hd, hfailed⟩, rfl⟩
      exact ⟨lt_of_mem_places hc (List.mem_append_right _ (List.mem_map_of_mem hx)), hd, x, hx, rfl,
        hfailed⟩
  rw [heq, List.toFinset_card_of_nodup, List.length_map, List.countP_eq_length_filter]
  exact hsent.sublist (List.filter_sublist.map _)

/-- A returned call has succeeded or failed. -/
theorem returned_eq (c : CopyState) (b : ℕ) :
    c.returned b = c.succeeded b + c.sent.countP fun x => b ≤ x.details && x.failed := by
  rw [CopyState.returned, CopyState.succeeded]
  induction c.sent with
  | nil => rfl
  | cons x sent ih =>
    simp only [List.countP_cons, ih]
    rcases x with ⟨d, _ | r⟩
    · simp [SentFile.failed]
    · by_cases hd : b ≤ d <;> by_cases hr : r = 0 <;> simp [SentFile.failed, hd, hr] <;> omega

/-- **A display in balance is right.** -/
theorem finishedRight_of_finished (hs : s.InBalance) (hhandling : s.gui.handling = 1) {f : ℤ}
    {m : ℕ} (h : s.stepProgressBar.statusBar = .finished f m) : s.FinishedRight f m := by
  obtain ⟨hvalue, hmaximum, rfl⟩ := stepProgressBar_finished h
  have hcan : s.CanFinish := by
    rw [State.CanFinish, State.counted]
    omega
  obtain ⟨b, hb⟩ := hs.counts hcan
  have hcounted := hb.counted
  have hfiles := hb.files
  have hfits := hb.fits
  have hok := hb.transferredOk
  have hpending := okPending_le_owed s.toCopyState
  have hreturned := returned_eq s.toCopyState b
  rw [State.counted] at hcounted
  -- all that was to come has come
  have hunsent : s.unsent = 0 := by omega
  have hb : b = s.details.length - m := by omega
  obtain ⟨hqueue, hheld⟩ := List.append_eq_nil_iff.mp (List.eq_nil_of_length_eq_zero hunsent)
  have hcard := card_failedFiles hs.atMostOnce (m := m)
  rw [← hb] at hcard
  exact ⟨hqueue, List.flatMap_eq_nil_iff.mp hheld, by omega, by omega, by omega, by omega⟩

end Run

/-- **"Finished copying" is right in the runs in balance.** -/
theorem finishedRight_run (as : List Act)
    (hsetup : ∀ e ∈ Transition.fired State.step .init as, SetupBalanced e.pre e.label)
    (hincrement : ∀ e ∈ Transition.fired State.step .init as, NoLostIncrement e.pre e.label) :
    ∀ e ∈ Transition.fired State.step .init as, ∀ f m, Displays e f m →
      e.post.FinishedRight f m := by
  rintro e he f m ⟨hlabel, hstepping, hdisplay⟩
  have hstep := Transition.step_of_mem_fired he
  have hs := (Transition.forall_fired_inv State.InBalance
    (fun s a => SetupBalanced s a ∧ NoLostIncrement s a) (fun _ => True)
    (fun _ _ _ _ hs hok h => inBalance_step hs hok.1 hok.2 h) as (fun _ _ => trivial)
    inBalance_init (fun e he => ⟨hsetup e he, hincrement e he⟩) e he).1
  obtain ⟨back, hgui⟩ := exists_of_stepping hstepping
  rw [hlabel, State.step, hgui, State.guiStep] at hstep
  rw [← Option.some.inj hstep] at hdisplay ⊢
  have hright := finishedRight_of_finished hs (by rw [hgui]; rfl) hdisplay
  rw [← toCopyState_stepProgressBar] at hright
  exact hright

/-- Two copies side by side display "Finished copying (1 of 2 failed)", and rightly. -/
theorem finishedRight_run_twoCopies :
    (∃ e ∈ Transition.fired State.step .init twoCopies, Displays e 1 2) ∧
      ∀ e ∈ Transition.fired State.step .init twoCopies, ∀ f m, Displays e f m →
        e.post.FinishedRight f m :=
  ⟨by decide, finishedRight_run twoCopies (by decide) (by decide)⟩

/-- Two copies of one file, the second one before an event of the first is delivered. -/
def overlappingCopies : List Act :=
  connectPlayer ++ copyOneFile (wide "C:\\a.mp3") ++ ticks 0 5 ++ copyOneFile (wide "C:\\b.mp3") ++
    ticks 1 5 ++ dispatchEvent ++ dispatchEvent

/-- They display "Finished copying (1 of 1 failed)" with both files in the queue. -/
theorem not_finishedRight_overlappingCopies :
    ¬ ∀ e ∈ Transition.fired State.step .init overlappingCopies, ∀ f m, Displays e f m →
      e.post.FinishedRight f m := by
  have hbad : ∃ e ∈ Transition.fired State.step .init overlappingCopies,
      Displays e 1 1 ∧ ¬ e.post.FinishedRight 1 1 := by decide
  obtain ⟨e, he, hdisplays, hwrong⟩ := hbad
  exact fun hall => hwrong (hall e he 1 1 hdisplays)

end MtpRetag
