import MtpRetag.App.Progress

/-!
# App/Batch — the progress bar of one batch

One Copy of `n` files, from a window in which nothing is left of earlier ones.  Its worker fires at
most `n + 1` events, and the bar counts the calls of `stepProgressBar` (`InBatch`): the first `n`
show their number, and the next one the failed files (`progress_of_batch`).

With a single worker alive no increment of `transferredOk` is lost (`OneLive`), so what the display
says follows from `finishedRight_of_finished`.
-/

namespace MtpRetag

open Transition

/-- The copies so far are over. -/
def CopyState.AllDone (c : CopyState) : Prop := ∀ w ∈ c.workers, w.pc = .done

/-- Copy is about to set up an idle bar: all workers are done, and nothing is queued or
undelivered. -/
structure State.IdleAtSetup (s : State) : Prop where
  gui : s.gui = .setupBar
  value : s.progressBar.value = 0
  transferQueue : s.transferQueue = []
  events : s.events = []
  workers : s.AllDone
  atMostOnce : s.AtMostOnce

/-- At most one worker is not done, and the value it has read of `transferredOk` is current. -/
structure State.OneLive (s : State) : Prop where
  starting : s.gui.starting = 1 → s.AllDone
  live : ∃ k, ∀ (i : ℕ) (w : Worker), s.workers[i]? = some w → w.pc ≠ .done →
    i = k ∧ ∀ m ∈ w.pc.okRead, m = s.transferredOk

section OneLive

variable {s s' : State} {a : Act}

theorem noLostIncrement_of_oneLive (hs : s.OneLive) : ∀ a, NoLostIncrement s a
  | .work i _ => fun _ w hw n hn => by
      obtain ⟨k, hk⟩ := hs.live
      by_cases hdone : w.pc = .done
      · rw [hdone] at hn
        exact absurd hn (by simp [WorkerPc.okRead])
      · exact (hk i w hw hdone).2 n hn
  | .editList _ | .clickConnect _ | .clickCopy | .answer _ _ | .dismiss | .close | .deliver | .gui
  | .readTags _ | .wake => trivial

/-- A worker that is done does nothing. -/
theorem pc_ne_done_of_next {v : WorkerView} {isCancelled : Bool} {pc pc' : WorkerPc} {x : WorkerAct}
    {eff : Effect} (h : pc.next v isCancelled x = some (pc', eff)) : pc ≠ .done := by
  rintro rfl
  simp [WorkerPc.next] at h

theorem oneLive_of_workers (hs : s.OneLive) (hworkers : s'.workers = s.workers)
    (hok : s'.transferredOk = s.transferredOk)
    (hstarting : s'.gui.starting = 1 → s.gui.starting = 1) : s'.OneLive := by
  refine ⟨fun h => ?_, ?_⟩
  · rw [CopyState.AllDone, hworkers]
    exact hs.starting (hstarting h)
  rw [hworkers, hok]
  exact hs.live

theorem oneLive_cancelWorker (hs : s.OneLive) :
    State.OneLive { s.cancelWorker with gui := .getProgress } := by
  refine ⟨by simp [GuiPc.starting], ?_⟩
  obtain ⟨k, hk⟩ := hs.live
  refine ⟨k, fun i w hw hlive => ?_⟩
  simp only [State.cancelWorker, List.getElem?_modify] at hw
  obtain ⟨w₀, hw₀, hmap⟩ := Option.map_eq_some_iff.mp hw
  have hpc : w.pc = w₀.pc := by
    rw [← hmap]
    split <;> rfl
  rw [hpc] at hlive ⊢
  exact hk i w₀ hw₀ hlive

theorem oneLive_launch {index : ℕ} (hs : s.OneLive) (hgui : s.gui = .copyFiles index) :
    s.launch.OneLive := by
  have hdone := hs.starting (by rw [hgui]; rfl)
  refine ⟨by simp [State.launch, GuiPc.starting], s.workers.length, fun i w hw hlive => ?_⟩
  rw [State.launch, List.getElem?_append] at hw
  split at hw
  · exact absurd (hdone w (List.mem_of_getElem? hw)) hlive
  next hlt =>
    have hi : i - s.workers.length = 0 := by
      by_contra hne
      rw [List.getElem?_eq_none (by simp; omega)] at hw
      simp at hw
    rw [hi] at hw
    obtain rfl := Option.some.inj hw
    exact ⟨by omega, by simp [Worker.new, WorkerPc.okRead]⟩

theorem oneLive_work {i : ℕ} {x : WorkerAct} {w : Worker} {pc' : WorkerPc} {eff : Effect}
    (hs : s.OneLive) (hw : s.workers[i]? = some w)
    (hnext : w.pc.next s.view w.cancelled x = some (pc', eff)) {g : GuiPc}
    (hg : g = s.gui ∨ g = .getProgress) :
    State.OneLive { s with toCopyState := s.afterWork i (w.moveTo pc') eff, gui := g } := by
  have hlive := pc_ne_done_of_next hnext
  obtain ⟨k, hk⟩ := hs.live
  obtain ⟨rfl, hread⟩ := hk i w hw hlive
  refine ⟨fun hstarting => ?_, i, fun j w' hw' hlive' => ?_⟩
  · rcases hg with rfl | rfl
    · exact absurd (hs.starting hstarting w (List.mem_of_getElem? hw)) hlive
    · simp [GuiPc.starting] at hstarting
  · simp only [CopyState.afterWork] at hw'
    by_cases hj : i = j
    · subst hj
      rw [List.getElem?_set_self (List.getElem?_eq_some_iff.mp hw).1] at hw'
      obtain rfl := Option.some.inj hw'
      have hok := (okPending_next hnext fun n hn => hread n (by rw [hn]; rfl)).2
      refine ⟨rfl, fun m hm => ?_⟩
      rw [pc_moveTo] at hm
      cases hpc : pc' with
      | writeOk n =>
        rw [hpc] at hm
        obtain rfl : n = m := Option.some.inj hm
        exact (hok n hpc).trans (transferredOk_apply s.toCopyState i eff).symm
      | _ => simp [hpc, WorkerPc.okRead] at hm
    · rw [List.getElem?_set_ne hj] at hw'
      exact absurd (hk j w' hw' hlive').1.symm hj

theorem oneLive_move (hs : s.OneLive) (hmove : Move s a s')
    (hsetup : a = .gui → s.gui ≠ .setupBar) : s'.OneLive := by
  cases hmove with
  | rest hcopy hbar hhandling hgui =>
    have hstarting := (toQueue_of_ne hgui).2
    exact oneLive_of_workers hs (by rw [hcopy]) (by rw [hcopy]) fun h =>
      absurd (hstarting.symm.trans h) (by simp)
  | setup hgui => exact absurd hgui (hsetup rfl)
  | enqueue hgui => exact oneLive_of_workers hs rfl rfl fun _ => by rw [hgui]; rfl
  | launch hgui => exact oneLive_launch hs hgui
  | deliver => exact oneLive_of_workers hs rfl rfl fun h => absurd h (by simp [GuiPc.starting])
  | stepProgressBar hgui =>
    have hcopy := toCopyState_stepProgressBar s
    exact oneLive_of_workers hs (congrArg CopyState.workers hcopy)
      (congrArg CopyState.transferredOk hcopy) fun h => absurd h (by simp [GuiPc.starting])
  | cancel => exact oneLive_cancelWorker hs
  | work hw hnext =>
    refine oneLive_work hs hw hnext ?_
    split
    · exact .inr rfl
    · exact .inl rfl

end OneLive

/-! ## The calls -/

/-- A call of `stepProgressBar`. -/
def IsCall (e : Fired State Act) : Prop := e.label = .gui ∧ e.pre.gui.stepping = true

instance (e : Fired State Act) : Decidable (IsCall e) := inferInstanceAs (Decidable (_ ∧ _))

/-- The calls of `stepProgressBar` among the steps of a run, in order. -/
def progressCalls (es : List (Fired State Act)) : List (Fired State Act) := es.filter IsCall

/-- A batch of `n` files of whose events `k` have been counted. -/
structure State.InBatch (n k : ℕ) (s : State) : Prop where
  inBalance : s.InBalance
  oneLive : s.OneLive
  maximum : s.progressBar.maximum = n
  value : k ≤ n → s.progressBar.value = k
  /-- Behind the display nothing is to come. -/
  displayed : n < k → k = n + 1 ∧ s.counted = 0 ∧ s.unsent = 0 ∧ s.toQueue = 0

section Calls

variable {s s' : State} {a : Act} {n k : ℕ}

theorem balanced_of_idle (h : s.IdleAtSetup) : s.Balanced := by
  have hheld : s.workers.flatMap (fun w => w.pc.held) = [] := by
    rw [List.flatMap_eq_nil_iff]
    intro w hw
    rw [h.workers w hw]
    rfl
  have hfire : (s.workers.map fun w => w.pc.toFire).sum = 0 := by
    rw [List.sum_eq_zero_iff]
    intro m hm
    obtain ⟨w, hw, rfl⟩ := List.mem_map.mp hm
    rw [h.workers w hw]
    rfl
  have hfiles : s.unsentFiles = [] := by rw [CopyState.unsentFiles, h.transferQueue, hheld]; rfl
  refine .inr ⟨?_, ?_, ?_⟩
  · rw [CopyState.owed, h.events, hfire]
    rfl
  · rw [CopyState.unsent, hfiles, h.value]
    rfl
  · simp [hfiles]

theorem inBatch_setupBar (h : s.IdleAtSetup) : s.setupBar.InBatch s.listModel.length 0 where
  inBalance := ⟨h.atMostOnce, fun hcan =>
    ⟨_, counts_setupBar h.atMostOnce (balanced_of_idle h) hcan⟩⟩
  oneLive := ⟨fun _ => h.workers, 0, fun i w hw hlive =>
    absurd (h.workers w (List.mem_of_getElem? hw)) hlive⟩
  maximum := by rw [(progressBar_setupBar s).2, h.value, Nat.add_zero]
  value _ := (progressBar_setupBar s).1
  displayed hlt := absurd hlt (Nat.not_lt_zero _)

theorem inBalance_of_inBatch (hs : s.InBatch n k) (h : s.step a = some s')
    (hsetup : a = .gui → s.gui ≠ .setupBar) : s'.InBalance :=
  inBalance_step hs.inBalance (fun ha hg => absurd hg (hsetup ha))
    (noLostIncrement_of_oneLive hs.oneLive a) h

/-- The bar is moved by the set-up and by the calls only. -/
theorem progressBar_move (hmove : Move s a s') (hsetup : a = .gui → s.gui ≠ .setupBar)
    (hcall : ¬ (a = .gui ∧ s.gui.stepping = true)) : s'.progressBar = s.progressBar := by
  cases hmove with
  | rest _ hbar => exact hbar
  | setup hgui => exact absurd hgui (hsetup rfl)
  | stepProgressBar hgui => exact absurd ⟨rfl, by rw [hgui]; rfl⟩ hcall
  | enqueue | launch | deliver | cancel | work => rfl

/-- A step that is no call counts nothing. -/
theorem inBatch_step (hs : s.InBatch n k) (h : s.step a = some s')
    (hsetup : a = .gui → s.gui ≠ .setupBar) (hcall : ¬ (a = .gui ∧ s.gui.stepping = true)) :
    s'.InBatch n k := by
  have hmove := (moves_of_step h).copy
  have hbar := progressBar_move hmove hsetup hcall
  obtain ⟨q, r, z, hbooked, -⟩ := booked_move hmove hsetup
  refine ⟨inBalance_of_inBatch hs h hsetup, oneLive_move hs.oneLive hmove hsetup, ?_, ?_, ?_⟩
  · rw [hbar, hs.maximum]
  · rw [hbar]
    exact hs.value
  · intro hlt
    obtain ⟨hk, hcounted, hunsent, htoQueue⟩ := hs.displayed hlt
    have := hbooked.counted
    have := hbooked.unsent
    have := hbooked.toQueue
    omega

/-- Up to the maximum a call shows its number… -/
theorem stepProgressBar_of_lt (h : s.progressBar.value < s.progressBar.maximum) :
    s.stepProgressBar.progressBar.value = s.progressBar.value + 1 ∧
      s.stepProgressBar.statusBar =
        .copying (s.progressBar.value + 1) s.progressBar.maximum := by
  have hmin : min (s.progressBar.value + 1) s.progressBar.maximum = s.progressBar.value + 1 :=
    min_eq_left h
  simp only [State.stepProgressBar]
  split
  next => exact ⟨hmin, by simp only [ProgressBar.setValue, hmin]⟩
  next hlast =>
    have heq : s.progressBar.maximum = s.progressBar.value + 1 := by omega
    rw [if_pos (by omega)]
    exact ⟨by simp [ProgressBar.setValue, heq], by simp [ProgressBar.setValue, heq]⟩

/-- …and there it resets the bar. -/
theorem stepProgressBar_of_eq (h : s.progressBar.value = s.progressBar.maximum) :
    s.stepProgressBar.progressBar.value = 0 ∧
      s.stepProgressBar.statusBar =
        .finished (s.progressBar.maximum - s.transferredOk) s.progressBar.maximum := by
  simp only [State.stepProgressBar]
  rw [if_neg (by omega), if_neg (by omega)]
  exact ⟨Nat.zero_min _, rfl⟩

theorem stepProgressBar_of_call (h : s.step .gui = some s') (hcall : s.gui.stepping = true) :
    ∃ back, s.gui = .stepProgressBar back ∧
      s' = { s.stepProgressBar with gui := .dispatching back } := by
  obtain ⟨back, hgui⟩ := exists_of_stepping hcall
  rw [State.step, hgui, State.guiStep] at h
  exact ⟨back, hgui, (Option.some.inj h).symm⟩

/-- Before a call something is counted, so it does not come behind the display. -/
theorem le_of_call (hs : s.InBatch n k) (hcall : s.gui.stepping = true) : k ≤ n := by
  obtain ⟨back, hgui⟩ := exists_of_stepping hcall
  by_contra hlt
  have hcounted := (hs.displayed (not_le.mp hlt)).2.1
  rw [State.counted, hgui, GuiPc.handling] at hcounted
  omega

/-- At the last call nothing is to come. -/
theorem over_of_last (hs : s.InBatch n n) (hcall : s.gui.stepping = true) :
    s.owed = 0 ∧ s.unsent = 0 ∧ s.toQueue = 0 := by
  obtain ⟨back, hgui⟩ := exists_of_stepping hcall
  have hvalue := hs.value le_rfl
  have hmaximum := hs.maximum
  have hhandling : s.gui.handling = 1 := by rw [hgui]; rfl
  have hcan : s.CanFinish := by
    rw [State.CanFinish, State.counted]
    omega
  obtain ⟨b, hb⟩ := hs.inBalance.counts hcan
  have hcounted := hb.counted
  have hfiles := hb.files
  have hfits := hb.fits
  rw [State.counted] at hcounted
  omega

/-- **A call counts one more.** -/
theorem inBatch_call (hs : s.InBatch n k) (h : s.step .gui = some s')
    (hcall : s.gui.stepping = true) : s'.InBatch n (k + 1) := by
  obtain ⟨back, hgui, rfl⟩ := stepProgressBar_of_call h hcall
  have hk := le_of_call hs hcall
  have hvalue := hs.value hk
  have hmaximum := hs.maximum
  have hsetup : Act.gui = .gui → s.gui ≠ .setupBar := fun _ => by rw [hgui]; simp
  refine ⟨inBalance_of_inBatch hs h hsetup, oneLive_move hs.oneLive (moves_of_step h).copy hsetup,
    (stepProgressBar_le s).1.trans hmaximum, fun hlt => ?_, fun hlt => ?_⟩
  · exact (stepProgressBar_of_lt (by omega)).1.trans (by omega)
  · obtain rfl : k = n := by omega
    obtain ⟨howed, hunsent, -⟩ := over_of_last hs hcall
    have hcopy := toCopyState_stepProgressBar s
    have hzero := (stepProgressBar_of_eq (s := s) (by omega)).1
    refine ⟨rfl, ?_, ?_, rfl⟩
    · simp only [State.counted, hcopy, hzero, howed]
      rfl
    · simp only [hcopy, hunsent]

/-- What call `j + 1` of a batch of `n` files does: it shows its number, or resets the bar and shows
how many of the `n` files have failed. -/
structure CallResult (n j : ℕ) (c : State) : Prop where
  number : j < n → c.progressBar.value = j + 1 ∧ c.statusBar = .copying (j + 1) n
  finished : j = n → c.progressBar.value = 0 ∧ c.statusBar = .finished (c.failedFiles n).card n

theorem callResult_of_call (hs : s.InBatch n k) (h : s.step .gui = some s')
    (hcall : s.gui.stepping = true) : CallResult n k s' := by
  obtain ⟨back, hgui, rfl⟩ := stepProgressBar_of_call h hcall
  have hvalue := hs.value (le_of_call hs hcall)
  have hmaximum := hs.maximum
  constructor
  · intro hlt
    obtain ⟨hnext, hstatus⟩ := stepProgressBar_of_lt (s := s) (by omega)
    rw [hvalue] at hnext hstatus
    rw [hmaximum] at hstatus
    exact ⟨hnext, hstatus⟩
  · rintro rfl
    obtain ⟨hzero, hstatus⟩ := stepProgressBar_of_eq (s := s) (by omega)
    rw [hmaximum] at hstatus
    have hright := finishedRight_of_finished hs.inBalance (by rw [hgui]; rfl) hstatus
    refine ⟨hzero, ?_⟩
    dsimp only
    rw [hstatus, hright.failed, toCopyState_stepProgressBar]

/-- What the steps of a run do to the bar, behind `k` calls of a batch of `n` files. -/
structure CallsRight (n k : ℕ) (es : List (Fired State Act)) : Prop where
  values : ∀ e ∈ es, e.post.progressBar.value ≤ n
  length : k + (progressCalls es).length ≤ n + 1
  results : ∀ j e, (progressCalls es)[j]? = some e → CallResult n (k + j) e.post

theorem callsRight_nil (hk : k ≤ n + 1) : CallsRight n k [] :=
  ⟨by simp, by simpa [progressCalls] using hk, by simp [progressCalls]⟩

/-- A call comes before the others, -/
theorem CallsRight.cons_call {e : Fired State Act} {es : List (Fired State Act)} (hcall : IsCall e)
    (hvalue : e.post.progressBar.value ≤ n) (hresult : CallResult n k e.post)
    (h : CallsRight n (k + 1) es) : CallsRight n k (e :: es) := by
  have hcalls : progressCalls (e :: es) = e :: progressCalls es :=
    List.filter_cons_of_pos (decide_eq_true hcall)
  have hlength := h.length
  constructor
  · exact List.forall_mem_cons.mpr ⟨hvalue, h.values⟩
  · rw [hcalls, List.length_cons]
    omega
  · intro j d hd
    rw [hcalls] at hd
    cases j with
    | zero =>
      obtain rfl : e = d := Option.some.inj hd
      exact hresult
    | succ j =>
      have hshift : k + (j + 1) = k + 1 + j := by omega
      rw [hshift]
      exact h.results j d hd

/-- …and any other step leaves them. -/
theorem CallsRight.cons_other {e : Fired State Act} {es : List (Fired State Act)}
    (hother : ¬ IsCall e) (hvalue : e.post.progressBar.value ≤ n) (h : CallsRight n k es) :
    CallsRight n k (e :: es) := by
  have hcalls : progressCalls (e :: es) = progressCalls es :=
    List.filter_cons_of_neg fun hdec => hother (of_decide_eq_true hdec)
  constructor
  · exact List.forall_mem_cons.mpr ⟨hvalue, h.values⟩
  · rw [hcalls]
    exact h.length
  · rw [hcalls]
    exact h.results

/-- The calls of a run, after `k` of a batch. -/
theorem callsRight_of_inBatch :
    ∀ (as : List Act) {s : State} {k : ℕ}, k ≤ n + 1 → s.InBatch n k →
      (∀ e ∈ fired State.step s as, e.label = .gui → e.pre.gui ≠ .setupBar) →
      CallsRight n k (fired State.step s as)
  | [], _, _, hk, _, _ => callsRight_nil hk
  | a :: as, s, k, hk, hs, hsetup => by
      cases h : s.step a with
      | none =>
        rw [fired_cons_of_none h]
        exact callsRight_nil hk
      | some s' =>
        rw [fired_cons_of_some h, List.forall_mem_cons] at hsetup
        obtain ⟨hfirst, hrest⟩ := hsetup
        rw [fired_cons_of_some h]
        by_cases hcall : a = .gui ∧ s.gui.stepping = true
        · obtain ⟨rfl, hstepping⟩ := hcall
          have hs' := inBatch_call hs h hstepping
          have hkn := le_of_call hs hstepping
          exact .cons_call ⟨rfl, hstepping⟩ (hs'.maximum ▸ s'.progressBar.value_le)
            (callResult_of_call hs h hstepping) (callsRight_of_inBatch as (by omega) hs' hrest)
        · have hs' := inBatch_step hs h hfirst hcall
          exact .cons_other hcall (hs'.maximum ▸ s'.progressBar.value_le)
            (callsRight_of_inBatch as hk hs' hrest)

end Calls

/-- **The bar of one batch.**  Copy sets up an idle bar for `n` files and no other Copy follows.
Then the value stays within `n`, there are at most `n + 1` calls of `stepProgressBar`, each of the
first `n` shows its number, and the last one resets the bar and shows how many files have failed. -/
theorem progress_of_batch (s : State) (as : List Act) (hidle : s.IdleAtSetup)
    (hone : ∀ e ∈ fired State.step s.setupBar as, e.label = .gui → e.pre.gui ≠ .setupBar) :
    (∀ e ∈ fired State.step s.setupBar as, e.post.progressBar.value ≤ s.listModel.length) ∧
      (progressCalls (fired State.step s.setupBar as)).length ≤ s.listModel.length + 1 ∧
      ∀ j e, (progressCalls (fired State.step s.setupBar as))[j]? = some e →
        CallResult s.listModel.length j e.post := by
  obtain ⟨hvalues, hlength, hresults⟩ :=
    callsRight_of_inBatch as (Nat.zero_le _) (inBatch_setupBar hidle) hone
  exact ⟨hvalues, by omega, fun j e he => Nat.zero_add j ▸ hresults j e he⟩

/-- A connected device, and Copy of two files about to set up the bar. -/
def twoFilesAtSetup : State where
  toCopyState := State.init.toCopyState
  usbDevice := some (wide "player")
  listDevices := AList.insert (wide "player") 0 ∅
  deleted := []
  nextDevice := 1
  gui := .setupBar
  connected := true
  listModel := [wide "C:\\a.mp3", wide "C:\\b.mp3"]
  progressBar := State.init.progressBar
  statusBar := .other

theorem idleAtSetup_twoFiles : twoFilesAtSetup.IdleAtSetup where
  gui := rfl
  value := rfl
  transferQueue := rfl
  events := rfl
  workers _ hw := absurd hw List.not_mem_nil
  atMostOnce _ := Nat.zero_le _

/-- The copy of the two files, of which the second fails. -/
def copyTwoFiles : List Act :=
  [.readTags .cannotRead, .readTags .cannotRead, .gui] ++ ticks 0 5 ++ dispatchEvent ++ ticks 0 4 ++
    [.work 0 (.ret 0)] ++ ticks 0 5 ++ dispatchEvent ++ ticks 0 5 ++ [.work 0 (.ret 1)] ++
    ticks 0 3 ++ dispatchEvent

/-- Its third call shows "Finished copying (1 of 2 failed)". -/
theorem progress_of_batch_twoFiles :
    ∃ e, (progressCalls (fired State.step twoFilesAtSetup.setupBar copyTwoFiles))[2]? = some e ∧
      CallResult 2 2 e.post ∧ (e.post.failedFiles 2).card = 1 := by
  have hlast : (progressCalls (fired State.step twoFilesAtSetup.setupBar copyTwoFiles))[2]?.map
      (fun e => (e.post.failedFiles 2).card) = some 1 := by decide
  obtain ⟨e, he, hcard⟩ := Option.map_eq_some_iff.mp hlast
  have hbatch := progress_of_batch twoFilesAtSetup copyTwoFiles idleAtSetup_twoFiles (by decide)
  exact ⟨e, he, hbatch.2.2 2 e he, hcard⟩

end MtpRetag
