import MtpRetag.App.Worker
import MtpRetag.Machinery.Transition

/-!
# App/Events — events that carry references to two shared cells

All `filesCopied` events of a worker carry the same two arrays.  `propertyChange` compares what they
hold when an event is delivered, and the worker writes one after the other.

Where the worker is decides what they hold (`Worker.Arrays`), so a delivery counts unless it falls
into the gap between the two writes of one file; `events_exact` says this of every interleaving.
-/

namespace MtpRetag

/-! ## Deliveries -/

/-- The files for which `oldValue[0]` has been written, -/
def Worker.begun (w : Worker) : ℕ :=
  w.filesCopied + if w.pc ∈ [.writeNew, .fire, .countFile] then 1 else 0

/-- …and those for which `newValue[0]` has been. -/
def Worker.reported (w : Worker) : ℕ :=
  w.filesCopied + if w.pc ∈ [.fire, .countFile] then 1 else 0

/-- What `propertyChange` has read of an event, and how many files were reported then. -/
structure Reading where
  newValue : ℤ
  reported : ℕ
  deriving DecidableEq, Repr

/-- One worker, its queue, and the event thread: the number of events in flight, the event in
`propertyChange`, the number of delivered events and of calls of `stepProgressBar`. -/
structure EventState where
  worker : Worker
  transferQueue : List ℕ
  events : ℕ
  reading : Option Reading
  delivered : ℕ
  stepped : ℕ
  deriving DecidableEq, Repr

/-- A worker behind `execute()`. -/
def EventState.start (transferQueue : List ℕ) : EventState :=
  ⟨Worker.new, transferQueue, 0, none, 0, 0⟩

/-- A step of the worker, in the given surroundings, or one of the two reads of `propertyChange`. -/
inductive EventAct
  | work (env : WorkerView) (a : WorkerAct)
  | readNew
  | readOld

/-- A step of the worker or of the event thread. -/
def EventState.step (s : EventState) : EventAct → Option EventState
  | .work env a =>
    (s.worker.step { env with head := s.transferQueue.head? } a).map fun next =>
      { s with
        worker := next.1
        transferQueue := if next.2 = .remove then s.transferQueue.tail else s.transferQueue
        events := s.events + next.2.fired }
  | .readNew =>
    if s.reading = none ∧ 0 < s.events then
      some { s with
        events := s.events - 1, reading := some ⟨s.worker.newValue, s.worker.reported⟩ }
    else none
  | .readOld =>
    s.reading.map fun r =>
      { s with
        reading := none
        delivered := s.delivered + 1
        stepped := s.stepped + if r.newValue ≠ s.worker.oldValue then 1 else 0 }

/-- A delivery whose second read does not meet exactly one file begun more than were reported at its
first. -/
def Noticed (e : Transition.Fired EventState EventAct) : Prop :=
  e.label = .readOld → ∀ r ∈ e.pre.reading, e.pre.worker.begun ≠ r.reported + 1

/-! ## What the arrays hold -/

/-- Before the two arrays are set up. -/
def WorkerPc.settingUp (pc : WorkerPc) : Bool := pc ∈ [.pending, .setProgress0, .initOld, .initNew]

/-- The arrays hold where the worker is. -/
structure Worker.Arrays (w : Worker) : Prop where
  start : w.pc.settingUp = true → w.filesCopied = 0
  initNew : w.pc = .initNew → w.oldValue = -1
  oldValue : w.pc.settingUp = false → w.oldValue = w.begun - 1
  newValue : w.pc.settingUp = false → w.newValue = w.reported

section Arrays

variable {v : WorkerView} {w w' : Worker} {a : WorkerAct} {eff : Effect} {pc' : WorkerPc}

theorem arrays_new : Worker.new.Arrays := ⟨by decide, by decide, by decide, by decide⟩

/-- **Each access of the worker keeps the arrays in place.** -/
theorem arrays_moveTo (hw : w.Arrays) (h : w.pc.next v false a = some (pc', eff)) :
    (w.moveTo pc').Arrays := by
  obtain ⟨hstart, hinit, hold, hnew⟩ := hw
  revert h
  generalize hpc : w.pc = pc at *
  fun_cases WorkerPc.next v false pc a
  all_goals rintro ⟨⟩
  all_goals
    constructor <;>
      simp_all [Worker.moveTo, Worker.assign, WorkerPc.settingUp, Worker.begun, Worker.reported]

/-- An event is fired by a worker that is set up. -/
theorem settingUp_of_fired (h : w.pc.next v false a = some (pc', eff)) :
    (eff.fired ≠ 0 → pc'.settingUp = false) ∧ (w.pc.settingUp = false → pc'.settingUp = false) := by
  revert h
  generalize w.pc = pc
  fun_cases WorkerPc.next v false pc a
  all_goals rintro ⟨⟩
  all_goals simp_all [WorkerPc.settingUp, Effect.fired]

end Arrays

/-! ## Which deliveries count -/

/-- The arrays are in place, and `propertyChange` knows of a worker that is set up only. -/
structure EventState.Inv (s : EventState) : Prop where
  cancelled : s.worker.cancelled = false
  arrays : s.worker.Arrays
  events : 0 < s.events → s.worker.pc.settingUp = false
  reading : ∀ r ∈ s.reading, r.newValue = r.reported ∧ s.worker.pc.settingUp = false

section Events

variable {s s' : EventState} {a : EventAct}

theorem inv_start (transferQueue : List ℕ) : (EventState.start transferQueue).Inv where
  cancelled := rfl
  arrays := arrays_new
  events h := absurd h (lt_irrefl _)
  reading _ h := nomatch h

/-- **What one step does** to the invariant… -/
theorem inv_step (hs : s.Inv) (h : s.step a = some s') : s'.Inv := by
  cases a with
  | work env a =>
    obtain ⟨⟨w, eff⟩, hnext, rfl⟩ := Option.map_eq_some_iff.mp h
    obtain ⟨⟨pc', eff'⟩, hpc, heq⟩ := Option.map_eq_some_iff.mp hnext
    obtain ⟨rfl, rfl⟩ := Prod.mk.inj heq
    rw [hs.cancelled] at hpc
    obtain ⟨hfired, hkeep⟩ := settingUp_of_fired hpc
    refine ⟨?_, arrays_moveTo hs.arrays hpc, fun hevents => ?_, fun r hr => ?_⟩
    · rw [cancelled_moveTo]
      exact hs.cancelled
    · by_cases hzero : eff'.fired = 0
      · exact hkeep (hs.events (by simpa [hzero] using hevents))
      · exact hfired hzero
    · exact ⟨(hs.reading r hr).1, hkeep (hs.reading r hr).2⟩
  | readNew =>
    rw [EventState.step] at h
    split at h
    case isFalse => cases h
    case isTrue hread =>
      obtain rfl := Option.some.inj h
      have hset := hs.events hread.2
      refine ⟨hs.cancelled, hs.arrays, fun _ => hset, fun r hr => ?_⟩
      obtain rfl := Option.some.inj hr
      exact ⟨hs.arrays.newValue hset, hset⟩
  | readOld =>
    obtain ⟨r, hr, rfl⟩ := Option.map_eq_some_iff.mp h
    exact ⟨hs.cancelled, hs.arrays, hs.events, fun r hr => nomatch hr⟩

/-- A delivery is noticed if its two reads differ. -/
theorem noticed_readOld_iff (hs : s.Inv) {r : Reading} (hr : s.reading = some r) :
    Noticed ⟨s, .readOld, s'⟩ ↔ r.newValue ≠ s.worker.oldValue := by
  obtain ⟨hnew, hset⟩ := hs.reading r hr
  have hold := hs.arrays.oldValue hset
  have hread : Noticed ⟨s, .readOld, s'⟩ ↔ s.worker.begun ≠ r.reported + 1 := by
    simp [Noticed, hr]
  rw [hread, hnew, hold]
  omega

/-- …and to the counts: a delivery that is not noticed is not counted. -/
theorem stepped_step (hs : s.Inv) (hle : s.stepped ≤ s.delivered) (h : s.step a = some s') :
    s'.stepped ≤ s'.delivered ∧
      (s'.stepped = s'.delivered ↔ s.stepped = s.delivered ∧ Noticed ⟨s, a, s'⟩) := by
  cases a with
  | work env a =>
    obtain ⟨next, -, rfl⟩ := Option.map_eq_some_iff.mp h
    exact ⟨hle, by simp [Noticed]⟩
  | readNew =>
    rw [EventState.step] at h
    split at h
    case isFalse => cases h
    case isTrue =>
      obtain rfl := Option.some.inj h
      exact ⟨hle, by simp [Noticed]⟩
  | readOld =>
    obtain ⟨r, hr, rfl⟩ := Option.map_eq_some_iff.mp h
    rw [noticed_readOld_iff hs hr]
    dsimp only
    split
    case isTrue hne =>
      rw [and_iff_left hne]
      omega
    case isFalse hne => exact ⟨by omega, by omega, fun hall => absurd hall.2 hne⟩

/-- **Over a run**, all deliveries are counted if and only if all are noticed. -/
theorem stepped_run_iff :
    ∀ (acts : List EventAct) {s s' : EventState}, s.Inv → s.stepped ≤ s.delivered →
      acts.foldlM EventState.step s = some s' →
        (s'.stepped = s'.delivered ↔ s.stepped = s.delivered ∧
          ∀ e ∈ Transition.fired EventState.step s acts, Noticed e)
  | [], s, s', _, _, hrun => by
      obtain rfl : s = s' := by simpa using hrun
      simp [Transition.fired]
  | a :: acts, s, s', hs, hle, hrun => by
      rw [List.foldlM_cons] at hrun
      obtain ⟨s₁, hstep, hrest⟩ := Option.bind_eq_some_iff.mp hrun
      obtain ⟨hle₁, hcount⟩ := stepped_step hs hle hstep
      rw [stepped_run_iff acts (inv_step hs hstep) hle₁ hrest, hcount,
        Transition.fired_cons_of_some hstep, List.forall_mem_cons, and_assoc]

/-- When no step of the worker lies between the two reads, the gap is the worker's place between its
two writes. -/
theorem begun_eq_reported_succ_iff (w : Worker) : w.begun = w.reported + 1 ↔ w.pc = .writeNew := by
  rw [Worker.begun, Worker.reported]
  cases w.pc <;> simp

end Events

/-- **When no event is swallowed.**  Of one worker and any number of files: when all events, one at
the start and one for each file, have been delivered, `stepProgressBar` has been called once for
each if and only if no delivery finds exactly one file more begun, at its second read, than were
reported at its first. -/
theorem events_exact (transferQueue : List ℕ) (acts : List EventAct) (s : EventState)
    (hrun : acts.foldlM EventState.step (.start transferQueue) = some s)
    (hall : s.delivered = transferQueue.length + 1) :
    s.stepped = transferQueue.length + 1 ↔
      ∀ e ∈ Transition.fired EventState.step (.start transferQueue) acts, Noticed e := by
  have hstart :
      (EventState.start transferQueue).stepped = (EventState.start transferQueue).delivered :=
    rfl
  rw [← hall, stepped_run_iff acts (inv_start transferQueue) le_rfl hrun]
  exact and_iff_right hstart

/-- The surroundings of a worker without a connected player: each call ends at once. -/
def WorkerView.sample : WorkerView := ⟨none, some (wide "player"), fun _ => none, 0⟩

/-- `n` steps of the worker. -/
def EventAct.ticks (n : ℕ) : List EventAct := List.replicate n (.work .sample .tick)

/-- A delivery. -/
def EventAct.delivery : List EventAct := [.readNew, .readOld]

/-- Three files, and four deliveries that lie apart from their writes; in two of them the worker
goes on between the reads. -/
def EventAct.apart : List EventAct :=
  ticks 13 ++ [.readNew] ++ ticks 2 ++ [.readOld] ++ ticks 6 ++ [.readNew] ++ ticks 3 ++
    [.readOld] ++ delivery ++ ticks 5 ++ delivery

/-- One file, and the first event delivered between the two writes of that file. -/
def EventAct.late : List EventAct := ticks 10 ++ delivery ++ ticks 2 ++ delivery

/-- The four events are all counted… -/
theorem events_exact_apart :
    ∃ s, EventAct.apart.foldlM EventState.step (.start [0, 1, 2]) = some s ∧ s.stepped = 4 ∧
      ∀ e ∈ Transition.fired EventState.step (.start [0, 1, 2]) EventAct.apart, Noticed e :=
  ⟨_, rfl, rfl, (events_exact [0, 1, 2] EventAct.apart _ rfl rfl).mp rfl⟩

/-- …and the late one is swallowed. -/
theorem event_swallowed :
    ∃ s, EventAct.late.foldlM EventState.step (.start [0]) = some s ∧ s.delivered = 2 ∧
      s.stepped = 1 :=
  ⟨_, rfl, rfl, rfl⟩

end MtpRetag
