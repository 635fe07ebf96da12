import MtpRetag.Native.Basic
import Mathlib.Data.List.Basic

/-!
# App/Worker — the program of a copy worker

`doInBackground`, one access to shared memory at a time.  A worker keeps its two event arrays and
its count to itself; what it does to the memory it shares with the window and with other workers is
an `Effect`.

The queued files are objects, named by their number.  A worker *holds* the one it has removed until
its `sendFile` call has ended; `held_next` says how holding changes, `toFire_next` and
`okPending_next` what the worker still owes the progress bar.
-/

namespace MtpRetag

/-- Where a worker is: before `doInBackground`, at one of its accesses, or behind it. -/
inductive WorkerPc
  /-- Submitted to the executor. -/
  | pending
  | setProgress0
  | initOld
  | initNew
  | fireStart
  /-- `transferQueue.remove()`. -/
  | remove
  | checkCancelled (details : ℕ)
  /-- Reading the field `usbDevice`, to call `sendFile` on it. -/
  | readDevice (details : ℕ)
  /-- In `sendFile`, before `get_internaldevice`. -/
  | lookup (details : ℕ) (jdev : WStr)
  /-- In `sendFile`, with the native device. -/
  | transfer (details : ℕ) (usbdev : ℕ)
  /-- The two halves of `transferredOk++`. -/
  | readOk
  | writeOk (transferredOk : ℕ)
  | writeOld
  | writeNew
  | fire
  | countFile
  /-- `setProgress(100)`, behind the loop. -/
  | setProgress100
  | notifyMe
  /-- `doInBackground` has returned. -/
  | returned
  /-- …and the worker is done. -/
  | done
  deriving DecidableEq, Repr

structure Worker where
  pc : WorkerPc
  filesCopied : ℕ
  /-- `oldValue[0]` and `newValue[0]`, which the events carry by reference. -/
  oldValue : ℤ
  newValue : ℤ
  cancelled : Bool
  progress : ℕ
  deriving DecidableEq, Repr

/-- `new SwingWorker` and `execute()`. -/
def Worker.new : Worker :=
  { pc := .pending, filesCopied := 0, oldValue := 0, newValue := 0, cancelled := false,
    progress := 0 }

/-- What decides a step of a worker from outside: it goes on, or its `sendFile` call ends. -/
inductive WorkerAct
  | tick
  | ret (r : Int64)
  | throw
  deriving DecidableEq, Repr

/-- What a worker reads of the shared memory. -/
structure WorkerView where
  head : Option ℕ
  usbDevice : Option WStr
  getDevicebyid : WStr → Option ℕ
  transferredOk : ℕ

/-- What a worker does to the shared memory. -/
inductive Effect
  | nothing
  /-- Takes the head of the queue. -/
  | remove
  /-- A `sendFile` call with this file has ended, with what it returned if it returned. -/
  | sent (details : ℕ) (ret : Option Int64)
  | writeOk (transferredOk : ℕ)
  /-- Fires a `filesCopied` event. -/
  | fire
  | notifyMe
  deriving DecidableEq, Repr

/-- Where a step leads, and what it does to the shared memory. -/
def WorkerPc.next (v : WorkerView) (isCancelled : Bool) :
    WorkerPc → WorkerAct → Option (WorkerPc × Effect)
  -- a task cancelled before its start is not run
  | .pending, .tick =>
    if isCancelled then some (.done, .nothing) else some (.setProgress0, .nothing)
  | .setProgress0, .tick => some (.initOld, .nothing)
  | .initOld, .tick => some (.initNew, .nothing)
  | .initNew, .tick => some (.fireStart, .nothing)
  | .fireStart, .tick => some (.remove, .fire)
  | .remove, .tick =>
    match v.head with
    | some details => some (.checkCancelled details, .remove)
    -- `NoSuchElementException`
    | none => some (.returned, .nothing)
  | .checkCancelled details, .tick =>
    if isCancelled then some (.setProgress100, .nothing) else some (.readDevice details, .nothing)
  | .readDevice details, .tick =>
    match v.usbDevice with
    | some jdev => some (.lookup details jdev, .nothing)
    -- `NullPointerException`
    | none => some (.returned, .nothing)
  | .lookup details jdev, .tick =>
    match v.getDevicebyid jdev with
    | some usbdev => some (.transfer details usbdev, .nothing)
    | none => some (.writeOld, .sent details (some Error.deviceNotMounted.toInt64))
  | .lookup details _, .throw => some (.returned, .sent details none)
  -- `transfer_file` goes on using its device
  | .transfer details usbdev, .tick => some (.transfer details usbdev, .nothing)
  | .transfer details _, .ret r =>
    if r ≠ 0 then some (.writeOld, .sent details (some r))
    else some (.readOk, .sent details (some r))
  | .transfer details _, .throw => some (.returned, .sent details none)
  | .readOk, .tick => some (.writeOk v.transferredOk, .nothing)
  | .writeOk n, .tick => some (.writeOld, .writeOk (n + 1))
  | .writeOld, .tick => some (.writeNew, .nothing)
  | .writeNew, .tick => some (.fire, .nothing)
  | .fire, .tick => some (.countFile, .fire)
  | .countFile, .tick => some (.remove, .nothing)
  | .setProgress100, .tick => some (.notifyMe, .nothing)
  | .notifyMe, .tick => some (.returned, .notifyMe)
  | .returned, .tick => some (.done, .nothing)
  | _, _ => none

/-- The assignment a worker makes to its own variables in a step. -/
def Worker.assign (w : Worker) : Worker :=
  match w.pc with
  | .setProgress0 => { w with progress := 0 }
  | .initOld => { w with oldValue := -1 }
  | .initNew => { w with newValue := 0 }
  | .writeOld => { w with oldValue := w.filesCopied }
  | .writeNew => { w with newValue := w.filesCopied + 1 }
  | .countFile => { w with filesCopied := w.filesCopied + 1 }
  | .setProgress100 => { w with progress := 100 }
  | _ => w

/-- The worker after its access, at its next one. -/
def Worker.moveTo (w : Worker) (pc : WorkerPc) : Worker := { w.assign with pc := pc }

/-- One step of `doInBackground`. -/
def Worker.step (v : WorkerView) (w : Worker) (a : WorkerAct) : Option (Worker × Effect) :=
  (w.pc.next v w.cancelled a).map fun next => (w.moveTo next.1, next.2)

@[simp] theorem pc_moveTo (w : Worker) (pc : WorkerPc) : (w.moveTo pc).pc = pc := rfl

@[simp] theorem cancelled_moveTo (w : Worker) (pc : WorkerPc) :
    (w.moveTo pc).cancelled = w.cancelled := by
  rw [Worker.moveTo, Worker.assign]
  split <;> rfl

/-! ## What a worker holds -/

/-- The file a worker has removed and not yet finished with. -/
def WorkerPc.held : WorkerPc → List ℕ
  | .checkCancelled details | .readDevice details | .lookup details _ | .transfer details _ =>
    [details]
  | _ => []

/-- The file a step takes from the queue, -/
def Effect.taken (head : Option ℕ) : Effect → List ℕ
  | .remove => head.toList
  | _ => []

/-- …and the file whose `sendFile` call it ends. -/
def Effect.finished : Effect → List ℕ
  | .sent details _ => [details]
  | _ => []

/-- A step that drops the file its worker holds: the loop is left on a cancel, or by the
`NullPointerException` of calling `sendFile` on a `usbDevice` that is null. -/
def WorkerPc.Drops (v : WorkerView) (isCancelled : Bool) : WorkerPc → Prop
  | .checkCancelled _ => isCancelled = true
  | .readDevice _ => v.usbDevice = none
  | _ => False

section Step

variable {v : WorkerView} {isCancelled : Bool} {pc pc' : WorkerPc} {a : WorkerAct} {eff : Effect}

/-- **What a step does with files**: it takes one, finishes one, or leaves its hold alone. -/
theorem held_next (h : pc.next v isCancelled a = some (pc', eff))
    (hkeep : ¬ pc.Drops v isCancelled) :
    pc'.held ++ eff.finished = eff.taken v.head ++ pc.held := by
  revert h
  fun_cases WorkerPc.next v isCancelled pc a
  all_goals rintro ⟨⟩
  all_goals simp_all [WorkerPc.held, Effect.finished, Effect.taken, WorkerPc.Drops]

/-- A dropped file is in no one's hands. -/
theorem held_of_drops (h : pc.next v isCancelled a = some (pc', eff))
    (hdrop : pc.Drops v isCancelled) : pc'.held = [] ∧ eff = .nothing := by
  revert h
  fun_cases WorkerPc.next v isCancelled pc a
  all_goals rintro ⟨⟩
  all_goals simp_all [WorkerPc.held, WorkerPc.Drops]

/-- In either case, no file appears from nowhere. -/
theorem held_sublist (h : pc.next v isCancelled a = some (pc', eff)) :
    (pc'.held ++ eff.finished).Sublist (eff.taken v.head ++ pc.held) := by
  by_cases hdrop : pc.Drops v isCancelled
  · obtain ⟨hheld, rfl⟩ := held_of_drops h hdrop
    rw [hheld]
    exact List.nil_sublist _
  · rw [held_next h hdrop]

/-! ## What a worker owes the progress bar -/

/-- The events a worker is still to fire: one at the start, one for each ended call. -/
def WorkerPc.toFire : WorkerPc → ℕ
  | .pending | .setProgress0 | .initOld | .initNew | .fireStart => 1
  | .readOk | .writeOk _ | .writeOld | .writeNew | .fire => 1
  | _ => 0

/-- The increments of `transferredOk` a worker is still to make. -/
def WorkerPc.okPending : WorkerPc → ℕ
  | .readOk | .writeOk _ => 1
  | _ => 0

/-- An increment is followed by an event. -/
theorem okPending_le_toFire (pc : WorkerPc) : pc.okPending ≤ pc.toFire := by
  cases pc <;> simp [WorkerPc.okPending, WorkerPc.toFire]

/-- The events a step fires. -/
def Effect.fired : Effect → ℕ
  | .fire => 1
  | _ => 0

/-- The calls a step sees returning, -/
def Effect.returned : Effect → ℕ
  | .sent _ (some _) => 1
  | _ => 0

/-- …and those of them that return zero. -/
def Effect.succeeded : Effect → ℕ
  | .sent _ (some r) => if r = 0 then 1 else 0
  | _ => 0

/-- `transferredOk` after a step. -/
def Effect.transferredOk (old : ℕ) : Effect → ℕ
  | .writeOk n => n
  | _ => old

/-- **Events follow calls**: an event is only fired on account of a call that has returned. -/
theorem toFire_next (h : pc.next v isCancelled a = some (pc', eff)) :
    pc'.toFire + eff.fired ≤ pc.toFire + eff.returned := by
  revert h
  fun_cases WorkerPc.next v isCancelled pc a
  all_goals rintro ⟨⟩
  all_goals simp_all [WorkerPc.toFire, Effect.fired, Effect.returned]

/-- **The increments follow the zeros**, as long as the value that was read is current. -/
theorem okPending_next (h : pc.next v isCancelled a = some (pc', eff))
    (hread : ∀ n, pc = .writeOk n → n = v.transferredOk) :
    eff.transferredOk v.transferredOk + pc'.okPending =
        v.transferredOk + pc.okPending + eff.succeeded ∧
      ∀ n, pc' = .writeOk n → n = eff.transferredOk v.transferredOk := by
  have hnot : Error.deviceNotMounted.toInt64 ≠ 0 := by decide
  revert h
  fun_cases WorkerPc.next v isCancelled pc a
  all_goals rintro ⟨⟩
  all_goals simp_all [WorkerPc.okPending, Effect.transferredOk, Effect.succeeded]

/-! ## What a worker does with a device -/

/-- The native device a worker's call uses. -/
def WorkerPc.usbdev : WorkerPc → Option ℕ
  | .transfer _ usbdev => some usbdev
  | _ => none

/-- A worker comes to its native device by the lookup only. -/
theorem usbdev_next {p : ℕ} (h : pc.next v isCancelled a = some (pc', eff))
    (hp : pc'.usbdev = some p) : pc.usbdev = some p ∨ ∃ jdev, v.getDevicebyid jdev = some p := by
  revert h
  fun_cases WorkerPc.next v isCancelled pc a
  all_goals rintro ⟨⟩
  all_goals simp_all [WorkerPc.usbdev]
  exact ⟨_, ‹_›⟩

/-! ## How a worker leaves -/

/-- The worker is in `doInBackground`. -/
def WorkerPc.inside : WorkerPc → Bool
  | .pending | .returned | .done => false
  | _ => true

/-- `doInBackground` has returned, or will never be called. -/
def Worker.Ended (w : Worker) : Prop := w.pc.inside = false ∧ (w.pc = .pending → w.cancelled = true)

instance (w : Worker) : Decidable w.Ended := inferInstanceAs (Decidable (_ ∧ _))

/-- A step that leaves `doInBackground` by an exception. -/
def WorkerPc.Throws (v : WorkerView) (a : WorkerAct) : WorkerPc → Prop
  | .remove => v.head = none
  | .readDevice _ => v.usbDevice = none
  | .lookup _ _ | .transfer _ _ => a = .throw
  | _ => False

theorem pc'_of_throws (h : pc.next v isCancelled a = some (pc', eff)) (hthrow : pc.Throws v a) :
    pc' = .returned ∧ eff ≠ .notifyMe := by
  revert h
  fun_cases WorkerPc.next v isCancelled pc a
  all_goals rintro ⟨⟩
  all_goals simp_all [WorkerPc.Throws]

/-- **Ways out.**  Without an exception, `notifyMe` is the last access of `doInBackground`. -/
theorem inside_next (h : pc.next v isCancelled a = some (pc', eff)) (hpc : pc.inside = true)
    (hthrow : ¬ pc.Throws v a) :
    pc'.inside = true ∨ (pc = .notifyMe ∧ pc' = .returned ∧ eff = .notifyMe) := by
  revert h
  fun_cases WorkerPc.next v isCancelled pc a
  all_goals rintro ⟨⟩
  all_goals simp_all [WorkerPc.Throws, WorkerPc.inside]

/-- What `setProgress(100)` tells: the worker was cancelled, and has left its loop for that. -/
structure Worker.ProgressOk (w : Worker) : Prop where
  cancelled : w.pc = .setProgress100 ∨ w.progress = 100 → w.cancelled = true
  behind : w.progress = 100 → w.pc = .notifyMe ∨ w.pc = .returned ∨ w.pc = .done
  notify : w.pc = .notifyMe → w.progress = 100

theorem progressOk_new : Worker.new.ProgressOk := ⟨by decide, by decide, by decide⟩

theorem progress_moveTo (w : Worker) (pc : WorkerPc) :
    (w.moveTo pc).progress =
      if w.pc = .setProgress0 then 0 else if w.pc = .setProgress100 then 100 else w.progress := by
  rw [Worker.moveTo, Worker.assign]
  split <;> simp_all

theorem progressOk_moveTo {w : Worker} (hw : w.ProgressOk)
    (h : w.pc.next v w.cancelled a = some (pc', eff)) : (w.moveTo pc').ProgressOk := by
  obtain ⟨hc, hb, hn⟩ := hw
  have hprogress := progress_moveTo w pc'
  revert h
  generalize hpc : w.pc = pc at *
  fun_cases WorkerPc.next v w.cancelled pc a
  all_goals rintro ⟨⟩
  all_goals constructor <;> simp_all

end Step

end MtpRetag
