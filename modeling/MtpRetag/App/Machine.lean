import MtpRetag.App.Destination
import MtpRetag.App.Worker

/-!
# App/Machine — the window, its workers and the native registry, step by step

The GUI thread runs one handler at a time; a handler goes on step by step (`GuiPc`), and any worker
may move in between.  `State.step` is the one step function; an act that is not possible in a state
is `none` there.
-/

namespace MtpRetag

/-! ## The progress bar -/

/-- A `JProgressBar` from zero, whose model keeps the value within the maximum. -/
structure ProgressBar where
  value : ℕ
  maximum : ℕ
  value_le : value ≤ maximum
  deriving DecidableEq

def ProgressBar.setMaximum (bar : ProgressBar) (n : ℕ) : ProgressBar :=
  ⟨min n bar.value, n, min_le_left _ _⟩

def ProgressBar.setValue (bar : ProgressBar) (n : ℕ) : ProgressBar :=
  ⟨min n bar.maximum, bar.maximum, min_le_right _ _⟩

/-- The text of the status bar: what `stepProgressBar` writes, or anything else. -/
inductive StatusText
  | other
  /-- "Copying files to device... (`value` of `maximum`)" -/
  | copying (value maximum : ℕ)
  /-- "Finished copying (`failed` of `maximum` failed)" -/
  | finished (failed : ℤ) (maximum : ℕ)
  deriving DecidableEq, Repr

/-! ## States -/

/-- A `sendFile` call that has ended, and what it returned if it returned. -/
structure SentFile where
  details : ℕ
  ret : Option Int64
  deriving DecidableEq, Repr

/-- What Copy and the workers share.  `details` are the objects that have been queued, in order;
`sent` records the ended calls. -/
structure CopyState where
  transferredOk : ℕ
  details : List CopyFileDetails
  transferQueue : List ℕ
  workers : List Worker
  /-- The undelivered `filesCopied` events, by the worker that fired them. -/
  events : List ℕ
  sent : List SentFile

/-- The field `usbDevice`, and the native registry: device objects by number, the numbers of those
that have been deleted, and the next free one. -/
structure DeviceState where
  usbDevice : Option WStr
  listDevices : AList fun _ : WStr => ℕ
  deleted : List ℕ
  nextDevice : ℕ

/-- Where the GUI thread dispatches events: between two handlers, and in a dialog. -/
inductive Dispatching
  | idle
  /-- "Please connect USB device." -/
  | confirm
  /-- "Error: could not connect to an MTP device"; `copy` if Copy tried to connect. -/
  | connectError (copy : Bool)
  deriving DecidableEq, Repr

/-- Where the GUI thread is. -/
inductive GuiPc
  | dispatching (d : Dispatching)
  /-- In the loop of `usbConnect` over the device list; `copy` if Copy called it. -/
  | connectLoop (devices : List (Option WStr)) (success copy : Bool)
  /-- In Copy, before the progress bar is set up. -/
  | setupBar
  /-- In Copy's loop over the list. -/
  | copyFiles (index : ℕ)
  /-- In `propertyChange`, with `newValue[0]` read; `back` is where the event was dispatched. -/
  | propertyChange (worker : ℕ) (newValue : ℤ) (back : Dispatching)
  | stepProgressBar (back : Dispatching)
  /-- In `usbDisconnect`, before `usbDevice = null`; `terminating` if `terminate` called it. -/
  | forgetDevice (terminating : Bool)
  /-- In `terminate`: at `isDone`, at `cancel`, at the test of the wait loop, and in its body. -/
  | isDone
  | cancel
  | getProgress
  | enterWait
  | waiting
  | exited
  deriving DecidableEq, Repr

/-- Between two handlers. -/
@[match_pattern] abbrev GuiPc.idle : GuiPc := .dispatching .idle

structure State extends CopyState, DeviceState where
  gui : GuiPc
  /-- `menuItemConnect.getState()`. -/
  connected : Bool
  listModel : List WStr
  progressBar : ProgressBar
  statusBar : StatusText

/-- The state after the constructor of the window. -/
def State.init : State where
  transferredOk := 0
  details := []
  transferQueue := []
  workers := []
  events := []
  sent := []
  usbDevice := none
  listDevices := ∅
  deleted := []
  nextDevice := 0
  gui := .idle
  connected := false
  listModel := []
  progressBar := ⟨0, 100, Nat.zero_le _⟩
  statusBar := .other

/-! ## Devices -/

/-- What a device scan does: the names it registers after clearing the registry, if it gets that
far, and the entries of the Java device list that `usbConnect` reads, null ones included. -/
structure DeviceScan where
  refreshed : Option (List WStr)
  listed : List (Option WStr)
  deriving DecidableEq, Repr

namespace DeviceState

/-- The devices in the registry. -/
def registered (d : DeviceState) : List ℕ := d.listDevices.entries.map Sigma.snd

/-- `clear_devices`. -/
def clearDevices (d : DeviceState) : DeviceState :=
  { d with listDevices := ∅, deleted := d.registered ++ d.deleted }

/-- A detected device gets a new object, in the place of an older one of its name. -/
def register (d : DeviceState) (canonical : WStr) : DeviceState :=
  { d with listDevices := d.listDevices.insert canonical d.nextDevice
           nextDevice := d.nextDevice + 1 }

/-- `refresh_devices`. -/
def refreshDevices (d : DeviceState) (found : List WStr) : DeviceState :=
  found.foldl register d.clearDevices

/-- `release_device`. -/
def releaseDevice (d : DeviceState) (devid : WStr) : DeviceState :=
  match d.listDevices.lookup devid with
  | none => d
  | some usbdev =>
    { d with listDevices := d.listDevices.erase devid, deleted := usbdev :: d.deleted }

end DeviceState

/-! ## The handlers of the window -/

inductive Act
  /-- The user changes the list of files. -/
  | editList (list : List WStr)
  | clickConnect (scan : DeviceScan)
  | clickCopy
  /-- The answer to "Please connect USB device.", and the scan an OK leads to. -/
  | answer (ok : Bool) (scan : DeviceScan)
  /-- The error dialog is closed. -/
  | dismiss
  /-- Exit, or the close button. -/
  | close
  /-- The next `filesCopied` event is dispatched. -/
  | deliver
  /-- The running handler goes on. -/
  | gui
  /-- …in Copy, with the tags of the next file. -/
  | readTags (o : TagOutcome)
  /-- `wait()` returns without a notification. -/
  | wake
  | work (i : ℕ) (a : WorkerAct)
  deriving DecidableEq, Repr

/-- The GUI thread is in `terminate`, or behind it. -/
def GuiPc.terminating : GuiPc → Bool
  | .forgetDevice true | .isDone | .cancel | .getProgress | .enterWait | .waiting | .exited => true
  | _ => false

/-- The GUI thread is at work on an event. -/
def GuiPc.handling : GuiPc → ℕ
  | .propertyChange _ _ _ | .stepProgressBar _ => 1
  | _ => 0

/-- The GUI thread is in the synchronized `terminate` and not waiting. -/
def GuiPc.inMonitor : GuiPc → Bool
  | .forgetDevice true | .isDone | .cancel | .getProgress | .enterWait => true
  | _ => false

namespace State

/-- `usbConnect`, up to its loop. -/
def usbConnect (s : State) (scan : DeviceScan) (copy : Bool) : State :=
  { s with toDeviceState := scan.refreshed.elim s.toDeviceState s.refreshDevices
           gui := .connectLoop scan.listed false copy }

/-- `usbDisconnect`, up to `usbDevice = null`; with a null `usbDevice` it is left by a
`NullPointerException`. -/
def usbDisconnect (s : State) (terminating : Bool) : State :=
  match s.usbDevice with
  | none => { s with gui := .idle }
  | some jdev =>
    { s with toDeviceState := s.releaseDevice jdev, gui := .forgetDevice terminating }

/-- `setConnectedState`. -/
def setConnectedState (s : State) (state : Bool) : State :=
  { s with connected := state, statusBar := .other }

/-- Copy's set-up of the progress bar, and `transferredOk = 0`. -/
def setupBar (s : State) : State :=
  let maxProgressBarValue := s.listModel.length +
    if s.progressBar.value ≠ 0 then s.progressBar.value else 0
  { s with progressBar := (s.progressBar.setMaximum maxProgressBarValue).setValue 0
           transferredOk := 0
           gui := .copyFiles 0 }

/-- `transferQueue.add`. -/
def enqueue (s : State) (details : CopyFileDetails) : State :=
  { s with details := s.details ++ [details]
           transferQueue := s.transferQueue ++ [s.details.length] }

/-- The new worker, and `listModel.clear()`. -/
def launch (s : State) : State :=
  { s with workers := s.workers ++ [Worker.new], listModel := [], gui := .idle }

def stepProgressBar (s : State) : State :=
  let oldValue := s.progressBar.value
  let maximum := s.progressBar.maximum
  if (maximum : ℤ) - oldValue > 1 then
    let bar := s.progressBar.setValue (oldValue + 1)
    { s with progressBar := bar, statusBar := .copying bar.value maximum }
  else if (maximum : ℤ) - oldValue = 1 then
    let bar := s.progressBar.setValue maximum
    { s with progressBar := bar, statusBar := .copying bar.value maximum }
  else
    { s with progressBar := s.progressBar.setValue 0
             statusBar := .finished (maximum - s.transferredOk) maximum }

/-- `worker`, the last one that Copy made. -/
def worker (s : State) : Option Worker := s.workers.getLast?

/-- `worker.cancel(false)`, which a finished worker ignores. -/
def cancelWorker (s : State) : State :=
  { s with workers := s.workers.modify (s.workers.length - 1) fun w =>
      { w with cancelled := w.cancelled || w.pc ≠ .done } }

/-- The next step of the running handler. -/
def guiStep (s : State) : GuiPc → Option State
  | .connectLoop [] success copy =>
    some { s.setConnectedState success with
      gui := if success then (if copy then .setupBar else .idle)
        else .dispatching (.connectError copy) }
  | .connectLoop (usbDevice :: devices) success copy =>
    some { s with usbDevice := usbDevice
                  gui := .connectLoop devices (success || usbDevice.isSome) copy }
  | .setupBar => some s.setupBar
  | .copyFiles index => if index < s.listModel.length then none else some s.launch
  | .propertyChange worker newValue back =>
    s.workers[worker]?.map fun w =>
      { s with gui := if newValue ≠ w.oldValue then .stepProgressBar back else .dispatching back }
  | .stepProgressBar back => some { s.stepProgressBar with gui := .dispatching back }
  | .forgetDevice terminating =>
    some { s.setConnectedState false with
      usbDevice := none, gui := if terminating then .isDone else .idle }
  | .isDone =>
    match s.worker with
    | none => some { s with gui := .exited }
    | some w => some { s with gui := if w.pc = .done ∨ w.cancelled then .exited else .cancel }
  | .cancel => some { s.cancelWorker with gui := .getProgress }
  | .getProgress =>
    s.worker.map fun w => { s with gui := if w.progress ≠ 100 then .enterWait else .exited }
  | .enterWait => some { s with gui := .waiting }
  | _ => none

/-- The memory as a worker reads it. -/
def view (s : State) : WorkerView where
  head := s.transferQueue.head?
  usbDevice := s.usbDevice
  getDevicebyid := s.listDevices.lookup
  transferredOk := s.transferredOk

end State

/-- The effect of a step of the `i`-th worker on what it shares with Copy. -/
def CopyState.apply (c : CopyState) (i : ℕ) : Effect → CopyState
  | .nothing | .notifyMe => c
  | .remove => { c with transferQueue := c.transferQueue.tail }
  | .sent details ret => { c with sent := c.sent ++ [⟨details, ret⟩] }
  | .writeOk n => { c with transferredOk := n }
  | .fire => { c with events := c.events ++ [i] }

/-- …and the state it leaves, with the worker moved. -/
def CopyState.afterWork (c : CopyState) (i : ℕ) (w : Worker) (eff : Effect) : CopyState :=
  { c.apply i eff with workers := c.workers.set i w }

namespace State

/-- A step of the `i`-th worker.  `notifyMe` is synchronized, and wakes the waiting GUI thread. -/
def workStep (s : State) (i : ℕ) (a : WorkerAct) : Option State :=
  match s.workers[i]? with
  | none => none
  | some w =>
    match w.step s.view a with
    | none => none
    | some (w', eff) =>
      if eff = .notifyMe ∧ s.gui.inMonitor then none
      else some { s with
        toCopyState := s.afterWork i w' eff
        gui := if eff = .notifyMe ∧ s.gui = .waiting then .getProgress else s.gui }

/-- **One step** of the application. -/
def step (s : State) : Act → Option State
  | .editList list =>
    if s.gui = .idle then some { s with listModel := list, statusBar := .other } else none
  | .clickConnect scan =>
    if s.gui = .idle then
      some (if s.connected then { s with connected := false }.usbDisconnect false
        else { s with connected := true }.usbConnect scan false)
    else none
  | .clickCopy =>
    if s.gui = .idle then
      some { s with gui := if s.connected then .setupBar else .dispatching .confirm }
    else none
  | .answer ok scan =>
    if s.gui = .dispatching .confirm then
      some (if ok then s.usbConnect scan true else { s with gui := .idle })
    else none
  | .dismiss =>
    match s.gui with
    | .dispatching (.connectError copy) => some { s with gui := if copy then .setupBar else .idle }
    | _ => none
  | .close =>
    if s.gui = .idle then
      some (if s.connected then s.usbDisconnect true else { s with gui := .isDone })
    else none
  | .deliver =>
    match s.gui, s.events with
    | .dispatching back, i :: events =>
      s.workers[i]?.map fun w =>
        { s with events := events, gui := .propertyChange i w.newValue back }
    | _, _ => none
  | .gui => s.guiStep s.gui
  | .readTags o =>
    match s.gui with
    | .copyFiles index =>
      s.listModel[index]?.map fun path =>
        match copyFileDetails path o with
        | some details => { s.enqueue details with gui := .copyFiles (index + 1) }
        | none => { s with gui := .idle }
    | _ => none
  | .wake => if s.gui = .waiting then some { s with gui := .getProgress } else none
  | .work i a => s.workStep i a

end State

/-! ## The beginning of a run -/

/-- `n` steps of a worker. -/
def ticks (i n : ℕ) : List Act := List.replicate n (.work i .tick)

/-- Copy of one file, whose tags cannot be read, up to the start of the worker. -/
def copyOneFile (path : WStr) : List Act :=
  [.editList [path], .clickCopy, .gui, .readTags .cannotRead, .gui]

/-- A click on Connect, which finds one device. -/
def connectPlayer : List Act :=
  [.clickConnect ⟨some [wide "player"], [some (wide "player")]⟩, .gui, .gui]

/-- Dispatching an event up to the end of `stepProgressBar`. -/
def dispatchEvent : List Act := [.deliver, .gui, .gui]

/-- Two copies of one file side by side, the second one behind the first event of the first, up to
the end of both workers.  The second file fails. -/
def twoCopies : List Act :=
  connectPlayer ++ copyOneFile (wide "C:\\a.mp3") ++ ticks 0 5 ++ dispatchEvent ++
    copyOneFile (wide "C:\\b.mp3") ++ ticks 1 5 ++ ticks 0 4 ++ ticks 1 4 ++
    [.work 1 (.ret 1), .work 0 (.ret 0)] ++ ticks 1 4 ++ ticks 0 6 ++ dispatchEvent ++
    dispatchEvent ++ dispatchEvent ++ ticks 0 2 ++ ticks 1 2

end MtpRetag
