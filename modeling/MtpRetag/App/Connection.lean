import MtpRetag.App.Lifetime

/-!
# App/Connection — what a connected window holds

The menu item says whether the window is connected; the field `usbDevice` and the native registry
are set by other statements, and workers go on meanwhile.  Outside the two handlers that connect and
disconnect, the three belong together: a connected window holds a device that the registry knows
(`connected_holds`), as long as a scan lists only devices that it registers.
-/

namespace MtpRetag

/-- The field `usbDevice` names a registered device. -/
def DeviceState.HoldsDevice (d : DeviceState) : Prop :=
  ∃ jdev, d.usbDevice = some jdev ∧ (d.listDevices.lookup jdev).isSome

/-- A handler is about to connect, or to disconnect. -/
def GuiPc.connecting : GuiPc → Bool
  | .connectLoop _ _ _ | .forgetDevice _ => true
  | _ => false

/-- The Java device list has devices only, and those that the scan has registered. -/
def DeviceScan.Sound (scan : DeviceScan) : Prop :=
  ∀ usbDevice ∈ scan.listed, ∃ jdev ∈ scan.refreshed.getD [], usbDevice = some jdev

instance (scan : DeviceScan) : Decidable scan.Sound :=
  inferInstanceAs (Decidable (∀ usbDevice ∈ scan.listed, _))

/-- The scan that a step makes. -/
def State.scan (s : State) : Act → Option DeviceScan
  | .clickConnect scan => if s.connected then none else some scan
  | .answer ok scan => if ok then some scan else none
  | _ => none

/-- A step that disconnects. -/
def State.disconnects (s : State) : Act → Bool
  | .clickConnect _ | .close => s.connected
  | _ => false

/-- What belongs together, in and outside the loop of `usbConnect`. -/
structure State.Connection (s : State) : Prop where
  connected : s.connected = true → s.gui.connecting = false → s.HoldsDevice
  listed : ∀ devices success copy, s.gui = .connectLoop devices success copy →
    ∀ usbDevice ∈ devices, ∃ jdev, usbDevice = some jdev ∧ (s.listDevices.lookup jdev).isSome
  success : ∀ devices copy, s.gui = .connectLoop devices true copy → s.HoldsDevice

/-- **What a step can do to the connection.** -/
inductive ConnectionMove (s : State) : Act → State → Prop
  /-- Nothing: the GUI thread stays where it is, or outside the two handlers. -/
  | rest {a : Act} {s' : State} (hdevice : s'.toDeviceState = s.toDeviceState)
      (hconnected : s'.connected = s.connected)
      (hgui : s'.gui = s.gui ∨ (s.gui.connecting = false ∧ s'.gui.connecting = false)) :
      ConnectionMove s a s'
  | scan {a : Act} {scan : DeviceScan} {copy : Bool} {s' : State} (hscan : s.scan a = some scan)
      (hdevice : s'.toDeviceState = scan.refreshed.elim s.toDeviceState s.refreshDevices)
      (hgui : s'.gui = .connectLoop scan.listed false copy) : ConnectionMove s a s'
  | take {usbDevice : Option WStr} {devices : List (Option WStr)} {success copy : Bool}
      (hgui : s.gui = .connectLoop (usbDevice :: devices) success copy) :
      ConnectionMove s .gui { s with
        usbDevice := usbDevice, gui := .connectLoop devices (success || usbDevice.isSome) copy }
  | connected {success copy : Bool} {s' : State} (hgui : s.gui = .connectLoop [] success copy)
      (hdevice : s'.toDeviceState = s.toDeviceState) (hconnected : s'.connected = success)
      (hgui' : s'.gui.connecting = false) : ConnectionMove s .gui s'
  | release {a : Act} {jdev : WStr} {terminating : Bool} {s' : State}
      (ha : s.disconnects a = true) (hjdev : s.usbDevice = some jdev)
      (hdevice : s'.toDeviceState = s.releaseDevice jdev)
      (hgui : s'.gui = .forgetDevice terminating) : ConnectionMove s a s'
  /-- The `NullPointerException` of `usbDisconnect`. -/
  | threw {a : Act} {s' : State} (hconnected : s.connected = true) (hnull : s.usbDevice = none)
      (hdevice : s'.toDeviceState = s.toDeviceState) (hgui : s.gui = .idle)
      (hgui' : s'.gui = .idle) : ConnectionMove s a s'
  | forget {terminating : Bool} {s' : State} (hgui : s.gui = .forgetDevice terminating)
      (hdevice : s'.toDeviceState = { s.toDeviceState with usbDevice := none })
      (hconnected : s'.connected = false) (hgui' : s'.gui.connecting = false) :
      ConnectionMove s .gui s'

section Step

variable {s s' : State} {a : Act}

theorem connected_stepProgressBar (s : State) : s.stepProgressBar.connected = s.connected := by
  simp only [State.stepProgressBar]
  split
  · rfl
  · split <;> rfl

theorem connectionMove_usbDisconnect (s₀ : State) (ha : s.disconnects a = true)
    (hconnected : s.connected = true) (hgui : s.gui = .idle)
    (hdevice : s₀.toDeviceState = s.toDeviceState) (terminating : Bool) :
    ConnectionMove s a (s₀.usbDisconnect terminating) := by
  rw [State.usbDisconnect]
  cases hdev : s₀.usbDevice with
  | none => exact .threw hconnected (by rw [← hdev, hdevice]) hdevice hgui rfl
  | some jdev =>
    refine .release ha (by rw [← hdev, hdevice]) ?_ rfl
    rw [← hdevice]

theorem connectionMove_of_guiStep (h : s.guiStep s.gui = some s') : ConnectionMove s .gui s' := by
  cases hgui : s.gui with
  | connectLoop devices success copy =>
    rw [hgui] at h
    cases devices with
    | nil =>
      obtain rfl := Option.some.inj h
      refine .connected hgui rfl rfl ?_
      cases success <;> cases copy <;> rfl
    | cons usbDevice devices =>
      obtain rfl := Option.some.inj h
      exact .take hgui
  | forgetDevice terminating =>
    rw [hgui] at h
    obtain rfl := Option.some.inj h
    refine .forget hgui rfl rfl ?_
    cases terminating <;> rfl
  | setupBar =>
    obtain rfl := Option.some.inj (hgui ▸ h)
    exact .rest rfl rfl (.inr ⟨hgui ▸ rfl, rfl⟩)
  | copyFiles index =>
    rw [hgui, State.guiStep, Option.ite_none_left_eq_some] at h
    obtain rfl := Option.some.inj h.2
    exact .rest rfl rfl (.inr ⟨hgui ▸ rfl, rfl⟩)
  | propertyChange worker newValue back =>
    rw [hgui, State.guiStep, Option.map_eq_some_iff] at h
    obtain ⟨w, -, rfl⟩ := h
    split <;> exact .rest rfl rfl (.inr ⟨hgui ▸ rfl, rfl⟩)
  | stepProgressBar back =>
    obtain rfl := Option.some.inj (hgui ▸ h)
    exact .rest (toDeviceState_stepProgressBar s) (connected_stepProgressBar s)
      (.inr ⟨hgui ▸ rfl, rfl⟩)
  | isDone =>
    rw [hgui, State.guiStep] at h
    split at h
    · obtain rfl := Option.some.inj h
      exact .rest rfl rfl (.inr ⟨hgui ▸ rfl, rfl⟩)
    · obtain rfl := Option.some.inj h
      split <;> exact .rest rfl rfl (.inr ⟨hgui ▸ rfl, rfl⟩)
  | cancel =>
    obtain rfl := Option.some.inj (hgui ▸ h)
    exact .rest rfl rfl (.inr ⟨hgui ▸ rfl, rfl⟩)
  | getProgress =>
    rw [hgui, State.guiStep, Option.map_eq_some_iff] at h
    obtain ⟨w, -, rfl⟩ := h
    split <;> exact .rest rfl rfl (.inr ⟨hgui ▸ rfl, rfl⟩)
  | enterWait =>
    obtain rfl := Option.some.inj (hgui ▸ h)
    exact .rest rfl rfl (.inr ⟨hgui ▸ rfl, rfl⟩)
  | dispatching | waiting | exited => simp [hgui, State.guiStep] at h

/-- **What a step can do to the connection**, once for all. -/
theorem connectionMove_of_step (h : s.step a = some s') : ConnectionMove s a s' := by
  cases a with
  | editList list =>
    rw [State.step, Option.ite_none_right_eq_some] at h
    obtain rfl := Option.some.inj h.2
    exact .rest rfl rfl (.inl rfl)
  | clickConnect scan =>
    rw [State.step, Option.ite_none_right_eq_some] at h
    obtain rfl := Option.some.inj h.2
    split
    next hconnected =>
      have ha : s.disconnects (.clickConnect scan) = true := hconnected
      exact connectionMove_usbDisconnect { s with connected := false } ha hconnected h.1 rfl false
    next hconnected => exact .scan (by rw [State.scan, if_neg hconnected]) rfl rfl
  | clickCopy =>
    rw [State.step, Option.ite_none_right_eq_some] at h
    obtain rfl := Option.some.inj h.2
    refine .rest rfl rfl (.inr ⟨h.1 ▸ rfl, ?_⟩)
    dsimp only
    split <;> rfl
  | answer ok scan =>
    rw [State.step, Option.ite_none_right_eq_some] at h
    obtain rfl := Option.some.inj h.2
    cases ok with
    | false => exact .rest rfl rfl (.inr ⟨h.1 ▸ rfl, rfl⟩)
    | true => exact .scan rfl rfl rfl
  | dismiss =>
    rw [State.step] at h
    split at h
    next copy hgui =>
      obtain rfl := Option.some.inj h
      refine .rest rfl rfl (.inr ⟨hgui ▸ rfl, ?_⟩)
      cases copy <;> rfl
    next => simp at h
  | close =>
    rw [State.step, Option.ite_none_right_eq_some] at h
    obtain rfl := Option.some.inj h.2
    split
    next hconnected =>
      have ha : s.disconnects .close = true := hconnected
      exact connectionMove_usbDisconnect s ha hconnected h.1 rfl true
    next => exact .rest rfl rfl (.inr ⟨h.1 ▸ rfl, rfl⟩)
  | deliver =>
    rw [State.step] at h
    split at h
    next back i events hgui hevents =>
      obtain ⟨w, -, rfl⟩ := Option.map_eq_some_iff.mp h
      exact .rest rfl rfl (.inr ⟨hgui ▸ rfl, rfl⟩)
    next => simp at h
  | gui => exact connectionMove_of_guiStep h
  | readTags o =>
    rw [State.step] at h
    split at h
    next index hgui =>
      obtain ⟨path, -, rfl⟩ := Option.map_eq_some_iff.mp h
      split <;> exact .rest rfl rfl (.inr ⟨hgui ▸ rfl, rfl⟩)
    next => simp at h
  | wake =>
    rw [State.step, Option.ite_none_right_eq_some] at h
    obtain rfl := Option.some.inj h.2
    exact .rest rfl rfl (.inr ⟨h.1 ▸ rfl, rfl⟩)
  | work i x =>
    obtain ⟨w, pc', eff, -, -, -, rfl⟩ := exists_of_workStep h
    refine .rest rfl rfl ?_
    dsimp only
    split
    next hnotify => exact .inr ⟨by rw [hnotify.2]; rfl, rfl⟩
    next => exact .inl rfl

end Step

section Registry

variable {d : DeviceState}

theorem lookup_register_isSome (d : DeviceState) (canonical jdev : WStr) :
    ((d.register canonical).listDevices.lookup jdev).isSome ↔
      jdev = canonical ∨ (d.listDevices.lookup jdev).isSome := by
  rw [DeviceState.register]
  by_cases h : jdev = canonical
  · subst h
    rw [AList.lookup_insert]
    simp
  · rw [AList.lookup_insert_ne h]
    simp [h]

/-- A name is registered when it is one of those found. -/
theorem lookup_foldl_register_isSome (jdev : WStr) :
    ∀ (found : List WStr) (d : DeviceState),
      ((found.foldl DeviceState.register d).listDevices.lookup jdev).isSome ↔
        jdev ∈ found ∨ (d.listDevices.lookup jdev).isSome
  | [], d => by simp
  | canonical :: found, d => by
      rw [List.foldl_cons, lookup_foldl_register_isSome jdev found, lookup_register_isSome,
        List.mem_cons, ← or_assoc, or_comm (a := jdev ∈ found)]

theorem lookup_refreshDevices_isSome (d : DeviceState) (found : List WStr) (jdev : WStr) :
    ((d.refreshDevices found).listDevices.lookup jdev).isSome ↔ jdev ∈ found := by
  rw [DeviceState.refreshDevices, lookup_foldl_register_isSome, DeviceState.clearDevices]
  simp

end Registry

section Run

variable {s s' : State} {a : Act}

/-- Outside the two handlers, the connection is what the menu item promises. -/
theorem connection_of_not_connecting (hgui : s.gui.connecting = false)
    (hholds : s.connected = true → s.HoldsDevice) : s.Connection where
  connected hconnected _ := hholds hconnected
  listed devices success copy hloop := by simp [hloop, GuiPc.connecting] at hgui
  success devices copy hloop := by simp [hloop, GuiPc.connecting] at hgui

/-- In a scan the registry gets all that is listed. -/
theorem connection_scan {scan : DeviceScan} {copy : Bool} (hsound : scan.Sound)
    (hdevice : s'.toDeviceState = scan.refreshed.elim s.toDeviceState s.refreshDevices)
    (hgui : s'.gui = .connectLoop scan.listed false copy) : s'.Connection where
  connected _ hconnecting := by simp [hgui, GuiPc.connecting] at hconnecting
  listed devices success copy hloop usbDevice hmem := by
    rw [hgui, GuiPc.connectLoop.injEq] at hloop
    obtain ⟨rfl, -, -⟩ := hloop
    obtain ⟨jdev, hjdev, rfl⟩ := hsound usbDevice hmem
    refine ⟨jdev, rfl, ?_⟩
    rw [hdevice]
    cases hfound : scan.refreshed with
    | none => simp [hfound] at hjdev
    | some found =>
      rw [hfound, Option.getD_some] at hjdev
      exact (lookup_refreshDevices_isSome s.toDeviceState found jdev).mpr hjdev
  success devices copy hloop := by simp [hgui] at hloop

/-- **The connection is kept**, where a step makes no scan or a sound one. -/
theorem connection_step (hs : s.Connection) (hok : ∀ scan ∈ s.scan a, scan.Sound)
    (h : s.step a = some s') : s'.Connection := by
  have hmove := connectionMove_of_step h
  cases hmove with
  | rest hdevice hconnected hgui =>
    rcases hgui with hgui | ⟨hout, hout'⟩
    · refine ⟨?_, ?_, ?_⟩ <;> rw [hgui, hdevice]
      · rw [hconnected]
        exact hs.connected
      · exact hs.listed
      · exact hs.success
    · refine connection_of_not_connecting hout' fun h => ?_
      rw [hdevice]
      exact hs.connected (hconnected.symm.trans h) hout
  | scan hscan hdevice hgui => exact connection_scan (hok _ hscan) hdevice hgui
  | @take usbDevice devices success copy hgui =>
    have hlisted := hs.listed _ _ _ hgui
    obtain ⟨⟨jdev, rfl, hjdev⟩, hrest⟩ := List.forall_mem_cons.mp hlisted
    refine ⟨fun _ hconnecting => by simp [GuiPc.connecting] at hconnecting, ?_,
      fun _ _ _ => ⟨jdev, rfl, hjdev⟩⟩
    rintro _ _ _ ⟨⟩
    exact hrest
  | connected hgui hdevice hconnected hgui' =>
    refine connection_of_not_connecting hgui' fun h => ?_
    rw [hdevice]
    rw [hconnected] at h
    subst h
    exact hs.success _ _ hgui
  | release _ _ _ hgui =>
    refine ⟨fun _ hconnecting => ?_, fun _ _ _ hloop => ?_, fun _ _ hloop => ?_⟩
    · simp [hgui, GuiPc.connecting] at hconnecting
    · simp [hgui] at hloop
    · simp [hgui] at hloop
  | threw hconnected hnull _ hgui _ =>
    obtain ⟨jdev, hjdev, -⟩ := hs.connected hconnected (hgui ▸ rfl)
    simp [hnull] at hjdev
  | forget _ _ hconnected hgui =>
    exact connection_of_not_connecting hgui fun h => by simp [hconnected] at h

theorem connection_init : State.init.Connection :=
  connection_of_not_connecting rfl (by simp [State.init])

end Run

/-- **A connected window holds a registered device**, which has not been deleted: in every run whose
scans are sound, whatever the workers do meanwhile, outside the handlers that connect and
disconnect. -/
theorem connected_holds (as : List Act)
    (hsound : ∀ e ∈ Transition.fired State.step .init as, ∀ scan ∈ e.pre.scan e.label, scan.Sound) :
    ∀ e ∈ Transition.fired State.step .init as, e.post.connected = true →
      e.post.gui.connecting = false →
        ∃ jdev usbdev, e.post.usbDevice = some jdev ∧
          e.post.listDevices.lookup jdev = some usbdev ∧ usbdev ∉ e.post.deleted := by
  intro e he hconnected hgui
  obtain ⟨hs, hfresh⟩ := (Transition.forall_fired_inv
    (fun s : State => s.Connection ∧ s.toDeviceState.Fresh)
    (fun s a => ∀ scan ∈ s.scan a, scan.Sound) (fun _ => True)
    (fun _ _ _ _ hs hok h =>
      ⟨connection_step hs.1 hok h, fresh_of_deviceMove (moves_of_step h).device hs.2⟩)
    as (fun _ _ => trivial) ⟨connection_init, fresh_init⟩ hsound e he).2
  obtain ⟨jdev, hjdev, hsome⟩ := hs.connected hconnected hgui
  obtain ⟨usbdev, husbdev⟩ := Option.isSome_iff_exists.mp hsome
  exact ⟨jdev, usbdev, hjdev, husbdev, hfresh.live husbdev⟩

/-- Connecting, copying a file, disconnecting while it is sent, and connecting again. -/
def reconnect : List Act :=
  connectPlayer ++ copyOneFile (wide "C:\\a.mp3") ++ ticks 0 9 ++
    [.clickConnect ⟨none, []⟩, .gui] ++ connectPlayer

theorem connected_holds_reconnect :
    (∃ e ∈ Transition.fired State.step .init reconnect,
      e.post.connected = true ∧ e.post.gui.connecting = false) ∧
    ∀ e ∈ Transition.fired State.step .init reconnect, e.post.connected = true →
      e.post.gui.connecting = false →
        ∃ jdev usbdev, e.post.usbDevice = some jdev ∧
          e.post.listDevices.lookup jdev = some usbdev ∧ usbdev ∉ e.post.deleted :=
  ⟨by decide, connected_holds reconnect (by decide)⟩

end MtpRetag
