import MtpRetag.App.Connection
import MtpRetag.Native.Refresh
import MtpRetag.Native.Session

/-!
# App/Desktop — the window with the library behind it

The window alone (`App/Machine`) asks a registry that a scan fills with the names it is told, and
its `sendFile` calls return what they like.  Here both answers come from the native library: a scan
is `detectDevices`, a `sendFile` call looks its device up and then runs `transfer_file` on it.  A
call takes effect when it returns.

Every step of a desktop is one step of its window (`exists_step_window`), so what was proved about
the window holds here.  What the two parts believe about the devices agrees in every run
(`desktop_coherent`).
-/

namespace MtpRetag

/-! ## Names of devices -/

/-- What Java calls a device of the registry. -/
def Jni.handle (jni : Jni) (devid : WStr) : WStr := jni.newString (cStr devid)

/-- The name of a device survives the way to Java and back. -/
def Jni.Keeps (jni : Jni) (devid : WStr) : Prop := (jni.ca2w (jni.handle devid)).1 = devid

instance (jni : Jni) (devid : WStr) : Decidable (jni.Keeps devid) :=
  inferInstanceAs (Decidable (_ = _))

/-- What Java calls some device whose name survives. -/
def Jni.IsHandle (jni : Jni) (jdev : WStr) : Prop :=
  ∃ devid, jni.Keeps devid ∧ jdev = jni.handle devid

/-- What Java calls the devices of a registry. -/
def Registry.handles (jni : Jni) (r : Registry) : List WStr :=
  r.map.entries.filterMap fun e => e.2.map fun usbdev => jni.handle usbdev.canonical

/-! ## Calls of the library -/

/-- A device scan: what `detectDevices` meets, and the entries of the Java device list that
`usbConnect` reads after it. -/
structure NativeScan where
  calls : ScanCalls
  env : JniLookups
  memory : WStr → Raw × Raw
  listed : List (Option WStr)

/-- `scanDevices`; a call through NULL ends the process. -/
def DeviceManager.scanDevices (jni : Jni) (m : DeviceManager) (scan : NativeScan) :
    Option DetectCall :=
  (DeviceManager.detectDevices jni scan.env scan.memory (some m) scan.calls).toOption

/-- `releaseDevice` for the device that the window holds. -/
def DeviceManager.releaseDevice (jni : Jni) (m : DeviceManager) (usbDevice : Option WStr) :
    DeviceManager :=
  match usbDevice with
  | none => m
  | some jdev =>
    { m with listDevices := (m.listDevices.releaseDevice (jni.ca2w jdev).1).2 }

/-- The window, and the library behind it. -/
structure Desktop where
  window : State
  library : DeviceManager

inductive DesktopAct
  | clickConnect (scan : NativeScan)
  | answer (ok : Bool) (scan : NativeScan)
  | close
  /-- The `sendFile` call of the `i`-th worker looks its device up. -/
  | lookup (i : ℕ)
  /-- …and returns, with the outcomes of the COM calls behind it. -/
  | sendFile (i : ℕ) (hr : Outcomes)
  /-- A step that does not call the library. -/
  | other (a : Act)

/-- A step of the window, and the library it leaves. -/
structure LibraryCall where
  act : Act
  library : DeviceManager

namespace Desktop

/-- The place of a worker. -/
def pc (d : Desktop) (i : ℕ) : Option WorkerPc := d.window.workers[i]?.map Worker.pc

/-- The name under which a device object is registered; a deleted one has none. -/
def nameOf (d : Desktop) (usbdev : ℕ) : Option WStr :=
  (d.window.listDevices.entries.find? fun e => e.2 = usbdev).map Sigma.fst

/-- What a scan is for the window and the library. -/
def scan (host : Host) (d : Desktop) (scan : NativeScan) : Option (DeviceScan × DeviceManager) :=
  (d.library.scanDevices host.jni scan).map fun call =>
    let m := call.pasmgr.getD d.library
    (⟨some (m.listDevices.handles host.jni), scan.listed⟩, m)

/-- The call a worker is in: the device it has looked up, and its file. -/
def calling (d : Desktop) (i : ℕ) : Option (WStr × CopyFileDetails) :=
  match d.pc i with
  | some (.transfer details usbdev) =>
    (d.nameOf usbdev).bind fun jdev => d.window.details[details]?.map fun file => (jdev, file)
  | _ => none

/-- `sendFile` as that worker has called it. -/
def sendFile (host : Host) (d : Desktop) (i : ℕ) (hr : Outcomes) : Option SendCall :=
  (d.calling i).bind fun call =>
    (MtpRetag.sendFile host.world host.jni (some d.library.listDevices) hr call.1 call.2.source
      call.2.destination (some call.2.fm)).toOption

/-- A step of the window that calls the library. -/
def callsLibrary (d : Desktop) : Act → Bool
  | .clickConnect _ | .answer _ _ | .close | .work _ (.ret _) | .work _ .throw => true
  | .work i .tick => match d.pc i with
    | some (.lookup _ _) => true
    | _ => false
  | _ => false

/-- What an act is for the window, and what it does to the library. -/
def call (host : Host) (d : Desktop) : DesktopAct → Option LibraryCall
  | .clickConnect scan =>
    if d.window.connected then
      some ⟨.clickConnect ⟨none, []⟩, d.library.releaseDevice host.jni d.window.usbDevice⟩
    else (d.scan host scan).map fun scanned => ⟨.clickConnect scanned.1, scanned.2⟩
  | .answer ok scan =>
    if ok then (d.scan host scan).map fun scanned => ⟨.answer true scanned.1, scanned.2⟩
    else some ⟨.answer false ⟨none, []⟩, d.library⟩
  | .close =>
    some ⟨.close, if d.window.connected then
      d.library.releaseDevice host.jni d.window.usbDevice else d.library⟩
  | .lookup i =>
    match d.pc i with
    | some (.lookup _ jdev) =>
      some ⟨.work i .tick, { d.library with
        listDevices := (d.library.listDevices.getDevicebyid (host.jni.ca2w jdev).1).2 }⟩
    | _ => none
  | .sendFile i hr =>
    (d.sendFile host i hr).map fun call =>
      ⟨.work i (.ret call.ret), { d.library with
        listDevices := call.listDevices.getD d.library.listDevices }⟩
  | .other a => if d.callsLibrary a then none else some ⟨a, d.library⟩

/-- **One step** of the desktop. -/
def step (host : Host) (d : Desktop) (a : DesktopAct) : Option Desktop :=
  (d.call host a).bind fun call => (d.window.step call.act).map fun window =>
    ⟨window, call.library⟩

end Desktop

/-! ## The window in its steps -/

section Window

variable {s s' : State} {a : Act}

@[simp] theorem usbDevice_refreshDevices (d : DeviceState) (found : List WStr) :
    (d.refreshDevices found).usbDevice = d.usbDevice := by
  have hfold : ∀ (found : List WStr) (d : DeviceState),
      (found.foldl DeviceState.register d).usbDevice = d.usbDevice := by
    intro found
    induction found with
    | nil => exact fun _ => rfl
    | cons canonical found ih => exact fun d => (ih _).trans rfl
  exact hfold found d.clearDevices

@[simp] theorem usbDevice_releaseDevice (d : DeviceState) (devid : WStr) :
    (d.releaseDevice devid).usbDevice = d.usbDevice := by
  rw [DeviceState.releaseDevice]
  split <;> rfl

/-- A scan refreshes the registry of the window… -/
theorem device_of_scan {scan : DeviceScan} (h : s.step a = some s') (ha : s.scan a = some scan) :
    s'.toDeviceState = scan.refreshed.elim s.toDeviceState s.refreshDevices := by
  cases a with
  | clickConnect scan' =>
    rw [State.scan, Option.ite_none_left_eq_some] at ha
    rw [State.step, Option.ite_none_right_eq_some, if_neg ha.1, Option.some.inj ha.2] at h
    rw [← Option.some.inj h.2]
    rfl
  | answer ok scan' =>
    rw [State.scan, Option.ite_none_right_eq_some] at ha
    rw [State.step, Option.ite_none_right_eq_some, if_pos ha.1, Option.some.inj ha.2] at h
    rw [← Option.some.inj h.2]
    rfl
  | _ => simp [State.scan] at ha

theorem device_usbDisconnect (s : State) (terminating : Bool) :
    (s.usbDisconnect terminating).toDeviceState =
      s.usbDevice.elim s.toDeviceState s.releaseDevice := by
  rw [State.usbDisconnect]
  cases s.usbDevice <;> rfl

/-- …a disconnect takes the device of the window out of it… -/
theorem device_of_disconnects (h : s.step a = some s') (ha : s.disconnects a = true) :
    s'.toDeviceState = s.usbDevice.elim s.toDeviceState s.releaseDevice := by
  cases a with
  | clickConnect scan =>
    have hconnected : s.connected = true := ha
    rw [State.step, Option.ite_none_right_eq_some, if_pos hconnected] at h
    rw [← Option.some.inj h.2, device_usbDisconnect]
  | close =>
    have hconnected : s.connected = true := ha
    rw [State.step, Option.ite_none_right_eq_some, if_pos hconnected] at h
    rw [← Option.some.inj h.2, device_usbDisconnect]
  | _ => simp [State.disconnects] at ha

/-- …and nothing else changes it. -/
theorem listDevices_of_quiet (h : s.step a = some s') (hscan : s.scan a = none)
    (hdisconnects : s.disconnects a = false) : s'.listDevices = s.listDevices := by
  cases connectionMove_of_step h with
  | rest hdevice => rw [hdevice]
  | scan ha => simp [hscan] at ha
  | take => rfl
  | connected _ hdevice => rw [hdevice]
  | release ha => simp [hdisconnects] at ha
  | threw _ _ hdevice => rw [hdevice]
  | forget _ hdevice => rw [hdevice]

/-- The device a worker is about to look up. -/
def WorkerPc.asked : WorkerPc → Option WStr
  | .lookup _ jdev => some jdev
  | _ => none

theorem asked_next {v : WorkerView} {isCancelled : Bool} {pc pc' : WorkerPc} {x : WorkerAct}
    {eff : Effect} {jdev : WStr} (h : pc.next v isCancelled x = some (pc', eff))
    (hjdev : pc'.asked = some jdev) : v.usbDevice = some jdev := by
  revert h
  fun_cases WorkerPc.next v isCancelled pc x
  all_goals rintro ⟨⟩
  all_goals simp_all [WorkerPc.asked]

theorem asked_move (hmove : Move s a s') {w : Worker} (hw : w ∈ s'.workers) {jdev : WStr}
    (hjdev : w.pc.asked = some jdev) :
    s.usbDevice = some jdev ∨ ∃ w₀ ∈ s.workers, w₀.pc.asked = some jdev := by
  rcases origin_of_move hmove hw with hw | rfl | ⟨-, hw₀, rfl⟩ | ⟨-, hnext, rfl⟩
  · exact .inr ⟨w, hw, hjdev⟩
  · simp [Worker.new, WorkerPc.asked] at hjdev
  · exact .inr ⟨_, hw₀, hjdev⟩
  · exact .inl (asked_next hnext hjdev)

/-- Every name of a device that the window has in hand is a `P`. -/
structure State.Names (P : WStr → Prop) (s : State) : Prop where
  usbDevice : ∀ jdev, s.usbDevice = some jdev → P jdev
  listed : ∀ devices success copy, s.gui = .connectLoop devices success copy →
    ∀ jdev, some jdev ∈ devices → P jdev
  asked : ∀ w ∈ s.workers, ∀ jdev, w.pc.asked = some jdev → P jdev

variable {P : WStr → Prop}

theorem names_usbDevice (hs : s.Names P) (hmove : ConnectionMove s a s') {jdev : WStr}
    (hjdev : s'.usbDevice = some jdev) : P jdev := by
  cases hmove with
  | rest hdevice | connected _ hdevice | threw _ _ hdevice =>
    rw [hdevice] at hjdev
    exact hs.usbDevice jdev hjdev
  | @scan _ seen _ _ _ hdevice =>
    refine hs.usbDevice jdev ?_
    rw [← hjdev, hdevice]
    cases seen.refreshed with
    | none => rfl
    | some found => exact (usbDevice_refreshDevices s.toDeviceState found).symm
  | take hgui =>
    refine hs.listed _ _ _ hgui jdev ?_
    rw [← hjdev]
    exact List.mem_cons_self
  | release _ _ hdevice =>
    rw [hdevice, usbDevice_releaseDevice] at hjdev
    exact hs.usbDevice jdev hjdev
  | forget _ hdevice => simp [hdevice] at hjdev

theorem names_listed (hs : s.Names P) (hmove : ConnectionMove s a s')
    (hscan : ∀ scan, s.scan a = some scan → ∀ jdev, some jdev ∈ scan.listed → P jdev)
    {devices : List (Option WStr)} {success copy : Bool}
    (hgui : s'.gui = .connectLoop devices success copy) {jdev : WStr} (hmem : some jdev ∈ devices) :
    P jdev := by
  cases hmove with
  | rest _ _ hsame =>
    rcases hsame with hsame | ⟨-, hout⟩
    · exact hs.listed _ _ _ (hsame.symm.trans hgui) jdev hmem
    · simp [hgui, GuiPc.connecting] at hout
  | scan hseen _ hgui' =>
    rw [hgui', GuiPc.connectLoop.injEq] at hgui
    exact hscan _ hseen jdev (hgui.1 ▸ hmem)
  | take hgui' =>
    rw [GuiPc.connectLoop.injEq] at hgui
    exact hs.listed _ _ _ hgui' jdev (List.mem_cons_of_mem _ (hgui.1 ▸ hmem))
  | connected _ _ _ hout | forget _ _ _ hout => simp [hgui, GuiPc.connecting] at hout
  | release _ _ _ hgui' | threw _ _ _ _ hgui' => simp [hgui'] at hgui

/-- The names in hand come from scans. -/
theorem names_step (hs : s.Names P)
    (hscan : ∀ scan, s.scan a = some scan → ∀ jdev, some jdev ∈ scan.listed → P jdev)
    (h : s.step a = some s') : s'.Names P := by
  have hmove := connectionMove_of_step h
  refine ⟨fun jdev => names_usbDevice hs hmove,
    fun _ _ _ hgui jdev => names_listed hs hmove hscan hgui, fun w hw jdev hjdev => ?_⟩
  rcases asked_move (moves_of_step h).copy hw hjdev with hheld | ⟨w₀, hw₀, hasked⟩
  · exact hs.usbDevice jdev hheld
  · exact hs.asked w₀ hw₀ jdev hasked

end Window

/-! ## The names of a scan -/

section Handles

variable {jni : Jni} {r : Registry} {jdev devid : WStr}

theorem mem_handles :
    jdev ∈ r.handles jni ↔ ∃ devid, (r.device devid).isSome ∧ jdev = jni.handle devid := by
  rw [Registry.handles, List.mem_filterMap]
  constructor
  · rintro ⟨⟨k, e⟩, hmem, he⟩
    obtain ⟨usbdev, rfl, rfl⟩ := Option.map_eq_some_iff.mp he
    have hk : r.map.lookup k = some (some usbdev) := AList.mem_lookup_iff.mpr hmem
    refine ⟨k, ?_, by rw [r.canonical_of_lookup hk]⟩
    rw [Registry.device, hk]
    rfl
  · rintro ⟨devid, hsome, rfl⟩
    obtain ⟨usbdev, husbdev⟩ := Option.isSome_iff_exists.mp hsome
    have hk : r.map.lookup devid = some (some usbdev) := Option.join_eq_some_iff.mp husbdev
    refine ⟨⟨devid, some usbdev⟩, AList.mem_lookup_iff.mp hk, ?_⟩
    rw [Option.map_some, r.canonical_of_lookup hk]

/-- A name that survives is told from all others that do. -/
theorem handle_inj {devid' : WStr} (h : jni.Keeps devid) (h' : jni.Keeps devid') :
    jni.handle devid = jni.handle devid' ↔ devid = devid' := by
  refine ⟨fun heq => ?_, fun heq => by rw [heq]⟩
  rw [← h, ← h', heq]

theorem handle_mem_handles (hkeeps : jni.Keeps devid)
    (hall : ∀ devid, (r.device devid).isSome → jni.Keeps devid) :
    jni.handle devid ∈ r.handles jni ↔ (r.device devid).isSome := by
  rw [mem_handles]
  constructor
  · rintro ⟨devid', hsome, heq⟩
    rwa [(handle_inj hkeeps (hall devid' hsome)).mp heq]
  · exact fun hsome => ⟨devid, hsome, rfl⟩

/-- The loop of `detectDevices` adds devices of its list. -/
theorem mem_of_mem_addLoop {env : JniLookups} {dev : JavaUsbDevice} :
    ∀ {infos : List UsbdeviceInfo}, dev ∈ (addLoop jni env infos).2 → dev ∈ infos.map (announce jni)
  | [], h => by simp [addLoop] at h
  | usbdev :: infos, h => by
      rw [addLoop] at h
      rw [List.map_cons, List.mem_cons]
      split at h
      · exact (List.mem_cons.mp h).imp_right mem_of_mem_addLoop
      · simp at h

theorem ok_of_toOption {ε α : Type*} {e : Except ε α} {a : α} (h : e.toOption = some a) :
    e = .ok a := by
  cases e with
  | error e => simp [Except.toOption] at h
  | ok b => exact congrArg Except.ok (Option.some.inj h)

/-- **What `detectDevices` adds can be looked up** in the registry it leaves. -/
theorem canonical_mem_handles {m : DeviceManager} {scan : NativeScan} {call : DetectCall}
    (h : m.scanDevices jni scan = some call) {dev : JavaUsbDevice} (hdev : dev ∈ call.added) :
    dev.canonical ∈ (call.pasmgr.getD m).listDevices.handles jni := by
  have hcall := ok_of_toOption h
  cases hscan : m.refreshDevices scan.calls with
  | error fault => simp [DeviceManager.detectDevices, hscan] at hcall
  | ok x =>
    simp only [DeviceManager.detectDevices, hscan] at hcall
    split at hcall
    · simp [← Except.ok.inj hcall] at hdev
    split at hcall
    · simp [← Except.ok.inj hcall] at hdev
    split at hcall
    · simp [← Except.ok.inj hcall] at hdev
    rw [← Except.ok.inj hcall] at hdev ⊢
    have hmem := mem_of_mem_addLoop hdev
    rw [map_announce_localCopies, MtpRetag.detectDevices, List.mem_filterMap] at hmem
    obtain ⟨e, he, hannounce⟩ := hmem
    obtain ⟨usbdev, husbdev, rfl⟩ := Option.map_eq_some_iff.mp hannounce
    exact List.mem_filterMap.mpr ⟨e, he, by rw [husbdev]; rfl⟩

end Handles

/-! ## What a desktop agrees on -/

/-- A scan after which Java lists nothing but what the scan has added, under names that survive. -/
def NativeScan.Sound (jni : Jni) (m : DeviceManager) (scan : NativeScan) : Prop :=
  ∀ call, m.scanDevices jni scan = some call →
    (∀ usbDevice ∈ scan.listed, ∃ dev ∈ call.added, usbDevice = some dev.canonical) ∧
      ∀ devid, ((call.pasmgr.getD m).listDevices.device devid).isSome → jni.Keeps devid

/-- **Where every lookup succeeds, a scan is sound** if Java lists nothing but registered devices,
under names that survive. -/
theorem sound_of_servesAll {jni : Jni} {m m' : DeviceManager} {scan : NativeScan} {ret : Int32}
    (h : m.refreshDevices scan.calls = .ok (ret, m'))
    (hserves : scan.env.ServesAll (localCopies scan.memory m'.listDevices))
    (hlisted : ∀ usbDevice ∈ scan.listed,
      ∃ devid, (m'.listDevices.device devid).isSome ∧ usbDevice = some (jni.handle devid))
    (hkeeps : ∀ devid, (m'.listDevices.device devid).isSome → jni.Keeps devid) :
    scan.Sound jni m := by
  intro call hcall
  obtain ⟨call', hcall', hmgr, hadded⟩ := added_detectDevices jni scan.env scan.memory h hserves
  obtain rfl : call' = call := Except.ok.inj (hcall'.symm.trans (ok_of_toOption hcall))
  rw [hmgr, hadded, Option.getD_some]
  refine ⟨fun usbDevice hmem => ?_, hkeeps⟩
  obtain ⟨devid, hsome, rfl⟩ := hlisted usbDevice hmem
  obtain ⟨usbdev, husbdev⟩ := Option.isSome_iff_exists.mp hsome
  refine ⟨_, announceDevice_mem_detectDevices husbdev, ?_⟩
  have hname := m'.listDevices.canonical_of_lookup (Option.join_eq_some_iff.mp husbdev)
  rw [← hname]
  rfl

/-- The scan that a step makes. -/
def Desktop.scans (d : Desktop) : DesktopAct → Option NativeScan
  | .clickConnect scan => if d.window.connected then none else some scan
  | .answer ok scan => if ok then some scan else none
  | _ => none

/-- The window and the library know the same devices, and every name the window has in hand is what
Java calls a device. -/
structure Desktop.Coherent (jni : Jni) (d : Desktop) : Prop where
  same : ∀ devid, jni.Keeps devid →
    ((d.window.listDevices.lookup (jni.handle devid)).isSome ↔
      (d.library.listDevices.device devid).isSome)
  names : d.window.Names jni.IsHandle

section Coherent

variable {host : Host} {d d' : Desktop} {a : DesktopAct} {jdev : WStr}

/-- **A step of a desktop is a step of its window.** -/
theorem exists_step_window (h : d.step host a = some d') :
    ∃ call, d.call host a = some call ∧ d.window.step call.act = some d'.window ∧
      d'.library = call.library := by
  obtain ⟨call, hcall, hstep⟩ := Option.bind_eq_some_iff.mp h
  obtain ⟨window, hwindow, rfl⟩ := Option.map_eq_some_iff.mp hstep
  exact ⟨call, hcall, hwindow, rfl⟩

/-- A name of Java leads to the same answer on both sides. -/
theorem lookup_isSome_iff (hd : d.Coherent host.jni) (hjdev : host.jni.IsHandle jdev) :
    (d.window.listDevices.lookup jdev).isSome ↔
      (getInternaldevice host.jni d.library.listDevices jdev).isSome := by
  obtain ⟨devid, hkeeps, rfl⟩ := hjdev
  have hkeeps' : (host.jni.ca2w (host.jni.handle devid)).1 = devid := hkeeps
  rw [getInternaldevice_eq, hkeeps']
  exact hd.same devid hkeeps

theorem lookup_releaseDevice (d : DeviceState) (jdev k : WStr) :
    (d.releaseDevice jdev).listDevices.lookup k =
      if k = jdev then none else d.listDevices.lookup k := by
  rw [DeviceState.releaseDevice]
  by_cases hk : k = jdev
  · subst hk
    rw [if_pos rfl]
    split
    · assumption
    · exact AList.lookup_erase _ _
  · rw [if_neg hk]
    split
    · rfl
    · exact AList.lookup_erase_ne hk

/-- Both sides release the same device. -/
theorem same_releaseDevice (hd : d.Coherent host.jni) {devid : WStr}
    (hkeeps : host.jni.Keeps devid) :
    ((d.window.usbDevice.elim d.window.toDeviceState d.window.releaseDevice).listDevices.lookup
        (host.jni.handle devid)).isSome ↔
      ((d.library.releaseDevice host.jni d.window.usbDevice).listDevices.device devid).isSome := by
  cases hdev : d.window.usbDevice with
  | none => exact hd.same devid hkeeps
  | some jdev =>
    obtain ⟨devid', hkeeps', rfl⟩ := hd.names.usbDevice jdev hdev
    have hname : (host.jni.ca2w (host.jni.handle devid')).1 = devid' := hkeeps'
    rw [Option.elim_some, lookup_releaseDevice, DeviceManager.releaseDevice]
    dsimp only
    rw [device_releaseDevice, hname]
    by_cases heq : devid = devid'
    · simp [heq]
    · rw [if_neg heq, if_neg fun h => heq ((handle_inj hkeeps hkeeps').mp h)]
      exact hd.same devid hkeeps

/-- A scan leaves both sides with the devices it has found. -/
theorem same_scan {scan : NativeScan} {scanned : DeviceScan × DeviceManager}
    (hscan : d.scan host scan = some scanned) (hsound : scan.Sound host.jni d.library)
    {devid : WStr} (hkeeps : host.jni.Keeps devid) :
    ((scanned.1.refreshed.elim d.window.toDeviceState
        d.window.refreshDevices).listDevices.lookup (host.jni.handle devid)).isSome ↔
      (scanned.2.listDevices.device devid).isSome := by
  obtain ⟨call, hcall, rfl⟩ := Option.map_eq_some_iff.mp hscan
  dsimp only
  rw [Option.elim_some, lookup_refreshDevices_isSome,
    handle_mem_handles hkeeps (hsound call hcall).2]

/-- A call of `sendFile` is a call of the session. -/
theorem perform_of_sendFile {i : ℕ} {hr : Outcomes} {call : SendCall}
    (h : d.sendFile host i hr = some call) :
    ∃ jdev file, d.calling i = some (jdev, file) ∧
      d.library.listDevices.perform host
          ⟨.sendFile file.source file.destination (some file.fm), jdev, hr⟩ =
        .ok (call.listDevices.getD d.library.listDevices) := by
  obtain ⟨⟨jdev, file⟩, hcalling, hsend⟩ := Option.bind_eq_some_iff.mp h
  refine ⟨jdev, file, hcalling, ?_⟩
  simp [Registry.perform, ok_of_toOption hsend, Except.map]

theorem device_isSome_of_perform {r r' : Registry} {c : DeviceCall} (h : r.perform host c = .ok r')
    (devid : WStr) : (r'.device devid).isSome ↔ (r.device devid).isSome := by
  rcases leaves_of_perform h with ⟨-, heq⟩ | ⟨usbdev, t, hdev, -, heq⟩
  · rw [heq]
  · rw [heq, Function.update_apply]
    split
    next hid => simp [hid, hdev]
    next => rfl

/-- A step of the window that is no scan and no disconnect, with a library that knows the same. -/
theorem same_of_quiet (hd : d.Coherent host.jni) {b : Act}
    (hwindow : d.window.step b = some d'.window) (hscan : d.window.scan b = none)
    (hdisconnects : d.window.disconnects b = false)
    (hlibrary : ∀ devid, (d'.library.listDevices.device devid).isSome ↔
      (d.library.listDevices.device devid).isSome) {devid : WStr} (hkeeps : host.jni.Keeps devid) :
    (d'.window.listDevices.lookup (host.jni.handle devid)).isSome ↔
      (d'.library.listDevices.device devid).isSome := by
  rw [listDevices_of_quiet hwindow hscan hdisconnects, hlibrary]
  exact hd.same devid hkeeps

/-- **Both sides go on knowing the same devices.** -/
theorem same_step (hd : d.Coherent host.jni)
    (hsound : ∀ scan ∈ d.scans a, scan.Sound host.jni d.library) (h : d.step host a = some d')
    {devid : WStr} (hkeeps : host.jni.Keeps devid) :
    (d'.window.listDevices.lookup (host.jni.handle devid)).isSome ↔
      (d'.library.listDevices.device devid).isSome := by
  obtain ⟨call, hcall, hwindow, hlibrary⟩ := exists_step_window h
  cases a with
  | clickConnect scan =>
    by_cases hconnected : d.window.connected = true
    · rw [Desktop.call, if_pos hconnected] at hcall
      obtain rfl := Option.some.inj hcall
      rw [device_of_disconnects hwindow hconnected, hlibrary]
      exact same_releaseDevice hd hkeeps
    · rw [Desktop.call, if_neg hconnected] at hcall
      obtain ⟨scanned, hscan, rfl⟩ := Option.map_eq_some_iff.mp hcall
      have hdevice := device_of_scan hwindow (if_neg hconnected)
      rw [hdevice, hlibrary]
      exact same_scan hscan (hsound scan (if_neg hconnected)) hkeeps
  | answer ok scan =>
    cases ok with
    | true =>
      obtain ⟨scanned, hscan, rfl⟩ := Option.map_eq_some_iff.mp hcall
      have hdevice := device_of_scan hwindow rfl
      rw [hdevice, hlibrary]
      exact same_scan hscan (hsound scan rfl) hkeeps
    | false =>
      obtain rfl := Option.some.inj hcall
      exact same_of_quiet hd hwindow rfl rfl (fun _ => by rw [hlibrary]) hkeeps
  | close =>
    obtain rfl := Option.some.inj hcall
    by_cases hconnected : d.window.connected = true
    · rw [device_of_disconnects hwindow hconnected, hlibrary, if_pos hconnected]
      exact same_releaseDevice hd hkeeps
    · refine same_of_quiet hd hwindow rfl (Bool.eq_false_iff.mpr hconnected) (fun _ => ?_) hkeeps
      rw [hlibrary, if_neg hconnected]
  | lookup i =>
    rw [Desktop.call] at hcall
    split at hcall
    · obtain rfl := Option.some.inj hcall
      refine same_of_quiet hd hwindow rfl rfl (fun _ => ?_) hkeeps
      rw [hlibrary]
      dsimp only
      rw [device_getDevicebyid]
    · simp at hcall
  | sendFile i hr =>
    obtain ⟨send, hsend, rfl⟩ := Option.map_eq_some_iff.mp hcall
    obtain ⟨jdev, file, -, hperform⟩ := perform_of_sendFile hsend
    refine same_of_quiet hd hwindow rfl rfl (fun devid => ?_) hkeeps
    rw [hlibrary]
    exact device_isSome_of_perform hperform devid
  | other b =>
    rw [Desktop.call, Option.ite_none_left_eq_some] at hcall
    obtain rfl := Option.some.inj hcall.2
    refine same_of_quiet hd hwindow ?_ ?_ (fun _ => by rw [hlibrary]) hkeeps
    · cases b with
      | clickConnect | answer => simp [Desktop.callsLibrary] at hcall
      | _ => rfl
    · cases b with
      | clickConnect | close => simp [Desktop.callsLibrary] at hcall
      | _ => rfl

/-- The scan of a window's step comes from one of the library. -/
theorem scan_of_call {call : LibraryCall} (hcall : d.call host a = some call) {seen : DeviceScan}
    (hseen : d.window.scan call.act = some seen) :
    ∃ scan m, d.scans a = some scan ∧ d.scan host scan = some (seen, m) := by
  cases a with
  | clickConnect scan =>
    by_cases hconnected : d.window.connected = true
    · rw [Desktop.call, if_pos hconnected] at hcall
      rw [← Option.some.inj hcall, State.scan, if_pos hconnected] at hseen
      simp at hseen
    · rw [Desktop.call, if_neg hconnected] at hcall
      obtain ⟨scanned, hscan, rfl⟩ := Option.map_eq_some_iff.mp hcall
      rw [State.scan, if_neg hconnected] at hseen
      obtain rfl := Option.some.inj hseen
      exact ⟨scan, scanned.2, if_neg hconnected, hscan⟩
  | answer ok scan =>
    cases ok with
    | true =>
      obtain ⟨scanned, hscan, rfl⟩ := Option.map_eq_some_iff.mp hcall
      obtain rfl := Option.some.inj hseen
      exact ⟨scan, scanned.2, rfl, hscan⟩
    | false =>
      obtain rfl := Option.some.inj hcall
      simp [State.scan] at hseen
  | close =>
    obtain rfl := Option.some.inj hcall
    simp [State.scan] at hseen
  | lookup i =>
    rw [Desktop.call] at hcall
    split at hcall
    · obtain rfl := Option.some.inj hcall
      simp [State.scan] at hseen
    · simp at hcall
  | sendFile i hr =>
    obtain ⟨send, -, rfl⟩ := Option.map_eq_some_iff.mp hcall
    simp [State.scan] at hseen
  | other b =>
    rw [Desktop.call, Option.ite_none_left_eq_some] at hcall
    obtain rfl := Option.some.inj hcall.2
    cases b with
    | clickConnect | answer => simp [Desktop.callsLibrary] at hcall
    | _ => simp [State.scan] at hseen

/-- A sound scan is one for the window, and lists names that survive. -/
theorem sound_of_scan {scan : NativeScan} {scanned : DeviceScan × DeviceManager}
    (hscan : d.scan host scan = some scanned) (hsound : scan.Sound host.jni d.library) :
    scanned.1.Sound ∧ ∀ jdev, some jdev ∈ scanned.1.listed → host.jni.IsHandle jdev := by
  obtain ⟨call, hcall, rfl⟩ := Option.map_eq_some_iff.mp hscan
  obtain ⟨hlisted, hkeeps⟩ := hsound call hcall
  refine ⟨fun usbDevice hmem => ?_, fun jdev hmem => ?_⟩
  · obtain ⟨dev, hdev, rfl⟩ := hlisted usbDevice hmem
    exact ⟨dev.canonical, canonical_mem_handles hcall hdev, rfl⟩
  · obtain ⟨dev, hdev, heq⟩ := hlisted _ hmem
    obtain ⟨devid, hsome, hhandle⟩ := mem_handles.mp (canonical_mem_handles hcall hdev)
    exact ⟨devid, hkeeps devid hsome, (Option.some.inj heq).trans hhandle⟩

/-- **A step keeps the two sides in agreement**, and the window connected to what both know. -/
theorem coherent_step (hd : d.Coherent host.jni ∧ d.window.Connection)
    (hsound : ∀ scan ∈ d.scans a, scan.Sound host.jni d.library) (h : d.step host a = some d') :
    d'.Coherent host.jni ∧ d'.window.Connection := by
  obtain ⟨call, hcall, hwindow, -⟩ := exists_step_window h
  have hseen : ∀ seen, d.window.scan call.act = some seen →
      seen.Sound ∧ ∀ jdev, some jdev ∈ seen.listed → host.jni.IsHandle jdev := fun seen hseen => by
    obtain ⟨scan, m, hscans, hscan⟩ := scan_of_call hcall hseen
    exact sound_of_scan hscan (hsound scan hscans)
  exact ⟨⟨fun devid => same_step hd.1 hsound h,
      names_step hd.1.names (fun seen hs => (hseen seen hs).2) hwindow⟩,
    connection_step hd.2 (fun seen hs => (hseen seen hs).1) hwindow⟩

theorem coherent_init {m : DeviceManager} (hm : m.listDevices = .empty) :
    Desktop.Coherent host.jni ⟨.init, m⟩ ∧ State.init.Connection := by
  refine ⟨⟨fun devid _ => ?_, ?_, ?_, ?_⟩, connection_init⟩
  · rw [hm, device_empty]
    simp [State.init]
  · simp [State.init]
  · simp [State.init]
  · simp [State.init]

/-- A connected window holds a device of the library, under the name Java has for it. -/
theorem exists_internaldevice (hd : d.Coherent host.jni) (hholds : d.window.HoldsDevice) :
    ∃ jdev usbdev, d.window.usbDevice = some jdev ∧
      getInternaldevice host.jni d.library.listDevices jdev = some usbdev ∧
      jdev = host.jni.handle usbdev.canonical := by
  obtain ⟨jdev, hjdev, hsome⟩ := hholds
  have hhandle := hd.names.usbDevice jdev hjdev
  obtain ⟨usbdev, husbdev⟩ :=
    Option.isSome_iff_exists.mp ((lookup_isSome_iff hd hhandle).mp hsome)
  obtain ⟨devid, hkeeps, rfl⟩ := hhandle
  have hname : (host.jni.ca2w (host.jni.handle devid)).1 = devid := hkeeps
  refine ⟨_, usbdev, hjdev, husbdev, ?_⟩
  rw [getInternaldevice_eq, hname] at husbdev
  rw [d.library.listDevices.canonical_of_lookup (Option.join_eq_some_iff.mp husbdev)]

end Coherent

/-- **Window and library stay in agreement.**  A run of a desktop is a run of its window.  When
every scan in it is sound, then after each step both know the same devices; a connected window holds
one of the library's, outside the handlers that connect and disconnect; and a worker that is about
to look its device up is told what the window takes for the answer. -/
theorem desktop_coherent (host : Host) (m : DeviceManager) (hm : m.listDevices = .empty)
    (as : List DesktopAct) :
    (∃ acts, (Transition.fired State.step .init acts).map Transition.Fired.post =
      (Transition.fired (Desktop.step host) ⟨.init, m⟩ as).map
        (Desktop.window ∘ Transition.Fired.post)) ∧
    ((∀ e ∈ Transition.fired (Desktop.step host) ⟨.init, m⟩ as,
        ∀ scan ∈ e.pre.scans e.label, scan.Sound host.jni e.pre.library) →
      ∀ e ∈ Transition.fired (Desktop.step host) ⟨.init, m⟩ as,
        (∀ devid, host.jni.Keeps devid →
          ((e.post.window.listDevices.lookup (host.jni.handle devid)).isSome ↔
            (e.post.library.listDevices.device devid).isSome)) ∧
        (e.post.window.connected = true → e.post.window.gui.connecting = false →
          ∃ jdev usbdev, e.post.window.usbDevice = some jdev ∧
            getInternaldevice host.jni e.post.library.listDevices jdev = some usbdev ∧
            jdev = host.jni.handle usbdev.canonical) ∧
        ∀ w ∈ e.post.window.workers, ∀ jdev, w.pc.asked = some jdev →
          ((e.post.window.listDevices.lookup jdev).isSome ↔
            (getInternaldevice host.jni e.post.library.listDevices jdev).isSome)) := by
  refine ⟨Transition.exists_run_of_simulates Desktop.window (fun d a d' h => ?_) as ⟨.init, m⟩,
    fun hsound e he => ?_⟩
  · obtain ⟨call, -, hwindow, -⟩ := exists_step_window h
    exact ⟨call.act, hwindow⟩
  · obtain ⟨hd, hconnection⟩ := (Transition.forall_fired_inv
      (fun d : Desktop => d.Coherent host.jni ∧ d.window.Connection)
      (fun d a => ∀ scan ∈ d.scans a, scan.Sound host.jni d.library) (fun _ => True)
      (fun _ _ _ _ hd hok h => coherent_step hd hok h) as (fun _ _ => trivial)
      (coherent_init hm) hsound e he).2
    exact ⟨hd.same,
      fun hconnected hgui => exists_internaldevice hd (hconnection.connected hconnected hgui),
      fun w hw jdev hjdev => lookup_isSome_iff hd (hd.names.asked w hw jdev hjdev)⟩

/-- A scan that finds one volume, and connecting by it. -/
def NativeScan.sample : NativeScan where
  calls := ⟨⟨true, sOk, sOk, []⟩, [], some [.sample]⟩
  env := ⟨true, fun _ => true, fun _ => true⟩
  memory _ := (⟨0, 0, 0, 0, 0, .undef⟩, ⟨0, 0, 0, 0, 0, .undef⟩)
  listed := [some (wide "removablemedia")]

def connectVolume : List DesktopAct := [.clickConnect .sample, .other .gui, .other .gui]

/-- The only device of a registry. -/
theorem eq_of_device_store_empty {usbdev : UsbDevice} {devid : WStr}
    (h : ((Registry.empty.store usbdev).device devid).isSome) : devid = usbdev.canonical := by
  rw [Registry.device_store] at h
  split at h
  next hid => exact hid
  next => simp at h

theorem sound_sample : NativeScan.sample.Sound .identity (.new .sample) := by
  have hserves : ∀ infos, NativeScan.sample.env.ServesAll infos := fun _ =>
    ⟨rfl, rfl, fun _ => rfl, fun _ _ => by simp [NativeScan.sample, JniLookups.serves]⟩
  refine sound_of_servesAll rfl (hserves _) ?_ fun devid hsome => ?_
  · exact List.forall_mem_singleton.mpr ⟨wide "removablemedia", by decide, by decide⟩
  · obtain rfl : devid = wide "removablemedia" := eq_of_device_store_empty hsome
    decide

theorem desktop_coherent_connectVolume :
    (∃ e ∈ Transition.fired (Desktop.step .sample) ⟨.init, .new .sample⟩ connectVolume,
      e.post.window.connected = true ∧ e.post.window.gui.connecting = false) ∧
    ∀ e ∈ Transition.fired (Desktop.step .sample) ⟨.init, .new .sample⟩ connectVolume,
      e.post.window.connected = true → e.post.window.gui.connecting = false →
        ∃ jdev usbdev, e.post.window.usbDevice = some jdev ∧
          getInternaldevice .identity e.post.library.listDevices jdev = some usbdev ∧
          jdev = Jni.identity.handle usbdev.canonical := by
  have hsound : ∀ e ∈ Transition.fired (Desktop.step .sample) ⟨.init, .new .sample⟩ connectVolume,
      ∀ scan ∈ e.pre.scans e.label, scan.Sound .identity e.pre.library := by
    intro e he scan hscan
    rw [connectVolume, Transition.fired] at he
    split at he
    · simp at he
    rcases List.mem_cons.mp he with rfl | hrest
    · obtain rfl := Option.some.inj hscan
      exact sound_sample
    · rcases List.mem_pair.mp (Transition.label_mem_of_mem_fired hrest) with hlabel | hlabel <;>
        simp [hlabel, Desktop.scans] at hscan
  refine ⟨by decide, fun e he => ?_⟩
  exact ((desktop_coherent .sample (.new .sample) rfl connectVolume).2 hsound e he).2.1

end MtpRetag
