import MtpRetag.Native.Registry
import MtpRetag.Native.SplitString
import Mathlib.Algebra.Ring.Nat

/-!
# Native/Refresh — MTP detection, and the layers of a scan

A scan goes through four layers: `setup_mtp` in the constructor, the two detections,
`refresh_devices`, and `detectDevices`.  Each keeps its status in one variable, which a later step
overwrites; the status of the set-up is kept in a member that nothing reads.

`refreshDevices_cases` and `detectDevices_cases` say what the two outer layers return.
-/

namespace MtpRetag

/-! ## `init_mtp` -/

def eAbort : HRESULT := -2147467260

/-- A call that hands out an object: its status, and whether it did. -/
structure Handout where
  hr : HRESULT
  object : Bool

/-- The two tests after such a call. -/
def Handout.check (h : Handout) : Except HRESULT Unit :=
  if ¬ Succeeded h.hr then .error h.hr else if ¬ h.object then .error eFail else .ok ()

/-- What a device answers to `init_mtp`; `none` where the call fails.  `protocolMtp` is the outcome
of asking for `g_wszWMDMDeviceProtocol`. -/
structure WmdmDevice where
  mtpDevice : ℕ
  enumStorage : Handout
  nextStorage : Handout
  getStorageGlobals : Handout
  enumSubStorage : Handout
  getName : Option WStr
  getCanonicalName : Option WStr
  getManufacturer : Option WStr
  protocolMtp : Bool
  getTotalSize : Option UInt64
  getTotalFree : Option UInt64
  rootStorage : Storage

/-- The root storage, its globals and its enumerator. -/
def WmdmDevice.openRoot (dev : WmdmDevice) : Except HRESULT Unit := do
  dev.enumStorage.check
  dev.nextStorage.check
  dev.getStorageGlobals.check
  dev.enumSubStorage.check

/-- `(DWORD)(nSize >> 10)`. -/
def kilobytes (nSize : UInt64) : UInt64 := (nSize >>> 10).toUInt32.toUInt64

/-- `usbdevice::init_mtp`. -/
def initMtp (pDevice : Option WmdmDevice) (usbdev : UsbDevice) : HRESULT × UsbDevice :=
  match pDevice with
  | none => (eAbort, usbdev)
  | some dev =>
    match dev.openRoot with
    | .error hrex => (hrex, usbdev)
    | .ok () =>
      (sOk, { usbdev with
              name := dev.getName.getD []
              canonical := dev.getCanonicalName.getD []
              mtpDevice := some dev.mtpDevice
              manufacturer := dev.getManufacturer.getD []
              mode := if dev.protocolMtp then .mtp else usbdev.mode
              totalsize := dev.getTotalSize.elim 0 kilobytes
              freesize := dev.getTotalFree.elim 0 kilobytes
              rootStorage := dev.rootStorage })

/-! ## `detect_devices_mtp` -/

/-- `devicemanager::GetMtpDeviceCanonical`. -/
def getMtpDeviceCanonical (pdevice : Option WmdmDevice) : WStr :=
  pdevice.elim [] fun dev => dev.getCanonicalName.getD []

/-- The device id in a canonical name: from `usb` up to the last `#`, with backslashes. -/
def deviceIdFromCanonical (canonical : WStr) : WStr :=
  let sharp : WChar := 35
  let id := if sharp ∈ canonical then (canonical.rdropWhile (· ≠ sharp)).dropLast else canonical
  let id := (find (wide "usb") id).elim id id.drop
  id.map fun c => if c = sharp then backslash else c

/-- `_wtoi`. -/
def wtoi (s : WStr) : Int32 :=
  let s := s.dropWhile fun c => c = 32 ∨ (9 ≤ c ∧ c ≤ 13)
  let digits := if s.head? = some 45 ∨ s.head? = some 43 then s.tail else s
  let n := (digits.takeWhile fun c => 48 ≤ c ∧ c ≤ 57).foldl (fun n c => 10 * n + (c.toNat - 48)) 0
  if s.head? = some 45 then Int32.ofInt (-(min n (2 ^ 31) : ℕ))
  else Int32.ofNat (min n (2 ^ 31 - 1))

/-- The device index in a canonical name: the number behind the last `$`. -/
def deviceIndex (canonical : WStr) : Int32 :=
  let dollar : WChar := 36
  if dollar ∈ canonical then wtoi (canonical.rtakeWhile (· ≠ dollar)) else 0

/-- A USB device that the system enumerates: its instance id, if it has one, and what opening the
hub above it gives. -/
structure EnumeratedUsb where
  instanceId : Option WStr
  hub : HubProbe

/-- One round of `detect_devices_mtp`: the status of `Next` and its `pIdv`, the USB devices that are
enumerated, if they can be, and the memory the new device gets. -/
structure MtpEntry where
  next : HRESULT
  pIdv : Option WmdmDevice
  devInfo : Option (List EnumeratedUsb)
  heap : Raw

/-- What the device manager of WMDM answers: whether it is an `IWMDeviceManager2`, then the statuses
of the calls on it, and one entry for each of the `dwDevices`. -/
structure WmdmAnswers where
  deviceManager2 : Bool
  getDeviceCount : HRESULT
  enumDevices2 : HRESULT
  entries : List MtpEntry

/-- The enumerated USB device that belongs to a canonical name. -/
def findUsb (canonical : WStr) (infos : List EnumeratedUsb) : Option EnumeratedUsb :=
  infos.find? fun info =>
    info.instanceId.map (List.map towlower) = some (deviceIdFromCanonical canonical)

/-- The lower-case canonical name of the device of a round. -/
def MtpEntry.canonical (e : MtpEntry) : WStr := makeLower (getMtpDeviceCanonical e.pIdv)

/-- `new usbdevice()` and `set_idx`. -/
def MtpEntry.newDevice (e : MtpEntry) : UsbDevice :=
  { UsbDevice.init e.heap with idx := deviceIndex e.canonical }

/-- What the canonical name of a USB device starts with. -/
def usbPrefix : WStr := wide "\\\\?\\usb"

/-- A round of `detect_devices_mtp` behind `Next`: the code of an early `return`, a skipped device,
or one to be put in the list.  What `get_descriptor_props` returns is not looked at. -/
def probeMtp (e : MtpEntry) : Except Int32 (Option UsbDevice) :=
  if e.canonical.take 7 ≠ usbPrefix then .ok none
  else
    match e.devInfo with
    | none => .error 1
    | some infos =>
      match findUsb e.canonical infos with
      | none => .ok none
      | some info =>
        let (hr, usbdev) := initMtp e.pIdv e.newDevice
        if hr ≠ sOk ∨ usbdev.mode ≠ .mtp then .ok none
        else .ok (some (getDescriptorProps info.hub (deviceIdFromCanonical e.canonical) usbdev).2)

/-- The loop of `detect_devices_mtp`. -/
def mtpLoop : List MtpEntry → Registry → Int32 × Registry
  | [], r => (0, r)
  | e :: entries, r =>
    if ¬ Succeeded e.next then (1, r)
    else
      match probeMtp e with
      | .error nret => (nret, r)
      | .ok none => mtpLoop entries r
      | .ok (some usbdev) => mtpLoop entries (r.store usbdev)

/-- A call through a NULL pointer. -/
inductive NullCall
  | pWMDevMgr
  deriving DecidableEq, Repr

/-- `devicemanager::detect_devices_mtp`; `pWMDevMgr` says whether the pointer is set. -/
def detectDevicesMtp (pWMDevMgr : Bool) (wmdm : WmdmAnswers) (r : Registry) :
    Except NullCall (Int32 × Registry) :=
  if ¬ pWMDevMgr then .error .pWMDevMgr
  else if ¬ wmdm.deviceManager2 then .ok (0, r)
  else if ¬ Succeeded wmdm.getDeviceCount then .ok (1, r)
  else if wmdm.entries ≠ [] ∧ ¬ Succeeded wmdm.enumDevices2 then .ok (1, r)
  else .ok (mtpLoop wmdm.entries r)

/-! ## The device manager -/

/-- A `devicemanager`. -/
structure DeviceManager where
  hrInit : HRESULT
  pWMDevMgr : Bool
  listDevices : Registry

/-- The statuses of the calls of `setup_mtp`. -/
structure SetupCalls where
  coCreateInstance : HRESULT
  setCertificate : HRESULT
  authenticate : HRESULT
  queryInterface : HRESULT

/-- `devicemanager::setup_mtp`: `m_hrInit`, and whether `m_pWMDevMgr` is set. -/
def setupMtp (c : SetupCalls) : HRESULT × Bool :=
  if ¬ Succeeded c.coCreateInstance then (c.coCreateInstance, false)
  else if ¬ Succeeded c.setCertificate then (c.setCertificate, false)
  else if ¬ Succeeded c.authenticate then (c.authenticate, false)
  else if ¬ Succeeded c.queryInterface then (c.queryInterface, false)
  else (sOk, true)

/-- `devicemanager()`. -/
def DeviceManager.new (c : SetupCalls) : DeviceManager := ⟨(setupMtp c).1, (setupMtp c).2, .empty⟩

/-- What the two detections of a scan meet. -/
structure ScanCalls where
  wmdm : WmdmAnswers
  drives : List (Option Int32)
  devInfo : Option (List VolumeProbe)

/-- `devicemanager::refresh_devices`. -/
def DeviceManager.refreshDevices (m : DeviceManager) (scan : ScanCalls) :
    Except NullCall (Int32 × DeviceManager) :=
  let (ret, r) := m.listDevices.clearDevices
  if ret ≠ 0 then .ok (ret, { m with listDevices := r })
  else
    match detectDevicesMtp m.pWMDevMgr scan.wmdm r with
    | .error e => .error e
    | .ok (_, r) =>
      let (ret, r) := detectDevicesMsc scan.drives scan.devInfo r
      .ok (ret, { m with listDevices := r })

/-! ## `detectDevices` -/

/-- The JNI lookups of `detectDevices`, and whether a Java object can be made for a device. -/
structure JniLookups where
  findClass : Bool
  getMethodID : String → Bool
  newObject : WStr → Bool

/-- The setters of a `UsbDevice`, in the order in which they are looked up. -/
def usbDeviceSetters : List String :=
  ["setCanonical", "setSerial", "setName", "setManufacturer", "setVideoFolder", "setAudioFolder",
    "setPictureFolder", "setVid", "setVendorid", "setPid", "setProductid", "setMountPoint",
    "setUsbIndex", "setTotalSize", "setFreeSize"]

/-- …and the one for its mode. -/
def modeSetter : DeviceMode → List String
  | .msc => ["setMscMode"]
  | .mtp => ["setMtpMode"]
  | _ => []

/-- Every lookup of one round succeeds. -/
def JniLookups.serves (env : JniLookups) (usbdev : UsbdeviceInfo) : Bool :=
  env.newObject usbdev.canonical ∧
    ∀ setter ∈ usbDeviceSetters ++ modeSetter usbdev.mode, env.getMethodID setter

/-- The loop of `detectDevices`: its code, and the devices added before a lookup failed. -/
def addLoop (jni : Jni) (env : JniLookups) : List UsbdeviceInfo → Int32 × List JavaUsbDevice
  | [] => (0, [])
  | usbdev :: infos =>
    if env.serves usbdev then
      let (ret, added) := addLoop jni env infos
      (ret, announce jni usbdev :: added)
    else (1, [])

/-- The local copies of the loop.  `memory` is what the two records made for a name find. -/
def localCopies (memory : WStr → Raw × Raw) (r : Registry) : List UsbdeviceInfo :=
  r.map.entries.filterMap fun e =>
    e.2.map fun usbdev => UsbdeviceInfo.copyRef (memory e.1).2 (fillInfo (memory e.1).1 usbdev)

/-- What `detectDevices` returns, the devices it adds, and the manager it leaves. -/
structure DetectCall where
  ret : Int64
  added : List JavaUsbDevice
  pasmgr : Option DeviceManager

/-- `Java_jpmp_manager_DeviceManager_detectDevices`. -/
def DeviceManager.detectDevices (jni : Jni) (env : JniLookups) (memory : WStr → Raw × Raw)
    (pasmgr : Option DeviceManager) (scan : ScanCalls) : Except NullCall DetectCall :=
  match pasmgr with
  | none => .ok ⟨1, [], none⟩
  | some m =>
    match m.refreshDevices scan with
    | .error e => .error e
    | .ok (_, m) =>
      if ¬ env.findClass then .ok ⟨1, [], some m⟩
      else if ¬ env.getMethodID "<init>" then .ok ⟨1, [], some m⟩
      else
        let infos := localCopies memory m.listDevices
        if infos ≠ [] ∧ ¬ env.getMethodID "addDevice" then .ok ⟨1, [], some m⟩
        else
          let (ret, added) := addLoop jni env infos
          .ok ⟨ret.toInt64, added, some m⟩

/-! ## When a layer succeeds -/

/-- The set-up of MTP succeeds. -/
def SetupCalls.Succeeds (c : SetupCalls) : Prop :=
  Succeeded c.coCreateInstance ∧ Succeeded c.setCertificate ∧ Succeeded c.authenticate ∧
    Succeeded c.queryInterface

/-- A round of MTP detection can be carried out: `Next` succeeds, and where the device is a USB one,
the USB devices can be enumerated. -/
def MtpEntry.Succeeds (e : MtpEntry) : Prop :=
  Succeeded e.next ∧
    (e.canonical.take 7 = usbPrefix → e.devInfo ≠ none)

/-- MTP detection succeeds: the devices can be counted and enumerated. -/
def WmdmAnswers.Succeeds (wmdm : WmdmAnswers) : Prop :=
  wmdm.deviceManager2 = true ∧ Succeeded wmdm.getDeviceCount ∧
    (wmdm.entries ≠ [] → Succeeded wmdm.enumDevices2) ∧ ∀ e ∈ wmdm.entries, e.Succeeds

/-- MSC detection succeeds: the volumes can be enumerated, each with its device path. -/
def MscSucceeds (devInfo : Option (List VolumeProbe)) : Prop :=
  ∃ volumes, devInfo = some volumes ∧ ∀ v ∈ volumes, v.instanceId = true → v.devicePath ≠ none

/-- Every lookup that `detectDevices` makes for these records succeeds. -/
def JniLookups.ServesAll (env : JniLookups) (infos : List UsbdeviceInfo) : Prop :=
  env.findClass = true ∧ env.getMethodID "<init>" = true ∧
    (infos ≠ [] → env.getMethodID "addDevice" = true) ∧ ∀ usbdev ∈ infos, env.serves usbdev = true

section Reports

variable {drives : List (Option Int32)} {scan : ScanCalls} {m : DeviceManager}

theorem setupMtp_iff (c : SetupCalls) : (setupMtp c).2 = true ↔ c.Succeeds := by
  rw [setupMtp, SetupCalls.Succeeds]
  by_cases h1 : Succeeded c.coCreateInstance
  · by_cases h2 : Succeeded c.setCertificate
    · by_cases h3 : Succeeded c.authenticate
      · by_cases h4 : Succeeded c.queryInterface <;> simp [h1, h2, h3, h4]
      · simp [h1, h2, h3]
    · simp [h1, h2]
  · simp [h1]

/-- A volume without a device path ends the loop. -/
theorem probeVolume_error {v : VolumeProbe} {hrex : HRESULT}
    (h : probeVolume drives v = .error hrex) :
    v.instanceId = true ∧ v.devicePath = none ∧ hrex = eFail := by
  revert h
  fun_cases probeVolume drives v
  all_goals rintro ⟨⟩
  simp_all

theorem probeVolume_of_no_path {v : VolumeProbe} (hid : v.instanceId = true)
    (hpath : v.devicePath = none) : probeVolume drives v = .error eFail := by
  rw [probeVolume, if_neg (by simp [hid]), hpath]

theorem ret_mscLoop_iff :
    ∀ (volumes : List VolumeProbe) (r : Registry),
      (mscLoop drives volumes r).1 = 0 ↔
        ∀ v ∈ volumes, v.instanceId = true → v.devicePath ≠ none
  | [], r => by simp [mscLoop]
  | v :: volumes, r => by
      rw [List.forall_mem_cons, mscLoop]
      cases hv : probeVolume drives v with
      | error hrex =>
        obtain ⟨hid, hpath, rfl⟩ := probeVolume_error hv
        have hfail : ¬ Succeeded eFail := by decide
        simp [hid, hpath, hfail]
      | ok usbdev =>
        have hpath : v.instanceId = true → v.devicePath ≠ none := fun hid hpath => by
          simp [probeVolume_of_no_path hid hpath] at hv
        cases usbdev with
        | none => exact (ret_mscLoop_iff volumes r).trans (and_iff_right hpath).symm
        | some usbdev => exact (ret_mscLoop_iff volumes _).trans (and_iff_right hpath).symm

/-- MSC detection returns zero exactly for a success. -/
theorem ret_detectDevicesMsc_iff (devInfo : Option (List VolumeProbe)) (r : Registry) :
    (detectDevicesMsc drives devInfo r).1 = 0 ↔ MscSucceeds devInfo := by
  cases devInfo with
  | none => simp [detectDevicesMsc, MscSucceeds]
  | some volumes => simp [detectDevicesMsc, MscSucceeds, ret_mscLoop_iff]

/-- MTP detection ends normally through a pointer that is set… -/
theorem exists_detectDevicesMtp (wmdm : WmdmAnswers) (r : Registry) :
    ∃ x, detectDevicesMtp true wmdm r = .ok x := by
  rw [detectDevicesMtp, if_neg (by simp)]
  split
  · exact ⟨_, rfl⟩
  · split
    · exact ⟨_, rfl⟩
    · split
      · exact ⟨_, rfl⟩
      · exact ⟨_, rfl⟩

/-- …and the scan goes on with MSC detection, whatever its code. -/
theorem refreshDevices_of_pWMDevMgr {x : Int32 × Registry} (h : m.pWMDevMgr = true)
    (hx : detectDevicesMtp true scan.wmdm .empty = .ok x) :
    m.refreshDevices scan =
      .ok ((detectDevicesMsc scan.drives scan.devInfo x.2).1,
        { m with listDevices := (detectDevicesMsc scan.drives scan.devInfo x.2).2 }) := by
  rw [DeviceManager.refreshDevices, h]
  simp [Registry.clearDevices, hx]

/-- **What `refresh_devices` does**: it calls through NULL, or ends with the code of MSC
detection. -/
theorem refreshDevices_cases (m : DeviceManager) (scan : ScanCalls) :
    (m.pWMDevMgr = false ∧ m.refreshDevices scan = .error .pWMDevMgr) ∨
    (m.pWMDevMgr = true ∧ ∃ ret m', m.refreshDevices scan = .ok (ret, m') ∧
      (ret = 0 ↔ MscSucceeds scan.devInfo)) := by
  cases hmgr : m.pWMDevMgr with
  | false =>
    refine .inl ⟨rfl, ?_⟩
    rw [DeviceManager.refreshDevices, hmgr]
    rfl
  | true =>
    obtain ⟨x, hx⟩ := exists_detectDevicesMtp scan.wmdm .empty
    exact .inr ⟨rfl, _, _, refreshDevices_of_pWMDevMgr hmgr hx, ret_detectDevicesMsc_iff _ _⟩

/-- The announcing loop returns zero exactly when every lookup succeeds. -/
theorem ret_addLoop_iff (jni : Jni) (env : JniLookups) :
    ∀ infos : List UsbdeviceInfo,
      (addLoop jni env infos).1 = 0 ↔ ∀ usbdev ∈ infos, env.serves usbdev = true
  | [] => by simp [addLoop]
  | usbdev :: infos => by
      rw [addLoop, List.forall_mem_cons]
      split
      case isTrue h => exact (ret_addLoop_iff jni env infos).trans (and_iff_right h).symm
      case isFalse h => simp [h]

/-- **What `detectDevices` does** behind the scan: its code is that of its lookups. -/
theorem detectDevices_cases (jni : Jni) (env : JniLookups) (memory : WStr → Raw × Raw)
    {ret : Int32} {m' : DeviceManager} (h : m.refreshDevices scan = .ok (ret, m')) :
    ∃ call, DeviceManager.detectDevices jni env memory (some m) scan = .ok call ∧
      (call.ret = 0 ↔ env.ServesAll (localCopies memory m'.listDevices)) := by
  rw [DeviceManager.detectDevices, h, JniLookups.ServesAll]
  dsimp only
  by_cases hclass : env.findClass = true
  case neg => exact ⟨_, by rw [if_pos hclass], by simp [hclass]⟩
  by_cases hinit : env.getMethodID "<init>" = true
  case neg => exact ⟨_, by rw [if_neg (not_not.mpr hclass), if_pos hinit], by simp [hinit]⟩
  rw [if_neg (not_not.mpr hclass), if_neg (not_not.mpr hinit)]
  by_cases hadd : localCopies memory m'.listDevices ≠ [] ∧ ¬ env.getMethodID "addDevice" = true
  · exact ⟨_, by rw [if_pos hadd], by simp [hadd.1, hadd.2]⟩
  · refine ⟨_, by rw [if_neg hadd], ?_⟩
    rw [toInt64_eq_zero, ret_addLoop_iff]
    have hadd' : localCopies memory m'.listDevices ≠ [] → env.getMethodID "addDevice" = true :=
      fun hne => not_not.mp fun hno => hadd ⟨hne, hno⟩
    exact ⟨fun h => ⟨hclass, hinit, hadd', h⟩, fun h => h.2.2.2⟩

/-- When every lookup succeeds, all registered devices are added. -/
theorem added_addLoop {env : JniLookups} (jni : Jni) :
    ∀ {infos : List UsbdeviceInfo}, (∀ usbdev ∈ infos, env.serves usbdev = true) →
      (addLoop jni env infos).2 = infos.map (announce jni)
  | [], _ => rfl
  | usbdev :: infos, h => by
      obtain ⟨hserves, hrest⟩ := List.forall_mem_cons.mp h
      rw [addLoop, if_pos hserves, List.map_cons, ← added_addLoop jni hrest]

theorem map_announce_localCopies (jni : Jni) (memory : WStr → Raw × Raw) (r : Registry) :
    (localCopies memory r).map (announce jni) = detectDevices jni memory r := by
  rw [localCopies, detectDevices, List.map_filterMap]
  simp only [Option.map_map]
  rfl

/-- …so where every lookup succeeds, `detectDevices` adds what the announcing loop makes of all that
the scan leaves known. -/
theorem added_detectDevices (jni : Jni) (env : JniLookups) (memory : WStr → Raw × Raw)
    {ret : Int32} {m' : DeviceManager} (h : m.refreshDevices scan = .ok (ret, m'))
    (hserves : env.ServesAll (localCopies memory m'.listDevices)) :
    ∃ call, DeviceManager.detectDevices jni env memory (some m) scan = .ok call ∧
      call.pasmgr = some m' ∧ call.added = detectDevices jni memory m'.listDevices := by
  obtain ⟨hclass, hinit, hadd, hall⟩ := hserves
  have hadd' : ¬ (localCopies memory m'.listDevices ≠ [] ∧ ¬ env.getMethodID "addDevice" = true) :=
    fun hno => hno.2 (hadd hno.1)
  rw [DeviceManager.detectDevices, h]
  dsimp only
  rw [if_neg (not_not.mpr hclass), if_neg (not_not.mpr hinit), if_neg hadd']
  exact ⟨_, rfl, rfl, (added_addLoop jni hall).trans (map_announce_localCopies jni memory _)⟩

end Reports

/-- A system on which every call succeeds and nothing is connected. -/
def SetupCalls.sample : SetupCalls := ⟨sOk, sOk, sOk, sOk⟩

def ScanCalls.sample : ScanCalls := ⟨⟨true, sOk, sOk, []⟩, [], some []⟩

end MtpRetag
