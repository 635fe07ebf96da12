import MtpRetag.Native.Refresh

/-!
# Native/Initialised — which members detection assigns

A scalar member that no constructor and no detection code assigns keeps what the memory of its
object held, and a copy of it holds the same.  So a member is assigned when its value is the same in
two scans that meet the same outcomes and differ in their memory only (`SameOutcomes`).

`members_assigned_iff` says for which outcomes all members of all registered devices are.
-/

namespace MtpRetag

/-! ## Two memories -/

/-- The round with other memory for its object. -/
def MtpEntry.inMemory (raw : Raw) (e : MtpEntry) : MtpEntry := { e with heap := raw }

/-- The volume with other memory for its two objects. -/
def VolumeProbe.inMemory (raw : Raw) (v : VolumeProbe) : VolumeProbe :=
  { v with stack := raw, heap := raw }

/-- The scan with other memory for all its objects. -/
def ScanCalls.inMemory (raw : Raw) (scan : ScanCalls) : ScanCalls where
  wmdm := { scan.wmdm with entries := scan.wmdm.entries.map (MtpEntry.inMemory raw) }
  drives := scan.drives
  devInfo := scan.devInfo.map (List.map (VolumeProbe.inMemory raw))

/-- The two scans differ in what their memory holds only. -/
def SameOutcomes (scan scan' : ScanCalls) : Prop := ∀ raw, scan.inMemory raw = scan'.inMemory raw

/-- All that `fill_devicesinfo` reads after the scan is assigned: it is the same for every scan with
the same outcomes. -/
def MembersAssigned (m : DeviceManager) (scan : ScanCalls) : Prop :=
  ∀ scan', SameOutcomes scan scan' → ∀ ret m₁ ret' m₁', m.refreshDevices scan = .ok (ret, m₁) →
    m.refreshDevices scan' = .ok (ret', m₁') → ∀ memory memory' id,
      (m₁.listDevices.fillDevicesinfo memory ∅).2.lookup id =
        (m₁'.listDevices.fillDevicesinfo memory' ∅).2.lookup id

/-! ## What is registered -/

/-- The port holds the device, by its ids and its serial number. -/
def UsbPort.Holds (deviceUsbId : WStr) (port : UsbPort) : Prop :=
  ¬ port.deviceIsHub ∧ deviceUsbId = makeLower (wide "USB\\VID_" ++ hex4 true port.vid ++
    wide "&PID_" ++ hex4 true port.pid ++ wide "\\" ++ cStr port.serial)

instance (deviceUsbId : WStr) : DecidablePred (UsbPort.Holds deviceUsbId) :=
  fun _ => inferInstanceAs (Decidable (_ ∧ _))

/-- The port whose descriptors `get_descriptor_props` takes: the first that holds the device, unless
the query of an earlier one fails. -/
def HubProbe.describing (hub : HubProbe) (deviceUsbId : WStr) : Option UsbPort :=
  match hub with
  | .error _ => none
  | .ok ports =>
    (ports.takeWhile fun port => port.failed = none).find? fun port => port.Holds deviceUsbId

/-- The members that the descriptors of a port give. -/
def UsbPort.describe (port : UsbPort) (usbdev : UsbDevice) : UsbDevice :=
  { usbdev with
    vendorid := Int32.ofNat port.vid.toNat
    productid := Int32.ofNat port.pid.toNat
    vid := wide "0x" ++ hex4 false port.vid
    pid := wide "0x" ++ hex4 false port.pid
    manufacturer := port.manuf
    serial := port.serial
    name := port.name }

/-- The device of a round and its USB device, if it is to be put in the list: a USB device known to
the system, which `init_mtp` can open and which speaks MTP. -/
def MtpEntry.kept (e : MtpEntry) : Option (WmdmDevice × EnumeratedUsb) :=
  if e.canonical.take 7 = usbPrefix then
    e.pIdv.bind fun dev => (e.devInfo.bind (findUsb e.canonical)).bind fun info =>
      if dev.openRoot.isOk ∧ dev.protocolMtp then some (dev, info) else none
  else none

/-- The path and the device number of a volume, if it is to be put in the list: a removable medium
that can be opened, described and mounted. -/
def VolumeProbe.kept (v : VolumeProbe) : Option (WStr × Int32) :=
  if v.instanceId then
    v.devicePath.bind fun path => v.deviceNumber.join.bind fun n =>
      if (path.map towlower).any (· ∈ wide "removablemedia") ∧
          (getDescriptorProps v.hub (v.devidFromUsb.map towlower) (.emptyPlayer [])).1 = 0 ∧
          n ≠ -1 ∧ v.volumeInformation then
        some (path.map towlower, n)
      else none
  else none

/-- Where a registered device comes from. -/
inductive DeviceOrigin
  | mtp (e : MtpEntry)
  | msc (v : VolumeProbe)

/-- The canonical name under which a device is put in the list, if it is. -/
def DeviceOrigin.canonical : DeviceOrigin → Option WStr
  | .mtp e => e.kept.map fun kept => kept.1.getCanonicalName.getD []
  | .msc v => v.kept.map Prod.fst

/-- Every member is assigned: the device speaks MTP, and a port describes it. -/
def DeviceOrigin.Assigned : DeviceOrigin → Prop
  | .mtp e => ∃ dev info, e.kept = some (dev, info) ∧
      (info.hub.describing (deviceIdFromCanonical e.canonical)).isSome
  | .msc _ => False

instance : DecidablePred MtpEntry.Succeeds := fun _ => inferInstanceAs (Decidable (_ ∧ (_ → _)))

/-- The rounds that MTP detection goes through. -/
def WmdmAnswers.rounds (wmdm : WmdmAnswers) : List MtpEntry :=
  if wmdm.deviceManager2 ∧ Succeeded wmdm.getDeviceCount ∧
      (wmdm.entries ≠ [] → Succeeded wmdm.enumDevices2) then
    wmdm.entries.takeWhile fun e => e.Succeeds
  else []

/-- The volumes that MSC detection goes through. -/
def ScanCalls.volumes (scan : ScanCalls) : List VolumeProbe :=
  (scan.devInfo.getD []).takeWhile fun v => v.instanceId = true → v.devicePath ≠ none

/-- What the scan goes through, in order. -/
def ScanCalls.origins (scan : ScanCalls) : List DeviceOrigin :=
  scan.wmdm.rounds.map .mtp ++ scan.volumes.map .msc

/-- The last one that puts a device of this name in the list. -/
def ScanCalls.lastOrigin (scan : ScanCalls) (id : WStr) : Option DeviceOrigin :=
  scan.origins.reverse.find? fun o => o.canonical = some id

/-! ## What detection registers -/

section Registered

variable {drives : List (Option Int32)}

theorem portLoop_cons {port : UsbPort} (h : port.failed = none) (deviceUsbId : WStr)
    (usbdev : UsbDevice) (ports : List UsbPort) :
    portLoop deviceUsbId usbdev (port :: ports) =
      if port.Holds deviceUsbId then (0, port.describe usbdev)
      else portLoop deviceUsbId usbdev ports := by
  rw [portLoop, h]
  rfl

/-- `get_descriptor_props` copies the descriptors of that port, and its code depends on the hub
only. -/
theorem portLoop_eq (deviceUsbId : WStr) (usbdev : UsbDevice) :
    ∀ ports : List UsbPort,
      portLoop deviceUsbId usbdev ports =
        ((portLoop deviceUsbId (.emptyPlayer []) ports).1,
          (HubProbe.describing (.ok ports) deviceUsbId).elim usbdev
            fun port => port.describe usbdev)
  | [] => rfl
  | port :: ports => by
      have ih := portLoop_eq deviceUsbId usbdev ports
      rw [HubProbe.describing] at ih ⊢
      cases hfail : port.failed with
      | some err => simp [portLoop, hfail]
      | none =>
        rw [portLoop_cons hfail, portLoop_cons hfail, List.takeWhile_cons_of_pos (by simp [hfail])]
        by_cases h : port.Holds deviceUsbId
        · simp [h]
        · simp [h, ih]

theorem getDescriptorProps_eq (hub : HubProbe) (deviceUsbId : WStr) (usbdev : UsbDevice) :
    getDescriptorProps hub deviceUsbId usbdev =
      ((getDescriptorProps hub deviceUsbId (.emptyPlayer [])).1,
        (hub.describing deviceUsbId).elim usbdev fun port => port.describe usbdev) := by
  cases hub with
  | error err => rfl
  | ok ports => exact portLoop_eq deviceUsbId usbdev ports

/-- The device of a round that is kept. -/
def MtpEntry.device (e : MtpEntry) : Option UsbDevice :=
  e.kept.map fun kept =>
    (getDescriptorProps kept.2.hub (deviceIdFromCanonical e.canonical)
      (initMtp (some kept.1) e.newDevice).2).2

/-- `init_mtp` throws failures only. -/
theorem Handout.not_succeeded {h : Handout} {hrex : HRESULT} (herr : h.check = .error hrex) :
    ¬ Succeeded hrex := by
  rw [Handout.check] at herr
  by_cases hs : Succeeded h.hr
  · by_cases ho : h.object
    · simp [hs, ho] at herr
    · obtain rfl : eFail = hrex := by simpa [hs, ho] using herr
      decide
  · obtain rfl : h.hr = hrex := by simpa [hs] using herr
    exact hs

theorem WmdmDevice.not_succeeded {dev : WmdmDevice} {hrex : HRESULT}
    (herr : dev.openRoot = .error hrex) : ¬ Succeeded hrex := by
  rw [WmdmDevice.openRoot] at herr
  cases h1 : dev.enumStorage.check with
  | error e =>
    rw [h1] at herr
    exact Except.error.inj herr ▸ Handout.not_succeeded h1
  | ok =>
    cases h2 : dev.nextStorage.check with
    | error e =>
      rw [h1, h2] at herr
      exact Except.error.inj herr ▸ Handout.not_succeeded h2
    | ok =>
      cases h3 : dev.getStorageGlobals.check with
      | error e =>
        rw [h1, h2, h3] at herr
        exact Except.error.inj herr ▸ Handout.not_succeeded h3
      | ok =>
        rw [h1, h2, h3] at herr
        exact Handout.not_succeeded herr

/-- A device that can be opened is initialised… -/
theorem initMtp_of_isOk {dev : WmdmDevice} (usbdev : UsbDevice) (h : dev.openRoot.isOk = true) :
    initMtp (some dev) usbdev =
      (sOk, { usbdev with
              name := dev.getName.getD []
              canonical := dev.getCanonicalName.getD []
              mtpDevice := some dev.mtpDevice
              manufacturer := dev.getManufacturer.getD []
              mode := if dev.protocolMtp then .mtp else usbdev.mode
              totalsize := dev.getTotalSize.elim 0 kilobytes
              freesize := dev.getTotalFree.elim 0 kilobytes
              rootStorage := dev.rootStorage }) := by
  rw [initMtp]
  cases hopen : dev.openRoot with
  | error hrex => simp [hopen, Except.isOk, Except.toBool] at h
  | ok u => rfl

/-- …and one that cannot is given up. -/
theorem initMtp_of_not_isOk {dev : WmdmDevice} (usbdev : UsbDevice)
    (h : ¬ dev.openRoot.isOk = true) : (initMtp (some dev) usbdev).1 ≠ sOk := by
  rw [initMtp]
  cases hopen : dev.openRoot with
  | ok u => simp [hopen, Except.isOk, Except.toBool] at h
  | error hrex =>
    rintro rfl
    exact WmdmDevice.not_succeeded hopen succeeded_sOk

/-- **A round that can be carried out** gives the device that is kept. -/
theorem probeMtp_of_succeeds {e : MtpEntry} (h : e.Succeeds) : probeMtp e = .ok e.device := by
  rw [probeMtp, MtpEntry.device, MtpEntry.kept]
  by_cases husb : e.canonical.take 7 = usbPrefix
  case neg => simp [husb]
  obtain ⟨infos, hinfos⟩ := Option.ne_none_iff_exists'.mp (h.2 husb)
  obtain ⟨dev, hdev⟩ : ∃ dev, e.pIdv = some dev := by
    cases hpIdv : e.pIdv with
    | some dev => exact ⟨dev, rfl⟩
    | none =>
      rw [MtpEntry.canonical, hpIdv] at husb
      exact absurd husb (by decide)
  rw [if_neg (not_not.mpr husb), if_pos husb, hdev, hinfos, Option.bind_some, Option.bind_some]
  cases hfind : findUsb e.canonical infos with
  | none => simp [hfind]
  | some info =>
    have hundef : e.newDevice.mode ≠ .mtp := by
      change DeviceMode.undef ≠ .mtp
      decide
    simp only [hfind, Option.bind_some]
    by_cases hopen : dev.openRoot.isOk = true
    · have hinit := initMtp_of_isOk e.newDevice hopen
      by_cases hprot : dev.protocolMtp = true
      · rw [if_neg (by simp [hinit, hprot]), if_pos ⟨hopen, hprot⟩, Option.map_some]
      · rw [if_pos (.inr (by simpa [hinit, hprot] using hundef)), if_neg fun h => hprot h.2,
          Option.map_none]
    · rw [if_pos (.inl (initMtp_of_not_isOk _ hopen)), if_neg fun h => hopen h.1, Option.map_none]

/-- What MTP detection adds to the registry. -/
theorem mtpLoop_eq :
    ∀ (entries : List MtpEntry) (r : Registry),
      (mtpLoop entries r).2 =
        ((entries.takeWhile fun e => e.Succeeds).filterMap MtpEntry.device).foldl Registry.store r
  | [], r => rfl
  | e :: entries, r => by
      rw [mtpLoop]
      by_cases h : e.Succeeds
      · rw [if_neg (not_not.mpr h.1), probeMtp_of_succeeds h,
          List.takeWhile_cons_of_pos (by simpa using h), List.filterMap_cons]
        cases hdev : e.device with
        | none => exact mtpLoop_eq entries r
        | some usbdev => exact mtpLoop_eq entries (r.store usbdev)
      · rw [List.takeWhile_cons_of_neg (by simpa using h)]
        by_cases hnext : Succeeded e.next
        · have husb : e.canonical.take 7 = usbPrefix ∧ e.devInfo = none := by
            rw [MtpEntry.Succeeds] at h
            simpa [hnext] using h
          rw [if_neg (not_not.mpr hnext), probeMtp, if_neg (not_not.mpr husb.1), husb.2]
          rfl
        · rw [if_pos hnext]
          rfl

theorem detectDevicesMtp_eq {wmdm : WmdmAnswers} {r : Registry} {x : Int32 × Registry}
    (h : detectDevicesMtp true wmdm r = .ok x) :
    x.2 = (wmdm.rounds.filterMap MtpEntry.device).foldl Registry.store r := by
  rw [detectDevicesMtp, if_neg (by simp)] at h
  rw [WmdmAnswers.rounds]
  by_cases h1 : wmdm.deviceManager2 = true
  case neg =>
    rw [if_pos h1] at h
    rw [if_neg fun h' => h1 h'.1, ← Except.ok.inj h]
    rfl
  by_cases h2 : Succeeded wmdm.getDeviceCount
  case neg =>
    rw [if_neg (not_not.mpr h1), if_pos h2] at h
    rw [if_neg fun h' => h2 h'.2.1, ← Except.ok.inj h]
    rfl
  rw [if_neg (not_not.mpr h1), if_neg (not_not.mpr h2)] at h
  by_cases h3 : wmdm.entries ≠ [] ∧ ¬ Succeeded wmdm.enumDevices2
  · rw [if_pos h3] at h
    rw [if_neg fun h' => h3.2 (h'.2.2 h3.1), ← Except.ok.inj h]
    rfl
  · rw [if_neg h3] at h
    rw [if_pos ⟨h1, h2, fun hne => not_not.mp fun hno => h3 ⟨hne, hno⟩⟩, ← Except.ok.inj h,
      mtpLoop_eq]

/-- The device of a volume that is kept. -/
def VolumeProbe.device (drives : List (Option Int32)) (v : VolumeProbe) : Option UsbDevice :=
  v.kept.map fun kept =>
    UsbDevice.copyRef v.heap
      { (getDescriptorProps v.hub (v.devidFromUsb.map towlower)
          { UsbDevice.init v.stack with canonical := kept.1 }).2 with
        mode := .msc, mountpoint := getMountPointForDevice drives kept.2 }

theorem fst_getDescriptorProps (hub : HubProbe) (deviceUsbId : WStr) (usbdev : UsbDevice) :
    (getDescriptorProps hub deviceUsbId usbdev).1 =
      (getDescriptorProps hub deviceUsbId (.emptyPlayer [])).1 := by
  rw [getDescriptorProps_eq]

/-- **A volume with a device path** gives the device that is kept. -/
theorem probeVolume_of_path (drives : List (Option Int32)) {v : VolumeProbe}
    (h : v.instanceId = true → v.devicePath ≠ none) :
    ∃ usbdev, probeVolume drives v = .ok usbdev ∧
      usbdev.map (UsbDevice.copyRef v.heap) = v.device drives := by
  rw [probeVolume, VolumeProbe.device, VolumeProbe.kept]
  by_cases hid : v.instanceId = true
  case neg => exact ⟨none, by rw [if_pos hid], by rw [if_neg hid]; rfl⟩
  obtain ⟨path, hpath⟩ := Option.ne_none_iff_exists'.mp (h hid)
  rw [if_neg (not_not.mpr hid), if_pos hid, hpath, Option.bind_some]
  dsimp only
  rw [fst_getDescriptorProps]
  by_cases hrem : (path.map towlower).any (· ∈ wide "removablemedia") = true
  case neg => exact ⟨none, by rw [if_pos hrem], by simp [hrem]⟩
  rw [if_neg (not_not.mpr hrem)]
  rcases v.deviceNumber with _ | _ | n
  · exact ⟨none, rfl, rfl⟩
  · exact ⟨none, rfl, rfl⟩
  dsimp only [Option.join_some, Option.bind_some]
  by_cases hres : (getDescriptorProps v.hub (v.devidFromUsb.map towlower) (.emptyPlayer [])).1 = 0
  case neg => exact ⟨none, by rw [if_pos hres], by rw [if_neg fun h => hres h.2.1]; rfl⟩
  by_cases hn : n = -1
  case pos =>
    exact ⟨none, by rw [if_neg (not_not.mpr hres), if_pos hn],
      by rw [if_neg fun h => h.2.2.1 hn]; rfl⟩
  by_cases hvol : v.volumeInformation = true
  case neg =>
    exact ⟨none, by rw [if_neg (not_not.mpr hres), if_neg hn, if_pos hvol],
      by rw [if_neg fun h => hvol h.2.2.2]; rfl⟩
  refine ⟨_, by rw [if_neg (not_not.mpr hres), if_neg hn, if_neg (not_not.mpr hvol)], ?_⟩
  rw [if_pos ⟨hrem, hres, hn, hvol⟩]
  rfl

/-- What MSC detection adds to the registry. -/
theorem mscLoop_eq :
    ∀ (volumes : List VolumeProbe) (r : Registry),
      (mscLoop drives volumes r).2 =
        ((volumes.takeWhile fun v => v.instanceId = true → v.devicePath ≠ none).filterMap
          (VolumeProbe.device drives)).foldl Registry.store r
  | [], r => rfl
  | v :: volumes, r => by
      rw [mscLoop]
      by_cases h : v.instanceId = true → v.devicePath ≠ none
      · obtain ⟨usbdev, hprobe, hdev⟩ := probeVolume_of_path drives h
        rw [hprobe, List.takeWhile_cons_of_pos (by simpa only [decide_eq_true_eq] using h),
          List.filterMap_cons, ← hdev]
        cases usbdev with
        | none => exact mscLoop_eq volumes r
        | some usbdev => exact mscLoop_eq volumes _
      · obtain ⟨hid, hpath⟩ : v.instanceId = true ∧ v.devicePath = none := by simpa using h
        rw [probeVolume_of_no_path hid hpath, List.takeWhile_cons_of_neg (by simpa using h)]
        rfl

theorem detectDevicesMsc_eq (scan : ScanCalls) (r : Registry) :
    (detectDevicesMsc scan.drives scan.devInfo r).2 =
      (scan.volumes.filterMap (VolumeProbe.device scan.drives)).foldl Registry.store r := by
  rw [ScanCalls.volumes]
  cases scan.devInfo with
  | none => rfl
  | some volumes => exact mscLoop_eq volumes r

/-- The device that is put in the list. -/
def DeviceOrigin.device (drives : List (Option Int32)) : DeviceOrigin → Option UsbDevice
  | .mtp e => e.device
  | .msc v => v.device drives

theorem getDescriptorProps_canonical (hub : HubProbe) (deviceUsbId : WStr) (usbdev : UsbDevice) :
    (getDescriptorProps hub deviceUsbId usbdev).2.canonical = usbdev.canonical := by
  rw [getDescriptorProps_eq]
  cases hub.describing deviceUsbId with
  | none => rfl
  | some port => rfl

theorem MtpEntry.isOk_of_kept {e : MtpEntry} {dev : WmdmDevice} {info : EnumeratedUsb}
    (h : e.kept = some (dev, info)) : dev.openRoot.isOk = true ∧ dev.protocolMtp = true := by
  rw [MtpEntry.kept] at h
  split at h
  case isFalse => cases h
  case isTrue =>
    obtain ⟨dev', -, h⟩ := Option.bind_eq_some_iff.mp h
    obtain ⟨info', -, h⟩ := Option.bind_eq_some_iff.mp h
    split at h
    case isFalse => cases h
    case isTrue hok =>
      cases h
      exact hok

/-- What `get_descriptor_props` makes of an opened device. -/
theorem MtpEntry.device_of_kept {e : MtpEntry} {dev : WmdmDevice} {info : EnumeratedUsb}
    (h : e.kept = some (dev, info)) :
    e.device = some ((info.hub.describing (deviceIdFromCanonical e.canonical)).elim
      (initMtp (some dev) e.newDevice).2
        fun port => port.describe (initMtp (some dev) e.newDevice).2) := by
  rw [MtpEntry.device, h, Option.map_some, getDescriptorProps_eq]

/-- It is put there under its canonical name. -/
theorem map_canonical_device (drives : List (Option Int32)) (o : DeviceOrigin) :
    (o.device drives).map (fun d => d.canonical) = o.canonical := by
  cases o with
  | mtp e =>
    rw [DeviceOrigin.device, MtpEntry.device, DeviceOrigin.canonical, Option.map_map]
    cases hkept : e.kept with
    | none => rfl
    | some kept =>
      rw [Option.map_some, Option.map_some, Function.comp_apply, getDescriptorProps_canonical,
        initMtp_of_isOk _ (MtpEntry.isOk_of_kept hkept).1]
  | msc v =>
    rw [DeviceOrigin.device, VolumeProbe.device, DeviceOrigin.canonical, Option.map_map]
    congr 1
    funext kept
    exact getDescriptorProps_canonical _ _ _

/-- **A scan is a detection** of the devices that it goes through. -/
theorem listDevices_refreshDevices {m m' : DeviceManager} {scan : ScanCalls} {ret : Int32}
    (h : m.refreshDevices scan = .ok (ret, m')) :
    m'.listDevices =
      m.listDevices.step (.refresh (scan.origins.filterMap (DeviceOrigin.device scan.drives))) := by
  have hmgr : m.pWMDevMgr = true := by
    rcases refreshDevices_cases m scan with ⟨-, herr⟩ | ⟨hmgr, -⟩
    · simp [h] at herr
    · exact hmgr
  obtain ⟨x, hx⟩ := exists_detectDevicesMtp scan.wmdm .empty
  rw [refreshDevices_of_pWMDevMgr hmgr hx] at h
  obtain ⟨-, rfl⟩ := Prod.mk.inj (Except.ok.inj h)
  have hfound : (scan.origins.filterMap (DeviceOrigin.device scan.drives)) =
      scan.wmdm.rounds.filterMap MtpEntry.device ++
        scan.volumes.filterMap (VolumeProbe.device scan.drives) := by
    rw [ScanCalls.origins, List.filterMap_append, List.filterMap_map, List.filterMap_map]
    rfl
  rw [Registry.step, Registry.refreshDevices, hfound, List.foldl_append,
    detectDevicesMsc_eq, detectDevicesMtp_eq hx]
  rfl

/-- **What is known after a scan**: of each name, the last device that it puts in the list. -/
theorem device_refreshDevices {m m' : DeviceManager} {scan : ScanCalls} {ret : Int32}
    (h : m.refreshDevices scan = .ok (ret, m')) (id : WStr) :
    m'.listDevices.device id = (scan.lastOrigin id).bind (DeviceOrigin.device scan.drives) := by
  have hkey : ∀ o : DeviceOrigin, (o.device scan.drives).any (fun d => decide (d.canonical = id)) =
      decide (o.canonical = some id) := fun o => by
    rw [← map_canonical_device scan.drives o]
    cases o.device scan.drives with
    | none => rfl
    | some d => simp
  rw [listDevices_refreshDevices h, device_step, Known.step, ← List.filterMap_reverse]
  dsimp only
  rw [List.find?_filterMap, ScanCalls.lastOrigin]
  simp only [hkey]

end Registered

/-! ## What depends on the memory -/

section Memory

variable {scan : ScanCalls} {raw : Raw}

/-- The origin with other memory. -/
def DeviceOrigin.inMemory (raw : Raw) : DeviceOrigin → DeviceOrigin
  | .mtp e => .mtp (e.inMemory raw)
  | .msc v => .msc (v.inMemory raw)

theorem canonical_inMemory (o : DeviceOrigin) : (o.inMemory raw).canonical = o.canonical := by
  cases o with
  | mtp e => rfl
  | msc v => rfl

theorem assigned_inMemory (raw : Raw) (o : DeviceOrigin) :
    (o.inMemory raw).Assigned ↔ o.Assigned := by
  cases o with
  | mtp e => exact Iff.rfl
  | msc v => exact Iff.rfl

theorem origins_inMemory (scan : ScanCalls) :
    (scan.inMemory raw).origins = scan.origins.map (DeviceOrigin.inMemory raw) := by
  have hrounds :
      (scan.inMemory raw).wmdm.rounds = scan.wmdm.rounds.map (MtpEntry.inMemory raw) := by
    rw [ScanCalls.inMemory, WmdmAnswers.rounds, WmdmAnswers.rounds]
    simp only [List.takeWhile_map, ne_eq, List.map_eq_nil_iff]
    split
    · rfl
    · rfl
  have hvolumes : (scan.inMemory raw).volumes = scan.volumes.map (VolumeProbe.inMemory raw) := by
    rw [ScanCalls.inMemory, ScanCalls.volumes, ScanCalls.volumes]
    cases scan.devInfo with
    | none => rfl
    | some volumes =>
      rw [Option.map_some, Option.getD_some, Option.getD_some, List.takeWhile_map]
      rfl
  rw [ScanCalls.origins, ScanCalls.origins, hrounds, hvolumes, List.map_append, List.map_map,
    List.map_map, List.map_map, List.map_map]
  rfl

theorem lastOrigin_inMemory (raw : Raw) (scan : ScanCalls) (id : WStr) :
    (scan.inMemory raw).lastOrigin id = (scan.lastOrigin id).map (DeviceOrigin.inMemory raw) := by
  rw [ScanCalls.lastOrigin, origins_inMemory, ← List.map_reverse, List.find?_map,
    ScanCalls.lastOrigin]
  congr 2
  funext o
  rw [Function.comp_apply, canonical_inMemory]

/-- What a scan says about a name. -/
def ScanCalls.info (scan : ScanCalls) (id : WStr) : Option UsbdeviceInfo :=
  ((scan.lastOrigin id).bind (DeviceOrigin.device scan.drives)).map UsbDevice.toUsbdeviceInfo

/-- A device all of whose members are assigned is the same in any memory… -/
theorem device_of_assigned {drives : List (Option Int32)} {o : DeviceOrigin} (h : o.Assigned) :
    ((o.inMemory raw).device drives).map UsbDevice.toUsbdeviceInfo =
      (o.device drives).map UsbDevice.toUsbdeviceInfo := by
  cases o with
  | msc v => exact h.elim
  | mtp e =>
    obtain ⟨dev, info, hkept, hdesc⟩ := h
    obtain ⟨port, hport⟩ := Option.isSome_iff_exists.mp hdesc
    obtain ⟨hopen, hprot⟩ := MtpEntry.isOk_of_kept hkept
    have hkept' : (e.inMemory raw).kept = some (dev, info) := hkept
    have hport' :
        info.hub.describing (deviceIdFromCanonical (e.inMemory raw).canonical) = some port :=
      hport
    rw [DeviceOrigin.inMemory, DeviceOrigin.device, DeviceOrigin.device,
      MtpEntry.device_of_kept hkept, MtpEntry.device_of_kept hkept', hport, hport',
      initMtp_of_isOk _ hopen, initMtp_of_isOk _ hopen, hprot]
    rfl

/-- A volume has the mode its memory held… -/
theorem mode_device_msc (drives : List (Option Int32)) {v : VolumeProbe} {id : WStr}
    (hcanonical : (DeviceOrigin.msc v).canonical = some id) (raw : Raw) :
    ((((DeviceOrigin.msc v).inMemory raw).device drives).map UsbDevice.toUsbdeviceInfo).map
      UsbdeviceInfo.mode = some raw.mode := by
  obtain ⟨kept, hkept, -⟩ := Option.map_eq_some_iff.mp hcanonical
  have hkept' : (v.inMemory raw).kept = some kept := hkept
  rw [DeviceOrigin.inMemory, DeviceOrigin.device, VolumeProbe.device, hkept']
  rfl

/-- …and a player that no port describes the product id. -/
theorem productid_device_mtp (drives : List (Option Int32)) {e : MtpEntry} {id : WStr}
    (hcanonical : (DeviceOrigin.mtp e).canonical = some id)
    (h : ¬ (DeviceOrigin.mtp e).Assigned) (raw : Raw) :
    ((((DeviceOrigin.mtp e).inMemory raw).device drives).map UsbDevice.toUsbdeviceInfo).map
      UsbdeviceInfo.productid = some raw.productid := by
  obtain ⟨⟨dev, info⟩, hkept, -⟩ := Option.map_eq_some_iff.mp hcanonical
  have hdesc : info.hub.describing (deviceIdFromCanonical e.canonical) = none :=
    Option.not_isSome_iff_eq_none.mp fun hdesc => h ⟨dev, info, hkept, hdesc⟩
  have hkept' : (e.inMemory raw).kept = some (dev, info) := hkept
  have hdesc' : info.hub.describing (deviceIdFromCanonical (e.inMemory raw).canonical) = none :=
    hdesc
  rw [DeviceOrigin.inMemory, DeviceOrigin.device, MtpEntry.device_of_kept hkept', hdesc',
    initMtp_of_isOk _ (MtpEntry.isOk_of_kept hkept).1]
  rfl

/-- What takes two values in two memories is not one record in all. -/
theorem exists_ne_of_field {β : Type*} (field : UsbdeviceInfo → β) (value : Raw → β)
    {info : Raw → Option UsbdeviceInfo} (h : ∀ raw, (info raw).map field = some (value raw))
    {raw raw' : Raw} (hne : value raw ≠ value raw') (other : Option UsbdeviceInfo) :
    ∃ raw, info raw ≠ other := by
  by_contra hall
  push Not at hall
  have hsame : info raw = info raw' := (hall raw).trans (hall raw').symm
  exact hne (Option.some.inj ((h raw).symm.trans (hsame ▸ h raw')))

/-- …and one with a member left out is not. -/
theorem exists_device_ne (drives : List (Option Int32)) {o : DeviceOrigin} {id : WStr}
    (hcanonical : o.canonical = some id) (h : ¬ o.Assigned) :
    ∃ raw, ((o.inMemory raw).device drives).map UsbDevice.toUsbdeviceInfo ≠
      (o.device drives).map UsbDevice.toUsbdeviceInfo := by
  cases o with
  | msc v =>
    have hne : (⟨0, 0, 0, 0, 0, .msc⟩ : Raw).mode ≠ (⟨0, 0, 0, 0, 0, .mtp⟩ : Raw).mode := by decide
    exact exists_ne_of_field _ Raw.mode (mode_device_msc drives hcanonical) hne _
  | mtp e =>
    have hne : (⟨0, 0, 0, 0, 0, .undef⟩ : Raw).productid ≠
        (⟨1, 0, 0, 0, 0, .undef⟩ : Raw).productid := by decide
    exact exists_ne_of_field _ Raw.productid (productid_device_mtp drives hcanonical h) hne _

theorem info_inMemory (scan : ScanCalls) (id : WStr) :
    (scan.inMemory raw).info id = ((scan.lastOrigin id).bind fun o =>
      ((o.inMemory raw).device scan.drives).map UsbDevice.toUsbdeviceInfo) := by
  rw [ScanCalls.info, lastOrigin_inMemory]
  cases scan.lastOrigin id with
  | none => rfl
  | some o => rfl

/-- What a scan says about a name depends on the outcomes only, when the device it comes from has
all its members. -/
theorem info_of_assigned {id : WStr} (h : ∀ o, scan.lastOrigin id = some o → o.Assigned) :
    (scan.inMemory raw).info id = scan.info id := by
  rw [info_inMemory, ScanCalls.info]
  cases hlast : scan.lastOrigin id with
  | none => rfl
  | some o => exact device_of_assigned (h o hlast)

theorem sameOutcomes_inMemory (raw : Raw) (scan : ScanCalls) :
    SameOutcomes scan (scan.inMemory raw) := by
  intro raw'
  rw [ScanCalls.inMemory, ScanCalls.inMemory, ScanCalls.inMemory, List.map_map, Option.map_map,
    List.map_comp_map]
  rfl

/-- Scans with the same outcomes agree on what is assigned. -/
theorem SameOutcomes.assigned {scan' : ScanCalls} {id : WStr} (h : SameOutcomes scan scan')
    (hassigned : ∀ o, scan.lastOrigin id = some o → o.Assigned) :
    ∀ o, scan'.lastOrigin id = some o → o.Assigned := by
  intro o' ho'
  have hlast := lastOrigin_inMemory ⟨0, 0, 0, 0, 0, .undef⟩ scan' id
  rw [← h, lastOrigin_inMemory, ho', Option.map_some] at hlast
  obtain ⟨o, ho, heq⟩ := Option.map_eq_some_iff.mp hlast
  rw [← assigned_inMemory ⟨0, 0, 0, 0, 0, .undef⟩ o', ← heq, assigned_inMemory]
  exact hassigned o ho

theorem lookup_refreshDevices {m m' : DeviceManager} {ret : Int32}
    (h : m.refreshDevices scan = .ok (ret, m')) (memory : WStr → Raw) (id : WStr) :
    (m'.listDevices.fillDevicesinfo memory ∅).2.lookup id = scan.info id := by
  rw [lookup_fillDevicesinfo, device_refreshDevices h, AList.lookup_empty, Option.or_none,
    ScanCalls.info]

end Memory

/-- **Which members detection assigns.**  All members of all registered devices, whatever the
outcomes, if and only if of each name the device registered last is an MTP device that a port of its
hub describes. -/
theorem members_assigned_iff (m : DeviceManager) (scan : ScanCalls) :
    MembersAssigned m scan ↔
      (m.pWMDevMgr = true → ∀ id o, scan.lastOrigin id = some o → o.Assigned) := by
  constructor
  · intro h hmgr id o hlast
    by_contra hnot
    have hcanonical : o.canonical = some id := by simpa using List.find?_some hlast
    obtain ⟨raw, hraw⟩ := exists_device_ne scan.drives hcanonical hnot
    obtain ⟨ret, m₁, hm₁, -⟩ := (refreshDevices_cases m scan).resolve_left (by simp [hmgr]) |>.2
    obtain ⟨ret', m₁', hm₁', -⟩ :=
      (refreshDevices_cases m (scan.inMemory raw)).resolve_left (by simp [hmgr]) |>.2
    have hinfo := h _ (sameOutcomes_inMemory raw scan) _ _ _ _ hm₁ hm₁' (fun _ => raw)
      (fun _ => raw) id
    rw [lookup_refreshDevices hm₁, lookup_refreshDevices hm₁', info_inMemory, ScanCalls.info, hlast]
      at hinfo
    exact hraw hinfo.symm
  · intro h scan' hsame ret m₁ ret' m₁' hm₁ hm₁' memory memory' id
    have hmgr : m.pWMDevMgr = true := by
      rcases refreshDevices_cases m scan with ⟨-, herr⟩ | ⟨hmgr, -⟩
      · simp [hm₁] at herr
      · exact hmgr
    have hassigned : ∀ o, scan.lastOrigin id = some o → o.Assigned := h hmgr id
    rw [lookup_refreshDevices hm₁, lookup_refreshDevices hm₁', ← info_of_assigned hassigned,
      hsame ⟨0, 0, 0, 0, 0, .undef⟩, info_of_assigned (hsame.assigned hassigned)]

/-- A scan that meets one volume. -/
def ScanCalls.volume : ScanCalls := { ScanCalls.sample with devInfo := some [.sample] }

/-- A volume is registered without a mode: what `fill_devicesinfo` reads is what the memory held. -/
theorem volume_unassigned : ¬ MembersAssigned (.new .sample) .volume := by
  intro h
  have hmode := h (ScanCalls.volume.inMemory ⟨0, 0, 0, 0, 0, .mtp⟩)
    (sameOutcomes_inMemory _ _) _ _ _ _ rfl rfl (fun _ => ⟨0, 0, 0, 0, 0, .undef⟩)
    (fun _ => ⟨0, 0, 0, 0, 0, .undef⟩) (wide "removablemedia")
  exact absurd (congrArg (Option.map UsbdeviceInfo.mode) hmode) (by decide)

end MtpRetag
