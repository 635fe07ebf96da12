import MtpRetag.Native.DeviceInfo

/-!
# Native/Detect — MSC detection, and what Java is told

A device record crosses several copies: the stack object of `detect_devices_msc`, the registered
heap copy, the list of `fill_devicesinfo`, and the copy `detectDevices` announces from.  Two of
these steps use a copy constructor that leaves the mode out.

`copies_exact` collects where the mode survives.
-/

namespace MtpRetag

/-! ## USB descriptors -/

/-- A digit of `%x`, or of `%X`. -/
def hexDigit (upper : Bool) (d : ℕ) : WChar :=
  UInt16.ofNat (if d < 10 then 48 + d else if upper then 55 + d else 87 + d)

/-- `%04x` or `%04X` of a 16-bit value. -/
def hex4 (upper : Bool) (n : UInt16) : WStr :=
  [n.toNat / 4096, n.toNat / 256 % 16, n.toNat / 16 % 16, n.toNat % 16].map (hexDigit upper)

/-- A port of a hub: the error of its query, or its descriptors. -/
structure UsbPort where
  failed : Option Int32
  deviceIsHub : Bool
  manuf : WStr
  serial : WStr
  name : WStr
  vid : UInt16
  pid : UInt16

/-- What opening and querying a hub gives: an error code, or its ports. -/
abbrev HubProbe := Except Int32 (List UsbPort)

/-- The loop of `get_descriptor_props`.  `ret` is the last `BOOL` of `DeviceIoControl`. -/
def portLoop (deviceUsbId : WStr) (usbdev : UsbDevice) : List UsbPort → Int32 × UsbDevice
  | [] => (1, usbdev)
  | port :: ports =>
    match port.failed with
    | some err => (err, usbdev)
    | none =>
      let usbid := makeLower (wide "USB\\VID_" ++ hex4 true port.vid ++ wide "&PID_" ++
        hex4 true port.pid ++ wide "\\" ++ cStr port.serial)
      if ¬ port.deviceIsHub ∧ deviceUsbId = usbid then
        (0, { usbdev with
              vendorid := Int32.ofNat port.vid.toNat
              productid := Int32.ofNat port.pid.toNat
              vid := wide "0x" ++ hex4 false port.vid
              pid := wide "0x" ++ hex4 false port.pid
              manufacturer := port.manuf
              serial := port.serial
              name := port.name })
      else portLoop deviceUsbId usbdev ports

/-- `devicemanager::get_descriptor_props`. -/
def getDescriptorProps (hub : HubProbe) (deviceUsbId : WStr) (usbdev : UsbDevice) :
    Int32 × UsbDevice :=
  match hub with
  | .error err => (err, usbdev)
  | .ok ports => portLoop deviceUsbId usbdev ports

/-! ## Volumes -/

/-- What the system answers about one enumerated volume, and the memory its two objects get.
`deviceNumber` is `none` when the volume cannot be opened, `some none` when its query fails. -/
structure VolumeProbe where
  instanceId : Bool
  devicePath : Option WStr
  devidFromUsb : WStr
  deviceNumber : Option (Option Int32)
  hub : HubProbe
  volumeInformation : Bool
  stack : Raw
  heap : Raw

/-- `GetMountPointForDevice`: the last of the drives `A:` onwards with that device number. -/
def getMountPointForDevice (drives : List (Option Int32)) (deviceNumber : Int32) : WStr :=
  ((List.range 32).filter fun i => drives[i]? = some (some deviceNumber)).getLast?.elim []
    fun i => [UInt16.ofNat (65 + i), 58]

/-- One round of `detect_devices_msc`: an exception, a skipped volume, or the accepted stack
object. -/
def probeVolume (drives : List (Option Int32)) (v : VolumeProbe) :
    Except HRESULT (Option UsbDevice) :=
  if ¬ v.instanceId then .ok none
  else
    match v.devicePath with
    | none => .error eFail
    | some path =>
      let devpath := path.map towlower
      -- `find_first_of` looks for any one of these characters
      if ¬ devpath.any (· ∈ wide "removablemedia") then .ok none
      else
        let usbdev := { UsbDevice.init v.stack with canonical := devpath }
        match v.deviceNumber with
        | none => .ok none
        | some none => .ok none
        | some (some n) =>
          let (res, usbdev) := getDescriptorProps v.hub (v.devidFromUsb.map towlower) usbdev
          if res ≠ 0 then .ok none
          else if n = -1 then .ok none
          else if ¬ v.volumeInformation then .ok none
          else .ok (some { usbdev with mode := .msc, mountpoint := getMountPointForDevice drives n })

/-- The loop of `detect_devices_msc`: `listDevices[…] = new usbdevice(usbdev)` for each accepted
volume, until an exception. -/
def mscLoop (drives : List (Option Int32)) : List VolumeProbe → Registry → Int32 × Registry
  | [], r => (0, r)
  | v :: volumes, r =>
    match probeVolume drives v with
    | .error hrex => (if Succeeded hrex then 0 else 1, r)
    | .ok none => mscLoop drives volumes r
    | .ok (some usbdev) => mscLoop drives volumes (r.store (UsbDevice.copyRef v.heap usbdev))

/-- `devicemanager::detect_devices_msc`; `none` when the volumes cannot be enumerated. -/
def detectDevicesMsc (drives : List (Option Int32)) (devInfo : Option (List VolumeProbe))
    (r : Registry) : Int32 × Registry :=
  match devInfo with
  | none => (1, r)
  | some volumes => mscLoop drives volumes r

/-! ## What Java is told -/

/-- `devicemanager::fill_devicesinfo` for one device: a fresh record, all members set. -/
def fillInfo (raw : Raw) (usbdev : UsbDevice) : UsbdeviceInfo :=
  { UsbdeviceInfo.init raw with
    canonical := usbdev.canonical
    name := usbdev.name
    serial := usbdev.serial
    pid := usbdev.pid
    vid := usbdev.vid
    productid := usbdev.productid
    vendorid := usbdev.vendorid
    manufacturer := usbdev.manufacturer
    mountpoint := usbdev.mountpoint
    videodir := usbdev.videodir
    audiodir := usbdev.audiodir
    pictdir := usbdev.pictdir
    idx := usbdev.idx
    freesize := usbdev.freesize
    totalsize := usbdev.totalsize
    mode := usbdev.mode }

/-- A `jpmp.device.UsbDevice`, as `detectDevices` fills it.  `mode` is the mode setter called on it,
if one was. -/
structure JavaUsbDevice where
  canonical : WStr
  serial : WStr
  name : WStr
  manufacturer : WStr
  videoFolder : WStr
  audioFolder : WStr
  pictureFolder : WStr
  vid : WStr
  vendorid : Int32
  pid : WStr
  productid : Int32
  mountPoint : WStr
  usbIndex : Int32
  totalSize : UInt64
  freeSize : UInt64
  mode : Option DeviceMode

/-- The setters `detectDevices` calls for one record. -/
def announce (jni : Jni) (usbdev : UsbdeviceInfo) : JavaUsbDevice :=
  { canonical := jni.newString (cStr usbdev.canonical)
    serial := jni.newString (cStr usbdev.serial)
    name := jni.newString (cStr usbdev.name)
    manufacturer := jni.newString (cStr usbdev.manufacturer)
    videoFolder := jni.newString (cStr usbdev.videodir)
    audioFolder := jni.newString (cStr usbdev.audiodir)
    pictureFolder := jni.newString (cStr usbdev.pictdir)
    vid := jni.newString (cStr usbdev.vid)
    vendorid := usbdev.vendorid
    pid := jni.newString (cStr usbdev.pid)
    productid := usbdev.productid
    mountPoint := jni.newString (cStr usbdev.mountpoint)
    usbIndex := usbdev.idx
    totalSize := usbdev.totalsize
    freeSize := usbdev.freesize
    mode := if usbdev.mode = .msc then some .msc else if usbdev.mode = .mtp then some .mtp else none }

/-- The body of the loop of `Java_jpmp_manager_DeviceManager_detectDevices` for a registered device:
`usbdevice_info usbdev = it->second`, then the setters. -/
def announceDevice (jni : Jni) (fill loop : Raw) (usbdev : UsbDevice) : JavaUsbDevice :=
  announce jni (UsbdeviceInfo.copyRef loop (fillInfo fill usbdev))

/-- `Java_jpmp_manager_DeviceManager_detectDevices` after the refresh: the devices it adds.
`memory` is what the two records built for a name find in memory. -/
def detectDevices (jni : Jni) (memory : WStr → Raw × Raw) (r : Registry) : List JavaUsbDevice :=
  r.map.entries.filterMap fun e =>
    e.2.map fun usbdev => announceDevice jni (memory e.1).1 (memory e.1).2 usbdev

/-! ## Where the mode survives -/

section Msc

variable {drives : List (Option Int32)}

/-- The volumes that `detect_devices_msc` registers, with their stack objects, in order. -/
def accepted (drives : List (Option Int32)) : List VolumeProbe → List (VolumeProbe × UsbDevice)
  | [] => []
  | v :: volumes =>
    match probeVolume drives v with
    | .error _ => []
    | .ok none => accepted drives volumes
    | .ok (some usbdev) => (v, usbdev) :: accepted drives volumes

/-- The last registered volume of a name: later ones replace earlier ones in the registry. -/
def lastAccepted (drives : List (Option Int32)) (volumes : List VolumeProbe) (id : WStr) :
    Option (VolumeProbe × UsbDevice) :=
  (accepted drives volumes).reverse.find? fun v => v.2.canonical = id

theorem find?_reverse_cons {α : Type*} (p : α → Bool) (a : α) (l : List α) :
    (a :: l).reverse.find? p = (l.reverse.find? p).or (if p a then some a else none) := by
  rw [List.reverse_cons, List.find?_append, List.find?_singleton]

/-- **What the registry holds after MSC detection.** -/
theorem device_mscLoop (id : WStr) :
    ∀ (volumes : List VolumeProbe) (r : Registry),
      (mscLoop drives volumes r).2.device id =
        ((lastAccepted drives volumes id).map fun v => UsbDevice.copyRef v.1.heap v.2).or
          (r.device id)
  | [], r => by simp [mscLoop, lastAccepted, accepted]
  | v :: volumes, r => by
      rw [mscLoop, lastAccepted, accepted]
      rcases hv : probeVolume drives v with hrex | _ | usbdev
      · simp
      · exact device_mscLoop id volumes r
      · dsimp only
        rw [device_mscLoop id volumes, Registry.device_store, find?_reverse_cons, lastAccepted]
        cases (accepted drives volumes).reverse.find? fun v => v.2.canonical = id with
        | some w => simp
        | none =>
          by_cases hid : id = usbdev.canonical
          · have hid' : usbdev.canonical = id := hid.symm
            have hcopy : id = (UsbDevice.copyRef v.heap usbdev).canonical := hid
            simp [hid', ← hcopy]
          · have hid' : ¬ usbdev.canonical = id := fun h => hid h.symm
            have hcopy : ¬ id = (UsbDevice.copyRef v.heap usbdev).canonical := hid
            simp [hid', hcopy]

/-- **MSC volumes and their mode.**  Every registered volume has mode `MODE_MSC` if and only if the
memory of each copy that stays registered held it already. -/
theorem mode_detectDevicesMsc_iff {volumes : List VolumeProbe} {r : Registry} :
    (∀ v ∈ accepted drives volumes, ∃ d,
        (detectDevicesMsc drives (some volumes) r).2.device v.2.canonical = some d ∧
          d.mode = .msc) ↔
      ∀ id v, lastAccepted drives volumes id = some v → v.1.heap.mode = .msc := by
  have hdevice : ∀ {id : WStr} {v : VolumeProbe × UsbDevice},
      lastAccepted drives volumes id = some v →
        (detectDevicesMsc drives (some volumes) r).2.device id =
          some (UsbDevice.copyRef v.1.heap v.2) := fun {id v} h => by
    rw [detectDevicesMsc, device_mscLoop, h, Option.map_some, Option.some_or]
  constructor
  · intro h id v hv
    have hmem : v ∈ accepted drives volumes := List.mem_reverse.mp (List.mem_of_find?_eq_some hv)
    have hid : v.2.canonical = id := by simpa using List.find?_some hv
    obtain ⟨d, hd, hmode⟩ := h v hmem
    rw [hid, hdevice hv] at hd
    obtain rfl := Option.some.inj hd
    exact hmode
  · intro h v hv
    obtain ⟨w, hw⟩ : ∃ w, lastAccepted drives volumes v.2.canonical = some w :=
      Option.isSome_iff_exists.mp (List.find?_isSome.mpr ⟨v, List.mem_reverse.mpr hv, by simp⟩)
    exact ⟨_, hdevice hw, h _ _ hw⟩

end Msc

/-- The announced mode is the one the loop's copy happens to hold. -/
theorem mode_announceDevice_iff {jni : Jni} {fill loop : Raw} {usbdev : UsbDevice}
    (h : usbdev.mode = .msc ∨ usbdev.mode = .mtp) :
    (announceDevice jni fill loop usbdev).mode = some usbdev.mode ↔ loop.mode = usbdev.mode := by
  have hmode : (announceDevice jni fill loop usbdev).mode =
      if loop.mode = .msc then some .msc else if loop.mode = .mtp then some .mtp else none := rfl
  rw [hmode]
  rcases h with h | h <;> rw [h]
  · split
    · simp [*]
    · split <;> simp [*]
  · split
    · simp [*]
    · split <;> simp [*]

/-- A registered device is announced. -/
theorem announceDevice_mem_detectDevices {jni : Jni} {memory : WStr → Raw × Raw} {r : Registry}
    {id : WStr} {usbdev : UsbDevice} (h : r.device id = some usbdev) :
    announceDevice jni (memory id).1 (memory id).2 usbdev ∈ detectDevices jni memory r :=
  List.mem_filterMap.mpr
    ⟨⟨id, some usbdev⟩, AList.mem_lookup_iff.mp (Option.join_eq_some_iff.mp h), rfl⟩

/-- **Where copies are exact.**  The hand-written copies and the generated one keep every getter if
and only if the mode of the original is already in the copy's memory; a registered volume is in MSC
mode, and a device is announced in its own mode, under the same condition. -/
theorem copies_exact (raw : Raw) (v : UsbdeviceInfo) (d : UsbDevice) (drives : List (Option Int32))
    (volumes : List VolumeProbe) (jni : Jni) (memory : WStr → Raw × Raw) (r : Registry) :
    (UsbdeviceInfo.copyRef raw v = v ↔ raw.mode = v.mode) ∧
    (UsbdeviceInfo.copyPtr raw v = v ↔ raw.mode = v.mode) ∧
    ((UsbDevice.copyPtr raw d).getters = d.getters ↔ d.mode = .undef) ∧
    ((UsbDevice.copyRef raw d).getters = d.getters ↔ raw.mode = d.mode) ∧
    ((∀ v ∈ accepted drives volumes, ∃ d,
        (detectDevicesMsc drives (some volumes) r).2.device v.2.canonical = some d ∧
          d.mode = .msc) ↔
      ∀ id v, lastAccepted drives volumes id = some v → v.1.heap.mode = .msc) ∧
    (∀ (id : WStr) (usbdev : UsbDevice),
      r.device id = some usbdev → usbdev.mode = .msc ∨ usbdev.mode = .mtp →
        ∃ j ∈ detectDevices jni memory r, j = announceDevice jni (memory id).1 (memory id).2 usbdev ∧
          (j.mode = some usbdev.mode ↔ (memory id).2.mode = usbdev.mode)) :=
  ⟨UsbdeviceInfo.assignFrom_eq_iff, UsbdeviceInfo.assignFrom_eq_iff,
    UsbDevice.getters_copyPtr_eq_iff, UsbDevice.getters_copyRef_eq_iff,
    mode_detectDevicesMsc_iff,
    fun _ _ h hmode =>
      ⟨_, announceDevice_mem_detectDevices h, rfl, mode_announceDevice_iff hmode⟩⟩

/-- A removable volume behind a hub with one port, on a heap that holds no mode. -/
def VolumeProbe.sample : VolumeProbe where
  instanceId := true
  devicePath := some (wide "removablemedia")
  devidFromUsb := wide "usb\\vid_0e79&pid_1306\\s"
  deviceNumber := some (some 4)
  hub := .ok [{ failed := none, deviceIsHub := false, manuf := wide "m", serial := wide "s",
                name := wide "n", vid := 0x0e79, pid := 0x1306 }]
  volumeInformation := true
  stack := ⟨0, 0, 0, 0, 0, .undef⟩
  heap := ⟨0, 0, 0, 0, 0, .undef⟩

/-- With nothing but zeros on the heap, the copied record has no mode, nor has the volume. -/
theorem mode_lost_in_copy :
    UsbdeviceInfo.copyRef ⟨0, 0, 0, 0, 0, .undef⟩ (UsbDevice.emptyPlayer []).toUsbdeviceInfo ≠
        (UsbDevice.emptyPlayer []).toUsbdeviceInfo ∧
      ((detectDevicesMsc [] (some [.sample]) .empty).2.device (wide "removablemedia")).map
        (fun d => d.mode) = some .undef :=
  ⟨by decide, by decide⟩

/-- An MTP player is announced as such exactly when the loop's memory says so. -/
theorem copies_exact_onePlayer :
    ∃ j ∈ detectDevices .identity (fun _ => (⟨0, 0, 0, 0, 0, .undef⟩, ⟨0, 0, 0, 0, 0, .mtp⟩))
        onePlayer,
      j = announceDevice .identity ⟨0, 0, 0, 0, 0, .undef⟩ ⟨0, 0, 0, 0, 0, .mtp⟩
        (UsbDevice.emptyPlayer (wide "player")) ∧
      (j.mode = some .mtp ↔ DeviceMode.mtp = .mtp) :=
  (copies_exact ⟨0, 0, 0, 0, 0, .undef⟩ (UsbDevice.emptyPlayer []).toUsbdeviceInfo
    (UsbDevice.emptyPlayer []) [] [] .identity
    (fun _ => (⟨0, 0, 0, 0, 0, .undef⟩, ⟨0, 0, 0, 0, 0, .mtp⟩)) onePlayer).2.2.2.2.2
    (wide "player") (UsbDevice.emptyPlayer (wide "player")) rfl (.inr rfl)

end MtpRetag
