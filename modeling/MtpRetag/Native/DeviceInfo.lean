import MtpRetag.Native.Storage
import Mathlib.Data.List.AList

/-!
# Native/DeviceInfo — the device record, its constructors and the registry

`usbdevice_info` has sixteen members, one getter each.  Its constructors assign their members one by
one; a scalar member that is not assigned keeps what the memory held (`Raw`), a string member is
empty.  `assignFrom_eq_iff` says what the hand-written lists leave out.
-/

namespace MtpRetag

/-- The members of `usbdevice_info`.  Each getter returns its member. -/
structure UsbdeviceInfo where
  canonical : WStr
  name : WStr
  serial : WStr
  pid : WStr
  vid : WStr
  productid : Int32
  vendorid : Int32
  mountpoint : WStr
  manufacturer : WStr
  videodir : WStr
  audiodir : WStr
  pictdir : WStr
  idx : Int32
  totalsize : UInt64
  freesize : UInt64
  mode : DeviceMode
  deriving DecidableEq, Repr

/-- A `usbdevice`: the record, the `IWMDMDevice*`, and the tree behind `m_pRootStorage`.  A device
is in MTP mode only if `init_mtp` has fetched its root storage. -/
structure UsbDevice extends UsbdeviceInfo where
  mtpDevice : Option ℕ
  rootStorage : Storage

/-- The scalar members of a fresh object before its constructor assigns them. -/
structure Raw where
  productid : Int32
  vendorid : Int32
  idx : Int32
  totalsize : UInt64
  freesize : UInt64
  mode : DeviceMode
  deriving DecidableEq, Repr

namespace UsbdeviceInfo

/-- The object a constructor body starts from. -/
def unassigned (raw : Raw) : UsbdeviceInfo :=
  { canonical := [], name := [], serial := [], pid := [], vid := [], productid := raw.productid,
    vendorid := raw.vendorid, mountpoint := [], manufacturer := [], videodir := [], audiodir := [],
    pictdir := [], idx := raw.idx, totalsize := raw.totalsize, freesize := raw.freesize,
    mode := raw.mode }

/-- The list of assignments the three hand-written copies share. -/
def assignFrom (this newval : UsbdeviceInfo) : UsbdeviceInfo :=
  { this with
    canonical := newval.canonical
    name := newval.name
    serial := newval.serial
    pid := newval.pid
    vid := newval.vid
    productid := newval.productid
    vendorid := newval.vendorid
    idx := newval.idx
    mountpoint := newval.mountpoint
    totalsize := newval.totalsize
    freesize := newval.freesize
    manufacturer := newval.manufacturer
    videodir := newval.videodir
    audiodir := newval.audiodir
    pictdir := newval.pictdir }

/-- `usbdevice_info()`. -/
def init (raw : Raw) : UsbdeviceInfo := { unassigned raw with mode := .undef, idx := 0 }

/-- `usbdevice_info(usbdevice_info*)`. -/
def copyPtr (raw : Raw) (newval : UsbdeviceInfo) : UsbdeviceInfo := assignFrom (unassigned raw) newval

/-- `usbdevice_info(const usbdevice_info&)`. -/
def copyRef (raw : Raw) (newval : UsbdeviceInfo) : UsbdeviceInfo := assignFrom (unassigned raw) newval

/-- **The list copies all members but one.** -/
theorem assignFrom_eq_iff {this newval : UsbdeviceInfo} :
    assignFrom this newval = newval ↔ this.mode = newval.mode :=
  ⟨congrArg mode, fun h => by cases newval; cases h; rfl⟩

end UsbdeviceInfo

namespace UsbDevice

/-- `usbdevice()`. -/
def init (raw : Raw) : UsbDevice :=
  { UsbdeviceInfo.init raw with
    mode := .undef, idx := 0, mtpDevice := none, rootStorage := .node ⟨[], .folder, .empty, []⟩ [] }

/-- `usbdevice(usbdevice*)`, whose base is built by `usbdevice_info()`. -/
def copyPtr (raw : Raw) (newval : UsbDevice) : UsbDevice :=
  { UsbdeviceInfo.assignFrom (UsbdeviceInfo.init raw) newval.toUsbdeviceInfo with
    mtpDevice := newval.mtpDevice, rootStorage := .node ⟨[], .folder, .empty, []⟩ [] }

/-- The generated copy constructor that `new usbdevice(usbdev)` calls.  It copies its own members,
and its base through `usbdevice_info(const usbdevice_info&)`. -/
def copyRef (raw : Raw) (newval : UsbDevice) : UsbDevice :=
  { UsbdeviceInfo.copyRef raw newval.toUsbdeviceInfo with
    mtpDevice := newval.mtpDevice, rootStorage := newval.rootStorage }

/-- The getters of a `usbdevice`: those of its base and `get_mtpdevice`. -/
def getters (d : UsbDevice) : UsbdeviceInfo × Option ℕ := (d.toUsbdeviceInfo, d.mtpDevice)

/-- An MTP player without files. -/
def emptyPlayer (canonical : WStr) : UsbDevice :=
  { init ⟨0, 0, 0, 0, 0, .undef⟩ with canonical := canonical, mode := .mtp }

theorem getters_copyPtr_eq_iff {raw : Raw} {d : UsbDevice} :
    (copyPtr raw d).getters = d.getters ↔ d.mode = .undef := by
  have hbase : (UsbdeviceInfo.init raw).mode = .undef := rfl
  have hcopy : (copyPtr raw d).getters =
      (UsbdeviceInfo.assignFrom (UsbdeviceInfo.init raw) d.toUsbdeviceInfo, d.mtpDevice) := rfl
  rw [hcopy, getters, Prod.mk.injEq, UsbdeviceInfo.assignFrom_eq_iff, hbase]
  exact ⟨fun h => h.1.symm, fun h => ⟨h.symm, rfl⟩⟩

theorem getters_copyRef_eq_iff {raw : Raw} {d : UsbDevice} :
    (copyRef raw d).getters = d.getters ↔ raw.mode = d.mode := by
  have hcopy : (copyRef raw d).getters =
      (UsbdeviceInfo.assignFrom (UsbdeviceInfo.unassigned raw) d.toUsbdeviceInfo, d.mtpDevice) := rfl
  rw [hcopy, getters, Prod.mk.injEq, UsbdeviceInfo.assignFrom_eq_iff]
  exact ⟨fun h => h.1, fun h => ⟨h, rfl⟩⟩

end UsbDevice

/-! ## The registry -/

/-- `devicemanager::listDevices`.  An entry is a device pointer, possibly NULL; a device is stored
under its own canonical name. -/
structure Registry where
  map : AList fun _ : WStr => Option UsbDevice
  canonical_of_lookup : ∀ {devid : WStr} {usbdev : UsbDevice},
    map.lookup devid = some (some usbdev) → usbdev.canonical = devid

namespace Registry

/-- The device registered under a name. -/
def device (r : Registry) (devid : WStr) : Option UsbDevice := (r.map.lookup devid).join

def empty : Registry := ⟨∅, by simp⟩

/-- `listDevices[usbdev->get_canonical()] = usbdev`. -/
def store (r : Registry) (usbdev : UsbDevice) : Registry where
  map := r.map.insert usbdev.canonical (some usbdev)
  canonical_of_lookup {devid d} h := by
    by_cases hk : devid = usbdev.canonical
    · subst hk
      obtain rfl : usbdev = d := by simpa [AList.lookup_insert] using h
      rfl
    · exact r.canonical_of_lookup (by rwa [AList.lookup_insert_ne hk] at h)

/-- `devicemanager::get_devicebyid`.  The lookup by `operator[]` leaves a NULL entry behind for an
unknown name. -/
def getDevicebyid (r : Registry) (devid : WStr) : Option UsbDevice × Registry :=
  if h : r.map.lookup devid = none then
    (none, { map := r.map.insert devid none
             canonical_of_lookup {k d} hk := by
               by_cases hkd : k = devid
               · subst hkd
                 simp [AList.lookup_insert] at hk
               · exact r.canonical_of_lookup (by rwa [AList.lookup_insert_ne hkd] at hk) })
  else (r.device devid, r)

theorem device_store (r : Registry) (usbdev : UsbDevice) (devid : WStr) :
    (r.store usbdev).device devid =
      if devid = usbdev.canonical then some usbdev else r.device devid := by
  by_cases h : devid = usbdev.canonical
  · subst h
    simp [device, store, AList.lookup_insert]
  · simp [device, store, AList.lookup_insert_ne h, h]

theorem fst_getDevicebyid (r : Registry) (devid : WStr) :
    (r.getDevicebyid devid).1 = r.device devid := by
  rw [getDevicebyid]
  split
  case isTrue h => simp [device, h]
  case isFalse => rfl

end Registry

/-- The registry of one empty player. -/
def onePlayer : Registry := Registry.empty.store (UsbDevice.emptyPlayer (wide "player"))

/-- `get_internaldevice`: the native device of a Java `UsbDevice`, by its canonical name. -/
def getInternaldevice (jni : Jni) (listDevices : Registry) (jdev : WStr) : Option UsbDevice :=
  (listDevices.getDevicebyid (jni.ca2w jdev).1).1

/-- A found device is found again after its tree has changed. -/
theorem getInternaldevice_store {jni : Jni} {listDevices : Registry} {jdev : WStr}
    {usbdev : UsbDevice} (h : getInternaldevice jni listDevices jdev = some usbdev) (t : Storage) :
    getInternaldevice jni (listDevices.store { usbdev with rootStorage := t }) jdev =
      some { usbdev with rootStorage := t } := by
  rw [getInternaldevice, Registry.fst_getDevicebyid] at h ⊢
  have hcanonical : usbdev.canonical = (jni.ca2w jdev).1 :=
    listDevices.canonical_of_lookup (Option.join_eq_some_iff.mp h)
  rw [Registry.device_store, if_pos hcanonical.symm]

end MtpRetag
