import MtpRetag.Native.Substorage
import MtpRetag.Native.DeviceInfo

/-!
# Native/Delete — `deleteFile` and `deleteFolder`

Both entry points refuse two spellings of the root, the empty path and `/`; `get_storage_bypath`
knows `//` as a third one.  `rejectsRoot_delete_iff` is the exact extent of the gap.
-/

namespace MtpRetag

/-- `IWMDMStorageControl::Delete`.  Deleting the root storage empties the device. -/
def deleteAt (t : Storage) (p : Pos) : Storage :=
  match p.getLast? with
  | none => .node t.val []
  | some i => t.modifyAt (fun n => .node n.val (n.children.eraseIdx i)) p.dropLast

/-- The result of a delete: `bResult`, the storage `Delete` was called on, and the tree. -/
structure DeleteResult where
  bResult : Bool
  target : Option Pos
  tree : Storage

/-- `usbdevice::delete_mtpitem`. -/
def deleteMtpitem (hr : Outcomes) (t : Storage) (fpath : WStr) : DeleteResult :=
  match getStorageBypath hr t (cStr fpath) with
  | (ret, some p) =>
    if ret = 0 ∧ hr (.queryControl p) = sOk then
      ⟨hr (.delete p) = sOk, some p, if Succeeded (hr (.delete p)) then deleteAt t p else t⟩
    else ⟨false, none, t⟩
  | (_, none) => ⟨false, none, t⟩

/-- What a delete entry point returns, the storage it calls `Delete` on, and the registry it
leaves. -/
structure DeleteCall where
  ret : Int64
  target : Option Pos
  listDevices : Option Registry

/-- The body of the two entry points.  They differ in the Windows call for a mounted volume. -/
def deleteItem (osDelete : WStr → Bool) (jni : Jni) (pasmgr : Option Registry) (hr : Outcomes)
    (jdev path : WStr) : DeleteCall :=
  match pasmgr with
  | none => ⟨Error.initDeviceManager.toInt64, none, none⟩
  | some listDevices =>
    match getInternaldevice jni listDevices jdev with
    | none =>
      ⟨Error.deviceNotMounted.toInt64, none, some (listDevices.getDevicebyid (jni.ca2w jdev).1).2⟩
    | some usbdev =>
      let sfpath := (jni.ca2w path).1
      if sfpath.length = 0 ∨ sfpath = [slash] then
        ⟨Error.wrongParameter.toInt64, none, some listDevices⟩
      else
        match usbdev.mode with
        | .msc =>
          let devicepath := sfpath.map fun c => if c = slash then backslash else c
          if osDelete (usbdev.mountpoint ++ devicepath) then
            ⟨Error.success.toInt64, none, some listDevices⟩
          else ⟨Error.unknown.toInt64, none, some listDevices⟩
        | .mtp =>
          let r := deleteMtpitem hr usbdev.rootStorage sfpath
          ⟨if r.bResult then Error.success.toInt64 else Error.unknown.toInt64, r.target,
            some (listDevices.store { usbdev with rootStorage := r.tree })⟩
        | _ => ⟨Error.deviceNotMounted.toInt64, none, some listDevices⟩

/-- The Windows calls on a mounted volume, as functions of the full path. -/
structure Volume where
  deleteFile : WStr → Bool
  removeDirectory : WStr → Bool

/-- `Java_jpmp_device_UsbDevice_deleteFile`. -/
def deleteFile (volume : Volume) (jni : Jni) (pasmgr : Option Registry) (hr : Outcomes)
    (jdev path : WStr) : DeleteCall :=
  deleteItem volume.deleteFile jni pasmgr hr jdev path

/-- `Java_jpmp_device_UsbDevice_deleteFolder`. -/
def deleteFolder (volume : Volume) (jni : Jni) (pasmgr : Option Registry) (hr : Outcomes)
    (jdev path : WStr) : DeleteCall :=
  deleteItem volume.removeDirectory jni pasmgr hr jdev path

/-! ## The root -/

/-- A delete call leaves the root alone: `Delete` is not called on it, and a path that resolves to
it is refused as a wrong parameter. -/
def RejectsRoot (hr : Outcomes) (t : Storage) (path : WStr) (r : DeleteCall) : Prop :=
  r.target ≠ some [] ∧
    ((getStorageBypath hr t path).2 = some [] → r.ret = Error.wrongParameter.toInt64)

section Root

variable {jni : Jni} {listDevices : Registry} {hr : Outcomes} {jdev path : WStr} {usbdev : UsbDevice}

/-- `Delete` is only called where the path leads. -/
theorem target_deleteMtpitem {t : Storage} {fpath : WStr} {p : Pos}
    (h : (deleteMtpitem hr t fpath).target = some p) :
    (getStorageBypath hr t (cStr fpath)).2 = some p := by
  rw [deleteMtpitem] at h
  rcases hget : getStorageBypath hr t (cStr fpath) with ⟨ret, _ | q⟩
  · simp [hget] at h
  · rw [hget] at h
    dsimp only at h
    split at h
    · exact h
    · simp at h

/-- A path the guard refuses. -/
theorem deleteItem_of_guard {osDelete : WStr → Bool}
    (hdev : getInternaldevice jni listDevices jdev = some usbdev)
    (hg : (jni.ca2w path).1 = [] ∨ (jni.ca2w path).1 = [slash]) :
    deleteItem osDelete jni (some listDevices) hr jdev path =
      ⟨Error.wrongParameter.toInt64, none, some listDevices⟩ := by
  have hg' : (jni.ca2w path).1.length = 0 ∨ (jni.ca2w path).1 = [slash] :=
    hg.imp_left List.length_eq_zero_iff.mpr
  rw [deleteItem]
  simp only [hdev, if_pos hg']

/-- On an MTP device, a path the guard lets through is deleted. -/
theorem deleteItem_of_mtp {osDelete : WStr → Bool}
    (hdev : getInternaldevice jni listDevices jdev = some usbdev) (hmtp : usbdev.mode = .mtp)
    (hg : ¬ ((jni.ca2w path).1 = [] ∨ (jni.ca2w path).1 = [slash])) :
    deleteItem osDelete jni (some listDevices) hr jdev path =
      ⟨if (deleteMtpitem hr usbdev.rootStorage (jni.ca2w path).1).bResult then
          Error.success.toInt64 else Error.unknown.toInt64,
        (deleteMtpitem hr usbdev.rootStorage (jni.ca2w path).1).target,
        some (listDevices.store { usbdev with
          rootStorage := (deleteMtpitem hr usbdev.rootStorage (jni.ca2w path).1).tree })⟩ := by
  have hg' : ¬ ((jni.ca2w path).1.length = 0 ∨ (jni.ca2w path).1 = [slash]) := fun h =>
    hg (h.imp_left List.length_eq_zero_iff.mp)
  rw [deleteItem]
  simp only [hdev, if_neg hg', hmtp]

/-- **The guard misses exactly one spelling of the root.** -/
theorem rejectsRoot_deleteItem_iff {osDelete : WStr → Bool}
    (hdev : getInternaldevice jni listDevices jdev = some usbdev) (hmtp : usbdev.mode = .mtp) :
    RejectsRoot hr usbdev.rootStorage (jni.ca2w path).1
        (deleteItem osDelete jni (some listDevices) hr jdev path) ↔
      (jni.ca2w path).1 ≠ [slash, slash] := by
  by_cases hg : (jni.ca2w path).1 = [] ∨ (jni.ca2w path).1 = [slash]
  · have hne : (jni.ca2w path).1 ≠ [slash, slash] := by
      rcases hg with h | h <;> simp [h]
    rw [deleteItem_of_guard hdev hg]
    exact iff_of_true ⟨by simp, fun _ => rfl⟩ hne
  · rw [deleteItem_of_mtp hdev hmtp hg]
    constructor
    · rintro ⟨-, hret⟩ hroot
      have hs : Error.success.toInt64 ≠ Error.wrongParameter.toInt64 := by decide
      have hu : Error.unknown.toInt64 ≠ Error.wrongParameter.toInt64 := by decide
      have := hret (getStorageBypath_eq_root_iff.mpr (.inr hroot))
      dsimp only at this
      split at this
      · exact hs this
      · exact hu this
    · intro hne
      have hroot : (getStorageBypath hr usbdev.rootStorage (jni.ca2w path).1).2 ≠ some [] := fun h =>
        (getStorageBypath_eq_root_iff.mp h).elim (fun h => hg (.inr h)) hne
      refine ⟨fun h => hroot ?_, fun h => absurd h hroot⟩
      have := target_deleteMtpitem h
      rwa [cStr_eq_self (jni.ca2w path).2] at this

/-- **`deleteFile` and `deleteFolder` spare the root of an MTP device for every path but `//`.** -/
theorem rejectsRoot_delete_iff (volume : Volume)
    (hdev : getInternaldevice jni listDevices jdev = some usbdev) (hmtp : usbdev.mode = .mtp) :
    (RejectsRoot hr usbdev.rootStorage (jni.ca2w path).1
        (deleteFile volume jni (some listDevices) hr jdev path) ↔
      (jni.ca2w path).1 ≠ [slash, slash]) ∧
    (RejectsRoot hr usbdev.rootStorage (jni.ca2w path).1
        (deleteFolder volume jni (some listDevices) hr jdev path) ↔
      (jni.ca2w path).1 ≠ [slash, slash]) :=
  ⟨rejectsRoot_deleteItem_iff hdev hmtp, rejectsRoot_deleteItem_iff hdev hmtp⟩

end Root

theorem rejectsRoot_delete_iff_onePlayer :
    getInternaldevice .identity onePlayer (wide "player") =
        some (UsbDevice.emptyPlayer (wide "player")) ∧
      (RejectsRoot (fun _ => sOk) (UsbDevice.emptyPlayer (wide "player")).rootStorage
          (Jni.identity.ca2w (wide "/Music")).1
          (deleteFile ⟨fun _ => true, fun _ => true⟩ .identity (some onePlayer) (fun _ => sOk)
            (wide "player") (wide "/Music")) ↔
        (Jni.identity.ca2w (wide "/Music")).1 ≠ [slash, slash]) :=
  ⟨rfl, (rejectsRoot_delete_iff ⟨fun _ => true, fun _ => true⟩ rfl rfl).1⟩

/-- Deleting the file `//` deletes the root storage. -/
theorem not_rejectsRoot_deleteFile_slashes :
    ¬ RejectsRoot (fun _ => sOk) (UsbDevice.emptyPlayer (wide "player")).rootStorage
      (Jni.identity.ca2w (wide "//")).1
      (deleteFile ⟨fun _ => true, fun _ => true⟩ .identity (some onePlayer) (fun _ => sOk)
        (wide "player") (wide "//")) :=
  fun h => h.1 rfl

end MtpRetag
