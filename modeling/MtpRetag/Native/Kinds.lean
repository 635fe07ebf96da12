import MtpRetag.Native.Bypath
import MtpRetag.Native.Delete

/-!
# Native/Kinds — `existFile` and `existFolder`, and what the delete calls make of them

Each of the four entry points has a branch for a mounted volume and one for the storage tree.  On a
volume, Windows deletes files and directories by different calls; on the tree, `deleteFile` and
`deleteFolder` share `delete_mtpitem`, which does not ask what it deletes.  The delete calls copy
the path that `CA2W` converts; the lookups keep a pointer to it, which outlives the conversion.

`respectsKinds_iff` is the exact condition under which a delete call removes what the lookup of its
own kind would have found, for whatever the pointer reads.
-/

namespace MtpRetag

/-! ## Mounted volumes -/

/-- The file type bits of `st_mode`. -/
inductive FileMode
  | ifreg
  | ifdir
  deriving DecidableEq, Repr

/-- A mounted volume before a delete: what lies at a full path, what `_wstat` says about it, and the
results the Windows calls would have.  `DeleteFile` deletes files only and `RemoveDirectory`
directories only; `_wstat` refuses a path with a backslash behind it. -/
structure MountedVolume extends Volume where
  itemAt : WStr → Option FileMode
  wstat : WStr → Option FileMode
  itemAt_of_deleteFile : ∀ path, deleteFile path = true → itemAt path = some .ifreg
  itemAt_of_removeDirectory : ∀ path, removeDirectory path = true → itemAt path = some .ifdir
  itemAt_of_wstat : ∀ path mode, wstat path = some mode → itemAt path = some mode
  wstat_of_itemAt : ∀ path mode, itemAt path = some mode → path.getLast? ≠ some backslash →
    wstat path = some mode

/-- `helperlib::exist_file_msc`. -/
def existFileMsc (volume : MountedVolume) (path : WStr) : Bool := volume.wstat path = some .ifreg

/-- `helperlib::exist_folder_msc`. -/
def existFolderMsc (volume : MountedVolume) (path : WStr) : Bool := volume.wstat path = some .ifdir

/-! ## Lookups -/

/-- The body of the two lookups.  `fpath` is what the pointer of that name reads where it is used:
the `CA2W` it points into was destroyed with its own statement.  Where nothing was written there
since, that is `jni.ca2w path`; from 128 characters on, it is heap memory that was given back. -/
def existItem (existMsc : WStr → Bool) (existMtp : Storage → WStr → Bool) (jni : Jni)
    (pasmgr : Option Registry) (jdev : WStr) (fpath : CString) : Int64 :=
  match pasmgr with
  | none => Error.initDeviceManager.toInt64
  | some listDevices =>
    match getInternaldevice jni listDevices jdev with
    | none => Error.deviceNotMounted.toInt64
    | some usbdev =>
      match usbdev.mode with
      | .msc =>
        let devicepath := fpath.1.map fun c => if c = slash then backslash else c
        if existMsc (usbdev.mountpoint ++ devicepath) then Error.success.toInt64
        else Error.fileNotfound.toInt64
      | .mtp =>
        if existMtp usbdev.rootStorage fpath.1 then Error.success.toInt64
        else Error.fileNotfound.toInt64
      | _ => Error.deviceNotMounted.toInt64

/-- `Java_jpmp_device_UsbDevice_existFile`. -/
def existFile (volume : MountedVolume) (jni : Jni) (pasmgr : Option Registry) (hr : Outcomes)
    (attributes : Attributes) (dwAttrib : UInt32) (jdev : WStr) (fpath : CString) : Int64 :=
  existItem (existFileMsc volume) (existFileMtp hr attributes dwAttrib) jni pasmgr jdev fpath

/-- `Java_jpmp_device_UsbDevice_existFolder`. -/
def existFolder (volume : MountedVolume) (jni : Jni) (pasmgr : Option Registry) (hr : Outcomes)
    (attributes : Attributes) (dwAttrib : UInt32) (jdev : WStr) (fpath : CString) : Int64 :=
  existItem (existFolderMsc volume) (existFolderMtp hr attributes dwAttrib) jni pasmgr jdev fpath

/-! ## Deleting what can be found -/

/-- The full path of an item on a mounted volume. -/
def fullDevicepath (usbdev : UsbDevice) (path : WStr) : WStr :=
  usbdev.mountpoint ++ path.map fun c => if c = slash then backslash else c

/-- What a delete call that succeeds could have found just before, by a lookup whose pointer reads
`asFile` or `asFolder`. -/
structure RespectsKinds (volume : MountedVolume) (jni : Jni) (pasmgr : Option Registry)
    (hr : Outcomes) (attributes : Attributes) (jdev path : WStr) (asFile asFolder : CString) :
    Prop where
  file : (deleteFile volume.toVolume jni pasmgr hr jdev path).ret = Error.success.toInt64 →
    ∀ dwAttrib, existFile volume jni pasmgr hr attributes dwAttrib jdev asFile =
      Error.success.toInt64
  folder : (deleteFolder volume.toVolume jni pasmgr hr jdev path).ret = Error.success.toInt64 →
    ∀ dwAttrib, existFolder volume jni pasmgr hr attributes dwAttrib jdev asFolder =
      Error.success.toInt64

/-- Where the call can delete what `path` leads to, what the pointer reads leads to an item of the
kind: by `_wstat` on a volume, by its attributes in the tree. -/
def LeadsToKind (volume : MountedVolume) (osDelete : WStr → Bool) (mode : FileMode) (attr : UInt32)
    (hr : Outcomes) (attributes : Attributes) (usbdev : UsbDevice) (path fpath : WStr) : Prop :=
  match usbdev.mode with
  | .msc => osDelete (fullDevicepath usbdev path) = true →
      volume.wstat (fullDevicepath usbdev fpath) = some mode
  | .mtp => ∀ p, lookupPath usbdev.rootStorage path = some p →
      (∀ c ∈ callsTo [] p, Succeeded (hr c)) → hr (.queryControl p) = sOk → hr (.delete p) = sOk →
      ∃ q, lookupPath usbdev.rootStorage fpath = some q ∧ (∀ c ∈ callsTo [] q, Succeeded (hr c)) ∧
        Succeeded (hr (.getAttributes q)) ∧ hasAttr (attributes q) attr = true
  | _ => True

/-- On a volume, `_wstat` reads the path that the call can delete; in the tree, the item that the
path leads to and the device lets be deleted has the attribute of the kind. -/
def HasKind (volume : MountedVolume) (osDelete : WStr → Bool) (attr : UInt32) (hr : Outcomes)
    (attributes : Attributes) (usbdev : UsbDevice) (path : WStr) : Prop :=
  match usbdev.mode with
  | .msc => osDelete (fullDevicepath usbdev path) = true →
      volume.wstat (fullDevicepath usbdev path) ≠ none
  | .mtp => ∀ p, lookupPath usbdev.rootStorage path = some p →
      (∀ c ∈ callsTo [] p, Succeeded (hr c)) → hr (.queryControl p) = sOk → hr (.delete p) = sOk →
      Succeeded (hr (.getAttributes p)) ∧ hasAttr (attributes p) attr = true
  | _ => True

section Kind

variable {volume : MountedVolume} {jni : Jni} {listDevices : Registry} {hr : Outcomes}
  {attributes : Attributes} {jdev path : WStr} {fpath : CString} {usbdev : UsbDevice}

/-- What `delete_mtpitem` deletes: whatever the path leads to. -/
theorem deleteMtpitem_eq_true_iff {t : Storage} {fpath : WStr} (h0 : (0 : WChar) ∉ fpath) :
    (deleteMtpitem hr t fpath).bResult = true ↔
      ∃ p, lookupPath t fpath = some p ∧ (∀ c ∈ callsTo [] p, Succeeded (hr c)) ∧
        hr (.queryControl p) = sOk ∧ hr (.delete p) = sOk := by
  rw [deleteMtpitem, cStr_eq_self h0]
  constructor
  · intro h
    rcases hget : getStorageBypath hr t fpath with ⟨ret, _ | p⟩
    · simp [hget] at h
    · rw [hget] at h
      dsimp only at h
      split at h
      case isTrue hc =>
        rw [hc.1, getStorageBypath_eq_iff h0] at hget
        exact ⟨p, hget.1, hget.2, hc.2, of_decide_eq_true h⟩
      case isFalse => exact absurd h Bool.false_ne_true
  · rintro ⟨p, hp, hcalls, hcontrol, hdelete⟩
    rw [(getStorageBypath_eq_iff h0).mpr ⟨hp, hcalls⟩]
    simp [hcontrol, hdelete]

/-- A lookup that does not depend on what an unassigned variable holds. -/
theorem forall_existMtp_iff {t : Storage} {fpath : WStr} (h0 : (0 : WChar) ∉ fpath) {attr : UInt32}
    (hattr : hasAttr 0 attr = false) :
    (∀ dwAttrib, existMtp attr hr attributes dwAttrib t fpath = true) ↔
      ∃ p, lookupPath t fpath = some p ∧ (∀ c ∈ callsTo [] p, Succeeded (hr c)) ∧
        Succeeded (hr (.getAttributes p)) ∧ hasAttr (attributes p) attr = true := by
  simp only [existMtp_eq_true_iff, cStr_eq_self h0]
  constructor
  · intro h
    obtain ⟨p, hp, hcalls, hzero⟩ := h 0
    by_cases hget : Succeeded (hr (.getAttributes p))
    · rw [if_pos hget] at hzero
      exact ⟨p, hp, hcalls, hget, hzero⟩
    · rw [if_neg hget, hattr] at hzero
      exact absurd hzero Bool.false_ne_true
  · rintro ⟨p, hp, hcalls, hget, hkind⟩ dwAttrib
    exact ⟨p, hp, hcalls, by rwa [if_pos hget]⟩

/-- Deleting from the tree what a lookup of that kind finds. -/
theorem delete_respects_mtp_iff {t : Storage} {path fpath : WStr} (h0 : (0 : WChar) ∉ path)
    (h0' : (0 : WChar) ∉ fpath) {attr : UInt32} (hattr : hasAttr 0 attr = false) :
    ((deleteMtpitem hr t path).bResult = true →
        ∀ dwAttrib, existMtp attr hr attributes dwAttrib t fpath = true) ↔
      ∀ p, lookupPath t path = some p → (∀ c ∈ callsTo [] p, Succeeded (hr c)) →
        hr (.queryControl p) = sOk → hr (.delete p) = sOk →
        ∃ q, lookupPath t fpath = some q ∧ (∀ c ∈ callsTo [] q, Succeeded (hr c)) ∧
          Succeeded (hr (.getAttributes q)) ∧ hasAttr (attributes q) attr = true := by
  rw [deleteMtpitem_eq_true_iff h0, forall_existMtp_iff h0' hattr]
  constructor
  · intro h p hp hcalls hcontrol hdelete
    exact h ⟨p, hp, hcalls, hcontrol, hdelete⟩
  · rintro h ⟨p, hp, hcalls, hcontrol, hdelete⟩
    exact h p hp hcalls hcontrol hdelete

/-- **With the path still there,** the condition is about the item alone. -/
theorem leadsToKind_self_iff {osDelete : WStr → Bool} {mode : FileMode} {attr : UInt32}
    {path : WStr} (hos : ∀ full, osDelete full = true → volume.itemAt full = some mode) :
    LeadsToKind volume osDelete mode attr hr attributes usbdev path path ↔
      HasKind volume osDelete attr hr attributes usbdev path := by
  rw [LeadsToKind, HasKind]
  cases usbdev.mode with
  | msc =>
    refine forall_congr' fun hdelete => ⟨fun h => by simp [h], fun h => ?_⟩
    obtain ⟨mode', hmode⟩ := Option.ne_none_iff_exists'.mp h
    have hitem := (volume.itemAt_of_wstat _ mode' hmode).symm.trans (hos _ hdelete)
    rw [hmode, Option.some.inj hitem]
  | mtp =>
    constructor
    · intro h p hp hcalls hcontrol hdelete
      obtain ⟨q, hq, -, hkind⟩ := h p hp hcalls hcontrol hdelete
      obtain rfl : p = q := Option.some.inj (hp.symm.trans hq)
      exact hkind
    · intro h p hp hcalls hcontrol hdelete
      exact ⟨p, hp, hcalls, h p hp hcalls hcontrol hdelete⟩
  | undef => exact Iff.rfl
  | other raw => exact Iff.rfl

/-- The device in one of the two modes that a delete call asks, for a path its guard lets
through. -/
def Asks (jni : Jni) (pasmgr : Option Registry) (jdev path : WStr) (usbdev : UsbDevice) : Prop :=
  ∃ listDevices, pasmgr = some listDevices ∧ getInternaldevice jni listDevices jdev = some usbdev ∧
    (usbdev.mode = .msc ∨ usbdev.mode = .mtp) ∧
    ¬ ((jni.ca2w path).1 = [] ∨ (jni.ca2w path).1 = [slash])

theorem ret_deleteItem_of_not_asks {osDelete : WStr → Bool} {pasmgr : Option Registry}
    (h : ∀ usbdev, ¬ Asks jni pasmgr jdev path usbdev) :
    (deleteItem osDelete jni pasmgr hr jdev path).ret ≠ Error.success.toInt64 := by
  have hinit : Error.initDeviceManager.toInt64 ≠ Error.success.toInt64 := by decide
  have hmounted : Error.deviceNotMounted.toInt64 ≠ Error.success.toInt64 := by decide
  have hwrong : Error.wrongParameter.toInt64 ≠ Error.success.toInt64 := by decide
  cases pasmgr with
  | none => exact hinit
  | some listDevices =>
    cases hdev : getInternaldevice jni listDevices jdev with
    | none => simpa only [deleteItem, hdev] using hmounted
    | some usbdev =>
      by_cases hg : (jni.ca2w path).1 = [] ∨ (jni.ca2w path).1 = [slash]
      · rw [deleteItem_of_guard hdev hg]
        exact hwrong
      have hasks (hmode : usbdev.mode = .msc ∨ usbdev.mode = .mtp) :
          Asks jni (some listDevices) jdev path usbdev := ⟨listDevices, rfl, hdev, hmode, hg⟩
      cases hmode : usbdev.mode with
      | msc => exact absurd (hasks (.inl hmode)) (h usbdev)
      | mtp => exact absurd (hasks (.inr hmode)) (h usbdev)
      | undef =>
        simpa only [deleteItem, hdev, List.length_eq_zero_iff, if_neg hg, hmode] using hmounted
      | other raw =>
        simpa only [deleteItem, hdev, List.length_eq_zero_iff, if_neg hg, hmode] using hmounted

theorem ret_deleteItem_of_msc {osDelete : WStr → Bool}
    (hdev : getInternaldevice jni listDevices jdev = some usbdev) (hmsc : usbdev.mode = .msc)
    (hg : ¬ ((jni.ca2w path).1 = [] ∨ (jni.ca2w path).1 = [slash])) :
    (deleteItem osDelete jni (some listDevices) hr jdev path).ret = Error.success.toInt64 ↔
      osDelete (fullDevicepath usbdev (jni.ca2w path).1) = true := by
  have hunknown : Error.unknown.toInt64 ≠ Error.success.toInt64 := by decide
  rw [deleteItem, fullDevicepath]
  simp only [hdev, List.length_eq_zero_iff, if_neg hg, hmsc]
  split <;> simp [*]

theorem ret_deleteItem_of_mtp {osDelete : WStr → Bool}
    (hdev : getInternaldevice jni listDevices jdev = some usbdev) (hmtp : usbdev.mode = .mtp)
    (hg : ¬ ((jni.ca2w path).1 = [] ∨ (jni.ca2w path).1 = [slash])) :
    (deleteItem osDelete jni (some listDevices) hr jdev path).ret = Error.success.toInt64 ↔
      (deleteMtpitem hr usbdev.rootStorage (jni.ca2w path).1).bResult = true := by
  have hunknown : Error.unknown.toInt64 ≠ Error.success.toInt64 := by decide
  rw [deleteItem_of_mtp hdev hmtp hg]
  dsimp only
  split <;> simp [*]

theorem existItem_of_msc {existMsc : WStr → Bool} {existMtp : Storage → WStr → Bool}
    (hdev : getInternaldevice jni listDevices jdev = some usbdev) (hmsc : usbdev.mode = .msc) :
    existItem existMsc existMtp jni (some listDevices) jdev fpath = Error.success.toInt64 ↔
      existMsc (fullDevicepath usbdev fpath.1) = true := by
  have hnotfound : Error.fileNotfound.toInt64 ≠ Error.success.toInt64 := by decide
  rw [existItem, fullDevicepath]
  simp only [hdev, hmsc]
  split <;> simp [*]

theorem existItem_of_mtp {existMsc : WStr → Bool} {existMtp : Storage → WStr → Bool}
    (hdev : getInternaldevice jni listDevices jdev = some usbdev) (hmtp : usbdev.mode = .mtp) :
    existItem existMsc existMtp jni (some listDevices) jdev fpath = Error.success.toInt64 ↔
      existMtp usbdev.rootStorage fpath.1 = true := by
  have hnotfound : Error.fileNotfound.toInt64 ≠ Error.success.toInt64 := by decide
  rw [existItem]
  simp only [hdev, hmtp]
  split <;> simp [*]

/-- **One kind.**  A delete call and the lookup of its kind, in both modes. -/
theorem deleteItem_respects_iff (volume : MountedVolume) (jni : Jni) (pasmgr : Option Registry)
    (hr : Outcomes) (attributes : Attributes) (jdev path : WStr) (fpath : CString) (attr : UInt32)
    (osDelete : WStr → Bool) {existMsc : WStr → Bool} {mode : FileMode}
    (hattr : hasAttr 0 attr = false)
    (hexist : ∀ full, existMsc full = decide (volume.wstat full = some mode)) :
    ((deleteItem osDelete jni pasmgr hr jdev path).ret = Error.success.toInt64 →
        ∀ dwAttrib, existItem existMsc (existMtp attr hr attributes dwAttrib) jni pasmgr jdev
          fpath = Error.success.toInt64) ↔
      ∀ usbdev, Asks jni pasmgr jdev path usbdev →
        LeadsToKind volume osDelete mode attr hr attributes usbdev (jni.ca2w path).1 fpath.1 := by
  by_cases hasks : ∃ usbdev, Asks jni pasmgr jdev path usbdev
  case neg =>
    have hnot := not_exists.mp hasks
    exact iff_of_true (fun h => absurd h (ret_deleteItem_of_not_asks hnot))
      fun usbdev h => absurd h (hnot usbdev)
  obtain ⟨usbdev, listDevices, rfl, hdev, hmode, hg⟩ := hasks
  have honly : (∀ d, Asks jni (some listDevices) jdev path d →
      LeadsToKind volume osDelete mode attr hr attributes d (jni.ca2w path).1 fpath.1) ↔
      LeadsToKind volume osDelete mode attr hr attributes usbdev (jni.ca2w path).1 fpath.1 := by
    refine ⟨fun h => h usbdev ⟨listDevices, rfl, hdev, hmode, hg⟩, ?_⟩
    rintro h d ⟨listDevices', hreg, hd, -⟩
    obtain rfl := Option.some.inj hreg
    obtain rfl : usbdev = d := Option.some.inj (hdev.symm.trans hd)
    exact h
  rw [honly, LeadsToKind]
  rcases hmode with hmode | hmode
  · simp only [ret_deleteItem_of_msc hdev hmode hg, existItem_of_msc hdev hmode, hexist, hmode,
      decide_eq_true_eq, forall_const]
  · simp only [ret_deleteItem_of_mtp hdev hmode hg, existItem_of_mtp hdev hmode, hmode]
    exact delete_respects_mtp_iff (jni.ca2w path).2 fpath.2 hattr

end Kind

/-- **When deletion respects the kind.**  Both delete calls remove only what the lookup of their
kind finds exactly when the pointer of the lookup reads a path to an item of that kind.  Where it
still reads the path that was passed, that is when the item that can be deleted has the kind, in the
tree by its attribute and on a volume for `_wstat`. -/
theorem respectsKinds_iff (volume : MountedVolume) (jni : Jni) (pasmgr : Option Registry)
    (hr : Outcomes) (attributes : Attributes) (jdev path : WStr) (asFile asFolder : CString) :
    (RespectsKinds volume jni pasmgr hr attributes jdev path asFile asFolder ↔
      ∀ usbdev, Asks jni pasmgr jdev path usbdev →
        LeadsToKind volume volume.deleteFile .ifreg attrFile hr attributes usbdev (jni.ca2w path).1
            asFile.1 ∧
          LeadsToKind volume volume.removeDirectory .ifdir attrFolder hr attributes usbdev
            (jni.ca2w path).1 asFolder.1) ∧
    (RespectsKinds volume jni pasmgr hr attributes jdev path (jni.ca2w path) (jni.ca2w path) ↔
      ∀ usbdev, Asks jni pasmgr jdev path usbdev →
        HasKind volume volume.deleteFile attrFile hr attributes usbdev (jni.ca2w path).1 ∧
          HasKind volume volume.removeDirectory attrFolder hr attributes usbdev
            (jni.ca2w path).1) := by
  have hboth (asFile asFolder : CString) :
      RespectsKinds volume jni pasmgr hr attributes jdev path asFile asFolder ↔
        ∀ usbdev, Asks jni pasmgr jdev path usbdev →
          LeadsToKind volume volume.deleteFile .ifreg attrFile hr attributes usbdev
              (jni.ca2w path).1 asFile.1 ∧
            LeadsToKind volume volume.removeDirectory .ifdir attrFolder hr attributes usbdev
              (jni.ca2w path).1 asFolder.1 := by
    have hfile := deleteItem_respects_iff volume jni pasmgr hr attributes jdev path asFile attrFile
      volume.deleteFile (by decide) fun full => (rfl : existFileMsc volume full = _)
    have hfolder := deleteItem_respects_iff volume jni pasmgr hr attributes jdev path asFolder
      attrFolder volume.removeDirectory (by decide)
      fun full => (rfl : existFolderMsc volume full = _)
    constructor
    · exact fun h usbdev hasks => ⟨hfile.mp h.file usbdev hasks, hfolder.mp h.folder usbdev hasks⟩
    · exact fun h => ⟨hfile.mpr fun usbdev hasks => (h usbdev hasks).1,
        hfolder.mpr fun usbdev hasks => (h usbdev hasks).2⟩
  refine ⟨hboth asFile asFolder, (hboth _ _).trans ?_⟩
  simp only [leadsToKind_self_iff volume.itemAt_of_deleteFile,
    leadsToKind_self_iff volume.itemAt_of_removeDirectory]

/-- A system without a mounted volume. -/
def noVolume : MountedVolume where
  deleteFile _ := false
  removeDirectory _ := false
  itemAt _ := none
  wstat _ := none
  itemAt_of_deleteFile _ h := absurd h Bool.false_ne_true
  itemAt_of_removeDirectory _ h := absurd h Bool.false_ne_true
  itemAt_of_wstat _ _ h := by simp at h
  wstat_of_itemAt _ _ h := by simp at h

/-- `deleteFile` removes the music folder of an MTP player, which `existFile` does not find,
although its pointer reads the path. -/
theorem not_respectsKinds_folder :
    ¬ RespectsKinds noVolume .identity (some (Registry.empty.store musicPlayer)) (fun _ => sOk)
      (fun p => if p = [0, 0] then attrFile else attrFolder) (wide "player") (wide "/Music")
      (Jni.identity.ca2w (wide "/Music")) (Jni.identity.ca2w (wide "/Music")) := by
  intro h
  have hexist := h.file rfl 0
  exact absurd hexist (by decide)

/-! ## Mounted volumes respect kinds -/

/-- A path without a separator behind it has none behind its full path. -/
theorem getLast?_fullDevicepath_ne {usbdev : UsbDevice} {path : WStr} (hne : path ≠ [])
    (hlast : path.getLast? ≠ some slash ∧ path.getLast? ≠ some backslash) :
    (fullDevicepath usbdev path).getLast? ≠ some backslash := by
  obtain ⟨init, c, rfl⟩ := (List.eq_nil_or_concat' path).resolve_left hne
  simp only [List.getLast?_append, List.getLast?_singleton, Option.some_or, ne_eq,
    Option.some.injEq] at hlast
  simp [fullDevicepath, hlast.1, hlast.2]

/-- **On a mounted volume** both calls respect the kind of every item whose path has no separator
behind it. -/
theorem hasKind_of_msc (volume : MountedVolume) {osDelete : WStr → Bool} {mode : FileMode}
    (hos : ∀ full, osDelete full = true → volume.itemAt full = some mode) (attr : UInt32)
    (hr : Outcomes) (attributes : Attributes) {usbdev : UsbDevice} (hmsc : usbdev.mode = .msc)
    {path : WStr} (hne : path ≠ [])
    (hlast : path.getLast? ≠ some slash ∧ path.getLast? ≠ some backslash) :
    HasKind volume osDelete attr hr attributes usbdev path := by
  rw [HasKind, hmsc]
  intro hdelete
  rw [volume.wstat_of_itemAt _ mode (hos _ hdelete) (getLast?_fullDevicepath_ne hne hlast)]
  exact Option.some_ne_none mode

end MtpRetag
