import MtpRetag.Native.Initialised
import Mathlib.Data.List.Infix

/-!
# Native/Removable — which volumes `detect_devices_msc` lists

A volume is meant to be listed if it is a removable medium, has a device number and a USB parent,
and can be read.  The first test asks `find_first_of` for `removablemedia`, which looks for any one
of its letters; and while a volume that fails a test is skipped, one without a device path ends the
enumeration.

`listsRemovable_iff` says for which volumes the list is right all the same.
-/

namespace MtpRetag

namespace VolumeProbe

/-- The lower-case device path. -/
def devpath (v : VolumeProbe) : Option WStr := v.devicePath.map (List.map towlower)

/-- `get_descriptor_props` finds the USB parent. -/
def HasUsbParent (v : VolumeProbe) : Prop :=
  ∀ usbdev, (getDescriptorProps v.hub (v.devidFromUsb.map towlower) usbdev).1 = 0

/-- The tests that a volume of this path has to pass. -/
structure Passes (v : VolumeProbe) (id : WStr) : Prop where
  devpath : v.devpath = some id
  removable : wide "removablemedia" <:+: id
  deviceNumber : ∃ n, v.deviceNumber = some (some n)
  usbParent : v.HasUsbParent
  volumeInformation : v.volumeInformation = true

/-- All that `detect_devices_msc` asks of a volume besides its path. -/
structure Readable (v : VolumeProbe) : Prop where
  instanceId : v.instanceId = true
  deviceNumber : ∃ n, v.deviceNumber = some (some n) ∧ n ≠ -1
  usbParent : v.HasUsbParent
  volumeInformation : v.volumeInformation = true

end VolumeProbe

/-- The volumes before the first one that has an instance id and no device path. -/
def reachedVolumes (volumes : List VolumeProbe) : List VolumeProbe :=
  volumes.takeWhile fun v => v.instanceId = true → v.devicePath ≠ none

/-- Where one letter in the path is as good as the word, and nothing is hidden: of each path that
passes the tests, some volume is reached and can be read. -/
structure OnlyRemovable (volumes : List VolumeProbe) : Prop where
  word : ∀ v ∈ reachedVolumes volumes, v.Readable → ∀ id, v.devpath = some id →
    (∃ c ∈ id, c ∈ wide "removablemedia") → wide "removablemedia" <:+: id
  not_hidden : ∀ v ∈ volumes, ∀ id, v.Passes id →
    ∃ w ∈ reachedVolumes volumes, w.devpath = some id ∧ w.Readable

section Listed

variable {drives : List (Option Int32)} {volumes : List VolumeProbe} {v : VolumeProbe} {id : WStr}

theorem hasUsbParent_iff :
    v.HasUsbParent ↔
      (getDescriptorProps v.hub (v.devidFromUsb.map towlower) (.emptyPlayer [])).1 = 0 :=
  ⟨fun h => h _, fun h usbdev => (fst_getDescriptorProps _ _ usbdev).trans h⟩

/-- The volumes that are put in the list. -/
theorem exists_kept_eq_some_iff :
    (∃ n, v.kept = some (id, n)) ↔
      v.Readable ∧ v.devpath = some id ∧ ∃ c ∈ id, c ∈ wide "removablemedia" := by
  constructor
  · rintro ⟨n, h⟩
    rw [VolumeProbe.kept] at h
    split at h
    case isFalse => cases h
    case isTrue hid =>
      obtain ⟨path, hpath, h⟩ := Option.bind_eq_some_iff.mp h
      obtain ⟨m, hm, h⟩ := Option.bind_eq_some_iff.mp h
      split at h
      case isFalse => cases h
      case isTrue htests =>
        obtain ⟨rfl, -⟩ := Prod.mk.inj (Option.some.inj h)
        obtain ⟨hletter, hparent, hne, hinfo⟩ := htests
        exact ⟨⟨hid, ⟨m, Option.join_eq_some_iff.mp hm, hne⟩, hasUsbParent_iff.mpr hparent, hinfo⟩,
          congrArg (Option.map (List.map towlower)) hpath, by simpa using hletter⟩
  · rintro ⟨hread, hpath, hletter⟩
    obtain ⟨n, hn, hne⟩ := hread.deviceNumber
    obtain ⟨path, hdevicePath, rfl⟩ := Option.map_eq_some_iff.mp hpath
    refine ⟨n, ?_⟩
    rw [VolumeProbe.kept, if_pos hread.instanceId, hdevicePath, Option.bind_some, hn,
      Option.join_some, Option.bind_some]
    exact if_pos ⟨by simpa using hletter, hasUsbParent_iff.mp hread.usbParent, hne,
      hread.volumeInformation⟩

/-- **What MSC detection lists.** -/
theorem isSome_device_detectDevicesMsc_iff :
    ((detectDevicesMsc drives (some volumes) .empty).2.device id).isSome ↔
      ∃ v ∈ reachedVolumes volumes,
        v.Readable ∧ v.devpath = some id ∧ ∃ c ∈ id, c ∈ wide "removablemedia" := by
  have hempty : Registry.empty.device id = none := rfl
  rw [detectDevicesMsc, mscLoop_eq, device_foldl_store, hempty, Option.or_none,
    List.find?_isSome, ← reachedVolumes]
  simp only [← exists_kept_eq_some_iff, List.mem_reverse, List.mem_filterMap, decide_eq_true_eq]
  constructor
  · rintro ⟨d, ⟨v, hv, hd⟩, hid⟩
    have hkey : v.kept.map Prod.fst = some id := by
      rw [← hid, ← Option.map_some (f := fun d : UsbDevice => d.canonical), ← hd]
      exact (map_canonical_device drives (.msc v)).symm
    obtain ⟨⟨_, n⟩, hkept, rfl⟩ := Option.map_eq_some_iff.mp hkey
    exact ⟨v, hv, n, hkept⟩
  · rintro ⟨v, hv, n, hkept⟩
    have hkey : (v.device drives).map (fun d => d.canonical) = some id :=
      (map_canonical_device drives (.msc v)).trans (congrArg (Option.map Prod.fst) hkept)
    obtain ⟨d, hd, hid⟩ := Option.map_eq_some_iff.mp hkey
    exact ⟨d, ⟨v, hv, hd⟩, hid⟩

end Listed

/-- A path with the word in it has a letter of the word. -/
theorem exists_mem_removablemedia {id : WStr} (h : wide "removablemedia" <:+: id) :
    ∃ c ∈ id, c ∈ wide "removablemedia" :=
  have hr : (114 : WChar) ∈ wide "removablemedia" := by decide
  ⟨114, h.subset hr, hr⟩

/-- **Where the list of volumes is right.**  A path is listed exactly when a volume of that path
passes the tests, if and only if every volume listed for a letter has the whole word, and no volume
that passes is hidden. -/
theorem listsRemovable_iff (drives : List (Option Int32)) (volumes : List VolumeProbe) :
    (∀ id, ((detectDevicesMsc drives (some volumes) .empty).2.device id).isSome ↔
      ∃ v ∈ volumes, v.Passes id) ↔ OnlyRemovable volumes := by
  simp only [isSome_device_detectDevicesMsc_iff]
  constructor
  · intro h
    constructor
    · intro v hv hread id hpath hletter
      obtain ⟨w, -, hw⟩ := (h id).mp ⟨v, hv, hread, hpath, hletter⟩
      exact hw.removable
    · intro v hv id hpass
      obtain ⟨w, hw, hread, hpath, -⟩ := (h id).mpr ⟨v, hv, hpass⟩
      exact ⟨w, hw, hpath, hread⟩
  · intro h id
    constructor
    · rintro ⟨v, hv, hread, hpath, hletter⟩
      obtain ⟨n, hn, -⟩ := hread.deviceNumber
      exact ⟨v, (List.takeWhile_prefix _).subset hv, hpath, h.word v hv hread id hpath hletter,
        ⟨n, hn⟩, hread.usbParent, hread.volumeInformation⟩
    · rintro ⟨v, hv, hpass⟩
      obtain ⟨w, hw, hpath, hread⟩ := h.not_hidden v hv id hpass
      exact ⟨w, hw, hread, hpath, exists_mem_removablemedia hpass.removable⟩

/-- A volume on a fixed disk… -/
def VolumeProbe.fixed : VolumeProbe :=
  { VolumeProbe.sample with devicePath := some (wide "\\\\?\\storage#volume") }

/-- …and one whose device path cannot be read. -/
def VolumeProbe.pathless : VolumeProbe := { VolumeProbe.sample with devicePath := none }

theorem passes_sample : VolumeProbe.sample.Passes (wide "removablemedia") where
  devpath := by decide
  removable := List.infix_rfl
  deviceNumber := ⟨4, rfl⟩
  usbParent := hasUsbParent_iff.mpr (by decide)
  volumeInformation := rfl

/-- The fixed disk is listed, and a removable medium behind the other volume is not. -/
theorem volumes_mislisted :
    (((detectDevicesMsc [] (some [.fixed]) .empty).2.device (wide "\\\\?\\storage#volume")).isSome ∧
      ¬ ∃ v ∈ [VolumeProbe.fixed], v.Passes (wide "\\\\?\\storage#volume")) ∧
    (¬ ((detectDevicesMsc [] (some [.pathless, .sample]) .empty).2.device
        (wide "removablemedia")).isSome ∧
      ∃ v ∈ [VolumeProbe.pathless, .sample], v.Passes (wide "removablemedia")) := by
  refine ⟨⟨by decide, ?_⟩, by decide, .sample, by simp, passes_sample⟩
  rintro ⟨v, -, hpass⟩
  exact absurd hpass.removable (by decide)

end MtpRetag
