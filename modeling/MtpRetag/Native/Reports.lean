import MtpRetag.Native.Initialised

/-!
# Native/Reports — which failures of a scan its caller sees

A code of a scan is zero or not; it *reports* when it is zero only if the set-up and both detections
succeeded.  The code of `refresh_devices` is that of MSC detection alone, the code of
`detectDevices` that of its JNI lookups.

`scan_reports_iff` is the exact condition under which a failure is seen by the caller.
-/

namespace MtpRetag

/-! ## Reports -/

/-- Set-up and both detections succeed. -/
def AllSucceed (c : SetupCalls) (scan : ScanCalls) : Prop :=
  c.Succeeds ∧ scan.wmdm.Succeeds ∧ MscSucceeds scan.devInfo

/-- The call ends normally, with a zero only if all is well. -/
def Reports {α : Type*} [Zero α] (outcome : Except NullCall α) (ok : Prop) : Prop :=
  ∃ ret, outcome = .ok ret ∧ (ret = 0 → ok)

/-- Every lookup that `detectDevices` makes after this scan succeeds: those it always makes, and
those for each name that the scan registers.  The mode it sets is the one its copy finds in
memory. -/
def JniLookups.ServesScan (env : JniLookups) (memory : WStr → Raw × Raw) (scan : ScanCalls) :
    Prop :=
  env.findClass = true ∧ env.getMethodID "<init>" = true ∧
    ∀ id, scan.lastOrigin id ≠ none → env.getMethodID "addDevice" = true ∧
      env.newObject id = true ∧
        ∀ setter ∈ usbDeviceSetters ++ modeSetter (memory id).2.mode, env.getMethodID setter = true

section Reports

variable {env : JniLookups} {memory : WStr → Raw × Raw} {scan : ScanCalls} {m m' : DeviceManager}
  {ret : Int32}

/-- The records of the loop: one for each known name. -/
theorem mem_localCopies_iff (memory : WStr → Raw × Raw) (r : Registry) (info : UsbdeviceInfo) :
    info ∈ localCopies memory r ↔ ∃ id usbdev, r.device id = some usbdev ∧
      info = UsbdeviceInfo.copyRef (memory id).2 (fillInfo (memory id).1 usbdev) := by
  rw [localCopies, List.mem_filterMap]
  constructor
  · rintro ⟨⟨id, entry⟩, hmem, hinfo⟩
    obtain ⟨usbdev, rfl, rfl⟩ := Option.map_eq_some_iff.mp hinfo
    exact ⟨id, usbdev, Option.join_eq_some_iff.mpr (AList.mem_lookup_iff.mpr hmem), rfl⟩
  · rintro ⟨id, usbdev, hdevice, rfl⟩
    exact ⟨⟨id, some usbdev⟩, AList.mem_lookup_iff.mp (Option.join_eq_some_iff.mp hdevice), rfl⟩

/-- What the loop looks up for one of them. -/
theorem serves_copyRef_iff (raw raw' : Raw) (usbdev : UsbDevice) :
    env.serves (UsbdeviceInfo.copyRef raw (fillInfo raw' usbdev)) = true ↔
      env.newObject usbdev.canonical = true ∧
        ∀ setter ∈ usbDeviceSetters ++ modeSetter raw.mode, env.getMethodID setter = true := by
  rw [JniLookups.serves, decide_eq_true_eq]
  rfl

/-- The names that a scan leaves known are those it registers. -/
theorem device_refreshDevices_ne_none (h : m.refreshDevices scan = .ok (ret, m')) (id : WStr) :
    m'.listDevices.device id ≠ none ↔ scan.lastOrigin id ≠ none := by
  rw [device_refreshDevices h]
  cases hlast : scan.lastOrigin id with
  | none => simp
  | some o =>
    have hcanonical : o.canonical = some id := by simpa using List.find?_some hlast
    rw [← map_canonical_device scan.drives] at hcanonical
    obtain ⟨usbdev, hdevice, -⟩ := Option.map_eq_some_iff.mp hcanonical
    simp [hdevice]

/-- **The lookups of `detectDevices`**, from what the scan meets. -/
theorem servesAll_localCopies_iff (h : m.refreshDevices scan = .ok (ret, m')) :
    env.ServesAll (localCopies memory m'.listDevices) ↔ env.ServesScan memory scan := by
  rw [JniLookups.ServesAll, JniLookups.ServesScan]
  refine and_congr_right fun _ => and_congr_right fun _ => ?_
  constructor
  · rintro ⟨hadd, hserves⟩ id hid
    obtain ⟨usbdev, hdevice⟩ := Option.ne_none_iff_exists'.mp
      ((device_refreshDevices_ne_none h id).mpr hid)
    have hmem := (mem_localCopies_iff memory m'.listDevices _).mpr ⟨id, usbdev, hdevice, rfl⟩
    have hcanonical : usbdev.canonical = id :=
      m'.listDevices.canonical_of_lookup (Option.join_eq_some_iff.mp hdevice)
    have hserved := (serves_copyRef_iff _ _ usbdev).mp (hserves _ hmem)
    rw [hcanonical] at hserved
    exact ⟨hadd (List.ne_nil_of_mem hmem), hserved⟩
  · intro hscan
    have hknown : ∀ id usbdev, m'.listDevices.device id = some usbdev → scan.lastOrigin id ≠ none :=
      fun id usbdev hdevice => (device_refreshDevices_ne_none h id).mp (by simp [hdevice])
    constructor
    · intro hne
      obtain ⟨info, hinfo⟩ := List.exists_mem_of_ne_nil _ hne
      obtain ⟨id, usbdev, hdevice, -⟩ := (mem_localCopies_iff _ _ _).mp hinfo
      exact (hscan id (hknown id usbdev hdevice)).1
    · intro info hinfo
      obtain ⟨id, usbdev, hdevice, rfl⟩ := (mem_localCopies_iff _ _ _).mp hinfo
      obtain rfl : usbdev.canonical = id :=
        m'.listDevices.canonical_of_lookup (Option.join_eq_some_iff.mp hdevice)
      exact (serves_copyRef_iff _ _ usbdev).mpr (hscan _ (hknown _ usbdev hdevice)).2

end Reports

/-- **What a scan reports.**  For a manager that has scanned before or not: `refresh_devices`
reports every failure if and only if the set-up succeeded and MTP detection succeeds or MSC
detection does not; `detectDevices` does if and only if the set-up succeeded and, where no lookup
fails, both detections succeed. -/
theorem scan_reports_iff (c : SetupCalls) (listDevices : Registry) (scan : ScanCalls) (jni : Jni)
    (env : JniLookups) (memory : WStr → Raw × Raw) :
    (Reports ((DeviceManager.refreshDevices ⟨(setupMtp c).1, (setupMtp c).2, listDevices⟩ scan).map
        Prod.fst) (AllSucceed c scan) ↔
      c.Succeeds ∧ (MscSucceeds scan.devInfo → scan.wmdm.Succeeds)) ∧
    (Reports ((DeviceManager.detectDevices jni env memory
        (some ⟨(setupMtp c).1, (setupMtp c).2, listDevices⟩) scan).map DetectCall.ret)
        (AllSucceed c scan) ↔
      c.Succeeds ∧
        (env.ServesScan memory scan → scan.wmdm.Succeeds ∧ MscSucceeds scan.devInfo)) := by
  rcases refreshDevices_cases ⟨(setupMtp c).1, (setupMtp c).2, listDevices⟩ scan with
    ⟨hmgr, herr⟩ | ⟨hmgr, ret, m', hok, hret⟩
  · have hsetup : ¬ c.Succeeds := fun h => by simp [(setupMtp_iff c).mpr h] at hmgr
    have hcall : DeviceManager.detectDevices jni env memory
        (some ⟨(setupMtp c).1, (setupMtp c).2, listDevices⟩) scan = .error .pWMDevMgr := by
      rw [DeviceManager.detectDevices, herr]
    rw [herr, hcall]
    simp [Reports, Except.map, hsetup]
  · have hsetup : c.Succeeds := (setupMtp_iff c).mp hmgr
    obtain ⟨call, hcall, hcallret⟩ := detectDevices_cases jni env memory hok
    rw [servesAll_localCopies_iff hok] at hcallret
    rw [hok, hcall]
    constructor
    · simp only [Reports, Except.map, Except.ok.injEq, exists_eq_left', hret, AllSucceed, hsetup,
        true_and]
      exact ⟨fun h hmsc => (h hmsc).1, fun h hmsc => ⟨h hmsc, hmsc⟩⟩
    · simp [Reports, Except.map, hcallret, AllSucceed, hsetup]

/-- Two failures that stay unseen: a failed set-up, after which a scan calls through NULL, and a
failed MTP detection, which both functions report as a success. -/
theorem scan_hides_failures :
    ¬ Reports ((DeviceManager.refreshDevices (.new { SetupCalls.sample with authenticate := eFail })
        .sample).map Prod.fst)
        (AllSucceed { SetupCalls.sample with authenticate := eFail } .sample) ∧
    (DeviceManager.refreshDevices (.new .sample)
        { ScanCalls.sample with wmdm := ⟨true, eFail, sOk, []⟩ }).map Prod.fst = .ok 0 ∧
    (DeviceManager.detectDevices .identity ⟨true, fun _ => true, fun _ => true⟩
        (fun _ => (⟨0, 0, 0, 0, 0, .undef⟩, ⟨0, 0, 0, 0, 0, .undef⟩)) (some (.new .sample))
        { ScanCalls.sample with wmdm := ⟨true, eFail, sOk, []⟩ }).map DetectCall.ret = .ok 0 ∧
    ¬ AllSucceed .sample { ScanCalls.sample with wmdm := ⟨true, eFail, sOk, []⟩ } := by
  refine ⟨?_, rfl, rfl, ?_⟩
  · rintro ⟨ret, h, -⟩
    cases h
  · rintro ⟨-, ⟨-, hcount, -⟩, -⟩
    exact absurd hcount (by decide)

end MtpRetag
