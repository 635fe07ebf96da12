import MtpRetag.Native.Detect

/-!
# Native/Registry — the operations of the device manager on its registry

`listDevices` is a map of pointers that `operator[]` fills with NULL entries, so even a query
changes it.  What it *knows* is a partial function from names to devices; `device_step` says what
each operation does to that function, and the three ways to ask for a device read it off
(`answer_eq`).
-/

namespace MtpRetag

/-! ## The operations -/

namespace Registry

/-- `devicemanager::has_device`. -/
def hasDevice (r : Registry) (devid : WStr) : Int32 × Registry :=
  match r.getDevicebyid devid with
  | (none, r) => (0, r)
  | (some _, r) => (1, r)

/-- `devicemanager::release_device`, which erases the entry of a device only. -/
def releaseDevice (r : Registry) (devid : WStr) : Int32 × Registry :=
  match r.getDevicebyid devid with
  | (none, r) => (0, r)
  | (some _, r) =>
    (0, { map := r.map.erase devid
          canonical_of_lookup {k d} hk := by
            by_cases hkd : k = devid
            · subst hkd
              simp [AList.lookup_erase] at hk
            · exact r.canonical_of_lookup (by rwa [AList.lookup_erase_ne hkd] at hk) })

/-- `devicemanager::clear_devices`. -/
def clearDevices (_ : Registry) : Int32 × Registry := (0, empty)

/-- `devicemanager::refresh_devices`, on detections that put these devices in the list, in this
order. -/
def refreshDevices (r : Registry) (found : List UsbDevice) : Registry :=
  found.foldl store r.clearDevices.2

end Registry

/-- `devicemanager::UsbDevicesInfo`. -/
abbrev UsbDevicesInfo := AList fun _ : WStr => UsbdeviceInfo

/-- One round of the loop of `fill_devicesinfo`. -/
def fillEntry (memory : WStr → Raw) (list : UsbDevicesInfo)
    (e : Sigma fun _ : WStr => Option UsbDevice) :
    UsbDevicesInfo :=
  match e.2 with
  | none => list
  | some usbdev =>
    let usbinfo := fillInfo (memory e.1) usbdev
    list.insert usbinfo.canonical usbinfo

/-- `devicemanager::fill_devicesinfo`.  `memory` is what the fresh record of each round finds. -/
def Registry.fillDevicesinfo (memory : WStr → Raw) (r : Registry) (list : UsbDevicesInfo) :
    Int32 × UsbDevicesInfo :=
  (0, r.map.entries.foldl (fillEntry memory) list)

/-- A call of the device manager, with what it depends on from outside. -/
inductive RegistryOp
  | refresh (found : List UsbDevice)
  | clear
  | release (devid : WStr)
  | get (devid : WStr)
  | has (devid : WStr)
  | fill (memory : WStr → Raw) (list : UsbDevicesInfo)

/-- The registry a call leaves. -/
def Registry.step (r : Registry) : RegistryOp → Registry
  | .refresh found => r.refreshDevices found
  | .clear => r.clearDevices.2
  | .release devid => (r.releaseDevice devid).2
  | .get devid => (r.getDevicebyid devid).2
  | .has devid => (r.hasDevice devid).2
  | .fill _ _ => r

/-- …and a sequence of calls. -/
def Registry.run (r : Registry) (ops : List RegistryOp) : Registry := ops.foldl step r

/-! ## What a registry knows -/

/-- The devices known by name. -/
abbrev Known := WStr → Option UsbDevice

/-- What a call is for: a detection replaces what is known, a release forgets one name, and a query
changes nothing. -/
def Known.step (k : Known) : RegistryOp → Known
  | .refresh found => fun id => found.reverse.find? fun d => d.canonical = id
  | .clear => fun _ => none
  | .release devid => Function.update k devid none
  | .get _ | .has _ | .fill _ _ => k

section Known

variable {r : Registry} {id devid : WStr}

@[simp] theorem device_empty (id : WStr) : Registry.empty.device id = none := rfl

theorem device_getDevicebyid (r : Registry) (devid id : WStr) :
    (r.getDevicebyid devid).2.device id = r.device id := by
  rw [Registry.getDevicebyid]
  split
  case isTrue h =>
    by_cases hid : id = devid
    · subst hid
      simp [Registry.device, AList.lookup_insert, h]
    · simp [Registry.device, AList.lookup_insert_ne hid]
  case isFalse => rfl

theorem hasDevice_eq (r : Registry) (devid : WStr) :
    r.hasDevice devid =
      (if r.device devid = none then 0 else 1, (r.getDevicebyid devid).2) := by
  have hfst := r.fst_getDevicebyid devid
  rw [Registry.hasDevice]
  split
  next heq =>
    rw [heq] at hfst ⊢
    simp [← hfst]
  next heq =>
    rw [heq] at hfst ⊢
    simp [← hfst]

theorem device_releaseDevice (r : Registry) (devid id : WStr) :
    (r.releaseDevice devid).2.device id = if id = devid then none else r.device id := by
  have hfst := r.fst_getDevicebyid devid
  have hsnd := device_getDevicebyid r devid id
  rw [Registry.releaseDevice]
  split
  next heq =>
    rw [heq] at hfst hsnd
    by_cases hid : id = devid
    · subst hid
      rw [if_pos rfl, hsnd, ← hfst]
    · rw [if_neg hid, hsnd]
  next heq =>
    rw [heq] at hsnd
    by_cases hid : id = devid
    · subst hid
      simp [Registry.device, AList.lookup_erase]
    · rw [if_neg hid, ← hsnd]
      simp [Registry.device, AList.lookup_erase_ne hid]

/-- The last stored device of a name is the one that is known. -/
theorem device_foldl_store (id : WStr) :
    ∀ (found : List UsbDevice) (r : Registry),
      (found.foldl Registry.store r).device id =
        (found.reverse.find? fun d => d.canonical = id).or (r.device id)
  | [], r => by simp
  | d :: found, r => by
      rw [List.foldl_cons, device_foldl_store id found, Registry.device_store,
        find?_reverse_cons]
      cases found.reverse.find? fun d => d.canonical = id with
      | some d' => simp
      | none =>
        by_cases h : id = d.canonical
        · simp [h]
        · have h' : ¬ d.canonical = id := fun heq => h heq.symm
          simp [h, h']

/-- **The registry simulates what it knows**, call by call… -/
theorem device_step (r : Registry) (op : RegistryOp) :
    (r.step op).device = Known.step r.device op := by
  funext id
  cases op with
  | refresh found =>
    rw [Registry.step, Registry.refreshDevices, device_foldl_store]
    exact Option.or_none
  | clear => rfl
  | release devid =>
    rw [Registry.step, device_releaseDevice, Known.step, Function.update_apply]
  | get devid => exact device_getDevicebyid r devid id
  | has devid =>
    rw [Registry.step, hasDevice_eq]
    exact device_getDevicebyid r devid id
  | fill memory list => rfl

/-- …and over every run. -/
theorem device_run (r : Registry) (ops : List RegistryOp) :
    (r.run ops).device = ops.foldl Known.step r.device :=
  (List.foldl_hom Registry.device (fun r op => (device_step r op).symm)).symm

/-- Without a detection, no name becomes known… -/
theorem Known.foldl_step_eq_none {known : Known} {ops : List RegistryOp}
    (hops : ∀ op ∈ ops, ∀ found, op ≠ .refresh found) (h : known id = none) :
    ops.foldl Known.step known id = none := by
  induction ops generalizing known with
  | nil => exact h
  | cons op ops ih =>
    refine ih (fun op hop => hops op (List.mem_cons_of_mem _ hop)) ?_
    cases op with
    | refresh found => exact absurd rfl (hops _ List.mem_cons_self found)
    | clear => rfl
    | release devid =>
      rw [Known.step, Function.update_apply]
      split
      · rfl
      · exact h
    | get devid => exact h
    | has devid => exact h
    | fill memory list => exact h

/-- …so neither to the registry. -/
theorem device_run_eq_none {ops : List RegistryOp} (hops : ∀ op ∈ ops, ∀ found, op ≠ .refresh found)
    (h : r.device id = none) : (r.run ops).device id = none := by
  rw [device_run]
  exact Known.foldl_step_eq_none hops h

end Known

/-! ## Three ways to ask -/

section Answers

variable {memory : WStr → Raw}

/-- The record that `fill_devicesinfo` builds has all members of its device. -/
theorem fillInfo_eq (raw : Raw) (usbdev : UsbDevice) :
    fillInfo raw usbdev = usbdev.toUsbdeviceInfo := rfl

/-- Each device is entered under the key of its entry, so an entry of another key leaves the lookup
alone. -/
theorem lookup_foldl_fillEntry (id : WStr) :
    ∀ (l : List (Sigma fun _ : WStr => Option UsbDevice)) (list : UsbDevicesInfo), l.NodupKeys →
      (∀ k usbdev, ⟨k, some usbdev⟩ ∈ l → usbdev.canonical = k) →
      (l.foldl (fillEntry memory) list).lookup id =
        ((l.dlookup id).join.map UsbDevice.toUsbdeviceInfo).or (list.lookup id)
  | [], list, _, _ => by simp
  | ⟨k, e⟩ :: l, list, hnodup, hkey => by
      obtain ⟨hk, hl⟩ := List.nodupKeys_cons.mp hnodup
      rw [List.foldl_cons, lookup_foldl_fillEntry id l _ hl
        fun k d hd => hkey k d (List.mem_cons_of_mem _ hd)]
      cases e with
      | none =>
        by_cases hid : id = k
        · subst hid
          simp [fillEntry, List.dlookup_eq_none.mpr hk]
        · simp [fillEntry, List.dlookup_cons_ne l ⟨k, none⟩ hid]
      | some usbdev =>
        obtain rfl : usbdev.canonical = k := hkey k usbdev List.mem_cons_self
        by_cases hid : id = usbdev.canonical
        · subst hid
          simp [fillEntry, fillInfo_eq, List.dlookup_eq_none.mpr hk, AList.lookup_insert]
        · simp [fillEntry, fillInfo_eq, List.dlookup_cons_ne l ⟨_, some usbdev⟩ hid,
            AList.lookup_insert_ne hid]

theorem lookup_fillDevicesinfo (r : Registry) (list : UsbDevicesInfo) (id : WStr) :
    (r.fillDevicesinfo memory list).2.lookup id =
      ((r.device id).map UsbDevice.toUsbdeviceInfo).or (list.lookup id) :=
  lookup_foldl_fillEntry id r.map.entries list r.map.nodupKeys fun _ _ hd =>
    r.canonical_of_lookup (AList.mem_lookup_iff.mpr hd)

/-- What the three queries say about a name, `fill_devicesinfo` on an empty list. -/
structure Answer where
  has : Int32
  get : Option UsbDevice
  info : Option UsbdeviceInfo

def Registry.answer (memory : WStr → Raw) (r : Registry) (id : WStr) : Answer where
  has := (r.hasDevice id).1
  get := (r.getDevicebyid id).1
  info := (r.fillDevicesinfo memory ∅).2.lookup id

/-- No device of that name. -/
def Answer.absent : Answer := ⟨0, none, none⟩

/-- The answer about a name of which a device is known, or none. -/
def Answer.of : Option UsbDevice → Answer
  | none => absent
  | some usbdev => ⟨1, some usbdev, some usbdev.toUsbdeviceInfo⟩

/-- **The three views agree**, in every registry. -/
theorem answer_eq (memory : WStr → Raw) (r : Registry) (id : WStr) :
    r.answer memory id = .of (r.device id) := by
  rw [Registry.answer, hasDevice_eq, Registry.fst_getDevicebyid, lookup_fillDevicesinfo]
  cases r.device id with
  | none => rfl
  | some usbdev => rfl

/-- Queries change no answer… -/
theorem answer_step_of_query (memory : WStr → Raw) (r : Registry) (id : WStr) {op : RegistryOp}
    (hop : ∀ k, Known.step k op = k) : (r.step op).answer memory id = r.answer memory id := by
  rw [answer_eq, answer_eq, device_step, hop]

/-- …a release only the one about its name… -/
theorem answer_step_release (memory : WStr → Raw) (r : Registry) (id devid : WStr) :
    (r.step (.release devid)).answer memory id =
      if id = devid then .absent else r.answer memory id := by
  rw [answer_eq, answer_eq, device_step, Known.step, Function.update_apply]
  split <;> rfl

/-- …and what is forgotten stays so until the next detection. -/
theorem answer_run_of_forgotten (memory : WStr → Raw) (r : Registry) (id : WStr) {op : RegistryOp}
    (hop : op = .release id ∨ op = .clear ∨
      ∃ found, op = .refresh found ∧ ∀ usbdev ∈ found, usbdev.canonical ≠ id)
    {later : List RegistryOp} (hlater : ∀ op ∈ later, ∀ found, op ≠ .refresh found) :
    ((r.step op).run later).answer memory id = .absent := by
  have hstep : (r.step op).device id = none := by
    rw [device_step]
    rcases hop with rfl | rfl | ⟨found, rfl, hfound⟩
    · simp [Known.step]
    · rfl
    · simpa [Known.step] using hfound
  rw [answer_eq, device_run_eq_none hlater hstep]
  rfl

end Answers

/-- **The registry is coherent.**  After every run of calls the three queries agree about every
name, and an entry has the fields of its device; queries change no answer, a release only the one
about its name; and a name that is released, cleared or not detected again stays unknown until the
next detection. -/
theorem registry_coherent (memory : WStr → Raw) (ops : List RegistryOp) :
    (∀ id,
      ((((Registry.empty.run ops).hasDevice id).1 = 1 ↔
          ((Registry.empty.run ops).getDevicebyid id).1 ≠ none) ∧
        (((Registry.empty.run ops).getDevicebyid id).1 ≠ none ↔
          ((Registry.empty.run ops).fillDevicesinfo memory ∅).2.lookup id ≠ none)) ∧
      ∀ usbdev, ((Registry.empty.run ops).getDevicebyid id).1 = some usbdev →
        ((Registry.empty.run ops).fillDevicesinfo memory ∅).2.lookup id =
          some usbdev.toUsbdeviceInfo) ∧
    (∀ id devid fillMemory list,
      ((Registry.empty.run ops).step (.get devid)).answer memory id =
          (Registry.empty.run ops).answer memory id ∧
        ((Registry.empty.run ops).step (.has devid)).answer memory id =
          (Registry.empty.run ops).answer memory id ∧
        ((Registry.empty.run ops).step (.fill fillMemory list)).answer memory id =
          (Registry.empty.run ops).answer memory id) ∧
    (∀ id devid, ((Registry.empty.run ops).step (.release devid)).answer memory id =
      if id = devid then .absent else (Registry.empty.run ops).answer memory id) ∧
    ∀ id op, (op = .release id ∨ op = .clear ∨
        ∃ found, op = .refresh found ∧ ∀ usbdev ∈ found, usbdev.canonical ≠ id) →
      ∀ later, (∀ op ∈ later, ∀ found, op ≠ .refresh found) →
        (((Registry.empty.run ops).step op).run later).answer memory id = .absent := by
  generalize Registry.empty.run ops = r
  refine ⟨fun id => ?_, fun id devid fillMemory list => ⟨?_, ?_, ?_⟩, ?_, ?_⟩
  · obtain ⟨hhas, hget, hinfo⟩ := Answer.mk.inj (answer_eq memory r id)
    rw [hhas, hget, hinfo]
    cases r.device id with
    | none => simp [Answer.absent]
    | some usbdev => simp
  · exact answer_step_of_query memory r id fun _ => rfl
  · exact answer_step_of_query memory r id fun _ => rfl
  · exact answer_step_of_query memory r id fun _ => rfl
  · exact answer_step_release memory r
  · exact fun id op hop later hlater => answer_run_of_forgotten memory r id hop hlater

end MtpRetag
