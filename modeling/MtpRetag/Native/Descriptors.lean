import MtpRetag.Native.Initialised
import MtpRetag.Native.MetaItems
import MtpRetag.Machinery.Scan

/-!
# Native/Descriptors — string descriptors, and the port that describes a device

`get_descriptor_props` scans the ports of a hub for the device with a given id.  What it compares
and stores is made of three string descriptors, which `get_stringdescriptor` reads in turn; the
language that the first one had to ask for serves the others.

`getDescriptorProps_exact` says which port describes the device, and that nothing else changes.
-/

namespace MtpRetag

/-! ## `get_stringdescriptor` -/

/-- The setup packet of a `DESCRIPTOR_REQUEST`: `wValue[0]`, `wIndex` and `wLength[0]`. -/
structure DescriptorRequest where
  descriptorIndex : UInt8
  languageID : UInt16
  wLength : UInt8

/-- `request.Data` behind the call: what the device wrote, over the zeros of `ZeroMemory`. -/
def requestData (written : Option (List UInt8)) : List UInt8 := (written.getD []).rightpad 2048 0

/-- `request.Data[2] + (request.Data[3] << 8)`, as a `USHORT`. -/
def dataLanguage (data : List UInt8) : UInt16 :=
  UInt16.ofNat ((data.getD 2 0).toNat + (data.getD 3 0).toNat * 256)

/-- `devicemanager::get_stringdescriptor`: the language, and `descriptorValue`.  A request that
fails (`none`) is reported to the console and leaves `Data` zero. -/
def getStringdescriptor (device : DescriptorRequest → Option (List UInt8)) (languageID : UInt16)
    (descriptorIndex : UInt8) : UInt16 × WStr :=
  let languageID := if languageID = 0 then dataLanguage (requestData (device ⟨0, 0, 4⟩)) else languageID
  let data := requestData (device ⟨descriptorIndex, languageID, 255⟩)
  (languageID, cStr (wcharsOf (data.drop 2)))

/-- The three calls made for a port. -/
inductive StringCall
  | manufacturer
  | serial
  | product

/-- What a port of a hub answers: the error of its query, or its `ConnectionInformation`, and the
string descriptors that the device behind it gives in each of the calls. -/
structure UsbNode where
  failed : Option Int32
  deviceIsHub : Bool
  iManufacturer : UInt8
  iSerialNumber : UInt8
  iProduct : UInt8
  idVendor : UInt8 × UInt8
  idProduct : UInt8 × UInt8
  device : StringCall → DescriptorRequest → Option (List UInt8)

/-- `MAKEWORD`. -/
def makeWord (w : UInt8 × UInt8) : UInt16 := w.1.toUInt16 ||| w.2.toUInt16 <<< 8

/-- The variables of the port loop.  `LanguageID` starts at 0 for each port. -/
def UsbNode.port (node : UsbNode) : UsbPort :=
  let manuf := getStringdescriptor (node.device .manufacturer) 0 node.iManufacturer
  let serial := getStringdescriptor (node.device .serial) manuf.1 node.iSerialNumber
  let name := getStringdescriptor (node.device .product) serial.1 node.iProduct
  { failed := node.failed
    deviceIsHub := node.deviceIsHub
    manuf := manuf.2
    serial := serial.2
    name := name.2
    vid := makeWord node.idVendor
    pid := makeWord node.idProduct }

/-- A hub, opened and queried port by port. -/
def hubProbe (hub : Except Int32 (List UsbNode)) : HubProbe := hub.map (List.map UsbNode.port)

/-! ## The scan -/

/-- A failed call leaves an error code. -/
structure FailuresCoded (hub : HubProbe) : Prop where
  opening : ∀ err, hub = .error err → err ≠ 0
  query : ∀ ports, hub = .ok ports → ∀ port ∈ ports, port.failed ≠ some 0

/-- A port that holds the device of an id, queried like every port before it. -/
abbrev HoldsAt (deviceUsbId : WStr) (ports : List UsbPort) (i : ℕ) (port : UsbPort) : Prop :=
  Scan.Hits UsbPort.failed (UsbPort.Holds deviceUsbId) ports i port

section Scan

variable {deviceUsbId : WStr} {usbdev : UsbDevice}

/-- The loop of `get_descriptor_props` is a scan. -/
theorem portLoop_eq_scan : ∀ ports : List UsbPort,
    portLoop deviceUsbId usbdev ports =
      match Scan.run UsbPort.failed (UsbPort.Holds deviceUsbId) ports with
      | .exhausted => (1, usbdev)
      | .failed err => (err, usbdev)
      | .found port => (0, port.describe usbdev)
  | [] => rfl
  | port :: ports => by
      rw [portLoop, Scan.run]
      rcases port.failed with _ | err
      · dsimp only
        by_cases h : port.Holds deviceUsbId
        · rw [if_pos h]
          exact if_pos h
        · rw [if_neg h, ← portLoop_eq_scan ports]
          exact if_neg h
      · rfl

theorem portLoop_of_found {ports : List UsbPort} {port : UsbPort}
    (h : Scan.run UsbPort.failed (UsbPort.Holds deviceUsbId) ports = .found port) :
    portLoop deviceUsbId usbdev ports = (0, port.describe usbdev) := by
  rw [portLoop_eq_scan, h]

/-- Without a port to be found, the code is not zero and the record is left alone. -/
theorem portLoop_of_not_found {ports : List UsbPort} (hcoded : ∀ port ∈ ports, port.failed ≠ some 0)
    (h : ∀ port, Scan.run UsbPort.failed (UsbPort.Holds deviceUsbId) ports ≠ .found port) :
    (portLoop deviceUsbId usbdev ports).1 ≠ 0 ∧ (portLoop deviceUsbId usbdev ports).2 = usbdev := by
  rw [portLoop_eq_scan]
  rcases hrun : Scan.run UsbPort.failed (UsbPort.Holds deviceUsbId) ports with _ | err | port
  · exact ⟨fun h0 : (1 : Int32) = 0 => absurd h0 (by decide), rfl⟩
  · obtain ⟨port, hport, hfailed⟩ := Scan.exists_of_run_eq_failed hrun
    exact ⟨fun h0 : err = 0 => hcoded port hport (h0 ▸ hfailed), rfl⟩
  · exact absurd hrun (h port)

/-- **The code of a scan** says whether a port holds the device. -/
theorem fst_portLoop_eq_zero_iff {ports : List UsbPort}
    (hcoded : ∀ port ∈ ports, port.failed ≠ some 0) :
    (portLoop deviceUsbId usbdev ports).1 = 0 ↔ ∃ i port, HoldsAt deviceUsbId ports i port := by
  rw [← Scan.exists_run_eq_found_iff]
  constructor
  · intro h
    by_contra hnone
    exact (portLoop_of_not_found hcoded fun port hport => hnone ⟨port, hport⟩).1 h
  · rintro ⟨port, hport⟩
    rw [portLoop_of_found hport]

theorem snd_portLoop_of_ne_zero {ports : List UsbPort}
    (hcoded : ∀ port ∈ ports, port.failed ≠ some 0)
    (h : (portLoop deviceUsbId usbdev ports).1 ≠ 0) :
    (portLoop deviceUsbId usbdev ports).2 = usbdev :=
  (portLoop_of_not_found hcoded fun port hport => h (by rw [portLoop_of_found hport])).2

end Scan

/-- **Whose descriptors a device gets.**  The call returns 0 if and only if the hub is open and one
of its ports, queried like every port before it, holds the device; the record is then described by
the first such port, and left unchanged otherwise. -/
theorem getDescriptorProps_exact (hub : Except Int32 (List UsbNode)) (deviceUsbId : WStr)
    (usbdev : UsbDevice) (hcoded : FailuresCoded (hubProbe hub)) :
    ((getDescriptorProps (hubProbe hub) deviceUsbId usbdev).1 = 0 ↔
      ∃ nodes, hub = .ok nodes ∧ ∃ i port, HoldsAt deviceUsbId (nodes.map UsbNode.port) i port) ∧
    (∀ nodes, hub = .ok nodes → ∀ i port, HoldsAt deviceUsbId (nodes.map UsbNode.port) i port →
      (∀ j < i, ∀ port', ¬ HoldsAt deviceUsbId (nodes.map UsbNode.port) j port') →
        (getDescriptorProps (hubProbe hub) deviceUsbId usbdev).2 = port.describe usbdev) ∧
    ((getDescriptorProps (hubProbe hub) deviceUsbId usbdev).1 ≠ 0 →
      (getDescriptorProps (hubProbe hub) deviceUsbId usbdev).2 = usbdev) := by
  rcases hub with err | nodes
  · have herr : err ≠ 0 := hcoded.opening err rfl
    exact ⟨⟨fun h => absurd h herr, fun ⟨_, h, _⟩ => nomatch h⟩, fun _ h => (nomatch h), fun _ => rfl⟩
  · have hports := hcoded.query (nodes.map UsbNode.port) rfl
    have hprobe : getDescriptorProps (hubProbe (.ok nodes)) deviceUsbId usbdev =
        portLoop deviceUsbId usbdev (nodes.map UsbNode.port) := rfl
    rw [hprobe]
    refine ⟨?_, ?_, snd_portLoop_of_ne_zero hports⟩
    · rw [fst_portLoop_eq_zero_iff hports]
      constructor
      · intro h
        exact ⟨nodes, rfl, h⟩
      · rintro ⟨_, ⟨⟩, h⟩
        exact h
    · rintro _ ⟨⟩ i port hport hfirst
      rw [portLoop_of_found (Scan.run_eq_found_iff.mpr ⟨i, hport, hfirst⟩)]

/-- A port with another hub behind it. -/
def UsbNode.subHub : UsbNode where
  failed := none
  deviceIsHub := true
  iManufacturer := 0
  iSerialNumber := 0
  iProduct := 0
  idVendor := (0, 0)
  idProduct := (0, 0)
  device _ _ := none

/-- A port with a device, whose string descriptors have one character each. -/
def UsbNode.player : UsbNode where
  failed := none
  deviceIsHub := false
  iManufacturer := 1
  iSerialNumber := 2
  iProduct := 3
  idVendor := (0x79, 0x0e)
  idProduct := (0x06, 0x13)
  device _ request :=
    if request.wLength = 4 then some [4, 3, 9, 4] else some [4, 3, 108 + request.descriptorIndex, 0]

/-- A port whose query fails. -/
def UsbNode.broken : UsbNode := { UsbNode.subHub with failed := some 31 }

theorem holdsAt_player :
    HoldsAt (wide "usb\\vid_0e79&pid_1306\\n")
      ([.subHub, .player, .broken].map UsbNode.port) 1 UsbNode.player.port :=
  Scan.hits_cons_succ.mpr
    ⟨rfl, Scan.hits_cons_zero.mpr ⟨rfl, ⟨Bool.false_ne_true, by decide⟩, rfl⟩⟩

/-- A failing port behind the one that is found does no harm. -/
theorem getDescriptorProps_exact_player :
    (getDescriptorProps (hubProbe (.ok [.subHub, .player, .broken]))
        (wide "usb\\vid_0e79&pid_1306\\n") (UsbDevice.emptyPlayer [])).1 = 0 ∧
      (getDescriptorProps (hubProbe (.ok [.subHub, .player, .broken]))
        (wide "usb\\vid_0e79&pid_1306\\n") (UsbDevice.emptyPlayer [])).2 =
          UsbNode.player.port.describe (UsbDevice.emptyPlayer []) := by
  have hcoded : FailuresCoded (hubProbe (.ok [.subHub, .player, .broken])) := by
    refine ⟨fun _ h => (nomatch h), ?_⟩
    rintro _ ⟨⟩
    decide
  obtain ⟨hcode, hfound, -⟩ := getDescriptorProps_exact (.ok [.subHub, .player, .broken])
    (wide "usb\\vid_0e79&pid_1306\\n") (UsbDevice.emptyPlayer []) hcoded
  refine ⟨hcode.mpr ⟨_, rfl, 1, _, holdsAt_player⟩, hfound _ rfl 1 _ holdsAt_player ?_⟩
  intro j hj port hport
  obtain rfl : j = 0 := Nat.lt_one_iff.mp hj
  exact (Scan.hits_cons_zero.mp hport).2.1.1 rfl

end MtpRetag
