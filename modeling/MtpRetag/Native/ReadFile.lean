import MtpRetag.Native.Transfer

/-!
# Native/ReadFile — `usbdevice::read_file` and `UsbDevice.getFile`

`read_file` walks to the source as `transfer_file` walks to its folder, but over all components and
without creating any; then it makes one `Read`.  The result of that `Read` is assigned to `hr`, and
it is `ret` that is returned.

`Reads` is the exact condition under which the returned code tells whether the file was read
(`ret_readMtp_iff`).
-/

namespace MtpRetag

/-! ## `read_file` -/

/-- What `read_file` returns, and what happened on the way: the result of `Read` if it was reached,
and whether it got a progress sink. -/
structure ReadResult where
  ret : HRESULT
  read : Option HRESULT := none
  progress : Bool := false

/-- The `try` block of `read_file` from the storage at `p` on.  `ret` is the value the walk left; a
thrown status replaces it, the status of `Read` does not. -/
def readFrom (hr : Outcomes) (p : Pos) (progress : Bool) (ret : HRESULT) : ReadResult :=
  if ¬ Succeeded (hr (.queryStorage3 p)) then { ret := eFail }
  else if ¬ Succeeded (hr (.queryControl3 p)) then { ret := eFail }
  else { ret := ret, read := some (hr (.read p)), progress := progress }

/-- `usbdevice::read_file` in MTP mode. -/
def readMtp (hr : Outcomes) (t : Storage) (src : WStr) : ReadResult :=
  let walk := walkFolders hr false sOk (splitString src [slash] false) t (some []) 0
  match walk.storage with
  | .error hrex => { ret := hrex }
  | .ok none => { ret := eFail }
  | .ok (some p) => readFrom hr p (hasProgress hr) walk.ret

/-- `usbdevice::read_file`. -/
def readFile (w : World) (hr : Outcomes) (usbdev : UsbDevice) (src dest : WStr) : ReadResult :=
  match usbdev.mode with
  | .msc =>
    if 0 < usbdev.mountpoint.length then
      { ret := w.mscCopy (cStr (usbdev.mountpoint ++ src)) (cStr dest) }
    else { ret := 1 }
  | .mtp => readMtp hr usbdev.rootStorage src
  | _ => { ret := 1 }

/-- What `getFile` returns, and what `Read` returned if it was reached. -/
structure GetCall where
  ret : Int64
  read : Option HRESULT

/-- `Java_jpmp_device_UsbDevice_getFile`. -/
def getFile (w : World) (jni : Jni) (pasmgr : Option Registry) (hr : Outcomes)
    (jdev localdest pmpsrc : WStr) : GetCall :=
  match pasmgr with
  | none => ⟨Error.initDeviceManager.toInt64, none⟩
  | some listDevices =>
    match getInternaldevice jni listDevices jdev with
    | none => ⟨Error.deviceNotMounted.toInt64, none⟩
    | some usbdev =>
      let r := readFile w hr usbdev (jni.ca2w pmpsrc).1 (jni.ca2w localdest).1
      ⟨r.ret.toInt64, r.read⟩

/-! ## When the code tells the truth -/

/-- Every component of the path is found: the walk arrives at `q`. -/
def ArrivesAt (hr : Outcomes) (t : Storage) (src : WStr) (q : Pos) : Prop :=
  Walks hr false [] t.children (splitString src [slash] false) q

/-- The file was read: every component was found, and `Read` was reached and succeeded. -/
def WasRead (hr : Outcomes) (t : Storage) (src : WStr) (read : Option HRESULT) : Prop :=
  (∃ q, ArrivesAt hr t src q) ∧ ∃ e, read = some e ∧ Succeeded e

/-- Every component is found, and at the end of the path either a `QueryInterface` fails or `Read`
succeeds. -/
def Reads (hr : Outcomes) (t : Storage) (src : WStr) : Prop :=
  ∃ q, ArrivesAt hr t src q ∧
    (¬ Succeeded (hr (.queryStorage3 q)) ∨ ¬ Succeeded (hr (.queryControl3 q)) ∨
      Succeeded (hr (.read q)))

section Exact

variable {w : World} {hr : Outcomes} {t : Storage} {src dest : WStr}

/-- A path leads to one storage at most. -/
theorem ArrivesAt.unique {q q' : Pos} (h : ArrivesAt hr t src q) (h' : ArrivesAt hr t src q') :
    q = q' :=
  Option.some.inj ((resolve_of_walks h).symm.trans (resolve_of_walks h'))

/-- **What `read_file` does** in MTP mode: without an arrival it returns the `S_OK` it throws; at
the end of the path it returns `E_FAIL` for a missing interface, and `0` whatever `Read` returns. -/
theorem readMtp_cases (hr : Outcomes) (t : Storage) (src : WStr) :
    ((∀ q, ¬ ArrivesAt hr t src q) ∧ readMtp hr t src = { ret := sOk }) ∨
    ∃ q, ArrivesAt hr t src q ∧
      (((¬ Succeeded (hr (.queryStorage3 q)) ∨ ¬ Succeeded (hr (.queryControl3 q))) ∧
          readMtp hr t src = { ret := eFail }) ∨
        (Succeeded (hr (.queryStorage3 q)) ∧ Succeeded (hr (.queryControl3 q)) ∧
          readMtp hr t src =
            { ret := 0, read := some (hr (.read q)), progress := hasProgress hr })) := by
  have hroot : t.sub? [] = some t := Rose.sub?_nil t
  rcases walkFolders_storage_cases hr false (splitString src [slash] false) hroot with
    ⟨q, hq, hstorage⟩ | ⟨hno, hstorage⟩
  · have hret := (walkFolders_of_walks hq hroot rfl).2
    have hmtp : readMtp hr t src = readFrom hr q (hasProgress hr) 0 := by
      rw [readMtp, hstorage, hret]
    refine .inr ⟨q, hq, ?_⟩
    rw [hmtp, readFrom]
    by_cases h3 : Succeeded (hr (.queryStorage3 q))
    · by_cases hc : Succeeded (hr (.queryControl3 q))
      · rw [if_neg (not_not.mpr h3), if_neg (not_not.mpr hc)]
        exact .inr ⟨h3, hc, rfl⟩
      · rw [if_neg (not_not.mpr h3), if_pos hc]
        exact .inl ⟨.inr hc, rfl⟩
    · rw [if_pos h3]
      exact .inl ⟨.inl h3, rfl⟩
  · refine .inl ⟨hno, ?_⟩
    rw [readMtp, hstorage]

/-- **When the code of a read is exact.** -/
theorem ret_readMtp_iff :
    ((readMtp hr t src).ret = 0 ↔ WasRead hr t src (readMtp hr t src).read) ↔ Reads hr t src := by
  rcases readMtp_cases hr t src with ⟨hno, heq⟩ | ⟨q, hq, ⟨hmiss, heq⟩ | ⟨h3, hc, heq⟩⟩
  · have hread : ¬ Reads hr t src := fun ⟨q, hq, _⟩ => hno q hq
    have hwas : ¬ WasRead hr t src none := fun ⟨⟨q, hq⟩, _⟩ => hno q hq
    rw [heq]
    refine iff_of_false (fun hiff => hwas (hiff.mp rfl)) hread
  · have hread : Reads hr t src := ⟨q, hq, or_assoc.mp (.inl hmiss)⟩
    have hwas : ¬ WasRead hr t src none := fun ⟨_, e, he, _⟩ => by simp at he
    rw [heq]
    exact iff_of_true (iff_of_false (by decide) hwas) hread
  · rw [heq]
    constructor
    · intro hiff
      obtain ⟨-, e, he, hsucc⟩ := hiff.mp rfl
      obtain rfl := Option.some.inj he
      exact ⟨q, hq, .inr (.inr hsucc)⟩
    · rintro ⟨q', hq', hcond⟩
      obtain rfl := hq.unique hq'
      rcases hcond with h3' | hc' | hsucc
      · exact absurd h3 h3'
      · exact absurd hc hc'
      · exact iff_of_true rfl ⟨⟨q, hq⟩, _, rfl, hsucc⟩

end Exact

/-- **The code of a read.**  It is zero exactly for a file that was read if and only if every
component of the path is found and a reached `Read` succeeds; for `read_file` and for `getFile`. -/
theorem read_code_exact (w : World) (hr : Outcomes) (usbdev : UsbDevice) (src dest : WStr)
    (hmtp : usbdev.mode = .mtp) :
    (((readFile w hr usbdev src dest).ret = 0 ↔
        WasRead hr usbdev.rootStorage src (readFile w hr usbdev src dest).read) ↔
      Reads hr usbdev.rootStorage src) ∧
    ∀ (jni : Jni) (listDevices : Registry) (jdev localdest pmpsrc : WStr),
      getInternaldevice jni listDevices jdev = some usbdev →
        (((getFile w jni (some listDevices) hr jdev localdest pmpsrc).ret = 0 ↔
            WasRead hr usbdev.rootStorage (jni.ca2w pmpsrc).1
              (getFile w jni (some listDevices) hr jdev localdest pmpsrc).read) ↔
          Reads hr usbdev.rootStorage (jni.ca2w pmpsrc).1) := by
  have hread : ∀ src dest, readFile w hr usbdev src dest = readMtp hr usbdev.rootStorage src :=
    fun src dest => by rw [readFile, hmtp]
  refine ⟨?_, fun jni listDevices jdev localdest pmpsrc hdev => ?_⟩
  · rw [hread]
    exact ret_readMtp_iff
  · simp only [getFile, hdev, hread, toInt64_eq_zero]
    exact ret_readMtp_iff

/-- With no call failing, the read of a file that is not there is reported as a success… -/
theorem getFile_zero_for_missing :
    (getFile .sample .identity (some onePlayer) (fun _ => sOk) (wide "player") (wide "C:\\a.mp3")
        (wide "/a.mp3")).ret = 0 ∧
      ¬ WasRead (fun _ => sOk) (UsbDevice.emptyPlayer (wide "player")).rootStorage
        (Jni.identity.ca2w (wide "/a.mp3")).1
        (getFile .sample .identity (some onePlayer) (fun _ => sOk) (wide "player")
          (wide "C:\\a.mp3") (wide "/a.mp3")).read := by
  have hread : (getFile .sample .identity (some onePlayer) (fun _ => sOk) (wide "player")
      (wide "C:\\a.mp3") (wide "/a.mp3")).read = none := rfl
  refine ⟨by decide, fun ⟨_, e, he, _⟩ => ?_⟩
  simp [hread] at he

/-- An MTP player with one file. -/
def UsbDevice.filePlayer : UsbDevice :=
  { UsbDevice.emptyPlayer (wide "player") with
    rootStorage := .node ⟨[], .folder, .empty, []⟩ [.node ⟨wide "a.mp3", .file, .empty, [1]⟩ []] }

/-- …and the code is exact for a player that has the file. -/
theorem read_code_exact_filePlayer :
    ((readFile .sample (fun _ => sOk) .filePlayer (wide "/a.mp3") (wide "C:\\a.mp3")).ret = 0 ↔
      WasRead (fun _ => sOk) UsbDevice.filePlayer.rootStorage (wide "/a.mp3")
        (readFile .sample (fun _ => sOk) .filePlayer (wide "/a.mp3") (wide "C:\\a.mp3")).read) ↔
    Reads (fun _ => sOk) UsbDevice.filePlayer.rootStorage (wide "/a.mp3") :=
  (read_code_exact .sample (fun _ => sOk) .filePlayer (wide "/a.mp3") (wide "C:\\a.mp3") rfl).1

end MtpRetag
