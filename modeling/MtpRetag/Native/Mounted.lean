import MtpRetag.Machinery.DirTree
import MtpRetag.Native.CopyResult
import MtpRetag.Native.Session
import Mathlib.Data.List.DropRight

/-!
# Native/Mounted — the calls of the library on the computer's own files

A mounted volume is a part of the computer's files: a call on it is a call of Windows at its
mountpoint with the path behind it.  `Computer.step` makes any call on any device, of either kind,
and keeps the files and the registry.  What an entry point returns tells what it did to the files
(`volumeCall_of_changes`, `volumeCall_of_copies`).

A call changes the files at one path at most (`edits_of_filesAfter`), so what no call of a run names
stays (`files_run`); and what was sent to a volume can be got back (`volume_roundtrip`).
-/

namespace MtpRetag

/-! ## Windows -/

/-- The files of the computer; its drives are the directories of the root. -/
abbrev Files := DirTree WStr UInt8

/-- A call of Windows that changes them. -/
abbrev FileCall := DirTree.Call WStr UInt8

/-- What the library runs on: the conversions of the JNI, how a device compares file names, and the
components that a full path names, if Windows accepts it. -/
structure System where
  jni : Jni
  sameName : WStr → WStr → Bool
  keys : WStr → Option (List WStr)

/-- What the C library does for one `msc_copy`: whether it opens the two files, the reads that stop
early, how many bytes each write takes, and how many of the last never reach the disk; and the
notifier. -/
structure CopyIo where
  opensFrom : Bool
  opensTo : Bool
  short : ℕ → Option ℕ
  fwrite : ℕ → ℕ
  lost : ℕ
  pnotif : Option Notifier

/-- The type bits of an entry. -/
def fileMode : DirTree.Entry UInt8 → FileMode
  | .dir => .ifdir
  | .file _ => .ifreg

namespace System

variable (sys : System) (files : Files)

/-- The bytes of the file at a full path. -/
def content (path : WStr) : Option (List UInt8) :=
  match (sys.keys path).bind files.look with
  | some (.file bytes) => some bytes
  | _ => none

/-- A call of Windows at a full path: the files it leaves, if they allow it and it is granted. -/
def request (granted : Bool) (path : WStr) (call : List WStr → FileCall) : Option Files :=
  if granted then (sys.keys path).bind fun ks => files.step (call ks) else none

/-- The source of a copy, if it can be opened… -/
def source (io : CopyIo) (src : WStr) : Option (List UInt8) :=
  if io.opensFrom then sys.content files src else none

/-- …and the files with its target opened, which empties it. -/
def opened (io : CopyIo) (src dest : WStr) : Option Files :=
  if (sys.source files io src).isSome then sys.request files io.opensTo dest (.write · []) else none

/-- `msc_copy` on the files, call by call. -/
def copyRun (io : CopyIo) (src dest : WStr) : CopyRun :=
  let opened := sys.opened files io src dest
  -- the source is read behind the opening of the target, which may be the same file
  let stream := (sys.source files io src).map fun content =>
    ⟨opened.elim content fun files => (sys.content files src).getD [], io.short⟩
  mscCopyRun stream (opened.map fun _ => io.fwrite) io.pnotif

/-- …what it returns, and the files it leaves; a stream that is not open ends the process. -/
def mscCopy (io : CopyIo) (src dest : WStr) : Option (HRESULT × Files) :=
  match (sys.copyRun files io src dest).result with
  | .returned ret =>
    let written := (received (sys.copyRun files io src dest).events).rdrop io.lost
    some (ret, if (sys.opened files io src dest).isSome then
      (sys.request files io.opensTo dest (.write · written)).getD files else files)
  | _ => none

end System

/-! ## Calls on devices -/

/-- A call that changes a device, or `getFile`. -/
inductive SystemOp
  | device (op : DeviceOp)
  | getFile (localdest pmpsrc : WStr)

/-- …on a device, with the outcomes of what it calls: the COM calls, the copy, and whether Windows
grants a change of the files. -/
structure SystemCall where
  op : SystemOp
  jdev : WStr
  hr : Outcomes
  io : CopyIo
  granted : Bool

/-- The files of the computer, and the registry of the library. -/
structure Computer where
  files : Files
  listDevices : Registry

/-- What the call is for a registry. -/
def SystemOp.deviceOp : SystemOp → DeviceOp
  | .device op => op
  | .getFile _ _ => .read

theorem System.exists_of_request {sys : System} {files files' : Files} {granted : Bool}
    {path : WStr} {call : List WStr → FileCall}
    (h : sys.request files granted path call = some files') :
    granted = true ∧ ∃ ks, sys.keys path = some ks ∧ files.step (call ks) = some files' := by
  rw [request, Option.ite_none_right_eq_some] at h
  exact ⟨h.1, Option.bind_eq_some_iff.mp h.2⟩

/-- The files of the computer as a mounted volume. -/
def System.volume (sys : System) (files : Files) (granted : Bool) : MountedVolume where
  deleteFile path := (sys.request files granted path .unlink).isSome
  removeDirectory path := (sys.request files granted path .rmdir).isSome
  itemAt path := ((sys.keys path).bind files.look).map fileMode
  wstat path :=
    if path.getLast? = some backslash then none
    else ((sys.keys path).bind files.look).map fileMode
  itemAt_of_deleteFile path h := by
    obtain ⟨files', h⟩ := Option.isSome_iff_exists.mp h
    obtain ⟨-, ks, hks, hstep⟩ := sys.exists_of_request h
    have hallows : files.look ks ≠ none ∧ files.look ks ≠ some .dir := DirTree.allows_of_step hstep
    rw [hks, Option.bind_some]
    rcases hlook : files.look ks with _ | _ | bytes
    · exact absurd hlook hallows.1
    · exact absurd hlook hallows.2
    · rfl
  itemAt_of_removeDirectory path h := by
    obtain ⟨files', h⟩ := Option.isSome_iff_exists.mp h
    obtain ⟨-, ks, hks, hstep⟩ := sys.exists_of_request h
    rw [hks, Option.bind_some, (DirTree.allows_of_step hstep).2.1]
    rfl
  itemAt_of_wstat path mode h := (Option.ite_none_left_eq_some.mp h).2
  wstat_of_itemAt path mode h hlast := by rw [if_neg hlast, h]

/-- What the entry points for the MTP devices run on. -/
def System.host (sys : System) (files : Files) (c : SystemCall) : Host where
  world :=
    { sameName := sys.sameName
      content := fun path => (sys.content files path).getD []
      mscCopy := fun src dest => ((sys.mscCopy files c.io src dest).map Prod.fst).getD 0 }
  jni := sys.jni
  createDirectory path := (sys.request files c.granted path .mkdir).isSome
  volume := (sys.volume files c.granted).toVolume

namespace Computer

variable (sys : System) (s : Computer) (c : SystemCall)

/-- The files behind a call on a mounted volume. -/
def volumeCall (usbdev : UsbDevice) : Option Files :=
  let copy := fun src dest =>
    if 0 < usbdev.mountpoint.length then
      (sys.mscCopy s.files c.io (cStr src) (cStr dest)).map Prod.snd
    else some s.files
  let change := fun (path : WStr) (call : List WStr → FileCall) =>
    if path.length = 0 ∨ path = [slash] then some s.files
    else some ((sys.request s.files c.granted (fullDevicepath usbdev path) call).getD s.files)
  match c.op with
  | .device (.sendFile srcfile destfile _) =>
    copy (sys.jni.ca2w srcfile).1 (usbdev.mountpoint ++ (sys.jni.ca2w destfile).1)
  | .getFile localdest pmpsrc =>
    copy (usbdev.mountpoint ++ (sys.jni.ca2w pmpsrc).1) (sys.jni.ca2w localdest).1
  | .device (.createFolder path) => change (sys.jni.ca2w path).1 .mkdir
  | .device (.deleteFile path) => change (sys.jni.ca2w path).1 .unlink
  | .device (.deleteFolder path) => change (sys.jni.ca2w path).1 .rmdir
  | .device (.updateMetadata _ _) | .device .read => some s.files

/-- The files behind a call on an MTP device, of which only `Read` writes any. -/
def mtpCall (usbdev : UsbDevice) : Files :=
  match c.op with
  | .getFile localdest pmpsrc =>
    match (readFile (sys.host s.files c).world c.hr usbdev (sys.jni.ca2w pmpsrc).1
        (sys.jni.ca2w localdest).1).read,
      items usbdev.rootStorage (readKeys (sys.jni.ca2w pmpsrc).1) with
    | some e, some info =>
      let written := if Succeeded e then info.content else info.content.rdrop c.io.lost
      (sys.request s.files c.io.opensTo (cStr (sys.jni.ca2w localdest).1)
        (.write · written)).getD s.files
    | _, _ => s.files
  | _ => s.files

/-- The files behind a call. -/
def filesAfter : Option Files :=
  match getInternaldevice sys.jni s.listDevices c.jdev with
  | none => some s.files
  | some usbdev =>
    match usbdev.mode with
    | .msc => s.volumeCall sys c usbdev
    | .mtp => some (s.mtpCall sys c usbdev)
    | _ => some s.files

/-- **One call**; a fault, and a stream that is not open, end the process. -/
def step : Option Computer :=
  (s.filesAfter sys c).bind fun files =>
    (s.listDevices.perform (sys.host s.files c) ⟨c.op.deviceOp, c.jdev, c.hr⟩).toOption.map
      fun listDevices => ⟨files, listDevices⟩

/-- What a call returns to Java; what the reading calls return is their own. -/
def ret : Option Int64 :=
  let pasmgr := some s.listDevices
  match c.op with
  | .device (.sendFile srcfile destfile metadata) =>
    (sendFile (sys.host s.files c).world sys.jni pasmgr c.hr c.jdev srcfile destfile
      metadata).toOption.map SendCall.ret
  | .getFile localdest pmpsrc =>
    some (getFile (sys.host s.files c).world sys.jni pasmgr c.hr c.jdev localdest pmpsrc).ret
  | .device (.createFolder path) =>
    some (sys.jni.createFolder (sys.host s.files c).createDirectory pasmgr c.hr c.jdev path).ret
  | .device (.deleteFile path) =>
    some (deleteFile (sys.host s.files c).volume sys.jni pasmgr c.hr c.jdev path).ret
  | .device (.deleteFolder path) =>
    some (deleteFolder (sys.host s.files c).volume sys.jni pasmgr c.hr c.jdev path).ret
  | .device (.updateMetadata path metadata) =>
    some (updateMetadata sys.jni pasmgr c.hr c.jdev path metadata).ret
  | .device .read => none

end Computer

/-! ## What a call on a volume returns, and what it leaves -/

/-- A call that changes a directory of a volume, and the change. -/
inductive SystemOp.Changes : SystemOp → WStr → (List WStr → FileCall) → Prop
  | createFolder (path : WStr) : Changes (.device (.createFolder path)) path .mkdir
  | deleteFile (path : WStr) : Changes (.device (.deleteFile path)) path .unlink
  | deleteFolder (path : WStr) : Changes (.device (.deleteFolder path)) path .rmdir

/-- A call that copies to or from a volume, and the two files. -/
inductive SystemOp.Copies (sys : System) (mountpoint : WStr) : SystemOp → WStr → WStr → Prop
  | sendFile (srcfile destfile : WStr) (metadata : Option FileMetadata) :
      Copies sys mountpoint (.device (.sendFile srcfile destfile metadata))
        (cStr (sys.jni.ca2w srcfile).1) (cStr (mountpoint ++ (sys.jni.ca2w destfile).1))
  | getFile (localdest pmpsrc : WStr) :
      Copies sys mountpoint (.getFile localdest pmpsrc)
        (cStr (mountpoint ++ (sys.jni.ca2w pmpsrc).1)) (cStr (sys.jni.ca2w localdest).1)

section Volume

variable {sys : System} {s : Computer} {c : SystemCall} {usbdev : UsbDevice}
  (hdev : s.listDevices.device (sys.jni.ca2w c.jdev).1 = some usbdev) (hmsc : usbdev.mode = .msc)

include hdev hmsc

/-- **A call that changes a directory** returns success and leaves the change that Windows makes, or
returns something else and leaves the files alone. -/
theorem volumeCall_of_changes {op : SystemOp} {path : WStr} {call : List WStr → FileCall}
    (hop : c.op = op) (hchanges : op.Changes path call) :
    (∃ files, sys.request s.files c.granted (fullDevicepath usbdev (sys.jni.ca2w path).1) call =
        some files ∧
      s.ret sys c = some Error.success.toInt64 ∧ s.volumeCall sys c usbdev = some files) ∨
    s.ret sys c ≠ some Error.success.toInt64 ∧ s.volumeCall sys c usbdev = some s.files := by
  have hwrong : Error.wrongParameter.toInt64 ≠ Error.success.toInt64 := by decide
  have hnotfound : Error.fileNotfound.toInt64 ≠ Error.success.toInt64 := by decide
  have hunknown : Error.unknown.toInt64 ≠ Error.success.toInt64 := by decide
  have hfound := (getInternaldevice_eq sys.jni s.listDevices c.jdev).trans hdev
  -- the calls differ in the code of a refusal
  obtain ⟨refused, hrefused, hret⟩ : ∃ refused, refused ≠ Error.success.toInt64 ∧
      s.ret sys c = some (if (sys.jni.ca2w path).1.length = 0 ∨ (sys.jni.ca2w path).1 = [slash] then
          Error.wrongParameter.toInt64
        else if (sys.request s.files c.granted (fullDevicepath usbdev (sys.jni.ca2w path).1)
          call).isSome then Error.success.toInt64 else refused) := by
    rw [Computer.ret, hop]
    cases hchanges with
    | createFolder =>
      refine ⟨_, hnotfound, ?_⟩
      simp only [Jni.createFolder, hfound, hmsc, apply_ite CreateCall.ret]
      rfl
    | deleteFile =>
      refine ⟨_, hunknown, ?_⟩
      simp only [deleteFile, deleteItem, hfound, hmsc, apply_ite DeleteCall.ret]
      rfl
    | deleteFolder =>
      refine ⟨_, hunknown, ?_⟩
      simp only [deleteFolder, deleteItem, hfound, hmsc, apply_ite DeleteCall.ret]
      rfl
  have hfiles : s.volumeCall sys c usbdev =
      if (sys.jni.ca2w path).1.length = 0 ∨ (sys.jni.ca2w path).1 = [slash] then some s.files
      else some ((sys.request s.files c.granted (fullDevicepath usbdev (sys.jni.ca2w path).1)
        call).getD s.files) := by
    rw [Computer.volumeCall, hop]
    cases hchanges <;> rfl
  rw [hret, hfiles]
  split
  · exact .inr ⟨by simpa using hwrong, rfl⟩
  cases sys.request s.files c.granted (fullDevicepath usbdev (sys.jni.ca2w path).1) call with
  | none => exact .inr ⟨by simpa using hrefused, rfl⟩
  | some files => exact .inl ⟨files, rfl, by simp, rfl⟩

/-- **A copy** returns and leaves what `msc_copy` returns and leaves; where `msc_copy` ends the
process, so does the call. -/
theorem volumeCall_of_copies {op : SystemOp} {src dest : WStr} (hmount : usbdev.mountpoint ≠ [])
    (hop : c.op = op) (hcopies : op.Copies sys usbdev.mountpoint src dest) :
    (∃ ret files, sys.mscCopy s.files c.io src dest = some (ret, files) ∧
      s.ret sys c = some ret.toInt64 ∧ s.volumeCall sys c usbdev = some files) ∨
    sys.mscCopy s.files c.io src dest = none ∧ s.volumeCall sys c usbdev = none := by
  have hpos := List.length_pos_iff.mpr hmount
  have hfound := (getInternaldevice_eq sys.jni s.listDevices c.jdev).trans hdev
  rw [Computer.ret, Computer.volumeCall, hop]
  cases hcopy : sys.mscCopy s.files c.io src dest with
  | none =>
    refine .inr ⟨rfl, ?_⟩
    cases hcopies <;> simp only [if_pos hpos, hcopy, Option.map_none]
  | some result =>
    obtain ⟨ret, files⟩ := result
    refine .inl ⟨ret, files, rfl, ?_⟩
    cases hcopies with
    | sendFile =>
      simp only [sendFile, hfound, transferFile, hmsc, if_pos hpos, System.host, hcopy]
      exact ⟨rfl, rfl⟩
    | getFile =>
      simp only [getFile, hfound, readFile, hmsc, if_pos hpos, System.host, hcopy]
      exact ⟨rfl, rfl⟩

end Volume

/-! ## The one path of a call -/

/-- A call on a device of that mode and mountpoint may change what lies at a path. -/
def SystemOp.Names (sys : System) (mode : DeviceMode) (mountpoint : WStr) (q : List WStr) :
    SystemOp → Prop
  | .device (.sendFile _ destfile _) =>
    mode = .msc ∧ sys.keys (cStr (mountpoint ++ (sys.jni.ca2w destfile).1)) = some q
  | .getFile localdest _ => sys.keys (cStr (sys.jni.ca2w localdest).1) = some q
  | .device (.createFolder path) | .device (.deleteFile path) | .device (.deleteFolder path) =>
    mode = .msc ∧ sys.keys (mountpoint ++ (sys.jni.ca2w path).1.map fun c =>
      if c = slash then backslash else c) = some q
  | .device (.updateMetadata _ _) | .device .read => False

def SystemCall.Names (sys : System) (r : Registry) (c : SystemCall) (q : List WStr) : Prop :=
  ∃ usbdev, r.device (sys.jni.ca2w c.jdev).1 = some usbdev ∧
    c.op.Names sys usbdev.mode usbdev.mountpoint q

section Path

variable {sys : System} {s s' : Computer} {c : SystemCall} {files' : Files} {usbdev : UsbDevice}

/-- A request that may be refused. -/
theorem request_getD (files : Files) (granted : Bool) {path : WStr}
    {call : List WStr → FileCall} :
    (sys.request files granted path call).getD files = files ∨
      ∃ ks, sys.keys path = some ks ∧
        files.step (call ks) = some ((sys.request files granted path call).getD files) := by
  cases h : sys.request files granted path call with
  | none => exact .inl rfl
  | some files' =>
    obtain ⟨-, ks, hks, hstep⟩ := sys.exists_of_request h
    exact .inr ⟨ks, hks, hstep⟩

/-- **A copy** writes its target, if anything. -/
theorem files_mscCopy {files : Files} {io : CopyIo} {src dest : WStr} {ret : HRESULT}
    (h : sys.mscCopy files io src dest = some (ret, files')) :
    files' = files ∨ ∃ ks bytes, sys.keys dest = some ks ∧
      files.step (.write ks bytes) = some files' := by
  rw [System.mscCopy] at h
  split at h
  · obtain ⟨-, rfl⟩ := Prod.mk.inj (Option.some.inj h)
    split
    · refine (request_getD files io.opensTo).imp id fun hstep => ?_
      obtain ⟨ks, hks, hstep⟩ := hstep
      exact ⟨ks, _, hks, hstep⟩
    · exact .inl rfl
  · simp at h

theorem edits_of_volumeCall (hdev : s.listDevices.device (sys.jni.ca2w c.jdev).1 = some usbdev)
    (hmsc : usbdev.mode = .msc) (h : s.volumeCall sys c usbdev = some files') :
    files' = s.files ∨
      ∃ call, c.Names sys s.listDevices call.path ∧ s.files.step call = some files' := by
  have hcopy : ∀ {src dest : WStr},
      (if 0 < usbdev.mountpoint.length then
          (sys.mscCopy s.files c.io (cStr src) (cStr dest)).map Prod.snd
        else some s.files) = some files' →
      (∀ q, sys.keys (cStr dest) = some q → c.Names sys s.listDevices q) →
      files' = s.files ∨
        ∃ call, c.Names sys s.listDevices call.path ∧ s.files.step call = some files' := by
    intro src dest hrun hnames
    split at hrun
    · obtain ⟨⟨ret, files''⟩, hreturned, rfl⟩ := Option.map_eq_some_iff.mp hrun
      refine (files_mscCopy hreturned).imp id fun hwrite => ?_
      obtain ⟨ks, bytes, hks, hstep⟩ := hwrite
      exact ⟨.write ks bytes, hnames ks hks, hstep⟩
    · exact .inl (Option.some.inj hrun).symm
  have hchange : ∀ {path : WStr} {call : List WStr → FileCall}, (∀ ks, (call ks).path = ks) →
      (if path.length = 0 ∨ path = [slash] then some s.files
        else some ((sys.request s.files c.granted (fullDevicepath usbdev path) call).getD
          s.files)) = some files' →
      (∀ q, sys.keys (fullDevicepath usbdev path) = some q → c.Names sys s.listDevices q) →
      files' = s.files ∨
        ∃ call, c.Names sys s.listDevices call.path ∧ s.files.step call = some files' := by
    intro path call hpath hrun hnames
    split at hrun
    · exact .inl (Option.some.inj hrun).symm
    · obtain rfl := Option.some.inj hrun
      refine (request_getD s.files c.granted).imp id fun hrequest => ?_
      obtain ⟨ks, hks, hstep⟩ := hrequest
      exact ⟨call ks, (hpath ks).symm ▸ hnames ks hks, hstep⟩
  have hnames : ∀ q, c.op.Names sys .msc usbdev.mountpoint q → c.Names sys s.listDevices q :=
    fun q hq => ⟨usbdev, hdev, hmsc ▸ hq⟩
  rw [Computer.volumeCall] at h
  generalize hop : c.op = op at h hnames
  cases op with
  | getFile localdest pmpsrc => exact hcopy h fun q hq => hnames q hq
  | device op =>
    cases op with
    | sendFile srcfile destfile metadata => exact hcopy h fun q hq => hnames q ⟨rfl, hq⟩
    | createFolder path => exact hchange (fun _ => rfl) h fun q hq => hnames q ⟨rfl, hq⟩
    | deleteFile path => exact hchange (fun _ => rfl) h fun q hq => hnames q ⟨rfl, hq⟩
    | deleteFolder path => exact hchange (fun _ => rfl) h fun q hq => hnames q ⟨rfl, hq⟩
    | updateMetadata path metadata => exact .inl (Option.some.inj h).symm
    | read => exact .inl (Option.some.inj h).symm

theorem edits_of_mtpCall (hdev : s.listDevices.device (sys.jni.ca2w c.jdev).1 = some usbdev) :
    s.mtpCall sys c usbdev = s.files ∨ ∃ call, c.Names sys s.listDevices call.path ∧
      s.files.step call = some (s.mtpCall sys c usbdev) := by
  rw [Computer.mtpCall]
  split
  case _ localdest pmpsrc hop =>
    split
    · refine (request_getD s.files c.io.opensTo).imp id fun hrequest => ?_
      obtain ⟨ks, hks, hstep⟩ := hrequest
      exact ⟨_, ⟨usbdev, hdev, by rw [hop]; exact hks⟩, hstep⟩
    · exact .inl rfl
  · exact .inl rfl

theorem filesAfter_of_mtp (hdev : s.listDevices.device (sys.jni.ca2w c.jdev).1 = some usbdev)
    (hmtp : usbdev.mode = .mtp) : s.filesAfter sys c = some (s.mtpCall sys c usbdev) := by
  rw [Computer.filesAfter, getInternaldevice_eq, hdev]
  simp only [hmtp]

/-- **A call changes the files at one path**, if at all. -/
theorem edits_of_filesAfter (h : s.filesAfter sys c = some files') :
    files' = s.files ∨
      ∃ call, c.Names sys s.listDevices call.path ∧ s.files.step call = some files' := by
  rw [Computer.filesAfter, getInternaldevice_eq] at h
  cases hdev : s.listDevices.device (sys.jni.ca2w c.jdev).1 with
  | none =>
    rw [hdev] at h
    exact .inl (Option.some.inj h).symm
  | some usbdev =>
    simp only [hdev] at h
    split at h
    case _ hmsc => exact edits_of_volumeCall hdev hmsc h
    case _ hmtp =>
      obtain rfl := Option.some.inj h
      exact edits_of_mtpCall hdev
    · exact .inl (Option.some.inj h).symm

end Path

/-! ## Runs -/

section Run

variable {sys : System} {s s' : Computer} {c : SystemCall} {q : List WStr}

/-- A step, and its two halves. -/
theorem step_computer (h : s.step sys c = some s') :
    s.filesAfter sys c = some s'.files ∧
      s.listDevices.perform (sys.host s.files c) ⟨c.op.deviceOp, c.jdev, c.hr⟩ =
        .ok s'.listDevices := by
  obtain ⟨files, hfiles, hrun⟩ := Option.bind_eq_some_iff.mp h
  obtain ⟨listDevices, hperform, rfl⟩ := Option.map_eq_some_iff.mp hrun
  refine ⟨hfiles, ?_⟩
  cases hok : s.listDevices.perform (sys.host s.files c) ⟨c.op.deviceOp, c.jdev, c.hr⟩ with
  | error fault => simp [hok, Except.toOption] at hperform
  | ok r =>
    rw [hok] at hperform
    rw [Option.some.inj hperform]

/-- …on a volume. -/
theorem volumeCall_of_step {usbdev : UsbDevice} (h : s.step sys c = some s')
    (hdev : s.listDevices.device (sys.jni.ca2w c.jdev).1 = some usbdev)
    (hmsc : usbdev.mode = .msc) : s.volumeCall sys c usbdev = some s'.files := by
  have hfiles := (step_computer h).1
  rw [Computer.filesAfter, getInternaldevice_eq, hdev] at hfiles
  simpa only [hmsc] using hfiles

/-- No call changes what another one names. -/
theorem names_of_step (h : s.step sys c = some s') (c' : SystemCall) (q : List WStr) :
    c'.Names sys s'.listDevices q ↔ c'.Names sys s.listDevices q := by
  rcases leaves_of_perform (step_computer h).2 with ⟨-, hsame⟩ | ⟨usbdev, t, hdev, -, hupdate⟩
  · rw [SystemCall.Names, SystemCall.Names, hsame]
  · rw [SystemCall.Names, SystemCall.Names, hupdate, Function.update_apply]
    split
    case isTrue heq =>
      rw [heq, hdev]
      constructor
      · rintro ⟨_, ⟨⟩, hq⟩
        exact ⟨usbdev, rfl, hq⟩
      · rintro ⟨_, ⟨⟩, hq⟩
        exact ⟨_, rfl, hq⟩
    case isFalse => exact Iff.rfl

/-- **What no call of a run names** stays as it is. -/
theorem look_final (s : Computer) (calls : List SystemCall)
    (hnames : ∀ c ∈ calls, ¬ c.Names sys s.listDevices q) :
    (Transition.final (Computer.step sys) s calls).files.look q = s.files.look q := by
  refine (Transition.final_inv
    (fun s' : Computer => (∀ (c : SystemCall) q,
      c.Names sys s'.listDevices q ↔ c.Names sys s.listDevices q) ∧
        s'.files.look q = s.files.look q)
    (fun _ _ => True) (fun c : SystemCall => ¬ c.Names sys s.listDevices q)
    (fun s₁ c s₂ hc hs _ h => ?_) calls hnames ⟨fun _ _ => Iff.rfl, rfl⟩ fun _ _ => trivial).2
  refine ⟨fun c' q => (names_of_step h c' q).trans (hs.1 c' q), ?_⟩
  rcases edits_of_filesAfter (step_computer h).1 with hsame | ⟨call, hcall, hstep⟩
  · rw [hsame, hs.2]
  · have hne : q ≠ call.path := by
      rintro rfl
      exact hc ((hs.1 c _).mp hcall)
    rw [DirTree.look_step_of_ne hstep hne, hs.2]

end Run

/-- **What a run of calls does to the computer's files.**  Whatever devices they are on and whatever
fails: each call changes at most the one path that it names on the device it finds; what no call
names stays; and so do the directories on the way to it, even if calls name these. -/
theorem files_run (sys : System) (s : Computer) (calls : List SystemCall) :
    (∀ e ∈ Transition.fired (Computer.step sys) s calls,
      e.post.files = e.pre.files ∨
        ∃ call, e.label.Names sys s.listDevices call.path ∧
          e.pre.files.step call = some e.post.files) ∧
    ∀ q, (∀ c ∈ calls, ¬ c.Names sys s.listDevices q) →
      (Transition.final (Computer.step sys) s calls).files.look q = s.files.look q ∧
        ((s.files.look q).isSome → ∀ p, p <+: q → p ≠ q →
          (Transition.final (Computer.step sys) s calls).files.look p = some .dir) := by
  constructor
  · intro e he
    have hnames := (Transition.forall_fired_inv
      (fun s' : Computer => ∀ (c : SystemCall) q,
        c.Names sys s'.listDevices q ↔ c.Names sys s.listDevices q)
      (fun _ _ => True) (fun _ => True)
      (fun _ _ _ _ hs _ h c' q => (names_of_step h c' q).trans (hs c' q)) calls
      (fun _ _ => trivial) (fun _ _ => Iff.rfl) (fun _ _ => trivial) e he).1
    have hstep := step_computer (Transition.step_of_mem_fired he)
    refine (edits_of_filesAfter hstep.1).imp id fun hedit => ?_
    obtain ⟨call, hcall, hedit⟩ := hedit
    exact ⟨call, (hnames _ _).mp hcall, hedit⟩
  · intro q hq
    have hsame := look_final s calls hq
    exact ⟨hsame, fun hsome p hpre hne => DirTree.look_dir_above (hsame.symm ▸ hsome) hpre hne⟩

/-! ## What a copy leaves -/

/-- Every write takes its whole block, and all of them reach the disk. -/
structure CopyIo.Whole (io : CopyIo) : Prop where
  fwrite : ∀ i, maxBuf ≤ io.fwrite i
  lost : io.lost = 0

section Copy

variable {sys : System} {files files' : Files} {io : CopyIo} {src dest : WStr}

theorem length_bytes_le_maxBuf (s : SourceStream) (i : ℕ) : (s.bytes i).length ≤ maxBuf := by
  rw [SourceStream.bytes, SourceStream.fread]
  cases s.short i with
  | none => exact List.length_take_le _ _
  | some n => exact (List.length_take_le _ _).trans (min_le_right _ _)

theorem content_of_write {path : WStr} {ks : List WStr} {bytes : List UInt8}
    (hks : sys.keys path = some ks) (h : files.step (.write ks bytes) = some files') :
    sys.content files' path = some bytes := by
  have hself : files'.look ks = some (.file bytes) := DirTree.look_step_self h
  rw [System.content, hks, Option.bind_some, hself]

theorem content_congr {path : WStr}
    (h : ∀ ks, sys.keys path = some ks → files'.look ks = files.look ks) :
    sys.content files' path = sys.content files path := by
  rw [System.content, System.content]
  cases hks : sys.keys path with
  | none => rfl
  | some ks => rw [Option.bind_some, Option.bind_some, h ks hks]

/-- A copy that returns zero has read a file and opened its target. -/
theorem opened_of_mscCopy (h : sys.mscCopy files io src dest = some (0, files')) :
    ∃ content ks opened, sys.content files src = some content ∧ sys.keys dest = some ks ∧
      io.opensTo = true ∧ sys.source files io src = some content ∧
      sys.opened files io src dest = some opened ∧ files.step (.write ks []) = some opened := by
  have hrun : (sys.copyRun files io src dest).result = .returned 0 := by
    rw [System.mscCopy] at h
    split at h
    case _ ret hret => rw [hret, (Prod.mk.inj (Option.some.inj h)).1]
    · simp at h
  cases hsource : sys.source files io src with
  | none =>
    rw [System.copyRun, hsource] at hrun
    simp [mscCopyRun] at hrun
  | some content =>
    cases hopened : sys.opened files io src dest with
    | none =>
      rw [System.copyRun, hsource, hopened] at hrun
      simp only [Option.map_some, Option.map_none, mscCopyRun_of_none] at hrun
      split at hrun
      · simp at hrun
      · split at hrun <;> simp at hrun
    | some opened =>
      have hcontent : sys.content files src = some content :=
        (Option.ite_none_right_eq_some.mp hsource).2
      rw [System.opened, hsource, Option.isSome_some, if_pos rfl] at hopened
      obtain ⟨hopens, ks, hks, hstep⟩ := sys.exists_of_request hopened
      exact ⟨content, ks, opened, hcontent, hks, hopens, rfl, rfl, hstep⟩

/-- **What a copy writes**, if it returns zero and its writes are whole: the source, or nothing when
the two are one file… -/
theorem step_of_mscCopy {content : List UInt8}
    (h : sys.mscCopy files io src dest = some (0, files'))
    (hcontent : sys.content files src = some content) (hwhole : io.Whole) :
    ∃ ks, sys.keys dest = some ks ∧ io.opensTo = true ∧
      files.step (.write ks (if sys.keys src = sys.keys dest then [] else content)) =
        some files' := by
  obtain ⟨content', ks, opened, hcontent', hks, hopens, hsource, hopened, hstep⟩ :=
    opened_of_mscCopy h
  obtain rfl : content' = content := Option.some.inj (hcontent'.symm.trans hcontent)
  -- what is read behind the opening of the target
  have hread : (sys.content opened src).getD [] =
      if sys.keys src = sys.keys dest then [] else content' := by
    by_cases heq : sys.keys src = sys.keys dest
    · rw [if_pos heq, content_of_write (heq.trans hks) hstep, Option.getD_some]
    · have hsame : sys.content opened src = sys.content files src :=
        content_congr fun ls hls => DirTree.look_step_of_ne hstep fun h =>
          heq (by rw [hls, hks, h]; rfl)
      rw [if_neg heq, hsame, hcontent, Option.getD_some]
  generalize hleft : (if sys.keys src = sys.keys dest then [] else content') = left at hread ⊢
  have hrun : sys.copyRun files io src dest =
      mscCopyRun (some ⟨left, io.short⟩) (some io.fwrite) io.pnotif := by
    rw [System.copyRun, hsource, hopened]
    simp only [Option.map_some, Option.elim_some, hread]
  have hsafe : CopiesSafely (some ⟨left, io.short⟩) (some io.fwrite) io.pnotif := by
    rw [copiesSafely_iff]
    rintro _ ⟨⟩
    refine ⟨fun hnone => by simp at hnone, ?_⟩
    rintro _ i ⟨⟩ - -
    exact (length_bytes_le_maxBuf _ i).trans (hwhole.fwrite i)
  rw [System.mscCopy, hrun] at h
  split at h
  case _ ret hret =>
    obtain ⟨rfl, rfl⟩ := Prod.mk.inj (Option.some.inj h)
    obtain ⟨_, ⟨⟩, hreceived⟩ := hsafe.complete hret
    rw [hopened, Option.isSome_some, if_pos rfl, hreceived, hwhole.lost, List.rdrop_zero]
    have hallows : files.Allows (.write ks []) := DirTree.allows_of_step hstep
    have hwrites : files.Allows (.write ks left) := hallows
    obtain ⟨written, hwritten⟩ :=
      Option.isSome_iff_exists.mp (DirTree.step_isSome_iff.mpr hwrites)
    refine ⟨ks, hks, hopens, ?_⟩
    rw [System.request, hopens, if_pos rfl, hks, Option.bind_some, hwritten, Option.getD_some]
  · simp at h

/-- …which is then what lies at its target. -/
theorem content_of_mscCopy {content : List UInt8}
    (h : sys.mscCopy files io src dest = some (0, files'))
    (hcontent : sys.content files src = some content) (hwhole : io.Whole) :
    sys.content files' dest = some (if sys.keys src = sys.keys dest then [] else content) := by
  obtain ⟨ks, hks, -, hstep⟩ := step_of_mscCopy h hcontent hwhole
  exact content_of_write hks hstep

end Copy

/-! ## Round trips -/

section RoundTrip

variable {sys : System} {s s' : Computer} {c : SystemCall} {id : WStr} {usbdev : UsbDevice}

/-- A known device keeps all but its tree… -/
theorem device_of_step (h : s.step sys c = some s')
    (hdev : ∃ t, s.listDevices.device id = some { usbdev with rootStorage := t }) :
    ∃ t, s'.listDevices.device id = some { usbdev with rootStorage := t } := by
  obtain ⟨t, hdev⟩ := hdev
  rcases leaves_of_perform (step_computer h).2 with ⟨-, hsame⟩ | ⟨usbdev', t', hdev', -, hupdate⟩
  · exact ⟨t, by rw [hsame, hdev]⟩
  · rw [hupdate, Function.update_apply]
    split
    case isTrue heq =>
      rw [← heq, hdev] at hdev'
      obtain rfl := Option.some.inj hdev'
      exact ⟨t', rfl⟩
    case isFalse => exact ⟨t, hdev⟩

/-- …through a whole run. -/
theorem device_final (s : Computer) (calls : List SystemCall)
    (hdev : s.listDevices.device id = some usbdev) :
    ∃ t, (Transition.final (Computer.step sys) s calls).listDevices.device id =
      some { usbdev with rootStorage := t } :=
  Transition.final_inv
    (fun s' : Computer => ∃ t, s'.listDevices.device id = some { usbdev with rootStorage := t })
    (fun _ _ => True) (fun _ => True) (fun _ _ _ _ hs _ h => device_of_step h hs) calls
    (fun _ _ => trivial) ⟨usbdev.rootStorage, hdev⟩ fun _ _ => trivial

variable (hdev : s.listDevices.device (sys.jni.ca2w c.jdev).1 = some usbdev)
  (hmsc : usbdev.mode = .msc) (hmount : usbdev.mountpoint ≠ [])

include hdev hmsc hmount

/-- A copy that returns success. -/
theorem mscCopy_of_copies {op : SystemOp} {src dest : WStr} (hop : c.op = op)
    (hcopies : op.Copies sys usbdev.mountpoint src dest) (h : s.step sys c = some s')
    (hret : s.ret sys c = some 0) :
    sys.mscCopy s.files c.io src dest = some (0, s'.files) := by
  have hfiles := volumeCall_of_step h hdev hmsc
  rcases volumeCall_of_copies hdev hmsc hmount hop hcopies with
    ⟨ret, files, hcopy, hret', hfiles'⟩ | ⟨-, hno⟩
  · have hzero : ret.toInt64 = 0 := Option.some.inj (hret'.symm.trans hret)
    obtain rfl := Option.some.inj (hfiles'.symm.trans hfiles)
    rw [hcopy, toInt64_eq_zero.mp hzero]
  · simp [hno] at hfiles

end RoundTrip

/-- **What was sent to a volume can be got back**, through every run of later calls that do not name
it, on whatever devices: the bytes the source had, unless one of the two copies was made from a file
to itself, which leaves nothing. -/
theorem volume_roundtrip (sys : System) (s s₁ s₂ : Computer) (send get : SystemCall)
    (later : List SystemCall) (srcfile destfile localdest : WStr) (metadata : Option FileMetadata)
    (usbdev : UsbDevice) (content : List UInt8)
    (hdev : s.listDevices.device (sys.jni.ca2w send.jdev).1 = some usbdev)
    (hmsc : usbdev.mode = .msc) (hmount : usbdev.mountpoint ≠ [])
    (hsend : send.op = .device (.sendFile srcfile destfile metadata))
    (hget : get.op = .getFile localdest destfile) (hjdev : get.jdev = send.jdev)
    (hcontent : sys.content s.files (cStr (sys.jni.ca2w srcfile).1) = some content)
    (hstep₁ : s.step sys send = some s₁) (hret₁ : s.ret sys send = some 0)
    (hwhole₁ : send.io.Whole)
    (hlater : ∀ c ∈ later, ∀ q,
      sys.keys (cStr (usbdev.mountpoint ++ (sys.jni.ca2w destfile).1)) = some q →
        ¬ c.Names sys s.listDevices q)
    (hstep₂ : (Transition.final (Computer.step sys) s₁ later).step sys get = some s₂)
    (hret₂ : (Transition.final (Computer.step sys) s₁ later).ret sys get = some 0)
    (hwhole₂ : get.io.Whole) :
    sys.content s₂.files (cStr (sys.jni.ca2w localdest).1) =
      some (if sys.keys (cStr (sys.jni.ca2w srcfile).1) =
            sys.keys (cStr (usbdev.mountpoint ++ (sys.jni.ca2w destfile).1)) ∨
          sys.keys (cStr (usbdev.mountpoint ++ (sys.jni.ca2w destfile).1)) =
            sys.keys (cStr (sys.jni.ca2w localdest).1)
        then [] else content) := by
  -- the first copy
  have hcopy₁ := mscCopy_of_copies hdev hmsc hmount hsend (.sendFile srcfile destfile metadata)
    hstep₁ hret₁
  have hsent := content_of_mscCopy hcopy₁ hcontent hwhole₁
  -- what lies between
  have hnames : ∀ q, sys.keys (cStr (usbdev.mountpoint ++ (sys.jni.ca2w destfile).1)) = some q →
      ∀ c ∈ later, ¬ c.Names sys s₁.listDevices q := fun q hq c hc hnamed =>
    hlater c hc q hq ((names_of_step hstep₁ c q).mp hnamed)
  have hkept := (content_congr fun q hq => look_final s₁ later (hnames q hq)).trans hsent
  -- the second copy
  obtain ⟨t₁, hdev₁⟩ := device_of_step hstep₁ ⟨_, hdev⟩
  obtain ⟨t₂, hdev₂⟩ := device_final s₁ later hdev₁
  have hmsc₂ : ({ usbdev with rootStorage := t₂ } : UsbDevice).mode = .msc := hmsc
  have hcopy₂ := mscCopy_of_copies (hjdev ▸ hdev₂) hmsc₂ hmount hget (.getFile localdest destfile)
    hstep₂ hret₂
  rw [content_of_mscCopy hcopy₂ hkept hwhole₂]
  split_ifs <;> simp_all

/-! ## A memory stick -/

/-- A system that reads a path at both kinds of slashes. -/
def System.sample : System where
  jni := .identity
  sameName a b := makeLower a = makeLower b
  keys path :=
    some (((path.map fun c => if c = slash then backslash else c).splitOn backslash).map makeLower)

/-- Everything is opened, read and written. -/
def CopyIo.sample : CopyIo := ⟨true, true, fun _ => none, fun _ => maxBuf, 0, none⟩

/-- A device that is mounted as drive `E:`. -/
def memoryStick : UsbDevice :=
  { UsbDevice.emptyPlayer (wide "stick") with mode := .msc, mountpoint := wide "E:" }

/-- The computer with a file on drive `C:`, and the stick. -/
def stickMounted : Computer where
  files := Transition.final DirTree.step .empty [.mkdir [wide "c:"], .mkdir [wide "e:"],
    .write [wide "c:", wide "a.mp3"] [1, 2, 3]]
  listDevices := Registry.empty.store memoryStick

/-- A call on the stick. -/
def onStick (op : SystemOp) : SystemCall := ⟨op, wide "stick", fun _ => sOk, .sample, true⟩

def sendToStick : SystemCall :=
  onStick (.device (.sendFile (wide "C:\\a.mp3") (wide "/b.mp3") none))

def getFromStick : SystemCall := onStick (.getFile (wide "C:\\c.mp3") (wide "/b.mp3"))

def othersOnStick : List SystemCall :=
  [onStick (.device (.createFolder (wide "/Music"))),
    onStick (.device (.deleteFile (wide "/c.mp3")))]

/-- What the other calls name. -/
theorem names_othersOnStick {c : SystemCall} (hc : c ∈ othersOnStick) {q : List WStr}
    (h : c.Names .sample stickMounted.listDevices q) :
    q = [wide "e:", wide "music"] ∨ q = [wide "e:", wide "c.mp3"] := by
  obtain ⟨usbdev, hdev, hq⟩ := h
  rcases List.mem_pair.mp hc with rfl | rfl
  · obtain rfl : memoryStick = usbdev := Option.some.inj hdev
    exact .inl (Option.some.inj (hq.2.symm.trans (by decide)))
  · obtain rfl : memoryStick = usbdev := Option.some.inj hdev
    exact .inr (Option.some.inj (hq.2.symm.trans (by decide)))

theorem files_run_othersOnStick :
    (Transition.final (Computer.step .sample) stickMounted othersOnStick).files.look
      [wide "c:", wide "a.mp3"] = some (.file [1, 2, 3]) := by
  have hnames : ∀ c ∈ othersOnStick,
      ¬ c.Names .sample stickMounted.listDevices [wide "c:", wide "a.mp3"] := fun c hc h =>
    absurd (names_othersOnStick hc h) (by decide)
  exact ((files_run .sample stickMounted othersOnStick).2 _ hnames).1.trans (by decide)

theorem step_sendToStick : (stickMounted.step .sample sendToStick).isSome := by decide

theorem volume_roundtrip_memoryStick :
    ∃ s₁ s₂, stickMounted.step .sample sendToStick = some s₁ ∧
      (Transition.final (Computer.step .sample) s₁ othersOnStick).step .sample getFromStick =
        some s₂ ∧
      System.sample.content s₂.files (wide "C:\\c.mp3") = some [1, 2, 3] := by
  have hwhole : CopyIo.sample.Whole := ⟨fun _ => le_rfl, rfl⟩
  have hget : ((Transition.final (Computer.step .sample)
      ((stickMounted.step .sample sendToStick).get step_sendToStick) othersOnStick).step .sample
        getFromStick).isSome := by decide
  refine ⟨_, _, (Option.some_get step_sendToStick).symm, (Option.some_get hget).symm, ?_⟩
  refine (volume_roundtrip .sample stickMounted _ _ sendToStick getFromStick othersOnStick
    (wide "C:\\a.mp3") (wide "/b.mp3") (wide "C:\\c.mp3") none memoryStick [1, 2, 3] rfl rfl
    (by decide) rfl rfl rfl (by decide) (Option.some_get step_sendToStick).symm (by decide) hwhole
    ?_ (Option.some_get hget).symm (by decide) hwhole).trans (by decide)
  intro c hc q hq h
  rcases names_othersOnStick hc h with rfl | rfl <;> exact absurd hq (by decide)

end MtpRetag
