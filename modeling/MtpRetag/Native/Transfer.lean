import MtpRetag.Native.Substorage
import MtpRetag.Native.MetaItems
import MtpRetag.Native.DeviceInfo

/-!
# Native/Transfer — `usbdevice::transfer_file` and `UsbDevice.sendFile`

`transfer_file` walks to the destination folder, creating what is missing, describes the file, and
inserts it with one `Insert3`.  Two status variables run along: `hr`, and `ret`, which is returned.

`Conclusive` is the exact condition under which the returned code tells whether the file was
inserted (`ret_transferMtp_iff`); the worker's counter follows call by call
(`transferredOk_le_inserted_iff`).
-/

namespace MtpRetag

/-! ## `transfer_file` -/

def formatCodeMp3 : UInt32 := 0x3009

/-- The items `transfer_file` describes a file with. -/
def transferItems (m : FileMetadata) : List (MetaKey × MetaItem) :=
  [(.title, stringItem m.title), (.author, stringItem m.artist), (.albumTitle, stringItem m.album),
    (.genre, stringItem m.genre), (.formatCode, dwordItem formatCodeMp3)]

/-- What the native code asks from outside: the device's comparison of file names, the content of a
local file, and the copy to a mounted volume. -/
structure World where
  sameName : WStr → WStr → Bool
  content : WStr → List UInt8
  mscCopy : WStr → WStr → HRESULT

/-- An undefined access of `transfer_file`. -/
inductive Fault
  /-- `vpath[0]` of an empty `vpath`: `vpath.size() - 1` wraps around. -/
  | vpathOutOfBounds
  /-- `meta->title` for a NULL `meta`. -/
  | nullMeta
  deriving DecidableEq, Repr

/-- What `transfer_file` returns and leaves, and what happened on the way: the result of the final
`Insert3` if it was reached, its `spNewStorage`, the accepted metadata items, and whether it got a
progress sink. -/
structure TransferResult where
  ret : HRESULT
  tree : Storage
  insert3 : Option HRESULT := none
  spNewStorage : Option Pos := none
  accepted : List MetaKey := []
  progress : Bool := false

/-- The `spMeta` of the final `Insert3`, if an object could be created, and the accepted items. -/
def transferMetadata (hr : Outcomes) (p : Pos) (metadata : Option FileMetadata) :
    Except Fault (MetaData × List MetaKey) :=
  if hr (.createEmptyMetadata p) = sOk then
    match metadata with
    | none => .error .nullMeta
    | some m => .ok (addItems hr .empty (transferItems m), acceptedKeys hr (transferItems m))
  else .ok (.empty, [])

/-- The final `Insert3` into the folder at `p`.  `ret` keeps its value unless it returns `S_OK`; the
new storage is then read back for the log, whatever comes of that. -/
def insert3 (w : World) (hr : Outcomes) (t : Storage) (p : Pos) (file : StorageInfo)
    (accepted : List MetaKey) (progress : Bool) (ret : HRESULT) : TransferResult :=
  if Succeeded (hr (.insertFile p)) then
    { ret := if hr (.insertFile p) = sOk then 0 else ret
      tree := t.modifyAt (insertFile w.sameName file) p
      insert3 := some (hr (.insertFile p))
      spNewStorage := (t.sub? p).map fun n => p ++ [insertIndex w.sameName n file.name]
      accepted := accepted
      progress := progress }
  else
    { ret := ret, tree := t, insert3 := some (hr (.insertFile p)), accepted := accepted,
      progress := progress }

/-- The `try` block of `transfer_file` from the destination folder on.  `ret` is the value the walk
left; a thrown status replaces it. -/
def insertInto (w : World) (hr : Outcomes) (t : Storage) (p : Pos) (src filename : WStr)
    (metadata : Option FileMetadata) (progress : Bool) (ret : HRESULT) :
    Except Fault TransferResult :=
  if ¬ Succeeded (hr (.queryStorage3 p)) then .ok { ret := eFail, tree := t }
  else if ¬ Succeeded (hr (.queryControl3 p)) then .ok { ret := eFail, tree := t }
  else
    match transferMetadata hr p metadata with
    | .error fault => .error fault
    | .ok (spMeta, accepted) =>
      .ok (insert3 w hr t p ⟨cStr filename, .file, spMeta, w.content (cStr src)⟩ accepted progress
        ret)

/-- The `try` block of `transfer_file` behind the loop over the folders. -/
def afterWalk (w : World) (hr : Outcomes) (src dest : WStr) (metadata : Option FileMetadata)
    (progress : Bool) (walk : WalkResult) : Except Fault TransferResult :=
  match walk.storage with
  | .error hrex => .ok { ret := hrex, tree := walk.tree }
  | .ok none => .ok { ret := eFail, tree := walk.tree }
  | .ok (some p) => insertInto w hr walk.tree p src (fileName dest) metadata progress walk.ret

/-- `CoCreateInstance` and `QueryInterface` gave a progress sink. -/
def hasProgress (hr : Outcomes) : Bool := hr .coCreateInstance = sOk ∧ Succeeded (hr .queryProgress)

/-- `usbdevice::transfer_file` in MTP mode. -/
def transferMtp (w : World) (hr : Outcomes) (t : Storage) (src dest : WStr)
    (metadata : Option FileMetadata) : Except Fault TransferResult :=
  let vpath := splitString dest [slash] false
  if vpath = [] then .error .vpathOutOfBounds
  else
    afterWalk w hr src dest metadata (hasProgress hr)
      (walkFolders hr true sOk vpath.dropLast t (some []) 0)

/-- `usbdevice::transfer_file`. -/
def transferFile (w : World) (hr : Outcomes) (usbdev : UsbDevice) (src dest : WStr)
    (metadata : Option FileMetadata) : Except Fault TransferResult :=
  match usbdev.mode with
  | .msc =>
    if 0 < usbdev.mountpoint.length then
      .ok { ret := w.mscCopy (cStr src) (cStr (usbdev.mountpoint ++ dest))
            tree := usbdev.rootStorage }
    else .ok { ret := 1, tree := usbdev.rootStorage }
  | .mtp => transferMtp w hr usbdev.rootStorage src dest metadata
  | _ => .ok { ret := 1, tree := usbdev.rootStorage }

/-- What `sendFile` returns, the transfer it made if it found the device, and the registry it
leaves. -/
structure SendCall where
  ret : Int64
  transfer : Option TransferResult
  listDevices : Option Registry

/-- What the final `Insert3` returned, if it was reached. -/
def SendCall.insert3 (call : SendCall) : Option HRESULT :=
  call.transfer.bind TransferResult.insert3

/-- The accepted metadata items. -/
def SendCall.accepted (call : SendCall) : List MetaKey :=
  call.transfer.elim [] TransferResult.accepted

/-- `Java_jpmp_device_UsbDevice_sendFile`. -/
def sendFile (w : World) (jni : Jni) (pasmgr : Option Registry) (hr : Outcomes)
    (jdev srcfile destfile : WStr) (metadata : Option FileMetadata) : Except Fault SendCall :=
  match pasmgr with
  | none => .ok ⟨Error.initDeviceManager.toInt64, none, none⟩
  | some listDevices =>
    match getInternaldevice jni listDevices jdev with
    | none =>
      .ok ⟨Error.deviceNotMounted.toInt64, none,
        some (listDevices.getDevicebyid (jni.ca2w jdev).1).2⟩
    | some usbdev =>
      match transferFile w hr usbdev (jni.ca2w srcfile).1 (jni.ca2w destfile).1
          (metadata.map jni.filemetadata) with
      | .error fault => .error fault
      | .ok r =>
        .ok ⟨r.ret.toInt64, some r, some (listDevices.store { usbdev with rootStorage := r.tree })⟩

/-! ## The copy worker -/

/-- One file of a batch, with the outcomes its calls will meet. -/
structure CopyJob where
  source : WStr
  destination : WStr
  fm : FileMetadata
  hr : Outcomes

/-- The worker's `transferredOk`, and the number of files really inserted. -/
structure CopyCount where
  transferredOk : ℕ
  inserted : ℕ

/-- The loop of `doInBackground` over the queue; a fault ends the process. -/
def copyFiles (w : World) (jni : Jni) (jdev : WStr) : Option Registry → List CopyJob → CopyCount
  | _, [] => ⟨0, 0⟩
  | pasmgr, details :: queue =>
    match sendFile w jni pasmgr details.hr jdev details.source details.destination
        (some details.fm) with
    | .error _ => ⟨0, 0⟩
    | .ok call =>
      let rest := copyFiles w jni jdev call.listDevices queue
      ⟨rest.transferredOk + (if call.ret ≠ 0 then 0 else 1),
        rest.inserted + (if call.insert3 = some sOk then 1 else 0)⟩

/-! ## When the code tells the truth -/

/-- The walk to the destination folder arrives, and there either a `QueryInterface` fails or the
final `Insert3` returns `S_OK`. -/
def Conclusive (hr : Outcomes) (t : Storage) (dest : WStr) : Prop :=
  ∃ q, Walks hr true [] t.children (splitString dest [slash] false).dropLast q ∧
    (¬ Succeeded (hr (.queryStorage3 q)) ∨ ¬ Succeeded (hr (.queryControl3 q)) ∨
      hr (.insertFile q) = sOk)

/-- Every file of a batch is conclusive when its turn comes. -/
def ConclusiveBatch (w : World) (jni : Jni) (jdev : WStr) : Option Registry → List CopyJob → Prop
  | _, [] => True
  | pasmgr, details :: queue =>
    (∃ listDevices usbdev, pasmgr = some listDevices ∧
      getInternaldevice jni listDevices jdev = some usbdev ∧
      Conclusive details.hr usbdev.rootStorage (jni.ca2w details.destination).1) ∧
    ∀ call, sendFile w jni pasmgr details.hr jdev details.source details.destination
      (some details.fm) = .ok call → ConclusiveBatch w jni jdev call.listDevices queue

section Exact

variable {w : World} {hr : Outcomes} {t : Storage} {src dest filename : WStr} {m : FileMetadata}

theorem exists_transferMetadata (hr : Outcomes) (p : Pos) (m : FileMetadata) :
    ∃ md, transferMetadata hr p (some m) = .ok md := by
  rw [transferMetadata]
  split
  · exact ⟨_, rfl⟩
  · exact ⟨_, rfl⟩

theorem insert3_insert3 (p : Pos) (file : StorageInfo) (accepted : List MetaKey) (progress : Bool)
    (ret : HRESULT) :
    (insert3 w hr t p file accepted progress ret).insert3 = some (hr (.insertFile p)) := by
  rw [insert3]
  split <;> rfl

/-- The final `Insert3` leaves a cleared `ret` cleared. -/
theorem ret_insert3_zero (p : Pos) (file : StorageInfo) (accepted : List MetaKey)
    (progress : Bool) : (insert3 w hr t p file accepted progress 0).ret = 0 := by
  rw [insert3]
  split
  · exact ite_self 0
  · rfl

theorem missing_or_queries (hr : Outcomes) (p : Pos) :
    (¬ Succeeded (hr (.queryStorage3 p)) ∨ ¬ Succeeded (hr (.queryControl3 p))) ∨
      Succeeded (hr (.queryStorage3 p)) ∧ Succeeded (hr (.queryControl3 p)) := by
  rw [← not_and_or]
  exact (em _).symm

/-- A folder that lacks one of its two interfaces takes no file… -/
theorem insertInto_of_missing {p : Pos}
    (h : ¬ Succeeded (hr (.queryStorage3 p)) ∨ ¬ Succeeded (hr (.queryControl3 p)))
    (t : Storage) (src filename : WStr) (metadata : Option FileMetadata) (progress : Bool)
    (ret : HRESULT) :
    insertInto w hr t p src filename metadata progress ret = .ok { ret := eFail, tree := t } := by
  rw [insertInto]
  by_cases h3 : Succeeded (hr (.queryStorage3 p))
  · rw [if_neg (not_not.mpr h3), if_pos (h.resolve_left (not_not.mpr h3))]
  · rw [if_pos h3]

/-- …and one that has both gets to the metadata. -/
theorem insertInto_of_queries {p : Pos} (h3 : Succeeded (hr (.queryStorage3 p)))
    (hc : Succeeded (hr (.queryControl3 p))) (t : Storage) (src filename : WStr)
    (metadata : Option FileMetadata) (progress : Bool) (ret : HRESULT) :
    insertInto w hr t p src filename metadata progress ret =
      match transferMetadata hr p metadata with
      | .error fault => .error fault
      | .ok (spMeta, accepted) =>
        .ok (insert3 w hr t p ⟨cStr filename, .file, spMeta, w.content (cStr src)⟩ accepted
          progress ret) := by
  rw [insertInto, if_neg (not_not.mpr h3), if_neg (not_not.mpr hc)]

/-- From the destination folder on, with `ret` cleared: an interface that is missing gives `E_FAIL`
without an insertion; otherwise the code is `0`, whatever `Insert3` returned. -/
theorem insertInto_cases (w : World) (hr : Outcomes) (t : Storage) (src filename : WStr)
    (m : FileMetadata) (p : Pos) (progress : Bool) :
    ∃ r, insertInto w hr t p src filename (some m) progress 0 = .ok r ∧
      (((¬ Succeeded (hr (.queryStorage3 p)) ∨ ¬ Succeeded (hr (.queryControl3 p))) ∧
          r.ret = eFail ∧ r.insert3 = none) ∨
        (Succeeded (hr (.queryStorage3 p)) ∧ Succeeded (hr (.queryControl3 p)) ∧
          r.ret = 0 ∧ r.insert3 = some (hr (.insertFile p)))) := by
  rcases missing_or_queries hr p with hmiss | ⟨h3, hc⟩
  · exact ⟨_, insertInto_of_missing hmiss _ _ _ _ _ _, .inl ⟨hmiss, rfl, rfl⟩⟩
  · obtain ⟨md, hmd⟩ := exists_transferMetadata hr p m
    rw [insertInto_of_queries h3 hc, hmd]
    exact ⟨_, rfl, .inr ⟨h3, hc, ret_insert3_zero _ _ _ _, insert3_insert3 _ _ _ _ _⟩⟩

/-- A non-empty destination has components. -/
theorem transferMtp_of_ne_nil (h : dest ≠ []) (metadata : Option FileMetadata) :
    transferMtp w hr t src dest metadata =
      afterWalk w hr src dest metadata (hasProgress hr)
        (walkFolders hr true sOk (splitString dest [slash] false).dropLast t (some []) 0) := by
  rw [transferMtp, if_neg (splitString_slash_ne_nil h)]

/-- **When the code of a transfer is exact.**  Where `Insert3` was reached, it is zero. -/
theorem ret_transferMtp_iff (h : dest ≠ []) :
    ∃ r, transferMtp w hr t src dest (some m) = .ok r ∧ (r.insert3 ≠ none → r.ret = 0) ∧
      ((r.ret = 0 ↔ r.insert3 = some sOk) ↔ Conclusive hr t dest) := by
  have hroot : t.sub? [] = some t := Rose.sub?_nil t
  rw [transferMtp_of_ne_nil h]
  rcases walkFolders_storage_cases hr true (splitString dest [slash] false).dropLast
    hroot with ⟨q, hq, hstorage⟩ | ⟨hno, hstorage⟩
  · have hret := (walkFolders_of_walks hq hroot rfl).2
    rw [afterWalk, hstorage, hret]
    obtain ⟨r, hr', hcases⟩ := insertInto_cases w hr _ src (fileName dest) m q
      (hasProgress hr)
    refine ⟨r, hr', ?_⟩
    rcases hcases with ⟨hmiss, hret, hins⟩ | ⟨h3, hc, hret, hins⟩
    · refine ⟨fun hreached => absurd hins hreached,
        iff_of_true ?_ ⟨q, hq, or_assoc.mp (.inl hmiss)⟩⟩
      rw [hret, hins]
      decide
    · rw [hret, hins]
      refine ⟨fun _ => rfl, ?_⟩
      constructor
      · intro hiff
        exact ⟨q, hq, .inr (.inr (Option.some.inj (hiff.mp rfl)))⟩
      · rintro ⟨q', hq', hcond⟩
        obtain rfl := hq.unique hroot hq'
        rcases hcond with h3' | hc' | hins
        · exact absurd h3 h3'
        · exact absurd hc hc'
        · simp [hins]
  · rw [afterWalk, hstorage]
    refine ⟨_, rfl, fun hreached => absurd rfl hreached,
      iff_of_false (fun hiff => ?_) fun ⟨q, hq, _⟩ => hno q hq⟩
    exact absurd (hiff.mp rfl) (by simp)

theorem ret_transferFile_iff (w : World) (hr : Outcomes) (src : WStr) (m : FileMetadata)
    {usbdev : UsbDevice} (hmtp : usbdev.mode = .mtp) (h : dest ≠ []) :
    ∃ r, transferFile w hr usbdev src dest (some m) = .ok r ∧ (r.insert3 ≠ none → r.ret = 0) ∧
      ((r.ret = 0 ↔ r.insert3 = some sOk) ↔ Conclusive hr usbdev.rootStorage dest) := by
  rw [transferFile, hmtp]
  exact ret_transferMtp_iff h

end Exact

/-! ## What a transfer that succeeded has done -/

section Inserted

variable {w : World} {hr : Outcomes} {t : Storage} {src dest : WStr} {m : FileMetadata}
  {r : TransferResult}

/-- What a successful `Insert3` into the folder `n` at `q` leaves. -/
theorem insertInto_inserted {q : Pos} {n : Storage} {filename : WStr} {progress : Bool}
    {ret : HRESULT} (hn : t.sub? q = some n)
    (h : insertInto w hr t q src filename (some m) progress ret = .ok r)
    (hins : r.insert3 = some sOk) :
    ∃ spMeta, transferMetadata hr q (some m) = .ok (spMeta, r.accepted) ∧
      r.tree = t.modifyAt
        (insertFile w.sameName ⟨cStr filename, .file, spMeta, w.content (cStr src)⟩) q ∧
      r.spNewStorage = some (q ++ [insertIndex w.sameName n (cStr filename)]) := by
  rcases missing_or_queries hr q with hmiss | ⟨h3, hc⟩
  case inl =>
    rw [insertInto_of_missing hmiss] at h
    obtain rfl := Except.ok.inj h
    simp at hins
  obtain ⟨⟨spMeta, accepted⟩, hmd⟩ := exists_transferMetadata hr q m
  rw [insertInto_of_queries h3 hc, hmd] at h
  obtain rfl := Except.ok.inj h
  have hok : hr (.insertFile q) = sOk := by
    rw [insert3_insert3] at hins
    exact Option.some.inj hins
  have hs : Succeeded (hr (.insertFile q)) := by rw [hok]; exact succeeded_sOk
  refine ⟨spMeta, ?_, ?_, ?_⟩
  · rw [hmd, insert3, if_pos hs]
  · rw [insert3, if_pos hs]
  · rw [insert3, if_pos hs, hn, Option.map_some]

/-- **A transfer that succeeded**: the walk arrived at a folder, and the file is in it. -/
theorem transferMtp_inserted (h : transferMtp w hr t src dest (some m) = .ok r)
    (hins : r.insert3 = some sOk) :
    dest ≠ [] ∧ ∃ q tree n spMeta,
      Rose.resolve nameMatches ((splitString dest [slash] false).dropLast.map cStr) tree = some q ∧
      tree = (walkFolders hr true sOk (splitString dest [slash] false).dropLast t (some []) 0).tree ∧
      Walks hr true [] t.children (splitString dest [slash] false).dropLast q ∧
      tree.sub? q = some n ∧
      transferMetadata hr q (some m) = .ok (spMeta, r.accepted) ∧
      r.tree = tree.modifyAt
        (insertFile w.sameName ⟨cStr (fileName dest), .file, spMeta, w.content (cStr src)⟩) q ∧
      r.spNewStorage = some (q ++ [insertIndex w.sameName n (cStr (fileName dest))]) := by
  have hroot : t.sub? [] = some t := Rose.sub?_nil t
  have hne : dest ≠ [] := by rintro rfl; simp [transferMtp, splitString] at h
  rw [transferMtp_of_ne_nil hne] at h
  rcases walkFolders_storage_cases hr true (splitString dest [slash] false).dropLast
    hroot with ⟨q, hq, hstorage⟩ | ⟨-, hstorage⟩
  · have hres := resolve_walkFolders hq hroot rfl (Rose.resolve_nil nameMatches t)
    rw [List.nil_append] at hres
    obtain ⟨n, hn⟩ := Rose.exists_sub?_of_resolve hres
    rw [afterWalk, hstorage] at h
    obtain ⟨spMeta, hmd, htree, hnew⟩ := insertInto_inserted hn h hins
    exact ⟨hne, q, _, n, spMeta, hres, rfl, hq, hn, hmd, htree, hnew⟩
  · rw [afterWalk, hstorage] at h
    obtain rfl := Except.ok.inj h
    simp at hins

/-- The inserted storage is in the tree, with the object it was inserted with. -/
theorem sub?_spNewStorage (h : transferMtp w hr t src dest (some m) = .ok r)
    (hins : r.insert3 = some sOk) :
    ∃ new q spMeta, r.spNewStorage = some new ∧
      r.tree.sub? new =
        some (.node ⟨cStr (fileName dest), .file, spMeta, w.content (cStr src)⟩ []) ∧
      transferMetadata hr q (some m) = .ok (spMeta, r.accepted) := by
  obtain ⟨-, q, tree, n, spMeta, -, -, -, hn, hmd, htree, hnew⟩ := transferMtp_inserted h hins
  refine ⟨_, q, spMeta, hnew, ?_, hmd⟩
  rw [htree, Rose.sub?_append_singleton (Rose.sub?_modifyAt_self _ hn)]
  exact getElem?_insertFile w.sameName _ n

/-- Behind an insertion, a destination leads into the folder of the file, unless it is a spelling of
the root. -/
theorem lookupPath_modifyAt_insertFile {sameName : WStr → WStr → Bool} {q : Pos} {tree n : Storage}
    {file : StorageInfo} (hne : dest ≠ []) (hroot : ¬ RootSpelling dest)
    (hfile : file.name = cStr (fileName dest))
    (hres : Rose.resolve nameMatches ((splitString dest [slash] false).dropLast.map cStr) tree =
      some q) (hn : tree.sub? q = some n) :
    lookupPath (tree.modifyAt (insertFile sameName file) q) dest =
      (Rose.firstMatch nameMatches (insertFile sameName file n).children file.name).map
        fun i => q ++ [i] := by
  have hcomps : (splitString dest [slash] false).map cStr =
      (splitString dest [slash] false).dropLast.map cStr ++ [file.name] := by
    conv_lhs => rw [splitString_eq_append hne]
    rw [List.map_append, List.map_singleton, hfile]
  have hres' := Rose.resolve_modifyAt (f := insertFile sameName file) (fun _ _ => rfl) hres
  rw [lookupPath, if_neg hne, if_neg hroot, hcomps,
    Rose.resolve_append_singleton nameMatches _ hres' (Rose.sub?_modifyAt_self _ hn)]

end Inserted

section Batch

variable {w : World} {jni : Jni} {listDevices : Registry} {jdev : WStr}

/-- `sendFile` passes the result of the transfer on. -/
theorem sendFile_of_transferFile {hr : Outcomes} {src dest : WStr} {metadata : Option FileMetadata}
    {usbdev : UsbDevice} {r : TransferResult}
    (hdev : getInternaldevice jni listDevices jdev = some usbdev)
    (h : transferFile w hr usbdev (jni.ca2w src).1 (jni.ca2w dest).1
      (metadata.map jni.filemetadata) = .ok r) :
    sendFile w jni (some listDevices) hr jdev src dest metadata =
      .ok ⟨r.ret.toInt64, some r,
        some (listDevices.store { usbdev with rootStorage := r.tree })⟩ := by
  simp only [sendFile, hdev, h]

/-- **When the code of `sendFile` is exact.**  The device it leaves differs in its storage only. -/
theorem ret_sendFile_iff (w : World) (hr : Outcomes) (src : WStr) (m : FileMetadata) {dest : WStr}
    {usbdev : UsbDevice}
    (hdev : getInternaldevice jni listDevices jdev = some usbdev) (hmtp : usbdev.mode = .mtp)
    (h : (jni.ca2w dest).1 ≠ []) :
    ∃ call t, sendFile w jni (some listDevices) hr jdev src dest (some m) = .ok call ∧
      call.listDevices = some (listDevices.store { usbdev with rootStorage := t }) ∧
      (call.insert3 ≠ none → call.ret = 0) ∧
      ((call.ret = 0 ↔ call.insert3 = some sOk) ↔
        Conclusive hr usbdev.rootStorage (jni.ca2w dest).1) := by
  obtain ⟨r, hr', hreached, hiff⟩ :=
    ret_transferFile_iff w hr (jni.ca2w src).1 (jni.filemetadata m) hmtp h
  refine ⟨_, r.tree, sendFile_of_transferFile hdev hr', rfl, fun hins => ?_, ?_⟩
  · exact toInt64_eq_zero.mpr (hreached hins)
  · rwa [toInt64_eq_zero]

/-- A transfer that inserted was one to an MTP device… -/
theorem transferFile_inserted {hr : Outcomes} {usbdev : UsbDevice} {src dest : WStr}
    {metadata : Option FileMetadata} {r : TransferResult}
    (h : transferFile w hr usbdev src dest metadata = .ok r) (hins : r.insert3 = some sOk) :
    usbdev.mode = .mtp ∧ transferMtp w hr usbdev.rootStorage src dest metadata = .ok r := by
  rw [transferFile] at h
  cases hmode : usbdev.mode with
  | mtp =>
    rw [hmode] at h
    exact ⟨rfl, h⟩
  | msc =>
    rw [hmode] at h
    dsimp only at h
    split at h
    · obtain rfl := Except.ok.inj h
      simp at hins
    · obtain rfl := Except.ok.inj h
      simp at hins
  | undef =>
    rw [hmode] at h
    obtain rfl := Except.ok.inj h
    simp at hins
  | other raw =>
    rw [hmode] at h
    obtain rfl := Except.ok.inj h
    simp at hins

/-- …and a `sendFile` that did went to a registered one. -/
theorem sendFile_inserted {pasmgr : Option Registry} {hr : Outcomes} {src dest : WStr}
    {metadata : Option FileMetadata} {call : SendCall}
    (h : sendFile w jni pasmgr hr jdev src dest metadata = .ok call)
    (hins : call.insert3 = some sOk) :
    ∃ listDevices usbdev r, pasmgr = some listDevices ∧
      getInternaldevice jni listDevices jdev = some usbdev ∧ usbdev.mode = .mtp ∧
      transferMtp w hr usbdev.rootStorage (jni.ca2w src).1 (jni.ca2w dest).1
        (metadata.map jni.filemetadata) = .ok r ∧
      r.insert3 = some sOk ∧
      call = ⟨r.ret.toInt64, some r,
        some (listDevices.store { usbdev with rootStorage := r.tree })⟩ := by
  cases pasmgr with
  | none =>
    obtain rfl := Except.ok.inj h
    simp [SendCall.insert3] at hins
  | some listDevices =>
    cases hdev : getInternaldevice jni listDevices jdev with
    | none =>
      simp only [sendFile, hdev] at h
      obtain rfl := Except.ok.inj h
      simp [SendCall.insert3] at hins
    | some usbdev =>
      cases htr : transferFile w hr usbdev (jni.ca2w src).1 (jni.ca2w dest).1
          (metadata.map jni.filemetadata) with
      | error fault => simp [sendFile, hdev, htr] at h
      | ok r =>
        rw [sendFile_of_transferFile hdev htr] at h
        obtain rfl := Except.ok.inj h
        have hr3 : r.insert3 = some sOk := hins
        obtain ⟨hmtp, hrun⟩ := transferFile_inserted htr hr3
        exact ⟨listDevices, usbdev, r, rfl, hdev, hmtp, hrun, hr3, rfl⟩

/-- A batch is conclusive if its first call is exact and what follows is conclusive. -/
theorem conclusiveBatch_cons_iff {details : CopyJob} {queue : List CopyJob} {usbdev : UsbDevice}
    {call : SendCall} (hdev : getInternaldevice jni listDevices jdev = some usbdev)
    (hcall : sendFile w jni (some listDevices) details.hr jdev details.source details.destination
      (some details.fm) = .ok call) :
    ConclusiveBatch w jni jdev (some listDevices) (details :: queue) ↔
      Conclusive details.hr usbdev.rootStorage (jni.ca2w details.destination).1 ∧
        ConclusiveBatch w jni jdev call.listDevices queue := by
  rw [ConclusiveBatch]
  constructor
  · rintro ⟨⟨listDevices', usbdev', hsome, hdev', hconc⟩, hrest⟩
    obtain rfl := Option.some.inj hsome
    obtain rfl := Option.some.inj (hdev.symm.trans hdev')
    exact ⟨hconc, hrest call hcall⟩
  · rintro ⟨hconc, hrest⟩
    refine ⟨⟨listDevices, usbdev, rfl, hdev, hconc⟩, fun call' hcall' => ?_⟩
    obtain rfl := Except.ok.inj (hcall.symm.trans hcall')
    exact hrest

/-- **When the counter counts insertions**, over a batch for an MTP device. -/
theorem transferredOk_le_inserted_iff :
    ∀ {queue : List CopyJob} {listDevices : Registry} {usbdev : UsbDevice},
      getInternaldevice jni listDevices jdev = some usbdev → usbdev.mode = .mtp →
      (∀ details ∈ queue, (jni.ca2w details.destination).1 ≠ []) →
      (copyFiles w jni jdev (some listDevices) queue).inserted ≤
          (copyFiles w jni jdev (some listDevices) queue).transferredOk ∧
        ((copyFiles w jni jdev (some listDevices) queue).transferredOk ≤
            (copyFiles w jni jdev (some listDevices) queue).inserted ↔
          ConclusiveBatch w jni jdev (some listDevices) queue)
  | [], _, _, _, _, _ => ⟨le_rfl, iff_of_true le_rfl trivial⟩
  | details :: queue, listDevices, usbdev, hdev, hmtp, hne => by
      obtain ⟨call, t, hcall, hreg, hreached, hiff⟩ := ret_sendFile_iff w details.hr details.source
        details.fm hdev hmtp (hne details List.mem_cons_self)
      obtain ⟨hle, ih⟩ := transferredOk_le_inserted_iff
        (getInternaldevice_store hdev t) hmtp fun d hd => hne d (List.mem_cons_of_mem _ hd)
      rw [← hreg] at hle ih
      rw [conclusiveBatch_cons_iff hdev hcall, ← hiff, ← ih]
      simp only [copyFiles, hcall]
      by_cases hins : call.insert3 = some sOk
      · have hret := hreached (by simp [hins])
        simp [hret, hins, hle]
      · by_cases hret : call.ret = 0
        · -- counted without an insertion, which no later call makes good
          simp [hret, hins]
          omega
        · simp [hret, hins, hle]

end Batch

/-- **The code of a transfer.**  It is zero exactly for an insertion if and only if the walk arrives
and a reached `Insert3` returns `S_OK`; for `transfer_file`, for `sendFile`, and for the worker's
counter over a batch. -/
theorem transfer_code_exact (w : World) :
    (∀ (hr : Outcomes) (usbdev : UsbDevice) (src dest : WStr) (m : FileMetadata),
      usbdev.mode = .mtp → dest ≠ [] →
        ∃ r, transferFile w hr usbdev src dest (some m) = .ok r ∧
          ((r.ret = 0 ↔ r.insert3 = some sOk) ↔ Conclusive hr usbdev.rootStorage dest)) ∧
    (∀ (jni : Jni) (listDevices : Registry) (hr : Outcomes) (jdev src dest : WStr)
      (m : FileMetadata) (usbdev : UsbDevice),
      getInternaldevice jni listDevices jdev = some usbdev → usbdev.mode = .mtp →
      (jni.ca2w dest).1 ≠ [] →
        ∃ call, sendFile w jni (some listDevices) hr jdev src dest (some m) = .ok call ∧
          ((call.ret = 0 ↔ call.insert3 = some sOk) ↔
            Conclusive hr usbdev.rootStorage (jni.ca2w dest).1)) ∧
    (∀ (jni : Jni) (listDevices : Registry) (jdev : WStr) (usbdev : UsbDevice)
      (queue : List CopyJob),
      getInternaldevice jni listDevices jdev = some usbdev → usbdev.mode = .mtp →
      (∀ details ∈ queue, (jni.ca2w details.destination).1 ≠ []) →
        ((copyFiles w jni jdev (some listDevices) queue).transferredOk ≤
            (copyFiles w jni jdev (some listDevices) queue).inserted ↔
          ConclusiveBatch w jni jdev (some listDevices) queue)) := by
  refine ⟨fun hr usbdev src dest m hmtp h => ?_, fun jni listDevices hr jdev src dest m usbdev hdev
    hmtp h => ?_, fun jni listDevices jdev usbdev queue hdev hmtp hne => ?_⟩
  · obtain ⟨r, hr', -, hiff⟩ := ret_transferFile_iff w hr src m hmtp h
    exact ⟨r, hr', hiff⟩
  · obtain ⟨call, -, hcall, -, -, hiff⟩ := ret_sendFile_iff w hr src m hdev hmtp h
    exact ⟨call, hcall, hiff⟩
  · exact (transferredOk_le_inserted_iff hdev hmtp hne).2

/-- A computer with one file and no mounted volume. -/
def World.sample : World where
  sameName a b := makeLower a = makeLower b
  content _ := [1, 2, 3]
  mscCopy _ _ := 1

def FileMetadata.sample : FileMetadata :=
  { title := wide "Song", artist := wide "Band", album := wide "Album", genre := wide "Rock",
    rating := 0 }

/-- With no call failing, the transfer to an empty player is exact. -/
theorem transfer_code_exact_sample :
    ∃ call, sendFile .sample .identity (some onePlayer) (fun _ => sOk) (wide "player")
        (wide "C:\\a.mp3") (wide "/Music/a.mp3") (some .sample) = .ok call ∧
      ((call.ret = 0 ↔ call.insert3 = some sOk) ↔
        Conclusive (fun _ => sOk) (UsbDevice.emptyPlayer (wide "player")).rootStorage
          (Jni.identity.ca2w (wide "/Music/a.mp3")).1) :=
  (transfer_code_exact .sample).2.1 .identity onePlayer (fun _ => sOk) (wide "player")
    (wide "C:\\a.mp3") (wide "/Music/a.mp3") .sample (UsbDevice.emptyPlayer (wide "player")) rfl rfl
    (by decide)

/-- When the folder cannot be created, `sendFile` reports success without an insertion. -/
theorem sendFile_zero_without_insert :
    ∃ call, sendFile .sample .identity (some onePlayer)
        (fun c => if c = .insertFolder [] then eFail else sOk) (wide "player")
        (wide "C:\\a.mp3") (wide "/Music/a.mp3") (some .sample) = .ok call ∧
      ¬ (call.ret = 0 ↔ call.insert3 = some sOk) :=
  ⟨_, rfl, by decide⟩

end MtpRetag
