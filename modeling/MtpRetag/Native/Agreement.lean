import MtpRetag.Native.Mounted

/-!
# Native/Agreement — a volume and a player, under the same calls

The entry points promise one thing and have a branch for each kind of device.  Here one computer has
a mounted volume and another an MTP player, on which the same lies, and both make the same calls.

Where the volume serves a call, so does the player, and what lies on the two stays the same
(`agree_step`); so it is along a run (`player_serves`).  The converse does not hold: the player
makes missing folders, and deletes folders with all they hold.
-/

namespace MtpRetag

/-! ## Paths -/

section Paths

variable {names : List WStr}

theorem splitString_pathOf (hnames : ∀ a ∈ names, PathName a) (hne : names ≠ []) :
    splitString (pathOf names) [slash] false = names := by
  obtain ⟨init, m, rfl⟩ := (List.eq_nil_or_concat names).resolve_left hne
  rw [List.concat_eq_append] at hnames ⊢
  rw [pathOf_append_singleton]
  exact splitString_joined (fun a ha => ⟨(hnames a (by simp [ha])).ne_nil,
    (hnames a (by simp [ha])).slash_notMem⟩) (hnames m (by simp)).slash_notMem

theorem map_cStr_names (hnames : ∀ a ∈ names, PathName a) : names.map cStr = names :=
  List.map_congr_left (fun a ha => cStr_eq_self (hnames a ha).zero_notMem) |>.trans
    (List.map_id names)

theorem readKeys_pathOf (hnames : ∀ a ∈ names, PathName a) (hne : names ≠ []) :
    readKeys (pathOf names) = names.map makeLower := by
  rw [readKeys, splitString_pathOf hnames hne, map_cStr_names hnames]

theorem not_rootSpelling_pathOf (hnames : ∀ a ∈ names, PathName a) (hne : names ≠ []) :
    ¬ RootSpelling (pathOf names) := by
  obtain ⟨a, rest, rfl⟩ := List.exists_cons_of_ne_nil hne
  obtain ⟨c, a, rfl⟩ := List.exists_cons_of_ne_nil (hnames a List.mem_cons_self).ne_nil
  have hc : c ≠ slash := fun h =>
    (hnames (c :: a) List.mem_cons_self).slash_notMem (h ▸ List.mem_cons_self)
  rintro (h | h) <;> simp [pathOf, hc] at h

theorem pathKeys_pathOf (hnames : ∀ a ∈ names, PathName a) (hne : names ≠ []) :
    pathKeys (pathOf names) = names.map makeLower :=
  (pathKeys_eq_readKeys (not_rootSpelling_pathOf hnames hne)).trans (readKeys_pathOf hnames hne)

theorem destFolders_pathOf (hnames : ∀ a ∈ names, PathName a) (hne : names ≠ []) :
    destFolders (pathOf names) = names.dropLast := by
  rw [destFolders, splitString_pathOf hnames hne]
  exact map_cStr_names fun a ha => hnames a (List.mem_of_mem_dropLast ha)

theorem destKeys_pathOf (hnames : ∀ a ∈ names, PathName a) (hne : names ≠ []) :
    destKeys (pathOf names) = names.map makeLower :=
  (readKeys_eq_destKeys fun h => hne (pathOf_eq_nil_iff.mp h)).symm.trans
    (readKeys_pathOf hnames hne)

/-- A path with backslashes ends in its last name. -/
theorem getLast?_backslashes {mountpoint : WStr} (hnames : ∀ a ∈ names, PathName a)
    (hbackslash : ∀ a ∈ names, backslash ∉ a) (hne : names ≠ []) :
    (mountpoint ++ (pathOf names).map fun c =>
      if c = slash then backslash else c).getLast? ≠ some backslash := by
  obtain ⟨init, m, rfl⟩ := (List.eq_nil_or_concat names).resolve_left hne
  rw [List.concat_eq_append] at hnames hbackslash ⊢
  obtain ⟨rest, c, rfl⟩ := (List.eq_nil_or_concat m).resolve_left (hnames m (by simp)).ne_nil
  rw [List.concat_eq_append] at hnames hbackslash ⊢
  have hslash : c ≠ slash := fun h => (hnames (rest ++ [c]) (by simp)).slash_notMem (by simp [h])
  have hc : c ≠ backslash := fun h => hbackslash (rest ++ [c]) (by simp) (by simp [h])
  rw [pathOf_append_singleton, ← List.cons_append, ← List.append_assoc, List.map_append,
    ← List.append_assoc, List.map_singleton, if_neg hslash, List.getLast?_concat]
  exact fun h => hc (Option.some.inj h)

end Paths

/-! ## A player that nothing hinders -/

/-- The call is served, leaves the files, and makes the map of its device that one. -/
def PlayerServes (sys : System) (s : Computer) (c : SystemCall) (usbdev : UsbDevice)
    (m : DeviceMap) : Prop :=
  ∃ s₁ t, s.step sys c = some s₁ ∧ s.ret sys c = some Error.success.toInt64 ∧
    s₁.files = s.files ∧
    s₁.listDevices.device (sys.jni.ca2w c.jdev).1 = some { usbdev with rootStorage := t } ∧
    DistinctSiblings t ∧ items t = m

section Player

variable {sys : System} {s : Computer} {c : SystemCall} {usbdev : UsbDevice} {t : Storage}
  {hr : Outcomes} {names : List WStr} {fpath : WStr}

theorem exists_resolve_of_items (h : (items t (names.map makeLower)).isSome) :
    ∃ p, Rose.resolve nameMatches names t = some p := by
  rw [items, Rose.look_map nameMatches_eq] at h
  cases hp : Rose.resolve nameMatches names t with
  | none => simp [hp] at h
  | some p => exact ⟨p, rfl⟩

/-- A folder below one that is there. -/
theorem createFolderMtp_of_ok (hok : ∀ c, hr c = sOk) (ht : DistinctSiblings t)
    (hnames : ∀ a ∈ names, PathName a) (hne : names ≠ []) {m : WStr} (hm : PathName m)
    (hparent : (items t (names.map makeLower)).isSome)
    (hfree : items t (names.map makeLower ++ [makeLower m]) = none) :
    (createFolderMtp hr t (pathOf names ++ slash :: m)).bResult = true ∧
      DistinctSiblings (createFolderMtp hr t (pathOf names ++ slash :: m)).tree ∧
      items (createFolderMtp hr t (pathOf names ++ slash :: m)).tree =
        (items t).add (names.map makeLower ++ [makeLower m]) (folderInfo m) := by
  obtain ⟨p, hp⟩ := exists_resolve_of_items hparent
  have hreached : ParentReached hr p :=
    ⟨fun c _ => by rw [hok]; exact succeeded_sOk, hok _⟩
  rw [createFolderMtp_pathOf hnames hm hp (hok _), if_pos ⟨hne, hreached⟩]
  exact ⟨rfl, (distinctSiblings_insertFolder_iff ht hp m).mpr hfree, items_insertFolder hp m⟩

/-- An item that is there. -/
theorem deleteMtpitem_of_ok (hok : ∀ c, hr c = sOk) (ht : DistinctSiblings t)
    (h0 : (0 : WChar) ∉ fpath) (hne : fpath ≠ []) (hthere : (items t (pathKeys fpath)).isSome) :
    (deleteMtpitem hr t fpath).bResult = true ∧
      items (deleteMtpitem hr t fpath).tree = (items t).remove (pathKeys fpath) := by
  rcases lookupPath_cases t hne with ⟨-, hnone⟩ | ⟨p, n, hp, -, -⟩
  · simp [hnone] at hthere
  · have hresult : (deleteMtpitem hr t fpath).bResult = true :=
      (deleteMtpitem_eq_true_iff h0).mpr
        ⟨p, hp, fun c _ => by rw [hok]; exact succeeded_sOk, hok _, hok _⟩
    refine ⟨hresult, ?_⟩
    rcases tree_deleteMtpitem hr t fpath with ⟨hno, -⟩ | ⟨q, hq, htree⟩
    · simp [hresult] at hno
    · rw [cStr_eq_self h0] at hq
      rw [htree, items_deleteAt ht (resolve_of_lookupPath hq)]
      rfl

/-- The step of a call on a player that is not `getFile`. -/
theorem step_of_perform {op : DeviceOp} {r : Registry} (hop : c.op = .device op)
    (hdev : s.listDevices.device (sys.jni.ca2w c.jdev).1 = some usbdev) (hmtp : usbdev.mode = .mtp)
    (h : s.listDevices.perform (sys.host s.files c) ⟨op, c.jdev, c.hr⟩ = .ok r) :
    s.step sys c = some ⟨s.files, r⟩ := by
  have hfiles : s.filesAfter sys c = some s.files := by
    rw [filesAfter_of_mtp hdev hmtp, Computer.mtpCall, hop]
  rw [Computer.step, hfiles, Option.bind_some, hop, SystemOp.deviceOp, h]
  rfl

/-- …which stores the device with another tree. -/
theorem playerServes_of_perform {op : DeviceOp} {m : DeviceMap} (hop : c.op = .device op)
    (hdev : s.listDevices.device (sys.jni.ca2w c.jdev).1 = some usbdev) (hmtp : usbdev.mode = .mtp)
    (h : s.listDevices.perform (sys.host s.files c) ⟨op, c.jdev, c.hr⟩ =
      .ok (s.listDevices.store { usbdev with rootStorage := t }))
    (hret : s.ret sys c = some Error.success.toInt64) (ht : DistinctSiblings t)
    (hitems : items t = m) : PlayerServes sys s c usbdev m :=
  ⟨_, t, step_of_perform hop hdev hmtp h, hret, rfl, device_store_self hdev t, ht, hitems⟩

variable (hdev : s.listDevices.device (sys.jni.ca2w c.jdev).1 = some usbdev)
  (hmtp : usbdev.mode = .mtp) (hok : ∀ x, c.hr x = sOk)
  (ht : DistinctSiblings usbdev.rootStorage)

include hdev hmtp hok ht

theorem player_sendFile {srcfile destfile : WStr} {m : FileMetadata}
    (hop : c.op = .device (.sendFile srcfile destfile (some m)))
    (hfolds : ∀ a b, sys.sameName a b = decide (makeLower a = makeLower b))
    (hne : (sys.jni.ca2w destfile).1 ≠ []) :
    ∃ spMeta, PlayerServes sys s c usbdev ((items usbdev.rootStorage).edit
      (sendEdits (sys.host s.files c).world (sys.jni.ca2w srcfile).1 (sys.jni.ca2w destfile).1
        spMeta)) := by
  obtain ⟨r, htransfer, hzero, hitems⟩ := items_transferMtp_of_ok
    (w := (sys.host s.files c).world) (t := usbdev.rootStorage) (sys.jni.ca2w srcfile).1
    (sys.jni.filemetadata m) hfolds hok hne
  have hfound := (getInternaldevice_eq sys.jni s.listDevices c.jdev).trans hdev
  have hfile : transferFile (sys.host s.files c).world c.hr usbdev (sys.jni.ca2w srcfile).1
      (sys.jni.ca2w destfile).1 ((some m).map sys.jni.filemetadata) = .ok r := by
    rw [transferFile, hmtp]
    exact htransfer
  have hsend := sendFile_of_transferFile hfound hfile
  have hperform : s.listDevices.perform (sys.host s.files c)
      ⟨.sendFile srcfile destfile (some m), c.jdev, c.hr⟩ =
        .ok (s.listDevices.store { usbdev with rootStorage := r.tree }) := by
    change (sendFile (sys.host s.files c).world sys.jni (some s.listDevices) c.hr c.jdev srcfile
      destfile (some m)).map (fun call => call.listDevices.getD s.listDevices) = _
    rw [hsend]
    rfl
  refine ⟨_, playerServes_of_perform hop hdev hmtp hperform ?_ (ht.transferMtp hfolds htransfer)
    hitems⟩
  simp only [Computer.ret, hop, hsend, hzero]
  rfl

theorem player_createFolder {path m : WStr} (hop : c.op = .device (.createFolder path))
    (hpath : (sys.jni.ca2w path).1 = pathOf names ++ slash :: m)
    (hnames : ∀ a ∈ names, PathName a) (hne : names ≠ []) (hm : PathName m)
    (hparent : (items usbdev.rootStorage (names.map makeLower)).isSome)
    (hfree : items usbdev.rootStorage (names.map makeLower ++ [makeLower m]) = none) :
    PlayerServes sys s c usbdev
      ((items usbdev.rootStorage).add (names.map makeLower ++ [makeLower m]) (folderInfo m)) := by
  obtain ⟨hresult, hsiblings, hitems⟩ :=
    createFolderMtp_of_ok (t := usbdev.rootStorage) hok ht hnames hne hm hparent hfree
  have hfound := (getInternaldevice_eq sys.jni s.listDevices c.jdev).trans hdev
  have hlong : 2 ≤ (pathOf names ++ slash :: m).length := by
    have := List.length_pos_iff.mpr hm.ne_nil
    simp only [List.length_append, List.length_cons]
    omega
  have hg : ¬ ((sys.jni.ca2w path).1.length = 0 ∨ (sys.jni.ca2w path).1 = [slash]) := by
    rw [hpath]
    rintro (h | h)
    · omega
    · rw [h] at hlong
      simp at hlong
  have hperform : s.listDevices.perform (sys.host s.files c) ⟨.createFolder path, c.jdev, c.hr⟩ =
      .ok (s.listDevices.store { usbdev with
        rootStorage := (createFolderMtp c.hr usbdev.rootStorage (sys.jni.ca2w path).1).tree }) := by
    change Except.ok ((sys.jni.createFolder (sys.host s.files c).createDirectory
      (some s.listDevices) c.hr c.jdev path).listDevices.getD s.listDevices) = _
    simp only [Jni.createFolder, hfound, if_neg hg, hmtp, Option.getD_some]
  rw [hpath] at hperform
  refine playerServes_of_perform hop hdev hmtp hperform ?_ hsiblings hitems
  simp only [Computer.ret, hop]
  congr 1
  rw [ret_createFolder_of_mtp hfound hmtp, hpath]
  exact ⟨by simp, fun h => by rw [h] at hlong; simp at hlong, hresult⟩

/-- Both deletes, of what is there. -/
theorem player_delete {path : WStr} (hpath : (sys.jni.ca2w path).1 = pathOf names)
    (hop : c.op = .device (.deleteFile path) ∨ c.op = .device (.deleteFolder path))
    (hnames : ∀ a ∈ names, PathName a) (hne : names ≠ [])
    (hthere : (items usbdev.rootStorage (names.map makeLower)).isSome) :
    PlayerServes sys s c usbdev ((items usbdev.rootStorage).remove (names.map makeLower)) := by
  have hkeys := pathKeys_pathOf hnames hne
  have hempty : pathOf names ≠ [] := fun h => hne (pathOf_eq_nil_iff.mp h)
  have hroot := not_rootSpelling_pathOf hnames hne
  obtain ⟨hresult, hitems⟩ := deleteMtpitem_of_ok (t := usbdev.rootStorage) hok ht
    (zero_notMem_pathOf hnames) hempty (by rwa [hkeys])
  have hfound := (getInternaldevice_eq sys.jni s.listDevices c.jdev).trans hdev
  have hg : ¬ ((sys.jni.ca2w path).1 = [] ∨ (sys.jni.ca2w path).1 = [slash]) := by
    rw [hpath]
    exact fun h => h.elim hempty fun h => hroot (.inl h)
  have hdeleted (osDelete : WStr → Bool) :
      (deleteItem osDelete sys.jni (some s.listDevices) c.hr c.jdev path).ret =
        Error.success.toInt64 := by
    rw [ret_deleteItem_of_mtp hfound hmtp hg, hpath]
    exact hresult
  have hleft (osDelete : WStr → Bool) :
      (deleteItem osDelete sys.jni (some s.listDevices) c.hr c.jdev path).listDevices =
        some (s.listDevices.store { usbdev with
          rootStorage := (deleteMtpitem c.hr usbdev.rootStorage (pathOf names)).tree }) := by
    rw [deleteItem_of_mtp hfound hmtp hg, hpath]
  rcases hop with hop | hop
  · refine playerServes_of_perform hop hdev hmtp ?_ ?_ ht.deleteMtpitem (hkeys ▸ hitems)
    · simp only [Registry.perform, System.host, deleteFile, hleft, Option.getD_some]
    · simp only [Computer.ret, hop, deleteFile, hdeleted]
  · refine playerServes_of_perform hop hdev hmtp ?_ ?_ ht.deleteMtpitem (hkeys ▸ hitems)
    · simp only [Registry.perform, System.host, deleteFolder, hleft, Option.getD_some]
    · simp only [Computer.ret, hop, deleteFolder, hdeleted]

omit ht in
/-- `getFile`, of a file that is there. -/
theorem player_getFile {localdest pmpsrc : WStr} {info : StorageInfo}
    (hop : c.op = .getFile localdest pmpsrc)
    (hinfo : items usbdev.rootStorage (readKeys (sys.jni.ca2w pmpsrc).1) = some info) :
    ∃ s₁, s.step sys c = some s₁ ∧ s.ret sys c = some Error.success.toInt64 ∧
      s₁.files = (sys.request s.files c.io.opensTo (cStr (sys.jni.ca2w localdest).1)
        (.write · info.content)).getD s.files ∧
      s₁.listDevices.device (sys.jni.ca2w c.jdev).1 = some usbdev := by
  have hfound := (getInternaldevice_eq sys.jni s.listDevices c.jdev).trans hdev
  have hread : readMtp c.hr usbdev.rootStorage (sys.jni.ca2w pmpsrc).1 =
      { ret := 0, read := some sOk, progress := hasProgress c.hr } := by
    have hsucc : ∀ x, Succeeded (c.hr x) := fun x => by rw [hok x]; exact succeeded_sOk
    rcases readMtp_cases c.hr usbdev.rootStorage (sys.jni.ca2w pmpsrc).1 with
      ⟨hno, -⟩ | ⟨q, -, ⟨hmiss, -⟩ | ⟨-, -, heq⟩⟩
    · obtain ⟨q, hq⟩ := exists_resolve_of_items (by rw [← readKeys, hinfo]; rfl)
      have hwalks := walks_of_resolve false hsucc (p := []) hq
      exact absurd hwalks (hno _)
    · exact absurd hmiss (by simp [hsucc])
    · rw [heq, hok]
  have hfiles : s.filesAfter sys c = some ((sys.request s.files c.io.opensTo
      (cStr (sys.jni.ca2w localdest).1) (.write · info.content)).getD s.files) := by
    rw [filesAfter_of_mtp hdev hmtp]
    simp only [Computer.mtpCall, hop, readFile, hmtp, hread, hinfo, if_pos succeeded_sOk]
  refine ⟨⟨_, (s.listDevices.getDevicebyid (sys.jni.ca2w c.jdev).1).2⟩, ?_, ?_, rfl, ?_⟩
  · rw [Computer.step, hfiles, Option.bind_some, hop]
    rfl
  · simp only [Computer.ret, hop, getFile, hfound, readFile, hmtp, hread]
    rfl
  · rw [device_getDevicebyid_snd, hdev]

end Player

/-! ## A volume that serves -/

section Volume

variable {sys : System} {s s₁ : Computer} {c : SystemCall} {usbdev : UsbDevice} {path : WStr}

/-- A change that a volume makes. -/
theorem step_of_changes {op : SystemOp} {call : List WStr → FileCall}
    (hdev : s.listDevices.device (sys.jni.ca2w c.jdev).1 = some usbdev)
    (hmsc : usbdev.mode = .msc) (h : s.step sys c = some s₁)
    (hret : s.ret sys c = some Error.success.toInt64) (hop : c.op = op)
    (hchanges : op.Changes path call) :
    ∃ ks, sys.keys (fullDevicepath usbdev (sys.jni.ca2w path).1) = some ks ∧
      s.files.step (call ks) = some s₁.files := by
  have hfiles := volumeCall_of_step h hdev hmsc
  rcases volumeCall_of_changes hdev hmsc hop hchanges with
    ⟨files, hrequest, -, hfiles'⟩ | ⟨hno, -⟩
  · obtain rfl := Option.some.inj (hfiles'.symm.trans hfiles)
    exact (sys.exists_of_request hrequest).2
  · exact absurd hret hno

end Volume

/-! ## Agreement -/

/-- An item of a device as an entry of a file system. -/
def StorageInfo.entry (info : StorageInfo) : DirTree.Entry UInt8 :=
  match info.kind with
  | .folder => .dir
  | .file => .file info.content

/-- Two computers with a device of one name: on the first a volume, whose root is the directory
`mount`; on the second a player, with the same on it.  Elsewhere the computers have the same
files. -/
structure Agree (id : WStr) (mount : List WStr) (volume player : UsbDevice) (s s' : Computer) :
    Prop where
  volume : ∃ t, s.listDevices.device id = some { volume with rootStorage := t }
  player : ∃ t, s'.listDevices.device id = some { player with rootStorage := t } ∧
    DistinctSiblings t ∧ (items t).view StorageInfo.entry = s.files.look.below mount
  elsewhere : ∀ q, ¬ mount <+: q → s'.files.look q = s.files.look q

/-- A path of names, which Windows reads below the mountpoint as a player does: at both kinds of
slashes, and ignoring case. -/
structure Spells (sys : System) (mountpoint : WStr) (mount : List WStr) (path : WStr)
    (names : List WStr) : Prop where
  path_eq : (sys.jni.ca2w path).1 = pathOf names
  ne_nil : names ≠ []
  pathName : ∀ a ∈ names, PathName a
  backslash_notMem : ∀ a ∈ names, backslash ∉ a
  slashes : sys.keys (cStr (mountpoint ++ pathOf names)) = some (mount ++ names.map makeLower)
  backslashes : sys.keys (mountpoint ++ (pathOf names).map fun c =>
    if c = slash then backslash else c) = some (mount ++ names.map makeLower)

/-- A path outside the volume. -/
def Outside (sys : System) (mount : List WStr) (path : WStr) : Prop :=
  ∃ ks, sys.keys (cStr (sys.jni.ca2w path).1) = some ks ∧ ¬ mount <+: ks

/-- A call whose paths mean the same on both computers.  A player takes no file without its record,
and makes no folder directly below its root. -/
def SystemOp.Common (sys : System) (mountpoint : WStr) (mount : List WStr) : SystemOp → Prop
  | .device (.sendFile srcfile destfile metadata) =>
    Outside sys mount srcfile ∧ metadata.isSome ∧
      ∃ names, Spells sys mountpoint mount destfile names
  | .getFile localdest pmpsrc =>
    Outside sys mount localdest ∧ ∃ names, Spells sys mountpoint mount pmpsrc names
  | .device (.createFolder path) =>
    ∃ names, Spells sys mountpoint mount path names ∧ 2 ≤ names.length
  | .device (.deleteFile path) | .device (.deleteFolder path) =>
    ∃ names, Spells sys mountpoint mount path names
  | .device (.updateMetadata _ _) | .device .read => True

/-- …on that device, with COM calls that succeed and whole writes. -/
structure SystemCall.Common (sys : System) (id mountpoint : WStr) (mount : List WStr)
    (c : SystemCall) : Prop where
  devid : (sys.jni.ca2w c.jdev).1 = id
  op : c.op.Common sys mountpoint mount
  ok : ∀ x, c.hr x = sOk
  whole : c.io.Whole

/-- The lookups of a path that both read the same return the same, by COM calls that succeed and
with their pointers still at the path. -/
def FindAlike (sys : System) (id : WStr) (mount : List WStr) (mountpoint : WStr)
    (s s' : Computer) : Prop :=
  ∀ (path jdev : WStr) (names : List WStr) (hr : Outcomes) (attributes : Attributes)
    (dwAttrib : UInt32) (granted : Bool), Spells sys mountpoint mount path names →
    (sys.jni.ca2w jdev).1 = id → (∀ x, hr x = sOk) →
    (∀ usbdev, s'.listDevices.device id = some usbdev →
      FitsKinds attributes usbdev.rootStorage) →
    existFile (sys.volume s.files granted) sys.jni (some s.listDevices) hr attributes dwAttrib jdev
        (sys.jni.ca2w path) =
      existFile (sys.volume s'.files granted) sys.jni (some s'.listDevices) hr attributes dwAttrib
        jdev (sys.jni.ca2w path) ∧
    existFolder (sys.volume s.files granted) sys.jni (some s.listDevices) hr attributes dwAttrib
        jdev (sys.jni.ca2w path) =
      existFolder (sys.volume s'.files granted) sys.jni (some s'.listDevices) hr attributes
        dwAttrib jdev (sys.jni.ca2w path)

section Agreement

variable {sys : System} {id : WStr} {mount : List WStr} {volume player : UsbDevice}
  {s s' s₁ : Computer} {c : SystemCall}

theorem entry_eq_file {info : StorageInfo} {bytes : List UInt8}
    (h : info.entry = .file bytes) : info.content = bytes := by
  rw [StorageInfo.entry] at h
  split at h
  · simp at h
  · exact DirTree.Entry.file.inj h

/-- A directory on the way to a directory. -/
theorem look_dir_of_prefix {files : Files} {p q : List WStr} (h : files.look q = some .dir)
    (hpre : p <+: q) : files.look p = some .dir := by
  by_cases hpq : p = q
  · rw [hpq, h]
  · exact DirTree.look_dir_above (by rw [h]; rfl) hpre hpq

/-- What lies on the volume lies on the player. -/
theorem exists_item {t : Storage} {files : Files} {q : List WStr} {e : DirTree.Entry UInt8}
    (hitems : (items t).view StorageInfo.entry = files.look.below mount)
    (h : files.look (mount ++ q) = some e) : ∃ info, items t q = some info ∧ info.entry = e :=
  Option.map_eq_some_iff.mp ((congrFun hitems q).trans h)

/-- What a served change leaves on the volume is what the player's map becomes. -/
theorem agree_of_step {names : List WStr} {call : FileCall} {m : DeviceMap} {t : Storage}
    (h : Agree id mount volume player s s') (hid : (sys.jni.ca2w c.jdev).1 = id)
    (hvolume : ∃ t, s₁.listDevices.device id = some { volume with rootStorage := t })
    (hstep : s.files.step call = some s₁.files) (hpath : call.path = mount ++ names.map makeLower)
    (hedit : m.view StorageInfo.entry = (call.edit.apply s.files.look).below mount)
    (hserves : PlayerServes sys s' c { player with rootStorage := t } m) :
    ∃ s₁', s'.step sys c = some s₁' ∧ s'.ret sys c = some Error.success.toInt64 ∧
      Agree id mount volume player s₁ s₁' := by
  obtain ⟨s₁', t', hstep', hret', hfiles', hdevice', hdistinct', hitems'⟩ := hserves
  refine ⟨s₁', hstep', hret', hvolume, ⟨t', hid ▸ hdevice', hdistinct', ?_⟩, fun q hq => ?_⟩
  · rw [hitems', hedit, DirTree.look_step_eq_apply hstep]
  · have hne : q ≠ call.path := by
      rintro rfl
      exact hq (hpath ▸ List.prefix_append _ _)
    rw [hfiles', h.elsewhere q hq, DirTree.look_step_of_ne hstep hne]

variable (hmsc : volume.mode = .msc) (hmount : volume.mountpoint ≠ []) (hmtp : player.mode = .mtp)
  (h : Agree id mount volume player s s') (hc : c.Common sys id volume.mountpoint mount)
  (hstep : s.step sys c = some s₁) (hret : s.ret sys c = some Error.success.toInt64)

include hmsc hmtp h hc hstep hret

theorem agree_createFolder {path : WStr} (hop : c.op = .device (.createFolder path)) :
    ∃ s₁', s'.step sys c = some s₁' ∧ s'.ret sys c = some Error.success.toInt64 ∧
      Agree id mount volume player s₁ s₁' := by
  obtain ⟨tv, hvolume⟩ := h.volume
  obtain ⟨t, hplayer, hdistinct, hitems⟩ := h.player
  obtain ⟨hid, hcommon, hok, -⟩ := hc
  rw [hop] at hcommon
  obtain ⟨names, hspells, hlong⟩ := hcommon
  obtain ⟨init, m, rfl⟩ := (List.eq_nil_or_concat names).resolve_left hspells.ne_nil
  rw [List.concat_eq_append] at hspells hlong
  have hinit : init ≠ [] := by
    rintro rfl
    simp at hlong
  have hm : PathName m := hspells.pathName m (by simp)
  have hnames : ∀ a ∈ init, PathName a := fun a ha => hspells.pathName a (by simp [ha])
  -- the directory that is made
  have hmsc' : ({ volume with rootStorage := tv } : UsbDevice).mode = .msc := hmsc
  obtain ⟨ks, hks, hmkdir⟩ := step_of_changes (hid.symm ▸ hvolume) hmsc' hstep hret hop
    (.createFolder path)
  rw [fullDevicepath, hspells.path_eq, hspells.backslashes] at hks
  obtain rfl := Option.some.inj hks
  have hallows := DirTree.allows_of_step hmkdir
  have hkeys : (init ++ [m]).map makeLower = init.map makeLower ++ [makeLower m] := by simp
  have hfree : s.files.look (mount ++ (init ++ [m]).map makeLower) = none := hallows.2.1
  have hparent : s.files.look (mount ++ init.map makeLower) = some .dir := by
    rw [← hallows.2.2, hkeys, ← List.append_assoc, List.dropLast_concat]
  -- the folder that is made
  obtain ⟨folder, hfolder, -⟩ := exists_item hitems hparent
  have hparent' : (items t (init.map makeLower)).isSome := by rw [hfolder]; rfl
  have hfree' : items t (init.map makeLower ++ [makeLower m]) = none := by
    rw [← hkeys]
    exact Option.map_eq_none_iff.mp ((congrFun hitems _).trans hfree)
  have hmtp' : ({ player with rootStorage := t } : UsbDevice).mode = .mtp := hmtp
  have hserves := player_createFolder (hid.symm ▸ hplayer) hmtp' hok @hdistinct hop
    (hspells.path_eq.trans (pathOf_append_singleton init m)) hnames hinit hm hparent' hfree'
  refine agree_of_step h hid (device_of_step hstep ⟨tv, hvolume⟩) hmkdir rfl ?_ hserves
  rw [PathMap.view_add]
  dsimp only
  rw [hitems, ← hkeys, ← PathMap.below_add]
  rfl

omit hmsc hret in
/-- Both deletes. -/
theorem agree_delete {path : WStr} {call : List WStr → FileCall}
    (hop : c.op = .device (.deleteFile path) ∨ c.op = .device (.deleteFolder path))
    (hpath : ∀ ks, (call ks).path = ks) (hedit : ∀ ks, (call ks).edit = .remove ks)
    (hthere : ∀ ks, s.files.Allows (call ks) → s.files.look ks ≠ none)
    (hserved : ∀ {tv : Storage}, s.listDevices.device (sys.jni.ca2w c.jdev).1 =
        some { volume with rootStorage := tv } →
      ∃ ks, sys.keys (fullDevicepath volume (sys.jni.ca2w path).1) = some ks ∧
        s.files.step (call ks) = some s₁.files) :
    ∃ s₁', s'.step sys c = some s₁' ∧ s'.ret sys c = some Error.success.toInt64 ∧
      Agree id mount volume player s₁ s₁' := by
  obtain ⟨tv, hvolume⟩ := h.volume
  obtain ⟨t, hplayer, hdistinct, hitems⟩ := h.player
  obtain ⟨hid, hcommon, hok, -⟩ := hc
  obtain ⟨names, hspells⟩ : ∃ names, Spells sys volume.mountpoint mount path names := by
    rcases hop with hop | hop
    · rwa [hop] at hcommon
    · rwa [hop] at hcommon
  obtain ⟨ks, hks, hdeleted⟩ := hserved (hid.symm ▸ hvolume)
  rw [fullDevicepath, hspells.path_eq, hspells.backslashes] at hks
  obtain rfl := Option.some.inj hks
  obtain ⟨e, he⟩ := Option.ne_none_iff_exists'.mp (hthere _ (DirTree.allows_of_step hdeleted))
  obtain ⟨info, hinfo, -⟩ := exists_item hitems he
  have hmtp' : ({ player with rootStorage := t } : UsbDevice).mode = .mtp := hmtp
  have hserves := player_delete (hid.symm ▸ hplayer) hmtp' hok @hdistinct hspells.path_eq hop
    hspells.pathName hspells.ne_nil (by dsimp only; rw [hinfo]; rfl)
  refine agree_of_step h hid (device_of_step hstep ⟨tv, hvolume⟩) hdeleted (hpath _) ?_ hserves
  have hne : names.map makeLower ≠ [] := fun hnil =>
    hspells.ne_nil (List.map_eq_nil_iff.mp hnil)
  rw [PathMap.view_remove, hedit]
  dsimp only
  rw [hitems, ← PathMap.below_remove mount hne]
  rfl

include hmount

theorem agree_sendFile {srcfile destfile : WStr} {metadata : Option FileMetadata}
    (hfolds : ∀ a b, sys.sameName a b = decide (makeLower a = makeLower b))
    (hop : c.op = .device (.sendFile srcfile destfile metadata)) :
    ∃ s₁', s'.step sys c = some s₁' ∧ s'.ret sys c = some Error.success.toInt64 ∧
      Agree id mount volume player s₁ s₁' := by
  obtain ⟨tv, hvolume⟩ := h.volume
  obtain ⟨t, hplayer, hdistinct, hitems⟩ := h.player
  obtain ⟨hid, hcommon, hok, hwhole⟩ := hc
  rw [hop] at hcommon
  obtain ⟨⟨ls, hls, houtside⟩, hmetadata, names, hspells⟩ := hcommon
  obtain ⟨m, rfl⟩ := Option.isSome_iff_exists.mp hmetadata
  -- the file that is copied
  have hmsc' : ({ volume with rootStorage := tv } : UsbDevice).mode = .msc := hmsc
  have hcopy := mscCopy_of_copies (hid.symm ▸ hvolume) hmsc' hmount hop
    (.sendFile srcfile destfile _) hstep hret
  obtain ⟨content, -, -, hcontent, -⟩ := opened_of_mscCopy hcopy
  obtain ⟨ks, hks, -, hwrite⟩ := step_of_mscCopy hcopy hcontent hwhole
  rw [hspells.path_eq, hspells.slashes] at hks
  obtain rfl := Option.some.inj hks
  have hdiff : sys.keys (cStr (sys.jni.ca2w srcfile).1) ≠
      sys.keys (cStr (volume.mountpoint ++ (sys.jni.ca2w destfile).1)) := by
    rw [hls, hspells.path_eq, hspells.slashes]
    exact fun heq => houtside (Option.some.inj heq ▸ List.prefix_append _ _)
  rw [if_neg hdiff] at hwrite
  -- the same file, sent to the player
  have hcontent' : (sys.host s'.files c).world.content (cStr (sys.jni.ca2w srcfile).1) =
      content := by
    have hsame : sys.content s'.files (cStr (sys.jni.ca2w srcfile).1) =
        sys.content s.files (cStr (sys.jni.ca2w srcfile).1) := content_congr fun ks hks => by
      obtain rfl := Option.some.inj (hls.symm.trans hks)
      exact h.elsewhere ls houtside
    change (sys.content s'.files (cStr (sys.jni.ca2w srcfile).1)).getD [] = content
    rw [hsame, hcontent, Option.getD_some]
  have hempty : (sys.jni.ca2w destfile).1 ≠ [] := by
    rw [hspells.path_eq]
    exact fun hnil => hspells.ne_nil (pathOf_eq_nil_iff.mp hnil)
  have hmtp' : ({ player with rootStorage := t } : UsbDevice).mode = .mtp := hmtp
  obtain ⟨spMeta, hserves⟩ := player_sendFile (hid.symm ▸ hplayer) hmtp' hok @hdistinct hop hfolds
    hempty
  refine agree_of_step h hid (device_of_step hstep ⟨tv, hvolume⟩) hwrite rfl ?_ hserves
  -- the folders of the destination are there
  have hparent : s.files.look (mount ++ names.dropLast.map makeLower) = some .dir := by
    have hallows := DirTree.allows_of_step hwrite
    have hne : names.map makeLower ≠ [] := fun hnil =>
      hspells.ne_nil (List.map_eq_nil_iff.mp hnil)
    rw [← hallows.2.2, List.map_dropLast, List.dropLast_append_of_ne_nil hne]
  have hfolders : (items t).edit (folderAdds [] (destFolders (sys.jni.ca2w destfile).1)) =
      items t := by
    refine PathMap.edit_adds_eq_self fun e he => ?_
    obtain ⟨q, info, rfl, -, hpre⟩ := exists_of_mem_folderAdds he
    rw [hspells.path_eq, destFolders_pathOf hspells.pathName hspells.ne_nil,
      List.nil_append] at hpre
    have hdir := look_dir_of_prefix hparent ((List.prefix_append_right_inj mount).mpr hpre)
    obtain ⟨folder, hfolder, -⟩ := exists_item hitems hdir
    exact ⟨q, info, rfl, by rw [hfolder]; rfl⟩
  have hentry : (sentInfo (sys.host s'.files c).world (sys.jni.ca2w srcfile).1
      (sys.jni.ca2w destfile).1 spMeta).entry = .file content := by
    rw [← hcontent']
    rfl
  dsimp only
  rw [sendEdits, PathMap.edit_append, hfolders, PathMap.edit_cons, PathMap.edit_nil,
    PathMap.Edit.apply, PathMap.view_put, hitems, hentry, hspells.path_eq,
    destKeys_pathOf hspells.pathName hspells.ne_nil, ← PathMap.below_put]
  rfl

theorem agree_getFile {localdest pmpsrc : WStr} (hop : c.op = .getFile localdest pmpsrc) :
    ∃ s₁', s'.step sys c = some s₁' ∧ s'.ret sys c = some Error.success.toInt64 ∧
      Agree id mount volume player s₁ s₁' := by
  obtain ⟨tv, hvolume⟩ := h.volume
  obtain ⟨t, hplayer, hdistinct, hitems⟩ := h.player
  obtain ⟨hid, hcommon, hok, hwhole⟩ := hc
  rw [hop] at hcommon
  obtain ⟨⟨ls, hls, houtside⟩, names, hspells⟩ := hcommon
  -- the copy from the volume
  have hmsc' : ({ volume with rootStorage := tv } : UsbDevice).mode = .msc := hmsc
  have hcopy := mscCopy_of_copies (hid.symm ▸ hvolume) hmsc' hmount hop
    (.getFile localdest pmpsrc) hstep hret
  obtain ⟨content, -, -, hcontent, -⟩ := opened_of_mscCopy hcopy
  obtain ⟨ks, hks, hopens, hwrite⟩ := step_of_mscCopy hcopy hcontent hwhole
  obtain rfl := Option.some.inj (hls.symm.trans hks)
  have hdiff : sys.keys (cStr (volume.mountpoint ++ (sys.jni.ca2w pmpsrc).1)) ≠
      sys.keys (cStr (sys.jni.ca2w localdest).1) := by
    rw [hls, hspells.path_eq, hspells.slashes]
    exact fun heq => houtside ((Option.some.inj heq).symm ▸ List.prefix_append _ _)
  rw [if_neg hdiff] at hwrite
  -- the file on the player
  have hfile : s.files.look (mount ++ names.map makeLower) = some (.file content) := by
    rw [System.content, hspells.path_eq, hspells.slashes, Option.bind_some] at hcontent
    split at hcontent
    case _ bytes hlook => rw [hlook, Option.some.inj hcontent]
    · simp at hcontent
  obtain ⟨info, hinfo, hentry⟩ := exists_item hitems hfile
  have hmtp' : ({ player with rootStorage := t } : UsbDevice).mode = .mtp := hmtp
  have hread : items t (readKeys (sys.jni.ca2w pmpsrc).1) = some info := by
    rw [hspells.path_eq, readKeys_pathOf hspells.pathName hspells.ne_nil, hinfo]
  obtain ⟨s₁', hstep', hret', hfiles', hdevice'⟩ :=
    player_getFile (hid.symm ▸ hplayer) hmtp' hok hop hread
  -- …is written to the same place
  have hparent : ¬ mount <+: ls.dropLast := fun hpre => houtside (hpre.trans ls.dropLast_prefix)
  have hallows : s'.files.Allows (.write ls content) := by
    have hallows := DirTree.allows_of_step hwrite
    rw [DirTree.Allows] at hallows ⊢
    rwa [h.elsewhere ls houtside, h.elsewhere _ hparent]
  obtain ⟨written, hwritten⟩ := Option.isSome_iff_exists.mp (DirTree.step_isSome_iff.mpr hallows)
  rw [entry_eq_file hentry, System.request, hopens, if_pos rfl, hls, Option.bind_some, hwritten,
    Option.getD_some] at hfiles'
  refine ⟨s₁', hstep', hret', device_of_step hstep ⟨tv, hvolume⟩,
    ⟨t, hid ▸ hdevice', hdistinct, ?_⟩, fun q hq => ?_⟩
  · rw [hitems]
    funext q
    have hne : mount ++ q ≠ ls := fun heq => houtside (heq ▸ List.prefix_append _ _)
    rw [PathMap.below_apply, PathMap.below_apply, DirTree.look_step_of_ne hwrite hne]
  · rw [hfiles', DirTree.look_step hwritten, DirTree.look_step hwrite]
    simp only [Function.update_apply, h.elsewhere q hq]

omit hmount hc in
/-- Only a null record is taken by a volume. -/
theorem agree_updateMetadata {path : WStr} {metadata : Option FileMetadata}
    (hid : (sys.jni.ca2w c.jdev).1 = id) (hop : c.op = .device (.updateMetadata path metadata)) :
    ∃ s₁', s'.step sys c = some s₁' ∧ s'.ret sys c = some Error.success.toInt64 ∧
      Agree id mount volume player s₁ s₁' := by
  obtain ⟨tv, hvolume⟩ := h.volume
  obtain ⟨t, hplayer, hdistinct, hitems⟩ := h.player
  subst hid
  have hnot : Error.mscNotAvailable.toInt64 ≠ Error.success.toInt64 := by decide
  cases metadata with
  | some m =>
    simp only [Computer.ret, hop, updateMetadata, getInternaldevice_eq,
      hvolume, hmsc, if_true] at hret
    exact absurd (Option.some.inj hret) hnot
  | none =>
    have hfiles : s₁.files = s.files := by
      have hmsc' : ({ volume with rootStorage := tv } : UsbDevice).mode = .msc := hmsc
      have hfiles := volumeCall_of_step hstep hvolume hmsc'
      rw [Computer.volumeCall, hop] at hfiles
      exact (Option.some.inj hfiles).symm
    have hmtp' : ({ player with rootStorage := t } : UsbDevice).mode = .mtp := hmtp
    refine ⟨s', step_of_perform hop hplayer hmtp' rfl, by simp only [Computer.ret, hop]; rfl,
      device_of_step hstep ⟨tv, hvolume⟩, ⟨t, hplayer, hdistinct, ?_⟩, ?_⟩
    · rw [hfiles, hitems]
    · rw [hfiles]
      exact h.elsewhere

/-- **A call that the volume serves**, the player serves, and they agree behind it. -/
theorem agree_step (hfolds : ∀ a b, sys.sameName a b = decide (makeLower a = makeLower b)) :
    ∃ s₁', s'.step sys c = some s₁' ∧ s'.ret sys c = some Error.success.toInt64 ∧
      Agree id mount volume player s₁ s₁' := by
  rcases hop : c.op with op | ⟨localdest, pmpsrc⟩
  · cases op with
    | sendFile srcfile destfile metadata =>
      exact agree_sendFile hmsc hmount hmtp h hc hstep hret hfolds hop
    | createFolder path => exact agree_createFolder hmsc hmtp h hc hstep hret hop
    | deleteFile path =>
      have hpath (ks : List WStr) : (DirTree.Call.unlink ks : FileCall).path = ks := rfl
      refine agree_delete hmtp h hc hstep (.inl hop) hpath (fun _ => rfl)
        (fun _ hallows => hallows.1) fun {tv} hvolume => ?_
      have hmsc' : ({ volume with rootStorage := tv } : UsbDevice).mode = .msc := hmsc
      have hserved := step_of_changes hvolume hmsc' hstep hret hop (.deleteFile path)
      exact hserved
    | deleteFolder path =>
      have hpath (ks : List WStr) : (DirTree.Call.rmdir ks : FileCall).path = ks := rfl
      refine agree_delete hmtp h hc hstep (.inr hop) hpath (fun _ => rfl)
        (fun _ hallows => by rw [hallows.2.1]; simp) fun {tv} hvolume => ?_
      have hmsc' : ({ volume with rootStorage := tv } : UsbDevice).mode = .msc := hmsc
      have hserved := step_of_changes hvolume hmsc' hstep hret hop (.deleteFolder path)
      exact hserved
    | updateMetadata path metadata =>
      exact agree_updateMetadata hmsc hmtp h hstep hret hc.devid hop
    | read => simp [Computer.ret, hop] at hret
  · exact agree_getFile hmsc hmount hmtp h hc hstep hret hop

omit hmount hc hstep hret in
/-- **What can be found on the one**, can be found on the other. -/
theorem findAlike_of_agree : FindAlike sys id mount volume.mountpoint s s' := by
  intro path jdev names hr attributes dwAttrib granted hspells hjdev hok hfits
  obtain ⟨tv, hvolume⟩ := h.volume
  obtain ⟨t, hplayer, -, hitems⟩ := h.player
  subst hjdev
  have hkinds := hfits _ hplayer
  have hempty : pathOf names ≠ [] := fun hnil => hspells.ne_nil (pathOf_eq_nil_iff.mp hnil)
  -- `_wstat` on the volume
  have hlast : (volume.mountpoint ++ (pathOf names).map fun c =>
      if c = slash then backslash else c).getLast? ≠ some backslash :=
    getLast?_backslashes hspells.pathName hspells.backslash_notMem hspells.ne_nil
  have hstat : (sys.volume s.files granted).wstat (volume.mountpoint ++ (pathOf names).map fun c =>
      if c = slash then backslash else c) =
        (items t (names.map makeLower)).map (fileMode ∘ StorageInfo.entry) := by
    have hlook : (items t (names.map makeLower)).map StorageInfo.entry =
        s.files.look (mount ++ names.map makeLower) := congrFun hitems _
    simp only [System.volume, if_neg hlast, hspells.backslashes, Option.bind_some, ← hlook,
      Option.map_map]
  have hasks {attr : UInt32} {kind : StorageKind} {mode : FileMode}
      (hattr : ∀ p n, t.sub? p = some n → (hasAttr (attributes p) attr = true ↔ n.val.kind = kind))
      (hmode : ∀ info : StorageInfo, fileMode info.entry = mode ↔ info.kind = kind) :
      decide ((sys.volume s.files granted).wstat (volume.mountpoint ++ (pathOf names).map fun c =>
        if c = slash then backslash else c) = some mode) =
        existMtp attr hr attributes dwAttrib t (pathOf names) := by
    rw [Bool.eq_iff_iff, decide_eq_true_iff, hstat,
      existMtp_iff_items hok hattr dwAttrib (zero_notMem_pathOf hspells.pathName) hempty,
      pathKeys_pathOf hspells.pathName hspells.ne_nil, Option.map_eq_some_iff]
    simp only [Function.comp_apply, hmode]
  constructor
  · simp only [existFile, existItem, getInternaldevice_eq, hvolume,
      hplayer, hmsc, hmtp, hspells.path_eq, existFileMsc, existFileMtp]
    rw [hasks (fun p n hn => (hkinds p n hn).1) fun info => ?_]
    cases hkind : info.kind <;> simp [StorageInfo.entry, fileMode, hkind]
  · simp only [existFolder, existItem, getInternaldevice_eq, hvolume,
      hplayer, hmsc, hmtp, hspells.path_eq, existFolderMsc, existFolderMtp]
    rw [hasks (fun p n hn => (hkinds p n hn).2) fun info => ?_]
    cases hkind : info.kind <;> simp [StorageInfo.entry, fileMode, hkind]

end Agreement

/-- **A player serves as a volume does.**  A run of calls that the volume serves, the player serves
too; behind it the same lies on both, and the same can be found. -/
theorem player_serves (sys : System) (id : WStr) (mount : List WStr) (volume player : UsbDevice)
    (s s' : Computer) (calls : List SystemCall)
    (hfolds : ∀ a b, sys.sameName a b = decide (makeLower a = makeLower b))
    (hmsc : volume.mode = .msc) (hmount : volume.mountpoint ≠ []) (hmtp : player.mode = .mtp)
    (h : Agree id mount volume player s s')
    (hcommon : ∀ c ∈ calls, c.Common sys id volume.mountpoint mount)
    (hall : (Transition.fired (Computer.step sys) s calls).length = calls.length)
    (hserved : ∀ e ∈ Transition.fired (Computer.step sys) s calls,
      e.pre.ret sys e.label = some Error.success.toInt64) :
    (Transition.fired (Computer.step sys) s' calls).length = calls.length ∧
      (∀ e ∈ Transition.fired (Computer.step sys) s' calls,
        e.pre.ret sys e.label = some Error.success.toInt64) ∧
      Agree id mount volume player (Transition.final (Computer.step sys) s calls)
        (Transition.final (Computer.step sys) s' calls) ∧
      FindAlike sys id mount volume.mountpoint (Transition.final (Computer.step sys) s calls)
        (Transition.final (Computer.step sys) s' calls) := by
  obtain ⟨hall', hserved', hagree⟩ :=
    Transition.lockstep (fun s c => s.ret sys c = some Error.success.toInt64)
      (fun c => c.Common sys id volume.mountpoint mount) (Agree id mount volume player)
      (fun s' c => s'.ret sys c = some Error.success.toInt64)
      (fun s s' c s₁ hc h hret hstep => agree_step hmsc hmount hmtp h hc hstep hret hfolds)
      calls hcommon h hserved hall
  exact ⟨hall', hserved', hagree, findAlike_of_agree hmsc hmtp hagree⟩

/-! ## A stick and a player -/

/-- A computer with a file on drive `C:`… -/
def driveC : Files :=
  Transition.final DirTree.step .empty
    [.mkdir [wide "c:"], .write [wide "c:", wide "a.mp3"] [1, 2, 3]]

/-- …and a folder on drive `E:`, which is the stick. -/
def stickComputer : Computer where
  files := Transition.final DirTree.step driveC
    [.mkdir [wide "e:"], .mkdir [wide "e:", wide "music"]]
  listDevices := Registry.empty.store memoryStick

/-- A player with that folder, under the name of the stick. -/
def stickPlayer : UsbDevice :=
  { UsbDevice.emptyPlayer (wide "stick") with
    rootStorage := .node ⟨[], .folder, .empty, []⟩ [.node ⟨wide "Music", .folder, .empty, []⟩ []] }

def playerComputer : Computer := ⟨driveC, Registry.empty.store stickPlayer⟩

theorem distinctSiblings_stickPlayer : DistinctSiblings stickPlayer.rootStorage := by
  rw [stickPlayer, distinctSiblings_iff]
  refine ⟨by simp, fun c hc => ?_⟩
  obtain rfl := List.mem_singleton.mp hc
  rw [distinctSiblings_iff]
  simp

theorem keys_stickComputer : stickComputer.files.entries.keys =
    [[wide "e:", wide "music"], [wide "e:"], [wide "c:", wide "a.mp3"], [wide "c:"], []] := by
  decide

theorem keys_driveC :
    driveC.entries.keys = [[wide "c:", wide "a.mp3"], [wide "c:"], []] := by decide

theorem items_stickPlayer (q : List WStr) :
    (items stickPlayer.rootStorage q).map StorageInfo.entry =
      stickComputer.files.look ([wide "e:"] ++ q) := by
  match q with
  | [] => decide
  | [k] =>
    by_cases hk : k = wide "music"
    · subst hk
      decide
    · have hkey : ¬ nameKey ⟨wide "Music", .folder, .empty, []⟩ = k := fun h =>
        hk (h.symm.trans (by decide))
      have hdrive : wide "e:" ≠ wide "c:" := by decide
      rw [DirTree.look_of_notMem_keys (by simp [keys_stickComputer, hk, hdrive])]
      simp [items, stickPlayer, Rose.look_cons, hkey]
  | k :: l :: q =>
    rw [DirTree.look_of_notMem_keys (by simp [keys_stickComputer])]
    simp only [items, stickPlayer, Rose.look_cons, Rose.children_node, List.find?_cons]
    split <;> simp

theorem agree_stickPlayer :
    Agree (wide "stick") [wide "e:"] memoryStick stickPlayer stickComputer playerComputer where
  volume := ⟨memoryStick.rootStorage, rfl⟩
  player := ⟨stickPlayer.rootStorage, rfl, distinctSiblings_stickPlayer, funext items_stickPlayer⟩
  elsewhere q hq := by
    by_cases hmem : q ∈ driveC.entries.keys
    · rw [keys_driveC] at hmem
      simp only [List.mem_cons, List.not_mem_nil, or_false] at hmem
      rcases hmem with rfl | rfl | rfl <;> decide
    · have hdrive : q ≠ [wide "e:", wide "music"] ∧ q ≠ [wide "e:"] :=
        ⟨fun h => hq ⟨[wide "music"], h.symm⟩, fun h => hq ⟨[], h.symm⟩⟩
      have hmem' : q ∉ stickComputer.files.entries.keys := by
        rw [keys_driveC] at hmem
        rw [keys_stickComputer]
        simpa [hdrive] using hmem
      rw [DirTree.look_of_notMem_keys hmem']
      exact DirTree.look_of_notMem_keys hmem

/-- A song, sent into a new folder, got back and deleted with it. -/
def onBoth : List SystemCall :=
  [onStick (.device (.createFolder (wide "/Music/New"))),
    onStick (.device (.sendFile (wide "C:\\a.mp3") (wide "/Music/New/b.mp3") (some .sample))),
    onStick (.getFile (wide "C:\\c.mp3") (wide "/Music/New/b.mp3")),
    onStick (.device (.deleteFile (wide "/Music/New/b.mp3"))),
    onStick (.device (.deleteFolder (wide "/Music/New")))]

theorem spells_newFolder :
    Spells .sample (wide "E:") [wide "e:"] (wide "/Music/New") [wide "Music", wide "New"] :=
  ⟨by decide, by decide, by decide, by decide, by decide, by decide⟩

theorem spells_newSong :
    Spells .sample (wide "E:") [wide "e:"] (wide "/Music/New/b.mp3")
      [wide "Music", wide "New", wide "b.mp3"] :=
  ⟨by decide, by decide, by decide, by decide, by decide, by decide⟩

theorem common_onBoth {c : SystemCall} (hc : c ∈ onBoth) :
    c.Common .sample (wide "stick") (wide "E:") [wide "e:"] := by
  have hwhole : CopyIo.sample.Whole := ⟨fun _ => le_rfl, rfl⟩
  have hcommon : c = onStick c.op ∧ c.op.Common .sample (wide "E:") [wide "e:"] := by
    simp only [onBoth, List.mem_cons, List.not_mem_nil, or_false] at hc
    rcases hc with rfl | rfl | rfl | rfl | rfl
    · exact ⟨rfl, _, spells_newFolder, by decide⟩
    · exact ⟨rfl, ⟨[wide "c:", wide "a.mp3"], by decide, by decide⟩, rfl, _, spells_newSong⟩
    · exact ⟨rfl, ⟨[wide "c:", wide "c.mp3"], by decide, by decide⟩, _, spells_newSong⟩
    · exact ⟨rfl, _, spells_newSong⟩
    · exact ⟨rfl, _, spells_newFolder⟩
  obtain ⟨heq, hop⟩ := hcommon
  rw [heq]
  exact ⟨rfl, hop, fun _ => rfl, hwhole⟩

theorem player_serves_stickPlayer :
    (Transition.fired (Computer.step .sample) stickComputer onBoth).length = onBoth.length ∧
      Agree (wide "stick") [wide "e:"] memoryStick stickPlayer
        (Transition.final (Computer.step .sample) stickComputer onBoth)
        (Transition.final (Computer.step .sample) playerComputer onBoth) := by
  have hall : (Transition.fired (Computer.step .sample) stickComputer onBoth).length =
      onBoth.length := by decide
  exact ⟨hall, (player_serves .sample (wide "stick") [wide "e:"] memoryStick stickPlayer
    stickComputer playerComputer onBoth (fun _ _ => rfl) rfl (by decide) rfl agree_stickPlayer
    (fun _ => common_onBoth) hall (by decide)).2.2.1⟩

end MtpRetag
