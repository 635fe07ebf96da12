import MtpRetag.Native.DeviceMap
import MtpRetag.Native.ParseFolder
import MtpRetag.Native.ReadFile

/-!
# Native/Answers — what the read calls answer, as queries of the map

Five entry points only read: `existFile`, `existFolder`, `getFile`, `getMetadata` and
`parseFolder`.  They reach the tree by two different walks, and each asks the storage it arrives at
another question.

When no call fails, all of them answer from the map of the device (`reads_query_map`): a position,
an order of children or a spelling of the path plays no part.
-/

namespace MtpRetag

/-! ## The questions -/

/-- Where `read_file` looks for a path: it does not know the spellings of the root. -/
def readKeys (src : WStr) : List WStr := ((splitString src [slash] false).map cStr).map makeLower

/-- What `read_file` writes into the local file: the content behind a `Read` that succeeds. -/
def readContent (hr : Outcomes) (t : Storage) (src : WStr) : Option (List UInt8) :=
  match (walkFolders hr false sOk (splitString src [slash] false) t (some []) 0).storage with
  | .error _ => none
  | .ok none => none
  | .ok (some p) =>
    if (readFrom hr p (hasProgress hr) 0).read.any fun e => decide (Succeeded e) then
      (t.sub? p).map fun n => n.val.content
    else none

/-- The device calls its files files and its folders folders. -/
def FitsKinds (attributes : Attributes) (t : Storage) : Prop :=
  ∀ p n, t.sub? p = some n →
    (hasAttr (attributes p) attrFile = true ↔ n.val.kind = .file) ∧
      (hasAttr (attributes p) attrFolder = true ↔ n.val.kind = .folder)

/-- Attributes that do. -/
def attributesOf (t : Storage) : Attributes := fun p =>
  (t.sub? p).elim 0 fun n =>
    match n.val.kind with
    | .file => attrFile
    | .folder => attrFolder

theorem fitsKinds_attributesOf (t : Storage) : FitsKinds (attributesOf t) t := by
  intro p n hn
  rw [attributesOf, hn, Option.elim_some]
  cases n.val.kind <;> decide

section Answers

variable {hr : Outcomes} {attributes : Attributes} {t n : Storage} {p : Pos} {path src dest : WStr}

/-- A file is looked for where it was sent to. -/
theorem readKeys_eq_destKeys (h : dest ≠ []) : readKeys dest = destKeys dest := by
  rw [readKeys, splitString_eq_append h, destKeys, destFolders]
  simp

/-- The two walks differ at the root only. -/
theorem pathKeys_eq_readKeys (h : ¬ RootSpelling path) : pathKeys path = readKeys path := by
  rw [pathKeys, pathNames, if_neg h, readKeys]

/-- Nothing is read where nothing lies. -/
theorem readMtp_of_items_none (h : items t (readKeys src) = none) :
    (readMtp hr t src).read = none := by
  rcases readMtp_cases hr t src with ⟨-, heq⟩ | ⟨q, hq, -⟩
  · rw [heq]
  · rw [readKeys, items, Rose.look_map nameMatches_eq, resolve_of_walks hq] at h
    obtain ⟨n, hn⟩ := Rose.exists_sub?_of_resolve (resolve_of_walks hq)
    simp [hn] at h

/-- A content is read exactly when `Read` was reached and succeeded. -/
theorem readContent_isSome_iff :
    (readContent hr t src).isSome ↔ WasRead hr t src (readMtp hr t src).read := by
  rcases walkFolders_storage_cases hr false (splitString src [slash] false) (Rose.sub?_nil t) with
    ⟨q, hq, hstorage⟩ | ⟨hno, hstorage⟩
  · have hret := (walkFolders_of_walks hq (Rose.sub?_nil t) rfl).2
    obtain ⟨n, hn⟩ := Rose.exists_sub?_of_resolve (resolve_of_walks hq)
    rw [readContent, readMtp, hstorage, hret]
    dsimp only
    cases hread : (readFrom hr q (hasProgress hr) 0).read with
    | none =>
      simp [WasRead]
    | some e =>
      by_cases he : Succeeded e
      · rw [Option.any_some, if_pos (decide_eq_true he), hn]
        exact iff_of_true rfl ⟨⟨q, hq⟩, e, rfl, he⟩
      · rw [Option.any_some, if_neg (by simpa using he)]
        refine iff_of_false (by simp) ?_
        rintro ⟨-, e', he', hs⟩
        obtain rfl := Option.some.inj he'
        exact he hs
  · rw [readContent, hstorage]
    refine iff_of_false (by simp) ?_
    rintro ⟨⟨q, hq⟩, -⟩
    exact hno q hq

/-- Where a path leads, when no call fails, is what the map says. -/
theorem lookupPath_cases (t : Storage) (hne : path ≠ []) :
    (lookupPath t path = none ∧ items t (pathKeys path) = none) ∨
      ∃ p n, lookupPath t path = some p ∧ t.sub? p = some n ∧
        items t (pathKeys path) = some n.val := by
  cases hp : lookupPath t path with
  | none => exact .inl ⟨rfl, items_of_lookupPath_none hne hp⟩
  | some p =>
    obtain ⟨n, hn⟩ := exists_sub?_of_lookupPath hp
    exact .inr ⟨p, n, rfl, hn, items_of_lookupPath hp hn⟩

/-- A read that no call hinders. -/
theorem readContent_of_ok (hok : ∀ c, hr c = sOk) (src : WStr) :
    readContent hr t src = (items t (readKeys src)).map StorageInfo.content := by
  have hsucc : ∀ c, Succeeded (hr c) := fun c => by rw [hok c]; exact succeeded_sOk
  rcases walkFolders_storage_cases hr false (splitString src [slash] false) (Rose.sub?_nil t) with
    ⟨q, hq, hstorage⟩ | ⟨hno, hstorage⟩
  · obtain ⟨n, hn⟩ := Rose.exists_sub?_of_resolve (resolve_of_walks hq)
    have hread : (readFrom hr q (hasProgress hr) 0).read = some sOk := by
      rw [readFrom, if_neg (not_not.mpr (hsucc _)), if_neg (not_not.mpr (hsucc _)), hok]
    rw [readContent, hstorage, readKeys, items, Rose.look_map nameMatches_eq, resolve_of_walks hq]
    dsimp only
    rw [hread, Option.any_some, if_pos (decide_eq_true succeeded_sOk), Option.bind_some,
      Option.map_map]
    rfl
  · have hres : Rose.resolve nameMatches ((splitString src [slash] false).map cStr) t = none := by
      rw [Option.eq_none_iff_forall_ne_some]
      intro q hq
      exact hno q (by simpa using walks_of_resolve false hsucc (p := []) hq)
    rw [readContent, hstorage, readKeys, items, Rose.look_map nameMatches_eq, hres]
    rfl

/-- **A listing lists the map**, one level below the path. -/
theorem mem_listed_iff (ht : WellNamed t) (hp : lookupPath t path = some p)
    (hn : t.sub? p = some n) {attr : UInt32} {kind : StorageKind}
    (hattr : ∀ p n, t.sub? p = some n →
      (hasAttr (attributes p) attr = true ↔ n.val.kind = kind)) (name : WStr) :
    (∃ id, (name, id) ∈ listed hr attributes attr p 0 n.children) ↔
      ∃ info, items t (pathKeys path ++ [makeLower name]) = some info ∧ info.name = name ∧
        info.kind = kind := by
  rw [pathKeys, items_below (resolve_of_lookupPath hp) hn]
  constructor
  · rintro ⟨id, hmem⟩
    obtain ⟨i, c, hc, hitem, hkind⟩ := of_mem_listed hmem
    have hsub : t.sub? (p ++ [i]) = some c := by rw [Rose.sub?_append_singleton hn, hc]
    have hname : name = c.val.name :=
      (Prod.mk.inj hitem).1.trans
        (cStr_eq_self (ht.pathName hn c (List.mem_of_getElem? hc)).zero_notMem)
    refine ⟨c.val, ?_, hname.symm, (hattr _ _ hsub).mp hkind⟩
    rw [hname, Rose.find?_of_firstMatch nameMatches_eq (ht.firstMatch hn hc) hc, Option.map_some]
  · rintro ⟨info, hinfo, rfl, rfl⟩
    obtain ⟨c, hfind, rfl⟩ := Option.map_eq_some_iff.mp hinfo
    obtain ⟨i, hc⟩ := List.getElem?_of_mem (List.mem_of_find?_eq_some hfind)
    have hsub : t.sub? (p ++ [i]) = some c := by rw [Rose.sub?_append_singleton hn, hc]
    have hname : cStr c.val.name = c.val.name :=
      cStr_eq_self (ht.pathName hn c (List.mem_of_getElem? hc)).zero_notMem
    refine ⟨storageId hr (p ++ [i]) c.val, List.mem_map.mpr ⟨(c, i), ?_, ?_⟩⟩
    · refine List.mem_filter.mpr ⟨List.mem_zipIdx_iff_getElem?.mpr hc, ?_⟩
      exact (hattr _ _ hsub).mpr rfl
    · rw [listItem, hname]

/-- …and so does the notifier that is told of it. -/
theorem exists_item_listed_iff {jni : Jni} (ht : WellNamed t) (hp : lookupPath t path = some p)
    (hn : t.sub? p = some n) {attr : UInt32} {kind : StorageKind}
    (hattr : ∀ p n, t.sub? p = some n →
      (hasAttr (attributes p) attr = true ↔ n.val.kind = kind)) (jname : WStr) :
    (∃ item ∈ listed hr attributes attr p 0 n.children, jni.newString (cStr item.1) = jname) ↔
      ∃ info, items t (pathKeys path ++ [makeLower info.name]) = some info ∧ info.kind = kind ∧
        jni.newString info.name = jname := by
  have hself {item : WStr × WStr} (hitem : item ∈ listed hr attributes attr p 0 n.children) :
      cStr item.1 = item.1 := by
    obtain ⟨i, c, -, rfl, -⟩ := of_mem_listed hitem
    exact cStr_eq_self (zero_notMem_cStr _)
  constructor
  · rintro ⟨⟨name, id⟩, hitem, rfl⟩
    obtain ⟨info, hinfo, rfl, hkind⟩ := (mem_listed_iff ht hp hn hattr name).mp ⟨id, hitem⟩
    exact ⟨info, hinfo, hkind, by rw [hself hitem]⟩
  · rintro ⟨info, hinfo, hkind, rfl⟩
    obtain ⟨id, hitem⟩ :=
      (mem_listed_iff ht hp hn hattr info.name).mpr ⟨info, hinfo, rfl, hkind⟩
    exact ⟨_, hitem, by rw [hself hitem]⟩

/-- A lookup asks the map for an item of its kind. -/
theorem existMtp_iff_items (hok : ∀ c, hr c = sOk) {attr : UInt32} {kind : StorageKind}
    (hattr : ∀ p n, t.sub? p = some n →
      (hasAttr (attributes p) attr = true ↔ n.val.kind = kind))
    (dwAttrib : UInt32) (h0 : (0 : WChar) ∉ path) (hne : path ≠ []) :
    existMtp attr hr attributes dwAttrib t path = true ↔
      ∃ info, items t (pathKeys path) = some info ∧ info.kind = kind := by
  have hsucc : ∀ c, Succeeded (hr c) := fun c => by rw [hok c]; exact succeeded_sOk
  rw [existMtp_eq_true_iff, cStr_eq_self h0]
  rcases lookupPath_cases t hne with ⟨hp, hnone⟩ | ⟨p, n, hp, hn, hsome⟩
  · rw [hp, hnone]
    simp
  · rw [hp, hsome]
    constructor
    · rintro ⟨q, hq, -, hkind⟩
      obtain rfl := Option.some.inj hq
      rw [if_pos (hsucc _)] at hkind
      exact ⟨n.val, rfl, (hattr p n hn).mp hkind⟩
    · rintro ⟨info, hinfo, hkind⟩
      obtain rfl := Option.some.inj hinfo
      refine ⟨p, rfl, fun c _ => hsucc c, ?_⟩
      rw [if_pos (hsucc _)]
      exact (hattr p n hn).mpr hkind

/-- A path that leads nowhere has no record, whatever fails… -/
theorem getMetadata_of_lookupPath_none {jni : Jni} {listDevices : Registry} {jdev path : WStr}
    {usbdev : UsbDevice} (hdev : getInternaldevice jni listDevices jdev = some usbdev)
    (hmode : usbdev.mode ≠ .msc) (h : lookupPath usbdev.rootStorage (jni.ca2w path).1 = none)
    (hr : Outcomes) (m : FileMetadata) :
    getMetadata jni (some listDevices) hr jdev path (some m) =
      ⟨Error.metadataProperty.toInt64, some m⟩ := by
  have hget : (usbdev.getMetadata hr (jni.ca2w path).1).2 = none := by
    rw [UsbDevice.getMetadata, cStr_eq_self (jni.ca2w path).2]
    rcases hby : getStorageBypath hr usbdev.rootStorage (jni.ca2w path).1 with ⟨ret, _ | p⟩
    · rfl
    · have hp := (lookupPath_of_getStorageBypath (congrArg Prod.snd hby)).1
      exact absurd (h.symm.trans hp) (by simp)
  rcases hpair : usbdev.getMetadata hr (jni.ca2w path).1 with ⟨ret, out⟩
  rw [hpair] at hget
  obtain rfl : out = none := hget
  rw [getMetadata]
  simp only [hdev, if_neg hmode, hpair]

/-- …and one that leads somewhere has that of the item, if nothing fails. -/
theorem getMetadata_eq_items {jni : Jni} {listDevices : Registry} {jdev path : WStr}
    {usbdev : UsbDevice} (hdev : getInternaldevice jni listDevices jdev = some usbdev)
    (hmode : usbdev.mode ≠ .msc) (hok : ∀ c, hr c = sOk) (hne : (jni.ca2w path).1 ≠ [])
    (m : FileMetadata) :
    getMetadata jni (some listDevices) hr jdev path (some m) =
      (items usbdev.rootStorage (pathKeys (jni.ca2w path).1)).elim
        ⟨Error.metadataProperty.toInt64, some m⟩
        fun info => ⟨Error.success.toInt64, some (readMetadata jni hr info.metadata)⟩ := by
  rcases lookupPath_cases usbdev.rootStorage hne with ⟨hp, hitem⟩ | ⟨p, n, hp, hn, hitem⟩
  · rw [hitem, Option.elim_none, getMetadata_of_lookupPath_none hdev hmode hp]
  · rw [hitem, Option.elim_some, getMetadata_of_lookupPath hdev hmode hok hp,
      metadataAt_of_sub? hn]
    rfl

/-- `Read` is called where something lies. -/
theorem read_readMtp_of_ok (hok : ∀ c, hr c = sOk) (src : WStr) :
    (readMtp hr t src).read = (items t (readKeys src)).map fun _ => sOk := by
  have hsucc : ∀ c, Succeeded (hr c) := fun c => by rw [hok c]; exact succeeded_sOk
  cases hitem : items t (readKeys src) with
  | none => rw [readMtp_of_items_none hitem, Option.map_none]
  | some info =>
    have hcontent : (readContent hr t src).isSome := by rw [readContent_of_ok hok, hitem]; rfl
    rcases readMtp_cases hr t src with ⟨hno, -⟩ | ⟨q, -, ⟨hmiss, -⟩ | ⟨-, -, heq⟩⟩
    · exact absurd (readContent_isSome_iff.mp hcontent).1 fun ⟨q, hq⟩ => hno q hq
    · exact absurd hmiss (by simp [hsucc])
    · rw [heq, Option.map_some, hok]

end Answers

/-- What the read calls answer about a path, as queries of the map of its device: the lookups about
the path that their pointer reads, the others about the one that was passed. -/
structure AnswersFromMap (w : World) (volume : FolderVolume) (jni : Jni) (listDevices : Registry)
    (hr : Outcomes) (attributes : Attributes) (jdev path : WStr) (t : Storage) : Prop where
  file : ∀ dwAttrib (fpath : CString), fpath.1 ≠ [] →
    (existFile volume.toMountedVolume jni (some listDevices) hr attributes dwAttrib jdev fpath =
        Error.success.toInt64 ↔
      ∃ info, items t (pathKeys fpath.1) = some info ∧ info.kind = .file)
  folder : ∀ dwAttrib (fpath : CString), fpath.1 ≠ [] →
    (existFolder volume.toMountedVolume jni (some listDevices) hr attributes dwAttrib jdev fpath =
        Error.success.toInt64 ↔
      ∃ info, items t (pathKeys fpath.1) = some info ∧ info.kind = .folder)
  record : ∀ m, getMetadata jni (some listDevices) hr jdev path (some m) =
    (items t (pathKeys (jni.ca2w path).1)).elim ⟨Error.metadataProperty.toInt64, some m⟩
      fun info => ⟨Error.success.toInt64, some (readMetadata jni hr info.metadata)⟩
  read : ∀ localdest, (getFile w jni (some listDevices) hr jdev localdest path).read =
    (items t (readKeys (jni.ca2w path).1)).map fun _ => sOk
  content : readContent hr t (jni.ca2w path).1 =
    (items t (readKeys (jni.ca2w path).1)).map StorageInfo.content
  listing : WellNamed t → items t (pathKeys (jni.ca2w path).1) ≠ none →
    ∀ getMethodID : String → Bool, getMethodID "addFile" = true → getMethodID "addFolder" = true →
      (parseFolder volume jni (some listDevices) hr attributes jdev path (some getMethodID)).1 =
          Error.success.toInt64 ∧
        ∀ jname,
          ((∃ id, .addFile jname id ∈ (parseFolder volume jni (some listDevices) hr attributes
              jdev path (some getMethodID)).2) ↔
            ∃ info, items t (pathKeys (jni.ca2w path).1 ++ [makeLower info.name]) = some info ∧
              info.kind = .file ∧ jni.newString info.name = jname) ∧
          ((∃ id, .addFolder jname id ∈ (parseFolder volume jni (some listDevices) hr attributes
              jdev path (some getMethodID)).2) ↔
            ∃ info, items t (pathKeys (jni.ca2w path).1 ++ [makeLower info.name]) = some info ∧
              info.kind = .folder ∧ jni.newString info.name = jname)

/-- **The read calls answer from the map.**  When no call fails, on a device whose attributes tell
files from folders: the lookups find an item of their kind, `getMetadata` returns the record of the
item, `getFile` reads its content, and `parseFolder` names what lies one level below. -/
theorem reads_query_map (w : World) (volume : FolderVolume) (jni : Jni) (listDevices : Registry)
    (hr : Outcomes) (attributes : Attributes) (jdev path : WStr) (usbdev : UsbDevice)
    (hdev : getInternaldevice jni listDevices jdev = some usbdev) (hmtp : usbdev.mode = .mtp)
    (hok : ∀ c, hr c = sOk) (hfit : FitsKinds attributes usbdev.rootStorage)
    (hne : (jni.ca2w path).1 ≠ []) :
    AnswersFromMap w volume jni listDevices hr attributes jdev path usbdev.rootStorage := by
  have hsucc : ∀ c, Succeeded (hr c) := fun c => by rw [hok c]; exact succeeded_sOk
  have hnone : NoneFails hr := ⟨hsucc, fun _ => hok _, fun _ => hok _⟩
  constructor
  case file =>
    intro dwAttrib fpath hfpath
    rw [existFile, existItem_of_mtp hdev hmtp]
    exact existMtp_iff_items hok (fun p n hn => (hfit p n hn).1) dwAttrib fpath.2 hfpath
  case folder =>
    intro dwAttrib fpath hfpath
    rw [existFolder, existItem_of_mtp hdev hmtp]
    exact existMtp_iff_items hok (fun p n hn => (hfit p n hn).2) dwAttrib fpath.2 hfpath
  case record => exact getMetadata_eq_items hdev (by simp [hmtp]) hok hne
  case read =>
    intro localdest
    rw [← read_readMtp_of_ok hok, getFile]
    simp only [hdev, readFile, hmtp]
  case content => exact readContent_of_ok hok _
  case listing =>
    intro ht hsome getMethodID hfile hfolder
    rw [parseFolder_of_mtp hr attributes hdev hmtp hfile hfolder]
    rcases lookupPath_cases usbdev.rootStorage hne with ⟨-, hitem⟩ | ⟨p, n, hp, hn, -⟩
    · exact absurd hitem hsome
    have hp' : lookupPath usbdev.rootStorage (cStr (jni.ca2w path).1) = some p := by
      rwa [cStr_eq_self (jni.ca2w path).2]
    rw [parseFolderMtp_of_lookupPath hnone hp' hn]
    refine ⟨rfl, fun jname => ⟨exists_addFile_mem_announce.trans ?_,
      exists_addFolder_mem_announce.trans ?_⟩⟩
    · exact exists_item_listed_iff ht hp hn (fun p n hn => (hfit p n hn).1) jname
    · exact exists_item_listed_iff ht hp hn (fun p n hn => (hfit p n hn).2) jname

/-- What a player answers about its music folder. -/
theorem reads_query_map_musicPlayer :
    AnswersFromMap .sample .dcim .identity (Registry.empty.store musicPlayer) (fun _ => sOk)
      (attributesOf musicPlayer.rootStorage) (wide "player") (wide "/MUSIC")
      musicPlayer.rootStorage :=
  reads_query_map .sample .dcim .identity (Registry.empty.store musicPlayer) (fun _ => sOk)
    (attributesOf musicPlayer.rootStorage) (wide "player") (wide "/MUSIC") musicPlayer
    rfl rfl (fun _ => rfl) (fitsKinds_attributesOf _) (by decide)

end MtpRetag
