import MtpRetag.Native.Kinds
import MtpRetag.Native.Listing
import MtpRetag.Machinery.Descent
import Mathlib.Data.List.DropRight

/-!
# Native/ParseFolder — `parse_folder_msc`, and a caller that recurses

A folder of a mounted volume is listed by `FindFirstFile` and `FindNextFile`, which also enumerate
`.` and `..` where there are such entries.  `parse_folder_msc` means to leave these out, but asks
for a name that is both.

`listsExactly_iff` is when one listing is exact, `finite_recursion_iff` when a caller that recurses
into every reported folder comes to an end.
-/

namespace MtpRetag

/-! ## Enumerating a folder -/

/-- `FILE_ATTRIBUTE_DIRECTORY`. -/
def fileAttributeDirectory : UInt32 := 0x00000010

/-- A `WIN32_FIND_DATA`, as far as it is read. -/
structure FindData where
  cFileName : CString
  dwFileAttributes : UInt32

namespace FindData

def isDirectory (d : FindData) : Bool := hasAttr d.dwFileAttributes fileAttributeDirectory

/-- `.` or `..`. -/
def isDot (d : FindData) : Bool := d.cFileName.1 = wide "." ∨ d.cFileName.1 = wide ".."

/-- What is listed of an entry: its name, and no id. -/
def item (d : FindData) : WStr × WStr := (d.cFileName.1, wide "0")

end FindData

/-- A mounted volume and what is enumerated for a search pattern.  The entry `.` of a folder is a
directory, and the folder itself; a folder that has an entry `..` has one `.` too. -/
structure FolderVolume extends MountedVolume where
  findFiles : WStr → List FindData
  isDirectory_of_isDot : ∀ pattern d, d ∈ findFiles pattern → d.isDot = true → d.isDirectory = true
  exists_dot : ∀ pattern d, d ∈ findFiles pattern → d.isDot = true →
    ∃ d' ∈ findFiles pattern, d'.cFileName.1 = wide "."
  wstat_dot : ∀ path, wstat path = some .ifdir → wstat (path ++ wide "\\.") = some .ifdir
  findFiles_dot : ∀ path, wstat path = some .ifdir →
    findFiles (path ++ wide "\\." ++ wide "\\*.*") = findFiles (path ++ wide "\\*.*")

/-! ## `parse_folder_msc` -/

/-- The body of the loop of `parse_folder_msc`: one `push_back`, or `continue`. -/
def FindData.push (ffData : FindData) (l : FolderListing) : FolderListing :=
  if ffData.isDirectory then
    -- no name is both
    if ffData.cFileName.1 = wide "." ∧ ffData.cFileName.1 = wide ".." then l
    else { l with subfolders := l.subfolders ++ [ffData.item] }
  else { l with subfiles := l.subfiles ++ [ffData.item] }

/-- The `do … while` loop of `parse_folder_msc`, with what `FindNextFile` gives. -/
def findLoop : FindData → List FindData → FolderListing → FolderListing
  | ffData, [], l => ffData.push l
  | ffData, next :: rest, l => findLoop next rest (ffData.push l)

/-- `usbdevice::parse_folder_msc`.  `FindFirstFile` fails where nothing is enumerated. -/
def parseFolderMsc (volume : FolderVolume) (usbdev : UsbDevice) (path : WStr)
    (subfiles subfolders : List (WStr × WStr)) : FolderListing :=
  let fulldevicepath := fullDevicepath usbdev path
  if ¬ existFolderMsc volume.toMountedVolume fulldevicepath then
    ⟨Error.folderNotfound, subfiles, subfolders⟩
  else
    match volume.findFiles (fulldevicepath ++ wide "\\*.*") with
    | [] => ⟨Error.unknown, subfiles, subfolders⟩
    | ffData :: rest => findLoop ffData rest ⟨Error.success, subfiles, subfolders⟩

/-! ## `parseFolder` -/

/-- A call of the Java notifier. -/
inductive ParseEvent
  | addFile (name id : WStr)
  | addFolder (name id : WStr)
  deriving DecidableEq, Repr

/-- The two loops that announce a listing. -/
def FolderListing.announce (jni : Jni) (l : FolderListing) : List ParseEvent :=
  (l.subfiles.map fun item => .addFile (jni.newString (cStr item.1)) (jni.newString (cStr item.2))) ++
    l.subfolders.map fun item =>
      .addFolder (jni.newString (cStr item.1)) (jni.newString (cStr item.2))

/-- `Java_jpmp_device_UsbDevice_parseFolder`: its code, and the calls of `notif`, which may be NULL
or lack a method. -/
def parseFolder (volume : FolderVolume) (jni : Jni) (pasmgr : Option Registry) (hr : Outcomes)
    (attributes : Attributes) (jdev path : WStr) (notif : Option (String → Bool)) :
    Int64 × List ParseEvent :=
  match pasmgr with
  | none => (Error.initDeviceManager.toInt64, [])
  | some listDevices =>
    match getInternaldevice jni listDevices jdev with
    | none => (Error.deviceNotMounted.toInt64, [])
    | some usbdev =>
      match notif with
      | none => (Error.wrongParameter.toInt64, [])
      | some getMethodID =>
        if ¬ getMethodID "addFile" then (Error.invokeMethod.toInt64, [])
        else if ¬ getMethodID "addFolder" then (Error.invokeMethod.toInt64, [])
        else
          let fpath := (jni.ca2w path).1
          match usbdev.mode with
          | .msc =>
            let l := parseFolderMsc volume usbdev fpath [] []
            (l.ret.toInt64, l.announce jni)
          | .mtp =>
            let l := parseFolderMtp hr attributes usbdev.rootStorage fpath
            (l.ret.toInt64, l.announce jni)
          | _ => (Error.deviceNotMounted.toInt64, [])

section Announce

variable {jni : Jni} {l : FolderListing} {jname : WStr}

/-- The names that `addFile` is called with… -/
theorem exists_addFile_mem_announce :
    (∃ id, .addFile jname id ∈ l.announce jni) ↔
      ∃ item ∈ l.subfiles, jni.newString (cStr item.1) = jname := by
  simp [FolderListing.announce]

/-- …and `addFolder`. -/
theorem exists_addFolder_mem_announce :
    (∃ id, .addFolder jname id ∈ l.announce jni) ↔
      ∃ item ∈ l.subfolders, jni.newString (cStr item.1) = jname := by
  simp [FolderListing.announce]

/-- A player's folder is announced as `parse_folder_mtp` lists it. -/
theorem parseFolder_of_mtp {volume : FolderVolume} {listDevices : Registry} {jdev path : WStr}
    {usbdev : UsbDevice} {getMethodID : String → Bool} (hr : Outcomes) (attributes : Attributes)
    (hdev : getInternaldevice jni listDevices jdev = some usbdev) (hmtp : usbdev.mode = .mtp)
    (hfile : getMethodID "addFile" = true) (hfolder : getMethodID "addFolder" = true) :
    parseFolder volume jni (some listDevices) hr attributes jdev path (some getMethodID) =
      ((parseFolderMtp hr attributes usbdev.rootStorage (jni.ca2w path).1).ret.toInt64,
        (parseFolderMtp hr attributes usbdev.rootStorage (jni.ca2w path).1).announce jni) := by
  simp only [parseFolder, hdev, hmtp, hfile, hfolder, not_true_eq_false, if_false]

end Announce

/-! ## One listing -/

section Listing

variable {volume : FolderVolume} {usbdev : UsbDevice} {path : WStr}
  {subfiles subfolders : List (WStr × WStr)}

/-- The entries of a folder. -/
def FolderVolume.entries (volume : FolderVolume) (usbdev : UsbDevice) (path : WStr) :
    List FindData :=
  volume.findFiles (fullDevicepath usbdev path ++ wide "\\*.*")

/-- The real subdirectories of a folder. -/
def FolderVolume.subdirectories (volume : FolderVolume) (usbdev : UsbDevice) (path : WStr) :
    List FindData :=
  (volume.entries usbdev path).filter fun d => d.isDirectory ∧ ¬ d.isDot

/-- A listing reports success and appends exactly the real subdirectories and the files. -/
structure ListsExactly (volume : FolderVolume) (usbdev : UsbDevice) (path : WStr)
    (subfiles subfolders : List (WStr × WStr)) : Prop where
  ret : (parseFolderMsc volume usbdev path subfiles subfolders).ret = Error.success
  subfolders_eq : (parseFolderMsc volume usbdev path subfiles subfolders).subfolders =
    subfolders ++ (volume.subdirectories usbdev path).map FindData.item
  subfiles_eq : (parseFolderMsc volume usbdev path subfiles subfolders).subfiles =
    subfiles ++ ((volume.entries usbdev path).filter fun d => ¬ d.isDirectory).map FindData.item

/-- The test for the two dots never holds. -/
theorem FindData.push_eq (d : FindData) (l : FolderListing) :
    d.push l = ⟨l.ret, l.subfiles ++ (if d.isDirectory then [] else [d.item]),
      l.subfolders ++ if d.isDirectory then [d.item] else []⟩ := by
  have hdots : ¬ (d.cFileName.1 = wide "." ∧ d.cFileName.1 = wide "..") := fun h =>
    absurd (h.1.symm.trans h.2) (by decide)
  rw [FindData.push, if_neg hdots]
  cases d.isDirectory <;> simp

/-- **What the loop lists**: every entry, in order, dots included. -/
theorem findLoop_eq :
    ∀ (d : FindData) (ds : List FindData) (l : FolderListing),
      findLoop d ds l =
        ⟨l.ret, l.subfiles ++ ((d :: ds).filter fun d => ¬ d.isDirectory).map FindData.item,
          l.subfolders ++ ((d :: ds).filter fun d => d.isDirectory).map FindData.item⟩
  | d, [], l => by
      rw [findLoop, FindData.push_eq]
      cases h : d.isDirectory <;> simp [h]
  | d, next :: ds, l => by
      rw [findLoop, findLoop_eq next ds, FindData.push_eq]
      cases h : d.isDirectory <;> simp [List.filter_cons, h]

/-- A listing of an existing folder… -/
theorem parseFolderMsc_of_exists
    (h : existFolderMsc volume.toMountedVolume (fullDevicepath usbdev path) = true) :
    parseFolderMsc volume usbdev path subfiles subfolders =
      ⟨if volume.entries usbdev path = [] then Error.unknown else Error.success,
        subfiles ++ ((volume.entries usbdev path).filter fun d => ¬ d.isDirectory).map FindData.item,
        subfolders ++ ((volume.entries usbdev path).filter fun d => d.isDirectory).map
          FindData.item⟩ := by
  rw [parseFolderMsc, if_neg (not_not.mpr h), FolderVolume.entries]
  cases volume.findFiles (fullDevicepath usbdev path ++ wide "\\*.*") with
  | nil => simp
  | cons d ds =>
    dsimp only
    rw [findLoop_eq, if_neg (by simp)]

/-- …and of anything else. -/
theorem parseFolderMsc_of_not_exists
    (h : existFolderMsc volume.toMountedVolume (fullDevicepath usbdev path) ≠ true) :
    parseFolderMsc volume usbdev path subfiles subfolders =
      ⟨Error.folderNotfound, subfiles, subfolders⟩ := by
  rw [parseFolderMsc, if_pos h]

/-- **When a listing is exact**: there are entries, and the dots are not among them. -/
theorem listsExactly_iff
    (h : existFolderMsc volume.toMountedVolume (fullDevicepath usbdev path) = true) :
    ListsExactly volume usbdev path subfiles subfolders ↔
      volume.entries usbdev path ≠ [] ∧ ∀ d ∈ volume.entries usbdev path, d.isDot = false := by
  constructor
  · rintro ⟨hret, hfolders, -⟩
    rw [parseFolderMsc_of_exists h] at hret hfolders
    refine ⟨fun hnil => absurd hret (by simp [hnil, Error.unknown, Error.success]), fun d hd => ?_⟩
    refine Bool.eq_false_of_not_eq_true fun hdot => ?_
    have hdir := volume.isDirectory_of_isDot _ d hd hdot
    have hmem : d.item ∈ (volume.subdirectories usbdev path).map FindData.item := by
      rw [← List.append_cancel_left hfolders]
      exact List.mem_map_of_mem (List.mem_filter.mpr ⟨hd, hdir⟩)
    obtain ⟨e, he, hitem⟩ := List.mem_map.mp hmem
    have hname : e.cFileName.1 = d.cFileName.1 := congrArg Prod.fst hitem
    have hkeep : e.isDirectory = true ∧ ¬ e.isDot = true := by
      simpa using (List.mem_filter.mp he).2
    exact hkeep.2 (by rwa [FindData.isDot, hname])
  · rintro ⟨hne, hdots⟩
    have hreal : volume.subdirectories usbdev path =
        (volume.entries usbdev path).filter fun d => d.isDirectory :=
      List.filter_congr fun d hd => by simp [hdots d hd]
    constructor
    · rw [parseFolderMsc_of_exists h, if_neg hne]
    · rw [parseFolderMsc_of_exists h, hreal]
    · rw [parseFolderMsc_of_exists h]

/-- What Java is told of an exact listing: the files, then the folders, each in order. -/
theorem parseFolder_of_listsExactly {jni : Jni} {listDevices : Registry} {jdev : WStr}
    {getMethodID : String → Bool} (hr : Outcomes) (attributes : Attributes)
    (hdev : getInternaldevice jni listDevices jdev = some usbdev) (hmsc : usbdev.mode = .msc)
    (hfile : getMethodID "addFile" = true) (hfolder : getMethodID "addFolder" = true)
    (h : ListsExactly volume usbdev (jni.ca2w path).1 [] []) :
    parseFolder volume jni (some listDevices) hr attributes jdev path (some getMethodID) =
      (0, (((volume.entries usbdev (jni.ca2w path).1).filter fun d => ¬ d.isDirectory).map fun d =>
          .addFile (jni.newString (cStr d.cFileName.1)) (jni.newString (cStr (wide "0")))) ++
        (volume.subdirectories usbdev (jni.ca2w path).1).map fun d =>
          .addFolder (jni.newString (cStr d.cFileName.1)) (jni.newString (cStr (wide "0")))) := by
  simp only [parseFolder, hdev, hmsc, hfile, hfolder, not_true_eq_false, if_false,
    FolderListing.announce]
  rw [h.ret, h.subfiles_eq, h.subfolders_eq, List.nil_append, List.nil_append, List.map_map,
    List.map_map]
  rfl

end Listing

/-! ## Recursing into what is listed -/

/-- The path of a folder below another one. -/
def folderBelow (path : WStr) (names : List WStr) : WStr := path ++ names.flatMap (slash :: ·)

/-- The folders that are reported at a path… -/
def reportedFolders (volume : FolderVolume) (usbdev : UsbDevice) (path : WStr)
    (names : List WStr) : List WStr :=
  (parseFolderMsc volume usbdev (folderBelow path names) [] []).subfolders.map Prod.fst

/-- …and those that are there. -/
def realFolders (volume : FolderVolume) (usbdev : UsbDevice) (path : WStr) (names : List WStr) :
    List WStr :=
  if existFolderMsc volume.toMountedVolume (fullDevicepath usbdev (folderBelow path names)) then
    (volume.subdirectories usbdev (folderBelow path names)).map fun d => d.cFileName.1
  else []

/-- No listing on the way has one of the dots. -/
def NoDots (volume : FolderVolume) (usbdev : UsbDevice) (path : WStr) : Prop :=
  ∀ names, Descent.Visits (reportedFolders volume usbdev path) names →
    existFolderMsc volume.toMountedVolume (fullDevicepath usbdev (folderBelow path names)) = true →
    ∀ d ∈ volume.entries usbdev (folderBelow path names), d.isDot = false

section Recursion

variable {volume : FolderVolume} {usbdev : UsbDevice} {path : WStr}

/-- What is reported of an existing folder. -/
theorem reportedFolders_of_exists {names : List WStr}
    (h : existFolderMsc volume.toMountedVolume
      (fullDevicepath usbdev (folderBelow path names)) = true) :
    reportedFolders volume usbdev path names =
      ((volume.entries usbdev (folderBelow path names)).filter fun d => d.isDirectory).map
        fun d => d.cFileName.1 := by
  rw [reportedFolders, parseFolderMsc_of_exists h]
  exact List.map_map

/-- Without the dots, only real folders are reported. -/
theorem reportedFolders_subset {names : List WStr}
    (h : existFolderMsc volume.toMountedVolume
        (fullDevicepath usbdev (folderBelow path names)) = true →
      ∀ d ∈ volume.entries usbdev (folderBelow path names), d.isDot = false) :
    reportedFolders volume usbdev path names ⊆ realFolders volume usbdev path names := by
  by_cases hex : existFolderMsc volume.toMountedVolume
      (fullDevicepath usbdev (folderBelow path names)) = true
  · have hreal : volume.subdirectories usbdev (folderBelow path names) =
        (volume.entries usbdev (folderBelow path names)).filter fun d => d.isDirectory :=
      List.filter_congr fun d hd => by simp [h hex d hd]
    rw [reportedFolders_of_exists hex, realFolders, if_pos hex, hreal]
    exact List.Subset.refl _
  · rw [reportedFolders, parseFolderMsc_of_not_exists hex]
    exact List.nil_subset _

/-- The path of a folder and a dot. -/
theorem fullDevicepath_snoc_dot (names : List WStr) :
    fullDevicepath usbdev (folderBelow path (names ++ [wide "."])) =
      fullDevicepath usbdev (folderBelow path names) ++ wide "\\." := by
  have hdot : ([slash] ++ wide ".").map (fun c => if c = slash then backslash else c) =
      wide "\\." := by decide
  rw [folderBelow, List.flatMap_append, List.flatMap_singleton, ← List.append_assoc, fullDevicepath,
    List.map_append, ← List.append_assoc]
  exact congrArg _ hdot

/-- A folder stays the same one, however many dots follow. -/
theorem entries_replicate_dot {names : List WStr}
    (h : existFolderMsc volume.toMountedVolume
      (fullDevicepath usbdev (folderBelow path names)) = true) :
    ∀ n, existFolderMsc volume.toMountedVolume (fullDevicepath usbdev
        (folderBelow path (names ++ List.replicate n (wide ".")))) = true ∧
      volume.entries usbdev (folderBelow path (names ++ List.replicate n (wide "."))) =
        volume.entries usbdev (folderBelow path names)
  | 0 => by simpa using h
  | n + 1 => by
      obtain ⟨hex, hentries⟩ := entries_replicate_dot h n
      have hdir : volume.wstat (fullDevicepath usbdev
          (folderBelow path (names ++ List.replicate n (wide ".")))) = some .ifdir := by
        simpa [existFolderMsc] using hex
      rw [List.replicate_succ', ← List.append_assoc, FolderVolume.entries, fullDevicepath_snoc_dot]
      refine ⟨?_, (volume.findFiles_dot _ hdir).trans hentries⟩
      simpa [existFolderMsc] using volume.wstat_dot _ hdir

/-- **When the recursion ends.**  Over finitely many folders, exactly if no listing on the way has
one of the dots. -/
theorem finite_recursion_iff {depth : ℕ}
    (hfinite : ∀ names, Descent.Visits (realFolders volume usbdev path) names →
      names.length ≤ depth) :
    {names | Descent.Visits (reportedFolders volume usbdev path) names}.Finite ↔
      NoDots volume usbdev path := by
  constructor
  · intro hfin names hnames hex d hd
    refine Bool.eq_false_of_not_eq_true fun hdot => ?_
    obtain ⟨e, he, hname⟩ := volume.exists_dot _ d hd hdot
    refine Descent.infinite_visits hnames (k := wide ".") (fun n => ?_) hfin
    obtain ⟨hex', hentries⟩ := entries_replicate_dot hex n
    rw [reportedFolders_of_exists hex', hentries]
    have hdir := volume.isDirectory_of_isDot _ e he (by simp [FindData.isDot, hname])
    exact List.mem_map.mpr ⟨e, List.mem_filter.mpr ⟨he, hdir⟩, hname⟩
  · intro hdots
    refine Descent.finite_visits fun names hnames => hfinite names ?_
    exact hnames.mono fun ks hks => reportedFolders_subset (hdots ks hks)

end Recursion

/-- **Where folders are listed exactly.**  A listing of an existing folder is exact if and only if it
has entries, and no dots among them; a caller that recurses over finitely many folders comes to an
end if and only if it meets no dots. -/
theorem parse_folder_exact (volume : FolderVolume) (usbdev : UsbDevice) (path : WStr) :
    (∀ subfiles subfolders,
      existFolderMsc volume.toMountedVolume (fullDevicepath usbdev path) = true →
      (ListsExactly volume usbdev path subfiles subfolders ↔
        volume.entries usbdev path ≠ [] ∧ ∀ d ∈ volume.entries usbdev path, d.isDot = false)) ∧
    ((∃ depth, ∀ names, Descent.Visits (realFolders volume usbdev path) names →
        names.length ≤ depth) →
      ({names | Descent.Visits (reportedFolders volume usbdev path) names}.Finite ↔
        NoDots volume usbdev path)) :=
  ⟨fun _ _ h => listsExactly_iff h, fun ⟨_, h⟩ => finite_recursion_iff h⟩

/-- A volume all of whose paths lead to one folder. -/
def FolderVolume.oneFolder (entries : List FindData)
    (hdir : ∀ d ∈ entries, d.isDot = true → d.isDirectory = true)
    (hdot : ∀ d ∈ entries, d.isDot = true → ∃ d' ∈ entries, d'.cFileName.1 = wide ".") :
    FolderVolume where
  deleteFile _ := false
  removeDirectory _ := false
  itemAt _ := some .ifdir
  wstat _ := some .ifdir
  itemAt_of_deleteFile _ h := absurd h Bool.false_ne_true
  itemAt_of_removeDirectory _ h := absurd h Bool.false_ne_true
  itemAt_of_wstat _ _ h := h
  wstat_of_itemAt _ _ h _ := h
  findFiles _ := entries
  isDirectory_of_isDot _ := hdir
  exists_dot _ := hdot
  wstat_dot _ h := h
  findFiles_dot _ _ := rfl

def FindData.sample (name : String) (dwFileAttributes : UInt32) : FindData :=
  ⟨⟨cStr (wide name), zero_notMem_cStr (wide name)⟩, dwFileAttributes⟩

/-- The folder of a camera, as every folder but a root is enumerated. -/
def FolderVolume.dcim : FolderVolume :=
  .oneFolder [.sample "." 0x10, .sample ".." 0x10, .sample "a.jpg" 0x20] (by decide) (by decide)

/-- The folder of the camera reports itself and its parent, and a caller never gets done. -/
theorem dots_listed :
    (parseFolderMsc .dcim (UsbDevice.emptyPlayer []) (wide "/DCIM") [] []).subfolders =
        [(wide ".", wide "0"), (wide "..", wide "0")] ∧
      ¬ ListsExactly .dcim (UsbDevice.emptyPlayer []) (wide "/DCIM") [] [] ∧
      ¬ {names | Descent.Visits
        (reportedFolders .dcim (UsbDevice.emptyPlayer []) (wide "/DCIM")) names}.Finite := by
  have hlist : ∀ names, wide "." ∈
      reportedFolders .dcim (UsbDevice.emptyPlayer []) (wide "/DCIM") names := fun names => by
    rw [reportedFolders_of_exists rfl]
    exact List.mem_cons_self
  refine ⟨rfl, fun h => ?_, ?_⟩
  · exact absurd ((listsExactly_iff rfl).mp h).2 (by decide)
  · exact Descent.infinite_visits .root fun n => hlist _

/-- A path without the separators and dots behind it, which lead to the same folder. -/
def withoutDots (path : WStr) : WStr := path.rdropWhile fun c => c = backslash ∨ [c] = wide "."

theorem withoutDots_append_dot (path : WStr) :
    withoutDots (path ++ wide "\\.") = withoutDots path := by
  have hdot : path ++ wide "\\." = path ++ [backslash] ++ wide "." := by
    rw [List.append_assoc]
    rfl
  rw [hdot, withoutDots]
  exact (List.rdropWhile_concat_pos _ _ _ (by decide)).trans
    (List.rdropWhile_concat_pos _ _ _ (by decide))

/-- A volume of folders that are enumerated without the dots. -/
def FolderVolume.ofFolders (folder : WStr → Option (List FindData))
    (hdots : ∀ path, ∀ d ∈ (folder path).getD [], d.isDot = false) : FolderVolume where
  deleteFile _ := false
  removeDirectory _ := false
  itemAt path := (folder (withoutDots path)).map fun _ => .ifdir
  wstat path := (folder (withoutDots path)).map fun _ => .ifdir
  itemAt_of_deleteFile _ h := absurd h Bool.false_ne_true
  itemAt_of_removeDirectory _ h := absurd h Bool.false_ne_true
  itemAt_of_wstat _ _ h := h
  wstat_of_itemAt _ _ h _ := h
  findFiles pattern := (folder (withoutDots (pattern.rdrop (wide "\\*.*").length))).getD []
  isDirectory_of_isDot _ d hd hdot := absurd hdot (by simp [hdots _ d hd])
  exists_dot _ d hd hdot := absurd hdot (by simp [hdots _ d hd])
  wstat_dot path h := by rwa [withoutDots_append_dot]
  findFiles_dot path _ := by
    rw [List.rdrop_append_length, List.rdrop_append_length, withoutDots_append_dot]

theorem FolderVolume.isDot_of_mem_ofFolders {folder : WStr → Option (List FindData)}
    {hdots : ∀ path, ∀ d ∈ (folder path).getD [], d.isDot = false} {pattern : WStr} {d : FindData}
    (h : d ∈ (FolderVolume.ofFolders folder hdots).findFiles pattern) : d.isDot = false :=
  hdots _ d h

/-- Two songs and two folders with more of them. -/
def FolderVolume.songs : FolderVolume :=
  .ofFolders (fun path =>
    if path = [] then
      some [.sample "a.mp3" 0x20, .sample "Music" 0x10, .sample "b.mp3" 0x20, .sample "Video" 0x10]
    else if path = wide "\\Music" then some [.sample "c.mp3" 0x20, .sample "d.mp3" 0x20]
    else if path = wide "\\Video" then some [.sample "e.mp4" 0x20]
    else none) fun path => by split_ifs <;> decide

/-- Its root is listed exactly, and a caller that recurses from there comes to an end. -/
theorem parse_folder_exact_songs :
    ListsExactly .songs (UsbDevice.emptyPlayer []) [] [] [] ∧
      {names | Descent.Visits
        (reportedFolders .songs (UsbDevice.emptyPlayer []) []) names}.Finite := by
  obtain ⟨hlist, hrec⟩ := parse_folder_exact .songs (UsbDevice.emptyPlayer []) []
  have hroot : realFolders .songs (UsbDevice.emptyPlayer []) [] [] =
      [wide "Music", wide "Video"] := by decide
  have hleaf : ∀ k ∈ [wide "Music", wide "Video"],
      realFolders .songs (UsbDevice.emptyPlayer []) [] [k] = [] := by decide
  have hvisits {names : List WStr}
      (h : Descent.Visits (realFolders .songs (UsbDevice.emptyPlayer []) []) names) :
      names = [] ∨ ∃ k ∈ [wide "Music", wide "Video"], names = [k] := by
    induction h with
    | root => exact .inl rfl
    | sub _ hk ih =>
      rcases ih with rfl | ⟨k, hmem, rfl⟩
      · rw [hroot] at hk
        exact .inr ⟨_, hk, rfl⟩
      · simp [hleaf k hmem] at hk
  refine ⟨(hlist [] [] (by decide)).mpr ⟨by decide, by decide⟩,
    (hrec ⟨1, fun names hnames => ?_⟩).mpr fun names _ _ d hd => ?_⟩
  · rcases hvisits hnames with rfl | ⟨k, -, rfl⟩ <;> simp
  · exact FolderVolume.isDot_of_mem_ofFolders hd

end MtpRetag
