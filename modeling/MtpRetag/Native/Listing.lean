import MtpRetag.Native.Substorage
import MtpRetag.Native.MetaItems
import Mathlib.Data.List.Nodup

/-!
# Native/Listing — `parse_folder_mtp` and the lookups of what it lists

A folder is listed by enumerating its storages; a listed item is then looked up by the folder's
path, a slash and its name, which goes through `split_string` and the lower-cased comparison of
every level.

`listing_agrees` is the agreement of the two, on a tree whose siblings have different names.
-/

namespace MtpRetag

/-! ## Attributes -/

/-- What `GetAttributes` answers about the storage at a position. -/
abbrev Attributes := Pos → UInt32

/-- `WMDM_FILE_ATTR_FOLDER`. -/
def attrFolder : UInt32 := 0x00000008

/-- `WMDM_FILE_ATTR_FILE`. -/
def attrFile : UInt32 := 0x00000020

/-- `(dwAttrib & attr) == attr`. -/
def hasAttr (dwAttrib attr : UInt32) : Bool := dwAttrib &&& attr = attr

/-! ## Listing -/

/-- The code of `parse_folder_mtp` and its two lists, of names and item ids. -/
structure FolderListing where
  ret : Int32
  subfiles : List (WStr × WStr)
  subfolders : List (WStr × WStr)

/-- The two `push_back`s of one storage. -/
def FolderListing.push (l : FolderListing) (dwStorageAttributes : UInt32) (item : WStr × WStr) :
    FolderListing :=
  { l with
    subfiles := if hasAttr dwStorageAttributes attrFile then l.subfiles ++ [item] else l.subfiles
    subfolders :=
      if hasAttr dwStorageAttributes attrFolder then l.subfolders ++ [item] else l.subfolders }

/-- `storageid`: the persistent ID of a storage, if it has a non-empty one that can be read. -/
def storageId (hr : Outcomes) (p : Pos) (info : StorageInfo) : WStr :=
  match info.metadata .persistentUniqueID with
  | some item =>
    if hr (.getMetadata p) = sOk ∧ Succeeded (hr (.queryItemId p)) ∧ item.value ≠ [] then
      cStr (wcharsOf item.value)
    else wide "0"
  | none => wide "0"

/-- What `parse_folder_mtp` lists of a storage: its name, as `GetName` writes it, and its id. -/
def listItem (hr : Outcomes) (p : Pos) (s : Storage) : WStr × WStr :=
  (cStr s.val.name, storageId hr p s.val)

/-- The enumeration loop of `parse_folder_mtp` from the `i`-th storage on.  An exception keeps what
has been listed. -/
def parseLoop (hr : Outcomes) (attributes : Attributes) (p : Pos) :
    ℕ → List Storage → FolderListing → FolderListing
  | i, [], l => if Succeeded (hr (.next p i)) then l else { l with ret := 1 }
  | i, c :: cs, l =>
    if ¬ Succeeded (hr (.next p i)) then { l with ret := 1 }
    else if hr (.getName (p ++ [i])) ≠ sOk then { l with ret := 1 }
    else if hr (.queryStorage3 (p ++ [i])) ≠ sOk then { l with ret := 1 }
    else if ¬ Succeeded (hr (.getAttributes (p ++ [i]))) then { l with ret := 1 }
    else
      parseLoop hr attributes p (i + 1) cs
        (l.push (attributes (p ++ [i])) (listItem hr (p ++ [i]) c))

/-- `usbdevice::parse_folder_mtp`, on lists that are empty. -/
def parseFolderMtp (hr : Outcomes) (attributes : Attributes) (t : Storage) (path : WStr) :
    FolderListing :=
  match getStorageBypath hr t (cStr path) with
  -- a path that leads nowhere has a non-zero code
  | (ret, none) => ⟨ret, [], []⟩
  | (ret, some p) =>
    if ret ≠ 0 then ⟨ret, [], []⟩
    else if ¬ Succeeded (hr (.enumStorage p)) then ⟨1, [], []⟩
    else parseLoop hr attributes p 0 (childrenAt t p) ⟨ret, [], []⟩

/-! ## Looking up -/

/-- The body of the two lookups.  `dwAttrib` is what the unassigned variable holds, which is tested
even when `GetAttributes` fails. -/
def existMtp (attr : UInt32) (hr : Outcomes) (attributes : Attributes) (dwAttrib : UInt32)
    (t : Storage) (fpath : WStr) : Bool :=
  match getStorageBypath hr t (cStr fpath) with
  | (_, none) => false
  | (ret, some p) =>
    ret = 0 ∧ hasAttr (if Succeeded (hr (.getAttributes p)) then attributes p else dwAttrib) attr

/-- `usbdevice::exist_folder_mtp`. -/
def existFolderMtp (hr : Outcomes) (attributes : Attributes) (dwAttrib : UInt32) (t : Storage)
    (fpath : WStr) : Bool :=
  existMtp attrFolder hr attributes dwAttrib t fpath

/-- `usbdevice::exist_file_mtp`. -/
def existFileMtp (hr : Outcomes) (attributes : Attributes) (dwAttrib : UInt32) (t : Storage)
    (fpath : WStr) : Bool :=
  existMtp attrFile hr attributes dwAttrib t fpath

/-! ## Named trees -/

/-- A name that a path can spell.  `GetName` writes no NUL but the last. -/
structure PathName (name : WStr) : Prop where
  ne_nil : name ≠ []
  slash_notMem : slash ∉ name
  zero_notMem : (0 : WChar) ∉ name

instance (name : WStr) : Decidable (PathName name) :=
  decidable_of_iff (name ≠ [] ∧ slash ∉ name ∧ (0 : WChar) ∉ name)
    ⟨fun h => ⟨h.1, h.2.1, h.2.2⟩, fun h => ⟨h.ne_nil, h.slash_notMem, h.zero_notMem⟩⟩

/-- Siblings have names that a path can spell, pairwise different ignoring case. -/
structure WellNamed (t : Storage) : Prop where
  pathName : ∀ {q n}, t.sub? q = some n → ∀ c ∈ n.children, PathName c.val.name
  nodup : ∀ {q n}, t.sub? q = some n → (n.children.map fun c => makeLower c.val.name).Nodup

/-- No call fails: each returns a success code, `GetName` and `QueryInterface` the one they have. -/
structure NoneFails (hr : Outcomes) : Prop where
  succeeded : ∀ c, Succeeded (hr c)
  getName : ∀ p, hr (.getName p) = sOk
  queryStorage3 : ∀ p, hr (.queryStorage3 p) = sOk

/-- The path of a storage: `/` for the root, else `/n1/…/nk`. -/
def devicePath (t : Storage) (q : Pos) : WStr :=
  if q = [] then [slash] else (t.trail StorageInfo.name q).flatMap (slash :: ·)

section Agree

variable {hr : Outcomes} {attributes : Attributes} {t n : Storage} {q : Pos}

/-- What a listing adds for storages from the `i`-th on. -/
def listed (hr : Outcomes) (attributes : Attributes) (attr : UInt32) (p : Pos) (i : ℕ)
    (cs : List Storage) : List (WStr × WStr) :=
  ((cs.zipIdx i).filter fun c => hasAttr (attributes (p ++ [c.2])) attr).map fun c =>
    listItem hr (p ++ [c.2]) c.1

theorem listed_cons (attr : UInt32) (p : Pos) (i : ℕ) (c : Storage) (cs : List Storage) :
    listed hr attributes attr p i (c :: cs) =
      (if hasAttr (attributes (p ++ [i])) attr then [listItem hr (p ++ [i]) c] else []) ++
        listed hr attributes attr p (i + 1) cs := by
  rw [listed, List.zipIdx_cons, List.filter_cons]
  split <;> rfl

/-- A `push_back` under a condition, in front of what follows. -/
theorem ite_append_singleton {α : Type*} (b : Bool) (l r : List α) (x : α) :
    (if b then l ++ [x] else l) ++ r = l ++ ((if b then [x] else []) ++ r) := by
  cases b <;> simp

/-- **What the loop lists**, when no call fails: every storage, in the order of enumeration. -/
theorem parseLoop_of_noneFails (hok : NoneFails hr) (p : Pos) :
    ∀ (i : ℕ) (cs : List Storage) (l : FolderListing),
      parseLoop hr attributes p i cs l =
        { ret := l.ret
          subfiles := l.subfiles ++ listed hr attributes attrFile p i cs
          subfolders := l.subfolders ++ listed hr attributes attrFolder p i cs }
  | i, [], l => by simp [parseLoop, hok.succeeded, listed]
  | i, c :: cs, l => by
      rw [parseLoop, if_neg (not_not.mpr (hok.succeeded _)), if_neg (not_not.mpr (hok.getName _)),
        if_neg (not_not.mpr (hok.queryStorage3 _)), if_neg (not_not.mpr (hok.succeeded _)),
        parseLoop_of_noneFails hok p (i + 1) cs, listed_cons, listed_cons, FolderListing.push,
        ite_append_singleton, ite_append_singleton]

theorem parseFolderMtp_of_lookupPath (hok : NoneFails hr) {path : WStr}
    (hpath : lookupPath t (cStr path) = some q) (hn : t.sub? q = some n) :
    parseFolderMtp hr attributes t path =
      ⟨0, listed hr attributes attrFile q 0 n.children,
        listed hr attributes attrFolder q 0 n.children⟩ := by
  have henum := hok.succeeded (.enumStorage q)
  rw [parseFolderMtp, getStorageBypath_of_lookupPath hok.succeeded hpath]
  simp [henum, childrenAt_of_sub? hn, parseLoop_of_noneFails hok]

theorem existMtp_of_lookupPath (hok : NoneFails hr) (attr dwAttrib : UInt32) {path : WStr}
    (hpath : lookupPath t (cStr path) = some q) :
    existMtp attr hr attributes dwAttrib t path = hasAttr (attributes q) attr := by
  have hget := hok.succeeded (.getAttributes q)
  rw [existMtp, getStorageBypath_of_lookupPath hok.succeeded hpath]
  simp [hget]

theorem existMtp_of_lookupPath_none (attr dwAttrib : UInt32) {path : WStr}
    (hpath : lookupPath t (cStr path) = none) :
    existMtp attr hr attributes dwAttrib t path = false := by
  rw [existMtp]
  cases hget : (getStorageBypath hr t (cStr path)).2 with
  | none =>
    split
    next => rfl
    next heq => simp [heq] at hget
  | some p =>
    have := (lookupPath_of_getStorageBypath hget).1
    simp [hpath] at this

/-! ## Paths of storages -/

/-- Every child is the first match of its own name. -/
theorem WellNamed.firstMatch (ht : WellNamed t) (hn : t.sub? q = some n) {i : ℕ} {c : Storage}
    (hc : n.children[i]? = some c) :
    Rose.firstMatch nameMatches n.children c.val.name = some i := by
  refine Rose.firstMatch_eq_some_of_pairwise hc (by simp [nameMatches]) fun j d hj hd => ?_
  have hi := (List.getElem?_eq_some_iff.mp hc).1
  have hne := List.nodup_iff_getElem?_ne_getElem?.mp (ht.nodup hn) j i hj (by simpa using hi)
  simpa [hc, hd, nameMatches] using hne

/-- A tree is well named if its children are, and have names for that. -/
theorem wellNamed_iff :
    WellNamed t ↔ (∀ c ∈ t.children, PathName c.val.name) ∧
      (t.children.map fun c => makeLower c.val.name).Nodup ∧ ∀ c ∈ t.children, WellNamed c := by
  constructor
  · intro h
    refine ⟨h.pathName (Rose.sub?_nil t), h.nodup (Rose.sub?_nil t), fun c hc => ?_⟩
    obtain ⟨i, hi⟩ := List.getElem?_of_mem hc
    have hsub (q : Pos) : t.sub? (i :: q) = c.sub? q := by
      rw [Rose.sub?_cons, hi, Option.bind_some]
    exact ⟨fun hn => h.pathName ((hsub _).trans hn), fun hn => h.nodup ((hsub _).trans hn)⟩
  · rintro ⟨hpath, hnodup, hbelow⟩
    have hcases {q : Pos} {n : Storage} (hn : t.sub? q = some n) :
        t = n ∨ ∃ c q', WellNamed c ∧ c.sub? q' = some n := by
      cases q with
      | nil => exact .inl (by simpa using hn)
      | cons i q =>
        rw [Rose.sub?_cons] at hn
        obtain ⟨c, hc, hn⟩ := Option.bind_eq_some_iff.mp hn
        exact .inr ⟨c, q, hbelow c (List.mem_of_getElem? hc), hn⟩
    constructor
    · intro q n hn
      rcases hcases hn with rfl | ⟨c, q', hc, hn⟩
      · exact hpath
      · exact hc.pathName hn
    · intro q n hn
      rcases hcases hn with rfl | ⟨c, q', hc, hn⟩
      · exact hnodup
      · exact hc.nodup hn

theorem wellNamed_leaf (info : StorageInfo) : WellNamed (.node info []) := by
  rw [wellNamed_iff]
  simp

theorem WellNamed.of_mem_trail (ht : WellNamed t) :
    ∀ a ∈ t.trail StorageInfo.name q, PathName a := fun a ha => by
  obtain ⟨_, m, hm, c, hc, rfl⟩ := Rose.exists_of_mem_trail ha
  exact ht.pathName hm c hc

theorem WellNamed.resolve_trail (ht : WellNamed t) (hn : t.sub? q = some n) :
    Rose.resolve nameMatches (t.trail StorageInfo.name q) t = some q :=
  Rose.resolve_trail (fun _ _ hm _ _ hc => ht.firstMatch hm hc) hn

theorem map_cStr_eq_self {names : List WStr} (h : ∀ a ∈ names, PathName a) :
    names.map cStr = names :=
  (List.map_congr_left fun a ha => cStr_eq_self (h a ha).zero_notMem).trans (List.map_id names)

/-- A path that cuts into names is no spelling of the root, and leads where the names do. -/
theorem lookupPath_of_splitString {path : WStr} {names : List WStr} {m : WStr}
    (hsplit : splitString path [slash] false = names ++ [m])
    (h : ∀ a ∈ names ++ [m], PathName a) :
    lookupPath t path = Rose.resolve nameMatches (names ++ [m]) t := by
  have hm : m ≠ [] := (h m (by simp)).ne_nil
  have hne : path ≠ [] := by
    rintro rfl
    simp [splitString] at hsplit
  have hroot : ¬ RootSpelling path := by
    intro hroot
    have hcut : splitString path [slash] false = [] ++ [[]] := by
      rcases hroot with rfl | rfl <;> decide
    exact hm (List.append_inj_right' (hsplit.symm.trans hcut) rfl |> List.singleton_inj.mp)
  rw [lookupPath, if_neg hne, if_neg hroot, hsplit, map_cStr_eq_self h]

theorem zero_notMem_devicePath (ht : WellNamed t) : (0 : WChar) ∉ devicePath t q := by
  have hslash : (0 : WChar) ≠ slash := by decide
  rw [devicePath]
  split
  · simpa using hslash
  · simp only [List.mem_flatMap, List.mem_cons, hslash, false_or, not_exists, not_and]
    exact fun a ha => (ht.of_mem_trail a ha).zero_notMem

/-- **The path of a storage leads to it.** -/
theorem lookupPath_devicePath (ht : WellNamed t) (hn : t.sub? q = some n) :
    lookupPath t (devicePath t q) = some q := by
  rw [devicePath]
  split
  case isTrue hq =>
    subst hq
    simp [lookupPath, RootSpelling]
  case isFalse hq =>
    have hresolve := ht.resolve_trail hn
    have hnames := ht.of_mem_trail (q := q)
    have hlast : t.trail StorageInfo.name q ≠ [] := by
      intro h
      rw [h] at hresolve
      exact hq (by simpa using hresolve.symm)
    obtain ⟨names, m, htrail⟩ : ∃ names m, t.trail StorageInfo.name q = names ++ [m] :=
      ⟨_, _, (List.dropLast_append_getLast hlast).symm⟩
    rw [htrail] at hresolve hnames ⊢
    rw [lookupPath_of_splitString ?_ hnames, hresolve]
    rw [List.flatMap_append, List.flatMap_singleton]
    exact splitString_joined
      (fun a ha => ⟨(hnames a (by simp [ha])).ne_nil, (hnames a (by simp [ha])).slash_notMem⟩)
      (hnames m (by simp)).slash_notMem

/-- The components of the path of a storage, a slash and a name. -/
theorem splitString_devicePath_append (ht : WellNamed t) {m : WStr} (hm : slash ∉ m) :
    splitString (devicePath t q ++ slash :: m) [slash] false =
      t.trail StorageInfo.name q ++ [m] := by
  rw [devicePath]
  split
  case isTrue hq =>
    subst hq
    exact splitString_slash_slash hm
  case isFalse hq =>
    exact splitString_joined
      (fun a ha => ⟨(ht.of_mem_trail a ha).ne_nil, (ht.of_mem_trail a ha).slash_notMem⟩) hm

/-- **Below a storage**, a name leads to the child it matches. -/
theorem lookupPath_devicePath_append (ht : WellNamed t) (hn : t.sub? q = some n) {m : WStr}
    (hm : PathName m) :
    lookupPath t (cStr (devicePath t q ++ slash :: m)) =
      (Rose.firstMatch nameMatches n.children m).map fun i => q ++ [i] := by
  have hzero : (0 : WChar) ∉ devicePath t q ++ slash :: m := by
    have hslash : (0 : WChar) ≠ slash := by decide
    simp [zero_notMem_devicePath ht, hslash, hm.zero_notMem]
  have hnames : ∀ a ∈ t.trail StorageInfo.name q ++ [m], PathName a := by
    intro a ha
    rcases List.mem_append.mp ha with ha | ha
    · exact ht.of_mem_trail a ha
    · exact List.mem_singleton.mp ha ▸ hm
  rw [cStr_eq_self hzero,
    lookupPath_of_splitString (splitString_devicePath_append ht hm.slash_notMem) hnames,
    Rose.resolve_append_singleton nameMatches m (ht.resolve_trail hn) hn]

/-- A listed item is a child, with the attribute of its list. -/
theorem of_mem_listed {attr : UInt32} {item : WStr × WStr}
    (h : item ∈ listed hr attributes attr q 0 n.children) :
    ∃ i c, n.children[i]? = some c ∧ item = listItem hr (q ++ [i]) c ∧
      hasAttr (attributes (q ++ [i])) attr = true := by
  obtain ⟨⟨c, i⟩, hmem, rfl⟩ := List.mem_map.mp h
  obtain ⟨hzip, hattr⟩ := List.mem_filter.mp hmem
  exact ⟨i, c, by simpa [List.mem_zipIdx_iff_getElem?] using hzip, rfl, hattr⟩

/-- **What is listed is found**, with the attribute it was listed for… -/
theorem existMtp_of_mem_listed (hok : NoneFails hr) (ht : WellNamed t) (hn : t.sub? q = some n)
    {attr : UInt32} (dwAttrib : UInt32) {item : WStr × WStr}
    (h : item ∈ listed hr attributes attr q 0 n.children) :
    existMtp attr hr attributes dwAttrib t (devicePath t q ++ slash :: item.1) = true := by
  obtain ⟨i, c, hc, rfl, hattr⟩ := of_mem_listed h
  have hname := ht.pathName hn c (List.mem_of_getElem? hc)
  have hitem : (listItem hr (q ++ [i]) c).1 = c.val.name := cStr_eq_self hname.zero_notMem
  have hpath := lookupPath_devicePath_append ht hn hname
  rw [ht.firstMatch hn hc, Option.map_some] at hpath
  rw [hitem, existMtp_of_lookupPath hok attr dwAttrib hpath, hattr]

/-- …and what no child matches is not found. -/
theorem existMtp_of_no_match (ht : WellNamed t) (hn : t.sub? q = some n) (attr dwAttrib : UInt32)
    {m : WStr} (hm : PathName m) (hno : ∀ c ∈ n.children, nameMatches c.val m = false) :
    existMtp attr hr attributes dwAttrib t (devicePath t q ++ slash :: m) = false := by
  have hpath := lookupPath_devicePath_append ht hn hm
  rw [Rose.firstMatch_eq_none.mpr hno, Option.map_none] at hpath
  exact existMtp_of_lookupPath_none attr dwAttrib hpath

/-- **Listing and lookup agree.**  With no call failing, the listing of a folder is its children in
the order of enumeration, files and folders by their attributes; the lookups find what is listed,
and nothing by a name that no child has. -/
theorem listing_agrees (hr : Outcomes) (attributes : Attributes) (dwAttrib : UInt32) (t n : Storage)
    (q : Pos) (hok : NoneFails hr) (ht : WellNamed t) (hn : t.sub? q = some n) :
    (parseFolderMtp hr attributes t (devicePath t q)).ret = 0 ∧
    (parseFolderMtp hr attributes t (devicePath t q)).subfiles =
      listed hr attributes attrFile q 0 n.children ∧
    (parseFolderMtp hr attributes t (devicePath t q)).subfolders =
      listed hr attributes attrFolder q 0 n.children ∧
    (∀ item ∈ (parseFolderMtp hr attributes t (devicePath t q)).subfiles,
      existFileMtp hr attributes dwAttrib t (devicePath t q ++ slash :: item.1) = true) ∧
    (∀ item ∈ (parseFolderMtp hr attributes t (devicePath t q)).subfolders,
      existFolderMtp hr attributes dwAttrib t (devicePath t q ++ slash :: item.1) = true) ∧
    ∀ m, PathName m → (∀ c ∈ n.children, nameMatches c.val m = false) →
      existFileMtp hr attributes dwAttrib t (devicePath t q ++ slash :: m) = false ∧
      existFolderMtp hr attributes dwAttrib t (devicePath t q ++ slash :: m) = false := by
  have hpath : lookupPath t (cStr (devicePath t q)) = some q := by
    rw [cStr_eq_self (zero_notMem_devicePath ht), lookupPath_devicePath ht hn]
  rw [parseFolderMtp_of_lookupPath hok hpath hn]
  refine ⟨rfl, rfl, rfl, ?_, ?_, fun m hm hno => ⟨?_, ?_⟩⟩
  · exact fun item h => existMtp_of_mem_listed hok ht hn dwAttrib h
  · exact fun item h => existMtp_of_mem_listed hok ht hn dwAttrib h
  · exact existMtp_of_no_match ht hn attrFile dwAttrib hm hno
  · exact existMtp_of_no_match ht hn attrFolder dwAttrib hm hno

end Agree

/-- The music folder of a device: two files, and a folder with one more… -/
def musicListed : Storage :=
  .node ⟨wide "Music", .folder, .empty, []⟩
    [.node ⟨wide "a.mp3", .file, .empty, []⟩ [], .node ⟨wide "b.mp3", .file, .empty, []⟩ [],
      .node ⟨wide "Rock", .folder, .empty, []⟩ [.node ⟨wide "c.mp3", .file, .empty, []⟩ []]]

/-- …beside an empty one. -/
def twoFolders : Storage :=
  .node ⟨[], .folder, .empty, []⟩ [musicListed, .node ⟨wide "Video", .folder, .empty, []⟩ []]

/-- What the device says its items are. -/
def twoFoldersAttributes : Attributes := fun p =>
  if p ∈ [[0, 0], [0, 1], [0, 2, 0]] then attrFile else attrFolder

theorem wellNamed_twoFolders : WellNamed twoFolders := by
  have hrock : WellNamed (.node ⟨wide "Rock", .folder, .empty, []⟩
      [.node ⟨wide "c.mp3", .file, .empty, []⟩ []]) := by
    refine wellNamed_iff.mpr ⟨by decide, by decide, ?_⟩
    exact List.forall_mem_singleton.mpr (wellNamed_leaf _)
  have hmusic : WellNamed musicListed := by
    refine wellNamed_iff.mpr ⟨by decide, by decide, ?_⟩
    simp [musicListed, wellNamed_leaf, hrock]
  refine wellNamed_iff.mpr ⟨by decide, by decide, ?_⟩
  simp [twoFolders, wellNamed_leaf, hmusic]

/-- The music folder is listed with its files and its folder, which are then found; the file below
is neither listed nor found. -/
theorem listing_agrees_twoFolders :
    (parseFolderMtp (fun _ => sOk) twoFoldersAttributes twoFolders (wide "/Music")).subfiles =
        [(wide "a.mp3", wide "0"), (wide "b.mp3", wide "0")] ∧
      (parseFolderMtp (fun _ => sOk) twoFoldersAttributes twoFolders (wide "/Music")).subfolders =
        [(wide "Rock", wide "0")] ∧
      existFileMtp (fun _ => sOk) twoFoldersAttributes 0 twoFolders (wide "/Music/b.mp3") = true ∧
      existFolderMtp (fun _ => sOk) twoFoldersAttributes 0 twoFolders (wide "/Music/Rock") =
        true ∧
      existFileMtp (fun _ => sOk) twoFoldersAttributes 0 twoFolders (wide "/Music/c.mp3") =
        false := by
  have hpath : devicePath twoFolders [0] = wide "/Music" := by decide
  have hnone : NoneFails fun _ => sOk := ⟨fun _ => succeeded_sOk, fun _ => rfl, fun _ => rfl⟩
  obtain ⟨-, hfiles, hfolders, hfile, hfolder, hno⟩ := listing_agrees (fun _ => sOk)
    twoFoldersAttributes 0 twoFolders musicListed [0] hnone wellNamed_twoFolders rfl
  rw [hpath] at hfiles hfolders hfile hfolder hno
  refine ⟨hfiles, hfolders, hfile (wide "b.mp3", wide "0") ?_,
    hfolder (wide "Rock", wide "0") ?_, (hno (wide "c.mp3") (by decide) (by decide)).1⟩
  · rw [hfiles]
    decide
  · rw [hfolders]
    decide

end MtpRetag
