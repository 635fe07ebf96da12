import MtpRetag.Native.Bypath

/-!
# Native/CreateFolder — `create_folder_mtp` and `UsbDevice.createFolder`

The path is cut at its last slash into a parent and a name; the lookups cut the same path at every
slash.  The two agree at every depth but the first: directly below the root the parent is the empty
string, which `create_folder_mtp` refuses.

`createsFolder_iff` is the exact condition under which a folder is created, found, and everything
else kept.
-/

namespace MtpRetag

/-! ## Creating -/

/-- `std::wstring::find_last_of` with one character. -/
def findLastOf (c : WChar) : WStr → Option ℕ
  | [] => none
  | d :: s => ((findLastOf c s).map (· + 1)).or (if d = c then some 0 else none)

/-- What `create_folder_mtp` returns and the tree it leaves. -/
structure CreateResult where
  bResult : Bool
  tree : Storage

/-- `usbdevice::create_folder_mtp`. -/
def createFolderMtp (hr : Outcomes) (t : Storage) (fpath : WStr) : CreateResult :=
  let pos := findLastOf slash fpath
  let folderTocreate := pos.elim [] fun pos => fpath.drop (pos + 1)
  let folderParent := pos.elim [] fun pos => fpath.take pos
  if folderTocreate.length = 0 then ⟨false, t⟩
  else if folderParent.length = 0 then ⟨false, t⟩
  else
    match getStorageBypath hr t (cStr folderParent) with
    | (ret, some p) =>
      if ret = 0 ∧ hr (.queryControl p) = sOk then
        ⟨hr (.insertFolder p) = sOk,
          if Succeeded (hr (.insertFolder p)) then t.modifyAt (insertFolder (cStr folderTocreate)) p
          else t⟩
      else ⟨false, t⟩
    | (_, none) => ⟨false, t⟩

/-- What `createFolder` returns and the registry it leaves. -/
structure CreateCall where
  ret : Int64
  listDevices : Option Registry

/-- `Java_jpmp_device_UsbDevice_createFolder`.  `createDirectory` is the Windows call on a mounted
volume. -/
def Jni.createFolder (jni : Jni) (createDirectory : WStr → Bool) (pasmgr : Option Registry)
    (hr : Outcomes) (jdev path : WStr) : CreateCall :=
  match pasmgr with
  | none => ⟨Error.initDeviceManager.toInt64, none⟩
  | some listDevices =>
    match getInternaldevice jni listDevices jdev with
    | none =>
      ⟨Error.deviceNotMounted.toInt64, some (listDevices.getDevicebyid (jni.ca2w jdev).1).2⟩
    | some usbdev =>
      let sfpath := (jni.ca2w path).1
      if sfpath.length = 0 ∨ sfpath = [slash] then
        ⟨Error.wrongParameter.toInt64, some listDevices⟩
      else
        match usbdev.mode with
        | .msc =>
          let devicepath := sfpath.map fun c => if c = slash then backslash else c
          if createDirectory (usbdev.mountpoint ++ devicepath) then
            ⟨Error.success.toInt64, some listDevices⟩
          else ⟨Error.fileNotfound.toInt64, some listDevices⟩
        | .mtp =>
          let r := createFolderMtp hr usbdev.rootStorage sfpath
          ⟨if r.bResult then Error.success.toInt64 else Error.fileNotfound.toInt64,
            some (listDevices.store { usbdev with rootStorage := r.tree })⟩
        | _ => ⟨Error.deviceNotMounted.toInt64, some listDevices⟩

/-! ## The two ways to cut a path -/

theorem findLastOf_of_notMem {c : WChar} : ∀ {s : WStr}, c ∉ s → findLastOf c s = none
  | [], _ => rfl
  | d :: s, h => by
      obtain ⟨hd, hs⟩ : c ≠ d ∧ c ∉ s := by simpa using h
      rw [findLastOf, findLastOf_of_notMem hs, if_neg (Ne.symm hd)]
      rfl

/-- The last separator is the one behind which there is none. -/
theorem findLastOf_append {c : WChar} {s : WStr} (hs : c ∉ s) :
    ∀ a : WStr, findLastOf c (a ++ c :: s) = some a.length
  | [] => by simp [findLastOf, findLastOf_of_notMem hs]
  | d :: a => by simp [findLastOf, findLastOf_append hs a]

/-- `/n1/…/nk`, and the empty path for no names. -/
def pathOf (names : List WStr) : WStr := names.flatMap (slash :: ·)

theorem pathOf_append_singleton (names : List WStr) (m : WStr) :
    pathOf (names ++ [m]) = pathOf names ++ slash :: m := by simp [pathOf]

theorem pathOf_eq_joinSlash :
    ∀ {names : List WStr}, names ≠ [] → pathOf names = joinSlash true names
  | [a], _ => by simp [pathOf, joinSlash]
  | a :: b :: names, _ => by
      have ih : pathOf (b :: names) = slash :: [slash].intercalate (b :: names) :=
        pathOf_eq_joinSlash (List.cons_ne_nil b names)
      have hcons : pathOf (a :: b :: names) = slash :: a ++ pathOf (b :: names) := by simp [pathOf]
      rw [hcons, ih, joinSlash, List.intercalate_cons_cons]
      simp

theorem pathOf_eq_nil_iff {names : List WStr} : pathOf names = [] ↔ names = [] := by
  cases names <;> simp [pathOf]

theorem follows_pathOf (hr : Outcomes) (t : Storage) {names : List WStr} (hne : names ≠ [])
    (hnames : ∀ a ∈ names, PathName a) :
    Follows hr t names (getStorageBypath hr t (pathOf names)) := by
  rw [pathOf_eq_joinSlash hne]
  exact getStorageBypath_joinSlash hr t true names hne hnames

theorem zero_notMem_pathOf {names : List WStr} (hnames : ∀ a ∈ names, PathName a) :
    (0 : WChar) ∉ pathOf names := by
  by_cases hne : names = []
  · simp [hne, pathOf]
  · rw [pathOf_eq_joinSlash hne]
    exact zero_notMem_joinSlash hnames

/-! ## What is created -/

/-- No call of `create_folder_mtp` fails before its `Insert` into the storage at `p`. -/
def ParentReached (hr : Outcomes) (p : Pos) : Prop :=
  (∀ c ∈ callsTo [] p, Succeeded (hr c)) ∧ hr (.queryControl p) = sOk

/-- No call of `exist_folder_mtp` for the storage at `q` fails. -/
def Reached (hr : Outcomes) (q : Pos) : Prop :=
  (∀ c ∈ callsTo [] q, Succeeded (hr c)) ∧ Succeeded (hr (.getAttributes q))

instance (hr : Outcomes) (p : Pos) : Decidable (ParentReached hr p) :=
  inferInstanceAs (Decidable (_ ∧ _))

/-- The folder `m` below the names is created by the calls `hr`, then found by the calls `hr'`, and
what existed before is there and found as before. -/
structure CreatesFolder (hr hr' : Outcomes) (attributes : Attributes) (t : Storage)
    (names : List WStr) (m : WStr) : Prop where
  created : (createFolderMtp hr t (pathOf names ++ slash :: m)).bResult = true
  found : ∀ dwAttrib, existFolderMtp hr' attributes dwAttrib
    (createFolderMtp hr t (pathOf names ++ slash :: m)).tree (pathOf names ++ slash :: m) = true
  kept : ∀ q n, t.sub? q = some n →
    ∃ n', (createFolderMtp hr t (pathOf names ++ slash :: m)).tree.sub? q = some n' ∧
      n'.val = n.val
  existed : ∀ attr dwAttrib fpath, existMtp attr hr' attributes dwAttrib t fpath = true →
    existMtp attr hr' attributes dwAttrib
      (createFolderMtp hr t (pathOf names ++ slash :: m)).tree fpath = true

section Create

variable {hr : Outcomes} {attributes : Attributes} {t parent : Storage} {p : Pos}
  {names : List WStr} {m : WStr}

/-- A path that ends in a name has the two parts the lookups know. -/
theorem createFolderMtp_append (hm : PathName m) (folderParent : WStr) :
    createFolderMtp hr t (folderParent ++ slash :: m) =
      if folderParent = [] then ⟨false, t⟩
      else
        match getStorageBypath hr t (cStr folderParent) with
        | (ret, some p) =>
          if ret = 0 ∧ hr (.queryControl p) = sOk then
            ⟨hr (.insertFolder p) = sOk,
              if Succeeded (hr (.insertFolder p)) then t.modifyAt (insertFolder m) p else t⟩
          else ⟨false, t⟩
        | (_, none) => ⟨false, t⟩ := by
  have hlen : ¬ m.length = 0 := by simpa using hm.ne_nil
  rw [createFolderMtp, findLastOf_append hm.slash_notMem]
  simp [hlen, cStr_eq_self hm.zero_notMem]

/-- **What is created**, if the device accepts the insertion: nothing directly below the root. -/
theorem createFolderMtp_pathOf (hnames : ∀ a ∈ names, PathName a) (hm : PathName m)
    (hp : Rose.resolve nameMatches names t = some p) (haccept : hr (.insertFolder p) = sOk) :
    createFolderMtp hr t (pathOf names ++ slash :: m) =
      if names ≠ [] ∧ ParentReached hr p then ⟨true, t.modifyAt (insertFolder m) p⟩
      else ⟨false, t⟩ := by
  rw [createFolderMtp_append hm]
  by_cases hne : names = []
  · simp [hne, pathOf]
  have hparent : ¬ pathOf names = [] := fun h => hne (pathOf_eq_nil_iff.mp h)
  have hfollows := follows_pathOf hr t hne hnames
  rw [if_neg hparent, cStr_eq_self (zero_notMem_pathOf hnames)]
  by_cases hcalls : ∀ c ∈ callsTo [] p, Succeeded (hr c)
  · have hiff : (names ≠ [] ∧ ParentReached hr p) ↔ hr (.queryControl p) = sOk :=
      ⟨fun h => h.2.2, fun h => ⟨hne, hcalls, h⟩⟩
    rw [hfollows.arrives p ⟨hp, hcalls⟩]
    simp only [hiff, haccept, true_and, decide_true, if_pos succeeded_sOk]
  · have hlost : Lost hr t names := fun q hq => by
      obtain rfl : p = q := Option.some.inj (hp.symm.trans hq.1)
      exact hcalls hq.2
    rw [hfollows.lost hlost, if_neg fun h => hcalls h.2.1]

/-- The new folder is where the path leads, past the calls that lead there. -/
theorem existFolderMtp_insertFolder (hr' : Outcomes) (hnames : ∀ a ∈ names, PathName a)
    (hm : PathName m) (hp : Rose.resolve nameMatches names t = some p)
    (hparent : t.sub? p = some parent) (hnew : ∀ c ∈ parent.children, nameMatches c.val m = false)
    (hfolder : hasAttr (attributes (p ++ [parent.children.length])) attrFolder = true) :
    (∀ dwAttrib, existFolderMtp hr' attributes dwAttrib (t.modifyAt (insertFolder m) p)
      (pathOf names ++ slash :: m) = true) ↔ Reached hr' (p ++ [parent.children.length]) := by
  have hall : ∀ a ∈ names ++ [m], PathName a := by
    simpa [or_imp, forall_and] using ⟨hnames, hm⟩
  have hzero : (0 : WChar) ∉ pathOf names ++ slash :: m := by
    rw [← pathOf_append_singleton]
    exact zero_notMem_pathOf hall
  have hsplit : splitString (pathOf names ++ slash :: m) [slash] false = names ++ [m] :=
    splitString_joined (fun a ha => ⟨(hnames a ha).ne_nil, (hnames a ha).slash_notMem⟩)
      hm.slash_notMem
  have hlook : lookupPath (t.modifyAt (insertFolder m) p) (cStr (pathOf names ++ slash :: m)) =
      some (p ++ [parent.children.length]) := by
    rw [cStr_eq_self hzero, lookupPath_of_splitString hsplit hall]
    exact resolve_snoc_insertFolder hp hparent (Rose.firstMatch_eq_none.mpr hnew)
  constructor
  · intro h
    obtain ⟨q, hq, hcalls, hattr⟩ := existMtp_eq_true_iff.mp (h 0)
    obtain rfl := Option.some.inj (hlook.symm.trans hq)
    refine ⟨hcalls, ?_⟩
    by_contra hfail
    rw [if_neg hfail] at hattr
    exact absurd hattr (by decide)
  · rintro ⟨hcalls, hget⟩ dwAttrib
    refine existMtp_eq_true_iff.mpr ⟨_, hlook, hcalls, ?_⟩
    rwa [if_pos hget]

/-- A lookup that succeeded still does when the tree grows. -/
theorem existMtp_modifyAt {f : Storage → Storage} (hf : Rose.Grows f) {attr dwAttrib : UInt32}
    {fpath : WStr} (h : existMtp attr hr attributes dwAttrib t fpath = true) :
    existMtp attr hr attributes dwAttrib (t.modifyAt f p) fpath = true := by
  obtain ⟨q, hq, hrest⟩ := existMtp_eq_true_iff.mp h
  exact existMtp_eq_true_iff.mpr ⟨q, lookupPath_grows hf hq, hrest⟩

end Create

/-- **Creating, then finding.**  If the device accepts the insertion of a new name, the folder is
created and found and all else is kept exactly when its parent is not the root and no other call
fails. -/
theorem createsFolder_iff (hr hr' : Outcomes) (attributes : Attributes) (t parent : Storage)
    (p : Pos) (names : List WStr) (m : WStr) (hnames : ∀ a ∈ names, PathName a) (hm : PathName m)
    (hp : Rose.resolve nameMatches names t = some p) (hparent : t.sub? p = some parent)
    (hnew : ∀ c ∈ parent.children, nameMatches c.val m = false)
    (haccept : hr (.insertFolder p) = sOk)
    (hfolder : hasAttr (attributes (p ++ [parent.children.length])) attrFolder = true) :
    CreatesFolder hr hr' attributes t names m ↔
      names ≠ [] ∧ ParentReached hr p ∧ Reached hr' (p ++ [parent.children.length]) := by
  have hcreate := createFolderMtp_pathOf hnames hm hp haccept
  have hfind := existFolderMtp_insertFolder hr' hnames hm hp hparent hnew hfolder
  by_cases hcond : names ≠ [] ∧ ParentReached hr p
  · rw [if_pos hcond] at hcreate
    constructor
    · intro h
      have hfound := h.found
      rw [hcreate] at hfound
      exact ⟨hcond.1, hcond.2, hfind.mp hfound⟩
    · rintro ⟨-, -, hreached⟩
      constructor
      · rw [hcreate]
      · rw [hcreate]
        exact hfind.mpr hreached
      · rw [hcreate]
        exact fun q n hn => (grows_insertFolder m).exists_sub?_modifyAt hn
      · rw [hcreate]
        exact fun attr dwAttrib fpath h => existMtp_modifyAt (grows_insertFolder m) h
  · rw [if_neg hcond] at hcreate
    refine iff_of_false (fun h => ?_) fun h => hcond ⟨h.1, h.2.1⟩
    have hcreated := h.created
    rw [hcreate] at hcreated
    exact Bool.false_ne_true hcreated

theorem createsFolder_iff_musicPlayer :
    CreatesFolder (fun _ => sOk) (fun _ => sOk) (fun _ => attrFolder) musicPlayer.rootStorage
        [wide "MUSIC"] (wide "New") ↔
      [wide "MUSIC"] ≠ [] ∧ ParentReached (fun _ => sOk) [0] ∧ Reached (fun _ => sOk) [0, 1] := by
  have hname (a : WStr) (ha : a ∈ [wide "MUSIC"]) : PathName a := by
    obtain rfl := List.mem_singleton.mp ha
    exact ⟨by decide, by decide, by decide⟩
  exact createsFolder_iff (fun _ => sOk) (fun _ => sOk) (fun _ => attrFolder)
    musicPlayer.rootStorage (.node ⟨wide "Music", .folder, .empty, []⟩
      [.node ⟨wide "b.mp3", .file, .empty, []⟩ []]) [0] [wide "MUSIC"] (wide "New") hname
    ⟨by decide, by decide, by decide⟩ rfl rfl
    (List.forall_mem_singleton.mpr (by decide)) rfl (by decide)

/-- A folder directly below the root is not created, though the device would accept it. -/
theorem not_createsFolder_below_root :
    PathName (wide "New") ∧
      (∀ c ∈ musicPlayer.rootStorage.children, nameMatches c.val (wide "New") = false) ∧
      ¬ CreatesFolder (fun _ => sOk) (fun _ => sOk) (fun _ => attrFolder) musicPlayer.rootStorage
        [] (wide "New") := by
  refine ⟨⟨by decide, by decide, by decide⟩, List.forall_mem_singleton.mpr (by decide),
    fun h => ?_⟩
  exact absurd h.created (by decide)

/-! ## From Java -/

/-- On an MTP device, `createFolder` is the native function behind a guard for the root, which the
empty parent of a name below the root is not. -/
theorem ret_createFolder_of_mtp {jni : Jni} {createDirectory : WStr → Bool}
    {listDevices : Registry} {hr : Outcomes} {jdev path : WStr} {usbdev : UsbDevice}
    (hdev : getInternaldevice jni listDevices jdev = some usbdev) (hmtp : usbdev.mode = .mtp) :
    (jni.createFolder createDirectory (some listDevices) hr jdev path).ret =
        Error.success.toInt64 ↔
      (jni.ca2w path).1 ≠ [] ∧ (jni.ca2w path).1 ≠ [slash] ∧
        (createFolderMtp hr usbdev.rootStorage (jni.ca2w path).1).bResult = true := by
  have hwrong : Error.wrongParameter.toInt64 ≠ Error.success.toInt64 := by decide
  have hnotfound : Error.fileNotfound.toInt64 ≠ Error.success.toInt64 := by decide
  rw [Jni.createFolder]
  simp only [hdev, hmtp, List.length_eq_zero_iff]
  split
  case isTrue h =>
    refine iff_of_false hwrong fun hr => ?_
    exact h.elim hr.1 hr.2.1
  case isFalse h =>
    obtain ⟨hne, hroot⟩ := not_or.mp h
    split <;> simp [*]

end MtpRetag
