import MtpRetag.App.CopyList
import Mathlib.Data.List.Pairwise

/-!
# App/SameFile — which entries of the list are one file

A node of the file tree view knows its `java.io.File`, which joins a directory and a name with one
separator.  `addNodeToList` appends separator and name to the string of a node; the string of a
drive already ends in a separator, so a file below it gets another spelling than the node of that
file has.

`one_file_iff` says when the list has no file twice.
-/

namespace MtpRetag

/-! ## `java.io.File` on Windows -/

/-- The case folding of `compareToIgnoreCase`, which turns nothing else into a separator. -/
structure CaseFold where
  fold : WChar → WChar
  fold_eq_backslash : ∀ c, fold c = backslash ↔ c = backslash

def isSlash (c : WChar) : Bool := c = backslash ∨ c = slash

def isLetter (c : WChar) : Bool := (97 ≤ c ∧ c ≤ 122) ∨ (65 ≤ c ∧ c ≤ 90)

def colon : WChar := 58

/-- `normalizePrefix`: what it has written, and the rest of the path.  Separators before a drive go;
of two that start the path the first one stays. -/
def normalizePrefix (path : WStr) : WStr × WStr :=
  match path.dropWhile isSlash with
  | l :: d :: s => if isLetter l ∧ d = colon then ([l, d], s) else uncPrefix path
  | _ => uncPrefix path
where
  uncPrefix : WStr → WStr × WStr
    | c :: d :: s => if isSlash c ∧ isSlash d then ([backslash], d :: s) else ([], c :: d :: s)
    | s => ([], s)

/-- Every run of separators becomes one, and the run at the end none. -/
def squeeze : WStr → WStr
  | [] => []
  | [c] => if isSlash c then [] else [c]
  | c :: d :: s =>
    if isSlash c then (if isSlash d then squeeze (d :: s) else backslash :: squeeze (d :: s))
    else c :: squeeze (d :: s)

/-- The loop of `normalize`: the separators at the end leave one where the path denotes a root. -/
def normalizeRest (sb s : WStr) : WStr :=
  let path := sb ++ squeeze s
  if s.getLast?.any isSlash ∧
      (path = [] ∨ path = [backslash] ∨ path.length = 2 ∧ path[1]? = some colon) then
    path ++ [backslash]
  else path

/-- `WinNTFileSystem.normalize`. -/
def normalize (path : WStr) : WStr :=
  normalizeRest (normalizePrefix path).1 (normalizePrefix path).2

/-- `new File(path).equals(new File(path'))`. -/
def SameFile (κ : CaseFold) (path path' : WStr) : Prop :=
  (normalize path).map κ.fold = (normalize path').map κ.fold

/-- The string of `new File(parent, name)`. -/
def fileChild (parent name : WStr) : WStr :=
  if [backslash] <:+ parent then parent ++ name else parent ++ backslash :: name

/-! ## The file tree view -/

/-- The drives of a system and their files.  A drive is known by its letter, and no name is empty or
".", the name at which `populateSubtree` stops. -/
structure FileSystem (κ : CaseFold) where
  roots : List (WChar × FileTree)
  letter : ∀ r ∈ roots, isLetter r.1 = true
  letters_ne : ∀ r ∈ roots, ∀ r' ∈ roots, κ.fold r.1 = κ.fold r'.1 → r = r'
  name_ne : ∀ r ∈ roots, ∀ names u, Leads r.2 names u → ∀ name ∈ names,
    name.1 ≠ [] ∧ name.1 ≠ wide "."

/-- What `populateSubtree` makes a node for: `isDirectory()`, or a name that ends in "mp3". -/
def Shown (c : FileTree) : Prop :=
  c.val.2 = .directory ∨ c.val.2 = .unlistable ∨ wide "mp3" <:+ c.val.1.1

/-- `populateSubtree` gets along these names from one node to another. -/
inductive Populates : FileTree → List WindowsName → FileTree → Prop
  | here (t : FileTree) : Populates t [] t
  | into {t c u : FileTree} {names : List WindowsName} (hdir : t.val.2 = .directory)
      (hc : c ∈ t.children) (hshown : Shown c) (hu : Populates c names u) :
      Populates t (c.val.1 :: names) u

/-- A node of the view: of a drive, of what is shown below it, or the node "." of a directory with
nothing to be shown. -/
structure TreeNode {κ : CaseFold} (fs : FileSystem κ) where
  drive : WChar
  root : FileTree
  mem : (drive, root) ∈ fs.roots
  names : List WindowsName
  tree : FileTree
  populates : Populates root names tree
  dot : Bool
  none_shown : dot = true → tree.val.2 = .directory ∧ ∀ c ∈ tree.children, ¬ Shown c

/-- The string of the root of a drive. -/
def driveRoot (drive : WChar) : WStr := [drive, colon, backslash]

/-- Names behind a drive, each behind a separator. -/
def spell (drive : WChar) (names : List WStr) : WStr :=
  drive :: colon :: names.flatMap (backslash :: ·)

section Node

variable {κ : CaseFold} {fs : FileSystem κ}

/-- The string of a node. -/
def TreeNode.path (n : TreeNode fs) : WStr :=
  let path := n.names.foldl (fun path name => fileChild path name.1) (driveRoot n.drive)
  if n.dot then fileChild path (wide ".") else path

theorem slash_notMem_fileChild {parent name : WStr} (hparent : slash ∉ parent)
    (hname : slash ∉ name) : slash ∉ fileChild parent name := by
  have hsep : slash ≠ backslash := by decide
  rw [fileChild]
  split <;> simp [hparent, hname, hsep]

theorem TreeNode.slash_notMem_path (n : TreeNode fs) : slash ∉ n.path := by
  have hroot : slash ∉ driveRoot n.drive := by
    have hletter : slash ≠ n.drive := by
      intro heq
      have hdrive : isLetter n.drive = true := fs.letter _ n.mem
      rw [← heq] at hdrive
      exact absurd hdrive (by decide)
    have hrest : slash ∉ [colon, backslash] := by decide
    exact fun h => (List.mem_cons.mp h).elim hletter hrest
  have hpath : slash ∉ n.names.foldl (fun path name => fileChild path name.1)
      (driveRoot n.drive) :=
    List.foldlRecOn (motive := fun path => slash ∉ path) n.names _ hroot
      fun _ hpath name _ => slash_notMem_fileChild hpath name.2.1
  rw [TreeNode.path]
  split
  · exact slash_notMem_fileChild hpath (by decide)
  · exact hpath

/-- The call of `addNodeToList` with the string of a node. -/
def TreeNode.call (n : TreeNode fs) : WindowsPath × FileTree :=
  (⟨n.path, n.slash_notMem_path⟩, n.tree)

/-- The node of a drive. -/
def TreeNode.IsDrive (n : TreeNode fs) : Prop := n.names = [] ∧ n.dot = false

instance (n : TreeNode fs) : Decidable n.IsDrive := inferInstanceAs (Decidable (_ ∧ _))

/-- The last name ends in "mp3". -/
def EndsInMp3 (names : List WindowsName) : Prop := ∃ name ∈ names.getLast?, wide "mp3" <:+ name.1

instance (names : List WindowsName) : Decidable (EndsInMp3 names) :=
  inferInstanceAs (Decidable (∃ name ∈ _, _))

/-- The mp3 files that the walk from a node gets to, by the names that lead to them from the
drive. -/
def TreeNode.files (n : TreeNode fs) : List (List WindowsName) :=
  ((regularFiles n.tree).1.map (n.names ++ ·)).filter fun names => EndsInMp3 names

/-- What the walk from a node writes for a file: from the node of a drive, an empty name first. -/
def TreeNode.spelling (n : TreeNode fs) (names : List WindowsName) : WStr :=
  if n.IsDrive then spell n.drive ([] :: names.map (·.1)) else spell n.drive (names.map (·.1))

end Node

/-! ## Spellings -/

section Spelling

theorem isSlash_eq_false {c : WChar} (hslash : c ≠ slash) (hback : c ≠ backslash) :
    isSlash c = false := by
  simp [isSlash, hslash, hback]

@[simp] theorem isSlash_backslash : isSlash backslash = true := by decide

theorem not_isSlash_of_mem (name : WindowsName) : ∀ c ∈ name.1, isSlash c = false := fun c hc =>
  isSlash_eq_false (fun h => name.2.1 (h ▸ hc)) (fun h => name.2.2 (h ▸ hc))

theorem not_isSlash_of_isLetter {c : WChar} (h : isLetter c = true) : isSlash c = false := by
  refine isSlash_eq_false ?_ ?_
  · rintro rfl
    exact absurd h (by decide)
  · rintro rfl
    exact absurd h (by decide)

/-- What has no separator stays as it is. -/
theorem squeeze_append {m : WStr} (hm : ∀ c ∈ m, isSlash c = false) (s : WStr) :
    squeeze (m ++ s) = m ++ squeeze s := by
  induction m with
  | nil => rfl
  | cons c m ih =>
    have hc : isSlash c = false := hm c List.mem_cons_self
    have ih := ih fun d hd => hm d (List.mem_cons_of_mem _ hd)
    rw [List.cons_append, List.cons_append, ← ih]
    cases m ++ s with
    | nil => simp [squeeze, hc]
    | cons d s => simp [squeeze, hc]

/-- One separator before a name stays… -/
theorem squeeze_cons_append {m : WStr} (hne : m ≠ []) (hm : ∀ c ∈ m, isSlash c = false) (s : WStr) :
    squeeze (backslash :: (m ++ s)) = backslash :: (m ++ squeeze s) := by
  rw [← squeeze_append hm]
  obtain ⟨c, m, rfl⟩ := List.exists_cons_of_ne_nil hne
  have hc : isSlash c = false := hm c List.mem_cons_self
  simp [squeeze, hc]

/-- …so the names behind a drive do. -/
theorem squeeze_flatMap {names : List WindowsName} (hne : ∀ name ∈ names, name.1 ≠ []) :
    squeeze ((names.map (·.1)).flatMap (backslash :: ·)) =
      (names.map (·.1)).flatMap (backslash :: ·) := by
  induction names with
  | nil => rfl
  | cons name names ih =>
    have hname : name.1 ≠ [] := hne name List.mem_cons_self
    have ih := ih fun other h => hne other (List.mem_cons_of_mem _ h)
    rw [List.map_cons, List.flatMap_cons, List.cons_append,
      squeeze_cons_append hname (not_isSlash_of_mem name), ih]

/-- …and of two separators one goes. -/
theorem squeeze_backslash_backslash (s : WStr) :
    squeeze (backslash :: backslash :: s) = squeeze (backslash :: s) := by
  simp [squeeze]

/-- `normalize` takes a drive as it is. -/
theorem normalizePrefix_drive {drive : WChar} (hdrive : isLetter drive = true) (s : WStr) :
    normalizePrefix (drive :: colon :: s) = ([drive, colon], s) := by
  have hdrop : (drive :: colon :: s).dropWhile isSlash = drive :: colon :: s := by
    simp [not_isSlash_of_isLetter hdrive]
  rw [normalizePrefix, hdrop]
  exact if_pos ⟨hdrive, rfl⟩

theorem normalize_drive {drive : WChar} (hdrive : isLetter drive = true) {s t : WStr}
    (hs : squeeze s = backslash :: t) :
    normalize (drive :: colon :: s) = drive :: colon :: backslash :: t := by
  rw [normalize, normalizePrefix_drive hdrive]
  simp [normalizeRest, hs]

/-- **One path for both spellings.**  `normalize` drops the second separator behind a drive. -/
theorem normalize_spell {drive : WChar} (hdrive : isLetter drive = true) {names : List WindowsName}
    (hnil : names ≠ []) (hne : ∀ name ∈ names, name.1 ≠ []) :
    normalize (spell drive (names.map (·.1))) = spell drive (names.map (·.1)) ∧
      normalize (spell drive ([] :: names.map (·.1))) = spell drive (names.map (·.1)) := by
  have hsqueeze := squeeze_flatMap hne
  obtain ⟨name, rest, rfl⟩ := List.exists_cons_of_ne_nil hnil
  rw [List.map_cons, List.flatMap_cons, List.cons_append] at hsqueeze
  constructor
  · exact normalize_drive hdrive hsqueeze
  · exact normalize_drive hdrive ((squeeze_backslash_backslash _).trans hsqueeze)

/-- Cutting at the separators gives back what was joined. -/
theorem splitOn_append_flatMap {names : List WStr} (hnames : ∀ name ∈ names, backslash ∉ name) :
    ∀ {m : WStr}, backslash ∉ m →
      (m ++ names.flatMap (backslash :: ·)).splitOn backslash = m :: names := by
  induction names with
  | nil =>
    intro m hm
    rw [List.flatMap_nil, List.append_nil, List.splitOn_eq_singleton hm]
  | cons name names ih =>
    intro m hm
    have ih := ih (fun other h => hnames other (List.mem_cons_of_mem _ h))
      (hnames name List.mem_cons_self)
    rw [List.flatMap_cons, List.cons_append, List.splitOn_append_cons_self_of_not_mem hm, ih]

theorem flatMap_inj {names names' : List WStr} (hnames : ∀ name ∈ names, backslash ∉ name)
    (hnames' : ∀ name ∈ names', backslash ∉ name) :
    names.flatMap (backslash :: ·) = names'.flatMap (backslash :: ·) ↔ names = names' := by
  refine ⟨fun h => ?_, fun h => by rw [h]⟩
  have hcut := splitOn_append_flatMap hnames (m := []) List.not_mem_nil
  rw [List.nil_append, h] at hcut
  have hcut' := splitOn_append_flatMap hnames' (m := []) List.not_mem_nil
  rw [List.nil_append, hcut] at hcut'
  exact (List.cons.inj hcut').2

/-- A path spells its drive and its names. -/
theorem spell_inj {drive drive' : WChar} {names names' : List WStr}
    (hnames : ∀ name ∈ names, backslash ∉ name) (hnames' : ∀ name ∈ names', backslash ∉ name) :
    spell drive names = spell drive' names' ↔ drive = drive' ∧ names = names' := by
  rw [spell, spell, List.cons.injEq, List.cons.injEq, eq_self, true_and,
    flatMap_inj hnames hnames']

/-- Names appended to a path, each behind a separator. -/
theorem foldl_childPath (names : List WindowsName) :
    ∀ path : WStr, names.foldl childPath path =
      path ++ (names.map (·.1)).flatMap (backslash :: ·) := by
  induction names with
  | nil => intro path; simp
  | cons name names ih =>
    intro path
    rw [List.foldl_cons, ih, childPath, List.append_assoc]
    rfl

theorem fileChild_of_notMem {path : WStr} {m : WStr} (hm : backslash ∉ m) (hne : m ≠ [])
    (name : WStr) : fileChild (path ++ m) name = path ++ m ++ backslash :: name := by
  refine if_neg fun h => hm ?_
  rw [List.singleton_suffix_iff_getLast?_eq_some, List.getLast?_append_of_ne_nil _ hne] at h
  exact List.mem_of_getLast? h

/-- `File(File, String)` joins with one separator as well, behind anything but a drive… -/
theorem foldl_fileChild {names : List WindowsName} :
    ∀ {path m : WStr}, backslash ∉ m → m ≠ [] → (∀ name ∈ names, name.1 ≠ []) →
      names.foldl (fun path name => fileChild path name.1) (path ++ m) =
        path ++ m ++ (names.map (·.1)).flatMap (backslash :: ·) := by
  induction names with
  | nil => intro path m _ _ _; simp
  | cons name names ih =>
    intro path m hm hnil hne
    have hcut : path ++ m ++ backslash :: name.1 = (path ++ m ++ [backslash]) ++ name.1 := by simp
    rw [List.foldl_cons, fileChild_of_notMem hm hnil, hcut,
      ih name.2.2 (hne name List.mem_cons_self) fun other h => hne other (List.mem_cons_of_mem _ h)]
    simp

/-- …which ends in the separator already. -/
theorem foldl_fileChild_driveRoot (drive : WChar) {names : List WindowsName} (hnil : names ≠ [])
    (hne : ∀ name ∈ names, name.1 ≠ []) :
    names.foldl (fun path name => fileChild path name.1) (driveRoot drive) =
      spell drive (names.map (·.1)) := by
  obtain ⟨name, names, rfl⟩ := List.exists_cons_of_ne_nil hnil
  have hroot : fileChild (driveRoot drive) name.1 = driveRoot drive ++ name.1 :=
    if_pos ⟨[drive, colon], rfl⟩
  rw [List.foldl_cons, hroot, foldl_fileChild name.2.2 (hne name List.mem_cons_self)
    fun other h => hne other (List.mem_cons_of_mem _ h)]
  simp [driveRoot, spell]

theorem suffix_append_cons_iff {w m : WStr} {c : WChar} (hc : c ∉ w) (s : WStr) :
    w <:+ s ++ c :: m ↔ w <:+ m := by
  constructor
  · rintro ⟨x, hx⟩
    rcases List.append_eq_append_iff.mp hx with ⟨y, rfl, rfl⟩ | ⟨y, rfl, hy⟩
    · exact absurd (List.mem_append_right y List.mem_cons_self) hc
    · cases y with
      | nil =>
        obtain rfl : c :: m = w := hy
        exact absurd List.mem_cons_self hc
      | cons d y => exact ⟨y, (List.cons.inj hy).2.symm⟩
  · exact fun h => h.trans ((List.suffix_cons c m).trans (List.suffix_append s _))

/-- A path ends in "mp3" if its last name does. -/
theorem suffix_append_flatMap_iff (path : WStr) {names : List WindowsName} (hnil : names ≠ []) :
    wide "mp3" <:+ path ++ (names.map (·.1)).flatMap (backslash :: ·) ↔ EndsInMp3 names := by
  obtain ⟨init, last, rfl⟩ := (List.eq_nil_or_concat' names).resolve_left hnil
  have hmp3 : backslash ∉ wide "mp3" := by decide
  have hcut : path ++ ((init ++ [last]).map (·.1)).flatMap (backslash :: ·) =
      (path ++ (init.map (·.1)).flatMap (backslash :: ·)) ++ backslash :: last.1 := by simp
  rw [hcut, suffix_append_cons_iff hmp3, EndsInMp3, List.getLast?_concat]
  simp

end Spelling

/-! ## The files of the nodes -/

section Files

variable {κ : CaseFold} {fs : FileSystem κ}

theorem leads_of_populates {t u : FileTree} {names : List WindowsName} (h : Populates t names u) :
    Leads t names u := by
  induction h with
  | here t => exact .here t
  | into hdir hc _ _ ih => exact .into hdir hc ih

theorem TreeNode.leads (n : TreeNode fs) {names : List WindowsName}
    (h : names ∈ (regularFiles n.tree).1) :
    ∃ u, Leads n.root (n.names ++ names) u ∧ u.val.2 = .file := by
  obtain ⟨u, hu, hfile⟩ := leads_of_mem_regularFiles n.tree h
  exact ⟨u, (leads_of_populates n.populates).trans hu, hfile⟩

/-- The walk from a node "." gets to no mp3 file. -/
theorem TreeNode.not_endsInMp3_of_dot (n : TreeNode fs) (hdot : n.dot = true)
    {names : List WindowsName} (h : names ∈ (regularFiles n.tree).1) :
    names ≠ [] ∧ ¬ EndsInMp3 names := by
  obtain ⟨hdir, hnone⟩ := n.none_shown hdot
  obtain ⟨u, hu, hfile⟩ := leads_of_mem_regularFiles n.tree h
  rcases leads_iff.mp hu with ⟨-, rfl⟩ | ⟨-, c, hc, rest, rfl, hrest⟩
  · rw [hdir] at hfile
    exact absurd hfile (by decide)
  · refine ⟨List.cons_ne_nil _ _, ?_⟩
    rintro ⟨name, hname, hmp3⟩
    rcases leads_iff.mp hrest with ⟨rfl, -⟩ | ⟨hsub, -⟩
    · obtain rfl : c.val.1 = name := by simpa using hname
      exact hnone c hc (.inr (.inr hmp3))
    · exact hnone c hc (.inl hsub)

theorem TreeNode.name_ne_nil (n : TreeNode fs) {names : List WindowsName}
    (h : names ∈ (regularFiles n.tree).1) : ∀ name ∈ n.names, name.1 ≠ [] := by
  obtain ⟨u, hu, -⟩ := n.leads h
  exact fun name hname => (fs.name_ne _ n.mem _ u hu name (List.mem_append_left _ hname)).1

/-- What the walk from a node writes for the files it gets to. -/
theorem TreeNode.foldl_childPath_path (n : TreeNode fs) (hdot : n.dot = false)
    (hne : ∀ name ∈ n.names, name.1 ≠ []) (names : List WindowsName) :
    names.foldl childPath n.path = n.spelling (n.names ++ names) := by
  have hpath : ¬ n.dot = true := by rw [hdot]; decide
  rw [foldl_childPath, TreeNode.path, if_neg hpath, TreeNode.spelling]
  by_cases hnil : n.names = []
  · have hdrive : n.IsDrive := ⟨hnil, hdot⟩
    rw [if_pos hdrive, hnil]
    rfl
  · have hdrive : ¬ n.IsDrive := fun h => hnil h.1
    rw [if_neg hdrive, foldl_fileChild_driveRoot n.drive hnil hne]
    simp [spell]

theorem TreeNode.suffix_spelling_iff (n : TreeNode fs) (hdot : n.dot = false)
    (names : List WindowsName) :
    wide "mp3" <:+ n.spelling (n.names ++ names) ↔ EndsInMp3 (n.names ++ names) := by
  by_cases hfull : n.names ++ names = []
  · obtain ⟨hnil, rfl⟩ := List.append_eq_nil_iff.mp hfull
    rw [TreeNode.spelling, if_pos ⟨hnil, hdot⟩, hnil]
    have hmp3 : backslash ∉ wide "mp3" := by decide
    exact (suffix_append_cons_iff hmp3 [n.drive, colon]).trans (by decide)
  · rw [TreeNode.spelling]
    split
    · exact suffix_append_flatMap_iff [n.drive, colon, backslash] hfull
    · exact suffix_append_flatMap_iff [n.drive, colon] hfull

/-- What the walk writes ends in "mp3" if the last name does… -/
theorem TreeNode.suffix_foldl_iff (n : TreeNode fs) {names : List WindowsName}
    (h : names ∈ (regularFiles n.tree).1) :
    wide "mp3" <:+ names.foldl childPath n.path ↔ EndsInMp3 (n.names ++ names) := by
  cases hdot : n.dot with
  | false => rw [n.foldl_childPath_path hdot (n.name_ne_nil h), n.suffix_spelling_iff hdot]
  | true =>
    obtain ⟨hnil, hmp3⟩ := n.not_endsInMp3_of_dot hdot h
    rw [foldl_childPath, suffix_append_flatMap_iff _ hnil, EndsInMp3, EndsInMp3,
      List.getLast?_append_of_ne_nil _ hnil]

/-- …and for these it is the spelling. -/
theorem TreeNode.foldl_childPath_of_endsInMp3 (n : TreeNode fs) {names : List WindowsName}
    (h : names ∈ (regularFiles n.tree).1) (hmp3 : EndsInMp3 (n.names ++ names)) :
    names.foldl childPath n.path = n.spelling (n.names ++ names) := by
  cases hdot : n.dot with
  | false => exact n.foldl_childPath_path hdot (n.name_ne_nil h) names
  | true =>
    obtain ⟨hnil, hnot⟩ := n.not_endsInMp3_of_dot hdot h
    rw [EndsInMp3, List.getLast?_append_of_ne_nil _ hnil] at hmp3
    exact absurd hmp3 hnot

/-- **What a node puts into the list**: the spellings of its mp3 files. -/
theorem TreeNode.mem_mp3Paths_iff (n : TreeNode fs) {f : WStr} :
    f ∈ mp3Paths n.path (regularFiles n.tree).1 ↔ ∃ names ∈ n.files, f = n.spelling names := by
  rw [mp3Paths, List.mem_filter, List.mem_map, decide_eq_true_eq]
  constructor
  · rintro ⟨⟨names, hnames, rfl⟩, hmp3⟩
    have hfull := (n.suffix_foldl_iff hnames).mp hmp3
    refine ⟨n.names ++ names, ?_, n.foldl_childPath_of_endsInMp3 hnames hfull⟩
    exact List.mem_filter.mpr ⟨List.mem_map.mpr ⟨names, hnames, rfl⟩, decide_eq_true hfull⟩
  · rintro ⟨full, hfull, rfl⟩
    obtain ⟨hmem, hmp3⟩ := List.mem_filter.mp hfull
    obtain ⟨names, hnames, rfl⟩ := List.mem_map.mp hmem
    have hmp3 := of_decide_eq_true hmp3
    have heq := n.foldl_childPath_of_endsInMp3 hnames hmp3
    exact ⟨⟨names, hnames, heq⟩, heq ▸ (n.suffix_foldl_iff hnames).mpr hmp3⟩

/-- The names that lead to an mp3 file: some, and none of them empty. -/
theorem TreeNode.of_mem_files (n : TreeNode fs) {names : List WindowsName} (h : names ∈ n.files) :
    names ≠ [] ∧ ∀ name ∈ names, name.1 ≠ [] := by
  obtain ⟨hmem, hmp3⟩ := List.mem_filter.mp h
  obtain ⟨rest, hrest, rfl⟩ := List.mem_map.mp hmem
  obtain ⟨u, hu, -⟩ := n.leads hrest
  refine ⟨?_, fun name hname => (fs.name_ne _ n.mem _ u hu name hname).1⟩
  obtain ⟨name, hname, -⟩ := of_decide_eq_true hmp3
  intro hnil
  rw [hnil] at hname
  exact absurd hname (by simp)

/-! ## When two entries are one file -/

theorem TreeNode.normalize_spelling (n : TreeNode fs) {names : List WindowsName}
    (h : names ∈ n.files) :
    normalize (n.spelling names) = spell n.drive (names.map (·.1)) := by
  obtain ⟨hnil, hne⟩ := n.of_mem_files h
  obtain ⟨hsingle, hdouble⟩ := normalize_spell (fs.letter _ n.mem) hnil hne
  rw [TreeNode.spelling]
  split
  · exact hdouble
  · exact hsingle

/-- Folding keeps the separators, and adds none. -/
theorem map_fold_spell (drive : WChar) (names : List WindowsName) :
    (spell drive (names.map (·.1))).map κ.fold =
      κ.fold drive :: κ.fold colon ::
        (names.map fun name => name.1.map κ.fold).flatMap (backslash :: ·) := by
  simp [spell, List.map_flatMap, List.flatMap_map, (κ.fold_eq_backslash backslash).mpr rfl]

theorem backslash_notMem_fold (κ : CaseFold) (names : List WindowsName) :
    ∀ name ∈ names.map (fun name => name.1.map κ.fold), backslash ∉ name := by
  intro name hname hmem
  obtain ⟨name, -, rfl⟩ := List.mem_map.mp hname
  obtain ⟨c, hc, hback⟩ := List.mem_map.mp hmem
  exact name.2.2 ((κ.fold_eq_backslash c).mp hback ▸ hc)

/-- **Same file**: the same drive, and the same names but for their case. -/
theorem sameFile_spelling_iff (n n' : TreeNode fs) {names names' : List WindowsName}
    (h : names ∈ n.files) (h' : names' ∈ n'.files) :
    SameFile κ (n.spelling names) (n'.spelling names') ↔
      n.drive = n'.drive ∧
        names.map (fun name => name.1.map κ.fold) = names'.map fun name => name.1.map κ.fold := by
  have hdrive : κ.fold n.drive = κ.fold n'.drive ↔ n.drive = n'.drive := by
    refine ⟨fun heq => ?_, fun heq => by rw [heq]⟩
    exact congrArg Prod.fst (fs.letters_ne _ n.mem _ n'.mem heq)
  rw [SameFile, n.normalize_spelling h, n'.normalize_spelling h', map_fold_spell, map_fold_spell,
    List.cons.injEq, List.cons.injEq, hdrive, eq_self, true_and,
    flatMap_inj (backslash_notMem_fold κ names) (backslash_notMem_fold κ names')]

/-- The names of a file, with or without the empty one of a drive. -/
theorem backslash_notMem_names (names : List WindowsName) :
    (∀ name ∈ names.map (·.1), backslash ∉ name) ∧
      ∀ name ∈ [] :: names.map (·.1), backslash ∉ name := by
  have hnames : ∀ name ∈ names.map (·.1), backslash ∉ name := by
    intro name hname
    obtain ⟨name, -, rfl⟩ := List.mem_map.mp hname
    exact name.2.2
  exact ⟨hnames, List.forall_mem_cons.mpr ⟨List.not_mem_nil, hnames⟩⟩

/-- No file has an empty name first. -/
theorem TreeNode.map_val_ne (n : TreeNode fs) {names : List WindowsName} (h : names ∈ n.files)
    (l : List WStr) : names.map (·.1) ≠ [] :: l := by
  intro heq
  obtain ⟨name, hname, hnil⟩ := List.mem_map.mp (heq ▸ List.mem_cons_self)
  exact (n.of_mem_files h).2 name hname hnil

/-- …and **same spelling**: the same drive and names, both from the node of the drive or neither. -/
theorem spelling_inj (n n' : TreeNode fs) {names names' : List WindowsName} (h : names ∈ n.files)
    (h' : names' ∈ n'.files) :
    n.spelling names = n'.spelling names' ↔
      n.drive = n'.drive ∧ names = names' ∧ (n.IsDrive ↔ n'.IsDrive) := by
  have hval : names.map (·.1) = names'.map (·.1) ↔ names = names' :=
    (List.map_injective_iff.mpr Subtype.val_injective).eq_iff
  obtain ⟨hcut, hcut₀⟩ := backslash_notMem_names names
  obtain ⟨hcut', hcut₀'⟩ := backslash_notMem_names names'
  rw [TreeNode.spelling, TreeNode.spelling]
  by_cases hn : n.IsDrive <;> by_cases hn' : n'.IsDrive
  · rw [if_pos hn, if_pos hn', spell_inj hcut₀ hcut₀', List.cons.injEq, hval]
    simp [hn, hn']
  · rw [if_pos hn, if_neg hn', spell_inj hcut₀ hcut']
    exact iff_of_false (fun heq => n'.map_val_ne h' _ heq.2.symm) fun heq => hn' (heq.2.2.mp hn)
  · rw [if_neg hn, if_pos hn', spell_inj hcut hcut₀']
    exact iff_of_false (fun heq => n.map_val_ne h _ heq.2) fun heq => hn (heq.2.2.mpr hn')
  · rw [if_neg hn, if_neg hn', spell_inj hcut hcut', hval]
    simp [hn, hn']

end Files

/-- **No file is listed twice** exactly if no file is reached from the node of its drive and from
another node, nor under two names that differ in their case. -/
theorem one_file_iff (κ : CaseFold) (fs : FileSystem κ) (calls : List (TreeNode fs))
    (answers : List Bool) (hanswers : ∀ b ∈ answers, b = true) :
    (addAll (calls.map TreeNode.call) ⟨[], answers⟩).listModel.Pairwise
        (fun path path' => ¬ SameFile κ path path') ↔
      ∀ n ∈ calls, ∀ n' ∈ calls, n.drive = n'.drive → ∀ names ∈ n.files, ∀ names' ∈ n'.files,
        names.map (fun name => name.1.map κ.fold) = names'.map (fun name => name.1.map κ.fold) →
          names = names' ∧ (n.IsDrive ↔ n'.IsDrive) := by
  have hconfirmed : AddState.Confirmed ⟨[], answers⟩ := hanswers
  obtain ⟨added, heq, hnodup, -, hiff⟩ := foldl_addNew
    ((calls.map TreeNode.call).flatMap fun call => mp3Paths call.1.1 (regularFiles call.2).1) []
  have hmem : ∀ f, f ∈ added ↔ ∃ n ∈ calls, ∃ names ∈ n.files, f = n.spelling names := by
    intro f
    rw [hiff, List.flatMap_map, List.mem_flatMap, and_iff_left List.not_mem_nil]
    exact exists_congr fun n => and_congr_right fun _ => n.mem_mp3Paths_iff
  rw [addAll_of_confirmed _ hconfirmed, heq, List.nil_append]
  constructor
  · intro hpair n hn n' hn' hdrive names hnames names' hnames' hfold
    have hsame := (sameFile_spelling_iff n n' hnames hnames').mpr ⟨hdrive, hfold⟩
    have hspelling : n.spelling names = n'.spelling names' := by
      by_contra hne
      have : Std.Symm fun path path' => ¬ SameFile κ path path' :=
        ⟨fun path path' h h' => h (Eq.symm h')⟩
      exact hpair.forall ((hmem _).mpr ⟨n, hn, names, hnames, rfl⟩)
        ((hmem _).mpr ⟨n', hn', names', hnames', rfl⟩) hne hsame
    exact ((spelling_inj n n' hnames hnames').mp hspelling).2
  · intro h
    refine hnodup.pairwise_of_forall_ne fun f hf f' hf' hne hsame => hne ?_
    obtain ⟨n, hn, names, hnames, rfl⟩ := (hmem f).mp hf
    obtain ⟨n', hn', names', hnames', rfl⟩ := (hmem f').mp hf'
    obtain ⟨hdrive, hfold⟩ := (sameFile_spelling_iff n n' hnames hnames').mp hsame
    exact (spelling_inj n n' hnames hnames').mpr
      ⟨hdrive, h n hn n' hn' hdrive names hnames names' hnames' hfold⟩

/-- The case folding of the C locale. -/
def lowerFold : CaseFold where
  fold := towlower
  fold_eq_backslash c := by
    rw [towlower, backslash, ← UInt16.toNat_inj, ← UInt16.toNat_inj]
    split
    case isTrue h =>
      have hlo : 65 ≤ c.toNat := UInt16.le_iff_toNat_le.mp h.1
      have hhi : c.toNat ≤ 90 := UInt16.le_iff_toNat_le.mp h.2
      rw [UInt16.toNat_add]
      simp only [UInt16.reduceToNat]
      omega
    case isFalse => exact Iff.rfl

/-- The root of a drive with one file. -/
def oneRoot : FileTree := .node (⟨[], by decide⟩, .directory) [oneTrack]

theorem leads_oneRoot {names : List WindowsName} {u : FileTree} (h : Leads oneRoot names u) :
    names = [] ∨ names = [oneTrack.val.1] := by
  rcases leads_iff.mp h with ⟨hnil, -⟩ | ⟨-, c, hc, rest, rfl, hrest⟩
  · exact .inl hnil
  · obtain rfl := List.mem_singleton.mp hc
    obtain ⟨rfl, -⟩ := (leads_of_not_directory (by decide)).mp hrest
    exact .inr rfl

def oneDrive : FileSystem lowerFold where
  roots := [(67, oneRoot)]
  letter := by decide
  letters_ne r hr r' hr' _ := by
    rw [List.mem_singleton.mp hr, List.mem_singleton.mp hr']
  name_ne r hr names u hu := by
    obtain rfl := List.mem_singleton.mp hr
    rcases leads_oneRoot hu with rfl | rfl
    · simp
    · decide

/-- The node of the drive… -/
def driveNode : TreeNode oneDrive where
  drive := 67
  root := oneRoot
  mem := List.mem_singleton_self _
  names := []
  tree := oneRoot
  populates := .here _
  dot := false
  none_shown h := absurd h Bool.false_ne_true

/-- …and the node of the file. -/
def fileNode : TreeNode oneDrive where
  drive := 67
  root := oneRoot
  mem := List.mem_singleton_self _
  names := [oneTrack.val.1]
  tree := oneTrack
  populates := .into rfl (List.mem_singleton_self oneTrack) (.inr (.inr (by decide))) (.here _)
  dot := false
  none_shown h := absurd h Bool.false_ne_true

/-- One node lists its file once. -/
theorem one_file_iff_driveNode :
    (addAll ([driveNode].map TreeNode.call) ⟨[], []⟩).listModel.Pairwise
      fun path path' => ¬ SameFile lowerFold path path' := by
  refine (one_file_iff lowerFold oneDrive [driveNode] [] (by decide)).mpr ?_
  intro n hn n' hn' _ names hnames names' hnames' _
  obtain rfl := List.mem_singleton.mp hn
  obtain rfl := List.mem_singleton.mp hn'
  have hfiles : driveNode.files = [[oneTrack.val.1]] := by decide
  rw [hfiles] at hnames hnames'
  rw [List.mem_singleton.mp hnames, List.mem_singleton.mp hnames']
  exact ⟨rfl, Iff.rfl⟩

/-- The node of the drive and the node of its file list one file as `C:\\song.mp3` and as
`C:\song.mp3`. -/
theorem file_listed_twice :
    (addAll ([driveNode, fileNode].map TreeNode.call) ⟨[], []⟩).listModel =
        [wide "C:\\\\song.mp3", wide "C:\\song.mp3"] ∧
      ¬ (addAll ([driveNode, fileNode].map TreeNode.call) ⟨[], []⟩).listModel.Pairwise
        fun path path' => ¬ SameFile lowerFold path path' := by
  have hlist : (addAll ([driveNode, fileNode].map TreeNode.call) ⟨[], []⟩).listModel =
      [wide "C:\\\\song.mp3", wide "C:\\song.mp3"] := by decide
  have hsame : SameFile lowerFold (wide "C:\\\\song.mp3") (wide "C:\\song.mp3") := by
    rw [SameFile]
    decide
  refine ⟨hlist, fun hpair => ?_⟩
  rw [hlist] at hpair
  exact (List.pairwise_cons.mp hpair).1 _ (List.mem_singleton_self _) hsame

end MtpRetag
