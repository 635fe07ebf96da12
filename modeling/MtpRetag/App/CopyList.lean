import MtpRetag.Native.Basic
import MtpRetag.Machinery.Rose
import Mathlib.Data.List.Nodup

/-!
# App/CopyList — collecting the files to copy

`addNodeToList` walks a file tree and puts the path of every mp3 file into the list model of the
window.  It compares path strings, so the list has no repeated string (`nodup_addAll`), and it
appends names to the path of a tree node, so it writes no `/` (`mp3_of_mem_addAll`).
-/

namespace MtpRetag

/-- What `isFile`, `isDirectory` and `list` say about a path; `list` of an unlistable directory is
`null`. -/
inductive FileKind
  | file
  | directory
  | unlistable
  | neither
  deriving DecidableEq, Repr

/-- A name as `File.list` returns it on Windows. -/
abbrev WindowsName := {s : WStr // slash ∉ s ∧ backslash ∉ s}

/-- A file tree: each node with its name in its directory and its kind. -/
abbrev FileTree := Rose (WindowsName × FileKind)

/-- The path of a node of the file tree view, as `java.io.File` prints it on Windows. -/
abbrev WindowsPath := {s : WStr // slash ∉ s}

/-- `path + File.separator + name`. -/
def childPath (path : WStr) (name : WindowsName) : WStr := path ++ backslash :: name.1

theorem slash_notMem_childPath {path : WStr} (h : slash ∉ path) (name : WindowsName) :
    slash ∉ childPath path name := by
  have hsep : slash ≠ backslash := by decide
  simp [childPath, h, name.2.1, hsep]

/-- The list model, and the answers the user will give to the warning about a long list. -/
structure AddState where
  listModel : List WStr
  answers : List Bool

/-- How a call of `addNodeToList` ends: with its result, or with the exception of iterating over a
`null` list. -/
inductive AddOutcome
  | returned (retVal : Bool)
  | threw
  deriving DecidableEq, Repr

def warningNumberOfFiles : ℕ := 1000

/-- `addNodeToList` on a file.  A refused warning changes the result only: the file is added all the
same. -/
def addFile (pathToAdd : WStr) (s : AddState) : AddOutcome × AddState :=
  if ¬ wide "mp3" <:+ pathToAdd then (.returned true, s)
  else if pathToAdd ∈ s.listModel then (.returned true, s)
  else if s.listModel.length = warningNumberOfFiles then
    (.returned (s.answers.headD true), ⟨s.listModel ++ [pathToAdd], s.answers.tail⟩)
  else (.returned true, { s with listModel := s.listModel ++ [pathToAdd] })

mutual

/-- `addNodeToList`, on a path and the part of the file tree it denotes. -/
def addNodeToList (pathToAdd : WStr) : FileTree → AddState → AddOutcome × AddState
  | .node info children, s =>
    match info.2 with
    | .file => addFile pathToAdd s
    | .directory => addChildren pathToAdd children s
    | .unlistable => (.threw, s)
    | .neither => (.returned true, s)

/-- The loop of `addNodeToList` over the children of a directory. -/
def addChildren (pathToAdd : WStr) : List FileTree → AddState → AddOutcome × AddState
  | [], s => (.returned true, s)
  | thisChild :: children, s =>
    match addNodeToList (childPath pathToAdd thisChild.val.1) thisChild s with
    | (.returned true, s') => addChildren pathToAdd children s'
    | (.returned false, s') => (.returned false, s')
    | (.threw, s') => (.threw, s')

end

/-- A sequence of calls, one after the other. -/
def addAll (calls : List (WindowsPath × FileTree)) (s : AddState) : AddState :=
  calls.foldl (fun s call => (addNodeToList call.1.1 call.2 s).2) s

/-! ## What the list keeps -/

section Keeps

variable {P : List WStr → Prop}

/-- `P` survives the addition of a new mp3 path. -/
def KeptByAdding (P : List WStr → Prop) : Prop :=
  ∀ (path : WindowsPath) (l : List WStr), P l → path.1 ∉ l → wide "mp3" <:+ path.1 →
    P (l ++ [path.1])

theorem keeps_addFile (hP : KeptByAdding P) {path : WStr} (hpath : slash ∉ path) {s : AddState}
    (h : P s.listModel) : P (addFile path s).2.listModel := by
  rw [addFile]
  by_cases hmp3 : wide "mp3" <:+ path
  case neg => rwa [if_pos hmp3]
  by_cases hmem : path ∈ s.listModel
  · rwa [if_neg (not_not.mpr hmp3), if_pos hmem]
  · rw [if_neg (not_not.mpr hmp3), if_neg hmem]
    split
    · exact hP ⟨path, hpath⟩ _ h hmem hmp3
    · exact hP ⟨path, hpath⟩ _ h hmem hmp3

mutual

/-- **The list rule.**  What every appended new path keeps, a call keeps. -/
theorem keeps_addNodeToList (hP : KeptByAdding P) {path : WStr} (hpath : slash ∉ path) :
    ∀ (t : FileTree) {s : AddState}, P s.listModel → P (addNodeToList path t s).2.listModel
  | .node info children, _, h => by
      rw [addNodeToList]
      split
      · exact keeps_addFile hP hpath h
      · exact keeps_addChildren hP hpath children h
      · exact h
      · exact h

theorem keeps_addChildren (hP : KeptByAdding P) {path : WStr} (hpath : slash ∉ path) :
    ∀ (ts : List FileTree) {s : AddState}, P s.listModel → P (addChildren path ts s).2.listModel
  | [], _, h => by rwa [addChildren]
  | t :: ts, _, h => by
      have hchild := keeps_addNodeToList hP (slash_notMem_childPath hpath t.val.1) t h
      rw [addChildren]
      split
      next s' heq =>
        rw [heq] at hchild
        exact keeps_addChildren hP hpath ts hchild
      next s' heq =>
        rw [heq] at hchild
        exact hchild
      next s' heq =>
        rw [heq] at hchild
        exact hchild

end

theorem keeps_addAll (hP : KeptByAdding P) :
    ∀ (calls : List (WindowsPath × FileTree)) {s : AddState}, P s.listModel →
      P (addAll calls s).listModel
  | [], _, h => h
  | call :: calls, _, h => keeps_addAll hP calls (keeps_addNodeToList hP call.1.2 call.2 h)

end Keeps

/-- **The list has no repeated path.** -/
theorem nodup_addAll (calls : List (WindowsPath × FileTree)) {s : AddState}
    (h : s.listModel.Nodup) : (addAll calls s).listModel.Nodup := by
  refine keeps_addAll (fun path l hl hnot _ => ?_) calls h
  refine List.nodup_append.mpr ⟨hl, List.nodup_singleton _, fun a ha b hb heq => ?_⟩
  exact hnot (List.mem_singleton.mp hb ▸ heq ▸ ha)

/-- **The list has only mp3 paths**, and no path with a slash. -/
theorem mp3_of_mem_addAll (calls : List (WindowsPath × FileTree)) {s : AddState}
    (h : ∀ f ∈ s.listModel, slash ∉ f ∧ wide "mp3" <:+ f) :
    ∀ f ∈ (addAll calls s).listModel, slash ∉ f ∧ wide "mp3" <:+ f := by
  refine keeps_addAll (P := fun l => ∀ f ∈ l, slash ∉ f ∧ wide "mp3" <:+ f)
    (fun path l hl _ hmp3 f hf => ?_) calls h
  rcases List.mem_append.mp hf with hf | hf
  · exact hl f hf
  · exact List.mem_singleton.mp hf ▸ ⟨path.2, hmp3⟩

/-! ## What a call adds -/

mutual

/-- The regular files that a walk from a node gets to, by the names that lead to them, and whether
it gets through: it ends at a directory that cannot be listed. -/
def regularFiles : FileTree → List (List WindowsName) × Bool
  | .node info children =>
    match info.2 with
    | .file => ([[]], true)
    | .directory => regularFilesIn children
    | .unlistable => ([], false)
    | .neither => ([], true)

def regularFilesIn : List FileTree → List (List WindowsName) × Bool
  | [] => ([], true)
  | t :: ts =>
    if (regularFiles t).2 then
      ((regularFiles t).1.map (t.val.1 :: ·) ++ (regularFilesIn ts).1, (regularFilesIn ts).2)
    else ((regularFiles t).1.map (t.val.1 :: ·), false)

end

/-- The paths of those that end in "mp3". -/
def mp3Paths (path : WStr) (files : List (List WindowsName)) : List WStr :=
  (files.map fun names => names.foldl childPath path).filter fun f => wide "mp3" <:+ f

/-- A path is added if it is new. -/
def addNew (l : List WStr) (f : WStr) : List WStr := if f ∈ l then l else l ++ [f]

/-- These names lead through directories from one node to another. -/
inductive Leads : FileTree → List WindowsName → FileTree → Prop
  | here (t : FileTree) : Leads t [] t
  | into {t c u : FileTree} {names : List WindowsName} (hdir : t.val.2 = .directory)
      (hc : c ∈ t.children) (hu : Leads c names u) : Leads t (c.val.1 :: names) u

/-- All its directories can be listed. -/
def Listable (t : FileTree) : Prop := ∀ names u, Leads t names u → u.val.2 ≠ .unlistable

/-- The user confirms every warning. -/
def AddState.Confirmed (s : AddState) : Prop := ∀ b ∈ s.answers, b = true

section Adds

theorem mp3Paths_nil (path : WStr) :
    mp3Paths path [[]] = if wide "mp3" <:+ path then [path] else [] := by
  rw [mp3Paths, List.map_singleton, List.foldl_nil, List.filter_singleton]
  simp

theorem mp3Paths_append (path : WStr) (files files' : List (List WindowsName)) :
    mp3Paths path (files ++ files') = mp3Paths path files ++ mp3Paths path files' := by
  rw [mp3Paths, List.map_append, List.filter_append, mp3Paths, mp3Paths]

/-- What lies below a child lies below its directory. -/
theorem mp3Paths_map_cons (path : WStr) (name : WindowsName) (files : List (List WindowsName)) :
    mp3Paths path (files.map (name :: ·)) = mp3Paths (childPath path name) files := by
  rw [mp3Paths, List.map_map, mp3Paths]
  rfl

theorem addFile_of_confirmed (path : WStr) {s : AddState} (h : s.Confirmed) :
    ∃ s', addFile path s = (.returned true, s') ∧ s'.Confirmed ∧
      s'.listModel = (mp3Paths path [[]]).foldl addNew s.listModel := by
  have hanswer : s.answers.headD true = true := by
    cases hs : s.answers with
    | nil => rfl
    | cons b answers => exact h b (by simp [hs])
  have htail : ∀ b ∈ s.answers.tail, b = true := fun b hb => h b (List.mem_of_mem_tail hb)
  rw [addFile, mp3Paths_nil]
  by_cases hmp3 : wide "mp3" <:+ path
  case neg => exact ⟨s, by rw [if_pos hmp3], h, by rw [if_neg hmp3]; rfl⟩
  rw [if_neg (not_not.mpr hmp3), if_pos hmp3, List.foldl_cons, List.foldl_nil, addNew]
  by_cases hmem : path ∈ s.listModel
  · exact ⟨s, by rw [if_pos hmem], h, by rw [if_pos hmem]⟩
  · rw [if_neg hmem, if_neg hmem]
    by_cases hwarn : s.listModel.length = warningNumberOfFiles
    · exact ⟨⟨s.listModel ++ [path], s.answers.tail⟩, by rw [if_pos hwarn, hanswer], htail, rfl⟩
    · exact ⟨{ s with listModel := s.listModel ++ [path] }, by rw [if_neg hwarn], h, rfl⟩

mutual

/-- **What a call adds**, with every warning confirmed: the new ones among the mp3 paths of the
files that its walk gets to, in order. -/
theorem addNodeToList_of_confirmed :
    ∀ (t : FileTree) (path : WStr) {s : AddState}, s.Confirmed →
      ∃ s', addNodeToList path t s = (if (regularFiles t).2 then .returned true else .threw, s') ∧
        s'.Confirmed ∧ s'.listModel = (mp3Paths path (regularFiles t).1).foldl addNew s.listModel
  | .node info children, path, s, h => by
      rw [addNodeToList, regularFiles]
      cases info.2 with
      | file => exact addFile_of_confirmed path h
      | directory => exact addChildren_of_confirmed children path h
      | unlistable => exact ⟨s, rfl, h, rfl⟩
      | neither => exact ⟨s, rfl, h, rfl⟩

theorem addChildren_of_confirmed :
    ∀ (ts : List FileTree) (path : WStr) {s : AddState}, s.Confirmed →
      ∃ s', addChildren path ts s = (if (regularFilesIn ts).2 then .returned true else .threw, s') ∧
        s'.Confirmed ∧ s'.listModel = (mp3Paths path (regularFilesIn ts).1).foldl addNew s.listModel
  | [], path, s, h => ⟨s, rfl, h, rfl⟩
  | t :: ts, path, s, h => by
      obtain ⟨s', hchild, hs', hlist⟩ := addNodeToList_of_confirmed t (childPath path t.val.1) h
      rw [addChildren, hchild, regularFilesIn]
      by_cases hcomplete : (regularFiles t).2 = true
      · obtain ⟨s'', hrest, hs'', hlist'⟩ := addChildren_of_confirmed ts path hs'
        refine ⟨s'', by rw [if_pos hcomplete, if_pos hcomplete]; exact hrest, hs'', ?_⟩
        rw [if_pos hcomplete, hlist', hlist, mp3Paths_append, List.foldl_append, mp3Paths_map_cons]
      · refine ⟨s', by rw [if_neg hcomplete, if_neg hcomplete]; rfl, hs', ?_⟩
        rw [if_neg hcomplete, hlist, mp3Paths_map_cons]

end

/-- Adding new paths one after the other appends each of them once. -/
theorem foldl_addNew :
    ∀ (fs l : List WStr), ∃ added, fs.foldl addNew l = l ++ added ∧ added.Nodup ∧
      added.Sublist fs ∧ ∀ f, f ∈ added ↔ f ∈ fs ∧ f ∉ l
  | [], l => ⟨[], by simp, List.nodup_nil, List.Sublist.refl [], by simp⟩
  | f :: fs, l => by
      rw [List.foldl_cons, addNew]
      by_cases hmem : f ∈ l
      · obtain ⟨added, heq, hnodup, hsub, hiff⟩ := foldl_addNew fs l
        refine ⟨added, by rw [if_pos hmem, heq], hnodup, hsub.cons f, fun g => ?_⟩
        rw [hiff, List.mem_cons]
        constructor
        · exact fun h => ⟨.inr h.1, h.2⟩
        · rintro ⟨rfl | h, hnot⟩
          · exact absurd hmem hnot
          · exact ⟨h, hnot⟩
      · obtain ⟨added, heq, hnodup, hsub, hiff⟩ := foldl_addNew fs (l ++ [f])
        have hnew : f ∉ added := fun h => ((hiff f).mp h).2 (by simp)
        refine ⟨f :: added, by rw [if_neg hmem, heq, List.append_assoc]; rfl,
          List.nodup_cons.mpr ⟨hnew, hnodup⟩, hsub.cons_cons f, fun g => ?_⟩
        rw [List.mem_cons, hiff, List.mem_cons, List.mem_append, List.mem_singleton]
        by_cases hg : g = f
        · simp [hg, hmem]
        · simp [hg]

/-- …so a sequence of calls puts into the list what they add one after the other. -/
theorem addAll_of_confirmed :
    ∀ (calls : List (WindowsPath × FileTree)) {s : AddState}, s.Confirmed →
      (addAll calls s).listModel =
        (calls.flatMap fun call => mp3Paths call.1.1 (regularFiles call.2).1).foldl addNew
          s.listModel
  | [], _, _ => rfl
  | call :: calls, s, h => by
      obtain ⟨s', hcall, hs', hlist⟩ := addNodeToList_of_confirmed call.2 call.1.1 h
      have hrest := addAll_of_confirmed calls hs'
      rw [List.flatMap_cons, List.foldl_append, ← hlist, ← hrest, addAll, List.foldl_cons, hcall]
      rfl

/-- Names lead from a node to itself, or from a directory through one of its children. -/
theorem leads_iff {t u : FileTree} {names : List WindowsName} :
    Leads t names u ↔ (names = [] ∧ u = t) ∨
      (t.val.2 = .directory ∧
        ∃ c ∈ t.children, ∃ rest, names = c.val.1 :: rest ∧ Leads c rest u) := by
  constructor
  · rintro (_ | ⟨hdir, hc, hu⟩)
    · exact .inl ⟨rfl, rfl⟩
    · exact .inr ⟨hdir, _, hc, _, rfl, hu⟩
  · rintro (⟨rfl, rfl⟩ | ⟨hdir, c, hc, rest, rfl, hu⟩)
    · exact .here _
    · exact .into hdir hc hu

theorem Leads.trans {t u v : FileTree} {names names' : List WindowsName} (h : Leads t names u) :
    Leads u names' v → Leads t (names ++ names') v := by
  induction h with
  | here t => exact id
  | into hdir hc _ ih => exact fun hv => .into hdir hc (ih hv)

theorem leads_of_not_directory {t u : FileTree} {names : List WindowsName}
    (h : t.val.2 ≠ .directory) : Leads t names u ↔ names = [] ∧ u = t := by
  rw [leads_iff, or_iff_left fun hdir => h hdir.1]

mutual

/-- The walk gets to regular files only… -/
theorem leads_of_mem_regularFiles :
    ∀ (t : FileTree) {names : List WindowsName}, names ∈ (regularFiles t).1 →
      ∃ u, Leads t names u ∧ u.val.2 = .file
  | .node info children, names, h => by
      rw [regularFiles] at h
      cases hkind : info.2 with
      | file =>
        rw [hkind] at h
        obtain rfl := List.mem_singleton.mp h
        exact ⟨_, .here _, hkind⟩
      | directory =>
        rw [hkind] at h
        obtain ⟨c, hc, rest, u, rfl, hu, hfile⟩ := leads_of_mem_regularFilesIn children h
        exact ⟨u, .into hkind hc hu, hfile⟩
      | unlistable => simp [hkind] at h
      | neither => simp [hkind] at h

theorem leads_of_mem_regularFilesIn :
    ∀ (ts : List FileTree) {names : List WindowsName}, names ∈ (regularFilesIn ts).1 →
      ∃ t ∈ ts, ∃ rest u, names = t.val.1 :: rest ∧ Leads t rest u ∧ u.val.2 = .file
  | [], _, h => by simp [regularFilesIn] at h
  | t :: ts, names, h => by
      have hcases : names ∈ (regularFiles t).1.map (t.val.1 :: ·) ∨
          names ∈ (regularFilesIn ts).1 := by
        rw [regularFilesIn] at h
        split at h
        · exact List.mem_append.mp h
        · exact .inl h
      rcases hcases with h | h
      · obtain ⟨rest, hrest, rfl⟩ := List.mem_map.mp h
        obtain ⟨u, hu, hfile⟩ := leads_of_mem_regularFiles t hrest
        exact ⟨t, List.mem_cons_self, rest, u, rfl, hu, hfile⟩
      · obtain ⟨c, hc, hrest⟩ := leads_of_mem_regularFilesIn ts h
        exact ⟨c, List.mem_cons_of_mem _ hc, hrest⟩

end

mutual

/-- …and where every directory can be listed, it gets through, and to all of them. -/
theorem mem_regularFiles_of_listable :
    ∀ (t : FileTree), Listable t → (regularFiles t).2 = true ∧
      ∀ names u, Leads t names u → u.val.2 = .file → names ∈ (regularFiles t).1
  | .node info children, h => by
      rw [regularFiles]
      cases hkind : info.2 with
      | file =>
        refine ⟨rfl, fun names u hu _ => ?_⟩
        obtain ⟨rfl, -⟩ := (leads_of_not_directory (by simp [hkind])).mp hu
        exact List.mem_singleton_self _
      | directory =>
        obtain ⟨hcomplete, hmem⟩ := mem_regularFilesIn_of_listable children fun c hc names u hu =>
          h _ u (.into hkind hc hu)
        refine ⟨hcomplete, fun names u hu hfile => ?_⟩
        rcases leads_iff.mp hu with ⟨-, rfl⟩ | ⟨-, c, hc, rest, rfl, hrest⟩
        · simp [hkind] at hfile
        · exact hmem c hc rest u hrest hfile
      | unlistable => exact absurd hkind (h [] _ (.here _))
      | neither =>
        refine ⟨rfl, fun names u hu hfile => ?_⟩
        obtain ⟨-, rfl⟩ := (leads_of_not_directory (by simp [hkind])).mp hu
        simp [hkind] at hfile

theorem mem_regularFilesIn_of_listable :
    ∀ (ts : List FileTree), (∀ t ∈ ts, Listable t) → (regularFilesIn ts).2 = true ∧
      ∀ t ∈ ts, ∀ rest u, Leads t rest u → u.val.2 = .file →
        t.val.1 :: rest ∈ (regularFilesIn ts).1
  | [], _ => ⟨rfl, fun t ht => absurd ht List.not_mem_nil⟩
  | t :: ts, h => by
      obtain ⟨hcomplete, hmem⟩ := mem_regularFiles_of_listable t (h t List.mem_cons_self)
      obtain ⟨hrest, hmem'⟩ := mem_regularFilesIn_of_listable ts fun u hu =>
        h u (List.mem_cons_of_mem _ hu)
      rw [regularFilesIn, if_pos hcomplete]
      refine ⟨hrest, fun c hc rest u hu hfile => ?_⟩
      rcases List.mem_cons.mp hc with rfl | hc
      · exact List.mem_append_left _ (List.mem_map.mpr ⟨rest, hmem rest u hu hfile, rfl⟩)
      · exact List.mem_append_right _ (hmem' c hc rest u hu hfile)

end

end Adds

/-- **What adding a node does.**  With every directory listable and every warning confirmed, the
call returns true and appends, each once and in the order of the walk, exactly the paths of the
regular files at or below the node that end in "mp3" and were not in the list. -/
theorem addNodeToList_exact (path : WStr) (t : FileTree) (s : AddState) (hlist : Listable t)
    (hnodup : s.listModel.Nodup) (hanswers : s.Confirmed) :
    (addNodeToList path t s).1 = .returned true ∧
    ∃ added, (addNodeToList path t s).2.listModel = s.listModel ++ added ∧
      (s.listModel ++ added).Nodup ∧
      added.Sublist ((regularFiles t).1.map fun names => names.foldl childPath path) ∧
      ∀ f, f ∈ added ↔ (∃ names u, Leads t names u ∧ u.val.2 = .file ∧
        f = names.foldl childPath path) ∧ wide "mp3" <:+ f ∧ f ∉ s.listModel := by
  obtain ⟨s', hcall, -, hmodel⟩ := addNodeToList_of_confirmed t path hanswers
  obtain ⟨hcomplete, hmem⟩ := mem_regularFiles_of_listable t hlist
  obtain ⟨added, heq, hadded, hsub, hiff⟩ :=
    foldl_addNew (mp3Paths path (regularFiles t).1) s.listModel
  rw [hcall, if_pos hcomplete]
  refine ⟨rfl, added, hmodel.trans heq, ?_, hsub.trans List.filter_sublist, fun f => ?_⟩
  · refine List.nodup_append.mpr ⟨hnodup, hadded, fun a ha b hb hab => ?_⟩
    exact ((hiff b).mp hb).2 (hab ▸ ha)
  · rw [hiff, mp3Paths, List.mem_filter, List.mem_map, decide_eq_true_eq, and_assoc]
    refine and_congr_left fun _ => ?_
    constructor
    · rintro ⟨names, hnames, rfl⟩
      obtain ⟨u, hu, hfile⟩ := leads_of_mem_regularFiles t hnames
      exact ⟨names, u, hu, hfile, rfl⟩
    · rintro ⟨names, u, hu, hfile, rfl⟩
      exact ⟨names, hmem names u hu hfile, rfl⟩

def oneTrack : FileTree := .node (⟨wide "song.mp3", by decide⟩, .file) []

/-- A directory with one file. -/
def oneAlbum : FileTree := .node (⟨wide "album", by decide⟩, .directory) [oneTrack]

theorem listable_oneAlbum : Listable oneAlbum := by
  intro names u hu
  rcases leads_iff.mp hu with ⟨-, rfl⟩ | ⟨-, c, hc, rest, -, hrest⟩
  · decide
  · obtain rfl := List.mem_singleton.mp hc
    obtain ⟨-, rfl⟩ := (leads_of_not_directory (by decide)).mp hrest
    decide

/-- Its path is added to an empty list. -/
theorem addNodeToList_exact_oneAlbum :
    (addNodeToList (wide "C:\\album") oneAlbum ⟨[], []⟩).1 = .returned true ∧
      wide "C:\\album\\song.mp3" ∈
        (addNodeToList (wide "C:\\album") oneAlbum ⟨[], []⟩).2.listModel := by
  obtain ⟨hret, added, heq, -, -, hiff⟩ := addNodeToList_exact (wide "C:\\album") oneAlbum ⟨[], []⟩
    listable_oneAlbum List.nodup_nil fun b hb => absurd hb List.not_mem_nil
  refine ⟨hret, ?_⟩
  rw [heq, List.nil_append, hiff]
  have hfile : Leads oneAlbum [oneTrack.val.1] oneTrack :=
    .into rfl (List.mem_singleton_self oneTrack) (.here oneTrack)
  exact ⟨⟨_, _, hfile, rfl, by decide⟩, by decide, List.not_mem_nil⟩

end MtpRetag
