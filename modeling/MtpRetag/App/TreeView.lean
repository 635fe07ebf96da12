import MtpRetag.App.SameFile
import MtpRetag.Machinery.LazyTree
import MtpRetag.Machinery.Transition

/-!
# App/TreeView — the file tree view and its expansions

`populateSubtree` decides by `isLeaf` whether a node has been filled before: a leaf gets its
children, anything else passes the call on.  An empty directory gets a node "." so that it is no
leaf afterwards.

The view is a lazy tree (`populateSubtree_eq`), so what each expansion keeps is what populating
keeps; `lazyTree_run` states it for every sequence of expansions.
-/

namespace MtpRetag

/-! ## The file system -/

/-- A file system as `java.io.File` answers for it.  `list` names no entry twice, and none by the
empty name or ".". -/
structure Disk where
  listRoots : List WChar
  isDirectory : WStr → Bool
  list : WStr → Option (List WindowsName)
  nodup : ∀ path names, list path = some names → names.Nodup
  name_ne : ∀ path names, list path = some names → ∀ name ∈ names,
    name.1 ≠ [] ∧ name.1 ≠ wide "."

/-- The user object of a tree node: the title of the root, or a `File`. -/
inductive UserObject
  | title (name : WStr)
  | file (path : WStr)
  deriving DecidableEq, Repr

def UserObject.toString : UserObject → WStr
  | title name => name
  | file path => path

/-- A `DefaultMutableTreeNode`. -/
abbrev ViewNode := Rose UserObject

/-! ## Populating -/

/-- `toString().endsWith("\\.")`. -/
def IsPlaceholder (path : WStr) : Prop := wide "\\." <:+ path

instance (path : WStr) : Decidable (IsPlaceholder path) := inferInstanceAs (Decidable (_ <:+ _))

/-- What a directory is asked for: its subdirectories, and what ends in "mp3". -/
def shown (disk : Disk) (thisNode : WStr) (child : WindowsName) : Bool :=
  disk.isDirectory (fileChild thisNode child.1) ∨ wide "mp3" <:+ child.1

/-- `populateSubtree`. -/
def populateSubtree (disk : Disk) : ℕ → ViewNode → ViewNode
  | 0, node => node
  | levels + 1, node =>
    if node.children = [] then
      match node.val with
      -- a cast to `File` that fails; the root is a leaf only of a system without drives
      | .title _ => node
      | .file thisNode =>
        if IsPlaceholder thisNode then node
        else if ¬ disk.isDirectory thisNode then node
        else
          match disk.list thisNode with
          | none => node
          | some children =>
            let added := (children.filter (shown disk thisNode)).map fun child =>
              populateSubtree disk levels (.node (.file (fileChild thisNode child.1)) [])
            if added = [] then .node node.val [.node (.file (fileChild thisNode (wide "."))) []]
            else .node node.val added
    else .node node.val (node.children.map (populateSubtree disk levels))

/-- `createNodes`, and the root it is called with. -/
def createNodes (disk : Disk) : ViewNode :=
  .node (.title (wide "My Computer")) (disk.listRoots.map fun root =>
    populateSubtree disk 1 (.node (.file (driveRoot root)) []))

/-! ## Expanding -/

/-- The nodes of the view, and the ones that have been expanded. -/
structure TreeState where
  nodes : ViewNode
  expanded : List (List ℕ)

/-- The view as `JTree` first shows it, with its root expanded. -/
def TreeState.init (disk : Disk) : TreeState := ⟨createNodes disk, [[]]⟩

/-- `treeWillExpandHandler`.  A `JTree` expands no leaf. -/
def treeWillExpandHandler (disk : Disk) (s : TreeState) (p : List ℕ) : Option TreeState :=
  match s.nodes.sub? p with
  | none => none
  | some node =>
    if node.children = [] then none
    else some ⟨s.nodes.modifyAt (populateSubtree disk 2) p, p :: s.expanded⟩

/-! ## What a node has to show -/

/-- The entries of a directory that get a node, or the node "." if there are none. -/
def entries (disk : Disk) (path : WStr) (names : List WindowsName) : List UserObject :=
  if names.filter (shown disk path) = [] then [.file (fileChild path (wide "."))]
  else (names.filter (shown disk path)).map fun name => .file (fileChild path name.1)

/-- The children a node gets. -/
def contents (disk : Disk) : UserObject → List UserObject
  | .title _ => disk.listRoots.map fun root => .file (driveRoot root)
  | .file path =>
    if IsPlaceholder path ∨ ¬ disk.isDirectory path then []
    else (disk.list path).elim [] (entries disk path)

/-- **What holds of the view** after any expansions. -/
structure LazyTree (disk : Disk) (s : TreeState) : Prop where
  /-- A directory shows its entries, each once and in the order of `list`. -/
  shows : ∀ p node path, s.nodes.sub? p = some node → node.val = .file path →
    disk.isDirectory path = true → node.children ≠ [] →
    ∃ names, disk.list path = some names ∧ node.children.map Rose.val = entries disk path names ∧
      (node.children.map Rose.val).Nodup
  /-- A directory below expanded nodes can be expanded. -/
  expandable : ∀ p node path, s.nodes.sub? p = some node → node.val = .file path →
    ¬ IsPlaceholder path → disk.isDirectory path = true → disk.list path ≠ none →
    (∀ q, q <+: p → q ≠ p → q ∈ s.expanded) → node.children ≠ []
  /-- Expanding again adds nothing. -/
  expandAgain : ∀ p ∈ s.expanded, ∀ s', treeWillExpandHandler disk s p = some s' →
    s'.nodes = s.nodes

section View

variable {disk : Disk} {s s' : TreeState}

theorem entries_ne_nil (disk : Disk) (path : WStr) (names : List WindowsName) :
    entries disk path names ≠ [] := by
  rw [entries]
  split
  case isTrue => simp
  case isFalse h => exact fun hnil => h (List.map_eq_nil_iff.mp hnil)

/-- `new File(parent, name)` puts the name behind what the parent gives. -/
theorem exists_fileChild_eq_append (parent : WStr) :
    ∃ pre, (∀ name, fileChild parent name = pre ++ name) ∧ [backslash] <:+ pre := by
  by_cases h : [backslash] <:+ parent
  · exact ⟨parent, fun name => if_pos h, h⟩
  · exact ⟨parent ++ [backslash], fun name => by simp [fileChild, h], List.suffix_append _ _⟩

theorem fileChild_inj {parent name name' : WStr} :
    fileChild parent name = fileChild parent name' ↔ name = name' := by
  obtain ⟨pre, hpre, -⟩ := exists_fileChild_eq_append parent
  rw [hpre, hpre, List.append_cancel_left_eq]

theorem isPlaceholder_fileChild_dot (parent : WStr) :
    IsPlaceholder (fileChild parent (wide ".")) := by
  obtain ⟨pre, hpre, u, rfl⟩ := exists_fileChild_eq_append parent
  exact ⟨u, by rw [hpre]; simp [wide, backslash]⟩

theorem contents_of_isPlaceholder {path : WStr} (h : IsPlaceholder path) :
    contents disk (.file path) = [] := if_pos (.inl h)

theorem contents_of_not_isDirectory {path : WStr} (h : disk.isDirectory path ≠ true) :
    contents disk (.file path) = [] := if_pos (.inr h)

theorem contents_of_isDirectory {path : WStr} (hp : ¬ IsPlaceholder path)
    (hd : disk.isDirectory path = true) :
    contents disk (.file path) = (disk.list path).elim [] (entries disk path) :=
  if_neg (not_or.mpr ⟨hp, not_not.mpr hd⟩)

/-- What a directory gets is named in it, by an entry or by ".". -/
theorem exists_name_of_mem_contents {path : WStr} {v : UserObject}
    (h : v ∈ contents disk (.file path)) :
    ∃ name, name ≠ [] ∧ backslash ∉ name ∧ v = .file (fileChild path name) := by
  rw [contents] at h
  split at h
  · simp at h
  · cases hlist : disk.list path with
    | none => simp [hlist] at h
    | some names =>
      rw [hlist, Option.elim_some, entries] at h
      split at h
      · exact ⟨wide ".", by decide, by decide, List.mem_singleton.mp h⟩
      · obtain ⟨name, hname, rfl⟩ := List.mem_map.mp h
        have hne := disk.name_ne path names hlist name (List.mem_of_mem_filter hname)
        exact ⟨name.1, hne.1, name.2.2, rfl⟩

/-- Only the root is no `File`. -/
theorem exists_file_of_mem_contents {u v : UserObject} (h : v ∈ contents disk u) :
    ∃ path, v = .file path := by
  cases u with
  | title name =>
    obtain ⟨root, -, rfl⟩ := List.mem_map.mp h
    exact ⟨_, rfl⟩
  | file path =>
    obtain ⟨name, -, -, rfl⟩ := exists_name_of_mem_contents h
    exact ⟨_, rfl⟩

/-- A node that may be populated: a `File`, or a root with drives. -/
def Castable (node : ViewNode) : Prop := (∃ path, node.val = .file path) ∨ node.children ≠ []

theorem castable_of_mem_children {node c : ViewNode} (hs : Rose.Shows (contents disk) node)
    (hc : c ∈ node.children) : Castable c := by
  have hvals := (hs [] node (Rose.sub?_nil node)).resolve_left (List.ne_nil_of_mem hc)
  have hmem : c.val ∈ contents disk node.val := by
    rw [← hvals]
    exact List.mem_map_of_mem hc
  exact .inl (exists_file_of_mem_contents hmem)

/-- **The view is a lazy tree.** -/
theorem populateSubtree_eq (disk : Disk) :
    ∀ (levels : ℕ) {node : ViewNode}, Rose.Shows (contents disk) node → Castable node →
      populateSubtree disk levels node = Rose.populate (contents disk) levels node
  | 0, _, _, _ => rfl
  | levels + 1, node, hs, hcast => by
      have hnew (path : WStr) : populateSubtree disk levels (.node (.file path) []) =
          Rose.populate (contents disk) levels (.node (.file path) []) :=
        populateSubtree_eq disk levels (Rose.shows_leaf _) (.inl ⟨path, rfl⟩)
      by_cases hleaf : node.children = []
      case neg =>
        have hcs (c : ViewNode) (hc : c ∈ node.children) :=
          populateSubtree_eq disk levels (hs.child hc) (castable_of_mem_children hs hc)
        rw [populateSubtree, if_neg hleaf, Rose.populate_of_children hleaf,
          List.map_congr_left hcs]
      obtain ⟨path, hval⟩ := hcast.resolve_right (not_not.mpr hleaf)
      have hsame : node = .node (.file path) [] := by
        rw [← hval, ← hleaf, Rose.node_val_children]
      rw [populateSubtree, if_pos hleaf, Rose.populate_of_leaf hleaf, hval]
      dsimp only
      by_cases hp : IsPlaceholder path
      · rw [if_pos hp, contents_of_isPlaceholder hp, List.map_nil, hsame]
      by_cases hd : disk.isDirectory path = true
      case neg =>
        rw [if_neg hp, if_pos hd, contents_of_not_isDirectory hd, List.map_nil, hsame]
      rw [if_neg hp, if_neg (not_not.mpr hd), contents_of_isDirectory hp hd]
      cases hlist : disk.list path with
      | none => rw [Option.elim_none, List.map_nil, hsame]
      | some names =>
        dsimp only
        rw [Option.elim_some, entries]
        by_cases h : names.filter (shown disk path) = []
        · rw [if_pos (List.map_eq_nil_iff.mpr h), if_pos h, List.map_singleton,
            Rose.populate_of_kids_nil
              (contents_of_isPlaceholder (isPlaceholder_fileChild_dot path))]
        · rw [if_neg fun hnil => h (List.map_eq_nil_iff.mp hnil), if_neg h, List.map_map]
          exact congrArg _ (List.map_congr_left fun name _ => hnew (fileChild path name.1))

/-- What every expansion keeps: nothing is shown in part, and nothing is missing two levels below an
expanded node. -/
structure TreeInv (disk : Disk) (s : TreeState) : Prop where
  shows : Rose.Shows (contents disk) s.nodes
  root : ∀ path, s.nodes.val ≠ .file path
  saturated : ∀ p ∈ s.expanded, ∃ node, s.nodes.sub? p = some node ∧
    Rose.Saturated (contents disk) 2 node

theorem createNodes_eq (disk : Disk) :
    createNodes disk =
      Rose.populate (contents disk) 2 (.node (.title (wide "My Computer")) []) := by
  have hnew (root : WChar) : populateSubtree disk 1 (.node (.file (driveRoot root)) []) =
      Rose.populate (contents disk) 1 (.node (.file (driveRoot root)) []) :=
    populateSubtree_eq disk 1 (Rose.shows_leaf _) (.inl ⟨driveRoot root, rfl⟩)
  rw [createNodes, Rose.populate_of_leaf rfl, Rose.val_node, contents, List.map_map]
  exact congrArg _ (List.map_congr_left fun root _ => hnew root)

theorem treeInv_init (disk : Disk) : TreeInv disk (.init disk) := by
  have hnodes : (TreeState.init disk).nodes = _ := createNodes_eq disk
  constructor
  · rw [hnodes]
    exact (Rose.shows_leaf _).populate 2
  · intro path
    rw [hnodes, Rose.val_populate]
    exact UserObject.noConfusion
  · intro p hp
    obtain rfl := List.mem_singleton.mp hp
    exact ⟨_, Rose.sub?_nil _, hnodes ▸ Rose.saturated_populate 2 _⟩

/-- **What an expansion can do**: populate a node that has children already. -/
theorem treeWillExpandHandler_cases {p : List ℕ}
    (h : treeWillExpandHandler disk s p = some s') :
    ∃ node, s.nodes.sub? p = some node ∧ node.children ≠ [] ∧
      s' = ⟨s.nodes.modifyAt (populateSubtree disk 2) p, p :: s.expanded⟩ := by
  rw [treeWillExpandHandler] at h
  cases hnode : s.nodes.sub? p with
  | none => simp [hnode] at h
  | some node =>
    rw [hnode] at h
    dsimp only at h
    split at h
    case isTrue => simp at h
    case isFalse hne => exact ⟨node, rfl, hne, (Option.some.inj h).symm⟩

/-- **One call of `populateSubtree` on a node of the view**: nothing that was there goes, nothing is
shown in part, and nothing is missing below the node. -/
theorem modifyAt_populateSubtree {nodes node : ViewNode} {p : List ℕ} (levels : ℕ)
    (hs : Rose.Shows (contents disk) nodes) (hnode : nodes.sub? p = some node)
    (hcast : Castable node) :
    Rose.Extends nodes (nodes.modifyAt (populateSubtree disk levels) p) ∧
      Rose.Shows (contents disk) (nodes.modifyAt (populateSubtree disk levels) p) ∧
      (nodes.modifyAt (populateSubtree disk levels) p).sub? p =
        some (Rose.populate (contents disk) levels node) := by
  have hsub := hs.sub? hnode
  have heq := populateSubtree_eq disk levels hsub hcast
  have hval : (populateSubtree disk levels node).val = node.val := by rw [heq, Rose.val_populate]
  refine ⟨.modifyAt hnode (heq ▸ Rose.extends_populate levels node),
    hs.modifyAt hnode hval (heq ▸ hsub.populate levels), ?_⟩
  rw [Rose.sub?_modifyAt_self _ hnode, heq]

theorem TreeInv.step {p : List ℕ} (hs : TreeInv disk s)
    (h : treeWillExpandHandler disk s p = some s') : TreeInv disk s' := by
  obtain ⟨node, hnode, hne, rfl⟩ := treeWillExpandHandler_cases h
  obtain ⟨hext, hshows, hnew⟩ := modifyAt_populateSubtree 2 hs.shows hnode (.inr hne)
  constructor
  · exact hshows
  · intro path
    rw [hext.val]
    exact hs.root path
  · intro q hq
    rcases List.mem_cons.mp hq with rfl | hq
    · exact ⟨_, hnew, Rose.saturated_populate 2 node⟩
    · obtain ⟨n, hn, hsat⟩ := hs.saturated q hq
      obtain ⟨n', hn', hext'⟩ := hext.exists_sub? hn
      exact ⟨n', hn', hsat.of_extends hext' (hshows.sub? hn')⟩

/-- The entries of a directory are different files. -/
theorem nodup_entries {path : WStr} {names : List WindowsName}
    (h : disk.list path = some names) : (entries disk path names).Nodup := by
  have hinj : Function.Injective
      fun name : WindowsName => UserObject.file (fileChild path name.1) :=
    fun a b hab => Subtype.ext (fileChild_inj.mp (UserObject.file.inj hab))
  rw [entries]
  split
  · exact List.nodup_singleton _
  · exact ((disk.nodup path names h).filter _).map hinj

/-- A directory with children shows its entries… -/
theorem TreeInv.map_val_eq_entries (hs : TreeInv disk s) {p : List ℕ} {node : ViewNode}
    {path : WStr} (hnode : s.nodes.sub? p = some node) (hval : node.val = .file path)
    (hd : disk.isDirectory path = true) (hne : node.children ≠ []) :
    ∃ names, disk.list path = some names ∧
      node.children.map Rose.val = entries disk path names := by
  have hvals := (hs.shows p node hnode).resolve_left hne
  rw [hval] at hvals
  have hcontents : contents disk (.file path) ≠ [] := by
    rw [← hvals]
    exact fun h => hne (List.map_eq_nil_iff.mp h)
  have hp : ¬ IsPlaceholder path := fun h => hcontents (contents_of_isPlaceholder h)
  rw [contents_of_isDirectory hp hd] at hvals hcontents
  cases hlist : disk.list path with
  | none => simp [hlist] at hcontents
  | some names =>
    rw [hlist, Option.elim_some] at hvals
    exact ⟨names, rfl, hvals⟩

/-- …and one without has none, if the node above it has been expanded. -/
theorem TreeInv.contents_eq_nil (hs : TreeInv disk s) {p : List ℕ} {node : ViewNode} {path : WStr}
    (hnode : s.nodes.sub? p = some node) (hval : node.val = .file path)
    (hexp : ∀ q, q <+: p → q ≠ p → q ∈ s.expanded) (hleaf : node.children = []) :
    contents disk (.file path) = [] := by
  rcases List.eq_nil_or_concat' p with rfl | ⟨q, i, rfl⟩
  · obtain rfl : s.nodes = node := by simpa using hnode
    exact absurd hval (hs.root path)
  · have hq : q ∈ s.expanded := hexp q (List.prefix_append q [i]) (by simp)
    obtain ⟨parent, hparent, hsat⟩ := hs.saturated q hq
    rw [Rose.sub?_append_singleton hparent] at hnode
    rw [← hval]
    exact (hsat.2 node (List.mem_of_getElem? hnode)).1 hleaf

theorem TreeInv.lazyTree (hs : TreeInv disk s) : LazyTree disk s := by
  constructor
  · intro p node path hnode hval hd hne
    obtain ⟨names, hlist, hvals⟩ := hs.map_val_eq_entries hnode hval hd hne
    exact ⟨names, hlist, hvals, hvals ▸ nodup_entries hlist⟩
  · intro p node path hnode hval hp hd hlist hexp hleaf
    have hnil := hs.contents_eq_nil hnode hval hexp hleaf
    obtain ⟨names, hnames⟩ := Option.ne_none_iff_exists'.mp hlist
    rw [contents_of_isDirectory hp hd, hnames, Option.elim_some] at hnil
    exact entries_ne_nil disk path names hnil
  · intro p hp s' h
    obtain ⟨node, hnode, hne, rfl⟩ := treeWillExpandHandler_cases h
    obtain ⟨n, hn, hsat⟩ := hs.saturated p hp
    obtain rfl : node = n := Option.some.inj (hnode.symm.trans hn)
    refine Rose.modifyAt_eq_self hnode ?_
    rw [populateSubtree_eq disk 2 (hs.shows.sub? hnode) (.inr hne), Rose.populate_of_saturated hsat]

end View

/-- **The lazy tree invariant.**  It holds of the tree that `createNodes` builds and after every
expansion of every sequence. -/
theorem lazyTree_run (disk : Disk) (ps : List (List ℕ)) :
    LazyTree disk (.init disk) ∧
      ∀ e ∈ Transition.fired (treeWillExpandHandler disk) (.init disk) ps,
        LazyTree disk e.post := by
  refine ⟨(treeInv_init disk).lazyTree, fun e he => TreeInv.lazyTree ?_⟩
  exact (Transition.forall_fired_inv (TreeInv disk) (fun _ _ => True) (fun _ => True)
    (fun _ _ _ _ hs _ h => hs.step h) ps (fun _ _ => trivial) (treeInv_init disk)
    (fun _ _ => trivial) e he).2

end MtpRetag
