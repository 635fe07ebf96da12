import MtpRetag.App.TreeView
import MtpRetag.App.Destination

/-!
# App/Navigate — `navigateTreeToPath`

The loop looks, at each level, for the first child whose string ends with the next piece of the
path, and takes the child behind the last one when there is none: `getChildAt` is then out of range.

A path is found exactly when each of its prefixes is one of the nodes that the prefix before gets
(`navigates_iff`).  A UNC path never is: its first piece is empty, which the first drive ends with.
-/

namespace MtpRetag

/-! ## Absolute paths -/

/-- What an absolute Windows path starts with. -/
inductive PathRoot
  | drive (letter : WChar) (isLetter_letter : isLetter letter = true)
  | unc (host : WindowsName) (host_ne : host.1 ≠ [])

/-- The string of a path that has nothing behind its root. -/
def PathRoot.toString : PathRoot → WStr
  | drive letter _ => driveRoot letter
  | unc host _ => backslash :: backslash :: host.1

/-- An absolute path, as `File` normalizes it. -/
structure AbsolutePath where
  root : PathRoot
  names : List WindowsName
  name_ne : ∀ name ∈ names, name.1 ≠ []

/-- The paths of no components, of the first component, and so on. -/
def AbsolutePath.prefixes (p : AbsolutePath) : List WStr :=
  p.names.scanl (fun path name => fileChild path name.1) p.root.toString

/-- `File.toString`. -/
def AbsolutePath.toString (p : AbsolutePath) : WStr :=
  p.names.foldl (fun path name => fileChild path name.1) p.root.toString

/-! ## Navigating -/

/-- The nodes and the `TreePath` that `navigateTreeToPath` leaves and selects, from the root on. -/
structure NavigateResult where
  nodes : ViewNode
  treePath : List (List ℕ)

/-- The search among the children of a node: the first whose string ends with the needle. -/
def childEndingWith (needle : WStr) (thisNode : ViewNode) : Option ℕ :=
  thisNode.children.findIdx? fun child => needle <:+ child.val.toString

/-- `prefix + paths[currentDepth] + suffix`. -/
def needle (currentDepth : ℕ) (path : WStr) : WStr :=
  (if currentDepth = 0 then [] else [backslash]) ++ path ++
    (if currentDepth = 0 then [backslash] else [])

/-- The loop of `navigateTreeToPath`, from the node at `thisNode` on; `none` is a `getChildAt` out
of range. -/
def navigateLoop (disk : Disk) : ℕ → List WStr → ViewNode → List ℕ → Option NavigateResult
  | _, [], nodes, _ => some ⟨nodes, []⟩
  | currentDepth, path :: paths, nodes, thisNode =>
    match (nodes.sub? thisNode).bind (childEndingWith (needle currentDepth path)) with
    | none => none
    | some childIndex =>
      (navigateLoop disk (currentDepth + 1) paths
        (nodes.modifyAt (populateSubtree disk 2) (thisNode ++ [childIndex]))
        (thisNode ++ [childIndex])).map fun r =>
          { r with treePath := (thisNode ++ [childIndex]) :: r.treePath }

/-- `navigateTreeToPath`.  The log asks for the first child of the root. -/
def navigateTreeToPath (disk : Disk) (nodes : ViewNode) (defaultTreePath : WStr) :
    Option NavigateResult :=
  if nodes.children = [] then none
  else
    (navigateLoop disk 0 (pathTokens defaultTreePath) nodes []).map fun r =>
      { r with treePath := [] :: r.treePath }

/-! ## What is selected -/

/-- One position is that of a child of the other. -/
def IsChild (p q : List ℕ) : Prop := ∃ i, q = p ++ [i]

/-- What a position of a tree denotes. -/
def denoted (nodes : ViewNode) (p : List ℕ) : Option UserObject := (nodes.sub? p).map Rose.val

/-- **The navigation arrives**: it selects a chain of nodes from the root down, the `k`-th of which
denotes the path of the first `k` components, and the last one the path. -/
def Navigates (disk : Disk) (p : AbsolutePath) : Prop :=
  ∃ r, navigateTreeToPath disk (createNodes disk) p.toString = some r ∧
    r.treePath.head? = some [] ∧ r.treePath.IsChain IsChild ∧
    r.treePath.tail.map (denoted r.nodes) = p.prefixes.map (fun path => some (.file path)) ∧
    r.treePath.getLast?.bind (denoted r.nodes) = some (.file p.toString)

/-- One path is that of a node which the node of the other gets. -/
def ListedIn (disk : Disk) (path path' : WStr) : Prop :=
  UserObject.file path' ∈ contents disk (.file path)

/-- The path is on a drive of the system, and each of its prefixes is listed in the one before. -/
def Navigable (disk : Disk) (p : AbsolutePath) : Prop :=
  match p.root with
  | .drive letter _ => letter ∈ disk.listRoots ∧ p.prefixes.IsChain (ListedIn disk)
  | .unc _ _ => False

section Search

variable {disk : Disk} {nodes node : ViewNode} {path : WStr}

/-- A separator and a name end a path exactly when the name is its last. -/
theorem cons_suffix_append_cons_iff {c : WChar} {token name : WStr} (htoken : c ∉ token)
    (hname : c ∉ name) (s : WStr) : c :: token <:+ s ++ c :: name ↔ name = token := by
  constructor
  · rintro ⟨u, hu⟩
    have h (l : WStr) (m : WStr) (hm : c ∉ m) :
        (l ++ c :: m).rtakeWhile (fun d => decide (d ≠ c)) = m := by
      rw [rtakeWhile_append_cons (by simp)]
      exact List.rtakeWhile_eq_self_iff.mpr fun d hd => by
        simpa using fun hdc : d = c => hm (hdc ▸ hd)
    rw [← h s name hname, ← hu, h u token htoken]
  · rintro rfl
    exact List.suffix_append s _

/-- What a directory gets is named by its strings' last components. -/
theorem suffix_of_mem_contents {token : WStr} (htoken : backslash ∉ token) {v : UserObject}
    (hv : v ∈ contents disk (.file path)) :
    backslash :: token <:+ v.toString ↔ v = .file (fileChild path token) := by
  obtain ⟨name, -, hname, rfl⟩ := exists_name_of_mem_contents hv
  obtain ⟨pre, hpre, u, rfl⟩ := exists_fileChild_eq_append path
  rw [UserObject.file.injEq, fileChild_inj, UserObject.toString, hpre, List.append_assoc,
    List.singleton_append, cons_suffix_append_cons_iff htoken hname]

/-- **What the search finds** among nodes that are all there: the child it looks for, or none. -/
theorem childEndingWith_cases (needle : WStr) (v : UserObject)
    (hs : Rose.Shows (contents disk) node) (hd : Rose.Done (contents disk) node)
    (hv : ∀ w ∈ contents disk node.val, needle <:+ w.toString ↔ w = v) :
    (v ∈ contents disk node.val ∧ ∃ i child, childEndingWith needle node = some i ∧
      node.children[i]? = some child ∧ child.val = v) ∨
    (v ∉ contents disk node.val ∧ childEndingWith needle node = none) := by
  have hvals := Rose.map_val_children hs hd
  have hchild (child : ViewNode) (hc : child ∈ node.children) :
      needle <:+ child.val.toString ↔ child.val = v :=
    hv child.val (by rw [← hvals]; exact List.mem_map_of_mem hc)
  by_cases hmem : v ∈ contents disk node.val
  · refine .inl ⟨hmem, ?_⟩
    rw [← hvals] at hmem
    obtain ⟨child, hc, hval⟩ := List.mem_map.mp hmem
    have hsome : (childEndingWith needle node).isSome := by
      rw [childEndingWith, List.findIdx?_isSome, List.any_eq_true]
      exact ⟨child, hc, decide_eq_true ((hchild child hc).mpr hval)⟩
    obtain ⟨i, hi⟩ := Option.isSome_iff_exists.mp hsome
    obtain ⟨hlt, hends, -⟩ := List.findIdx?_eq_some_iff_getElem.mp hi
    have hget := List.getElem?_eq_getElem hlt
    exact ⟨i, _, hi, hget,
      (hchild _ (List.mem_of_getElem? hget)).mp (of_decide_eq_true hends)⟩
  · refine .inr ⟨hmem, List.findIdx?_eq_none_iff.mpr fun child hc => decide_eq_false fun h => ?_⟩
    rw [← hvals] at hmem
    exact hmem (List.mem_map.mpr ⟨child, hc, (hchild child hc).mp h⟩)

end Search

section Loop

variable {disk : Disk} {nodes node : ViewNode} {q : List ℕ} {path : WStr}

@[simp] theorem needle_zero (path : WStr) : needle 0 path = path ++ [backslash] := by simp [needle]

@[simp] theorem needle_succ (currentDepth : ℕ) (path : WStr) :
    needle (currentDepth + 1) path = backslash :: path := by simp [needle]

theorem navigateLoop_of_none {currentDepth : ℕ} (hnode : nodes.sub? q = some node)
    (h : childEndingWith (needle currentDepth path) node = none) (paths : List WStr) :
    navigateLoop disk currentDepth (path :: paths) nodes q = none := by
  rw [navigateLoop, hnode, Option.bind_some, h]

theorem navigateLoop_of_some (disk : Disk) {currentDepth i : ℕ} (hnode : nodes.sub? q = some node)
    (h : childEndingWith (needle currentDepth path) node = some i) (paths : List WStr) :
    navigateLoop disk currentDepth (path :: paths) nodes q =
      (navigateLoop disk (currentDepth + 1) paths
        (nodes.modifyAt (populateSubtree disk 2) (q ++ [i])) (q ++ [i])).map fun r =>
          { r with treePath := (q ++ [i]) :: r.treePath } := by
  rw [navigateLoop, hnode, Option.bind_some, h]

/-- **What a round leaves**: the child that was found is where it was, and filled. -/
theorem exists_filled {child : ViewNode} {i : ℕ} (hs : Rose.Shows (contents disk) nodes)
    (hnode : nodes.sub? q = some node) (hchild : node.children[i]? = some child)
    (hval : child.val = .file path) :
    Rose.Extends nodes (nodes.modifyAt (populateSubtree disk 2) (q ++ [i])) ∧
      Rose.Shows (contents disk) (nodes.modifyAt (populateSubtree disk 2) (q ++ [i])) ∧
      ∃ filled, (nodes.modifyAt (populateSubtree disk 2) (q ++ [i])).sub? (q ++ [i]) =
          some filled ∧ filled.val = .file path ∧ Rose.Done (contents disk) filled := by
  have hsub : nodes.sub? (q ++ [i]) = some child := by
    rw [Rose.sub?_append_singleton hnode, hchild]
  obtain ⟨hext, hshows, hnew⟩ := modifyAt_populateSubtree 2 hs hsub (.inl ⟨path, hval⟩)
  exact ⟨hext, hshows, _, hnew, by rw [Rose.val_populate, hval], (Rose.saturated_populate 2 child).1⟩

/-- A loop that goes on from the node at `q` selects nodes for these paths, in a tree that has what
was there. -/
structure Selects (nodes : ViewNode) (q : List ℕ) (paths : List WStr) (r : NavigateResult) :
    Prop where
  kept : Rose.Extends nodes r.nodes
  chain : (q :: r.treePath).IsChain IsChild
  denotes : r.treePath.map (denoted r.nodes) = paths.map fun path => some (.file path)

/-- **One round**: the child that was found is filled, and the rest is selected below it. -/
theorem Selects.cons {child : ViewNode} {i : ℕ} {paths : List WStr} {r : NavigateResult}
    (hs : Rose.Shows (contents disk) nodes) (hnode : nodes.sub? q = some node)
    (hchild : node.children[i]? = some child) (hval : child.val = .file path)
    (hr : Selects (nodes.modifyAt (populateSubtree disk 2) (q ++ [i])) (q ++ [i]) paths r) :
    Selects nodes q (path :: paths) { r with treePath := (q ++ [i]) :: r.treePath } := by
  obtain ⟨hext, -, filled, hfilled, hfval, -⟩ := exists_filled hs hnode hchild hval
  constructor
  · exact hext.trans hr.kept
  · exact List.isChain_cons_cons.mpr ⟨⟨i, rfl⟩, hr.chain⟩
  · obtain ⟨n, hn, hext'⟩ := hr.kept.exists_sub? hfilled
    have hdenoted : denoted r.nodes (q ++ [i]) = some (.file path) := by
      rw [denoted, hn, Option.map_some, hext'.val, hfval]
    rw [List.map_cons, List.map_cons, hdenoted, hr.denotes]

/-- The first of the paths is the one it starts with. -/
theorem scanl_fileChild_eq_cons (names : List WindowsName) (path : WStr) :
    names.scanl (fun path name => fileChild path name.1) path =
      path :: (names.scanl (fun path name => fileChild path name.1) path).tail := by
  cases names with
  | nil => rfl
  | cons name names => rw [List.scanl_cons, List.tail_cons]

theorem isChain_scanl_cons {R : WStr → WStr → Prop} (name : WindowsName)
    (names : List WindowsName) (path : WStr) :
    ((name :: names).scanl (fun path name => fileChild path name.1) path).IsChain R ↔
      R path (fileChild path name.1) ∧
        (names.scanl (fun path name => fileChild path name.1)
          (fileChild path name.1)).IsChain R := by
  rw [List.scanl_cons, scanl_fileChild_eq_cons names, List.isChain_cons_cons]

/-- **The loop below a drive** follows the names as far as each is listed. -/
theorem navigateLoop_cases (disk : Disk) :
    ∀ (names : List WindowsName) (currentDepth : ℕ) {nodes node : ViewNode} {q : List ℕ}
      {path : WStr}, Rose.Shows (contents disk) nodes → nodes.sub? q = some node →
      node.val = .file path → Rose.Done (contents disk) node →
      ((names.scanl (fun path name => fileChild path name.1) path).IsChain (ListedIn disk) ∧
        ∃ r, navigateLoop disk (currentDepth + 1) (names.map (·.1)) nodes q = some r ∧
          Selects nodes q (names.scanl (fun path name => fileChild path name.1) path).tail r) ∨
      (¬ (names.scanl (fun path name => fileChild path name.1) path).IsChain (ListedIn disk) ∧
        navigateLoop disk (currentDepth + 1) (names.map (·.1)) nodes q = none)
  | [], _, nodes, _, q, path, _, _, _, _ => by
      refine .inl ⟨by simp, ⟨nodes, []⟩, rfl, .refl nodes, .singleton q, by simp⟩
  | name :: names, currentDepth, nodes, node, q, path, hs, hnode, hval, hdone => by
      have hends (v : UserObject) (hv : v ∈ contents disk node.val) :
          needle (currentDepth + 1) name.1 <:+ v.toString ↔
            v = .file (fileChild path name.1) := by
        rw [hval] at hv
        rw [needle_succ]
        exact suffix_of_mem_contents name.2.2 hv
      have hsearch := childEndingWith_cases _ _ (hs.sub? hnode) hdone hends
      rw [hval] at hsearch
      rw [isChain_scanl_cons, List.map_cons]
      rcases hsearch with ⟨hmem, i, child, hi, hchild, hcval⟩ | ⟨hmem, hnone⟩
      · obtain ⟨-, hshows, filled, hfilled, hfval, hfdone⟩ := exists_filled hs hnode hchild hcval
        have hrest := navigateLoop_cases disk names (currentDepth + 1) hshows hfilled hfval hfdone
        rw [navigateLoop_of_some disk hnode hi]
        rcases hrest with ⟨hchain, r, hr, hsel⟩ | ⟨hchain, hr⟩
        · refine .inl ⟨⟨hmem, hchain⟩, _, by rw [hr, Option.map_some], ?_⟩
          rw [List.scanl_cons, List.tail_cons, scanl_fileChild_eq_cons names]
          exact hsel.cons hs hnode hchild hcval
        · exact .inr ⟨fun h => hchain h.2, by rw [hr, Option.map_none]⟩
      · exact .inr ⟨fun h => hmem h.1, navigateLoop_of_none hnode hnone _⟩

end Loop

/-! ## The pieces of a path -/

section Pieces

theorem pathTokens_append_flatMap {m : WStr} {names : List WStr} (hm : backslash ∉ m)
    (hnames : ∀ name ∈ names, backslash ∉ name) (hnil : names ≠ [])
    (hne : ∀ name ∈ names, name ≠ []) :
    pathTokens (m ++ names.flatMap (backslash :: ·)) = m :: names := by
  have hmem : backslash ∈ m ++ names.flatMap (backslash :: ·) := by
    obtain ⟨name, names, rfl⟩ := List.exists_cons_of_ne_nil hnil
    simp
  rw [pathTokens, if_pos hmem, splitOn_append_flatMap hnames hm, List.rdropWhile_eq_self_iff]
  intro hl
  rw [List.getLast_cons hnil]
  exact fun h => hne _ (List.getLast_mem hnil) (of_decide_eq_true h)

theorem backslash_notMem_drive {letter : WChar} (h : isLetter letter = true) :
    backslash ∉ [letter, colon] := by
  have hletter : backslash ≠ letter := by
    rintro rfl
    exact absurd h (by decide)
  simpa [hletter] using (by decide : backslash ≠ colon)

theorem pathTokens_driveRoot {letter : WChar} (h : isLetter letter = true) :
    pathTokens (driveRoot letter) = [[letter, colon]] := by
  have hempty : ∀ name ∈ ([[]] : List WStr), backslash ∉ name := by simp
  have hsplit : (driveRoot letter).splitOn backslash = [[letter, colon], []] :=
    splitOn_append_flatMap hempty (backslash_notMem_drive h)
  rw [pathTokens, if_pos (by simp [driveRoot]), hsplit]
  simp [List.rdropWhile]

theorem backslash_notMem_map (names : List WindowsName) :
    ∀ name ∈ names.map (·.1), backslash ∉ name := by
  simp only [List.forall_mem_map]
  exact fun name _ => name.2.2

/-- On a drive, the pieces are the drive and the names… -/
theorem pathTokens_of_drive {letter : WChar} (h : isLetter letter = true) {names : List WindowsName}
    (hne : ∀ name ∈ names, name.1 ≠ []) :
    pathTokens (names.foldl (fun path name => fileChild path name.1) (driveRoot letter)) =
      [letter, colon] :: names.map (·.1) := by
  by_cases hnil : names = []
  · subst hnil
    exact pathTokens_driveRoot h
  rw [foldl_fileChild_driveRoot letter hnil hne]
  exact pathTokens_append_flatMap (backslash_notMem_drive h) (backslash_notMem_map names)
    (fun h0 => hnil (List.map_eq_nil_iff.mp h0)) (List.forall_mem_map.mpr hne)

/-- …and on a share, two empty ones come first. -/
theorem pathTokens_of_unc {host : WindowsName} (hhost : host.1 ≠ []) {names : List WindowsName}
    (hne : ∀ name ∈ names, name.1 ≠ []) :
    pathTokens (names.foldl (fun path name => fileChild path name.1)
      (backslash :: backslash :: host.1)) = [] :: [] :: (host :: names).map (·.1) := by
  have hjoin : names.foldl (fun path name => fileChild path name.1)
      ([backslash, backslash] ++ host.1) =
        [backslash, backslash] ++ host.1 ++ (names.map (·.1)).flatMap (backslash :: ·) :=
    foldl_fileChild host.2.2 hhost hne
  have hsplit : (([] : WStr) ++ ([] :: (host :: names).map (·.1)).flatMap
      (backslash :: ·)).splitOn backslash = [] :: [] :: (host :: names).map (·.1) :=
    splitOn_append_flatMap
      (List.forall_mem_cons.mpr ⟨List.not_mem_nil, backslash_notMem_map (host :: names)⟩)
      List.not_mem_nil
  have hall : ∀ name ∈ (host :: names).map (·.1), name ≠ [] :=
    List.forall_mem_map.mpr (List.forall_mem_cons.mpr ⟨hhost, hne⟩)
  have hpath : backslash :: backslash :: host.1 ++ (names.map (·.1)).flatMap (backslash :: ·) =
      ([] : WStr) ++ ([] :: (host :: names).map (·.1)).flatMap (backslash :: ·) := by simp
  have hcut := hjoin.trans hpath
  rw [List.cons_append, List.cons_append, List.nil_append] at hcut
  rw [pathTokens, hcut, if_pos (by simp), hsplit, List.rdropWhile_eq_self_iff]
  intro hl
  rw [List.getLast_cons (by simp), List.getLast_cons (by simp)]
  exact fun h => hall _ (List.getLast_mem (by simp)) (of_decide_eq_true h)

end Pieces

/-! ## The two kinds of roots -/

section Roots

variable {disk : Disk}

theorem shows_createNodes (disk : Disk) : Rose.Shows (contents disk) (createNodes disk) :=
  (treeInv_init disk).shows

theorem done_createNodes (disk : Disk) : Rose.Done (contents disk) (createNodes disk) := by
  rw [createNodes_eq]
  exact (Rose.saturated_populate 2 _).1

/-- The root shows the drives of the system. -/
theorem driveRoot_mem_contents_iff {letter : WChar} :
    UserObject.file (driveRoot letter) ∈ contents disk (createNodes disk).val ↔
      letter ∈ disk.listRoots := by
  refine ⟨fun hm => ?_, fun hm => List.mem_map.mpr ⟨letter, hm, rfl⟩⟩
  obtain ⟨root, hr, heq⟩ := List.mem_map.mp hm
  obtain rfl : root = letter := by simpa [driveRoot] using heq
  exact hr

/-- A drive is the only one whose string ends with it. -/
theorem suffix_driveRoot (disk : Disk) (letter : WChar) {v : UserObject}
    (hv : v ∈ contents disk (createNodes disk).val) :
    needle 0 [letter, colon] <:+ v.toString ↔ v = .file (driveRoot letter) := by
  obtain ⟨root, -, rfl⟩ := List.mem_map.mp hv
  rw [needle_zero]
  refine ⟨fun h => ?_, fun h => by rw [h]; exact List.suffix_refl _⟩
  have heq := h.eq_of_length rfl
  exact congrArg _ heq.symm

/-- A loop that ends selects a chain of nodes for the whole path… -/
theorem navigates_of_selects {p : AbsolutePath} {r : NavigateResult}
    (hne : (createNodes disk).children ≠ [])
    (hloop : navigateLoop disk 0 (pathTokens p.toString) (createNodes disk) [] = some r)
    (hsel : Selects (createNodes disk) [] p.prefixes r) : Navigates disk p := by
  refine ⟨{ r with treePath := [] :: r.treePath }, ?_, rfl, hsel.chain, hsel.denotes, ?_⟩
  · rw [navigateTreeToPath, if_neg hne, hloop, Option.map_some]
  · have hlast : (r.treePath.map (denoted r.nodes)).getLast? = some (some (.file p.toString)) := by
      rw [hsel.denotes, List.getLast?_map, AbsolutePath.prefixes, List.getLast?_scanl,
        Option.map_some, AbsolutePath.toString]
    rw [List.getLast?_map] at hlast
    obtain ⟨q, hq, hdenoted⟩ := Option.map_eq_some_iff.mp hlast
    rw [List.getLast?_cons, hq, Option.getD_some, Option.bind_some, hdenoted]

/-- …and one that does not has been out of range. -/
theorem not_navigates_of_none {p : AbsolutePath}
    (hloop : navigateLoop disk 0 (pathTokens p.toString) (createNodes disk) [] = none) :
    ¬ Navigates disk p := by
  rintro ⟨r, hr, -⟩
  rw [navigateTreeToPath, hloop] at hr
  split at hr <;> simp at hr

/-- **On a drive** the navigation arrives exactly when each prefix is listed. -/
theorem navigates_drive_iff (disk : Disk) {letter : WChar} (h : isLetter letter = true)
    {names : List WindowsName} (hne : ∀ name ∈ names, name.1 ≠ []) :
    Navigates disk ⟨.drive letter h, names, hne⟩ ↔
      Navigable disk ⟨.drive letter h, names, hne⟩ := by
  have htokens : pathTokens (AbsolutePath.toString ⟨.drive letter h, names, hne⟩) =
      [letter, colon] :: names.map (·.1) := pathTokens_of_drive h hne
  have hroot := Rose.sub?_nil (createNodes disk)
  have hshows := shows_createNodes disk
  have hsearch := childEndingWith_cases _ _ hshows (done_createNodes disk)
    fun _ hv => suffix_driveRoot disk letter hv
  rw [driveRoot_mem_contents_iff] at hsearch
  rcases hsearch with ⟨hletter, i, child, hi, hchild, hval⟩ | ⟨hletter, hnone⟩
  · obtain ⟨-, hshows', filled, hfilled, hfval, hfdone⟩ := exists_filled hshows hroot hchild hval
    have hrest := navigateLoop_cases disk names 0 hshows' hfilled hfval hfdone
    have hloop := navigateLoop_of_some disk hroot hi (names.map (·.1))
    rcases hrest with ⟨hchain, r, hr, hsel⟩ | ⟨hchain, hr⟩
    · refine iff_of_true ?_ ⟨hletter, hchain⟩
      refine navigates_of_selects (List.ne_nil_of_mem (List.mem_of_getElem? hchild))
        (r := { r with treePath := ([] ++ [i]) :: r.treePath }) ?_ ?_
      · rw [htokens, hloop, hr, Option.map_some]
      · rw [AbsolutePath.prefixes, PathRoot.toString, scanl_fileChild_eq_cons]
        exact hsel.cons hshows hroot hchild hval
    · refine iff_of_false (not_navigates_of_none ?_) fun hnav => hchain hnav.2
      rw [htokens, hloop, hr, Option.map_none]
  · refine iff_of_false (not_navigates_of_none ?_) fun hnav => hletter hnav.1
    rw [htokens]
    exact navigateLoop_of_none hroot hnone _

/-- The names of a directory are not empty. -/
theorem fileChild_nil_notMem_contents (path : WStr) :
    UserObject.file (fileChild path []) ∉ contents disk (.file path) := by
  intro h
  obtain ⟨name, hne, -, heq⟩ := exists_name_of_mem_contents h
  exact hne (fileChild_inj.mp (UserObject.file.inj heq)).symm

/-- **On a share** it never does: the first empty piece takes it to a drive, the second out of
range. -/
theorem not_navigates_unc (disk : Disk) {host : WindowsName} (hhost : host.1 ≠ [])
    {names : List WindowsName} (hne : ∀ name ∈ names, name.1 ≠ []) :
    ¬ Navigates disk ⟨.unc host hhost, names, hne⟩ := by
  have htokens : pathTokens (AbsolutePath.toString ⟨.unc host hhost, names, hne⟩) =
      [] :: [] :: (host :: names).map (·.1) := pathTokens_of_unc hhost hne
  have hroot := Rose.sub?_nil (createNodes disk)
  have hshows := shows_createNodes disk
  refine not_navigates_of_none ?_
  rw [htokens]
  cases hi : childEndingWith (needle 0 []) (createNodes disk) with
  | none => exact navigateLoop_of_none hroot hi _
  | some i =>
    obtain ⟨child, hchild⟩ : ∃ child, (createNodes disk).children[i]? = some child :=
      ⟨_, List.getElem?_eq_getElem (List.findIdx?_eq_some_iff_getElem.mp hi).1⟩
    have hmem : child.val ∈ contents disk (createNodes disk).val := by
      rw [← Rose.map_val_children hshows (done_createNodes disk)]
      exact List.mem_map_of_mem (List.mem_of_getElem? hchild)
    obtain ⟨path, hval⟩ := exists_file_of_mem_contents hmem
    obtain ⟨-, hshows', filled, hfilled, hfval, hfdone⟩ := exists_filled hshows hroot hchild hval
    have hends (v : UserObject) (hv : v ∈ contents disk filled.val) :
        needle 1 [] <:+ v.toString ↔ v = .file (fileChild path []) := by
      rw [hfval] at hv
      exact suffix_of_mem_contents List.not_mem_nil hv
    have hsearch := childEndingWith_cases _ _ (hshows'.sub? hfilled) hfdone hends
    rw [hfval] at hsearch
    have hnone := (hsearch.resolve_left fun h => fileChild_nil_notMem_contents path h.1).2
    rw [navigateLoop_of_some disk hroot hi, navigateLoop_of_none hfilled hnone, Option.map_none]

end Roots

/-- **When the navigation arrives**: on a drive of the system, if each prefix of the path is among
the nodes that the one before gets. -/
theorem navigates_iff (disk : Disk) (p : AbsolutePath) : Navigates disk p ↔ Navigable disk p := by
  obtain ⟨root, names, hne⟩ := p
  cases root with
  | drive letter h => exact navigates_drive_iff disk h hne
  | unc host hhost => exact iff_of_false (not_navigates_unc disk hhost hne) id

/-- A system with the drive `C:` and a directory on a share. -/
def homeOnShare : Disk where
  listRoots := [67]
  isDirectory path := path = wide "C:\\" ∨ path = wide "\\\\server\\Music"
  list _ := none
  nodup _ _ h := absurd h (by simp)
  name_ne _ _ h := absurd h (by simp)

/-- The directory is there, but the navigation to it is out of range. -/
theorem not_navigates_homeOnShare :
    homeOnShare.isDirectory (AbsolutePath.toString
        ⟨.unc ⟨wide "server", by decide⟩ (by decide), [⟨wide "Music", by decide⟩], by decide⟩) =
      true ∧
    ¬ Navigates homeOnShare
      ⟨.unc ⟨wide "server", by decide⟩ (by decide), [⟨wide "Music", by decide⟩], by decide⟩ :=
  ⟨by decide, not_navigates_unc homeOnShare _ _⟩

end MtpRetag
