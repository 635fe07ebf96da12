import MtpRetag.Machinery.PathMap
import MtpRetag.Native.CreateFolder
import MtpRetag.Native.Kinds
import MtpRetag.Native.Walks

/-!
# Native/DeviceMap — an MTP device as a map from paths to items

Whoever calls the library thinks of a device as a map: a path, in whatever case it is spelled, leads
to one item or to none.  `items` reads the tree of storages as that map.

Each WMDM call that changes the tree is one edit of the map, and each function of the library is a
sequence of them: `items_walkFolders`, `items_transferMtp`, `items_createFolderMtp`,
`items_deleteMtpitem`, `items_updateMetadata`.
-/

namespace MtpRetag

/-! ## The map -/

/-- What a storage is told from its siblings by. -/
def nameKey (s : StorageInfo) : WStr := makeLower s.name

/-- What lies on a device. -/
abbrev DeviceMap := PathMap WStr StorageInfo

/-- The tree of a device as a map. -/
def items (t : Storage) : DeviceMap := t.look nameKey

/-- The names on the way that a path spells. -/
def pathNames (path : WStr) : List WStr :=
  if RootSpelling path then [] else (splitString path [slash] false).map cStr

/-- …ignoring case. -/
def pathKeys (path : WStr) : List WStr := (pathNames path).map makeLower

/-- An empty folder, as the library creates it. -/
def folderInfo (folder : WStr) : StorageInfo := ⟨folder, .folder, .empty, []⟩

section Map

variable {t n : Storage} {p : Pos} {names : List WStr} {path : WStr}

theorem nameMatches_eq (s : StorageInfo) (folder : WStr) :
    nameMatches s folder = decide (nameKey s = makeLower folder) := rfl

theorem closed_items (t : Storage) : PathMap.Closed (items t) := Rose.closed_look

theorem lookupPath_of_ne_nil (hne : path ≠ []) :
    lookupPath t path = Rose.resolve nameMatches (pathNames path) t := by
  rw [lookupPath, if_neg hne, pathNames]
  split <;> simp

theorem resolve_of_lookupPath (h : lookupPath t path = some p) :
    Rose.resolve nameMatches (pathNames path) t = some p := by
  have hne : path ≠ [] := by
    rintro rfl
    simp [lookupPath] at h
  rwa [lookupPath_of_ne_nil hne] at h

/-- The map says what a path leads to… -/
theorem items_of_lookupPath (h : lookupPath t path = some p) (hn : t.sub? p = some n) :
    items t (pathKeys path) = some n.val := by
  rw [items, pathKeys, Rose.look_map nameMatches_eq, resolve_of_lookupPath h, Option.bind_some, hn,
    Option.map_some]

/-- …or that it leads nowhere. -/
theorem items_of_lookupPath_none (hne : path ≠ []) (h : lookupPath t path = none) :
    items t (pathKeys path) = none := by
  rw [lookupPath_of_ne_nil hne] at h
  rw [items, pathKeys, Rose.look_map nameMatches_eq, h, Option.bind_none, Option.map_none]

/-- What lies one name below. -/
theorem items_below (hp : Rose.resolve nameMatches names t = some p) (hn : t.sub? p = some n)
    (k : WStr) :
    items t (names.map makeLower ++ [k]) =
      (n.children.find? fun c => nameKey c.val = k).map Rose.val := by
  rw [items, Rose.look_append nameMatches_eq hp hn, Rose.look_cons, Option.map_eq_bind]
  exact congrArg _ (funext fun c => Rose.look_nil c)

/-! ## One WMDM call -/

/-- Inserting a folder adds it, if no item of its name is there. -/
theorem items_insertFolder (hp : Rose.resolve nameMatches names t = some p) (folder : WStr) :
    items (t.modifyAt (insertFolder folder) p) =
      (items t).add (names.map makeLower ++ [makeLower folder]) (folderInfo folder) := by
  obtain ⟨n, hn⟩ := Rose.exists_sub?_of_resolve hp
  exact Rose.look_modifyAt_append nameMatches_eq (folderInfo folder) hp hn

/-- Inserting a file puts it in the place of the item of its name. -/
theorem items_insertFile {sameName : WStr → WStr → Bool}
    (hname : ∀ a b, sameName a b = decide (makeLower a = makeLower b)) (file : StorageInfo)
    (hp : Rose.resolve nameMatches names t = some p) :
    items (t.modifyAt (insertFile sameName file) p) =
      (items t).put (names.map makeLower ++ [makeLower file.name]) file := by
  obtain ⟨n, hn⟩ := Rose.exists_sub?_of_resolve hp
  refine Rose.look_modifyAt_put nameMatches_eq (f := insertFile sameName file) (fun _ => rfl) hp hn
    fun l => ?_
  have hmatch : (fun (s : StorageInfo) name => sameName s.name name) = nameMatches :=
    funext fun s => funext fun name => hname s.name name
  rw [insertFile, Rose.children_node, insertIndex, hmatch]
  cases hi : Rose.firstMatch nameMatches n.children file.name with
  | none =>
    have hfind : (n.children.find? fun c => nameKey c.val = nameKey file) = none := by
      rw [show nameKey file = makeLower file.name from rfl,
        Rose.find?_eq_of_firstMatch nameMatches_eq, hi, Option.bind_none]
    rw [Option.getD_none, if_neg (lt_irrefl _), List.find?_append]
    by_cases hl : l = nameKey file
    · subst hl
      rw [hfind, Option.none_or]
      simp
    · have hl' : ¬ nameKey file = l := fun h => hl h.symm
      simp [hl, hl']
  | some i =>
    obtain ⟨c, hc, hm⟩ := Rose.getElem?_of_firstMatch hi
    have hlt : i < n.children.length := (List.getElem?_eq_some_iff.mp hc).1
    rw [Option.getD_some, if_pos hlt, List.set_eq_modify]
    have hfirst : n.children.findIdx? (fun c => nameKey c.val = nameKey file) = some i := hi
    exact Rose.find?_modify (f := fun _ => .node file []) hfirst hc rfl l

/-- Storing metadata alters an item. -/
theorem items_setMetadata (hp : Rose.resolve nameMatches names t = some p) (spMeta : MetaData) :
    items (t.modifyAt (setMetadata spMeta) p) =
      (items t).alter (names.map makeLower) fun s => { s with metadata := spMeta } := by
  obtain ⟨n, hn⟩ := Rose.exists_sub?_of_resolve hp
  exact Rose.look_modifyAt_val nameMatches_eq (f := fun s => { s with metadata := spMeta })
    (fun _ => rfl) hp hn

/-- The item that a path leads to, and the child it is of the one before. -/
theorem exists_of_resolve_append {c : WStr}
    (h : Rose.resolve nameMatches (names ++ [c]) t = some p) :
    ∃ q n i d, Rose.resolve nameMatches names t = some q ∧ t.sub? q = some n ∧
      n.children[i]? = some d ∧ nameKey d.val = makeLower c ∧ p = q ++ [i] := by
  cases hq : Rose.resolve nameMatches names t with
  | none =>
    rw [Rose.resolve_append_of_none hq] at h
    simp at h
  | some q =>
    obtain ⟨n, hn⟩ := Rose.exists_sub?_of_resolve hq
    rw [Rose.resolve_append_singleton nameMatches c hq hn] at h
    obtain ⟨i, hi, rfl⟩ := Option.map_eq_some_iff.mp h
    obtain ⟨d, hd, hm⟩ := Rose.getElem?_of_firstMatch hi
    exact ⟨q, n, i, d, rfl, hn, hd, of_decide_eq_true hm, rfl⟩

theorem deleteAt_append_singleton (t : Storage) (p : Pos) (i : ℕ) :
    deleteAt t (p ++ [i]) = t.modifyAt (fun n => .node n.val (n.children.eraseIdx i)) p := by
  simp [deleteAt]

/-- Deleting an item removes it with all that is below it, where its siblings have other names. -/
theorem items_deleteAt (ht : DistinctSiblings t)
    (hp : Rose.resolve nameMatches names t = some p) :
    items (deleteAt t p) = (items t).remove (names.map makeLower) := by
  rcases List.eq_nil_or_concat' names with rfl | ⟨init, c, rfl⟩
  · obtain rfl : [] = p := by simpa using hp
    funext q
    cases q with
    | nil => simp [deleteAt, items, PathMap.remove]
    | cons l q => simp [deleteAt, items, PathMap.remove, Rose.look_cons]
  obtain ⟨p, n, i, d, hp', hn, hd, hkey, rfl⟩ := exists_of_resolve_append hp
  rw [deleteAt_append_singleton, List.map_append, List.map_singleton, ← hkey]
  refine Rose.look_modifyAt_remove nameMatches_eq
    (f := fun n => .node n.val (n.children.eraseIdx i)) (fun _ => rfl) hp' hn fun l => ?_
  by_cases hl : l = nameKey d.val
  · subst hl
    rw [if_pos rfl, Rose.children_node, Rose.find?_eraseIdx_self (ht hn) hd]
  · rw [if_neg hl, Rose.children_node, Rose.find?_eraseIdx_of_ne hd hl]

end Map

/-! ## Distinct siblings -/

section Distinct

variable {t n : Storage} {p : Pos}

theorem DistinctSiblings.sub? (ht : DistinctSiblings t) (hn : t.sub? p = some n) :
    DistinctSiblings n := fun {q m} hm =>
  ht (q := p ++ q) (by rw [Rose.sub?_append, hn, Option.bind_some, hm])

/-- Siblings are distinct in a tree if the children are, and in each of them. -/
theorem distinctSiblings_iff :
    DistinctSiblings t ↔ (t.children.map fun c => makeLower c.val.name).Nodup ∧
      ∀ c ∈ t.children, DistinctSiblings c := by
  constructor
  · intro h
    refine ⟨h (Rose.sub?_nil t), fun c hc => ?_⟩
    obtain ⟨i, hi⟩ := List.getElem?_of_mem hc
    exact h.sub? (p := [i]) (by simp [hi])
  · rintro ⟨hnodup, hbelow⟩ q n hn
    cases q with
    | nil =>
      obtain rfl : t = n := by simpa using hn
      exact hnodup
    | cons i q =>
      rw [Rose.sub?_cons] at hn
      obtain ⟨c, hc, hn⟩ := Option.bind_eq_some_iff.mp hn
      exact hbelow c (List.mem_of_getElem? hc) hn

theorem distinctSiblings_leaf (info : StorageInfo) : DistinctSiblings (.node info []) := by
  rw [distinctSiblings_iff]
  simp

/-- A rewrite under the same name keeps siblings distinct, if the new node has distinct ones. -/
theorem DistinctSiblings.modifyAt {f : Storage → Storage}
    (hname : ∀ n, (f n).val.name = n.val.name) :
    ∀ {p : Pos} {t n : Storage}, DistinctSiblings t → t.sub? p = some n → DistinctSiblings (f n) →
      DistinctSiblings (t.modifyAt f p)
  | [], t, n, _, hn, hf => by
      obtain rfl : t = n := by simpa using hn
      exact hf
  | i :: p, t, n, ht, hn, hf => by
      rw [Rose.sub?_cons] at hn
      obtain ⟨c, hc, hn⟩ := Option.bind_eq_some_iff.mp hn
      obtain ⟨hnodup, hbelow⟩ := distinctSiblings_iff.mp ht
      refine distinctSiblings_iff.mpr ⟨?_, fun d hd => ?_⟩
      · rwa [Rose.children_modifyAt_cons, names_modify _ i fun c => ?_]
        cases p with
        | nil => exact hname c
        | cons j p => rfl
      · rw [Rose.children_modifyAt_cons] at hd
        obtain ⟨j, hj⟩ := List.getElem?_of_mem hd
        rw [List.getElem?_modify] at hj
        obtain ⟨e, he, rfl⟩ := Option.map_eq_some_iff.mp hj
        by_cases hij : i = j
        · subst hij
          obtain rfl : c = e := Option.some.inj (hc.symm.trans he)
          rw [if_pos rfl]
          have hc' : DistinctSiblings c := hbelow c (List.mem_of_getElem? hc)
          exact DistinctSiblings.modifyAt hname hc' hn hf
        · rw [if_neg hij]
          exact hbelow e (List.mem_of_getElem? he)

/-- Stored metadata does not change a name… -/
theorem DistinctSiblings.setMetadata (ht : DistinctSiblings t) (hn : t.sub? p = some n)
    (spMeta : MetaData) : DistinctSiblings (t.modifyAt (setMetadata spMeta) p) := by
  have hsub := distinctSiblings_iff.mp (ht.sub? hn)
  apply DistinctSiblings.modifyAt (f := MtpRetag.setMetadata spMeta) (fun _ => rfl) ht hn
  rw [distinctSiblings_iff]
  exact hsub

/-- …a deletion takes one away… -/
theorem DistinctSiblings.deleteAt (ht : DistinctSiblings t) (hn : t.sub? p = some n) :
    DistinctSiblings (deleteAt t p) := by
  rcases List.eq_nil_or_concat' p with rfl | ⟨q, i, rfl⟩
  · exact distinctSiblings_leaf t.val
  rw [deleteAt_append_singleton]
  rw [Rose.sub?_append] at hn
  obtain ⟨m, hm, -⟩ := Option.bind_eq_some_iff.mp hn
  obtain ⟨hnodup, hbelow⟩ := distinctSiblings_iff.mp (ht.sub? hm)
  apply ht.modifyAt (f := fun n => .node n.val (n.children.eraseIdx i)) (fun _ => rfl) hm
  rw [distinctSiblings_iff]
  exact ⟨hnodup.sublist ((List.eraseIdx_sublist _ i).map _),
    fun c hc => hbelow c (List.mem_of_mem_eraseIdx hc)⟩

/-- …and a file takes the place of the one of its name, or has a name that no sibling has. -/
theorem DistinctSiblings.insertFile {sameName : WStr → WStr → Bool}
    (hname : ∀ a b, sameName a b = decide (makeLower a = makeLower b)) (ht : DistinctSiblings t)
    (hn : t.sub? p = some n) (file : StorageInfo) :
    DistinctSiblings (t.modifyAt (insertFile sameName file) p) := by
  obtain ⟨hnodup, hbelow⟩ := distinctSiblings_iff.mp (ht.sub? hn)
  have hleaf : DistinctSiblings (.node file []) := distinctSiblings_leaf file
  have hmatch : (fun (s : StorageInfo) name => sameName s.name name) = nameMatches :=
    funext fun s => funext fun name => hname s.name name
  apply DistinctSiblings.modifyAt (f := MtpRetag.insertFile sameName file) (fun _ => rfl) ht hn
  rw [distinctSiblings_iff, MtpRetag.insertFile, Rose.children_node, insertIndex, hmatch]
  cases hi : Rose.firstMatch nameMatches n.children file.name with
  | none =>
    rw [Option.getD_none, if_neg (lt_irrefl _), List.map_append]
    refine ⟨List.nodup_append.mpr ⟨hnodup, List.nodup_singleton _, ?_⟩, ?_⟩
    · rintro a ha b hb rfl
      obtain ⟨c, hc, hca⟩ := List.mem_map.mp ha
      have hne := Rose.firstMatch_eq_none.mp hi c hc
      obtain rfl : _ = makeLower file.name := List.mem_singleton.mp hb
      simp [nameMatches, hca] at hne
    · intro c hc
      rcases List.mem_append.mp hc with hc | hc
      · exact hbelow c hc
      · exact List.mem_singleton.mp hc ▸ hleaf
  | some i =>
    obtain ⟨c, hc, hm⟩ := Rose.getElem?_of_firstMatch hi
    have hlt : i < n.children.length := (List.getElem?_eq_some_iff.mp hc).1
    have hkey : makeLower c.val.name = makeLower file.name := of_decide_eq_true hm
    rw [Option.getD_some, if_pos hlt, List.map_set]
    refine ⟨?_, Pool.forall_mem_set hbelow hleaf⟩
    have hsame : (n.children.map fun c => makeLower c.val.name)[i]? =
        some (makeLower file.name) := by simp [hc, hkey]
    obtain ⟨hlt', heq⟩ := List.getElem?_eq_some_iff.mp hsame
    rwa [Rose.val_node, ← heq, List.set_getElem_self hlt']

/-- A folder behind siblings keeps them distinct exactly if none has its name. -/
theorem distinctSiblings_insertFolder_iff (ht : DistinctSiblings t) {names : List WStr}
    (hp : Rose.resolve nameMatches names t = some p) (folder : WStr) :
    DistinctSiblings (t.modifyAt (insertFolder folder) p) ↔
      items t (names.map makeLower ++ [makeLower folder]) = none := by
  obtain ⟨n, hn⟩ := Rose.exists_sub?_of_resolve hp
  rw [items_below hp hn, Option.map_eq_none_iff, List.find?_eq_none]
  constructor
  · intro h c hc hkey
    have hnew := (distinctSiblings_iff.mp
      (h.sub? (Rose.sub?_modifyAt_self (insertFolder folder) hn))).1
    rw [insertFolder, Rose.children_node, List.map_append] at hnew
    refine (List.nodup_append.mp hnew).2.2 _ (List.mem_map_of_mem hc) (makeLower folder) ?_ ?_
    · simp
    · exact of_decide_eq_true hkey
  · intro h
    exact ht.modifyAt_insertFolder hn fun c hc hkey => h c hc (decide_eq_true hkey)

end Distinct

/-! ## The functions of the library -/

/-- One edit of what lies on a device. -/
abbrev DeviceEdit := PathMap.Edit WStr StorageInfo

/-- The folders of a path, each added where it is missing; `ks` is where they are added. -/
def folderAdds : List WStr → List WStr → List DeviceEdit
  | _, [] => []
  | ks, c :: folders =>
    .add (ks ++ [makeLower c]) (folderInfo c) :: folderAdds (ks ++ [makeLower c]) folders

/-- The folders on the way to a destination. -/
def destFolders (dest : WStr) : List WStr := (splitString dest [slash] false).dropLast.map cStr

/-- Where `transfer_file` inserts a file. -/
def destKeys (dest : WStr) : List WStr :=
  (destFolders dest).map makeLower ++ [makeLower (cStr (fileName dest))]

/-- The file that `transfer_file` inserts, with the metadata object it made. -/
def sentInfo (w : World) (src dest : WStr) (spMeta : MetaData) : StorageInfo :=
  ⟨cStr (fileName dest), .file, spMeta, w.content (cStr src)⟩

/-- The edits of `transfer_file`: the folders on the way, then the file. -/
def sendEdits (w : World) (src dest : WStr) (spMeta : MetaData) : List DeviceEdit :=
  folderAdds [] (destFolders dest) ++ [.put (destKeys dest) (sentInfo w src dest spMeta)]

/-- The parent of `create_folder_mtp`, before the last slash. -/
def folderParent (fpath : WStr) : WStr := (findLastOf slash fpath).elim [] fpath.take

/-- …and the name behind it. -/
def folderTocreate (fpath : WStr) : WStr :=
  (findLastOf slash fpath).elim [] fun pos => fpath.drop (pos + 1)

/-- Where `create_folder_mtp` inserts a folder. -/
def createKeys (fpath : WStr) : List WStr :=
  pathKeys (cStr (folderParent fpath)) ++ [makeLower (cStr (folderTocreate fpath))]

/-- `create_folder_mtp` gets to its `Insert`, and the device accepts it. -/
def AcceptsFolder (hr : Outcomes) (t : Storage) (fpath : WStr) : Prop :=
  folderTocreate fpath ≠ [] ∧ ∃ p, lookupPath t (cStr (folderParent fpath)) = some p ∧
    ParentReached hr p ∧ Succeeded (hr (.insertFolder p))

/-- The walk of `transfer_file` to a destination. -/
def destWalk (hr : Outcomes) (t : Storage) (dest : WStr) : WalkResult :=
  walkFolders hr true sOk (splitString dest [slash] false).dropLast t (some []) 0

section Library

variable {hr : Outcomes} {t : Storage}

/-- **A walk to a destination** adds folders up to where it is cut short. -/
theorem items_walkFolders (hr : Outcomes) :
    ∀ (vpath : List WStr) {names : List WStr} {t : Storage} {p : Pos} (ret : HRESULT),
      Rose.resolve nameMatches names t = some p →
      ∃ es, es <+: folderAdds (names.map makeLower) (vpath.map cStr) ∧
        items (walkFolders hr true sOk vpath t (some p) ret).tree = (items t).edit es ∧
        ((walkFolders hr true sOk vpath t (some p) ret).storage ≠ .error sOk →
          es = folderAdds (names.map makeLower) (vpath.map cStr))
  | [], _, _, _, _, _ => ⟨[], List.prefix_rfl, rfl, fun _ => rfl⟩
  | c :: vpath, names, t, p, ret, hp => by
      obtain ⟨n, hn⟩ := Rose.exists_sub?_of_resolve hp
      have hkeys : (names ++ [cStr c]).map makeLower =
          names.map makeLower ++ [makeLower (cStr c)] := by simp
      rcases getSubstorage_cases hr hn (cStr c) true with
        ⟨i, hfind, hget⟩ | ⟨-, hcreate, hget⟩ | ⟨-, -, hnone, htree⟩
      · -- the folder is there
        rw [walkFolders_cons_of_some succeeded_sOk (by rw [hget]), hget]
        have hp' := resolve_snoc_of_finds hp hn hfind
        obtain ⟨es, hpre, heq, hall⟩ := items_walkFolders hr vpath 0 hp'
        obtain ⟨m, hm⟩ := Rose.exists_sub?_of_resolve hp'
        have hsome : (items t (names.map makeLower ++ [makeLower (cStr c)])).isSome := by
          rw [← hkeys, items, Rose.look_map nameMatches_eq, hp', Option.bind_some, hm]
          rfl
        rw [hkeys] at hpre hall
        refine ⟨.add _ (folderInfo (cStr c)) :: es, List.cons_prefix_cons.mpr ⟨rfl, hpre⟩, ?_,
          fun h => congrArg _ (hall h)⟩
        rw [heq, PathMap.edit_cons, PathMap.Edit.apply, PathMap.add_of_isSome hsome]
      · -- the folder is created
        rw [walkFolders_cons_of_some succeeded_sOk (by rw [hget]), hget]
        have hp' := resolve_snoc_of_creates hp hn hcreate
        obtain ⟨es, hpre, heq, hall⟩ := items_walkFolders hr vpath 0 hp'
        rw [hkeys] at hpre hall
        refine ⟨.add _ (folderInfo (cStr c)) :: es, List.cons_prefix_cons.mpr ⟨rfl, hpre⟩, ?_,
          fun h => congrArg _ (hall h)⟩
        rw [heq, items_insertFolder hp]
        rfl
      · -- the walk ends here
        refine ⟨[], List.nil_prefix, ?_,
          fun h => absurd (walkFolders_cons_of_none hnone vpath ret) h⟩
        rw [walkFolders, if_pos (.inr hnone), htree, PathMap.edit_nil]

/-- What `transfer_file` can do to the tree: nothing behind its walk, or the insertion of the
file. -/
theorem tree_transferMtp {w : World} {src dest : WStr} {metadata : Option FileMetadata}
    {r : TransferResult} (h : transferMtp w hr t src dest metadata = .ok r) :
    r.tree = (destWalk hr t dest).tree ∨
      ∃ q spMeta, (destWalk hr t dest).storage = .ok (some q) ∧
        r.tree = (destWalk hr t dest).tree.modifyAt
          (insertFile w.sameName (sentInfo w src dest spMeta)) q := by
  rw [transferMtp] at h
  split at h
  · simp at h
  change afterWalk w hr src dest metadata (hasProgress hr) (destWalk hr t dest) = .ok r at h
  generalize destWalk hr t dest = walk at h ⊢
  rw [afterWalk] at h
  split at h
  · obtain rfl := Except.ok.inj h
    exact .inl rfl
  · obtain rfl := Except.ok.inj h
    exact .inl rfl
  case _ q hq =>
    rcases missing_or_queries hr q with hmiss | ⟨h3, hc⟩
    · rw [insertInto_of_missing hmiss] at h
      obtain rfl := Except.ok.inj h
      exact .inl rfl
    · rw [insertInto_of_queries h3 hc] at h
      split at h
      · simp at h
      case _ spMeta accepted hmd =>
        obtain rfl := Except.ok.inj h
        rw [insert3]
        split
        · exact .inr ⟨q, spMeta, hq, rfl⟩
        · exact .inl rfl

/-- The walk of a destination, from the root. -/
theorem items_destWalk (hr : Outcomes) (t : Storage) (dest : WStr) :
    ∃ es, es <+: folderAdds [] (destFolders dest) ∧
      items (destWalk hr t dest).tree = (items t).edit es ∧
      ∀ q, (destWalk hr t dest).storage = .ok (some q) →
        es = folderAdds [] (destFolders dest) ∧
          Rose.resolve nameMatches (destFolders dest) (destWalk hr t dest).tree = some q := by
  have hroot : t.sub? [] = some t := Rose.sub?_nil t
  obtain ⟨es, hpre, heq, hall⟩ := items_walkFolders hr (splitString dest [slash] false).dropLast 0
    (Rose.resolve_nil nameMatches t)
  refine ⟨es, hpre, heq, fun q hq => ⟨hall ?_, ?_⟩⟩
  · rw [destWalk] at hq
    simp [hq]
  · have hwalks := (walkFolders_storage_iff hroot).mp hq
    have hres := resolve_walkFolders hwalks hroot rfl (Rose.resolve_nil nameMatches t)
    rwa [List.nil_append] at hres

/-- **What `transfer_file` does to the map**: its edits up to where it is cut short. -/
theorem items_transferMtp {w : World} {src dest : WStr} {metadata : Option FileMetadata}
    {r : TransferResult} (hname : ∀ a b, w.sameName a b = decide (makeLower a = makeLower b))
    (h : transferMtp w hr t src dest metadata = .ok r) :
    ∃ spMeta es, es <+: sendEdits w src dest spMeta ∧ items r.tree = (items t).edit es := by
  obtain ⟨es, hpre, heq, harrives⟩ := items_destWalk hr t dest
  rcases tree_transferMtp h with htree | ⟨q, spMeta, hq, htree⟩
  · exact ⟨.empty, es, hpre.trans (List.prefix_append _ _), by rw [htree, heq]⟩
  · obtain ⟨rfl, hres⟩ := harrives q hq
    refine ⟨spMeta, _, List.prefix_rfl, ?_⟩
    rw [htree, items_insertFile hname _ hres, heq, sendEdits, PathMap.edit_append]
    rfl

/-- …which is all of them when `Insert3` returned `S_OK`. -/
theorem items_transferMtp_inserted {w : World} {src dest : WStr} {m : FileMetadata}
    {r : TransferResult} (hname : ∀ a b, w.sameName a b = decide (makeLower a = makeLower b))
    (h : transferMtp w hr t src dest (some m) = .ok r) (hins : r.insert3 = some sOk) :
    ∃ q spMeta, transferMetadata hr q (some m) = .ok (spMeta, r.accepted) ∧
      items r.tree = (items t).edit (sendEdits w src dest spMeta) := by
  obtain ⟨-, q, tree, n, spMeta, hres, htree, hwalks, -, hmd, hr3, -⟩ := transferMtp_inserted h hins
  obtain ⟨es, -, heq, harrives⟩ := items_destWalk hr t dest
  obtain ⟨rfl, -⟩ := harrives q ((walkFolders_storage_iff (Rose.sub?_nil t)).mpr hwalks)
  refine ⟨q, spMeta, hmd, ?_⟩
  rw [destWalk] at heq
  rw [hr3, items_insertFile hname _ hres, htree, heq, sendEdits, PathMap.edit_append]
  rfl

/-- A walk that may create folders arrives, if no call fails. -/
theorem exists_walks (hok : ∀ c, Succeeded (hr c)) :
    ∀ (vpath : List WStr) (p : Pos) (cs : List Storage), ∃ q, Walks hr true p cs vpath q
  | [], p, cs => ⟨p, .here p cs⟩
  | c :: vpath, p, cs => by
      cases hi : Rose.firstMatch nameMatches cs (cStr c) with
      | some i =>
        obtain ⟨n, hn, -⟩ := Rose.getElem?_of_firstMatch hi
        obtain ⟨q, hq⟩ := exists_walks hok vpath (p ++ [i]) n.children
        exact ⟨q, .found ⟨hok _, fun _ _ => ⟨hok _, hok _⟩, hi⟩ hn hq⟩
      | none =>
        obtain ⟨q, hq⟩ := exists_walks hok vpath (p ++ [cs.length]) []
        exact ⟨q, .created rfl
          ⟨hok _, fun _ _ => ⟨hok _, hok _⟩, hok _, hi, hok _, hok _, hok _⟩ hq⟩

/-- **A transfer that nothing hinders** does all its edits, with all the metadata. -/
theorem items_transferMtp_of_ok {w : World} {dest : WStr} (src : WStr) (m : FileMetadata)
    (hname : ∀ a b, w.sameName a b = decide (makeLower a = makeLower b)) (hok : ∀ c, hr c = sOk)
    (hne : dest ≠ []) :
    ∃ r, transferMtp w hr t src dest (some m) = .ok r ∧ r.ret = 0 ∧
      items r.tree =
        (items t).edit (sendEdits w src dest (addItems hr .empty (transferItems m))) := by
  have hsucc : ∀ c, Succeeded (hr c) := fun c => by rw [hok c]; exact succeeded_sOk
  obtain ⟨q, hq⟩ := exists_walks hsucc (splitString dest [slash] false).dropLast [] t.children
  have hstorage := (walkFolders_storage_iff (Rose.sub?_nil t)).mpr hq
  have hret := (walkFolders_of_walks hq (Rose.sub?_nil t) rfl).2
  obtain ⟨r, hrun, hcases⟩ := insertInto_cases w hr
    (walkFolders hr true sOk (splitString dest [slash] false).dropLast t (some []) 0).tree src
    (fileName dest) m q (hasProgress hr)
  have htransfer : transferMtp w hr t src dest (some m) = .ok r := by
    rw [transferMtp_of_ne_nil hne, afterWalk, hstorage, hret]
    exact hrun
  obtain ⟨hzero, hins⟩ : r.ret = 0 ∧ r.insert3 = some sOk := by
    rcases hcases with ⟨hmiss, -, -⟩ | ⟨-, -, hzero, hins⟩
    · exact absurd hmiss (by simp [hsucc])
    · exact ⟨hzero, by rw [hins, hok]⟩
  obtain ⟨q', spMeta, hmd, hitems⟩ := items_transferMtp_inserted hname htransfer hins
  rw [transferMetadata, if_pos (hok _)] at hmd
  obtain ⟨rfl, -⟩ := Prod.mk.inj (Except.ok.inj hmd)
  exact ⟨r, htransfer, hzero, hitems⟩

theorem DistinctSiblings.transferMtp {w : World} {src dest : WStr}
    {metadata : Option FileMetadata} {r : TransferResult}
    (hname : ∀ a b, w.sameName a b = decide (makeLower a = makeLower b)) (ht : DistinctSiblings t)
    (h : transferMtp w hr t src dest metadata = .ok r) : DistinctSiblings r.tree := by
  have hwalk : DistinctSiblings (destWalk hr t dest).tree :=
    (keeps_of_reflTransGen (addsMissing_walkFolders hr _ 0
      (Rose.resolve_nil nameMatches t))).distinctSiblings ht
  rcases tree_transferMtp h with htree | ⟨q, spMeta, hq, htree⟩
  · rwa [htree]
  · obtain ⟨es, -, -, harrives⟩ := items_destWalk hr t dest
    obtain ⟨n, hn⟩ := Rose.exists_sub?_of_resolve (harrives q hq).2
    rw [htree]
    apply hwalk.insertFile hname hn

/-- **What `create_folder_mtp` does to the tree**: where the device accepts it, one folder. -/
theorem tree_createFolderMtp (hr : Outcomes) (t : Storage) (fpath : WStr) :
    (¬ AcceptsFolder hr t fpath ∧ (createFolderMtp hr t fpath).tree = t) ∨
      ∃ p, lookupPath t (cStr (folderParent fpath)) = some p ∧ AcceptsFolder hr t fpath ∧
        (createFolderMtp hr t fpath).tree =
          t.modifyAt (insertFolder (cStr (folderTocreate fpath))) p := by
  have h0 := zero_notMem_cStr (folderParent fpath)
  rw [createFolderMtp]
  split
  case isTrue hname =>
    refine .inl ⟨?_, rfl⟩
    rintro ⟨hne, -⟩
    exact hne (List.length_eq_zero_iff.mp hname)
  case isFalse hname =>
  have hne : folderTocreate fpath ≠ [] := fun h => hname (List.length_eq_zero_iff.mpr h)
  split
  case isTrue hparent =>
    refine .inl ⟨?_, rfl⟩
    rintro ⟨-, p, hp, -⟩
    rw [show folderParent fpath = [] from List.length_eq_zero_iff.mp hparent] at hp
    simp [lookupPath, cStr] at hp
  case isFalse =>
  split
  case _ ret p hget =>
    obtain ⟨hp, hret⟩ := lookupPath_of_getStorageBypath (congrArg Prod.snd hget)
    rw [hget] at hret
    obtain rfl : ret = 0 := hret
    have hcalls := ((getStorageBypath_eq_iff h0).mp hget).2
    have hone : AcceptsFolder hr t fpath ↔
        hr (.queryControl p) = sOk ∧ Succeeded (hr (.insertFolder p)) := by
      constructor
      · rintro ⟨-, q, hq, hreach, hins⟩
        obtain rfl : p = q := Option.some.inj (hp.symm.trans hq)
        exact ⟨hreach.2, hins⟩
      · exact fun h => ⟨hne, p, hp, ⟨hcalls, h.1⟩, h.2⟩
    split
    case isTrue hcond =>
      by_cases hins : Succeeded (hr (.insertFolder p))
      · exact .inr ⟨p, hp, hone.mpr ⟨hcond.2, hins⟩, by simp only [if_pos hins]; rfl⟩
      · exact .inl ⟨fun h => hins (hone.mp h).2, by simp only [if_neg hins]⟩
    case isFalse hcond => exact .inl ⟨fun h => hcond ⟨rfl, (hone.mp h).1⟩, rfl⟩
  case _ ret hget =>
    refine .inl ⟨?_, rfl⟩
    rintro ⟨-, p, hp, hreach, -⟩
    have hfound := (getStorageBypath_eq_iff h0).mpr ⟨hp, hreach.1⟩
    exact absurd (hget.symm.trans hfound) (by simp)

/-- **What `create_folder_mtp` does to the map**, if anything. -/
theorem items_createFolderMtp (hr : Outcomes) (t : Storage) (fpath : WStr) :
    ∃ es, es <+: [.add (createKeys fpath) (folderInfo (cStr (folderTocreate fpath)))] ∧
      items (createFolderMtp hr t fpath).tree = (items t).edit es := by
  rcases tree_createFolderMtp hr t fpath with ⟨-, htree⟩ | ⟨p, hp, -, htree⟩
  · exact ⟨[], List.nil_prefix, by rw [htree, PathMap.edit_nil]⟩
  · refine ⟨_, List.prefix_rfl, ?_⟩
    rw [htree, items_insertFolder (resolve_of_lookupPath hp)]
    rfl

/-- What `delete_mtpitem` can do to the tree. -/
theorem tree_deleteMtpitem (hr : Outcomes) (t : Storage) (fpath : WStr) :
    ((deleteMtpitem hr t fpath).bResult = false ∧ (deleteMtpitem hr t fpath).tree = t) ∨
      ∃ p, lookupPath t (cStr fpath) = some p ∧ (deleteMtpitem hr t fpath).tree = deleteAt t p := by
  rw [deleteMtpitem]
  split
  case _ ret p hget =>
    split
    case isTrue hcond =>
      by_cases hdel : Succeeded (hr (.delete p))
      · refine .inr ⟨p, (lookupPath_of_getStorageBypath (by rw [hget])).1, ?_⟩
        simp only [if_pos hdel]
      · refine .inl ⟨?_, by simp only [if_neg hdel]⟩
        exact decide_eq_false fun h => hdel (h ▸ succeeded_sOk)
    case isFalse => exact .inl ⟨rfl, rfl⟩
  · exact .inl ⟨rfl, rfl⟩

/-- **What `delete_mtpitem` does to the map**, if anything. -/
theorem items_deleteMtpitem (hr : Outcomes) (ht : DistinctSiblings t) (fpath : WStr) :
    ∃ es, es <+: [.remove (pathKeys (cStr fpath))] ∧
      items (deleteMtpitem hr t fpath).tree = (items t).edit es := by
  rcases tree_deleteMtpitem hr t fpath with ⟨-, htree⟩ | ⟨p, hp, htree⟩
  · exact ⟨[], List.nil_prefix, by rw [htree, PathMap.edit_nil]⟩
  · refine ⟨_, List.prefix_rfl, ?_⟩
    rw [htree, items_deleteAt ht (resolve_of_lookupPath hp)]
    rfl

/-- What `update_metadata` can do to the tree. -/
theorem tree_updateMetadata (hr : Outcomes) (usbdev : UsbDevice) (path : WStr) (m : FileMetadata) :
    (usbdev.updateMetadata hr path m).tree = usbdev.rootStorage ∨
      ∃ p spMeta, lookupPath usbdev.rootStorage (cStr path) = some p ∧
        (usbdev.updateMetadata hr path m).tree =
          usbdev.rootStorage.modifyAt (setMetadata spMeta) p := by
  rw [UsbDevice.updateMetadata]
  split
  · exact .inl rfl
  split
  · exact .inl rfl
  case _ ret p hget =>
    split
    · exact .inl rfl
    split
    · exact .inl rfl
    split
    · exact .inl rfl
    rw [fillAndSet]
    split
    · exact .inl rfl
    dsimp only
    split
    · exact .inr ⟨p, _, (lookupPath_of_getStorageBypath (by rw [hget])).1, rfl⟩
    · exact .inl rfl

/-- **What `update_metadata` does to the map**, if anything. -/
theorem items_updateMetadata (hr : Outcomes) (usbdev : UsbDevice) (path : WStr)
    (m : FileMetadata) :
    ∃ spMeta es, es <+: [.alter (pathKeys (cStr path)) fun s => { s with metadata := spMeta }] ∧
      items (usbdev.updateMetadata hr path m).tree = (items usbdev.rootStorage).edit es := by
  rcases tree_updateMetadata hr usbdev path m with htree | ⟨p, spMeta, hp, htree⟩
  · exact ⟨.empty, [], List.nil_prefix, by rw [htree, PathMap.edit_nil]⟩
  · refine ⟨spMeta, _, List.prefix_rfl, ?_⟩
    rw [htree, items_setMetadata (resolve_of_lookupPath hp)]
    rfl

end Library

end MtpRetag
