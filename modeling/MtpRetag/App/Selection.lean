import MtpRetag.App.CopyList

/-!
# App/Selection — adding the selected nodes

`addTreeSelectionToList` calls `addNodeToList` for one selected node after the other and drops what
it returns.  The recursion over a file tree adds the mp3 files it gets to one after the other, up to
a refusal (`addNodeToList_eq_addPaths`), and one call shows the warning at most once (`Ledger`).

Two things go wrong: a refused file is added all the same, and the selection goes on behind it
(`stopsAtRefusal_iff`); and an unlistable directory ends everything (`skipsUnlistable_iff`).
-/

namespace MtpRetag

/-- A selected node: its string, and the file tree it denotes. -/
abbrev SelectedNode := WindowsPath × FileTree

/-- `addTreeSelectionToList`, and whether it returns.  An exception leaves its loop. -/
def addTreeSelectionToList : List SelectedNode → AddState → Bool × AddState
  | [], s => (true, s)
  | thisPath :: treePaths, s =>
    match addNodeToList thisPath.1.1 thisPath.2 s with
    | (.returned _, s') => addTreeSelectionToList treePaths s'
    | (.threw, s') => (false, s')

/-! ## The dialogs -/

/-- A warning about a long list: the list at the moment it is shown, and the answer. -/
structure Dialog where
  listModel : List WStr
  ok : Bool
  deriving DecidableEq, Repr

/-- The dialog of `addNodeToList` on a file, -/
def fileDialogs (pathToAdd : WStr) (s : AddState) : List Dialog :=
  if wide "mp3" <:+ pathToAdd ∧ ¬ s.listModel.contains pathToAdd ∧
      s.listModel.length = warningNumberOfFiles then
    [⟨s.listModel, s.answers.headD true⟩]
  else []

mutual

/-- …on a node of the file tree, -/
def nodeDialogs (pathToAdd : WStr) : FileTree → AddState → List Dialog
  | .node info children, s =>
    match info.2 with
    | .file => fileDialogs pathToAdd s
    | .directory => childrenDialogs pathToAdd children s
    | .unlistable | .neither => []

def childrenDialogs (pathToAdd : WStr) : List FileTree → AddState → List Dialog
  | [], _ => []
  | thisChild :: children, s =>
    nodeDialogs (childPath pathToAdd thisChild.val.1) thisChild s ++
      match addNodeToList (childPath pathToAdd thisChild.val.1) thisChild s with
      | (.returned true, s') => childrenDialogs pathToAdd children s'
      | _ => []

end

/-- …and of `addTreeSelectionToList`. -/
def selectionDialogs : List SelectedNode → AddState → List Dialog
  | [], _ => []
  | thisPath :: treePaths, s =>
    nodeDialogs thisPath.1.1 thisPath.2 s ++
      match addNodeToList thisPath.1.1 thisPath.2 s with
      | (.returned _, s') => selectionDialogs treePaths s'
      | (.threw, _) => []

/-- What a call tells of its dialogs: none, and the list does not pass the limit; or one, at the
limit, which takes the first answer. -/
inductive Ledger (s : AddState) : List Dialog → AddState → Prop
  | none {s' : AddState} (hanswers : s'.answers = s.answers)
      (hle : s.listModel.length ≤ s'.listModel.length)
      (hlimit : s'.listModel.length ≤ warningNumberOfFiles ∨
        warningNumberOfFiles < s.listModel.length) : Ledger s [] s'
  | one {s' : AddState} {d : Dialog} (hok : d.ok = s.answers.headD true)
      (hd : d.listModel.length = warningNumberOfFiles)
      (hle : s.listModel.length ≤ warningNumberOfFiles)
      (hlimit : warningNumberOfFiles < s'.listModel.length) : Ledger s [d] s'

section Ledger

variable {s s' s'' : AddState} {ds ds' : List Dialog}

theorem Ledger.refl (s : AddState) : Ledger s [] s :=
  .none rfl le_rfl (le_or_gt _ _)

theorem Ledger.le (h : Ledger s ds s') : s.listModel.length ≤ s'.listModel.length := by
  cases h with
  | none _ hle => exact hle
  | one _ _ hle hlimit => exact hle.trans hlimit.le

/-- Calls one after the other show at most one dialog together: behind the first one the list is
beyond the limit. -/
theorem Ledger.trans (h : Ledger s ds s') (h' : Ledger s' ds' s'') : Ledger s (ds ++ ds') s'' := by
  have hle := h.le
  have hle' := h'.le
  cases h with
  | none hanswers _ hlimit =>
    cases h' with
    | none hanswers' _ hlimit' =>
      exact .none (hanswers'.trans hanswers) (hle.trans hle') (by omega)
    | one hok hd hlow hlimit' => exact .one (hanswers ▸ hok) hd (by omega) hlimit'
  | one hok hd hlow hlimit =>
    cases h' with
    | none => exact .one hok hd hlow (by omega)
    | one _ _ hlow' => omega

/-- What the ledger says of a refusal: the list goes on beyond the dialog. -/
theorem Ledger.stops_iff (h : Ledger s ds s') :
    ((∀ d ∈ ds, d.ok = false → s'.listModel = d.listModel) ∧
      (s.listModel.length ≤ warningNumberOfFiles → warningNumberOfFiles < s'.listModel.length →
        ∃ d ∈ ds, d.ok = true)) ↔
      ¬ (s.answers.headD true = false ∧ s.listModel.length ≤ warningNumberOfFiles ∧
        warningNumberOfFiles < s'.listModel.length) := by
  cases h with
  | none _ _ hlimit =>
    refine iff_of_true ⟨by simp, fun hle hlt => ?_⟩ fun h => ?_
    · omega
    · omega
  | @one _ d hok hd hle hlimit =>
    constructor
    · rintro ⟨hstops, -⟩ ⟨hanswer, -⟩
      rw [hstops d (List.mem_singleton_self d) (hok.trans hanswer)] at hlimit
      omega
    · intro hno
      have htrue : d.ok = true := by
        rw [hok]
        exact eq_true_of_ne_false fun hanswer => hno ⟨hanswer, hle, hlimit⟩
      refine ⟨fun e he hfalse => ?_, fun _ _ => ⟨d, List.mem_singleton_self d, htrue⟩⟩
      obtain rfl := List.mem_singleton.mp he
      exact absurd (htrue.symm.trans hfalse) (by decide)

theorem ledger_addFile (path : WStr) (s : AddState) :
    Ledger s (fileDialogs path s) (addFile path s).2 := by
  simp only [addFile, fileDialogs, List.contains_iff_mem]
  by_cases hmp3 : wide "mp3" <:+ path
  case neg => simpa [hmp3] using Ledger.refl s
  by_cases hmem : path ∈ s.listModel
  · simpa [hmp3, hmem] using Ledger.refl s
  by_cases hwarn : s.listModel.length = warningNumberOfFiles
  · simp only [hmp3, hmem, hwarn, not_true_eq_false, not_false_eq_true, and_self, if_true, if_false]
    exact .one rfl hwarn hwarn.le (by simp [hwarn])
  · simp only [hmp3, hmem, hwarn, not_true_eq_false, and_false, if_false]
    exact .none rfl (by simp) (by rw [List.length_append, List.length_singleton]; omega)

mutual

theorem ledger_addNodeToList (path : WStr) :
    ∀ (t : FileTree) (s : AddState), Ledger s (nodeDialogs path t s) (addNodeToList path t s).2
  | .node info children, s => by
      rw [addNodeToList, nodeDialogs]
      cases info.2 with
      | file => exact ledger_addFile path s
      | directory => exact ledger_addChildren path children s
      | unlistable | neither => exact .refl s

theorem ledger_addChildren (path : WStr) :
    ∀ (ts : List FileTree) (s : AddState),
      Ledger s (childrenDialogs path ts s) (addChildren path ts s).2
  | [], s => .refl s
  | t :: ts, s => by
      have hchild := ledger_addNodeToList (childPath path t.val.1) t s
      rw [addChildren, childrenDialogs]
      rcases heq : addNodeToList (childPath path t.val.1) t s with ⟨_ | _, s'⟩
      case returned b =>
        rw [heq] at hchild
        cases b with
        | false => simpa using hchild
        | true => exact hchild.trans (ledger_addChildren path ts s')
      case threw =>
        rw [heq] at hchild
        simpa using hchild

end

/-- **One call, one dialog.** -/
theorem ledger_addTreeSelectionToList :
    ∀ (treePaths : List SelectedNode) (s : AddState),
      Ledger s (selectionDialogs treePaths s) (addTreeSelectionToList treePaths s).2
  | [], s => .refl s
  | node :: treePaths, s => by
      have hnode := ledger_addNodeToList node.1.1 node.2 s
      rw [addTreeSelectionToList, selectionDialogs]
      rcases heq : addNodeToList node.1.1 node.2 s with ⟨_ | _, s'⟩
      case returned b =>
        rw [heq] at hnode
        exact hnode.trans (ledger_addTreeSelectionToList treePaths s')
      case threw =>
        rw [heq] at hnode
        simpa using hnode

end Ledger

/-! ## The walk as a list -/

/-- Adding paths one after the other up to a refusal, and whether there was none. -/
def addPaths : List WStr → AddState → Bool × AddState
  | [], s => (true, s)
  | f :: fs, s =>
    if (addFile f s).1 = .returned true then addPaths fs (addFile f s).2
    else (false, (addFile f s).2)

/-- The mp3 files that the walk from a node gets to. -/
def SelectedNode.paths (node : SelectedNode) : List WStr :=
  mp3Paths node.1.1 (regularFiles node.2).1

/-- Adding these paths takes the list beyond the limit, -/
def Exceeds (l fs : List WStr) : Prop :=
  l.length ≤ warningNumberOfFiles ∧ warningNumberOfFiles < (fs.foldl addNew l).length

instance (l fs : List WStr) : Decidable (Exceeds l fs) := inferInstanceAs (Decidable (_ ∧ _))

/-- …and the user is going to refuse that. -/
def Refuses (s : AddState) (fs : List WStr) : Prop :=
  s.answers.headD true = false ∧ Exceeds s.listModel fs

instance (s : AddState) (fs : List WStr) : Decidable (Refuses s fs) :=
  inferInstanceAs (Decidable (_ ∧ _))

section Paths

variable {s : AddState} {fs : List WStr}

theorem addPaths_append (fs gs : List WStr) :
    ∀ s : AddState, addPaths (fs ++ gs) s =
      if (addPaths fs s).1 then addPaths gs (addPaths fs s).2 else addPaths fs s := by
  induction fs with
  | nil => intro s; simp [addPaths]
  | cons f fs ih =>
    intro s
    rw [List.cons_append, addPaths, addPaths]
    split
    · exact ih _
    · simp

theorem addFile_of_not_mp3 {path : WStr} (h : ¬ wide "mp3" <:+ path) (s : AddState) :
    addFile path s = (.returned true, s) := by
  rw [addFile, if_pos h]

/-- A call on a file returns. -/
theorem exists_returned_addFile (path : WStr) (s : AddState) :
    ∃ b, (addFile path s).1 = .returned b := by
  rw [addFile]
  split
  · exact ⟨_, rfl⟩
  · split
    · exact ⟨_, rfl⟩
    · split <;> exact ⟨_, rfl⟩

/-- How the call on a node ends: at a refusal, at an unlistable directory, or at its end. -/
def walkOutcome (confirmed complete : Bool) : AddOutcome :=
  if confirmed then (if complete then .returned true else .threw) else .returned false

theorem addFile_eq_addPaths (path : WStr) (s : AddState) :
    addFile path s = (walkOutcome (addPaths (mp3Paths path [[]]) s).1 true,
      (addPaths (mp3Paths path [[]]) s).2) := by
  rw [mp3Paths_nil]
  by_cases hmp3 : wide "mp3" <:+ path
  case neg => rw [if_neg hmp3, addFile_of_not_mp3 hmp3]; rfl
  obtain ⟨b, hb⟩ := exists_returned_addFile path s
  rw [if_pos hmp3, addPaths, hb]
  cases b with
  | true => exact Prod.ext hb rfl
  | false => exact Prod.ext hb rfl

mutual

/-- **The recursion adds a list of paths.** -/
theorem addNodeToList_eq_addPaths (path : WStr) :
    ∀ (t : FileTree) (s : AddState), addNodeToList path t s =
      (walkOutcome (addPaths (mp3Paths path (regularFiles t).1) s).1 (regularFiles t).2,
        (addPaths (mp3Paths path (regularFiles t).1) s).2)
  | .node info children, s => by
      rw [addNodeToList, regularFiles]
      cases info.2 with
      | file => exact addFile_eq_addPaths path s
      | directory => exact addChildren_eq_addPaths path children s
      | unlistable | neither => rfl

theorem addChildren_eq_addPaths (path : WStr) :
    ∀ (ts : List FileTree) (s : AddState), addChildren path ts s =
      (walkOutcome (addPaths (mp3Paths path (regularFilesIn ts).1) s).1 (regularFilesIn ts).2,
        (addPaths (mp3Paths path (regularFilesIn ts).1) s).2)
  | [], s => rfl
  | t :: ts, s => by
      rw [addChildren, addNodeToList_eq_addPaths, regularFilesIn]
      cases hcomplete : (regularFiles t).2 with
      | false =>
        rw [if_neg Bool.false_ne_true, mp3Paths_map_cons]
        cases (addPaths (mp3Paths (childPath path t.val.1) (regularFiles t).1) s).1 <;> rfl
      | true =>
        rw [if_pos rfl, mp3Paths_append, mp3Paths_map_cons, addPaths_append]
        cases hconfirmed :
          (addPaths (mp3Paths (childPath path t.val.1) (regularFiles t).1) s).1 with
        | false => rw [if_neg Bool.false_ne_true, hconfirmed]; rfl
        | true => rw [if_pos rfl]; exact addChildren_eq_addPaths path ts _

end

theorem length_le_foldl_addNew (fs l : List WStr) : l.length ≤ (fs.foldl addNew l).length := by
  obtain ⟨added, heq, -⟩ := foldl_addNew fs l
  rw [heq, List.length_append]
  exact Nat.le_add_right _ _

/-- A path that is not the one at the limit leaves open whether the limit is passed. -/
theorem exceeds_cons {f : WStr} {l : List WStr}
    (h : f ∈ l ∨ l.length ≠ warningNumberOfFiles) (fs : List WStr) :
    Exceeds l (f :: fs) ↔ Exceeds (addNew l f) fs := by
  refine and_congr_left fun _ => ?_
  rw [addNew]
  split
  · exact Iff.rfl
  next hmem =>
    have hne := h.resolve_left hmem
    rw [List.length_append, List.length_singleton]
    omega

/-- The path at the limit is the one that passes it. -/
theorem exceeds_cons_of_eq {f : WStr} {l : List WStr} (hmem : f ∉ l)
    (hlimit : l.length = warningNumberOfFiles) (fs : List WStr) : Exceeds l (f :: fs) := by
  refine ⟨hlimit.le, ?_⟩
  have hle := length_le_foldl_addNew fs (addNew l f)
  rw [addNew, if_neg hmem, List.length_append, List.length_singleton] at hle
  rw [List.foldl_cons, addNew, if_neg hmem]
  omega

/-- **What adding a list does**: without a refusal all new paths are added, and the limit takes an
answer if it is passed; a refusal leaves the list beyond it. -/
theorem addPaths_cases :
    ∀ {fs : List WStr} (s : AddState), (∀ f ∈ fs, wide "mp3" <:+ f) →
      (¬ Refuses s fs ∧ addPaths fs s = (true, ⟨fs.foldl addNew s.listModel,
        if Exceeds s.listModel fs then s.answers.tail else s.answers⟩)) ∨
      (Refuses s fs ∧ (addPaths fs s).1 = false ∧
        warningNumberOfFiles < (addPaths fs s).2.listModel.length)
  | [], s, _ => by
      have hlow : ¬ Exceeds s.listModel [] := fun h => absurd h.1 (not_le.mpr h.2)
      refine .inl ⟨fun h => hlow h.2, ?_⟩
      rw [addPaths, if_neg hlow]
      rfl
  | f :: fs, s, hmp3 => by
      obtain ⟨hf, hfs⟩ := List.forall_mem_cons.mp hmp3
      rw [addPaths, addFile, if_neg (not_not.mpr hf)]
      by_cases hmem : f ∈ s.listModel
      case pos =>
        have ih := addPaths_cases s hfs
        simp only [Refuses, exceeds_cons (.inl hmem), List.foldl_cons, addNew, if_pos hmem]
        exact ih
      rw [if_neg hmem]
      by_cases hwarn : s.listModel.length = warningNumberOfFiles
      case neg =>
        have ih := addPaths_cases { s with listModel := s.listModel ++ [f] } hfs
        simp only [Refuses, exceeds_cons (.inr hwarn), List.foldl_cons, addNew, if_neg hmem,
          if_neg hwarn]
        exact ih
      -- the warning is shown
      have hexceeds := exceeds_cons_of_eq hmem hwarn fs
      rw [if_pos hwarn]
      cases hanswer : s.answers.headD true with
      | false =>
        refine .inr ⟨⟨hanswer, hexceeds⟩, ?_⟩
        simp [hwarn]
      | true =>
        have hbeyond : ¬ Exceeds (s.listModel ++ [f]) fs := fun h => by
          have hle := h.1
          rw [List.length_append, List.length_singleton] at hle
          omega
        refine .inl ⟨fun h => absurd (hanswer.symm.trans h.1) (by decide), ?_⟩
        rcases addPaths_cases ⟨s.listModel ++ [f], s.answers.tail⟩ hfs with ⟨-, heq⟩ | ⟨h, -⟩
        · rw [if_pos rfl, if_pos hexceeds, List.foldl_cons, addNew, if_neg hmem, heq,
            if_neg hbeyond]
        · exact absurd h.2 hbeyond

theorem mp3_of_mem_paths (node : SelectedNode) : ∀ f ∈ node.paths, wide "mp3" <:+ f := fun _ hf =>
  of_decide_eq_true (List.mem_filter.mp hf).2

/-- The same for the call on a node. -/
theorem addNodeToList_cases (node : SelectedNode) (s : AddState) :
    (¬ Refuses s node.paths ∧ addNodeToList node.1.1 node.2 s =
      (if (regularFiles node.2).2 then .returned true else .threw,
        ⟨node.paths.foldl addNew s.listModel,
          if Exceeds s.listModel node.paths then s.answers.tail else s.answers⟩)) ∨
    (Refuses s node.paths ∧ ∃ s', addNodeToList node.1.1 node.2 s = (.returned false, s') ∧
      warningNumberOfFiles < s'.listModel.length) := by
  have hnode := addNodeToList_eq_addPaths node.1.1 node.2 s
  rcases addPaths_cases s (mp3_of_mem_paths node) with ⟨hno, heq⟩ | ⟨hrefuses, hfalse, hlimit⟩
  · rw [← SelectedNode.paths, heq] at hnode
    exact .inl ⟨hno, hnode⟩
  · rw [← SelectedNode.paths, hfalse] at hnode
    exact .inr ⟨hrefuses, _, hnode, hlimit⟩

end Paths

/-! ## A refusal -/

/-- A refusal in one call stops the addition, and beyond the limit the list has got with an OK. -/
structure StopsAtRefusal (treePaths : List SelectedNode) (s : AddState) : Prop where
  stops : ∀ d ∈ selectionDialogs treePaths s, d.ok = false →
    (addTreeSelectionToList treePaths s).2.listModel = d.listModel
  ok : s.listModel.length ≤ warningNumberOfFiles →
    warningNumberOfFiles < (addTreeSelectionToList treePaths s).2.listModel.length →
    ∃ d ∈ selectionDialogs treePaths s, d.ok = true

/-- The mp3 files of the selected nodes, up to the first unlistable directory. -/
def selectedPaths : List SelectedNode → List WStr
  | [] => []
  | node :: treePaths =>
    node.paths ++ if (regularFiles node.2).2 then selectedPaths treePaths else []

/-- Whether the limit is passed does not depend on the answers. -/
theorem limit_lt_addTreeSelectionToList_iff :
    ∀ (treePaths : List SelectedNode) (s : AddState),
      warningNumberOfFiles < (addTreeSelectionToList treePaths s).2.listModel.length ↔
        warningNumberOfFiles < ((selectedPaths treePaths).foldl addNew s.listModel).length
  | [], s => Iff.rfl
  | node :: treePaths, s => by
      rw [addTreeSelectionToList, selectedPaths, List.foldl_append]
      rcases addNodeToList_cases node s with ⟨-, heq⟩ | ⟨hrefuses, s', heq, hlimit⟩
      · rw [heq]
        cases (regularFiles node.2).2 with
        | true => exact limit_lt_addTreeSelectionToList_iff treePaths _
        | false => exact Iff.rfl
      · rw [heq]
        have hle := (ledger_addTreeSelectionToList treePaths s').le
        have hle' := length_le_foldl_addNew
          (if (regularFiles node.2).2 then selectedPaths treePaths else [])
          (node.paths.foldl addNew s.listModel)
        exact iff_of_true (hlimit.trans_le hle) (hrefuses.2.2.trans_le hle')

/-- **A refusal stops nothing.**  The addition stops at every refusal exactly if there is none: the
next answer is OK, or the selected nodes do not take the list beyond its limit. -/
theorem stopsAtRefusal_iff (treePaths : List SelectedNode) (s : AddState) :
    StopsAtRefusal treePaths s ↔ ¬ Refuses s (selectedPaths treePaths) := by
  rw [Refuses, Exceeds, ← limit_lt_addTreeSelectionToList_iff]
  have hledger := ledger_addTreeSelectionToList treePaths s
  exact ⟨fun h => hledger.stops_iff.mp ⟨h.stops, h.ok⟩,
    fun h => ⟨(hledger.stops_iff.mpr h).1, (hledger.stops_iff.mpr h).2⟩⟩

/-- Two selected nodes: an album with one file, and a file. -/
def albumAndFile : List SelectedNode :=
  [(⟨wide "C:\\album", by decide⟩, oneAlbum), (⟨wide "C:\\music.mp3", by decide⟩, oneTrack)]

/-- At the limit the user refuses to add the first one; then both files are added. -/
theorem add_albumAndFile_of_refusal {l : List WStr} (hlimit : l.length = warningNumberOfFiles)
    (hsong : wide "C:\\album\\song.mp3" ∉ l) (hmusic : wide "C:\\music.mp3" ∉ l) :
    addTreeSelectionToList albumAndFile ⟨l, [false]⟩ =
      (true, ⟨l ++ [wide "C:\\album\\song.mp3"] ++ [wide "C:\\music.mp3"], []⟩) := by
  have hpath : childPath (wide "C:\\album") oneTrack.val.1 = wide "C:\\album\\song.mp3" := by
    decide
  have hfile : addNodeToList (wide "C:\\album\\song.mp3") oneTrack ⟨l, [false]⟩ =
      (.returned false, ⟨l ++ [wide "C:\\album\\song.mp3"], []⟩) := by
    rw [oneTrack, addNodeToList, addFile, if_neg (by decide), if_neg hsong, if_pos hlimit]
    rfl
  have halbum : addNodeToList (wide "C:\\album") oneAlbum ⟨l, [false]⟩ =
      (.returned false, ⟨l ++ [wide "C:\\album\\song.mp3"], []⟩) := by
    rw [oneAlbum, addNodeToList, addChildren, hpath, hfile]
  have hnew : wide "C:\\music.mp3" ∉ l ++ [wide "C:\\album\\song.mp3"] := by
    rw [List.mem_append, not_or]
    exact ⟨hmusic, by decide⟩
  have hbeyond : ¬ (l ++ [wide "C:\\album\\song.mp3"]).length = warningNumberOfFiles := by
    rw [List.length_append, hlimit]
    decide
  have hsecond : addNodeToList (wide "C:\\music.mp3") oneTrack
      ⟨l ++ [wide "C:\\album\\song.mp3"], []⟩ =
      (.returned true, ⟨l ++ [wide "C:\\album\\song.mp3"] ++ [wide "C:\\music.mp3"], []⟩) := by
    rw [oneTrack, addNodeToList, addFile, if_neg (by decide), if_neg hnew, if_neg hbeyond]
  simp only [albumAndFile, addTreeSelectionToList, halbum, hsecond]

theorem not_stopsAtRefusal {l : List WStr} {treePaths : List SelectedNode}
    (hlimit : l.length = warningNumberOfFiles)
    (hlt : l.length < (addTreeSelectionToList treePaths ⟨l, [false]⟩).2.listModel.length) :
    ¬ StopsAtRefusal treePaths ⟨l, [false]⟩ := fun h =>
  (ledger_addTreeSelectionToList treePaths ⟨l, [false]⟩).stops_iff.mp ⟨h.stops, h.ok⟩
    ⟨rfl, hlimit.le, hlimit ▸ hlt⟩

/-- A list at its limit. -/
def longList : List WStr :=
  (List.range 1000).map fun n => wide "C:\\" ++ List.replicate n 97 ++ wide ".mp3"

theorem length_longList : longList.length = warningNumberOfFiles := by
  rw [longList, List.length_map, List.length_range, warningNumberOfFiles]

theorem notMem_longList {f : WStr} (h : 115 ∈ f) : f ∉ longList := by
  intro hf
  obtain ⟨n, -, rfl⟩ := List.mem_map.mp hf
  simp only [List.mem_append, List.mem_replicate] at h
  rcases h with (h | h) | h
  · exact absurd h (by decide)
  · exact absurd h.2 (by decide)
  · exact absurd h (by decide)

/-- The refused file and the next selected one are both in the list. -/
theorem not_stopsAtRefusal_longList :
    (addTreeSelectionToList albumAndFile ⟨longList, [false]⟩).2.listModel =
        longList ++ [wide "C:\\album\\song.mp3"] ++ [wide "C:\\music.mp3"] ∧
      ¬ StopsAtRefusal albumAndFile ⟨longList, [false]⟩ := by
  have hcall := add_albumAndFile_of_refusal length_longList (notMem_longList (by decide))
    (notMem_longList (by decide))
  refine ⟨by rw [hcall], not_stopsAtRefusal length_longList ?_⟩
  simp only [hcall, List.length_append, List.length_singleton]
  omega

/-! ## Unlistable directories -/

mutual

/-- The file tree with an empty directory in the place of each unlistable one. -/
def asEmpty : FileTree → FileTree
  | .node info children =>
    match info.2 with
    | .unlistable => .node (info.1, .directory) []
    | .file | .directory | .neither => .node info (asEmptyIn children)

def asEmptyIn : List FileTree → List FileTree
  | [] => []
  | t :: ts => asEmpty t :: asEmptyIn ts

end

def SelectedNode.asEmpty (node : SelectedNode) : SelectedNode := (node.1, MtpRetag.asEmpty node.2)

/-- An unlistable directory is skipped: no exception, and the list becomes what it becomes if each
unlistable directory is empty. -/
structure SkipsUnlistable (treePaths : List SelectedNode) (s : AddState) : Prop where
  returns : (addTreeSelectionToList treePaths s).1 = true
  listModel : (addTreeSelectionToList treePaths s).2.listModel =
    (addTreeSelectionToList (treePaths.map SelectedNode.asEmpty) s).2.listModel

/-- The walk from each selected node gets through: all directories that it comes to can be listed,
or the user ends it before by a refusal. -/
def GetsThrough (treePaths : List SelectedNode) (s : AddState) : Prop :=
  ∀ before node after, treePaths = before ++ node :: after →
    (regularFiles node.2).2 = true ∨
      (s.answers.headD true = false ∧
        Exceeds ((before.flatMap SelectedNode.paths).foldl addNew s.listModel) node.paths)

section Unlistable

theorem val_asEmpty (t : FileTree) : (asEmpty t).val.1 = t.val.1 := by
  obtain ⟨info, children⟩ := t
  rw [asEmpty]
  split <;> rfl

mutual

/-- The walk over the emptied tree gets through, to the same files and, past an unlistable
directory, to further ones. -/
theorem regularFiles_asEmpty :
    ∀ t : FileTree, ∃ further, regularFiles (asEmpty t) = ((regularFiles t).1 ++ further, true) ∧
      ((regularFiles t).2 = true → further = [])
  | .node info children => by
      rw [asEmpty]
      cases hkind : info.2 with
      | file => exact ⟨[], by simp [regularFiles, hkind], fun _ => rfl⟩
      | directory =>
        obtain ⟨further, heq, hcomplete⟩ := regularFilesIn_asEmptyIn children
        refine ⟨further, ?_, ?_⟩
        · simpa [regularFiles, hkind] using heq
        · simpa [regularFiles, hkind] using hcomplete
      | unlistable => exact ⟨[], by simp [regularFiles, regularFilesIn, hkind], fun _ => rfl⟩
      | neither => exact ⟨[], by simp [regularFiles, hkind], fun _ => rfl⟩

theorem regularFilesIn_asEmptyIn :
    ∀ ts : List FileTree, ∃ further,
      regularFilesIn (asEmptyIn ts) = ((regularFilesIn ts).1 ++ further, true) ∧
        ((regularFilesIn ts).2 = true → further = [])
  | [] => ⟨[], rfl, fun _ => rfl⟩
  | t :: ts => by
      obtain ⟨further, heq, hcomplete⟩ := regularFiles_asEmpty t
      obtain ⟨further', heq', hcomplete'⟩ := regularFilesIn_asEmptyIn ts
      rw [asEmptyIn, regularFilesIn, regularFilesIn, heq, heq', val_asEmpty, if_pos rfl]
      cases hthrough : (regularFiles t).2 with
      | true =>
        obtain rfl := hcomplete hthrough
        refine ⟨further', ?_, ?_⟩
        · simp
        · simpa using hcomplete'
      | false =>
        exact ⟨further.map (t.val.1 :: ·) ++ ((regularFilesIn ts).1 ++ further'), by simp, by simp⟩

end

theorem paths_asEmpty (node : SelectedNode) :
    ∃ further, node.asEmpty.paths = node.paths ++ further ∧
      ((regularFiles node.2).2 = true → further = []) := by
  obtain ⟨further, heq, hcomplete⟩ := regularFiles_asEmpty node.2
  refine ⟨mp3Paths node.1.1 further, ?_, fun h => by rw [hcomplete h]; rfl⟩
  rw [SelectedNode.paths, SelectedNode.asEmpty, heq, mp3Paths_append]
  rfl

/-- A walk that gets through, or is ended by a refusal before it does not, does what it does on the
emptied tree. -/
theorem addNodeToList_asEmpty (node : SelectedNode) (s : AddState)
    (h : (regularFiles node.2).2 = true ∨ Refuses s node.paths) :
    ∃ b, (addNodeToList node.1.1 node.2 s).1 = .returned b ∧
      addNodeToList node.asEmpty.1.1 node.asEmpty.2 s = addNodeToList node.1.1 node.2 s := by
  obtain ⟨further, hfurther, hcomplete⟩ := paths_asEmpty node
  obtain ⟨further', heq, -⟩ := regularFiles_asEmpty node.2
  have hthrough : (regularFiles node.asEmpty.2).2 = true := by rw [SelectedNode.asEmpty, heq]
  have hnode := addNodeToList_eq_addPaths node.1.1 node.2 s
  have hempty := addNodeToList_eq_addPaths node.asEmpty.1.1 node.asEmpty.2 s
  rw [← SelectedNode.paths] at hnode hempty
  rw [hthrough, hfurther] at hempty
  by_cases hthrough' : (regularFiles node.2).2 = true
  · rw [hcomplete hthrough', List.append_nil] at hempty
    rw [hthrough'] at hnode
    refine ⟨(addPaths node.paths s).1, ?_, hempty.trans hnode.symm⟩
    rw [hnode]
    cases (addPaths node.paths s).1 <;> rfl
  · have hrefuses := h.resolve_left hthrough'
    rcases addPaths_cases s (mp3_of_mem_paths node) with ⟨hno, -⟩ | ⟨-, hfalse, -⟩
    · exact absurd hrefuses hno
    · rw [addPaths_append, hfalse, if_neg Bool.false_ne_true, hfalse] at hempty
      rw [hfalse] at hnode
      exact ⟨false, by rw [hnode]; rfl, hempty.trans hnode.symm⟩

theorem getsThrough_nil (s : AddState) : GetsThrough [] s := by
  intro before node after h
  exact absurd h (by simp)

/-- The walks get through if the first one does and, from the list it leaves, the others do. -/
theorem getsThrough_cons_iff {node : SelectedNode} {treePaths : List SelectedNode} {s : AddState} :
    GetsThrough (node :: treePaths) s ↔
      ((regularFiles node.2).2 = true ∨ Refuses s node.paths) ∧
        GetsThrough treePaths ⟨node.paths.foldl addNew s.listModel, s.answers⟩ := by
  constructor
  · intro h
    refine ⟨h [] node treePaths rfl, fun before node' after heq => ?_⟩
    have hrest := h (node :: before) node' after (by rw [heq]; rfl)
    rwa [List.flatMap_cons, List.foldl_append] at hrest
  · rintro ⟨hfirst, hrest⟩ before node' after heq
    cases before with
    | nil =>
      obtain ⟨rfl, rfl⟩ := List.cons.inj heq
      exact hfirst
    | cons node'' before =>
      obtain ⟨rfl, rfl⟩ := List.cons.inj heq
      rw [List.flatMap_cons, List.foldl_append]
      exact hrest before node' after rfl

/-- Beyond the limit no warning is shown, so every directory has to be listed. -/
theorem getsThrough_iff_of_limit_lt {treePaths : List SelectedNode} {s : AddState}
    (h : warningNumberOfFiles < s.listModel.length) :
    GetsThrough treePaths s ↔ ∀ node ∈ treePaths, (regularFiles node.2).2 = true := by
  constructor
  · intro hthrough node hnode
    obtain ⟨before, after, heq⟩ := List.append_of_mem hnode
    refine (hthrough before node after heq).resolve_right fun hrefuses => ?_
    have hle := length_le_foldl_addNew (before.flatMap SelectedNode.paths) s.listModel
    exact absurd hrefuses.2.1 (not_le.mpr (h.trans_le hle))
  · rintro hall before node after rfl
    exact .inl (hall node (by simp))

/-- The list that the first walk leaves says the same of the others, whatever it took of the
answers. -/
theorem getsThrough_congr {node : SelectedNode} {treePaths : List SelectedNode} {s s' : AddState}
    {b : Bool} (h : addNodeToList node.1.1 node.2 s = (.returned b, s')) :
    GetsThrough treePaths s' ↔
      GetsThrough treePaths ⟨node.paths.foldl addNew s.listModel, s.answers⟩ := by
  rcases addNodeToList_cases node s with ⟨-, heq⟩ | ⟨hrefuses, s'', heq, hlimit⟩
  · obtain ⟨-, rfl⟩ := Prod.mk.inj (h.symm.trans heq)
    by_cases hexceeds : Exceeds s.listModel node.paths
    · rw [getsThrough_iff_of_limit_lt hexceeds.2, getsThrough_iff_of_limit_lt hexceeds.2]
    · rw [if_neg hexceeds]
  · obtain ⟨-, rfl⟩ := Prod.mk.inj (h.symm.trans heq)
    rw [getsThrough_iff_of_limit_lt hlimit, getsThrough_iff_of_limit_lt hrefuses.2.2]

theorem threw_addNodeToList {node : SelectedNode} {s : AddState}
    (h : ¬ ((regularFiles node.2).2 = true ∨ Refuses s node.paths)) :
    (addNodeToList node.1.1 node.2 s).1 = .threw := by
  obtain ⟨hthrough, hno⟩ := not_or.mp h
  rcases addNodeToList_cases node s with ⟨-, heq⟩ | ⟨hrefuses, -⟩
  · rw [heq, if_neg hthrough]
  · exact absurd hrefuses hno

theorem skips_iff :
    ∀ (treePaths : List SelectedNode) (s : AddState),
      SkipsUnlistable treePaths s ↔ GetsThrough treePaths s
  | [], s => iff_of_true ⟨rfl, rfl⟩ (getsThrough_nil s)
  | node :: treePaths, s => by
      rw [getsThrough_cons_iff]
      by_cases hnode : (regularFiles node.2).2 = true ∨ Refuses s node.paths
      · obtain ⟨b, hb, hempty⟩ := addNodeToList_asEmpty node s hnode
        have hcall : addNodeToList node.1.1 node.2 s =
            (.returned b, (addNodeToList node.1.1 node.2 s).2) := Prod.ext hb rfl
        rw [hcall] at hempty
        rw [and_iff_right hnode, ← getsThrough_congr hcall, ← skips_iff treePaths]
        constructor
        · rintro ⟨hreturns, hlist⟩
          rw [List.map_cons, addTreeSelectionToList, addTreeSelectionToList, hempty, hcall] at hlist
          rw [addTreeSelectionToList, hcall] at hreturns
          exact ⟨hreturns, hlist⟩
        · rintro ⟨hreturns, hlist⟩
          refine ⟨?_, ?_⟩
          · rw [addTreeSelectionToList, hcall]
            exact hreturns
          · rw [List.map_cons, addTreeSelectionToList, addTreeSelectionToList, hempty, hcall]
            exact hlist
      · refine iff_of_false (fun h => ?_) fun h => hnode h.1
        have hcall : addNodeToList node.1.1 node.2 s =
            (.threw, (addNodeToList node.1.1 node.2 s).2) :=
          Prod.ext (threw_addNodeToList hnode) rfl
        have hreturns := h.returns
        rw [addTreeSelectionToList, hcall] at hreturns
        exact Bool.false_ne_true hreturns

end Unlistable

/-- **An unlistable directory ends the addition**: it is skipped exactly if the walk does not come
to one. -/
theorem skipsUnlistable_iff (treePaths : List SelectedNode) (s : AddState) :
    (SkipsUnlistable treePaths s ↔ GetsThrough treePaths s) ∧
    ∀ node : SelectedNode,
      ((addNodeToList node.1.1 node.2 s).1 ≠ .threw ∧
        (addNodeToList node.1.1 node.2 s).2.listModel =
          (addNodeToList node.asEmpty.1.1 node.asEmpty.2 s).2.listModel) ↔
      (regularFiles node.2).2 = true ∨ Refuses s node.paths := by
  refine ⟨skips_iff treePaths s, fun node => ⟨fun h => ?_, fun h => ?_⟩⟩
  · by_contra hno
    exact h.1 (threw_addNodeToList hno)
  · obtain ⟨b, hb, hempty⟩ := addNodeToList_asEmpty node s h
    exact ⟨by rw [hb]; simp, by rw [hempty]⟩

/-- The root of a drive has the empty name. -/
theorem wellFormed_nil : slash ∉ ([] : WStr) ∧ backslash ∉ ([] : WStr) :=
  ⟨List.not_mem_nil, List.not_mem_nil⟩

/-- The root of a drive, with a directory that cannot be listed before a file. -/
def driveWithHidden : FileTree :=
  .node (⟨[], wellFormed_nil⟩, .directory)
    [.node (⟨wide "System Volume Information", by decide⟩, .unlistable) [], oneTrack]

/-- Adding it throws, and neither its file nor the next selected one is added. -/
theorem not_skipsUnlistable_driveWithHidden :
    addTreeSelectionToList
        [(⟨wide "D:\\", by decide⟩, driveWithHidden), (⟨wide "C:\\song.mp3", by decide⟩, oneTrack)]
        ⟨[], []⟩ = (false, ⟨[], []⟩) ∧
      ¬ SkipsUnlistable
        [(⟨wide "D:\\", by decide⟩, driveWithHidden), (⟨wide "C:\\song.mp3", by decide⟩, oneTrack)]
        ⟨[], []⟩ := by
  have hcall : addTreeSelectionToList
      [(⟨wide "D:\\", by decide⟩, driveWithHidden), (⟨wide "C:\\song.mp3", by decide⟩, oneTrack)]
      ⟨[], []⟩ = (false, ⟨[], []⟩) := rfl
  refine ⟨hcall, fun h => ?_⟩
  have hreturns := h.returns
  rw [hcall] at hreturns
  exact Bool.false_ne_true hreturns

end MtpRetag
