import MtpRetag.Machinery.Pool
import MtpRetag.Native.Transfer
import Mathlib.Data.List.Nodup
import Mathlib.Logic.Relation

/-!
# Native/Walks — the folders that destination walks create

Before a file is inserted, `transfer_file` walks to the folder of its destination and creates what
is missing.  Transfers follow each other on one device, and any call of a walk may fail, which cuts
the walk short.

`AddsMissing` is what one creation may do.  `keeps_runWalks` is that nothing else happens to the
tree in any sequence of walks, so that no folder is ever created twice.
-/

namespace MtpRetag

/-! ## Walks -/

/-- A walk of `transfer_file`: its destination, and what its calls return. -/
structure DestinationWalk where
  hr : Outcomes
  dest : WStr
  dest_ne_nil : dest ≠ []

namespace DestinationWalk

/-- The folders on the way, as they are passed to `get_substorage`. -/
def folders (d : DestinationWalk) : List WStr :=
  (splitString d.dest [slash] false).dropLast.map cStr

/-- The loop of `transfer_file` over the folders. -/
def walk (d : DestinationWalk) (t : Storage) : WalkResult :=
  walkFolders d.hr true sOk (splitString d.dest [slash] false).dropLast t (some []) 0

/-- The walk has resolved every folder. -/
def Arrives (d : DestinationWalk) (t : Storage) : Prop := ∃ q, (d.walk t).storage = .ok (some q)

/-- The walk is the one that `transfer_file` makes. -/
theorem transferMtp_eq (d : DestinationWalk) (w : World) (t : Storage) (src : WStr)
    (metadata : Option FileMetadata) :
    transferMtp w d.hr t src d.dest metadata =
      afterWalk w d.hr src d.dest metadata (hasProgress d.hr) (d.walk t) :=
  transferMtp_of_ne_nil d.dest_ne_nil metadata

end DestinationWalk

/-- The tree that walks leave. -/
def runWalks (t : Storage) (walks : List DestinationWalk) : Storage :=
  walks.foldl (fun t d => (d.walk t).tree) t

/-! ## What may happen to the tree -/

/-- No folder has two children with names that are equal ignoring case. -/
def DistinctSiblings (t : Storage) : Prop :=
  ∀ {q n}, t.sub? q = some n → (n.children.map fun c => makeLower c.val.name).Nodup

/-- A folder is created for one of the names: those before it lead to its parent, and no child of
the parent has its name. -/
def AddsMissing (names : List WStr) (t t' : Storage) : Prop :=
  ∃ k c p n, names[k]? = some c ∧ Rose.resolve nameMatches (names.take k) t = some p ∧
    t.sub? p = some n ∧ (∀ d ∈ n.children, makeLower d.val.name ≠ makeLower c) ∧
    t' = t.modifyAt (insertFolder c) p

section Adds

variable {hr : Outcomes} {t t' : Storage} {names : List WStr}

/-- A child that keeps its name leaves the siblings as distinct as they were. -/
theorem names_modify (cs : List Storage) (i : ℕ) {g : Storage → Storage}
    (hg : ∀ c, (g c).val.name = c.val.name) :
    (cs.modify i g).map (fun c => makeLower c.val.name) = cs.map fun c => makeLower c.val.name :=
  Pool.map_modify_of_eq (f := fun c : Storage => makeLower c.val.name)
    (fun c => congrArg makeLower (hg c)) cs i

theorem DistinctSiblings.modifyAt_insertFolder (ht : DistinctSiblings t) {p : Pos} {n : Storage}
    {c : WStr} (hn : t.sub? p = some n)
    (hnew : ∀ d ∈ n.children, makeLower d.val.name ≠ makeLower c) :
    DistinctSiblings (t.modifyAt (insertFolder c) p) := by
  refine Rose.forall_sub?_modifyAt (val_insertFolder c) ?_ ht ?_
  · intro m i g hg hm
    rwa [Rose.children_node, names_modify _ i fun c => congrArg _ (hg c)]
  · intro m hm q l hl
    obtain rfl : m = n := Option.some.inj (hm.symm.trans hn)
    cases q with
    | nil =>
      obtain rfl : insertFolder c m = l := by simpa using hl
      rw [insertFolder, Rose.children_node, List.map_append, List.map_singleton,
        List.nodup_append]
      refine ⟨ht hn, List.nodup_singleton _, fun a ha b hb heq => ?_⟩
      obtain ⟨d, hd, rfl⟩ := List.mem_map.mp ha
      exact hnew d hd (heq.trans (List.mem_singleton.mp hb))
    | cons j q =>
      rw [Rose.sub?_cons, insertFolder, Rose.children_node, List.getElem?_append] at hl
      split at hl
      · -- an old child
        refine ht (q := p ++ j :: q) ?_
        rw [Rose.sub?_append, hn, Option.bind_some, Rose.sub?_cons, hl]
      · -- the new one has no children
        obtain ⟨e, he, hl⟩ := Option.bind_eq_some_iff.mp hl
        obtain rfl := List.mem_singleton.mp (List.mem_of_getElem? he)
        cases q with
        | nil =>
          obtain rfl := Option.some.inj ((Rose.sub?_nil _).symm.trans hl)
          exact List.nodup_nil
        | cons k q => simp at hl

/-- What no walk takes away: distinct siblings, storages with all that is stored in them, and ways
that resolve. -/
structure Keeps (t t' : Storage) : Prop where
  distinctSiblings : DistinctSiblings t → DistinctSiblings t'
  exists_sub? : ∀ {q n}, t.sub? q = some n → ∃ n', t'.sub? q = some n' ∧ n'.val = n.val
  resolve : ∀ {ks q}, Rose.resolve nameMatches ks t = some q →
    Rose.resolve nameMatches ks t' = some q

theorem Keeps.refl (t : Storage) : Keeps t t := ⟨fun h => h, fun hn => ⟨_, hn, rfl⟩, fun hq => hq⟩

theorem Keeps.trans {t'' : Storage} (h : Keeps t t') (h' : Keeps t' t'') : Keeps t t'' where
  distinctSiblings ht := h'.distinctSiblings (h.distinctSiblings ht)
  exists_sub? hn := by
    obtain ⟨n', hn', hval⟩ := h.exists_sub? hn
    obtain ⟨n'', hn'', hval'⟩ := h'.exists_sub? hn'
    exact ⟨n'', hn'', hval'.trans hval⟩
  resolve hq := h'.resolve (h.resolve hq)

/-- One creation keeps all of it… -/
theorem AddsMissing.keeps (h : AddsMissing names t t') : Keeps t t' := by
  obtain ⟨k, c, p, n, -, -, hn, hnew, rfl⟩ := h
  exact ⟨fun ht => ht.modifyAt_insertFolder hn hnew, (grows_insertFolder c).exists_sub?_modifyAt,
    (grows_insertFolder c).resolve_modifyAt⟩

/-- …and so do any number of them. -/
theorem keeps_of_reflTransGen (h : Relation.ReflTransGen (AddsMissing names) t t') :
    Keeps t t' := by
  induction h with
  | refl => exact .refl t
  | tail _ hstep ih => exact ih.trans hstep.keeps

/-- **What one walk does**, wherever it is cut short: the names behind it lead to its storage, and it
creates missing folders for those before it. -/
theorem addsMissing_walkFolders (hr : Outcomes) :
    ∀ (vpath : List WStr) {names : List WStr} {t : Storage} {p : Pos} (ret : HRESULT),
      Rose.resolve nameMatches names t = some p →
      Relation.ReflTransGen (AddsMissing (names ++ vpath.map cStr)) t
        (walkFolders hr true sOk vpath t (some p) ret).tree
  | [], _, _, _, _, _ => .refl
  | c :: vpath, names, t, p, ret, hp => by
      obtain ⟨n, hn⟩ := Rose.exists_sub?_of_resolve hp
      rw [List.map_cons, List.append_cons]
      rcases getSubstorage_cases hr hn (cStr c) true with
        ⟨i, hfind, hget⟩ | ⟨-, hcreate, hget⟩ | ⟨-, -, hnone, htree⟩
      · rw [walkFolders_cons_of_some succeeded_sOk (by rw [hget]), hget]
        exact addsMissing_walkFolders hr vpath 0 (resolve_snoc_of_finds hp hn hfind)
      · rw [walkFolders_cons_of_some succeeded_sOk (by rw [hget]), hget]
        have hno : ∀ d ∈ n.children, makeLower d.val.name ≠ makeLower (cStr c) := by
          simpa [Rose.firstMatch_eq_none, nameMatches] using hcreate.2.2.2.1
        refine .head ⟨names.length, cStr c, p, n, by simp, ?_, hn, hno, rfl⟩
          (addsMissing_walkFolders hr vpath 0 (resolve_snoc_of_creates hp hn hcreate))
        rwa [List.append_assoc, List.take_left']
        rfl
      · rw [walkFolders, if_pos (.inr hnone), htree]

/-- A walk along names that resolve creates nothing, whatever its calls return. -/
theorem tree_walkFolders_of_resolve (hr : Outcomes) :
    ∀ (vpath : List WStr) {n : Storage} {p q : Pos} (ret : HRESULT), t.sub? p = some n →
      Rose.resolve nameMatches (vpath.map cStr) n = some q →
      (walkFolders hr true sOk vpath t (some p) ret).tree = t
  | [], _, _, _, _, _, _ => rfl
  | c :: vpath, n, p, q, ret, hn, hq => by
      obtain ⟨i, m, q, hi, hm, hq, -⟩ := Rose.exists_of_resolve_cons hq
      rcases getSubstorage_cases hr hn (cStr c) true with
        ⟨j, hfind, hget⟩ | ⟨-, hcreate, -⟩ | ⟨-, -, hnone, htree⟩
      · obtain rfl : i = j := Option.some.inj (hi.symm.trans hfind.2.2)
        rw [walkFolders_cons_of_some succeeded_sOk (by rw [hget]), hget]
        exact tree_walkFolders_of_resolve hr vpath 0 ((Rose.sub?_append_singleton hn i).trans hm) hq
      · exact absurd (hi.symm.trans hcreate.2.2.2.1) (by simp)
      · rw [walkFolders, if_pos (.inr hnone), htree]

end Adds

/-! ## Sequences of walks -/

section Run

variable {t : Storage}

/-- The walk of a destination adds what is missing of its folders… -/
theorem DestinationWalk.addsMissing (d : DestinationWalk) (t : Storage) :
    Relation.ReflTransGen (AddsMissing d.folders) t (d.walk t).tree :=
  addsMissing_walkFolders d.hr _ 0 (Rose.resolve_nil nameMatches t)

/-- …which then lead somewhere if it arrives. -/
theorem DestinationWalk.Arrives.resolve {d : DestinationWalk} (h : d.Arrives t) :
    ∃ q, Rose.resolve nameMatches d.folders (d.walk t).tree = some q := by
  obtain ⟨q, hq⟩ := h
  have hwalks := (walkFolders_storage_iff (Rose.sub?_nil t)).mp hq
  exact ⟨q, resolve_walkFolders hwalks (Rose.sub?_nil t) rfl (Rose.resolve_nil nameMatches t)⟩

theorem runWalks_append (t : Storage) (walks walks' : List DestinationWalk) :
    runWalks t (walks ++ walks') = runWalks (runWalks t walks) walks' :=
  List.foldl_append

theorem keeps_runWalks :
    ∀ (walks : List DestinationWalk) (t : Storage), Keeps t (runWalks t walks)
  | [], t => .refl t
  | d :: walks, t => (keeps_of_reflTransGen (d.addsMissing t)).trans (keeps_runWalks walks _)

/-- A walk that has arrived creates nothing when it is repeated, whatever happened since. -/
theorem tree_walk_again {d d' : DestinationWalk} (h : d.Arrives t) (hdest : d'.dest = d.dest)
    (walks : List DestinationWalk) :
    (d'.walk (runWalks t (d :: walks))).tree = runWalks t (d :: walks) := by
  obtain ⟨q, hq⟩ := h.resolve
  have hsame : d'.folders = d.folders := by
    rw [DestinationWalk.folders, hdest, DestinationWalk.folders]
  have hway := (keeps_runWalks walks (d.walk t).tree).resolve hq
  rw [← hsame] at hway
  exact tree_walkFolders_of_resolve d'.hr _ 0 (Rose.sub?_nil _) hway

end Run

/-- **Walks add what is missing and nothing else.**  In any sequence of walks, cut short anywhere,
siblings stay distinct, every storage stays where and what it is, each walk creates folders only
for names that no sibling has, and a walk that arrived creates nothing when it is repeated. -/
theorem runWalks_adds_missing (t : Storage) (ht : DistinctSiblings t)
    (walks : List DestinationWalk) :
    DistinctSiblings (runWalks t walks) ∧
    (∀ q n, t.sub? q = some n → ∃ n', (runWalks t walks).sub? q = some n' ∧ n'.val = n.val) ∧
    (∀ before d after, walks = before ++ d :: after →
      runWalks t (before ++ [d]) = (d.walk (runWalks t before)).tree ∧
      Relation.ReflTransGen (AddsMissing d.folders) (runWalks t before)
        (runWalks t (before ++ [d]))) ∧
    (∀ before d between d' after, walks = before ++ d :: between ++ d' :: after →
      d.Arrives (runWalks t before) → d'.dest = d.dest →
      runWalks t (before ++ d :: between ++ [d']) = runWalks t (before ++ d :: between)) := by
  have hkeeps := keeps_runWalks walks t
  refine ⟨hkeeps.distinctSiblings ht, fun q n hn => hkeeps.exists_sub? hn,
    fun before d after _ => ?_, fun before d between d' after _ harrives hdest => ?_⟩
  · rw [runWalks_append]
    exact ⟨rfl, d.addsMissing (runWalks t before)⟩
  · rw [runWalks_append t (before ++ d :: between), runWalks_append t before]
    exact tree_walk_again harrives hdest between

/-- The walk to `/A/B/x` with no call failing… -/
def DestinationWalk.sample : DestinationWalk := ⟨fun _ => sOk, wide "/A/B/x", by decide⟩

/-- …and on an empty player, where it creates two folders; the second time it creates none. -/
theorem runWalks_adds_missing_sample :
    runWalks (UsbDevice.emptyPlayer []).rootStorage [.sample, .sample] =
        runWalks (UsbDevice.emptyPlayer []).rootStorage [.sample] ∧
      ((runWalks (UsbDevice.emptyPlayer []).rootStorage [.sample]).children.map
        fun c => (c.val.name, c.children.map fun d => d.val.name)) =
        [(wide "A", [wide "B"])] := by
  have hempty : DistinctSiblings (UsbDevice.emptyPlayer []).rootStorage := by
    intro q n h
    cases q with
    | nil => obtain rfl := Option.some.inj ((Rose.sub?_nil _).symm.trans h); exact List.nodup_nil
    | cons i q => simp [UsbDevice.emptyPlayer, UsbDevice.init] at h
  obtain ⟨-, -, -, hagain⟩ := runWalks_adds_missing _ hempty [.sample, .sample]
  exact ⟨hagain [] .sample [] .sample [] rfl ⟨[0, 0], by decide⟩ rfl, by decide⟩

end MtpRetag
