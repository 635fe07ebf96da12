import MtpRetag.Native.Storage
import MtpRetag.Native.SplitString

/-!
# Native/Substorage — walking the storage tree by folder names

`get_substorage` looks one folder up by name, or creates it; `transfer_file`,
`get_storage_bypath` and `read_file` share the loop that calls it once per path component.

`Walks` says which walks arrive, in terms of the tree and of the calls that succeed;
`walkFolders_storage_iff` connects it to the loop.  Where the walk arrives is where the names
resolve (`resolve_walkFolders`), also after the folders the walk itself created.
-/

namespace MtpRetag

/-! ## One folder -/

/-- How the enumeration loop of `get_substorage` ends. -/
inductive Scan
  | threw (hr : HRESULT)
  | found (i : ℕ)
  | notFound
  deriving DecidableEq, Repr

/-- The enumeration loop from the `i`-th storage on; `Next` hands out NULL behind the last one. -/
def scanLoop (hr : Outcomes) (p : Pos) (folder : WStr) : ℕ → List Storage → Scan
  | i, [] => if Succeeded (hr (.next p i)) then .notFound else .threw (hr (.next p i))
  | i, c :: cs =>
    if ¬ Succeeded (hr (.next p i)) then .threw (hr (.next p i))
    else if ¬ Succeeded (hr (.getName (p ++ [i]))) then .threw (hr (.getName (p ++ [i])))
    else if nameMatches c.val folder then .found i
    else scanLoop hr p folder (i + 1) cs

/-- What `get_substorage` returns, what it stores through `ppStorageOut`, and the tree it leaves. -/
structure SubResult where
  ret : HRESULT
  ppStorageOut : Option Pos
  tree : Storage

/-- The creating branch of `get_substorage`. -/
def createFolder (hr : Outcomes) (t : Storage) (p : Pos) (folder : WStr) : SubResult :=
  if ¬ Succeeded (hr (.queryStorage p)) then ⟨hr (.queryStorage p), none, t⟩
  else if ¬ Succeeded (hr (.queryControl3 p)) then ⟨hr (.queryControl3 p), none, t⟩
  else if ¬ Succeeded (hr (.insertFolder p)) then ⟨hr (.insertFolder p), none, t⟩
  else ⟨0, some (p ++ [(childrenAt t p).length]), t.modifyAt (insertFolder folder) p⟩

/-- `usbdevice::get_substorage`.  All callers pass a `ppStorageOut` that points to NULL. -/
def getSubstorage (hr : Outcomes) (t : Storage) (pStorageRoot : Option Pos) (folder : WStr)
    (bCreate : Bool) : SubResult :=
  match pStorageRoot with
  | none => ⟨0, none, t⟩
  | some p =>
    if ¬ Succeeded (hr (.enumStorage p)) then ⟨hr (.enumStorage p), none, t⟩
    else
      match scanLoop hr p folder 0 (childrenAt t p) with
      | .threw e => ⟨e, none, t⟩
      | .found i => ⟨0, some (p ++ [i]), t⟩
      | .notFound => if bCreate then createFolder hr t p folder else ⟨1, none, t⟩

/-! ## The loop over the components -/

/-- How the loop ends: `ret`, then `spTempStorage` or the thrown status, then the tree. -/
structure WalkResult where
  ret : HRESULT
  storage : Except HRESULT (Option Pos)
  tree : Storage

/-- The loop of `transfer_file`, `get_storage_bypath` and `read_file` over the folder names.  A
failed `get_substorage` throws the caller's `hr`, which the loop does not assign. -/
def walkFolders (hr : Outcomes) (bCreate : Bool) (outerHr : HRESULT) :
    List WStr → Storage → Option Pos → HRESULT → WalkResult
  | [], t, spTempStorage, ret => ⟨ret, .ok spTempStorage, t⟩
  | c :: vpath, t, spTempStorage, _ =>
    let r := getSubstorage hr t spTempStorage (cStr c) bCreate
    if ¬ Succeeded outerHr ∨ r.ppStorageOut = none then ⟨r.ret, .error outerHr, r.tree⟩
    else walkFolders hr bCreate outerHr vpath r.tree r.ppStorageOut r.ret

/-- `usbdevice::get_storage_bypath`: the code, and what it stores through `ppStorageOut`. -/
def getStorageBypath (hr : Outcomes) (t : Storage) (path : WStr) : HRESULT × Option Pos :=
  if path.length = 0 then (Error.wrongParameter, none)
  else if path = [slash] ∨ path = [slash, slash] then (Error.success, some [])
  else
    match (walkFolders hr false sOk (splitString path [slash] false) t (some []) 0).storage with
    | .error _ => (1, none)
    -- `throw E_FAIL` when `spTempStorage` is NULL
    | .ok none => (1, none)
    | .ok (some p) => (0, some p)

/-! ## Which walks arrive -/

/-- `Next` and `GetName` succeed on the `i`-th storage of the folder at `p`. -/
def Lists (hr : Outcomes) (p : Pos) (i : ℕ) : Prop :=
  Succeeded (hr (.next p i)) ∧ Succeeded (hr (.getName (p ++ [i])))

/-- `get_substorage` finds the folder: the `i`-th of the storages `cs`, the first of that name. -/
def Finds (hr : Outcomes) (p : Pos) (cs : List Storage) (folder : WStr) (i : ℕ) : Prop :=
  Succeeded (hr (.enumStorage p)) ∧ (∀ j < i + 1, Lists hr p j) ∧
    Rose.firstMatch nameMatches cs folder = some i

/-- `get_substorage` creates the folder: the whole listing holds none of that name. -/
def Creates (hr : Outcomes) (p : Pos) (cs : List Storage) (folder : WStr) : Prop :=
  Succeeded (hr (.enumStorage p)) ∧ (∀ j < cs.length, Lists hr p j) ∧
    Succeeded (hr (.next p cs.length)) ∧ Rose.firstMatch nameMatches cs folder = none ∧
    Succeeded (hr (.queryStorage p)) ∧ Succeeded (hr (.queryControl3 p)) ∧
    Succeeded (hr (.insertFolder p))

/-- **The walks that arrive**, from a storage at `p` with children `cs` to the position `q`. -/
inductive Walks (hr : Outcomes) (bCreate : Bool) : Pos → List Storage → List WStr → Pos → Prop
  | here (p : Pos) (cs : List Storage) : Walks hr bCreate p cs [] p
  | found {p q : Pos} {cs : List Storage} {c : WStr} {vpath : List WStr} {i : ℕ} {n : Storage}
      (hfind : Finds hr p cs (cStr c) i) (hn : cs[i]? = some n)
      (hrest : Walks hr bCreate (p ++ [i]) n.children vpath q) :
      Walks hr bCreate p cs (c :: vpath) q
  | created {p q : Pos} {cs : List Storage} {c : WStr} {vpath : List WStr}
      (hb : bCreate = true) (hcreate : Creates hr p cs (cStr c))
      (hrest : Walks hr bCreate (p ++ [cs.length]) [] vpath q) :
      Walks hr bCreate p cs (c :: vpath) q

/-! ## What one lookup can do -/

section Lookup

variable {hr : Outcomes} {p : Pos} {folder : WStr}

theorem firstMatch_cons (c : Storage) (cs : List Storage) (folder : WStr) :
    Rose.firstMatch nameMatches (c :: cs) folder =
      if nameMatches c.val folder then some 0
      else (Rose.firstMatch nameMatches cs folder).map (· + 1) := by
  simp [Rose.firstMatch, List.findIdx?_cons]

/-- The listing of `n + 1` storages from the `i`-th on: that one, and `n` from the next on. -/
theorem forall_lists_succ (i n : ℕ) :
    (∀ j < n + 1, Lists hr p (i + j)) ↔ Lists hr p i ∧ ∀ j < n, Lists hr p (i + 1 + j) := by
  rw [Nat.forall_lt_succ_left]
  simp only [Nat.add_zero, Nat.add_assoc, Nat.add_comm 1]

/-- A storage that does not list stops the loop with an exception. -/
theorem scanLoop_of_not_lists {i : ℕ} (folder : WStr) (c : Storage) (cs : List Storage)
    (h : ¬ Lists hr p i) :
    ∃ e, scanLoop hr p folder i (c :: cs) = .threw e := by
  rw [scanLoop]
  by_cases h1 : Succeeded (hr (.next p i))
  · by_cases h2 : Succeeded (hr (.getName (p ++ [i])))
    · exact absurd ⟨h1, h2⟩ h
    · exact ⟨_, by rw [if_neg (not_not.mpr h1), if_pos h2]⟩
  · exact ⟨_, by rw [if_pos h1]⟩

theorem scanLoop_of_lists {i : ℕ} (c : Storage) (cs : List Storage) (h : Lists hr p i) :
    scanLoop hr p folder i (c :: cs) =
      if nameMatches c.val folder then .found i else scanLoop hr p folder (i + 1) cs := by
  rw [scanLoop, if_neg (not_not.mpr h.1), if_neg (not_not.mpr h.2)]

theorem scanLoop_eq_found_iff {m : ℕ} :
    ∀ {l : List Storage} {i : ℕ}, scanLoop hr p folder i l = .found m ↔
      ∃ k, m = i + k ∧ (∀ j < k + 1, Lists hr p (i + j)) ∧
        Rose.firstMatch nameMatches l folder = some k
  | [], i => by
      rw [scanLoop]
      split <;> simp [Rose.firstMatch]
  | c :: cs, i => by
      by_cases hl : Lists hr p i
      · rw [scanLoop_of_lists c cs hl, firstMatch_cons]
        by_cases hm : nameMatches c.val folder
        · simp only [hm, if_true, Scan.found.injEq, Option.some.injEq]
          constructor
          · rintro rfl
            exact ⟨0, rfl, (forall_lists_succ _ 0).mpr ⟨hl, by simp⟩, rfl⟩
          · rintro ⟨k, rfl, -, rfl⟩
            rfl
        · simp only [hm, if_false, Bool.false_eq_true, scanLoop_eq_found_iff (l := cs),
            Option.map_eq_some_iff]
          constructor
          · rintro ⟨k, rfl, hk, hf⟩
            exact ⟨k + 1, by omega, (forall_lists_succ _ _).mpr ⟨hl, hk⟩, k, hf, rfl⟩
          · rintro ⟨_, rfl, hk, k, hf, rfl⟩
            exact ⟨k, by omega, ((forall_lists_succ _ _).mp hk).2, hf⟩
      · obtain ⟨e, he⟩ := scanLoop_of_not_lists folder c cs hl
        simp only [he, reduceCtorEq, false_iff, not_exists, not_and]
        exact fun k _ hk => absurd ((forall_lists_succ _ _).mp hk).1 hl

theorem scanLoop_eq_notFound_iff :
    ∀ {l : List Storage} {i : ℕ}, scanLoop hr p folder i l = .notFound ↔
      (∀ j < l.length, Lists hr p (i + j)) ∧ Succeeded (hr (.next p (i + l.length))) ∧
        Rose.firstMatch nameMatches l folder = none
  | [], i => by
      rw [scanLoop]
      split <;> simp_all [Rose.firstMatch]
  | c :: cs, i => by
      by_cases hl : Lists hr p i
      · rw [scanLoop_of_lists c cs hl, firstMatch_cons, List.length_cons, forall_lists_succ]
        by_cases hm : nameMatches c.val folder
        · simp [hm]
        · have hlen : i + 1 + cs.length = i + (cs.length + 1) := by omega
          simp [hm, scanLoop_eq_notFound_iff (l := cs), hl, hlen]
      · obtain ⟨e, he⟩ := scanLoop_of_not_lists folder c cs hl
        simp only [he, reduceCtorEq, List.length_cons, false_iff, not_and]
        exact fun hk => absurd ((forall_lists_succ _ _).mp hk).1 hl

/-- The loop over a whole folder finds its first match… -/
theorem scanLoop_zero_eq_found_iff {cs : List Storage} {i : ℕ} :
    scanLoop hr p folder 0 cs = .found i ↔
      (∀ j < i + 1, Lists hr p j) ∧ Rose.firstMatch nameMatches cs folder = some i := by
  simp [scanLoop_eq_found_iff]

/-- …or, when nothing failed up to the end, nothing. -/
theorem scanLoop_zero_eq_notFound_iff {cs : List Storage} :
    scanLoop hr p folder 0 cs = .notFound ↔
      (∀ j < cs.length, Lists hr p j) ∧ Succeeded (hr (.next p cs.length)) ∧
        Rose.firstMatch nameMatches cs folder = none := by
  simp only [scanLoop_eq_notFound_iff, Nat.zero_add]

theorem createFolder_of_succeeded {t n : Storage} (hn : t.sub? p = some n)
    (hs : Succeeded (hr (.queryStorage p))) (hc : Succeeded (hr (.queryControl3 p)))
    (hi : Succeeded (hr (.insertFolder p))) (folder : WStr) :
    createFolder hr t p folder =
      ⟨0, some (p ++ [n.children.length]), t.modifyAt (insertFolder folder) p⟩ := by
  rw [createFolder, if_neg (not_not.mpr hs), if_neg (not_not.mpr hc), if_neg (not_not.mpr hi),
    childrenAt_of_sub? hn]

theorem createFolder_of_failed (t : Storage) (folder : WStr)
    (h : ¬ (Succeeded (hr (.queryStorage p)) ∧ Succeeded (hr (.queryControl3 p)) ∧
      Succeeded (hr (.insertFolder p)))) :
    (createFolder hr t p folder).ppStorageOut = none ∧ (createFolder hr t p folder).tree = t := by
  rw [createFolder]
  by_cases hs : Succeeded (hr (.queryStorage p))
  · by_cases hc : Succeeded (hr (.queryControl3 p))
    · have hi : ¬ Succeeded (hr (.insertFolder p)) := fun hi => h ⟨hs, hc, hi⟩
      rw [if_neg (not_not.mpr hs), if_neg (not_not.mpr hc), if_pos hi]
      exact ⟨rfl, rfl⟩
    · rw [if_neg (not_not.mpr hs), if_pos hc]
      exact ⟨rfl, rfl⟩
  · rw [if_pos hs]
    exact ⟨rfl, rfl⟩

/-- **What `get_substorage` does** on a storage of the tree: it finds the folder, or creates it, or
hands out NULL and leaves the tree alone. -/
theorem getSubstorage_cases (hr : Outcomes) {t n : Storage} (hn : t.sub? p = some n) (folder : WStr)
    (bCreate : Bool) :
    (∃ i, Finds hr p n.children folder i ∧
      getSubstorage hr t (some p) folder bCreate = ⟨0, some (p ++ [i]), t⟩) ∨
    (bCreate = true ∧ Creates hr p n.children folder ∧
      getSubstorage hr t (some p) folder bCreate =
        ⟨0, some (p ++ [n.children.length]), t.modifyAt (insertFolder folder) p⟩) ∨
    ((∀ i, ¬ Finds hr p n.children folder i) ∧
      ¬ (bCreate = true ∧ Creates hr p n.children folder) ∧
      (getSubstorage hr t (some p) folder bCreate).ppStorageOut = none ∧
      (getSubstorage hr t (some p) folder bCreate).tree = t) := by
  by_cases he : Succeeded (hr (.enumStorage p))
  case neg =>
    refine .inr (.inr ⟨fun i h => he h.1, fun h => he h.2.1, ?_⟩)
    rw [getSubstorage, if_pos he]
    exact ⟨rfl, rfl⟩
  rw [getSubstorage, if_neg (not_not.mpr he), childrenAt_of_sub? hn]
  cases hscan : scanLoop hr p folder 0 n.children with
  | threw e =>
    refine .inr (.inr ⟨fun i h => ?_, fun h => ?_, rfl, rfl⟩)
    · have := scanLoop_zero_eq_found_iff.mpr ⟨h.2.1, h.2.2⟩
      exact Scan.noConfusion (hscan.symm.trans this)
    · have := scanLoop_zero_eq_notFound_iff.mpr ⟨h.2.2.1, h.2.2.2.1, h.2.2.2.2.1⟩
      exact Scan.noConfusion (hscan.symm.trans this)
  | found i =>
    obtain ⟨hl, hf⟩ := scanLoop_zero_eq_found_iff.mp hscan
    exact .inl ⟨i, ⟨he, hl, hf⟩, rfl⟩
  | notFound =>
    obtain ⟨hl, hend, hf⟩ := scanLoop_zero_eq_notFound_iff.mp hscan
    have hnone : ∀ i, ¬ Finds hr p n.children folder i := fun i h => by simp [h.2.2] at hf
    cases bCreate with
    | false => exact .inr (.inr ⟨hnone, by simp, rfl, rfl⟩)
    | true =>
      by_cases hc : Succeeded (hr (.queryStorage p)) ∧ Succeeded (hr (.queryControl3 p)) ∧
          Succeeded (hr (.insertFolder p))
      · exact .inr (.inl ⟨rfl, ⟨he, hl, hend, hf, hc⟩,
          createFolder_of_succeeded hn hc.1 hc.2.1 hc.2.2 folder⟩)
      · exact .inr (.inr ⟨hnone, fun h => hc h.2.2.2.2.2, createFolder_of_failed t folder hc⟩)

theorem getSubstorage_of_finds {t n : Storage} (hn : t.sub? p = some n) {i : ℕ}
    (h : Finds hr p n.children folder i) (bCreate : Bool) :
    getSubstorage hr t (some p) folder bCreate = ⟨0, some (p ++ [i]), t⟩ := by
  rcases getSubstorage_cases hr hn folder bCreate with ⟨j, hj, heq⟩ | ⟨-, hc, -⟩ | ⟨hno, -⟩
  · obtain rfl : j = i := Option.some.inj (hj.2.2.symm.trans h.2.2)
    exact heq
  · exact absurd (hc.2.2.2.1.symm.trans h.2.2) (by simp)
  · exact absurd h (hno i)

theorem getSubstorage_of_creates {t n : Storage} (hn : t.sub? p = some n)
    (h : Creates hr p n.children folder) :
    getSubstorage hr t (some p) folder true =
      ⟨0, some (p ++ [n.children.length]), t.modifyAt (insertFolder folder) p⟩ := by
  rcases getSubstorage_cases hr hn folder true with ⟨j, hj, -⟩ | ⟨-, -, heq⟩ | ⟨-, hno, -⟩
  · exact absurd (h.2.2.2.1.symm.trans hj.2.2) (by simp)
  · exact heq
  · exact absurd ⟨rfl, h⟩ hno

end Lookup

/-! ## What the loop can do -/

section Loop

variable {hr : Outcomes} {bCreate : Bool}

/-- The new folder lies behind the old children. -/
theorem sub?_insertFolder {t n : Storage} {p : Pos} (hn : t.sub? p = some n) (folder : WStr) :
    (t.modifyAt (insertFolder folder) p).sub? (p ++ [n.children.length]) =
      some (.node ⟨folder, .folder, .empty, []⟩ []) := by
  rw [Rose.sub?_append_singleton (Rose.sub?_modifyAt_self _ hn)]
  simp [insertFolder]

theorem walkFolders_cons_of_some {outerHr : HRESULT} (ho : Succeeded outerHr) {c : WStr}
    {t : Storage} {sp : Option Pos} {q : Pos}
    (h : (getSubstorage hr t sp (cStr c) bCreate).ppStorageOut = some q) (vpath : List WStr)
    (ret : HRESULT) :
    walkFolders hr bCreate outerHr (c :: vpath) t sp ret =
      walkFolders hr bCreate outerHr vpath (getSubstorage hr t sp (cStr c) bCreate).tree (some q)
        (getSubstorage hr t sp (cStr c) bCreate).ret := by
  rw [walkFolders]
  simp [h, ho]

theorem walkFolders_cons_of_none {outerHr : HRESULT} {c : WStr} {t : Storage} {sp : Option Pos}
    (h : (getSubstorage hr t sp (cStr c) bCreate).ppStorageOut = none) (vpath : List WStr)
    (ret : HRESULT) :
    (walkFolders hr bCreate outerHr (c :: vpath) t sp ret).storage = .error outerHr := by
  rw [walkFolders]
  simp [h]

/-- The loop goes where the walk goes, and ends with `ret` cleared. -/
theorem walkFolders_of_walks {p q : Pos} {cs : List Storage} {vpath : List WStr}
    (h : Walks hr bCreate p cs vpath q) :
    ∀ {t n : Storage}, t.sub? p = some n → n.children = cs →
      (walkFolders hr bCreate sOk vpath t (some p) 0).storage = .ok (some q) ∧
        (walkFolders hr bCreate sOk vpath t (some p) 0).ret = 0 := by
  induction h with
  | here p cs => exact fun _ _ => ⟨rfl, rfl⟩
  | @found p q cs c vpath i m hfind hm _ ih =>
    rintro t n hn rfl
    have hget := getSubstorage_of_finds hn hfind bCreate
    rw [walkFolders_cons_of_some succeeded_sOk (by rw [hget]), hget]
    exact ih ((Rose.sub?_append_singleton hn i).trans hm) rfl
  | @created p q cs c vpath hb hcreate _ ih =>
    rintro t n hn rfl
    subst hb
    have hget := getSubstorage_of_creates hn hcreate
    rw [walkFolders_cons_of_some succeeded_sOk (by rw [hget]), hget]
    exact ih (sub?_insertFolder hn _) rfl

/-- A loop that has no walk to follow throws the caller's `hr`, which is `S_OK`. -/
theorem walks_or_error (hr : Outcomes) (bCreate : Bool) (vpath : List WStr) :
    ∀ {t n : Storage} {p : Pos} (ret : HRESULT), t.sub? p = some n →
      (∃ q, Walks hr bCreate p n.children vpath q) ∨
        (walkFolders hr bCreate sOk vpath t (some p) ret).storage = .error sOk := by
  induction vpath with
  | nil => exact fun {_ n p} _ _ => .inl ⟨p, .here p n.children⟩
  | cons c vpath ih =>
    intro t n p ret hn
    rcases getSubstorage_cases hr hn (cStr c) bCreate with
      ⟨i, hfind, hget⟩ | ⟨hb, hcreate, hget⟩ | ⟨-, -, hnone, -⟩
    · obtain ⟨m, hm, -⟩ := Rose.getElem?_of_firstMatch hfind.2.2
      rw [walkFolders_cons_of_some succeeded_sOk (by rw [hget]), hget]
      refine (ih 0 ((Rose.sub?_append_singleton hn i).trans hm)).imp_left ?_
      rintro ⟨q, hq⟩
      exact ⟨q, .found hfind hm hq⟩
    · rw [walkFolders_cons_of_some succeeded_sOk (by rw [hget]), hget]
      refine (ih 0 (sub?_insertFolder hn _)).imp_left ?_
      rintro ⟨q, hq⟩
      exact ⟨q, .created hb hcreate hq⟩
    · exact .inr (walkFolders_cons_of_none hnone vpath ret)

/-- **The loop and the walks agree.** -/
theorem walkFolders_storage_iff {t n : Storage} {p q : Pos} {vpath : List WStr}
    (hn : t.sub? p = some n) :
    (walkFolders hr bCreate sOk vpath t (some p) 0).storage = .ok (some q) ↔
      Walks hr bCreate p n.children vpath q := by
  refine ⟨fun h => ?_, fun h => (walkFolders_of_walks h hn rfl).1⟩
  rcases walks_or_error hr bCreate vpath 0 hn with ⟨q', hq'⟩ | herr
  · have := (walkFolders_of_walks hq' hn rfl).1
    obtain rfl : q' = q := by simpa using this.symm.trans h
    exact hq'
  · exact absurd (herr.symm.trans h) (by simp)

/-- A walk ends at one storage. -/
theorem Walks.unique {t n : Storage} {p q q' : Pos} {vpath : List WStr} (hn : t.sub? p = some n)
    (h : Walks hr bCreate p n.children vpath q) (h' : Walks hr bCreate p n.children vpath q') :
    q = q' := by
  have hstorage := (walkFolders_storage_iff hn).mpr h
  rw [(walkFolders_storage_iff hn).mpr h'] at hstorage
  exact (Option.some.inj (Except.ok.inj hstorage)).symm

/-- A walk never ends on a NULL storage: it arrives or throws. -/
theorem walkFolders_storage_cases (hr : Outcomes) (bCreate : Bool) {t n : Storage} {p : Pos}
    (vpath : List WStr) (hn : t.sub? p = some n) :
    (∃ q, Walks hr bCreate p n.children vpath q ∧
      (walkFolders hr bCreate sOk vpath t (some p) 0).storage = .ok (some q)) ∨
    ((∀ q, ¬ Walks hr bCreate p n.children vpath q) ∧
      (walkFolders hr bCreate sOk vpath t (some p) 0).storage = .error sOk) := by
  rcases walks_or_error hr bCreate vpath 0 hn with ⟨q, hq⟩ | herr
  · exact .inl ⟨q, hq, (walkFolders_of_walks hq hn rfl).1⟩
  · exact .inr ⟨fun q hq => absurd (herr.symm.trans (walkFolders_of_walks hq hn rfl).1) (by simp),
      herr⟩

/-- Without `bCreate` the loop leaves the tree alone. -/
theorem tree_walkFolders_false {outerHr : HRESULT} :
    ∀ (vpath : List WStr) (t : Storage) (sp : Option Pos) (ret : HRESULT),
      (walkFolders hr false outerHr vpath t sp ret).tree = t
  | [], _, _, _ => rfl
  | c :: vpath, t, sp, ret => by
      have htree : (getSubstorage hr t sp (cStr c) false).tree = t := by
        cases sp with
        | none => rfl
        | some p =>
          rw [getSubstorage]
          split
          · rfl
          · split <;> rfl
      rw [walkFolders]
      split
      · exact htree
      · rw [tree_walkFolders_false vpath, htree]

/-- Where the names resolve after one more component. -/
theorem resolve_snoc_of_finds {t n : Storage} {p : Pos} {names : List WStr} {c : WStr} {i : ℕ}
    (hp : Rose.resolve nameMatches names t = some p) (hn : t.sub? p = some n)
    (h : Finds hr p n.children c i) :
    Rose.resolve nameMatches (names ++ [c]) t = some (p ++ [i]) := by
  rw [Rose.resolve_append_singleton nameMatches c hp hn, h.2.2, Option.map_some]

/-- …and after one inserted folder: no old child has its name, so the new one is the first… -/
theorem resolve_snoc_insertFolder {t n : Storage} {p : Pos} {names : List WStr} {c : WStr}
    (hp : Rose.resolve nameMatches names t = some p) (hn : t.sub? p = some n)
    (h : Rose.firstMatch nameMatches n.children c = none) :
    Rose.resolve nameMatches (names ++ [c]) (t.modifyAt (insertFolder c) p) =
      some (p ++ [n.children.length]) := by
  have hp' := Rose.resolve_modifyAt (f := insertFolder c) (fun _ _ => rfl) hp
  have hfirst : Rose.firstMatch nameMatches (insertFolder c n).children c =
      some n.children.length :=
    Rose.firstMatch_append_singleton h (by simp [nameMatches])
  rw [Rose.resolve_append_singleton nameMatches c hp' (Rose.sub?_modifyAt_self _ hn), hfirst,
    Option.map_some]

/-- …as one that `get_substorage` creates. -/
theorem resolve_snoc_of_creates {t n : Storage} {p : Pos} {names : List WStr} {c : WStr}
    (hp : Rose.resolve nameMatches names t = some p) (hn : t.sub? p = some n)
    (h : Creates hr p n.children c) :
    Rose.resolve nameMatches (names ++ [c]) (t.modifyAt (insertFolder c) p) =
      some (p ++ [n.children.length]) :=
  resolve_snoc_insertFolder hp hn h.2.2.2.1

/-- **A walk ends where its names resolve**, in the tree it leaves behind. -/
theorem resolve_walkFolders {p q : Pos} {cs : List Storage} {vpath : List WStr}
    (h : Walks hr bCreate p cs vpath q) :
    ∀ {t n : Storage} {names : List WStr}, t.sub? p = some n → n.children = cs →
      Rose.resolve nameMatches names t = some p →
      Rose.resolve nameMatches (names ++ vpath.map cStr)
        (walkFolders hr bCreate sOk vpath t (some p) 0).tree = some q := by
  induction h with
  | here p cs =>
    intro t n names _ _ hp
    simpa [walkFolders] using hp
  | @found p q cs c vpath i m hfind hm _ ih =>
    rintro t n names hn rfl hp
    have hget := getSubstorage_of_finds hn hfind bCreate
    rw [walkFolders_cons_of_some succeeded_sOk (by rw [hget]), hget, List.map_cons,
      List.append_cons]
    exact ih ((Rose.sub?_append_singleton hn i).trans hm) rfl (resolve_snoc_of_finds hp hn hfind)
  | @created p q cs c vpath hb hcreate _ ih =>
    rintro t n names hn rfl hp
    subst hb
    have hget := getSubstorage_of_creates hn hcreate
    rw [walkFolders_cons_of_some succeeded_sOk (by rw [hget]), hget, List.map_cons,
      List.append_cons]
    exact ih (sub?_insertFolder hn _) rfl (resolve_snoc_of_creates hp hn hcreate)

/-- **Old folders or a new one**: a walk ends where its names led before it, with the tree left
alone; or they led nowhere, and it ends at a new folder, which is empty. -/
theorem walkFolders_old_or_new {p q : Pos} {cs : List Storage} {vpath : List WStr}
    (h : Walks hr bCreate p cs vpath q) :
    ∀ {t n : Storage}, t.sub? p = some n → n.children = cs →
      (∃ r, Rose.resolve nameMatches (vpath.map cStr) n = some r ∧ q = p ++ r ∧
        (walkFolders hr bCreate sOk vpath t (some p) 0).tree = t) ∨
      (Rose.resolve nameMatches (vpath.map cStr) n = none ∧
        ∃ m, (walkFolders hr bCreate sOk vpath t (some p) 0).tree.sub? q = some m ∧
          m.children = []) := by
  induction h with
  | here p cs => exact fun _ _ => .inl ⟨[], rfl, (List.append_nil p).symm, rfl⟩
  | @found p q cs c vpath i m hfind hm _ ih =>
    rintro t n hn rfl
    have hget := getSubstorage_of_finds hn hfind bCreate
    have hresolve : Rose.resolve nameMatches ((c :: vpath).map cStr) n =
        (Rose.resolve nameMatches (vpath.map cStr) m).map (i :: ·) := by
      rw [List.map_cons, Rose.resolve_cons, hfind.2.2, Option.bind_some, hm, Option.bind_some]
    rw [walkFolders_cons_of_some succeeded_sOk (by rw [hget]), hget, hresolve]
    rcases ih ((Rose.sub?_append_singleton hn i).trans hm) rfl with
      ⟨r, hr, rfl, htree⟩ | ⟨hnone, hnew⟩
    · exact .inl ⟨i :: r, by rw [hr]; rfl, by simp, htree⟩
    · exact .inr ⟨by rw [hnone]; rfl, hnew⟩
  | @created p q cs c vpath hb hcreate _ ih =>
    rintro t n hn rfl
    subst hb
    have hget := getSubstorage_of_creates hn hcreate
    have hresolve : Rose.resolve nameMatches ((c :: vpath).map cStr) n = none := by
      rw [List.map_cons, Rose.resolve_cons, hcreate.2.2.2.1, Option.bind_none]
    have hleaf := sub?_insertFolder hn (cStr c)
    rw [walkFolders_cons_of_some succeeded_sOk (by rw [hget]), hget, hresolve]
    refine .inr ⟨rfl, ?_⟩
    rcases ih hleaf rfl with ⟨r, hr, rfl, htree⟩ | ⟨-, hnew⟩
    · -- below the new folder there is nothing to find
      obtain ⟨m, hm⟩ := Rose.exists_sub?_of_resolve hr
      cases r with
      | nil => exact ⟨_, by rw [htree, List.append_nil]; exact hleaf, rfl⟩
      | cons i r => simp at hm
    · exact hnew

/-- When every call succeeds, every path that resolves is walked. -/
theorem walks_of_resolve (bCreate : Bool) (hok : ∀ c, Succeeded (hr c)) :
    ∀ {vpath : List WStr} {n : Storage} {p q : Pos},
      Rose.resolve nameMatches (vpath.map cStr) n = some q →
      Walks hr bCreate p n.children vpath (p ++ q)
  | [], n, p, q, h => by
      obtain rfl : [] = q := by simpa using h
      simpa using Walks.here p n.children
  | c :: vpath, n, p, q, h => by
      obtain ⟨i, m, q, hi, hm, hq, rfl⟩ := Rose.exists_of_resolve_cons h
      have hrest := walks_of_resolve bCreate hok (p := p ++ [i]) hq
      rw [List.append_assoc, List.singleton_append] at hrest
      exact .found ⟨hok _, fun j _ => ⟨hok _, hok _⟩, hi⟩ hm hrest

end Loop

/-! ## Paths -/

section Path

variable {hr : Outcomes} {t : Storage} {path : WStr}

/-- The two spellings of the root that `get_storage_bypath` knows. -/
def RootSpelling (path : WStr) : Prop := path = [slash] ∨ path = [slash, slash]

instance (path : WStr) : Decidable (RootSpelling path) := inferInstanceAs (Decidable (_ ∨ _))

theorem getStorageBypath_of_root (h : RootSpelling path) :
    getStorageBypath hr t path = (Error.success, some []) := by
  rcases h with rfl | rfl <;> rfl

theorem splitString_slash_ne_nil (h : path ≠ []) : splitString path [slash] false ≠ [] :=
  splitString_ne_nil h (by simp) false

/-- **What `get_storage_bypath` does** with any other non-empty path: it walks the components. -/
theorem getStorageBypath_cases (hr : Outcomes) (t : Storage) (hne : path ≠ [])
    (hroot : ¬ RootSpelling path) :
    (∃ q, Walks hr false [] t.children (splitString path [slash] false) q ∧
      getStorageBypath hr t path = (0, some q)) ∨
    ((∀ q, ¬ Walks hr false [] t.children (splitString path [slash] false) q) ∧
      getStorageBypath hr t path = (1, none)) := by
  have hlen : ¬ path.length = 0 := by simpa using hne
  have hroot' : ¬ (path = [slash] ∨ path = [slash, slash]) := hroot
  have hsub : t.sub? [] = some t := Rose.sub?_nil t
  rw [getStorageBypath, if_neg hlen, if_neg hroot']
  rcases walkFolders_storage_cases hr false (splitString path [slash] false) hsub with
    ⟨q, hq, hw⟩ | ⟨hno, hw⟩
  · exact .inl ⟨q, hq, by rw [hw]⟩
  · exact .inr ⟨hno, by rw [hw]⟩

/-- Where a path leads in a tree, when no call fails. -/
def lookupPath (t : Storage) (path : WStr) : Option Pos :=
  if path = [] then none
  else if RootSpelling path then some []
  else Rose.resolve nameMatches ((splitString path [slash] false).map cStr) t

theorem resolve_of_walks {q : Pos} {vpath : List WStr} (h : Walks hr false [] t.children vpath q) :
    Rose.resolve nameMatches (vpath.map cStr) t = some q := by
  have := resolve_walkFolders h (Rose.sub?_nil t) rfl (Rose.resolve_nil nameMatches t)
  rwa [tree_walkFolders_false, List.nil_append] at this

/-- **`get_storage_bypath` finds nothing but what the path names**, whatever fails… -/
theorem lookupPath_of_getStorageBypath {p : Pos}
    (h : (getStorageBypath hr t path).2 = some p) :
    lookupPath t path = some p ∧ (getStorageBypath hr t path).1 = 0 := by
  by_cases hne : path = []
  · subst hne
    simp [getStorageBypath] at h
  by_cases hroot : RootSpelling path
  · rw [getStorageBypath_of_root hroot] at h ⊢
    rw [lookupPath, if_neg hne, if_pos hroot]
    exact ⟨h, rfl⟩
  · rw [lookupPath, if_neg hne, if_neg hroot]
    rcases getStorageBypath_cases hr t hne hroot with ⟨q, hq, heq⟩ | ⟨-, heq⟩
    · obtain rfl : q = p := by simpa [heq] using h
      exact ⟨resolve_of_walks hq, by rw [heq]⟩
    · simp [heq] at h

/-- …and finds it when nothing fails. -/
theorem getStorageBypath_of_lookupPath (hok : ∀ c, Succeeded (hr c)) {p : Pos}
    (h : lookupPath t path = some p) : getStorageBypath hr t path = (0, some p) := by
  rw [lookupPath] at h
  by_cases hne : path = []
  · simp [hne] at h
  by_cases hroot : RootSpelling path
  · rw [if_neg hne, if_pos hroot] at h
    rw [getStorageBypath_of_root hroot, h]
    rfl
  · rw [if_neg hne, if_neg hroot] at h
    have hw : Walks hr false [] t.children (splitString path [slash] false) p := by
      simpa using walks_of_resolve false hok (p := []) h
    rcases getStorageBypath_cases hr t hne hroot with ⟨q, hq, heq⟩ | ⟨hno, -⟩
    · obtain rfl : q = p := Option.some.inj ((resolve_of_walks hq).symm.trans h)
      exact heq
    · exact absurd hw (hno p)

theorem exists_sub?_of_lookupPath {p : Pos} (h : lookupPath t path = some p) :
    ∃ n, t.sub? p = some n := by
  rw [lookupPath] at h
  split at h
  · simp at h
  · split at h
    · obtain rfl : [] = p := by simpa using h
      exact ⟨t, Rose.sub?_nil t⟩
    · exact Rose.exists_sub?_of_resolve h

/-- A path keeps leading to a storage that is rewritten under the same name. -/
theorem lookupPath_modifyAt {f : Storage → Storage}
    (hf : ∀ n name, nameMatches (f n).val name = nameMatches n.val name) {p : Pos}
    (h : lookupPath t path = some p) : lookupPath (t.modifyAt f p) path = some p := by
  rw [lookupPath] at h ⊢
  split at h
  · simp at h
  · split at h
    · obtain rfl : [] = p := by simpa using h
      simp [*]
    · simpa [*] using Rose.resolve_modifyAt hf h

/-- A walk of `get_storage_bypath` goes down one level per component. -/
theorem length_of_walks {q : Pos} {vpath : List WStr}
    (h : Walks hr false [] t.children vpath q) : q.length = vpath.length := by
  simpa using Rose.length_of_resolve (resolve_of_walks h)

/-- **Only its own spellings reach the root.** -/
theorem getStorageBypath_eq_root_iff :
    (getStorageBypath hr t path).2 = some [] ↔ RootSpelling path := by
  refine ⟨fun h => ?_, fun h => by rw [getStorageBypath_of_root h]⟩
  by_contra hroot
  have hne : path ≠ [] := by rintro rfl; simp [getStorageBypath] at h
  rcases getStorageBypath_cases hr t hne hroot with ⟨q, hq, heq⟩ | ⟨-, heq⟩
  · obtain rfl : q = [] := by simpa [heq] using h
    have := length_of_walks hq
    exact splitString_slash_ne_nil hne (List.length_eq_zero_iff.mp this.symm)
  · simp [heq] at h

end Path

end MtpRetag
