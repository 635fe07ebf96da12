import MtpRetag.Native.Listing
import MtpRetag.Native.Metadata

/-!
# Native/Bypath — what a path means to `get_storage_bypath`

The **components** of a path are its non-empty pieces between slashes.  `split_string` pushes them,
and behind a final slash one empty string more (`splitString_slash`), which is the name of no
storage.

So a path of joined names is followed name by name, as far as the calls succeed
(`getStorageBypath_joinSlash`), while a final slash loses what the same components lead to:
`answersAlike_iff` is the exact condition under which two spellings are answered alike.
-/

namespace MtpRetag

/-! ## Components -/

/-- The non-empty pieces of a path between its slashes. -/
def components (path : WStr) : List WStr := (path.splitOn slash).filter (· ≠ [])

/-- Names joined by slashes, with or without a leading one. -/
def joinSlash (leading : Bool) (names : List WStr) : WStr :=
  (if leading then [slash] else []) ++ [slash].intercalate names

/-- A piece has no other characters than the path. -/
theorem mem_of_mem_splitOn {c : WChar} {a : WStr} :
    ∀ {path : WStr}, a ∈ path.splitOn slash → c ∈ a → c ∈ path
  | [], ha, hc => by
      obtain rfl : a = [] := by simpa using ha
      simp at hc
  | d :: path, ha, hc => by
      have ih (b : WStr) (hb : b ∈ path.splitOn slash) (h : c ∈ b) : c ∈ d :: path :=
        List.mem_cons_of_mem d (mem_of_mem_splitOn hb h)
      obtain ⟨b, bs, hsplit⟩ := List.exists_cons_of_ne_nil (List.splitOn_ne_nil slash path)
      rw [List.splitOn_cons_eq_if_modifyHead, hsplit] at ha
      rw [hsplit] at ih
      split at ha
      · rcases List.mem_cons.mp ha with rfl | ha
        · simp at hc
        · exact ih a ha hc
      · rcases List.mem_cons.mp ha with rfl | ha
        · exact (List.mem_cons.mp hc).elim (fun h => h ▸ List.mem_cons_self)
            (ih b List.mem_cons_self)
        · exact ih a (List.mem_cons_of_mem b ha) hc

theorem zero_notMem_of_mem_components {path a : WStr} (h0 : (0 : WChar) ∉ path)
    (ha : a ∈ components path) : (0 : WChar) ∉ a := fun h =>
  h0 (mem_of_mem_splitOn (List.mem_of_mem_filter ha) h)

theorem components_of_notMem {s : WStr} (h : slash ∉ s) :
    components s = if s = [] then [] else [s] := by
  rw [components, List.splitOn_eq_singleton h]
  split <;> simp [*]

theorem components_append_slash {a : WStr} (ha : slash ∉ a) (s : WStr) :
    components (a ++ slash :: s) = (if a = [] then [] else [a]) ++ components s := by
  rw [components, List.splitOn_append_cons_self_of_not_mem ha, List.filter_cons, components]
  split <;> simp_all

/-- A leading slash adds no component. -/
theorem components_slash_cons (s : WStr) : components (slash :: s) = components s := by
  simpa using components_append_slash (a := []) (by simp) s

/-- What `split_string` pushes behind the components. -/
def lastEmpty (path : WStr) : List WStr := if fileName path = [] then [[]] else []

theorem splitLoop_slash :
    ∀ {fuel : ℕ} {s : WStr}, s.length ≤ fuel →
      splitLoop [slash] false fuel s = components s ++ lastEmpty s
  | 0, s, h => by
      obtain rfl : s = [] := List.length_eq_zero_iff.mp (Nat.le_zero.mp h)
      rfl
  | fuel + 1, s, h => by
      cases hf : find [slash] s with
      | none =>
        have hs := find_singleton_eq_none.mp hf
        rw [splitLoop_of_notMem hs, components_of_notMem hs, lastEmpty, fileName_of_notMem hs]
        split <;> simp [*]
      | some i =>
        obtain ⟨hnot, hs⟩ := find_singleton_eq_some hf
        have hlen := length_drop_le_of_find (List.cons_ne_nil _ _) hf h
        rw [hs, splitLoop_append_slash hnot, components_append_slash hnot, lastEmpty,
          fileName_append_slash, splitLoop_slash hlen, List.append_assoc, lastEmpty]

/-- **What `split_string` pushes** for a non-empty path: its components, and an empty string if no
file name follows them. -/
theorem splitString_slash {path : WStr} (h : path ≠ []) :
    splitString path [slash] false = components path ++ lastEmpty path := by
  obtain ⟨c, rest, rfl⟩ := List.exists_cons_of_ne_nil h
  rw [splitString_cons]
  split
  case isTrue hc =>
    subst hc
    rw [splitLoop_slash le_rfl, components_slash_cons, lastEmpty, lastEmpty]
    exact congrArg _ (by rw [← fileName_append_slash [] rest]; rfl)
  case isFalse => exact splitLoop_slash le_rfl

theorem zero_notMem_of_mem_splitString {path a : WStr} (hne : path ≠ []) (h0 : (0 : WChar) ∉ path)
    (ha : a ∈ splitString path [slash] false) : (0 : WChar) ∉ a := by
  rw [splitString_slash hne, lastEmpty] at ha
  rcases List.mem_append.mp ha with ha | ha
  · exact zero_notMem_of_mem_components h0 ha
  · split at ha
    · simp [List.mem_singleton.mp ha]
    · simp at ha

theorem components_joinSlash (leading : Bool) {names : List WStr} (hne : names ≠ [])
    (hnames : ∀ a ∈ names, PathName a) : components (joinSlash leading names) = names := by
  have hjoin : components ([slash].intercalate names) = names := by
    rw [components, List.splitOn_intercalate slash (fun a ha => (hnames a ha).slash_notMem) hne,
      List.filter_eq_self]
    exact fun a ha => by simpa using (hnames a ha).ne_nil
  cases leading
  · exact hjoin
  · exact (components_slash_cons _).trans hjoin

theorem zero_notMem_intercalate :
    ∀ {names : List WStr}, (∀ a ∈ names, PathName a) → (0 : WChar) ∉ [slash].intercalate names
  | [], _ => by simp
  | [a], h => by simpa using (h a List.mem_cons_self).zero_notMem
  | a :: b :: names, h => by
      have hslash : (0 : WChar) ≠ slash := by decide
      have ha := (h a List.mem_cons_self).zero_notMem
      have ih := zero_notMem_intercalate fun c hc => h c (List.mem_cons_of_mem a hc)
      rw [List.intercalate_cons_cons]
      simp [ha, hslash, ih]

theorem zero_notMem_joinSlash {leading : Bool} {names : List WStr}
    (hnames : ∀ a ∈ names, PathName a) : (0 : WChar) ∉ joinSlash leading names := by
  have hslash : (0 : WChar) ≠ slash := by decide
  cases leading
  · exact zero_notMem_intercalate hnames
  · exact List.not_mem_cons_of_ne_of_not_mem hslash (zero_notMem_intercalate hnames)

/-- The file name of joined names is the last of them. -/
theorem fileName_intercalate {m : WStr} (hm : slash ∉ m) :
    ∀ names : List WStr, fileName ([slash].intercalate (names ++ [m])) = m
  | [] => by simpa using fileName_of_notMem hm
  | [a] => by simpa [fileName_of_notMem hm] using fileName_append_slash a m
  | a :: b :: names => by
      have hcut : [slash].intercalate (a :: b :: names ++ [m]) =
          a ++ slash :: [slash].intercalate (b :: names ++ [m]) := by simp
      rw [hcut, fileName_append_slash, fileName_intercalate hm (b :: names)]

theorem fileName_joinSlash_ne_nil (leading : Bool) {names : List WStr} (hne : names ≠ [])
    (hnames : ∀ a ∈ names, PathName a) : fileName (joinSlash leading names) ≠ [] := by
  obtain ⟨init, m, rfl⟩ := (List.eq_nil_or_concat' names).resolve_left hne
  have hm := hnames m (by simp)
  have hfile := fileName_intercalate hm.slash_notMem init
  cases leading
  · exact fun h => hm.ne_nil (hfile.symm.trans h)
  · exact fun h => hm.ne_nil (hfile.symm.trans ((fileName_append_slash [] _).symm.trans h))

/-! ## Calls on the way -/

/-- The calls of `get_storage_bypath` that lead from the storage at `p` down the position `q`. -/
def callsTo : Pos → Pos → List Call
  | _, [] => []
  | p, i :: q =>
    .enumStorage p :: (List.range (i + 1)).flatMap (fun j => [.next p j, .getName (p ++ [j])]) ++
      callsTo (p ++ [i]) q

/-- The names lead to the storage at `q`, and no call on the way to it fails. -/
def Arrives (hr : Outcomes) (t : Storage) (names : List WStr) (q : Pos) : Prop :=
  Rose.resolve nameMatches names t = some q ∧ ∀ c ∈ callsTo [] q, Succeeded (hr c)

section Arrival

variable {hr : Outcomes} {t : Storage} {path : WStr}

theorem forall_callsTo_cons {p q : Pos} {i : ℕ} :
    (∀ c ∈ callsTo p (i :: q), Succeeded (hr c)) ↔
      Succeeded (hr (.enumStorage p)) ∧ (∀ j < i + 1, Lists hr p j) ∧
        ∀ c ∈ callsTo (p ++ [i]) q, Succeeded (hr c) := by
  rw [callsTo, List.forall_mem_append, List.forall_mem_cons, List.forall_mem_flatMap, and_assoc]
  simp [Lists]

/-- **The walks that find all their folders** are those the names and the calls allow. -/
theorem walks_false_iff :
    ∀ {vpath : List WStr} {n : Storage} {p q : Pos}, Walks hr false p n.children vpath q ↔
      ∃ r, q = p ++ r ∧ Rose.resolve nameMatches (vpath.map cStr) n = some r ∧
        ∀ c ∈ callsTo p r, Succeeded (hr c)
  | [], n, p, q => by
      constructor
      · rintro ⟨⟩
        exact ⟨[], (List.append_nil p).symm, rfl, by simp [callsTo]⟩
      · rintro ⟨r, rfl, hr, -⟩
        obtain rfl : [] = r := by simpa using hr
        rw [List.append_nil]
        exact .here p n.children
  | name :: vpath, n, p, q => by
      constructor
      · intro h
        cases h with
        | @found _ _ _ _ _ i m hfind hm hrest =>
          obtain ⟨r, rfl, hres, hcalls⟩ := walks_false_iff.mp hrest
          refine ⟨i :: r, by simp, ?_, forall_callsTo_cons.mpr ⟨hfind.1, hfind.2.1, hcalls⟩⟩
          rw [List.map_cons, Rose.resolve_cons, hfind.2.2, Option.bind_some, hm, Option.bind_some,
            hres, Option.map_some]
        | created hb => exact absurd hb Bool.false_ne_true
      · rintro ⟨r, rfl, hres, hcalls⟩
        obtain ⟨i, m, r, hi, hm, hr, rfl⟩ := Rose.exists_of_resolve_cons hres
        obtain ⟨henum, hlists, hcalls⟩ := forall_callsTo_cons.mp hcalls
        refine .found ⟨henum, hlists, hi⟩ hm (walks_false_iff.mpr ⟨r, ?_, hr, hcalls⟩)
        simp

/-- …from the root, for names as the tree has them. -/
theorem walks_root_iff {vpath : List WStr} (h0 : ∀ a ∈ vpath, (0 : WChar) ∉ a) {q : Pos} :
    Walks hr false [] t.children vpath q ↔ Arrives hr t vpath q := by
  have hmap : vpath.map cStr = vpath :=
    (List.map_congr_left fun a ha => cStr_eq_self (h0 a ha)).trans (List.map_id vpath)
  rw [walks_false_iff, hmap]
  simp [Arrives]

/-- The names lead to no storage, or a call on the way to it fails. -/
def Lost (hr : Outcomes) (t : Storage) (names : List WStr) : Prop := ∀ q, ¬ Arrives hr t names q

/-- An answer of `get_storage_bypath` that follows the names as far as they arrive. -/
structure Follows (hr : Outcomes) (t : Storage) (names : List WStr) (r : HRESULT × Option Pos) :
    Prop where
  arrives : ∀ q, Arrives hr t names q → r = (0, some q)
  lost : Lost hr t names → r = (1, none)

/-- **What `get_storage_bypath` answers** for any other path than the root: it follows the strings
that `split_string` pushes. -/
theorem follows_splitString (hr : Outcomes) (t : Storage) (hne : path ≠ [])
    (hroot : ¬ RootSpelling path) (h0 : (0 : WChar) ∉ path) :
    Follows hr t (splitString path [slash] false) (getStorageBypath hr t path) := by
  have hcases := getStorageBypath_cases hr t hne hroot
  simp only [walks_root_iff fun a => zero_notMem_of_mem_splitString hne h0] at hcases
  rcases hcases with ⟨q, hq, heq⟩ | ⟨hno, heq⟩
  · refine ⟨fun q' hq' => ?_, fun hlost => absurd hq (hlost q)⟩
    obtain rfl : q = q' := Option.some.inj (hq.1.symm.trans hq'.1)
    exact heq
  · exact ⟨fun q hq => absurd hq (hno q), fun _ => heq⟩

/-- The answers that arrive. -/
theorem Follows.eq_iff {names : List WStr} {r : HRESULT × Option Pos} (h : Follows hr t names r)
    {q : Pos} : r = (0, some q) ↔ Arrives hr t names q := by
  refine ⟨fun heq => ?_, h.arrives q⟩
  by_contra hq
  have hlost : Lost hr t names := fun q' hq' => by
    obtain rfl : q' = q := by simpa [h.arrives q' hq'] using heq
    exact hq hq'
  simp [h.lost hlost] at heq

/-- **Where a path leads, it arrives** past the calls that succeed, in whatever spelling. -/
theorem getStorageBypath_eq_iff (h0 : (0 : WChar) ∉ path) {q : Pos} :
    getStorageBypath hr t path = (0, some q) ↔
      lookupPath t path = some q ∧ ∀ c ∈ callsTo [] q, Succeeded (hr c) := by
  by_cases hne : path = []
  · simp [hne, getStorageBypath, lookupPath]
  by_cases hroot : RootSpelling path
  · have hsuccess : Error.success = 0 := rfl
    rw [getStorageBypath_of_root hroot, lookupPath, if_neg hne, if_pos hroot, hsuccess]
    simp only [Prod.mk.injEq, Option.some.injEq, true_and]
    exact ⟨fun h => ⟨h, by simp [← h, callsTo]⟩, fun h => h.1⟩
  · have hnames (a : WStr) (ha : a ∈ splitString path [slash] false) : cStr a = a :=
      cStr_eq_self (zero_notMem_of_mem_splitString hne h0 ha)
    rw [(follows_splitString hr t hne hroot h0).eq_iff, Arrives, lookupPath, if_neg hne,
      if_neg hroot, List.map_congr_left hnames, List.map_id']

/-- What a lookup finds: an item with the attribute, where the path leads and arrives. -/
theorem existMtp_eq_true_iff {attributes : Attributes} {attr dwAttrib : UInt32} :
    existMtp attr hr attributes dwAttrib t path = true ↔
      ∃ q, lookupPath t (cStr path) = some q ∧ (∀ c ∈ callsTo [] q, Succeeded (hr c)) ∧
        hasAttr (if Succeeded (hr (.getAttributes q)) then attributes q else dwAttrib) attr =
          true := by
  rw [existMtp]
  constructor
  · intro h
    rcases hget : getStorageBypath hr t (cStr path) with ⟨ret, _ | q⟩
    · simp [hget] at h
    · rw [hget] at h
      obtain ⟨hret, hattr⟩ := of_decide_eq_true h
      rw [hret, getStorageBypath_eq_iff (zero_notMem_cStr path)] at hget
      exact ⟨q, hget.1, hget.2, hattr⟩
  · rintro ⟨q, hq, hcalls, hattr⟩
    rw [(getStorageBypath_eq_iff (zero_notMem_cStr path)).mpr ⟨hq, hcalls⟩]
    simpa using hattr

/-- A path keeps leading where it led when the tree grows. -/
theorem lookupPath_grows {f : Storage → Storage} (hf : Rose.Grows f) {p q : Pos}
    (h : lookupPath t path = some q) : lookupPath (t.modifyAt f p) path = some q := by
  rw [lookupPath] at h ⊢
  split at h
  · simp at h
  · split at h
    · simp [*]
    · simpa [*] using hf.resolve_modifyAt h

end Arrival

/-- **Joined names are followed exactly** — each to the first child of that name ignoring case, and
only past calls that succeed. -/
theorem getStorageBypath_joinSlash (hr : Outcomes) (t : Storage) (leading : Bool)
    (names : List WStr) (hne : names ≠ []) (hnames : ∀ a ∈ names, PathName a) :
    Follows hr t names (getStorageBypath hr t (joinSlash leading names)) := by
  have hcomp := components_joinSlash leading hne hnames
  have hfile := fileName_joinSlash_ne_nil leading hne hnames
  have hpath : joinSlash leading names ≠ [] := fun h => hfile (by rw [h]; rfl)
  have hroot : ¬ RootSpelling (joinSlash leading names) := by
    rintro (h | h) <;> exact hfile (by rw [h]; rfl)
  have hfollows := follows_splitString hr t hpath hroot
    (zero_notMem_joinSlash hnames)
  rwa [splitString_slash hpath, hcomp, lastEmpty, if_neg hfile, List.append_nil] at hfollows

/-- A player with one track in its music folder. -/
def musicPlayer : UsbDevice :=
  { UsbDevice.emptyPlayer (wide "player") with
    rootStorage := .node ⟨[], .folder, .empty, []⟩
      [.node ⟨wide "Music", .folder, .empty, []⟩ [.node ⟨wide "b.mp3", .file, .empty, []⟩ []]] }

theorem getStorageBypath_joinSlash_musicPlayer :
    getStorageBypath (fun _ => sOk) musicPlayer.rootStorage
      (joinSlash true [wide "music", wide "B.MP3"]) = (0, some [0, 0]) := by
  have hnames : ∀ a ∈ [wide "music", wide "B.MP3"], PathName a := by
    refine List.forall_mem_cons.mpr ⟨⟨by decide, by decide, by decide⟩, ?_⟩
    exact List.forall_mem_singleton.mpr ⟨by decide, by decide, by decide⟩
  exact (getStorageBypath_joinSlash (fun _ => sOk) musicPlayer.rootStorage true
    [wide "music", wide "B.MP3"] (by decide) hnames).arrives [0, 0]
      ⟨rfl, fun _ _ => succeeded_sOk⟩

/-! ## Spellings -/

/-- A final slash, other than in the two spellings of the root. -/
def Dangling (path : WStr) : Prop := path.getLast? = some slash ∧ ¬ RootSpelling path

instance (path : WStr) : Decidable (Dangling path) := inferInstanceAs (Decidable (_ ∧ _))

/-- Every storage below the root has a name. -/
def Named (t : Storage) : Prop :=
  ∀ q n, t.sub? q = some n → ∀ c ∈ n.children, c.val.name ≠ []

/-- Two paths that the four lookups of a device answer alike. -/
structure AnswersAlike (hr : Outcomes) (attributes : Attributes) (usbdev : UsbDevice)
    (a b : WStr) : Prop where
  bypath : getStorageBypath hr usbdev.rootStorage a = getStorageBypath hr usbdev.rootStorage b
  existFile : ∀ dwAttrib, existFileMtp hr attributes dwAttrib usbdev.rootStorage a =
    existFileMtp hr attributes dwAttrib usbdev.rootStorage b
  existFolder : ∀ dwAttrib, existFolderMtp hr attributes dwAttrib usbdev.rootStorage a =
    existFolderMtp hr attributes dwAttrib usbdev.rootStorage b
  parseFolder : parseFolderMtp hr attributes usbdev.rootStorage a =
    parseFolderMtp hr attributes usbdev.rootStorage b
  getMetadata : usbdev.getMetadata hr a = usbdev.getMetadata hr b

section Spelling

variable {hr : Outcomes} {t : Storage} {path : WStr}

theorem fileName_eq_nil_iff (h : path ≠ []) :
    fileName path = [] ↔ path.getLast? = some slash := by
  rw [fileName, List.rtakeWhile_eq_nil_iff, List.getLast?_eq_some_getLast h]
  simp [h]

/-- No storage has the empty name. -/
theorem lost_of_nil_mem (ht : Named t) {names : List WStr} (h : [] ∈ names) : Lost hr t names := by
  intro q hq
  obtain ⟨p, n, hn, c, hc, hmatch⟩ := Rose.exists_match_of_resolve hq.1 h
  refine ht p n hn c hc ?_
  simpa [nameMatches, makeLower] using hmatch

/-- A path without a dangling slash is followed by its components… -/
theorem follows_of_not_dangling (hr : Outcomes) (t : Storage) (hne : path ≠ [])
    (h0 : (0 : WChar) ∉ path) (h : ¬ Dangling path) :
    Follows hr t (components path) (getStorageBypath hr t path) := by
  by_cases hroot : RootSpelling path
  · have hcomp : components path = [] := by rcases hroot with rfl | rfl <;> decide
    have hhere : Arrives hr t [] [] := ⟨rfl, by simp [callsTo]⟩
    rw [getStorageBypath_of_root hroot, hcomp]
    refine ⟨fun q hq => ?_, fun hlost => absurd hhere (hlost [])⟩
    obtain rfl : [] = q := Option.some.inj hq.1
    rfl
  · have hfile : fileName path ≠ [] := fun hf => h ⟨(fileName_eq_nil_iff hne).mp hf, hroot⟩
    have hfollows := follows_splitString hr t hne hroot h0
    rwa [splitString_slash hne, lastEmpty, if_neg hfile, List.append_nil] at hfollows

/-- …and one with a dangling slash leads nowhere. -/
theorem getStorageBypath_of_dangling (ht : Named t) (h0 : (0 : WChar) ∉ path)
    (h : Dangling path) : getStorageBypath hr t path = (1, none) := by
  have hne : path ≠ [] := by
    rintro rfl
    simp [Dangling] at h
  refine (follows_splitString hr t hne h.2 h0).lost (lost_of_nil_mem ht ?_)
  rw [splitString_slash hne, lastEmpty, if_pos ((fileName_eq_nil_iff hne).mpr h.1)]
  simp

/-- Names arrive at one storage or are lost. -/
theorem Follows.eq {names : List WStr} {r s : HRESULT × Option Pos} (hr' : Follows hr t names r)
    (hs : Follows hr t names s) : r = s := by
  by_cases hlost : Lost hr t names
  · rw [hr'.lost hlost, hs.lost hlost]
  · obtain ⟨q, hq⟩ := not_forall_not.mp hlost
    rw [hr'.arrives q hq, hs.arrives q hq]

/-- An answer of its own is the answer of a lost path only. -/
theorem Follows.eq_lost_iff {names : List WStr} {r : HRESULT × Option Pos}
    (h : Follows hr t names r) : r = (1, none) ↔ Lost hr t names := by
  refine ⟨fun hr' q hq => ?_, h.lost⟩
  rw [h.arrives q hq] at hr'
  exact absurd hr' (by simp)

end Spelling

/-- All four lookups ask `get_storage_bypath` first, and use the path for nothing else. -/
theorem answersAlike_iff_bypath (hr : Outcomes) (attributes : Attributes) (usbdev : UsbDevice)
    (a b : CString) :
    AnswersAlike hr attributes usbdev a.1 b.1 ↔
      getStorageBypath hr usbdev.rootStorage a.1 = getStorageBypath hr usbdev.rootStorage b.1 := by
  refine ⟨AnswersAlike.bypath, fun h => ?_⟩
  have hstr : getStorageBypath hr usbdev.rootStorage (cStr a.1) =
      getStorageBypath hr usbdev.rootStorage (cStr b.1) := by
    rw [cStr_eq_self a.2, cStr_eq_self b.2, h]
  have hexist (attr dwAttrib : UInt32) :
      existMtp attr hr attributes dwAttrib usbdev.rootStorage a.1 =
        existMtp attr hr attributes dwAttrib usbdev.rootStorage b.1 := by
    rw [existMtp, existMtp, hstr]
  constructor
  · exact h
  · exact hexist attrFile
  · exact hexist attrFolder
  · rw [parseFolderMtp, parseFolderMtp, hstr]
  · rw [UsbDevice.getMetadata, UsbDevice.getMetadata, hstr]

/-- **When slashes do not matter.**  Two spellings of the same components are answered alike exactly
when both or neither have a dangling slash, or the components are lost anyway. -/
theorem answersAlike_iff (hr : Outcomes) (attributes : Attributes) (usbdev : UsbDevice)
    (a b : CString) (hnamed : Named usbdev.rootStorage) (ha : a.1 ≠ []) (hb : b.1 ≠ [])
    (hab : components a.1 = components b.1) :
    AnswersAlike hr attributes usbdev a.1 b.1 ↔
      ((Dangling a.1 ↔ Dangling b.1) ∨ Lost hr usbdev.rootStorage (components a.1)) := by
  rw [answersAlike_iff_bypath]
  by_cases hda : Dangling a.1 <;> by_cases hdb : Dangling b.1
  · rw [getStorageBypath_of_dangling hnamed a.2 hda, getStorageBypath_of_dangling hnamed b.2 hdb]
    exact iff_of_true rfl (.inl (iff_of_true hda hdb))
  · have hfollows := follows_of_not_dangling hr usbdev.rootStorage hb b.2 hdb
    rw [getStorageBypath_of_dangling hnamed a.2 hda, hab, ← hfollows.eq_lost_iff, eq_comm]
    simp [hda, hdb]
  · have hfollows := follows_of_not_dangling hr usbdev.rootStorage ha a.2 hda
    rw [getStorageBypath_of_dangling hnamed b.2 hdb, ← hfollows.eq_lost_iff]
    simp [hda, hdb]
  · have hfa := follows_of_not_dangling hr usbdev.rootStorage ha a.2 hda
    have hfb := follows_of_not_dangling hr usbdev.rootStorage hb b.2 hdb
    rw [← hab] at hfb
    exact iff_of_true (hfa.eq hfb) (.inl (iff_of_false hda hdb))

/-- A storage is named below if its children have names and are named below. -/
theorem named_node {info : StorageInfo} {cs : List Storage}
    (h : ∀ c ∈ cs, c.val.name ≠ [] ∧ Named c) : Named (.node info cs) := by
  intro q n hn c hc
  cases q with
  | nil =>
    obtain rfl : Rose.node info cs = n := by simpa using hn
    exact (h c hc).1
  | cons i q =>
    rw [Rose.sub?_cons] at hn
    obtain ⟨d, hd, hn⟩ := Option.bind_eq_some_iff.mp hn
    exact (h d (List.mem_of_getElem? hd)).2 q n hn c hc

theorem named_musicPlayer : Named musicPlayer.rootStorage := by
  refine named_node (List.forall_mem_singleton.mpr ⟨by decide, ?_⟩)
  refine named_node (List.forall_mem_singleton.mpr ⟨by decide, ?_⟩)
  exact named_node (List.forall_mem_nil _)

theorem answersAlike_iff_musicPlayer :
    AnswersAlike (fun _ => sOk) (fun _ => attrFile) musicPlayer (wide "/Music/b.mp3")
        (wide "//Music//b.mp3") ↔
      ((Dangling (wide "/Music/b.mp3") ↔ Dangling (wide "//Music//b.mp3")) ∨
        Lost (fun _ => sOk) musicPlayer.rootStorage (components (wide "/Music/b.mp3"))) :=
  answersAlike_iff (fun _ => sOk) (fun _ => attrFile) musicPlayer
    ⟨wide "/Music/b.mp3", by decide⟩ ⟨wide "//Music//b.mp3", by decide⟩ named_musicPlayer
    (by decide) (by decide) (by decide)

/-- The same folder with a slash behind it is not found. -/
theorem not_answersAlike_slash_behind :
    Named musicPlayer.rootStorage ∧ components (wide "/Music") = components (wide "/Music/") ∧
      ¬ AnswersAlike (fun _ => sOk) (fun _ => attrFolder) musicPlayer (wide "/Music")
        (wide "/Music/") := by
  refine ⟨named_musicPlayer, by decide, fun h => ?_⟩
  exact absurd (h.existFolder 0) (by decide)

end MtpRetag
