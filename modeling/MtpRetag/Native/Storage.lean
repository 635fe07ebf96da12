import MtpRetag.Native.Basic
import MtpRetag.Machinery.Rose
import Mathlib.Logic.Function.Basic

/-!
# Native/Storage — the device's storage tree and the WMDM calls made on it

A WMDM storage is a node of the device's tree.  An `IWMDMStorage*` is modelled by the position of
its node, so a pointer the code holds is an `Option Pos`.  A folder is inserted behind its future
siblings, which keeps every position in the tree valid.
-/

namespace MtpRetag

/-! ## Metadata -/

/-- The WMDM attribute names the library writes or reads (`g_wszWMDM…`). -/
inductive MetaKey
  | title
  | author
  | albumTitle
  | albumArt
  | genre
  | userRating
  | formatCode
  | persistentUniqueID
  deriving DecidableEq, Repr

inductive TagDatatype
  | string
  | dword
  deriving DecidableEq, Repr

/-- One metadata item: its type and its bytes. -/
structure MetaItem where
  type : TagDatatype
  value : List UInt8
  deriving DecidableEq, Repr

/-- An `IWMDMMetaData` object. -/
abbrev MetaData := MetaKey → Option MetaItem

/-- What `CreateEmptyMetadataObject` returns. -/
def MetaData.empty : MetaData := fun _ => none

/-! ## Storages -/

inductive StorageKind
  | file
  | folder
  deriving DecidableEq, Repr

structure StorageInfo where
  name : WStr
  kind : StorageKind
  metadata : MetaData
  content : List UInt8

/-- The device's tree. -/
abbrev Storage := Rose StorageInfo

/-- Where a storage lies in the tree: what an `IWMDMStorage*` points to. -/
abbrev Pos := List ℕ

/-- The storages `EnumStorage` enumerates on the storage at `p`. -/
def childrenAt (t : Storage) (p : Pos) : List Storage := (t.sub? p).elim [] Rose.children

/-- The comparison of `get_substorage`: lower-cased names. -/
def nameMatches (s : StorageInfo) (folder : WStr) : Bool := makeLower s.name = makeLower folder

/-! ## Calls -/

/-- The WMDM and COM calls of the library that may fail.  Each is made at most once during one
operation, so the site and the storage identify it. -/
inductive Call
  /-- `CoCreateInstance` of the progress notifier. -/
  | coCreateInstance
  | queryProgress
  | enumStorage (p : Pos)
  | next (p : Pos) (i : ℕ)
  | getName (p : Pos)
  /-- `QueryInterface` for `IWMDMStorage`. -/
  | queryStorage (p : Pos)
  | queryStorage3 (p : Pos)
  | queryControl (p : Pos)
  | queryControl3 (p : Pos)
  /-- `Insert3` or `Insert` of a folder into the storage at `p`. -/
  | insertFolder (p : Pos)
  /-- `Insert3` of a file into the storage at `p`. -/
  | insertFile (p : Pos)
  | delete (p : Pos)
  /-- `Read` of the storage at `p` into a local file. -/
  | read (p : Pos)
  | getAttributes (p : Pos)
  | createEmptyMetadata (p : Pos)
  | getMetadata (p : Pos)
  | setMetadata (p : Pos)
  | addItem (k : MetaKey)
  | queryByName (k : MetaKey)
  /-- `QueryByName` of the persistent ID of the storage at `p`. -/
  | queryItemId (p : Pos)
  deriving DecidableEq, Repr

/-- Which calls of an operation fail, and with what.  A call that succeeds has its effect and hands
out its object; one that fails has none and hands out NULL. -/
abbrev Outcomes := Call → HRESULT

/-- `AddItem`, which replaces an item of the same name. -/
def addItem (hr : Outcomes) (md : MetaData) (k : MetaKey) (item : MetaItem) : MetaData :=
  if Succeeded (hr (.addItem k)) then Function.update md k (some item) else md

/-- `Insert3` or `Insert` of a folder: a new last child. -/
def insertFolder (folder : WStr) (parent : Storage) : Storage :=
  .node parent.val (parent.children ++ [.node ⟨folder, .folder, .empty, []⟩ []])

/-- The child of `parent` that `Insert3` writes with `WMDM_FILE_CREATE_OVERWRITE`: the first one the
device takes for the same file (`sameName`), or a new last one. -/
def insertIndex (sameName : WStr → WStr → Bool) (parent : Storage) (name : WStr) : ℕ :=
  (Rose.firstMatch (fun s name => sameName s.name name) parent.children name).getD
    parent.children.length

/-- `Insert3` of a file with `WMDM_FILE_CREATE_OVERWRITE`. -/
def insertFile (sameName : WStr → WStr → Bool) (file : StorageInfo) (parent : Storage) : Storage :=
  let i := insertIndex sameName parent file.name
  .node parent.val
    (if i < parent.children.length then parent.children.set i (.node file [])
      else parent.children ++ [.node file []])

@[simp] theorem val_insertFolder (folder : WStr) (s : Storage) :
    (insertFolder folder s).val = s.val := rfl

theorem grows_insertFolder (folder : WStr) : Rose.Grows (insertFolder folder) where
  val _ := rfl
  children n := List.prefix_append n.children _

@[simp] theorem val_insertFile (sameName : WStr → WStr → Bool) (file : StorageInfo) (s : Storage) :
    (insertFile sameName file s).val = s.val := rfl

theorem insertIndex_le (sameName : WStr → WStr → Bool) (parent : Storage) (name : WStr) :
    insertIndex sameName parent name ≤ parent.children.length := by
  rw [insertIndex]
  cases h : Rose.firstMatch (fun s name => sameName s.name name) parent.children name with
  | none => rfl
  | some i =>
    obtain ⟨c, hc, -⟩ := Rose.getElem?_of_firstMatch h
    exact (List.getElem?_eq_some_iff.mp hc).1.le

/-- The inserted file is where `insertIndex` says. -/
theorem getElem?_insertFile (sameName : WStr → WStr → Bool) (file : StorageInfo)
    (parent : Storage) :
    (insertFile sameName file parent).children[insertIndex sameName parent file.name]? =
      some (.node file []) := by
  have hle := insertIndex_le sameName parent file.name
  rw [insertFile, Rose.children_node]
  split
  case isTrue h => simp [h]
  case isFalse h =>
    have heq : insertIndex sameName parent file.name = parent.children.length := by omega
    simp [heq]

/-- A child with another name than the file's, as the device compares them, is not written over. -/
theorem ne_insertIndex {sameName : WStr → WStr → Bool} {parent d : Storage} {name : WStr} {j : ℕ}
    (hd : parent.children[j]? = some d) (hname : sameName d.val.name name = false) :
    j ≠ insertIndex sameName parent name := by
  rintro rfl
  rw [insertIndex] at hd
  cases hmatch : Rose.firstMatch (fun s name => sameName s.name name) parent.children name with
  | none => simp [hmatch] at hd
  | some k =>
    rw [hmatch, Option.getD_some] at hd
    obtain ⟨e, he, hsame⟩ := Rose.getElem?_of_firstMatch hmatch
    obtain rfl : e = d := Option.some.inj (he.symm.trans hd)
    exact absurd (hname.symm.trans hsame) Bool.false_ne_true

/-- Its siblings stay what and where they were. -/
theorem getElem?_insertFile_of_ne {sameName : WStr → WStr → Bool} {file : StorageInfo}
    {parent : Storage} {j : ℕ} (h : j ≠ insertIndex sameName parent file.name) :
    (insertFile sameName file parent).children[j]? = parent.children[j]? := by
  have hle := insertIndex_le sameName parent file.name
  rw [insertFile, Rose.children_node]
  split
  case isTrue => rw [List.getElem?_set_ne h.symm]
  case isFalse hlt =>
    rw [List.getElem?_append]
    split
    · rfl
    · rw [List.getElem?_eq_none (by simp; omega), List.getElem?_eq_none (by omega)]

/-- A lookup finds the inserted file, unless an older sibling before it matches… -/
theorem firstMatch_insertFile_of_le {sameName : WStr → WStr → Bool} {file : StorageInfo}
    {parent : Storage}
    (h : ∀ j, Rose.firstMatch nameMatches parent.children file.name = some j →
      insertIndex sameName parent file.name ≤ j) :
    Rose.firstMatch nameMatches (insertFile sameName file parent).children file.name =
      some (insertIndex sameName parent file.name) := by
  refine Rose.firstMatch_eq_some_of_pairwise (getElem?_insertFile sameName file parent)
    (by simp [nameMatches]) fun j d hj hd => ?_
  rw [getElem?_insertFile_of_ne hj.ne] at hd
  exact Rose.match_eq_false_of_le_firstMatch h hj hd

/-- …which it then finds as before. -/
theorem firstMatch_insertFile_of_lt {sameName : WStr → WStr → Bool} {file : StorageInfo}
    {parent : Storage} {j : ℕ}
    (hj : Rose.firstMatch nameMatches parent.children file.name = some j)
    (hlt : j < insertIndex sameName parent file.name) :
    Rose.firstMatch nameMatches (insertFile sameName file parent).children file.name = some j := by
  obtain ⟨c, hc, hm⟩ := Rose.getElem?_of_firstMatch hj
  have hfirst (l : ℕ) (hl : Rose.firstMatch nameMatches parent.children file.name = some l) :
      j ≤ l := (Option.some.inj (hj.symm.trans hl)).le
  refine Rose.firstMatch_eq_some_of_pairwise ((getElem?_insertFile_of_ne hlt.ne).trans hc) hm
    fun i d hi hd => ?_
  rw [getElem?_insertFile_of_ne (hi.trans hlt).ne] at hd
  exact Rose.match_eq_false_of_le_firstMatch hfirst hi hd

/-- On a device that compares names as `get_substorage` does, no older sibling comes before. -/
theorem insertIndex_le_of_firstMatch {sameName : WStr → WStr → Bool}
    (hname : ∀ a b, sameName a b = decide (makeLower a = makeLower b)) {parent : Storage}
    {name : WStr} {j : ℕ} (hj : Rose.firstMatch nameMatches parent.children name = some j) :
    insertIndex sameName parent name ≤ j := by
  have hmatch : (fun (s : StorageInfo) name => sameName s.name name) = nameMatches :=
    funext fun s => funext fun name => hname s.name name
  rw [insertIndex, hmatch, hj, Option.getD_some]

theorem childrenAt_of_sub? {t n : Storage} {p : Pos} (h : t.sub? p = some n) :
    childrenAt t p = n.children := by simp [childrenAt, h]

end MtpRetag
