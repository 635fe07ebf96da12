import MtpRetag.App.CopyList
import MtpRetag.Native.Transfer

/-!
# App/Destination — from a path of the list to a file on the device

The Copy handler turns each path of the list into a `CopyFileDetails`: an album, a title and an
artist from the tags or from the path, and a destination, which is the last component of the path in
the folder `/Music`.  Two paths with one last component have one destination (`destination_inj`), so
a batch keeps all its files exactly when the device can tell the last components apart
(`held_of_inserts`).
-/

namespace MtpRetag

/-! ## `addFileToTransferQueue` -/

/-- `CopyFileDetails`, without the notifier, which never asks for anything. -/
structure CopyFileDetails where
  source : WStr
  destination : WStr
  fm : FileMetadata
  deriving DecidableEq, Repr

/-- `fileName.substring(fileName.lastIndexOf("\\") + 1)`. -/
def lastComponent (fileName : WStr) : WStr := fileName.rtakeWhile (· ≠ backslash)

def musicFolder : WStr := wide "Music"

def destination (fileName : WStr) : WStr := slash :: musicFolder ++ slash :: lastComponent fileName

/-- What `addFileToTransferQueue` adds to the queue. -/
def addFileToTransferQueue (fileName album title artist : WStr) : CopyFileDetails :=
  { source := fileName
    destination := destination fileName
    fm := { title := title, artist := artist, album := album, genre := wide "MtpCopyGenre",
            rating := 0 } }

/-! ## The tags of a file -/

/-- How reading the tags of a file ends: with the first artist and the first title of the tag, if it
has any, with a `CannotReadException`, or with another exception. -/
inductive TagOutcome
  | tag (artist title : Option WStr)
  | cannotRead
  | threw
  deriving DecidableEq, Repr

/-- `path.split("\\\\")`: the pieces between the backslashes, less the empty ones at the end. -/
def pathTokens (path : WStr) : List WStr :=
  if backslash ∈ path then (path.splitOn backslash).rdropWhile (· = []) else [path]

/-- The names of the two directories above a file. -/
def albumOf (tokens : List WStr) : WStr :=
  let album := ((tokens.reverse[2]?).elim [] (· ++ [slash])) ++
    ((tokens.reverse[1]?).elim [] (· ++ [slash]))
  if album = [] then wide "unknown album" else album

/-- One round of the Copy handler's loop over the list; `none` is an exception that leaves it. -/
def copyFileDetails (path : WStr) : TagOutcome → Option CopyFileDetails
  | .tag artist title =>
    (artist.or (pathTokens path).reverse[1]?).bind fun artist =>
      (title.or (pathTokens path).reverse[0]?).map fun title =>
        addFileToTransferQueue path (albumOf (pathTokens path)) title artist
  | .cannotRead =>
    some (addFileToTransferQueue path (albumOf (pathTokens path)) (wide "unknown title")
      (wide "unknown artist"))
  | .threw => none

/-- Whatever the tags, the file goes where its path says. -/
theorem destination_copyFileDetails {path : WStr} {o : TagOutcome} {details : CopyFileDetails}
    (h : copyFileDetails path o = some details) :
    details.source = path ∧ details.destination = destination path := by
  cases o with
  | tag artist title =>
    obtain ⟨artist, -, h⟩ := Option.bind_eq_some_iff.mp h
    obtain ⟨title, -, rfl⟩ := Option.map_eq_some_iff.mp h
    exact ⟨rfl, rfl⟩
  | cannotRead =>
    obtain rfl := Option.some.inj h
    exact ⟨rfl, rfl⟩
  | threw => exact absurd h (by simp [copyFileDetails])

/-! ## Destinations -/

/-- **Destinations are told apart by last components**, and by nothing else. -/
theorem destination_inj {f g : WStr} :
    destination f = destination g ↔ lastComponent f = lastComponent g := by
  refine ⟨fun h => ?_, fun h => by rw [destination, destination, h]⟩
  exact List.cons.inj (List.append_cancel_left h) |>.2

theorem slash_notMem_lastComponent {f : WStr} (h : slash ∉ f) : slash ∉ lastComponent f :=
  fun hmem => h ((List.rtakeWhile_suffix _ f).subset hmem)

theorem splitString_destination {f : WStr} (h : slash ∉ f) :
    splitString (destination f) [slash] false = [musicFolder, lastComponent f] :=
  splitString_folder_file (by decide) (by decide) (slash_notMem_lastComponent h)

theorem fileName_destination {f : WStr} (h : slash ∉ f) :
    fileName (destination f) = lastComponent f := by
  have hne : destination f ≠ [] := by simp [destination]
  have hlast := getLast?_splitString hne false
  rw [splitString_destination h] at hlast
  simpa using hlast.symm

/-! ## A batch on the device -/

/-- The queued file as the worker sends it, with the outcomes its calls will meet. -/
def CopyFileDetails.job (details : CopyFileDetails) (hr : Outcomes) : CopyJob :=
  { source := details.source, destination := details.destination, fm := details.fm, hr := hr }

/-- Every `sendFile` of a batch inserts its file; from the registry before to the one after. -/
inductive Inserts (w : World) (jni : Jni) (jdev : WStr) :
    Option Registry → List CopyJob → Option Registry → Prop
  | nil (pasmgr : Option Registry) : Inserts w jni jdev pasmgr [] pasmgr
  | cons {pasmgr pasmgr' : Option Registry} {details : CopyJob} {queue : List CopyJob}
      {call : SendCall}
      (hcall : sendFile w jni pasmgr details.hr jdev details.source details.destination
        (some details.fm) = .ok call)
      (hins : call.insert3 = some sOk)
      (hrest : Inserts w jni jdev call.listDevices queue pasmgr') :
      Inserts w jni jdev pasmgr (details :: queue) pasmgr'

/-- The folder `/Music` of a tree has a child with the name and the content of the file `f`. -/
def InMusic (w : World) (f : WStr) (t : Storage) : Prop :=
  ∃ (i j : ℕ) (n c : Storage), Rose.firstMatch nameMatches t.children musicFolder = some i ∧
    t.children[i]? = some n ∧ n.children[j]? = some c ∧
    c.val.name = lastComponent f ∧ c.val.content = w.content f

/-- The device holds the file `f`. -/
def Held (w : World) (jni : Jni) (jdev : WStr) (pasmgr : Option Registry) (f : WStr) : Prop :=
  ∃ listDevices usbdev, pasmgr = some listDevices ∧
    getInternaldevice jni listDevices jdev = some usbdev ∧ InMusic w f usbdev.rootStorage

/-- The strings of a queued file reach the native code unchanged. -/
def Crosses (jni : Jni) (f : WStr) : Prop :=
  (jni.ca2w f).1 = f ∧ (jni.ca2w (destination f)).1 = destination f

instance (jni : Jni) (f : WStr) : Decidable (Crosses jni f) := inferInstanceAs (Decidable (_ ∧ _))

section Batch

variable {w : World} {jni : Jni} {jdev : WStr} {hr : Outcomes} {t : Storage}

/-- Walking to a folder that exists leaves the tree alone. -/
theorem tree_walkFolders_music {i : ℕ}
    (h : Rose.firstMatch nameMatches t.children (cStr musicFolder) = some i) :
    (walkFolders hr true sOk [musicFolder] t (some []) 0).tree = t := by
  rcases getSubstorage_cases hr (Rose.sub?_nil t) (cStr musicFolder) true with
    ⟨j, -, hget⟩ | ⟨-, hc, -⟩ | ⟨-, -, hnone, htree⟩
  · rw [walkFolders_cons_of_some succeeded_sOk (by rw [hget]), hget]
    rfl
  · exact absurd (hc.2.2.2.1.symm.trans h) (by simp)
  · simp [walkFolders, hnone, htree]

/-- **One file**: it is in the folder afterwards, and what was there under another name still is. -/
theorem inMusic_transferMtp {src dest : WStr} {m : FileMetadata} {r : TransferResult} {f : WStr}
    (hf : slash ∉ f) (h0f : (0 : WChar) ∉ lastComponent f) (hsrc : cStr src = f)
    (hdest : dest = destination f) (h : transferMtp w hr t src dest (some m) = .ok r)
    (hins : r.insert3 = some sOk) :
    InMusic w f r.tree ∧ ∀ g, InMusic w g t →
      w.sameName (lastComponent g) (lastComponent f) = false → InMusic w g r.tree := by
  have hmusic : cStr musicFolder = musicFolder := by decide
  obtain ⟨-, q, tree, n, spMeta, hres, htree, -, hn, -, hr', -⟩ := transferMtp_inserted h hins
  rw [hdest, splitString_destination hf] at hres htree
  rw [hdest, fileName_destination hf, cStr_eq_self h0f, hsrc] at hr'
  -- the folder is the `i`-th child of the root
  have hcomps : [musicFolder, lastComponent f].dropLast.map cStr = [musicFolder] := by
    rw [List.dropLast_cons_cons, List.dropLast_singleton, List.map_singleton, hmusic]
  rw [hcomps] at hres
  obtain ⟨i, c, _, hi, hc, hnil, rfl⟩ := Rose.exists_of_resolve_cons hres
  obtain rfl := Option.some.inj hnil
  obtain rfl : c = n := by simpa [hc] using hn
  -- the insertion rewrites that child
  let file : StorageInfo := ⟨lastComponent f, .file, spMeta, w.content f⟩
  have hroot : r.tree.children = tree.children.modify i (insertFile w.sameName file) := by
    rw [hr']
    rfl
  have hval : ∀ n k, nameMatches (insertFile w.sameName file n).val k = nameMatches n.val k :=
    fun _ _ => rfl
  have hi' : Rose.firstMatch nameMatches r.tree.children musicFolder = some i := by
    rw [hroot, Rose.firstMatch_modify hval, hi]
  have hc' : r.tree.children[i]? = some (insertFile w.sameName file c) := by
    rw [hroot, List.getElem?_modify_eq, hc]
    rfl
  refine ⟨⟨i, _, _, _, hi', hc', getElem?_insertFile w.sameName _ c, rfl, rfl⟩, ?_⟩
  rintro g ⟨i₀, j, n₀, d, hi₀, hn₀, hd, hname, hcontent⟩ hne
  have ht : tree = t := by
    rw [htree, List.dropLast_cons_cons, List.dropLast_singleton]
    exact tree_walkFolders_music (by rw [hmusic]; exact hi₀)
  subst ht
  obtain rfl : i₀ = i := Option.some.inj (hi₀.symm.trans hi)
  obtain rfl : n₀ = c := Option.some.inj (hn₀.symm.trans hc)
  -- the device does not take `g` for the file to overwrite
  have hj : j ≠ insertIndex w.sameName n₀ (lastComponent f) := ne_insertIndex hd (hname ▸ hne)
  exact ⟨i₀, j, _, d, hi', hc', by rw [getElem?_insertFile_of_ne hj, hd], hname, hcontent⟩

/-- The same for `sendFile`. -/
theorem held_sendFile {pasmgr : Option Registry} {fm : FileMetadata} {call : SendCall} {f : WStr}
    (hf : slash ∉ f) (hcross : Crosses jni f)
    (h : sendFile w jni pasmgr hr jdev f (destination f) (some fm) = .ok call)
    (hins : call.insert3 = some sOk) :
    Held w jni jdev call.listDevices f ∧ ∀ g, Held w jni jdev pasmgr g →
      w.sameName (lastComponent g) (lastComponent f) = false →
      Held w jni jdev call.listDevices g := by
  obtain ⟨listDevices, usbdev, r, rfl, hdev, -, htr, hr3, rfl⟩ := sendFile_inserted h hins
  have h0 : (0 : WChar) ∉ lastComponent f := fun hmem =>
    (hcross.1 ▸ (jni.ca2w f).2 : (0 : WChar) ∉ f) ((List.rtakeWhile_suffix _ f).subset hmem)
  have hsrc : cStr (jni.ca2w f).1 = f := by rw [cStr_eq_self (jni.ca2w f).2, hcross.1]
  obtain ⟨hnew, hold⟩ := inMusic_transferMtp hf h0 hsrc hcross.2 htr hr3
  refine ⟨⟨_, _, rfl, getInternaldevice_store hdev r.tree, hnew⟩, ?_⟩
  rintro g ⟨listDevices', usbdev', hreg, hdev', hin⟩ hne
  obtain rfl := Option.some.inj hreg
  obtain rfl := Option.some.inj (hdev.symm.trans hdev')
  exact ⟨_, _, rfl, getInternaldevice_store hdev r.tree, hold g hin hne⟩

/-- What one file keeps, the rest of the batch keeps. -/
theorem held_of_inserts_of_held {details : WStr → CopyFileDetails} {outcomes : WStr → Outcomes}
    {g : WStr} :
    ∀ {list : List WStr} {pasmgr pasmgr' : Option Registry},
      (∀ f ∈ list, (slash ∉ f ∧ Crosses jni f) ∧
        (details f).source = f ∧ (details f).destination = destination f) →
      Inserts w jni jdev pasmgr (list.map fun f => (details f).job (outcomes f)) pasmgr' →
      (∀ f ∈ list, w.sameName (lastComponent g) (lastComponent f) = false) →
      Held w jni jdev pasmgr g → Held w jni jdev pasmgr' g
  | [], _, _, _, .nil _, _, hg => hg
  | f :: list, _, _, hall, .cons hcall hins hrest, hne, hg => by
      obtain ⟨⟨hf, hcross⟩, hsource, hdest⟩ := hall f List.mem_cons_self
      simp only [CopyFileDetails.job, hsource, hdest] at hcall
      have hg' := (held_sendFile hf hcross hcall hins).2 g hg (hne f List.mem_cons_self)
      exact held_of_inserts_of_held (fun a ha => hall a (List.mem_cons_of_mem _ ha)) hrest
        (fun a ha => hne a (List.mem_cons_of_mem _ ha)) hg'

/-- **A batch of files the device can tell apart** is on the device when all its files have been
inserted. -/
theorem held_of_inserts {details : WStr → CopyFileDetails} {outcomes : WStr → Outcomes} :
    ∀ {list : List WStr} {pasmgr pasmgr' : Option Registry},
      (∀ f ∈ list, (slash ∉ f ∧ Crosses jni f) ∧
        (details f).source = f ∧ (details f).destination = destination f) →
      list.Pairwise (fun g f => w.sameName (lastComponent g) (lastComponent f) = false) →
      Inserts w jni jdev pasmgr (list.map fun f => (details f).job (outcomes f)) pasmgr' →
      ∀ f ∈ list, Held w jni jdev pasmgr' f
  | [], _, _, _, _, _, f, hf => absurd hf List.not_mem_nil
  | a :: list, _, _, hall, hpw, .cons hcall hins hrest, f, hf => by
      obtain ⟨⟨ha, hcross⟩, hsource, hdest⟩ := hall a List.mem_cons_self
      obtain ⟨hhead, htail⟩ := List.pairwise_cons.mp hpw
      have hrest' : ∀ b ∈ list, _ := fun b hb => hall b (List.mem_cons_of_mem _ hb)
      rcases List.mem_cons.mp hf with rfl | hf
      · simp only [CopyFileDetails.job, hsource, hdest] at hcall
        exact held_of_inserts_of_held hrest' hrest hhead (held_sendFile ha hcross hcall hins).1
      · exact held_of_inserts hrest' htail hrest f hf

end Batch

/-- **The batch of a copy list.**  Its paths are distinct; its destinations are exactly when the
last components of the paths are; and if the device tells the last components apart and inserts
every file, it holds them all. -/
theorem copy_list_on_device (w : World) (jni : Jni) (jdev : WStr)
    (calls : List (WindowsPath × FileTree)) (answers : List Bool) :
    (addAll calls ⟨[], answers⟩).listModel.Nodup ∧
    (((addAll calls ⟨[], answers⟩).listModel.map destination).Nodup ↔
      ((addAll calls ⟨[], answers⟩).listModel.map lastComponent).Nodup) ∧
    ∀ (details : WStr → CopyFileDetails) (outcomes : WStr → Outcomes)
      (pasmgr pasmgr' : Option Registry),
      (∀ f ∈ (addAll calls ⟨[], answers⟩).listModel,
        ∃ o, copyFileDetails f o = some (details f)) →
      (∀ f ∈ (addAll calls ⟨[], answers⟩).listModel, Crosses jni f) →
      (addAll calls ⟨[], answers⟩).listModel.Pairwise
        (fun g f => w.sameName (lastComponent g) (lastComponent f) = false) →
      Inserts w jni jdev pasmgr
        ((addAll calls ⟨[], answers⟩).listModel.map fun f => (details f).job (outcomes f)) pasmgr' →
      ∀ f ∈ (addAll calls ⟨[], answers⟩).listModel, Held w jni jdev pasmgr' f := by
  have hmp3 := mp3_of_mem_addAll calls (s := ⟨[], answers⟩) (by simp)
  have hnodup := nodup_addAll calls (s := ⟨[], answers⟩) List.nodup_nil
  refine ⟨hnodup, ?_, fun details outcomes pasmgr pasmgr' hdetails hcross hpw hins => ?_⟩
  · simp only [List.Nodup, List.pairwise_map, ne_eq, destination_inj]
  · refine held_of_inserts (fun f hf => ⟨⟨(hmp3 f hf).1, hcross f hf⟩, ?_⟩) hpw hins
    obtain ⟨o, ho⟩ := hdetails f hf
    exact destination_copyFileDetails ho

/-- Two paths whose last components differ. -/
def twoFiles : List (WindowsPath × FileTree) :=
  [(⟨wide "C:\\a.mp3", by decide⟩, .node (⟨wide "a.mp3", by decide⟩, .file) []),
    (⟨wide "C:\\b.mp3", by decide⟩, .node (⟨wide "b.mp3", by decide⟩, .file) [])]

def unreadDetails (f : WStr) : CopyFileDetails :=
  addFileToTransferQueue f (albumOf (pathTokens f)) (wide "unknown title") (wide "unknown artist")

/-- With no call failing, an empty player holds both. -/
theorem copy_list_on_device_twoFiles :
    ∃ pasmgr', ∀ f ∈ (addAll twoFiles ⟨[], []⟩).listModel,
      Held .sample .identity (wide "player") pasmgr' f :=
  ⟨_, (copy_list_on_device .sample .identity (wide "player") twoFiles []).2.2 unreadDetails
    (fun _ _ => sOk) (some onePlayer) _ (fun _ _ => ⟨.cannotRead, rfl⟩)
    (by decide) (by decide)
    (.cons rfl (by decide) (.cons rfl (by decide) (.nil _)))⟩

/-- A directory `C:\music` with two albums, each with a file `track.mp3`. -/
def twoAlbums : WindowsPath × FileTree :=
  (⟨wide "C:\\music", by decide⟩,
    .node (⟨wide "music", by decide⟩, .directory)
      [.node (⟨wide "first", by decide⟩, .directory)
        [.node (⟨wide "track.mp3", by decide⟩, .file) []],
       .node (⟨wide "second", by decide⟩, .directory)
        [.node (⟨wide "track.mp3", by decide⟩, .file) []]])

/-- Its two files have one destination. -/
theorem not_nodup_destination_twoAlbums :
    ((addAll [twoAlbums] ⟨[], []⟩).listModel.length = 2) ∧
      ¬ ((addAll [twoAlbums] ⟨[], []⟩).listModel.map destination).Nodup := by decide

end MtpRetag
