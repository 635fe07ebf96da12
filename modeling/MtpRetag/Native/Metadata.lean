import MtpRetag.Native.ReadFile

/-!
# Native/Metadata — reading back what was written

Three functions agree on metadata only by convention: the writers `update_metadata` and
`transfer_file`, and the reader `getMetadata`.  The reader looks for the album under
`g_wszWMDMAlbumArt`, where only `update_metadata` puts it, and reads one byte of the rating.

`getMetadata_after_update_iff` and `getMetadata_after_send_iff` say exactly which records survive.
-/

namespace MtpRetag

/-! ## The reader -/

/-- The metadata stored with the storage at `p`. -/
def metadataAt (t : Storage) (p : Pos) : MetaData := (t.sub? p).elim .empty fun n => n.val.metadata

/-- `usbdevice::get_metadata`: the code, and `*ppMetaOut`.  `GetMetadata` hands out an object with
`S_OK` only. -/
def UsbDevice.getMetadata (usbdev : UsbDevice) (hr : Outcomes) (path : WStr) :
    HRESULT × Option MetaData :=
  match getStorageBypath hr usbdev.rootStorage (cStr path) with
  | (ret, none) => (ret, none)
  | (ret, some p) =>
    if ret ≠ 0 then (ret, none)
    else if ¬ Succeeded (hr (.queryStorage3 p)) then (hr (.queryStorage3 p), none)
    else if ¬ Succeeded (hr (.getMetadata p)) then (hr (.getMetadata p), none)
    else if hr (.getMetadata p) = sOk then (0, some (metadataAt usbdev.rootStorage p))
    else (ret, none)

/-- The record the setters build from a metadata object. -/
def readMetadata (jni : Jni) (hr : Outcomes) (spMetadata : MetaData) : FileMetadata :=
  { title := jni.newString (readString (queryByName hr spMetadata .title))
    artist := jni.newString (readString (queryByName hr spMetadata .author))
    album := jni.newString (readString (queryByName hr spMetadata .albumArt))
    genre := jni.newString (readString (queryByName hr spMetadata .genre))
    rating := readRating (queryByName hr spMetadata .userRating) }

/-- What `getMetadata` returns, and the Java record it leaves. -/
structure ReadCall where
  ret : Int64
  metadata : Option FileMetadata
  deriving DecidableEq

/-- `Java_jpmp_device_UsbDevice_getMetadata`. -/
def getMetadata (jni : Jni) (pasmgr : Option Registry) (hr : Outcomes) (jdev path : WStr)
    (metadata : Option FileMetadata) : ReadCall :=
  match pasmgr, metadata with
  | none, metadata => ⟨Error.initDeviceManager.toInt64, metadata⟩
  | some _, none => ⟨Error.success.toInt64, none⟩
  | some listDevices, some m =>
    match getInternaldevice jni listDevices jdev with
    | none => ⟨Error.deviceNotMounted.toInt64, some m⟩
    | some usbdev =>
      if usbdev.mode = .msc then ⟨Error.mscNotAvailable.toInt64, some m⟩
      else
        match usbdev.getMetadata hr (jni.ca2w path).1 with
        | (_, none) => ⟨Error.metadataProperty.toInt64, some m⟩
        | (ret, some spMetadata) =>
          if ret ≠ 0 then ⟨Error.metadataProperty.toInt64, some m⟩
          else ⟨Error.success.toInt64, some (readMetadata jni hr spMetadata)⟩

/-! ## The writer -/

/-- The items `update_metadata` adds. -/
def updateItems (m : FileMetadata) : List (MetaKey × MetaItem) :=
  [(.title, stringItem m.title), (.author, stringItem m.artist), (.albumArt, stringItem m.album),
    (.genre, stringItem m.genre), (.userRating, dwordItem m.rating.toUInt32)]

/-- What `update_metadata` returns and leaves, and the items it had accepted. -/
structure UpdateResult where
  ret : HRESULT
  tree : Storage
  accepted : List MetaKey := []

/-- `SetMetadata` on a storage. -/
def setMetadata (spMeta : MetaData) (n : Storage) : Storage :=
  .node { n.val with metadata := spMeta } n.children

/-- The object `update_metadata` fills: the stored one, else an empty one, else none. -/
def metadataToFill (hr : Outcomes) (t : Storage) (p : Pos) : Option MetaData :=
  if hr (.getMetadata p) = sOk then some (metadataAt t p)
  else if Succeeded (hr (.createEmptyMetadata p)) then some .empty
  else none

/-- The `try` block of `update_metadata` from `GetMetadata` on. -/
def fillAndSet (hr : Outcomes) (t : Storage) (p : Pos) (m : FileMetadata) : UpdateResult :=
  let ret := if hr (.setMetadata p) = sOk then 0 else hr (.setMetadata p)
  match metadataToFill hr t p with
  | none => { ret := ret, tree := t }
  | some spMeta =>
    { ret := ret
      tree :=
        if Succeeded (hr (.setMetadata p)) then
          t.modifyAt (setMetadata (addItems hr spMeta (updateItems m))) p
        else t
      accepted := acceptedKeys hr (updateItems m) }

/-- `usbdevice::update_metadata`. -/
def UsbDevice.updateMetadata (usbdev : UsbDevice) (hr : Outcomes) (path : WStr)
    (m : FileMetadata) : UpdateResult :=
  let t := usbdev.rootStorage
  if usbdev.mode ≠ .mtp then { ret := Error.mtpNotAvailable, tree := t }
  else
    match getStorageBypath hr t (cStr path) with
    | (ret, none) => { ret := ret, tree := t }
    | (ret, some p) =>
      if ret ≠ 0 then { ret := ret, tree := t }
      else if ¬ Succeeded (hr (.queryStorage3 p)) then { ret := hr (.queryStorage3 p), tree := t }
      else if ¬ Succeeded (hr (.getMetadata p)) then { ret := hr (.getMetadata p), tree := t }
      else fillAndSet hr t p m

/-- What `updateMetadata` returns, the accepted items, and the registry it leaves. -/
structure UpdateCall where
  ret : Int64
  accepted : List MetaKey
  listDevices : Option Registry

/-- `Java_jpmp_device_UsbDevice_updateMetadata`. -/
def updateMetadata (jni : Jni) (pasmgr : Option Registry) (hr : Outcomes) (jdev path : WStr)
    (metadata : Option FileMetadata) : UpdateCall :=
  match pasmgr, metadata with
  | none, _ => ⟨Error.initDeviceManager.toInt64, [], none⟩
  | some listDevices, none => ⟨Error.success.toInt64, [], some listDevices⟩
  | some listDevices, some m =>
    match getInternaldevice jni listDevices jdev with
    | none =>
      ⟨Error.deviceNotMounted.toInt64, [], some (listDevices.getDevicebyid (jni.ca2w jdev).1).2⟩
    | some usbdev =>
      if usbdev.mode = .msc then ⟨Error.mscNotAvailable.toInt64, [], some listDevices⟩
      else
        let r := usbdev.updateMetadata hr (jni.ca2w path).1 (jni.filemetadata m)
        ⟨r.ret.toInt64, r.accepted, some (listDevices.store { usbdev with rootStorage := r.tree })⟩

/-! ## What the reader sees -/

section Read

variable {jni : Jni} {listDevices : Registry} {hr : Outcomes} {jdev path : WStr} {usbdev : UsbDevice}

theorem queryByName_of_ok (hok : ∀ c, hr c = sOk) (md : MetaData) (k : MetaKey) :
    queryByName hr md k = md k := by rw [queryByName, if_pos (hok _)]

theorem metadataAt_of_sub? {t n : Storage} {p : Pos} (h : t.sub? p = some n) :
    metadataAt t p = n.val.metadata := by simp [metadataAt, h]

/-- A path that leads somewhere is read there, when no call fails. -/
theorem getMetadata_of_lookupPath
    (hdev : getInternaldevice jni listDevices jdev = some usbdev) (hmode : usbdev.mode ≠ .msc)
    (hok : ∀ c, hr c = sOk) {p : Pos}
    (h : lookupPath usbdev.rootStorage (jni.ca2w path).1 = some p) (m : FileMetadata) :
    getMetadata jni (some listDevices) hr jdev path (some m) =
      ⟨0, some (readMetadata jni hr (metadataAt usbdev.rootStorage p))⟩ := by
  have hsucc : ∀ c, Succeeded (hr c) := fun c => by rw [hok c]; exact succeeded_sOk
  have hget : usbdev.getMetadata hr (jni.ca2w path).1 =
      (0, some (metadataAt usbdev.rootStorage p)) := by
    rw [UsbDevice.getMetadata, cStr_eq_self (jni.ca2w path).2,
      getStorageBypath_of_lookupPath hsucc h]
    dsimp only
    rw [if_neg (not_not.mpr rfl), if_neg (not_not.mpr (hsucc _)), if_neg (not_not.mpr (hsucc _)),
      if_pos (hok _)]
  rw [getMetadata]
  simp only [hdev, if_neg hmode, hget]
  rfl

end Read

/-! ## What `update_metadata` stores -/

section Update

variable {hr : Outcomes} {m : FileMetadata}

/-- The items of an accepted sequence replace those of the object, one after the other. -/
theorem addItems_of_accepted :
    ∀ {items : List (MetaKey × MetaItem)}, acceptedKeys hr items = items.map Prod.fst →
      ∀ md : MetaData, addItems hr md items =
        items.foldl (fun (md : MetaData) item => Function.update md item.1 (some item.2)) md
  | [], _, _ => rfl
  | (k, item) :: items, h, md => by
      have htail : acceptedKeys hr items = items.map Prod.fst := by
        rw [acceptedKeys, List.filter_eq_self] at h ⊢
        exact fun k hk => h k (List.mem_cons_of_mem _ hk)
      rw [addItems, List.foldl_cons, addItem_of_accepted h List.mem_cons_self, List.foldl_cons]
      exact addItems_of_accepted htail _

/-- The five items `update_metadata` stores, on top of whatever was there. -/
theorem readMetadata_addItems_updateItems (jni : Jni) {hr' : Outcomes}
    (h : acceptedKeys hr (updateItems m) = (updateItems m).map Prod.fst)
    (hok : ∀ c, hr' c = sOk) (md : MetaData) :
    readMetadata jni hr' (addItems hr md (updateItems m)) =
      { title := jni.newString (cStr m.title), artist := jni.newString (cStr m.artist),
        album := jni.newString (cStr m.album), genre := jni.newString (cStr m.genre),
        rating := readRating (some (dwordItem m.rating.toUInt32)) } := by
  rw [addItems_of_accepted h]
  simp [readMetadata, queryByName_of_ok hok, updateItems, Function.update, readString_stringItem]

theorem fillAndSet_eq_zero {t : Storage} {p : Pos} (hret : (fillAndSet hr t p m).ret = 0)
    (hacc : (fillAndSet hr t p m).accepted = (updateItems m).map Prod.fst) :
    acceptedKeys hr (updateItems m) = (updateItems m).map Prod.fst ∧
      ∃ md, (fillAndSet hr t p m).tree =
        t.modifyAt (setMetadata (addItems hr md (updateItems m))) p := by
  rw [fillAndSet] at hret hacc ⊢
  cases hfill : metadataToFill hr t p with
  | none =>
    rw [hfill] at hacc
    simp [updateItems] at hacc
  | some md =>
    rw [hfill] at hret hacc
    have hset : hr (.setMetadata p) = sOk := by
      by_contra hne
      rw [if_neg hne] at hret
      exact hne hret
    have hs : Succeeded (hr (.setMetadata p)) := by rw [hset]; exact succeeded_sOk
    refine ⟨hacc, md, ?_⟩
    dsimp only
    rw [if_pos hs]

/-- An update that returns `0` after all its `AddItem`s has stored them where the path leads. -/
theorem updateMetadata_eq_zero {usbdev : UsbDevice} {path : WStr}
    (hret : (usbdev.updateMetadata hr path m).ret = 0)
    (hacc : (usbdev.updateMetadata hr path m).accepted = (updateItems m).map Prod.fst) :
    usbdev.mode = .mtp ∧ acceptedKeys hr (updateItems m) = (updateItems m).map Prod.fst ∧
      ∃ p md, lookupPath usbdev.rootStorage (cStr path) = some p ∧
        (usbdev.updateMetadata hr path m).tree =
          usbdev.rootStorage.modifyAt (setMetadata (addItems hr md (updateItems m))) p := by
  -- every exit before the items are added has none accepted
  have hnil : ¬ ([] : List MetaKey) = (updateItems m).map Prod.fst := by simp [updateItems]
  rw [UsbDevice.updateMetadata] at hret hacc ⊢
  by_cases hmode : usbdev.mode = .mtp
  case neg =>
    rw [if_pos hmode] at hacc
    exact absurd hacc hnil
  rw [if_neg (not_not.mpr hmode)] at hret hacc ⊢
  rcases hby : getStorageBypath hr usbdev.rootStorage (cStr path) with ⟨ret, _ | p⟩
  · rw [hby] at hacc
    exact absurd hacc hnil
  have hp := lookupPath_of_getStorageBypath (congrArg Prod.snd hby)
  rw [hby] at hret hacc hp
  dsimp only at hret hacc ⊢
  rw [if_neg (not_not.mpr hp.2)] at hret hacc ⊢
  by_cases h3 : Succeeded (hr (.queryStorage3 p))
  case neg =>
    rw [if_pos h3] at hacc
    exact absurd hacc hnil
  by_cases hg : Succeeded (hr (.getMetadata p))
  case neg =>
    rw [if_neg (not_not.mpr h3), if_pos hg] at hacc
    exact absurd hacc hnil
  rw [if_neg (not_not.mpr h3), if_neg (not_not.mpr hg)] at hret hacc ⊢
  obtain ⟨hkeys, md, htree⟩ := fillAndSet_eq_zero hret hacc
  exact ⟨hmode, hkeys, p, md, hp.1, htree⟩

end Update

/-! ## The two round trips -/

/-- The Java call behind a successful update. -/
theorem updateMetadata_jni_eq_zero {jni : Jni} {pasmgr : Option Registry} {hr : Outcomes}
    {jdev path : WStr} {m : FileMetadata}
    (hret : (updateMetadata jni pasmgr hr jdev path (some m)).ret = 0) :
    ∃ listDevices usbdev, pasmgr = some listDevices ∧
      getInternaldevice jni listDevices jdev = some usbdev ∧
      (usbdev.updateMetadata hr (jni.ca2w path).1 (jni.filemetadata m)).ret = 0 ∧
      updateMetadata jni pasmgr hr jdev path (some m) =
        ⟨0, (usbdev.updateMetadata hr (jni.ca2w path).1 (jni.filemetadata m)).accepted,
          some (listDevices.store { usbdev with
            rootStorage :=
              (usbdev.updateMetadata hr (jni.ca2w path).1 (jni.filemetadata m)).tree })⟩ := by
  have h7 : Error.initDeviceManager.toInt64 ≠ 0 := by decide
  have h8 : Error.deviceNotMounted.toInt64 ≠ 0 := by decide
  have h11 : Error.mscNotAvailable.toInt64 ≠ 0 := by decide
  cases pasmgr with
  | none => exact absurd hret h7
  | some listDevices =>
    rw [updateMetadata] at hret ⊢
    cases hdev : getInternaldevice jni listDevices jdev with
    | none =>
      rw [hdev] at hret
      exact absurd hret h8
    | some usbdev =>
      rw [hdev] at hret
      dsimp only at hret ⊢
      by_cases hmode : usbdev.mode = .msc
      · rw [if_pos hmode] at hret
        exact absurd hret h11
      · rw [if_neg hmode] at hret ⊢
        have hzero := toInt64_eq_zero.mp hret
        refine ⟨listDevices, usbdev, rfl, hdev, hzero, ?_⟩
        rw [hzero]
        rfl

/-- **Update, then read.**  A record whose update succeeded comes back unchanged if and only if its
rating fits in a byte. -/
theorem getMetadata_after_update_iff {jni : Jni} {pasmgr : Option Registry} {hr hr' : Outcomes}
    {jdev path : WStr} {m m' : FileMetadata}
    (hret : (updateMetadata jni pasmgr hr jdev path (some m)).ret = 0)
    (hacc : (updateMetadata jni pasmgr hr jdev path (some m)).accepted =
      [.title, .author, .albumArt, .genre, .userRating])
    (hread : ∀ c, hr' c = sOk)
    (hinv : ∀ s ∈ [m.title, m.artist, m.album, m.genre], jni.newString (jni.ca2w s).1 = s) :
    getMetadata jni (updateMetadata jni pasmgr hr jdev path (some m)).listDevices hr' jdev path
        (some m') = ⟨0, some m⟩ ↔
      0 ≤ m.rating ∧ m.rating ≤ 255 := by
  obtain ⟨listDevices, usbdev, rfl, hdev, hzero, hcall⟩ := updateMetadata_jni_eq_zero hret
  rw [hcall] at hacc ⊢
  obtain ⟨hmtp, hkeys, p, md, hp, htree⟩ := updateMetadata_eq_zero hzero hacc
  rw [cStr_eq_self (jni.ca2w path).2] at hp
  -- the path still leads to the storage, whose metadata is now the filled object
  have hp' : lookupPath (usbdev.rootStorage.modifyAt
      (setMetadata (addItems hr md (updateItems (jni.filemetadata m)))) p) (jni.ca2w path).1 =
        some p :=
    lookupPath_modifyAt
      (f := setMetadata (addItems hr md (updateItems (jni.filemetadata m)))) (fun _ _ => rfl) hp
  obtain ⟨n, hn⟩ := exists_sub?_of_lookupPath hp
  have hmeta := metadataAt_of_sub? (Rose.sub?_modifyAt_self
    (setMetadata (addItems hr md (updateItems (jni.filemetadata m)))) hn)
  dsimp only
  rw [htree, getMetadata_of_lookupPath (getInternaldevice_store hdev _) (by simp [hmtp]) hread hp',
    hmeta]
  simp only [List.mem_cons, List.not_mem_nil, or_false, forall_eq_or_imp, forall_eq] at hinv
  have hfields := readMetadata_addItems_updateItems jni hkeys hread md
  rw [show (setMetadata (addItems hr md (updateItems (jni.filemetadata m))) n).val.metadata =
    addItems hr md (updateItems (jni.filemetadata m)) from rfl, hfields]
  simp only [Jni.filemetadata, cStr_eq_self (jni.ca2w _).2, hinv]
  rw [← readRating_dwordItem_iff]
  constructor
  · intro h
    exact congrArg FileMetadata.rating (Option.some.inj (congrArg ReadCall.metadata h))
  · intro h
    rw [h]

/-- The update of a song on a player. -/
theorem getMetadata_after_update_iff_filePlayer :
    getMetadata .identity
        (updateMetadata .identity (some (Registry.empty.store .filePlayer)) (fun _ => sOk)
          (wide "player") (wide "/a.mp3") (some .sample)).listDevices
        (fun _ => sOk) (wide "player") (wide "/a.mp3")
        (some { FileMetadata.sample with title := [] }) = ⟨0, some .sample⟩ ↔
      0 ≤ FileMetadata.sample.rating ∧ FileMetadata.sample.rating ≤ 255 :=
  getMetadata_after_update_iff (by decide) (by decide) (fun _ => rfl) (by decide)

/-- A rating of 256 comes back as 0. -/
theorem rating_256_lost :
    (updateMetadata .identity (some (Registry.empty.store .filePlayer)) (fun _ => sOk)
        (wide "player") (wide "/a.mp3") (some { FileMetadata.sample with rating := 256 })).ret = 0 ∧
      (updateMetadata .identity (some (Registry.empty.store .filePlayer)) (fun _ => sOk)
        (wide "player") (wide "/a.mp3")
        (some { FileMetadata.sample with rating := 256 })).accepted =
          [.title, .author, .albumArt, .genre, .userRating] ∧
      getMetadata .identity
        (updateMetadata .identity (some (Registry.empty.store .filePlayer)) (fun _ => sOk)
          (wide "player") (wide "/a.mp3")
          (some { FileMetadata.sample with rating := 256 })).listDevices
        (fun _ => sOk) (wide "player") (wide "/a.mp3") (some .sample) ≠
          ⟨0, some { FileMetadata.sample with rating := 256 }⟩ :=
  ⟨by decide, by decide, by decide⟩

/-! ### After `transfer_file` -/

section Send

variable {jni : Jni} {hr : Outcomes} {m : FileMetadata}

/-- When all items are accepted, the inserted object holds exactly them. -/
theorem transferMetadata_of_accepted {q : Pos} {spMeta : MetaData} {accepted : List MetaKey}
    (h : transferMetadata hr q (some m) = .ok (spMeta, accepted))
    (hacc : accepted = (transferItems m).map Prod.fst) :
    spMeta = addItems hr .empty (transferItems m) ∧
      acceptedKeys hr (transferItems m) = (transferItems m).map Prod.fst := by
  rw [transferMetadata] at h
  split at h
  · obtain ⟨rfl, rfl⟩ := Prod.mk.inj (Except.ok.inj h)
    exact ⟨rfl, hacc⟩
  · obtain ⟨-, rfl⟩ := Prod.mk.inj (Except.ok.inj h)
    simp [transferItems] at hacc

/-- The reader finds three of the five fields in what `transfer_file` writes. -/
theorem readMetadata_addItems_transferItems {hr' : Outcomes}
    (h : acceptedKeys hr (transferItems m) = (transferItems m).map Prod.fst)
    (hok : ∀ c, hr' c = sOk) :
    readMetadata jni hr' (addItems hr .empty (transferItems m)) =
      { title := jni.newString (cStr m.title), artist := jni.newString (cStr m.artist),
        album := jni.newString [], genre := jni.newString (cStr m.genre), rating := 0 } := by
  rw [addItems_of_accepted h]
  simp [readMetadata, queryByName_of_ok hok, transferItems, Function.update, readString_stringItem,
    MetaData.empty]

/-- The records `transfer_file` and `getMetadata` agree on: no album, no rating, and strings that
survive the conversions. -/
def Survives (jni : Jni) (m : FileMetadata) : Prop :=
  jni.newString (jni.ca2w m.title).1 = m.title ∧ jni.newString (jni.ca2w m.artist).1 = m.artist ∧
    jni.newString (jni.ca2w m.genre).1 = m.genre ∧ m.album = jni.newString [] ∧ m.rating = 0

theorem readMetadata_sent_eq_iff {hr' : Outcomes}
    (h : acceptedKeys hr (transferItems (jni.filemetadata m)) =
      (transferItems (jni.filemetadata m)).map Prod.fst)
    (hok : ∀ c, hr' c = sOk) :
    readMetadata jni hr' (addItems hr .empty (transferItems (jni.filemetadata m))) = m ↔
      Survives jni m := by
  rw [readMetadata_addItems_transferItems h hok]
  simp only [Jni.filemetadata, cStr_eq_self (jni.ca2w _).2]
  obtain ⟨title, artist, album, genre, rating⟩ := m
  rw [FileMetadata.mk.injEq, Survives]
  constructor
  · rintro ⟨ht, ha, hal, hg, hr⟩
    exact ⟨ht, ha, hg, hal.symm, hr.symm⟩
  · rintro ⟨ht, ha, hg, hal, hr⟩
    exact ⟨ht, ha, hal.symm, hg, hr.symm⟩

/-- A stored metadata object is read as a record. -/
structure ReadsAs (jni : Jni) (spMeta : MetaData) (m : FileMetadata) : Prop where
  title : jni.newString (readString (spMeta .title)) = m.title
  artist : jni.newString (readString (spMeta .author)) = m.artist
  album : jni.newString (readString (spMeta .albumArt)) = m.album
  genre : jni.newString (readString (spMeta .genre)) = m.genre
  rating : readRating (spMeta .userRating) = m.rating

theorem readMetadata_eq_iff {hr' : Outcomes} (hok : ∀ c, hr' c = sOk) (spMeta : MetaData) :
    readMetadata jni hr' spMeta = m ↔ ReadsAs jni spMeta m := by
  obtain ⟨title, artist, album, genre, rating⟩ := m
  simp only [readMetadata, queryByName_of_ok hok, FileMetadata.mk.injEq]
  constructor
  · rintro ⟨ht, ha, hal, hg, hr⟩
    exact ⟨ht, ha, hal, hg, hr⟩
  · rintro ⟨ht, ha, hal, hg, hr⟩
    exact ⟨ht, ha, hal, hg, hr⟩

/-- The storage of a folder that a lookup finds under a name, before the place that the device gives
a file of that name. -/
def olderSibling (sameName : WStr → WStr → Bool) (folder : Storage) (name : WStr) :
    Option StorageInfo :=
  (Rose.firstMatch nameMatches folder.children name).bind fun j =>
    if j < insertIndex sameName folder name then folder.children[j]?.map Rose.val else none

/-- What a tree already has, that is found under a destination instead of a file inserted there: the
root, under its spellings, and an older sibling. -/
def olderStorage (sameName : WStr → WStr → Bool) (t : Storage) (dest : WStr) :
    Option StorageInfo :=
  if RootSpelling dest then some t.val
  else
    ((Rose.resolve nameMatches ((splitString dest [slash] false).dropLast.map cStr) t).bind
      t.sub?).bind fun folder => olderSibling sameName folder (cStr (fileName dest))

/-- What a later read of `dest` needs of the tree before the transfer: that an older storage which
is found there holds the record; and where there is none, that the record survives. -/
def ReadsBack (jni : Jni) (sameName : WStr → WStr → Bool) (t : Storage) (dest : WStr)
    (m : FileMetadata) : Prop :=
  match olderStorage sameName t dest with
  | some info => ReadsAs jni info.metadata m
  | none => Survives jni m

/-- The two spellings of the root have no folders. -/
theorem dropLast_splitString_of_root {dest : WStr} (h : RootSpelling dest) :
    (splitString dest [slash] false).dropLast = [] := by
  rcases h with rfl | rfl <;> decide

/-- On a device that compares names as `get_substorage` does, only the root is older. -/
theorem olderStorage_eq_none {sameName : WStr → WStr → Bool}
    (hname : ∀ a b, sameName a b = decide (makeLower a = makeLower b)) (t : Storage) {dest : WStr}
    (hroot : ¬ RootSpelling dest) : olderStorage sameName t dest = none := by
  rw [olderStorage, if_neg hroot]
  refine Option.bind_eq_none_iff.mpr fun n _ => Option.bind_eq_none_iff.mpr fun j hj => ?_
  exact if_neg (insertIndex_le_of_firstMatch hname hj).not_gt

/-- **What a name leads to behind an insertion**: the older sibling, if there is one, and else the
file. -/
theorem firstMatch_insertFile (sameName : WStr → WStr → Bool) (file : StorageInfo) (n : Storage) :
    (∀ info, olderSibling sameName n file.name = some info →
      ∃ j c, Rose.firstMatch nameMatches (insertFile sameName file n).children file.name = some j ∧
        (insertFile sameName file n).children[j]? = some c ∧ c.val = info) ∧
    (olderSibling sameName n file.name = none →
      Rose.firstMatch nameMatches (insertFile sameName file n).children file.name =
        some (insertIndex sameName n file.name)) := by
  rw [olderSibling]
  cases hfirst : Rose.firstMatch nameMatches n.children file.name with
  | none =>
    refine ⟨fun info hinfo => by simp at hinfo, fun _ => ?_⟩
    exact firstMatch_insertFile_of_le fun j hj => by simp [hfirst] at hj
  | some j =>
    rw [Option.bind_some]
    split
    case isTrue hlt =>
      obtain ⟨c, hc, -⟩ := Rose.getElem?_of_firstMatch hfirst
      rw [hc, Option.map_some]
      refine ⟨?_, fun hnone => by simp at hnone⟩
      rintro _ ⟨⟩
      exact ⟨j, c, firstMatch_insertFile_of_lt hfirst hlt,
        (getElem?_insertFile_of_ne hlt.ne).trans hc, rfl⟩
    case isFalse hge =>
      refine ⟨fun info hinfo => by simp at hinfo, fun _ => firstMatch_insertFile_of_le ?_⟩
      intro l hl
      obtain rfl : j = l := Option.some.inj (hfirst.symm.trans hl)
      exact Nat.le_of_not_lt hge

variable {w : World} {pasmgr : Option Registry} {hr' : Outcomes} {jdev src dest : WStr}
  {call : SendCall}

/-- **Where a destination leads behind a transfer**: to the older storage of the tree before it, if
there is one, and else to the new one. -/
theorem lookupPath_transferMtp {t : Storage} {src dest : WStr} {m : FileMetadata}
    {r : TransferResult} (h : transferMtp w hr t src dest (some m) = .ok r)
    (hins : r.insert3 = some sOk) :
    (∀ info, olderStorage w.sameName t dest = some info →
      ∃ p n, lookupPath r.tree dest = some p ∧ r.tree.sub? p = some n ∧ n.val = info) ∧
    (olderStorage w.sameName t dest = none → lookupPath r.tree dest = r.spNewStorage) := by
  obtain ⟨hne, q, tree, n, spMeta, hres, hwalk, hwalks, hn, -, htree, hnew⟩ :=
    transferMtp_inserted h hins
  have hcases := walkFolders_old_or_new hwalks (Rose.sub?_nil t) rfl
  rw [← hwalk] at hcases
  by_cases hroot : RootSpelling dest
  · -- the root holds what it held
    rw [olderStorage, if_pos hroot]
    refine ⟨?_, fun hnone => by simp at hnone⟩
    rintro _ ⟨⟩
    rw [dropLast_splitString_of_root hroot] at hcases hres
    obtain rfl : [] = q := by simpa using hres
    rcases hcases with ⟨-, -, -, rfl⟩ | ⟨hnone, -⟩
    · refine ⟨[], r.tree, by rw [lookupPath, if_neg hne, if_pos hroot], Rose.sub?_nil _, ?_⟩
      rw [htree]
      rfl
    · simp at hnone
  rw [olderStorage, if_neg hroot]
  have hlookup : lookupPath r.tree dest =
      (Rose.firstMatch nameMatches (insertFile w.sameName
        ⟨cStr (fileName dest), .file, spMeta, w.content (cStr src)⟩ n).children
          (cStr (fileName dest))).map fun i => q ++ [i] := by
    rw [htree]
    exact lookupPath_modifyAt_insertFile hne hroot rfl hres hn
  obtain ⟨hold, hnone⟩ := firstMatch_insertFile w.sameName
    ⟨cStr (fileName dest), .file, spMeta, w.content (cStr src)⟩ n
  rcases hcases with ⟨p, hp, hq, rfl⟩ | ⟨hmissing, n', hn', hempty⟩
  · -- the folder was there
    obtain rfl : q = p := hq
    rw [hp, Option.bind_some, hn, Option.bind_some]
    constructor
    · intro info hinfo
      obtain ⟨j, c, hj, hc, rfl⟩ := hold info hinfo
      refine ⟨q ++ [j], c, by rw [hlookup, hj, Option.map_some], ?_, rfl⟩
      rw [htree, Rose.sub?_append_singleton (Rose.sub?_modifyAt_self _ hn), hc]
    · intro hinfo
      rw [hlookup, hnew, hnone hinfo]
      rfl
  · -- the folder is new
    obtain rfl : n' = n := Option.some.inj (hn'.symm.trans hn)
    rw [hmissing, Option.bind_none, Option.bind_none]
    refine ⟨fun info hinfo => by simp at hinfo, fun _ => ?_⟩
    rw [hlookup, hnew, hnone (by simp [olderSibling, hempty, Rose.firstMatch])]
    rfl

/-- **Send, then read.**  The record comes back if and only if the tree before the transfer lets it:
where the destination leads to an older storage, by what that one holds, and else by what survives.
A device that compares names as `get_substorage` does has no older one but the root. -/
theorem getMetadata_after_send_iff (m' : FileMetadata)
    (hsend : sendFile w jni pasmgr hr jdev src dest (some m) = .ok call)
    (hins : call.insert3 = some sOk)
    (hacc : call.accepted = [.title, .author, .albumTitle, .genre, .formatCode])
    (hread : ∀ c, hr' c = sOk) :
    ∃ listDevices usbdev, pasmgr = some listDevices ∧
      getInternaldevice jni listDevices jdev = some usbdev ∧
      (getMetadata jni call.listDevices hr' jdev dest (some m') = ⟨0, some m⟩ ↔
        ReadsBack jni w.sameName usbdev.rootStorage (jni.ca2w dest).1 m) ∧
      ((∀ a b, w.sameName a b = decide (makeLower a = makeLower b)) →
        ¬ RootSpelling (jni.ca2w dest).1 →
          (ReadsBack jni w.sameName usbdev.rootStorage (jni.ca2w dest).1 m ↔ Survives jni m)) := by
  obtain ⟨listDevices, usbdev, r, rfl, hdev, hmtp, htr, hr3, rfl⟩ := sendFile_inserted hsend hins
  refine ⟨listDevices, usbdev, rfl, hdev, ?_, fun hname hroot => by
    rw [ReadsBack, olderStorage_eq_none hname _ hroot]⟩
  obtain ⟨holder, hnewest⟩ := lookupPath_transferMtp htr hr3
  obtain ⟨new, q, spMeta, hnew, hsub, hmd⟩ := sub?_spNewStorage htr hr3
  obtain ⟨rfl, hkeys⟩ := transferMetadata_of_accepted hmd hacc
  have hmode : ({ usbdev with rootStorage := r.tree } : UsbDevice).mode ≠ .msc := by simp [hmtp]
  have hgets {p : Pos} {n : Storage} (hp : lookupPath r.tree (jni.ca2w dest).1 = some p)
      (hn : r.tree.sub? p = some n) :
      getMetadata jni (some (listDevices.store { usbdev with rootStorage := r.tree })) hr' jdev dest
        (some m') = ⟨0, some (readMetadata jni hr' n.val.metadata)⟩ := by
    rw [getMetadata_of_lookupPath (getInternaldevice_store hdev r.tree) hmode hread hp m',
      metadataAt_of_sub? hn]
  rw [ReadsBack]
  cases hold : olderStorage w.sameName usbdev.rootStorage (jni.ca2w dest).1 with
  | some info =>
    obtain ⟨p, n, hp, hn, rfl⟩ := holder info hold
    rw [hgets hp hn, ReadCall.mk.injEq, Option.some.injEq, readMetadata_eq_iff hread]
    exact and_iff_right rfl
  | none =>
    rw [hgets ((hnewest hold).trans hnew) hsub, ReadCall.mk.injEq, Option.some.injEq]
    exact (and_iff_right rfl).trans (readMetadata_sent_eq_iff hkeys hread)

end Send

/-- One transfer to an empty player. -/
theorem getMetadata_after_send_iff_onePlayer :
    ∃ call, sendFile .sample .identity (some onePlayer) (fun _ => sOk) (wide "player")
        (wide "C:\\a.mp3") (wide "/Music/a.mp3") (some .sample) = .ok call ∧
      ∃ listDevices usbdev, some onePlayer = some listDevices ∧
        getInternaldevice .identity listDevices (wide "player") = some usbdev ∧
        (getMetadata .identity call.listDevices (fun _ => sOk) (wide "player")
          (wide "/Music/a.mp3") (some .sample) = ⟨0, some .sample⟩ ↔
            ReadsBack .identity World.sample.sameName usbdev.rootStorage
              (Jni.identity.ca2w (wide "/Music/a.mp3")).1 .sample) ∧
        (ReadsBack .identity World.sample.sameName usbdev.rootStorage
            (Jni.identity.ca2w (wide "/Music/a.mp3")).1 .sample ↔
          Survives .identity .sample) := by
  obtain ⟨listDevices, usbdev, hreg, hdev, hiff, hplace⟩ := getMetadata_after_send_iff .sample
    (rfl : sendFile .sample .identity (some onePlayer) (fun _ => sOk) (wide "player")
      (wide "C:\\a.mp3") (wide "/Music/a.mp3") (some .sample) = .ok _)
    (by decide) (by decide) (fun _ => rfl : ∀ c, (fun _ => sOk : Outcomes) c = sOk)
  exact ⟨_, rfl, listDevices, usbdev, hreg, hdev, hiff, hplace (fun _ _ => rfl) (by decide)⟩

/-- The album that was sent is not the album that is read. -/
theorem sent_album_lost :
    ∃ call, sendFile .sample .identity (some onePlayer) (fun _ => sOk) (wide "player")
        (wide "C:\\a.mp3") (wide "/Music/a.mp3") (some .sample) = .ok call ∧
      call.insert3 = some sOk ∧
      call.accepted = [.title, .author, .albumTitle, .genre, .formatCode] ∧
      getMetadata .identity call.listDevices (fun _ => sOk) (wide "player") (wide "/Music/a.mp3")
        (some .sample) ≠ ⟨0, some .sample⟩ :=
  ⟨_, rfl, by decide, by decide, by decide⟩

end MtpRetag
