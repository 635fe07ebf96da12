import MtpRetag.Native.Transfer

/-!
# Native/Arguments — what `transfer_file` makes of an empty path and of a NULL record

The loop over the components runs to `vpath.size() - 1`, in unsigned arithmetic, and the items of
the new file are read through `meta`.  `sendFile` passes a NULL `meta` when Java gives no record, or
when a getter of the record cannot be looked up.

`arguments_safe_iff` is the exact condition under which neither goes wrong.
-/

namespace MtpRetag

/-! ## The loop, index by index -/

/-- `vpath.size() - 1`, in a `size_t` of 32 bits. -/
def sizeMinusOne (size : ℕ) : ℕ := if size = 0 then 2 ^ 32 - 1 else size - 1

/-- The loop of `transfer_file` from the `i`-th component on, for so many rounds more.  Each reads
`vpath[i]`. -/
def walkIndexed (hr : Outcomes) (vpath : List WStr) :
    ℕ → ℕ → Storage → Option Pos → HRESULT → Except Fault WalkResult
  | 0, _, t, spTempStorage, ret => .ok ⟨ret, .ok spTempStorage, t⟩
  | rounds + 1, i, t, spTempStorage, _ =>
    match vpath[i]? with
    | none => .error .vpathOutOfBounds
    | some c =>
      let r := getSubstorage hr t spTempStorage (cStr c) true
      if r.ppStorageOut = none then .ok ⟨r.ret, .error sOk, r.tree⟩
      else walkIndexed hr vpath rounds (i + 1) r.tree r.ppStorageOut r.ret

/-- A loop that stays within `vpath` walks the components it reads. -/
theorem walkIndexed_eq_walkFolders (hr : Outcomes) (vpath : List WStr) :
    ∀ {rounds i : ℕ} (t : Storage) (sp : Option Pos) (ret : HRESULT), i + rounds ≤ vpath.length →
      walkIndexed hr vpath rounds i t sp ret =
        .ok (walkFolders hr true sOk ((vpath.drop i).take rounds) t sp ret)
  | 0, i, t, sp, ret, _ => by rw [walkIndexed, List.take_zero, walkFolders]
  | rounds + 1, i, t, sp, ret, h => by
      have hi : i < vpath.length := by omega
      rw [walkIndexed, List.getElem?_eq_getElem hi, List.drop_eq_getElem_cons hi,
        List.take_succ_cons, walkFolders]
      simp only [succeeded_sOk, not_true_eq_false, false_or]
      split
      · rfl
      · exact walkIndexed_eq_walkFolders hr vpath _ _ _ (by omega)

/-- An empty vector is read in the first round. -/
theorem walkIndexed_nil (hr : Outcomes) (t : Storage) (sp : Option Pos) (ret : HRESULT) :
    walkIndexed hr [] (sizeMinusOne 0) 0 t sp ret = .error .vpathOutOfBounds := by
  obtain ⟨rounds, h⟩ : ∃ rounds, sizeMinusOne 0 = rounds + 1 := ⟨2 ^ 32 - 2, by decide⟩
  rw [h, walkIndexed]
  rfl

/-- **The loop reads no further than the folders**, unless there are no components at all. -/
theorem transferMtp_eq_walkIndexed (w : World) (hr : Outcomes) (t : Storage) (src dest : WStr)
    (metadata : Option FileMetadata) :
    transferMtp w hr t src dest metadata =
      (walkIndexed hr (splitString dest [slash] false)
        (sizeMinusOne (splitString dest [slash] false).length) 0 t (some []) 0).bind
        (afterWalk w hr src dest metadata (hasProgress hr)) := by
  rw [transferMtp]
  by_cases hnil : splitString dest [slash] false = []
  · rw [if_pos hnil, hnil, List.length_nil, walkIndexed_nil]
    rfl
  · have hlen : (splitString dest [slash] false).length ≠ 0 := by simpa using hnil
    have hrounds : sizeMinusOne (splitString dest [slash] false).length =
        (splitString dest [slash] false).length - 1 := if_neg hlen
    rw [if_neg hnil, hrounds, walkIndexed_eq_walkFolders hr _ t (some []) 0 (by omega),
      List.drop_zero, ← List.dropLast_eq_take]
    rfl

/-! ## The record that `sendFile` passes -/

/-- The getters of a Java record in the order in which `sendFile` looks them up, with the number
that is thrown for a missing one. -/
def metadataGetters : List (String × ℕ) :=
  [("getTitle", 1), ("getAlbum", 2), ("getArtist", 3), ("getGenre", 4), ("getRating", 5)]

/-- The `pmeta` of `sendFile`.  It is set behind the last lookup; what is thrown before is caught,
and its code is overwritten by that of the transfer. -/
def pmeta (jni : Jni) (getMethodID : String → Bool) (metadata : Option FileMetadata) :
    Option FileMetadata :=
  metadata.bind fun m =>
    match metadataGetters.find? fun getter => ¬ getMethodID getter.1 with
    | some _ => none
    | none => some (jni.filemetadata m)

/-- `Java_jpmp_device_UsbDevice_sendFile` for a record whose getters may be missing. -/
def sendFileLookups (w : World) (jni : Jni) (getMethodID : String → Bool)
    (pasmgr : Option Registry) (hr : Outcomes) (jdev srcfile destfile : WStr)
    (metadata : Option FileMetadata) : Except Fault SendCall :=
  match pasmgr with
  | none => .ok ⟨Error.initDeviceManager.toInt64, none, none⟩
  | some listDevices =>
    match getInternaldevice jni listDevices jdev with
    | none =>
      .ok ⟨Error.deviceNotMounted.toInt64, none,
        some (listDevices.getDevicebyid (jni.ca2w jdev).1).2⟩
    | some usbdev =>
      match transferFile w hr usbdev (jni.ca2w srcfile).1 (jni.ca2w destfile).1
          (pmeta jni getMethodID metadata) with
      | .error fault => .error fault
      | .ok r =>
        .ok ⟨r.ret.toInt64, some r, some (listDevices.store { usbdev with rootStorage := r.tree })⟩

/-- With all getters there, it is the record of Java that is sent. -/
theorem sendFileLookups_eq_sendFile (w : World) (jni : Jni) {getMethodID : String → Bool}
    (h : ∀ getter ∈ metadataGetters, getMethodID getter.1 = true) (pasmgr : Option Registry)
    (hr : Outcomes) (jdev srcfile destfile : WStr) (metadata : Option FileMetadata) :
    sendFileLookups w jni getMethodID pasmgr hr jdev srcfile destfile metadata =
      sendFile w jni pasmgr hr jdev srcfile destfile metadata := by
  have hnone : (metadataGetters.find? fun getter => ¬ getMethodID getter.1) = none := by
    simpa using h
  have hmeta : pmeta jni getMethodID metadata = metadata.map jni.filemetadata := by
    rw [pmeta, hnone]
    cases metadata <;> rfl
  cases pasmgr with
  | none => rfl
  | some listDevices =>
    rw [sendFileLookups, hmeta]
    rfl

/-! ## When nothing goes wrong -/

/-- There is what the MTP branch reads: a component, and a record where an object for its items can
be created. -/
structure ArgumentsServe (hr : Outcomes) (t : Storage) (dest : WStr)
    (metadata : Option FileMetadata) : Prop where
  dest_ne_nil : dest ≠ []
  metadata_ne_none : ∀ q, Walks hr true [] t.children (splitString dest [slash] false).dropLast q →
    Succeeded (hr (.queryStorage3 q)) → Succeeded (hr (.queryControl3 q)) →
    hr (.createEmptyMetadata q) = sOk → metadata ≠ none

section Safe

variable {hr : Outcomes} {t : Storage} {metadata : Option FileMetadata}

theorem insertInto_safe_iff (w : World) (p : Pos) (src filename : WStr) (progress : Bool)
    (ret : HRESULT) :
    (∀ fault, insertInto w hr t p src filename metadata progress ret ≠ .error fault) ↔
      (Succeeded (hr (.queryStorage3 p)) → Succeeded (hr (.queryControl3 p)) →
        hr (.createEmptyMetadata p) = sOk → metadata ≠ none) := by
  rcases missing_or_queries hr p with hmiss | ⟨h3, hc⟩
  case inl =>
    rw [insertInto_of_missing hmiss]
    exact iff_of_true (fun fault => by simp) fun h3 hc => hmiss.elim (absurd h3) (absurd hc)
  rw [insertInto_of_queries h3 hc]
  by_cases hcreate : hr (.createEmptyMetadata p) = sOk
  · cases metadata with
    | none => simp [transferMetadata, hcreate, h3, hc]
    | some m => simp [transferMetadata, hcreate]
  · simp [transferMetadata, hcreate]

/-- **When a transfer to an MTP device stays within its arguments.** -/
theorem transferMtp_safe_iff (w : World) (src dest : WStr) :
    (∀ fault, transferMtp w hr t src dest metadata ≠ .error fault) ↔
      ArgumentsServe hr t dest metadata := by
  have hroot : t.sub? [] = some t := Rose.sub?_nil t
  by_cases hne : dest = []
  · subst hne
    exact iff_of_false (fun h => h .vpathOutOfBounds rfl) fun h => h.dest_ne_nil rfl
  rw [transferMtp_of_ne_nil hne, afterWalk]
  rcases walkFolders_storage_cases hr true (splitString dest [slash] false).dropLast hroot with
    ⟨q, hq, hstorage⟩ | ⟨hno, hstorage⟩
  · rw [hstorage]
    refine (insertInto_safe_iff w q src _ _ _).trans ⟨fun h => ⟨hne, fun q' hq' => ?_⟩, fun h =>
      h.metadata_ne_none q hq⟩
    obtain rfl := hq.unique hroot hq'
    exact h
  · rw [hstorage]
    exact iff_of_true (fun fault => by simp) ⟨hne, fun q hq => absurd hq (hno q)⟩

theorem transferFile_safe_iff (w : World) (usbdev : UsbDevice) (src dest : WStr) :
    (∀ fault, transferFile w hr usbdev src dest metadata ≠ .error fault) ↔
      (usbdev.mode = .mtp → ArgumentsServe hr usbdev.rootStorage dest metadata) := by
  rw [transferFile]
  cases usbdev.mode with
  | mtp => simpa using transferMtp_safe_iff w src dest
  | msc =>
    refine iff_of_true (fun fault => ?_) (by simp)
    dsimp only
    split <;> simp
  | undef => simp
  | other raw => simp

theorem sendFileLookups_safe_iff (w : World) (jni : Jni) (getMethodID : String → Bool)
    (pasmgr : Option Registry) (jdev srcfile destfile : WStr) :
    (∀ fault,
        sendFileLookups w jni getMethodID pasmgr hr jdev srcfile destfile metadata ≠ .error fault) ↔
      ∀ listDevices usbdev, pasmgr = some listDevices →
        getInternaldevice jni listDevices jdev = some usbdev → usbdev.mode = .mtp →
        ArgumentsServe hr usbdev.rootStorage (jni.ca2w destfile).1
          (pmeta jni getMethodID metadata) := by
  cases pasmgr with
  | none => simp [sendFileLookups]
  | some listDevices =>
    cases hdev : getInternaldevice jni listDevices jdev with
    | none =>
      refine iff_of_true (fun fault => by simp [sendFileLookups, hdev]) fun _ usbdev h hdev' => ?_
      obtain rfl := Option.some.inj h
      exact absurd (hdev.symm.trans hdev') (by simp)
    | some usbdev =>
      have hcall : (∀ fault, sendFileLookups w jni getMethodID (some listDevices) hr jdev srcfile
          destfile metadata ≠ .error fault) ↔
          ∀ fault, transferFile w hr usbdev (jni.ca2w srcfile).1 (jni.ca2w destfile).1
            (pmeta jni getMethodID metadata) ≠ .error fault := by
        simp only [sendFileLookups, hdev]
        cases transferFile w hr usbdev (jni.ca2w srcfile).1 (jni.ca2w destfile).1
          (pmeta jni getMethodID metadata) <;> simp
      rw [hcall, transferFile_safe_iff]
      constructor
      · intro h _ usbdev' hl hdev' hmode
        obtain rfl := Option.some.inj hl
        obtain rfl := Option.some.inj (hdev.symm.trans hdev')
        exact h hmode
      · exact fun h hmode => h listDevices usbdev rfl hdev hmode

end Safe

/-- **When a transfer stays within its arguments.**  On an MTP device, exactly if the destination is
not empty and there is a record wherever an object for its items can be created; for
`transfer_file`, and for `sendFile` with the record it passes. -/
theorem arguments_safe_iff (w : World) (hr : Outcomes) (usbdev : UsbDevice) (src dest : WStr)
    (metadata : Option FileMetadata) :
    ((∀ fault, transferFile w hr usbdev src dest metadata ≠ .error fault) ↔
      (usbdev.mode = .mtp → ArgumentsServe hr usbdev.rootStorage dest metadata)) ∧
    ∀ (jni : Jni) (getMethodID : String → Bool) (pasmgr : Option Registry) (jdev : WStr),
      (∀ fault, sendFileLookups w jni getMethodID pasmgr hr jdev src dest metadata ≠
          .error fault) ↔
        ∀ listDevices usbdev, pasmgr = some listDevices →
          getInternaldevice jni listDevices jdev = some usbdev → usbdev.mode = .mtp →
          ArgumentsServe hr usbdev.rootStorage (jni.ca2w dest).1 (pmeta jni getMethodID metadata) :=
  ⟨transferFile_safe_iff w usbdev src dest, fun jni getMethodID pasmgr jdev =>
    sendFileLookups_safe_iff w jni getMethodID pasmgr jdev src dest⟩

/-- A file sent to the empty path, and a file sent without a record, to an empty player. -/
theorem arguments_unsafe :
    transferFile .sample (fun _ => sOk) (UsbDevice.emptyPlayer []) (wide "C:\\a.mp3") []
        (some .sample) = .error .vpathOutOfBounds ∧
      sendFileLookups .sample .identity (fun _ => true) (some onePlayer) (fun _ => sOk)
        (wide "player") (wide "C:\\a.mp3") (wide "/a.mp3") none = .error .nullMeta :=
  ⟨rfl, rfl⟩

end MtpRetag
