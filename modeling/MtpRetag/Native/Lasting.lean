import MtpRetag.Native.Session

/-!
# Native/Lasting — what a program can rely on after a call

A file that was sent can be read back, and one that was deleted is gone, through every run of later
calls that leaves its path alone (`sent_lasts`, `deleted_lasts`).  Both are read off the frame of a
run and what the read calls answer.

The files of a batch end up the same in whatever order they are sent (`sends_in_any_order`).
-/

namespace MtpRetag

section Lasting

variable {host : Host} {r r' : Registry} {jdev src dest path : WStr} {hr : Outcomes}

/-- What a `sendFile` that inserted leaves. -/
theorem sendFile_leaves {m : FileMetadata} {call : SendCall} (hfolds : host.Folds)
    (hr' : AllDistinct r)
    (h : sendFile host.world host.jni (some r) hr jdev src dest (some m) = .ok call)
    (hins : call.insert3 = some sOk) (hleft : call.listDevices = some r') :
    AllDistinct r' ∧ (host.jni.ca2w dest).1 ≠ [] ∧ ∃ usbdev spMeta,
      r'.device (host.jni.ca2w jdev).1 = some usbdev ∧ usbdev.mode = .mtp ∧
      items usbdev.rootStorage (destKeys (host.jni.ca2w dest).1) =
        some (sentInfo host.world (host.jni.ca2w src).1 (host.jni.ca2w dest).1 spMeta) := by
  have hperform : r.perform host ⟨.sendFile src dest (some m), jdev, hr⟩ = .ok r' := by
    simp [Registry.perform, h, Except.map, hleft]
  have hdistinct := (allDistinct_iff_fresh hfolds hr' hperform).mpr (fresh_of_ne (by simp))
  obtain ⟨listDevices, usbdev, tr, hreg, hdev, hmtp, htr, htr3, rfl⟩ := sendFile_inserted h hins
  obtain rfl := Option.some.inj hreg
  obtain rfl := Option.some.inj hleft
  obtain ⟨hne, -⟩ := transferMtp_inserted htr htr3
  obtain ⟨-, spMeta, -, hitems⟩ := items_transferMtp_inserted hfolds htr htr3
  have hdev' := getInternaldevice_store hdev tr.tree
  rw [getInternaldevice_eq] at hdev'
  refine ⟨hdistinct, hne, _, spMeta, hdev', hmtp, ?_⟩
  rw [hitems, sendEdits]
  exact PathMap.edit_put_append (List.forall_mem_nil _)

/-- What a delete that succeeded leaves. -/
theorem deleteItem_leaves {osDelete : WStr → Bool} {usbdev : UsbDevice}
    (hdistinct : AllDistinct r) (hdev : r.device (host.jni.ca2w jdev).1 = some usbdev)
    (hmtp : usbdev.mode = .mtp)
    (hret : (deleteItem osDelete host.jni (some r) hr jdev path).ret = Error.success.toInt64)
    (hleft : (deleteItem osDelete host.jni (some r) hr jdev path).listDevices = some r')
    (hroot : (host.jni.ca2w path).1 ≠ [slash, slash]) :
    AllDistinct r' ∧ (host.jni.ca2w path).1 ≠ [] ∧ ¬ RootSpelling (host.jni.ca2w path).1 ∧
      ∃ t, r'.device (host.jni.ca2w jdev).1 = some { usbdev with rootStorage := t } ∧
        items t (pathKeys (host.jni.ca2w path).1) = none := by
  have hdev' : getInternaldevice host.jni r jdev = some usbdev := by rw [getInternaldevice_eq, hdev]
  have hg : ¬ ((host.jni.ca2w path).1 = [] ∨ (host.jni.ca2w path).1 = [slash]) := by
    intro hg
    have hwrong : Error.wrongParameter.toInt64 ≠ Error.success.toInt64 := by decide
    rw [deleteItem_of_guard hdev' hg] at hret
    exact hwrong hret
  have hnot : ¬ RootSpelling (host.jni.ca2w path).1 := fun h => h.elim (fun h => hg (.inr h)) hroot
  have hsiblings : DistinctSiblings usbdev.rootStorage := @hdistinct _ _ hdev
  rw [deleteItem_of_mtp hdev' hmtp hg] at hleft
  obtain rfl := Option.some.inj hleft
  refine ⟨hdistinct.store hdev hsiblings.deleteMtpitem, fun h => hg (.inl h), hnot, _,
    device_store_self hdev _, ?_⟩
  rw [ret_deleteItem_of_mtp hdev' hmtp hg] at hret
  rcases tree_deleteMtpitem hr usbdev.rootStorage (host.jni.ca2w path).1 with ⟨hno, -⟩ | ⟨p, hp, ht⟩
  · simp [hret] at hno
  · rw [cStr_eq_self (host.jni.ca2w path).2] at hp
    rw [ht, items_deleteAt hsiblings (resolve_of_lookupPath hp)]
    refine PathMap.remove_of_prefix List.prefix_rfl ?_
    rw [pathKeys, pathNames, if_neg hnot]
    simpa using splitString_slash_ne_nil fun h => hg (.inl h)

end Lasting

/-- **What was sent can be read back**, through every run of later calls none of which overwrites
its destination: the bytes of the source, and the same record as right behind the sending. -/
theorem sent_lasts (host : Host) (hfolds : host.Folds) (r r' : Registry) (hdistinct : AllDistinct r)
    (hr : Outcomes) (jdev src dest : WStr) (m : FileMetadata) (call : SendCall)
    (hsend : sendFile host.world host.jni (some r) hr jdev src dest (some m) = .ok call)
    (hins : call.insert3 = some sOk) (hleft : call.listDevices = some r')
    (later : List DeviceCall)
    (hfresh : ∀ e ∈ Transition.fired host.step r' later, e.label.Fresh host e.pre)
    (hkeep : ∀ e ∈ Transition.fired host.step r' later,
      e.label.devid host = (host.jni.ca2w jdev).1 →
        ¬ e.label.op.Overwrites host (destKeys (host.jni.ca2w dest).1)) :
    ∃ usbdev, (Transition.final host.step r' later).device (host.jni.ca2w jdev).1 = some usbdev ∧
      ∀ hread : Outcomes, (∀ c, hread c = sOk) →
        readContent hread usbdev.rootStorage (host.jni.ca2w dest).1 =
            some (host.world.content (host.jni.ca2w src).1) ∧
          (¬ RootSpelling (host.jni.ca2w dest).1 → ∀ m',
            getMetadata host.jni (some (Transition.final host.step r' later)) hread jdev dest
                (some m') =
              getMetadata host.jni (some r') hread jdev dest (some m')) := by
  obtain ⟨hdistinct', hne, usbdev, spMeta, hdev, hmtp, hitem⟩ :=
    sendFile_leaves hfolds hdistinct hsend hins hleft
  obtain ⟨t, hfinal, hstays, -⟩ := run_frame hfolds hdistinct' hfresh hdev
  have hsame := hstays _ (by rw [hitem]; rfl) hkeep
  refine ⟨_, hfinal, fun hread hok => ⟨?_, fun hroot m' => ?_⟩⟩
  · rw [readContent_of_ok hok, readKeys_eq_destKeys hne]
    dsimp only
    rw [hsame, hitem, Option.map_some, sentInfo, cStr_eq_self (host.jni.ca2w src).2]
  · have hkeys := pathKeys_eq_readKeys hroot
    rw [readKeys_eq_destKeys hne] at hkeys
    rw [getMetadata_eq_items (by rw [getInternaldevice_eq, hfinal]) (by simp [hmtp]) hok hne,
      getMetadata_eq_items (by rw [getInternaldevice_eq, hdev]) (by simp [hmtp]) hok hne, hkeys]
    dsimp only
    rw [hsame]

/-- A deletion that names another path than was sent to. -/
def deleteOther : List DeviceCall := [⟨.deleteFile (wide "/b.mp3"), wide "player", fun _ => sOk⟩]

theorem sent_lasts_onePlayer :
    ∃ call r', sendFile Host.sample.world Host.sample.jni (some onePlayer) (fun _ => sOk)
        (wide "player") (wide "C:\\a.mp3") (wide "/a.mp3") (some .sample) = .ok call ∧
      call.listDevices = some r' ∧
      ∃ usbdev, (Transition.final Host.sample.step r' deleteOther).device (wide "player") =
          some usbdev ∧
        readContent (fun _ => sOk) usbdev.rootStorage (wide "/a.mp3") = some [1, 2, 3] := by
  have hcall : ∀ r, ∀ e ∈ Transition.fired Host.sample.step r deleteOther,
      e.label = ⟨.deleteFile (wide "/b.mp3"), wide "player", fun _ => sOk⟩ :=
    fun r e he => List.mem_singleton.mp (Transition.label_mem_of_mem_fired he)
  have hplayer : AllDistinct onePlayer := allDistinct_store (distinctSiblings_leaf _)
  obtain ⟨usbdev, hfinal, hread⟩ := sent_lasts .sample (fun _ _ => rfl) onePlayer _ hplayer
    (fun _ => sOk) (wide "player") (wide "C:\\a.mp3") (wide "/a.mp3") .sample _ rfl (by decide) rfl
    deleteOther (fun e he => fresh_of_ne fun path => by rw [hcall _ e he]; simp)
    fun e he _ => by rw [hcall _ e he]; decide
  exact ⟨_, _, rfl, rfl, usbdev, hfinal, (hread _ fun _ => rfl).1⟩

/-- **What was deleted is gone**, with all below it, through every run of later calls none of which
creates its path: no lookup whose pointer reads it finds it, it has no record, and it is not
read. -/
theorem deleted_lasts (host : Host) (hfolds : host.Folds) (r r' : Registry)
    (hdistinct : AllDistinct r) (osDelete : WStr → Bool) (hr : Outcomes) (jdev path : WStr)
    (usbdev : UsbDevice) (hdev : r.device (host.jni.ca2w jdev).1 = some usbdev)
    (hmtp : usbdev.mode = .mtp)
    (hret : (deleteItem osDelete host.jni (some r) hr jdev path).ret = Error.success.toInt64)
    (hleft : (deleteItem osDelete host.jni (some r) hr jdev path).listDevices = some r')
    (hroot : (host.jni.ca2w path).1 ≠ [slash, slash]) (later : List DeviceCall)
    (hfresh : ∀ e ∈ Transition.fired host.step r' later, e.label.Fresh host e.pre)
    (hspare : ∀ e ∈ Transition.fired host.step r' later,
      e.label.devid host = (host.jni.ca2w jdev).1 →
        ¬ e.label.op.Creates host (pathKeys (host.jni.ca2w path).1)) :
    ∃ usbdev' listDevices, listDevices = Transition.final host.step r' later ∧
      listDevices.device (host.jni.ca2w jdev).1 = some usbdev' ∧
      (∀ q, pathKeys (host.jni.ca2w path).1 <+: q → items usbdev'.rootStorage q = none) ∧
      ∀ hread : Outcomes,
        (∀ volume attributes dwAttrib,
          existFile volume host.jni (some listDevices) hread attributes dwAttrib jdev
              (host.jni.ca2w path) ≠ Error.success.toInt64 ∧
            existFolder volume host.jni (some listDevices) hread attributes dwAttrib jdev
              (host.jni.ca2w path) ≠ Error.success.toInt64) ∧
        (∀ m, getMetadata host.jni (some listDevices) hread jdev path (some m) =
          ⟨Error.metadataProperty.toInt64, some m⟩) ∧
        ∀ localdest, (getFile host.world host.jni (some listDevices) hread jdev localdest
          path).read = none := by
  obtain ⟨hdistinct', hne, hnot, t, hdev', hgone⟩ :=
    deleteItem_leaves hdistinct hdev hmtp hret hleft hroot
  obtain ⟨t', hfinal, -, hspared⟩ := run_frame hfolds hdistinct' hfresh hdev'
  have hnone : items t' (pathKeys (host.jni.ca2w path).1) = none := hspared _ hgone hspare
  have hfound : getInternaldevice host.jni (Transition.final host.step r' later) jdev =
      some { usbdev with rootStorage := t' } := by rw [getInternaldevice_eq, hfinal]
  have hlookup : lookupPath t' (host.jni.ca2w path).1 = none := by
    rcases lookupPath_cases t' hne with ⟨h, -⟩ | ⟨p, n, -, -, h⟩
    · exact h
    · simp [hnone] at h
  have hexist (attr : UInt32) (hread : Outcomes) (attributes : Attributes) (dwAttrib : UInt32) :
      existMtp attr hread attributes dwAttrib t' (host.jni.ca2w path).1 ≠ true := by
    rw [existMtp_of_lookupPath_none attr dwAttrib
      (by rwa [cStr_eq_self (host.jni.ca2w path).2])]
    exact Bool.false_ne_true
  refine ⟨_, _, rfl, hfinal, fun q hq => closed_items t' hnone hq, fun hread =>
    ⟨fun volume attributes dwAttrib => ⟨?_, ?_⟩, fun m => ?_, fun localdest => ?_⟩⟩
  · rw [existFile, Ne, existItem_of_mtp hfound hmtp]
    exact hexist attrFile hread attributes dwAttrib
  · rw [existFolder, Ne, existItem_of_mtp hfound hmtp]
    exact hexist attrFolder hread attributes dwAttrib
  · exact getMetadata_of_lookupPath_none hfound (by simp [hmtp]) hlookup hread m
  · rw [pathKeys_eq_readKeys hnot] at hnone
    simp only [getFile, hfound, readFile, hmtp]
    exact readMtp_of_items_none hnone

theorem deleted_lasts_filePlayer :
    ∃ r' usbdev,
      (deleteFile Host.sample.volume .identity (some (Registry.empty.store .filePlayer))
        (fun _ => sOk) (wide "player") (wide "/a.mp3")).listDevices = some r' ∧
      (Transition.final Host.sample.step r' deleteOther).device (wide "player") = some usbdev ∧
      items usbdev.rootStorage [wide "a.mp3"] = none := by
  have hcall : ∀ r, ∀ e ∈ Transition.fired Host.sample.step r deleteOther,
      e.label = ⟨.deleteFile (wide "/b.mp3"), wide "player", fun _ => sOk⟩ :=
    fun r e he => List.mem_singleton.mp (Transition.label_mem_of_mem_fired he)
  have hfile : DistinctSiblings UsbDevice.filePlayer.rootStorage := by
    rw [UsbDevice.filePlayer, distinctSiblings_iff]
    refine ⟨List.nodup_singleton _, List.forall_mem_singleton.mpr ?_⟩
    exact distinctSiblings_leaf _
  obtain ⟨usbdev, _, rfl, hfinal, hgone, -⟩ := deleted_lasts .sample (fun _ _ => rfl)
    (Registry.empty.store .filePlayer) _ (allDistinct_store hfile) Host.sample.volume.deleteFile
    (fun _ => sOk) (wide "player") (wide "/a.mp3") .filePlayer rfl rfl (by decide) rfl (by decide)
    deleteOther
    (fun e he => fresh_of_ne fun path => by rw [hcall _ e he]; simp)
    fun e he _ => by rw [hcall _ e he]; exact id
  exact ⟨_, usbdev, rfl, hfinal, hgone [wide "a.mp3"] List.prefix_rfl⟩

/-! ## A batch in any order -/

/-- The call the copy worker makes for one file. -/
def CopyJob.call (details : CopyJob) (jdev : WStr) : DeviceCall :=
  ⟨.sendFile details.source details.destination (some details.fm), jdev, details.hr⟩

/-- Where the file goes. -/
def CopyJob.keys (host : Host) (details : CopyJob) : List WStr :=
  destKeys (host.jni.ca2w details.destination).1

/-- …and what lies there behind a call that nothing hinders. -/
def CopyJob.info (host : Host) (details : CopyJob) : StorageInfo :=
  sentInfo host.world (host.jni.ca2w details.source).1 (host.jni.ca2w details.destination).1
    (addItems details.hr .empty (transferItems (host.jni.filemetadata details.fm)))

/-- A file for one of the folders, whose call nothing hinders. -/
structure CopyJob.Unhindered (host : Host) (folders : List WStr) (details : CopyJob) : Prop where
  ok : ∀ c, details.hr c = sOk
  ne_nil : (host.jni.ca2w details.destination).1 ≠ []
  folders_eq : destFolders (host.jni.ca2w details.destination).1 = folders

section Batch

variable {host : Host} {folders : List WStr} {jdev : WStr}

/-- One file more on the device. -/
theorem step_call {r : Registry} {usbdev : UsbDevice} {details : CopyJob} (hfolds : host.Folds)
    (hdetails : details.Unhindered host folders)
    (hdev : r.device (host.jni.ca2w jdev).1 = some usbdev) (hmtp : usbdev.mode = .mtp) :
    ∃ r' t, host.step r (details.call jdev) = some r' ∧
      r'.device (host.jni.ca2w jdev).1 = some { usbdev with rootStorage := t } ∧
      items t = (items usbdev.rootStorage).edit
        (folderAdds [] folders ++ [.put (details.keys host) (details.info host)]) := by
  obtain ⟨tr, htr, -, hitems⟩ := items_transferMtp_of_ok (t := usbdev.rootStorage)
    (host.jni.ca2w details.source).1 (host.jni.filemetadata details.fm) hfolds hdetails.ok
    hdetails.ne_nil
  have hfound : getInternaldevice host.jni r jdev = some usbdev := by
    rw [getInternaldevice_eq, hdev]
  have htransfer : transferFile host.world details.hr usbdev (host.jni.ca2w details.source).1
      (host.jni.ca2w details.destination).1 ((some details.fm).map host.jni.filemetadata) =
        .ok tr := by
    rw [transferFile, hmtp, Option.map_some]
    exact htr
  refine ⟨_, tr.tree, ?_, device_store_self hdev tr.tree, ?_⟩
  · simp [Host.step, Registry.perform, CopyJob.call, sendFile_of_transferFile hfound htransfer,
      Except.map, Except.toOption]
  · rw [hitems, sendEdits, hdetails.folders_eq]
    rfl

/-- The edits of a batch. -/
def batchEdits (host : Host) (folders : List WStr) (queue : List CopyJob) : List DeviceEdit :=
  queue.flatMap fun details =>
    folderAdds [] folders ++ [.put (details.keys host) (details.info host)]

/-- A batch does all its edits. -/
theorem run_calls (hfolds : host.Folds) :
    ∀ (queue : List CopyJob) {r : Registry} {usbdev : UsbDevice},
      (∀ details ∈ queue, details.Unhindered host folders) →
      r.device (host.jni.ca2w jdev).1 = some usbdev → usbdev.mode = .mtp →
      ∃ t, (Transition.final host.step r (queue.map fun details => details.call jdev)).device
          (host.jni.ca2w jdev).1 = some { usbdev with rootStorage := t } ∧
        items t = (items usbdev.rootStorage).edit (batchEdits host folders queue)
  | [], _, usbdev, _, hdev, _ => ⟨usbdev.rootStorage, hdev, rfl⟩
  | details :: queue, r, usbdev, hqueue, hdev, hmtp => by
      obtain ⟨hdetails, hrest⟩ := List.forall_mem_cons.mp hqueue
      obtain ⟨r', t, hstep, hdev', hitems⟩ := step_call hfolds hdetails hdev hmtp
      obtain ⟨t', hfinal, hitems'⟩ := run_calls hfolds queue hrest hdev' hmtp
      rw [List.map_cons, Transition.final_cons_of_some hstep]
      refine ⟨t', hfinal, ?_⟩
      rw [hitems', hitems, ← PathMap.edit_append]
      rfl

/-- The files of a batch, without the folders on the way. -/
def batchPuts (host : Host) (queue : List CopyJob) : List DeviceEdit :=
  queue.map fun details => .put (details.keys host) (details.info host)

/-- A file lies one level below the last folder. -/
theorem CopyJob.Unhindered.keys_eq {details : CopyJob} (h : details.Unhindered host folders) :
    details.keys host = folders.map makeLower ++
      [makeLower (cStr (fileName (host.jni.ca2w details.destination).1))] := by
  rw [CopyJob.keys, destKeys, h.folders_eq]

/-- Once the folders are there, adding them again does nothing, whatever files came between. -/
theorem edit_folderAdds_again (queue : List CopyJob)
    (hqueue : ∀ details ∈ queue, details.Unhindered host folders) (m : DeviceMap) :
    ((m.edit (folderAdds [] folders)).edit (batchPuts host queue)).edit (folderAdds [] folders) =
      (m.edit (folderAdds [] folders)).edit (batchPuts host queue) := by
  refine PathMap.edit_adds_eq_self fun e he => ?_
  obtain ⟨ks, info, rfl, -, hpre⟩ := exists_of_mem_folderAdds he
  refine ⟨ks, info, rfl, ?_⟩
  have hthere : ((m.edit (folderAdds [] folders)) ks).isSome := by
    refine PathMap.edit_add_isSome (fun e he => ?_) he
    obtain ⟨_, _, rfl, -⟩ := exists_of_mem_folderAdds he
    exact id
  rw [PathMap.edit_of_isSome hthere]
  · exact hthere
  · -- a file lies deeper than the folders on its way
    intro e he hover
    obtain ⟨details, hdetails, rfl⟩ := List.mem_map.mp he
    have hkey : details.keys host <+: ks := hover
    have hlen := hkey.length_le.trans hpre.length_le
    rw [(hqueue details hdetails).keys_eq] at hlen
    simp at hlen

/-- **A batch is its folders, then its files.** -/
theorem edit_batchEdits :
    ∀ (queue : List CopyJob) (m : DeviceMap), queue ≠ [] →
      (∀ details ∈ queue, details.Unhindered host folders) →
      m.edit (batchEdits host folders queue) =
        (m.edit (folderAdds [] folders)).edit (batchPuts host queue)
  | [details], m, _, _ => by simp [batchEdits, batchPuts, PathMap.edit_append]
  | details :: d :: queue, m, _, hqueue => by
      obtain ⟨hdetails, hrest⟩ := List.forall_mem_cons.mp hqueue
      have hcons : batchEdits host folders (details :: d :: queue) = folderAdds [] folders ++
          batchPuts host [details] ++ batchEdits host folders (d :: queue) := rfl
      have hone : ∀ d ∈ [details], d.Unhindered host folders :=
        List.forall_mem_singleton.mpr hdetails
      have ih := edit_batchEdits (d :: queue)
        ((m.edit (folderAdds [] folders)).edit (batchPuts host [details])) (by simp) hrest
      rw [hcons, PathMap.edit_append, PathMap.edit_append, ih, edit_folderAdds_again _ hone,
        ← PathMap.edit_append]
      rfl

/-- The files of a batch with different names lie apart. -/
theorem apart_of_mem_batchPuts {queue : List CopyJob}
    (hqueue : ∀ details ∈ queue, details.Unhindered host folders)
    (hnames : (queue.map fun details => details.keys host).Nodup) :
    ∀ e ∈ batchPuts host queue, ∀ f ∈ batchPuts host queue,
      e = f ∨ PathMap.Apart e.site f.site := by
  rintro e he f hf
  obtain ⟨d, hd, rfl⟩ := List.mem_map.mp he
  obtain ⟨d', hd', rfl⟩ := List.mem_map.mp hf
  by_cases hkeys : d.keys host = d'.keys host
  · obtain rfl : d = d' := List.inj_on_of_nodup_map hnames hd hd' hkeys
    exact .inl rfl
  · refine .inr (PathMap.apart_of_length_eq ?_ hkeys)
    simp [PathMap.Edit.site, (hqueue d hd).keys_eq, (hqueue d' hd').keys_eq]

/-- Each of them is there in the end. -/
theorem edit_batchPuts_keys {queue : List CopyJob} {details : CopyJob} {m : DeviceMap}
    (hqueue : ∀ details ∈ queue, details.Unhindered host folders)
    (hnames : (queue.map fun details => details.keys host).Nodup) (hdetails : details ∈ queue) :
    m.edit (batchPuts host queue) (details.keys host) = some (details.info host) := by
  obtain ⟨front, rest, rfl⟩ := List.append_of_mem hdetails
  have hcut : batchPuts host (front ++ details :: rest) =
      batchPuts host front ++ .put (details.keys host) (details.info host) ::
        batchPuts host rest := by simp [batchPuts]
  rw [hcut]
  refine PathMap.edit_put_append fun e he hover => ?_
  obtain ⟨d, hd, rfl⟩ := List.mem_map.mp he
  have hpre : d.keys host <+: details.keys host := hover
  have hlen : (d.keys host).length = (details.keys host).length := by
    simp [(hqueue d (by simp [hd])).keys_eq, (hqueue details (by simp)).keys_eq]
  rw [List.map_append, List.map_cons, List.nodup_append, List.nodup_cons] at hnames
  exact hnames.2.1.1 (hpre.eq_of_length hlen ▸ List.mem_map_of_mem hd)

end Batch

/-- **The order of a batch does not matter.**  The files for one folder, under different names: when
nothing hinders their calls, every order of them leaves the same on the device, and every file is
there. -/
theorem sends_in_any_order (host : Host) (hfolds : host.Folds) (r : Registry) (jdev : WStr)
    (usbdev : UsbDevice) (hdev : r.device (host.jni.ca2w jdev).1 = some usbdev)
    (hmtp : usbdev.mode = .mtp) (folders : List WStr) (queue queue' : List CopyJob)
    (hperm : queue.Perm queue') (hqueue : ∀ details ∈ queue, details.Unhindered host folders)
    (hnames : (queue.map fun details => details.keys host).Nodup) :
    ∃ t t',
      (Transition.final host.step r (queue.map fun details => details.call jdev)).device
          (host.jni.ca2w jdev).1 = some { usbdev with rootStorage := t } ∧
        (Transition.final host.step r (queue'.map fun details => details.call jdev)).device
          (host.jni.ca2w jdev).1 = some { usbdev with rootStorage := t' } ∧
        items t = items t' ∧
        ∀ details ∈ queue, items t (details.keys host) = some (details.info host) := by
  have hqueue' : ∀ details ∈ queue', details.Unhindered host folders := fun d hd =>
    hqueue d (hperm.mem_iff.mpr hd)
  obtain ⟨t, hfinal, hitems⟩ := run_calls hfolds queue hqueue hdev hmtp
  obtain ⟨t', hfinal', hitems'⟩ := run_calls hfolds queue' hqueue' hdev hmtp
  refine ⟨t, t', hfinal, hfinal', ?_⟩
  by_cases hne : queue = []
  · subst hne
    obtain rfl := hperm.nil_eq
    exact ⟨hitems.trans hitems'.symm, by simp⟩
  have hne' : queue' ≠ [] := by
    rintro rfl
    exact hne hperm.eq_nil
  have hputs : (batchPuts host queue).Perm (batchPuts host queue') := hperm.map _
  have hapart := apart_of_mem_batchPuts hqueue hnames
  rw [edit_batchEdits queue _ hne hqueue] at hitems
  rw [edit_batchEdits queue' _ hne' hqueue',
    ← PathMap.edit_perm hputs hapart] at hitems'
  refine ⟨hitems.trans hitems'.symm, fun details hdetails => ?_⟩
  rw [hitems]
  exact edit_batchPuts_keys hqueue hnames hdetails

/-- Two files for the music folder of an empty player. -/
def twoSends : List CopyJob :=
  [⟨wide "C:\\a.mp3", wide "/Music/a.mp3", .sample, fun _ => sOk⟩,
    ⟨wide "C:\\b.mp3", wide "/Music/b.mp3", .sample, fun _ => sOk⟩]

theorem sends_in_any_order_onePlayer :
    ∃ t t',
      (Transition.final Host.sample.step onePlayer
          (twoSends.map fun details => details.call (wide "player"))).device (wide "player") =
        some { UsbDevice.emptyPlayer (wide "player") with rootStorage := t } ∧
      (Transition.final Host.sample.step onePlayer
          (twoSends.reverse.map fun details => details.call (wide "player"))).device
            (wide "player") =
        some { UsbDevice.emptyPlayer (wide "player") with rootStorage := t' } ∧
      items t = items t' := by
  have hqueue : ∀ details ∈ twoSends, details.Unhindered .sample [wide "Music"] := by
    refine List.forall_mem_cons.mpr ⟨⟨fun _ => rfl, by decide, by decide⟩, ?_⟩
    exact List.forall_mem_singleton.mpr ⟨fun _ => rfl, by decide, by decide⟩
  obtain ⟨t, t', hfinal, hfinal', heq, -⟩ := sends_in_any_order .sample (fun _ _ => rfl) onePlayer
    (wide "player") (.emptyPlayer (wide "player")) rfl rfl [wide "Music"] twoSends twoSends.reverse
    (List.reverse_perm twoSends).symm hqueue (by decide)
  exact ⟨t, t', hfinal, hfinal', heq⟩

end MtpRetag
