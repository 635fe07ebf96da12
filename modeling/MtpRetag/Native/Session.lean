import MtpRetag.Machinery.Transition
import MtpRetag.Native.Answers
import MtpRetag.Native.Registry

/-!
# Native/Session — calls on the devices of a library, one after the other

A program makes calls on registered devices in any order, and any COM call behind them may fail.
Each call has its list of edits, and what it does to the map of its device is a *prefix* of it
(`DeviceOp.Leaves.edits`); so a run does to each device what its calls say (`run_edits`).

From there on no tree is looked at: what no call of a run overwrites stays, and what none creates
stays away (`run_frame`).
-/

namespace MtpRetag

/-! ## Calls -/

/-- A call of an entry point of `jpmp.device.UsbDevice`. -/
inductive DeviceOp
  | sendFile (srcfile destfile : WStr) (metadata : Option FileMetadata)
  | createFolder (path : WStr)
  | deleteFile (path : WStr)
  | deleteFolder (path : WStr)
  | updateMetadata (path : WStr) (metadata : Option FileMetadata)
  /-- One that only reads: `existFile`, `existFolder`, `getFile`, `getMetadata`, `parseFolder`. -/
  | read

/-- …on a device, with the outcomes of the COM calls behind it. -/
structure DeviceCall where
  op : DeviceOp
  jdev : WStr
  hr : Outcomes

/-- What the library runs on. -/
structure Host where
  world : World
  jni : Jni
  createDirectory : WStr → Bool
  volume : Volume

/-- The device compares file names as `get_substorage` does. -/
def Host.Folds (host : Host) : Prop :=
  ∀ a b, host.world.sameName a b = decide (makeLower a = makeLower b)

/-- The name a call asks the registry for. -/
def DeviceCall.devid (host : Host) (c : DeviceCall) : WStr := (host.jni.ca2w c.jdev).1

/-- The registry a call leaves, or the fault it ends in. -/
def Registry.perform (host : Host) (r : Registry) (c : DeviceCall) : Except Fault Registry :=
  match c.op with
  | .sendFile srcfile destfile metadata =>
    (sendFile host.world host.jni (some r) c.hr c.jdev srcfile destfile metadata).map fun call =>
      call.listDevices.getD r
  | .createFolder path =>
    .ok ((host.jni.createFolder host.createDirectory (some r) c.hr c.jdev path).listDevices.getD r)
  | .deleteFile path =>
    .ok ((deleteFile host.volume host.jni (some r) c.hr c.jdev path).listDevices.getD r)
  | .deleteFolder path =>
    .ok ((deleteFolder host.volume host.jni (some r) c.hr c.jdev path).listDevices.getD r)
  | .updateMetadata path metadata =>
    .ok ((updateMetadata host.jni (some r) c.hr c.jdev path metadata).listDevices.getD r)
  | .read => .ok (r.getDevicebyid (host.jni.ca2w c.jdev).1).2

/-- A call as a step; a fault ends the process. -/
def Host.step (host : Host) (r : Registry) (c : DeviceCall) : Option Registry :=
  (r.perform host c).toOption

/-! ## What a call is for -/

/-- The edits of a call that nothing hinders; `spMeta` is the metadata object it makes. -/
def DeviceOp.edits (host : Host) (spMeta : MetaData) : DeviceOp → List DeviceEdit
  | .sendFile srcfile destfile _ =>
    sendEdits host.world (host.jni.ca2w srcfile).1 (host.jni.ca2w destfile).1 spMeta
  | .createFolder path =>
    [.add (createKeys (host.jni.ca2w path).1)
      (folderInfo (cStr (folderTocreate (host.jni.ca2w path).1)))]
  | .deleteFile path => [.remove (pathKeys (host.jni.ca2w path).1)]
  | .deleteFolder path => [.remove (pathKeys (host.jni.ca2w path).1)]
  | .updateMetadata path _ =>
    [.alter (pathKeys (host.jni.ca2w path).1) fun s => { s with metadata := spMeta }]
  | .read => []

/-- A call replaces or takes away what lies at a path. -/
def DeviceOp.Overwrites (host : Host) (q : List WStr) : DeviceOp → Prop
  | .sendFile _ destfile _ => destKeys (host.jni.ca2w destfile).1 <+: q
  | .createFolder _ => False
  | .deleteFile path => pathKeys (host.jni.ca2w path).1 <+: q
  | .deleteFolder path => pathKeys (host.jni.ca2w path).1 <+: q
  | .updateMetadata path _ => q = pathKeys (host.jni.ca2w path).1
  | .read => False

/-- A call brings something to a path that leads nowhere. -/
def DeviceOp.Creates (host : Host) (q : List WStr) : DeviceOp → Prop
  | .sendFile _ destfile _ => q ≠ [] ∧ q <+: destKeys (host.jni.ca2w destfile).1
  | .createFolder path => q = createKeys (host.jni.ca2w path).1
  | .deleteFile _ => False
  | .deleteFolder _ => False
  | .updateMetadata _ _ => False
  | .read => False

instance (host : Host) (q : List WStr) : (op : DeviceOp) → Decidable (op.Overwrites host q)
  | .sendFile _ destfile _ =>
    inferInstanceAs (Decidable (destKeys (host.jni.ca2w destfile).1 <+: q))
  | .createFolder _ => inferInstanceAs (Decidable False)
  | .deleteFile path => inferInstanceAs (Decidable (pathKeys (host.jni.ca2w path).1 <+: q))
  | .deleteFolder path => inferInstanceAs (Decidable (pathKeys (host.jni.ca2w path).1 <+: q))
  | .updateMetadata path _ => inferInstanceAs (Decidable (q = pathKeys (host.jni.ca2w path).1))
  | .read => inferInstanceAs (Decidable False)

/-- The edits a run may have made on the device of a name: of each call on it, a prefix. -/
inductive RunEdits (host : Host) (id : WStr) : List DeviceCall → List DeviceEdit → Prop
  | nil : RunEdits host id [] []
  | other {c : DeviceCall} {calls : List DeviceCall} {es : List DeviceEdit}
      (hc : c.devid host ≠ id) (hrest : RunEdits host id calls es) :
      RunEdits host id (c :: calls) es
  | call {c : DeviceCall} {calls : List DeviceCall} {es fs : List DeviceEdit} {spMeta : MetaData}
      (hc : c.devid host = id) (hfs : fs <+: c.op.edits host spMeta)
      (hrest : RunEdits host id calls es) : RunEdits host id (c :: calls) (fs ++ es)

section Edits

variable {host : Host} {q : List WStr}

/-- The folders on the way are added where the path leads past. -/
theorem exists_of_mem_folderAdds :
    ∀ {ks folders : List WStr} {e : DeviceEdit}, e ∈ folderAdds ks folders →
      ∃ ls info, e = .add ls info ∧ ls ≠ [] ∧ ls <+: ks ++ folders.map makeLower
  | _, [], _, h => by simp [folderAdds] at h
  | ks, c :: folders, e, h => by
      have hcons : ks ++ (c :: folders).map makeLower =
          ks ++ [makeLower c] ++ folders.map makeLower := by simp
      rw [hcons]
      rw [folderAdds, List.mem_cons] at h
      rcases h with rfl | h
      · exact ⟨_, _, rfl, by simp, List.prefix_append _ _⟩
      · exact exists_of_mem_folderAdds h

theorem not_overwrites_of_mem {op : DeviceOp} (h : ¬ op.Overwrites host q) {spMeta : MetaData}
    {e : DeviceEdit} (he : e ∈ op.edits host spMeta) : ¬ e.Overwrites q := by
  cases op with
  | sendFile srcfile destfile metadata =>
    rcases List.mem_append.mp he with he | he
    · obtain ⟨ls, info, rfl, -, -⟩ := exists_of_mem_folderAdds he
      exact id
    · obtain rfl := List.mem_singleton.mp he
      exact h
  | createFolder path =>
    obtain rfl := List.mem_singleton.mp he
    exact id
  | deleteFile path =>
    obtain rfl := List.mem_singleton.mp he
    exact h
  | deleteFolder path =>
    obtain rfl := List.mem_singleton.mp he
    exact h
  | updateMetadata path metadata =>
    obtain rfl := List.mem_singleton.mp he
    exact h
  | read => simp [DeviceOp.edits] at he

theorem not_creates_of_mem {op : DeviceOp} (h : ¬ op.Creates host q) {spMeta : MetaData}
    {e : DeviceEdit} (he : e ∈ op.edits host spMeta) : ¬ e.Creates q := by
  cases op with
  | sendFile srcfile destfile metadata =>
    rcases List.mem_append.mp he with he | he
    · obtain ⟨ls, info, rfl, hne, hpre⟩ := exists_of_mem_folderAdds he
      rintro rfl
      exact h ⟨hne, hpre.trans (List.prefix_append _ _)⟩
    · obtain rfl := List.mem_singleton.mp he
      rintro rfl
      exact h ⟨by simp [destKeys], List.prefix_rfl⟩
  | createFolder path =>
    obtain rfl := List.mem_singleton.mp he
    exact h
  | deleteFile path =>
    obtain rfl := List.mem_singleton.mp he
    exact id
  | deleteFolder path =>
    obtain rfl := List.mem_singleton.mp he
    exact id
  | updateMetadata path metadata =>
    obtain rfl := List.mem_singleton.mp he
    exact id
  | read => simp [DeviceOp.edits] at he

/-- Every edit of a run is one of a call of it. -/
theorem RunEdits.exists_call {id : WStr} {calls : List DeviceCall} {es : List DeviceEdit}
    (h : RunEdits host id calls es) {e : DeviceEdit} (he : e ∈ es) :
    ∃ c ∈ calls, c.devid host = id ∧ ∃ spMeta, e ∈ c.op.edits host spMeta := by
  induction h with
  | nil => simp at he
  | other _ _ ih =>
    obtain ⟨c, hc, hrest⟩ := ih he
    exact ⟨c, List.mem_cons_of_mem _ hc, hrest⟩
  | @call c calls es fs spMeta hc hfs _ ih =>
    rcases List.mem_append.mp he with he | he
    · exact ⟨c, List.mem_cons_self, hc, spMeta, hfs.subset he⟩
    · obtain ⟨c', hc', hrest⟩ := ih he
      exact ⟨c', List.mem_cons_of_mem _ hc', hrest⟩

end Edits

/-! ## What a call does -/

/-- What a call does to the tree of the device it finds. -/
def DeviceOp.Leaves (host : Host) (hr : Outcomes) (usbdev : UsbDevice) (t : Storage) :
    DeviceOp → Prop
  | .sendFile srcfile destfile metadata =>
    ∃ tr, transferFile host.world hr usbdev (host.jni.ca2w srcfile).1 (host.jni.ca2w destfile).1
      (metadata.map host.jni.filemetadata) = .ok tr ∧ t = tr.tree
  | .createFolder path =>
    t = if usbdev.mode = .mtp then
        (createFolderMtp hr usbdev.rootStorage (host.jni.ca2w path).1).tree
      else usbdev.rootStorage
  | .deleteFile path =>
    t = usbdev.rootStorage ∨
      usbdev.mode = .mtp ∧ t = (deleteMtpitem hr usbdev.rootStorage (host.jni.ca2w path).1).tree
  | .deleteFolder path =>
    t = usbdev.rootStorage ∨
      usbdev.mode = .mtp ∧ t = (deleteMtpitem hr usbdev.rootStorage (host.jni.ca2w path).1).tree
  | .updateMetadata path metadata =>
    t = usbdev.rootStorage ∨ ∃ m, metadata = some m ∧
      t = (usbdev.updateMetadata hr (host.jni.ca2w path).1 (host.jni.filemetadata m)).tree
  | .read => t = usbdev.rootStorage

/-- What a call does to the registry: it knows the same devices, but for the tree of the one the
call finds. -/
def Leaves (host : Host) (c : DeviceCall) (r r' : Registry) : Prop :=
  (r.device (c.devid host) = none ∧ r'.device = r.device) ∨
    ∃ usbdev t, r.device (c.devid host) = some usbdev ∧ c.op.Leaves host c.hr usbdev t ∧
      r'.device = Function.update r.device (c.devid host) (some { usbdev with rootStorage := t })

section Step

variable {host : Host} {r r' : Registry} {c : DeviceCall} {usbdev : UsbDevice}

theorem device_store_eq {id : WStr} (hdev : r.device id = some usbdev) (t : Storage) :
    (r.store { usbdev with rootStorage := t }).device =
      Function.update r.device id (some { usbdev with rootStorage := t }) := by
  have hcanonical : usbdev.canonical = id :=
    r.canonical_of_lookup (Option.join_eq_some_iff.mp hdev)
  funext id'
  rw [Registry.device_store, Function.update_apply, hcanonical]

theorem device_store_self {id : WStr} (hdev : r.device id = some usbdev) (t : Storage) :
    (r.store { usbdev with rootStorage := t }).device id =
      some { usbdev with rootStorage := t } := by
  rw [device_store_eq hdev, Function.update_self]

theorem device_eq_update (hdev : r.device (c.devid host) = some usbdev) :
    r.device = Function.update r.device (c.devid host)
      (some { usbdev with rootStorage := usbdev.rootStorage }) := by
  rw [eq_comm, Function.update_eq_self_iff, hdev]

theorem getInternaldevice_eq (jni : Jni) (r : Registry) (jdev : WStr) :
    getInternaldevice jni r jdev = r.device (jni.ca2w jdev).1 := r.fst_getDevicebyid _

theorem device_getDevicebyid_snd (r : Registry) (devid : WStr) :
    (r.getDevicebyid devid).2.device = r.device :=
  funext fun id => device_getDevicebyid r devid id

theorem leaves_same (hdev : r.device (c.devid host) = some usbdev)
    (h : c.op.Leaves host c.hr usbdev usbdev.rootStorage) : Leaves host c r r :=
  .inr ⟨usbdev, _, hdev, h, device_eq_update hdev⟩

theorem leaves_store (hdev : r.device (c.devid host) = some usbdev) {t : Storage}
    (h : c.op.Leaves host c.hr usbdev t) :
    Leaves host c r (r.store { usbdev with rootStorage := t }) :=
  .inr ⟨usbdev, t, hdev, h, device_store_eq hdev t⟩

theorem leaves_unknown (hdev : r.device (c.devid host) = none) (devid : WStr) :
    Leaves host c r (r.getDevicebyid devid).2 := .inl ⟨hdev, device_getDevicebyid_snd r devid⟩

/-- The two deletes. -/
theorem leaves_deleteItem {path : WStr} (osDelete : WStr → Bool)
    (hop : c.op = .deleteFile path ∨ c.op = .deleteFolder path) :
    Leaves host c r
      ((deleteItem osDelete host.jni (some r) c.hr c.jdev path).listDevices.getD r) := by
  have hleaves (usbdev : UsbDevice) (t : Storage) : c.op.Leaves host c.hr usbdev t ↔
      t = usbdev.rootStorage ∨ usbdev.mode = .mtp ∧
        t = (deleteMtpitem c.hr usbdev.rootStorage (host.jni.ca2w path).1).tree := by
    rcases hop with h | h <;> rw [h] <;> rfl
  have hsame {usbdev : UsbDevice} (hdev : r.device (host.jni.ca2w c.jdev).1 = some usbdev) :
      Leaves host c r r := leaves_same hdev ((hleaves _ _).mpr (.inl rfl))
  rw [deleteItem]
  cases hdev : r.device (host.jni.ca2w c.jdev).1 with
  | none =>
    simp only [getInternaldevice_eq, hdev]
    exact leaves_unknown hdev _
  | some usbdev =>
    simp only [getInternaldevice_eq, hdev]
    split
    · exact hsame hdev
    split
    case _ => split <;> exact hsame hdev
    case _ hmtp => exact leaves_store hdev ((hleaves _ _).mpr (.inr ⟨hmtp, rfl⟩))
    · exact hsame hdev

/-- A path that the guard of `createFolder` refuses has no parent. -/
theorem tree_createFolderMtp_of_guard {hr : Outcomes} {t : Storage} {fpath : WStr}
    (h : fpath.length = 0 ∨ fpath = [slash]) : (createFolderMtp hr t fpath).tree = t := by
  rcases h with h | rfl
  · rw [List.length_eq_zero_iff.mp h]
    rfl
  · rfl

theorem leaves_createFolder {path : WStr} (hop : c.op = .createFolder path) :
    Leaves host c r
      ((host.jni.createFolder host.createDirectory (some r) c.hr c.jdev path).listDevices.getD
        r) := by
  have hleaves (usbdev : UsbDevice) (t : Storage) : c.op.Leaves host c.hr usbdev t ↔
      t = if usbdev.mode = .mtp then
          (createFolderMtp c.hr usbdev.rootStorage (host.jni.ca2w path).1).tree
        else usbdev.rootStorage := by
    rw [hop]
    rfl
  rw [Jni.createFolder]
  cases hdev : r.device (host.jni.ca2w c.jdev).1 with
  | none =>
    simp only [getInternaldevice_eq, hdev]
    exact leaves_unknown hdev _
  | some usbdev =>
    simp only [getInternaldevice_eq, hdev]
    split
    case _ hg =>
      refine leaves_same hdev ((hleaves _ _).mpr ?_)
      rw [tree_createFolderMtp_of_guard hg, ite_self]
    split
    case _ hmsc =>
      have hsame : c.op.Leaves host c.hr usbdev usbdev.rootStorage := by
        rw [hleaves, hmsc, if_neg (by simp)]
      split <;> exact leaves_same hdev hsame
    case _ hmtp => exact leaves_store hdev ((hleaves _ _).mpr (by rw [if_pos hmtp]))
    case _ hmtp =>
      refine leaves_same hdev ((hleaves _ _).mpr ?_)
      rw [if_neg hmtp]

theorem leaves_sendFile {srcfile destfile : WStr} {metadata : Option FileMetadata}
    {call : SendCall} (hop : c.op = .sendFile srcfile destfile metadata)
    (h : sendFile host.world host.jni (some r) c.hr c.jdev srcfile destfile metadata = .ok call) :
    Leaves host c r (call.listDevices.getD r) := by
  rw [sendFile] at h
  cases hdev : r.device (host.jni.ca2w c.jdev).1 with
  | none =>
    simp only [getInternaldevice_eq, hdev] at h
    obtain rfl := Except.ok.inj h
    exact leaves_unknown hdev _
  | some usbdev =>
    simp only [getInternaldevice_eq, hdev] at h
    split at h
    · simp at h
    case _ tr htr =>
      obtain rfl := Except.ok.inj h
      exact leaves_store hdev (by rw [hop]; exact ⟨tr, htr, rfl⟩)

theorem leaves_updateMetadata {path : WStr} {metadata : Option FileMetadata}
    (hop : c.op = .updateMetadata path metadata) :
    Leaves host c r
      ((updateMetadata host.jni (some r) c.hr c.jdev path metadata).listDevices.getD r) := by
  have hleaves (usbdev : UsbDevice) (t : Storage) : c.op.Leaves host c.hr usbdev t ↔
      t = usbdev.rootStorage ∨ ∃ m, metadata = some m ∧
        t = (usbdev.updateMetadata c.hr (host.jni.ca2w path).1 (host.jni.filemetadata m)).tree := by
    rw [hop]
    rfl
  cases hdev : r.device (host.jni.ca2w c.jdev).1 with
  | none =>
    cases metadata with
    | none => exact .inl ⟨hdev, rfl⟩
    | some m =>
      simp only [updateMetadata, getInternaldevice_eq, hdev]
      exact leaves_unknown hdev _
  | some usbdev =>
    have hsame := leaves_same hdev ((hleaves usbdev _).mpr (.inl rfl))
    cases metadata with
    | none => exact hsame
    | some m =>
      simp only [updateMetadata, getInternaldevice_eq, hdev]
      split
      · exact hsame
      · exact leaves_store hdev ((hleaves _ _).mpr (.inr ⟨m, rfl, rfl⟩))

/-- **What a call does**, if it does not fault. -/
theorem leaves_of_perform (h : r.perform host c = .ok r') : Leaves host c r r' := by
  rw [Registry.perform] at h
  split at h
  case _ srcfile destfile metadata hop =>
    cases hcall : sendFile host.world host.jni (some r) c.hr c.jdev srcfile destfile metadata with
    | error fault =>
      rw [hcall] at h
      simp [Except.map] at h
    | ok call =>
      rw [hcall] at h
      obtain rfl := Except.ok.inj h
      exact leaves_sendFile hop hcall
  case _ path hop =>
    obtain rfl := Except.ok.inj h
    exact leaves_createFolder hop
  case _ path hop =>
    obtain rfl := Except.ok.inj h
    exact leaves_deleteItem _ (.inl hop)
  case _ path hop =>
    obtain rfl := Except.ok.inj h
    exact leaves_deleteItem _ (.inr hop)
  case _ path metadata hop =>
    obtain rfl := Except.ok.inj h
    exact leaves_updateMetadata hop
  case _ hop =>
    obtain rfl := Except.ok.inj h
    cases hdev : r.device (c.devid host) with
    | none => exact leaves_unknown hdev _
    | some usbdev =>
      refine .inr ⟨usbdev, usbdev.rootStorage, hdev, by rw [hop]; rfl, ?_⟩
      rw [device_getDevicebyid_snd]
      exact device_eq_update hdev

end Step

/-! ## What a call does to the map -/

section Items

variable {host : Host} {hr : Outcomes} {usbdev : UsbDevice} {t : Storage} {op : DeviceOp}

/-- Only an MTP device has a tree to change. -/
theorem DeviceOp.Leaves.eq_of_not_mtp (h : op.Leaves host hr usbdev t)
    (hmode : usbdev.mode ≠ .mtp) : t = usbdev.rootStorage := by
  cases op with
  | sendFile srcfile destfile metadata =>
    obtain ⟨tr, htr, rfl⟩ := h
    rw [transferFile] at htr
    split at htr
    · split at htr <;> (obtain rfl := Except.ok.inj htr; rfl)
    case _ hmtp => exact absurd hmtp hmode
    · obtain rfl := Except.ok.inj htr
      rfl
  | createFolder path => rwa [DeviceOp.Leaves, if_neg hmode] at h
  | deleteFile path => exact h.elim id fun h => absurd h.1 hmode
  | deleteFolder path => exact h.elim id fun h => absurd h.1 hmode
  | updateMetadata path metadata =>
    rcases h with rfl | ⟨m, -, rfl⟩
    · rfl
    · rw [UsbDevice.updateMetadata, if_pos hmode]
  | read => exact h

theorem edits_deleteMtpitem (host : Host) (hdistinct : DistinctSiblings usbdev.rootStorage)
    (path : WStr) (h : t = usbdev.rootStorage ∨
      usbdev.mode = .mtp ∧ t = (deleteMtpitem hr usbdev.rootStorage (host.jni.ca2w path).1).tree) :
    ∃ es, es <+: [.remove (pathKeys (host.jni.ca2w path).1)] ∧
      items t = (items usbdev.rootStorage).edit es := by
  rcases h with rfl | ⟨-, rfl⟩
  · exact ⟨[], List.nil_prefix, rfl⟩
  · have hitems := items_deleteMtpitem hr hdistinct (host.jni.ca2w path).1
    rwa [cStr_eq_self (host.jni.ca2w path).2] at hitems

/-- **A call does a prefix of its edits**, and nothing else. -/
theorem DeviceOp.Leaves.edits (hfolds : host.Folds)
    (hdistinct : DistinctSiblings usbdev.rootStorage) (h : op.Leaves host hr usbdev t) :
    ∃ spMeta es, es <+: op.edits host spMeta ∧ items t = (items usbdev.rootStorage).edit es := by
  by_cases hmtp : usbdev.mode = .mtp
  case neg => exact ⟨.empty, [], List.nil_prefix, by rw [h.eq_of_not_mtp hmtp]; rfl⟩
  cases op with
  | sendFile srcfile destfile metadata =>
    obtain ⟨tr, htr, rfl⟩ := h
    rw [transferFile, hmtp] at htr
    exact items_transferMtp hfolds htr
  | createFolder path =>
    rw [DeviceOp.Leaves, if_pos hmtp] at h
    obtain ⟨es, hes, heq⟩ := items_createFolderMtp hr usbdev.rootStorage (host.jni.ca2w path).1
    exact ⟨.empty, es, hes, by rw [h, heq]⟩
  | deleteFile path =>
    obtain ⟨es, hes, heq⟩ := edits_deleteMtpitem host hdistinct path h
    exact ⟨.empty, es, hes, heq⟩
  | deleteFolder path =>
    obtain ⟨es, hes, heq⟩ := edits_deleteMtpitem host hdistinct path h
    exact ⟨.empty, es, hes, heq⟩
  | updateMetadata path metadata =>
    rcases h with rfl | ⟨m, -, rfl⟩
    · exact ⟨.empty, [], List.nil_prefix, rfl⟩
    · have hitems := items_updateMetadata hr usbdev (host.jni.ca2w path).1 (host.jni.filemetadata m)
      rwa [cStr_eq_self (host.jni.ca2w path).2] at hitems
  | read => exact ⟨.empty, [], List.nil_prefix, by rw [show t = usbdev.rootStorage from h]; rfl⟩

theorem DistinctSiblings.deleteMtpitem {fpath : WStr} (ht : DistinctSiblings t) :
    DistinctSiblings (deleteMtpitem hr t fpath).tree := by
  rcases tree_deleteMtpitem hr t fpath with ⟨-, htree⟩ | ⟨p, hp, htree⟩
  · rwa [htree]
  · obtain ⟨n, hn⟩ := exists_sub?_of_lookupPath hp
    rw [htree]
    exact @DistinctSiblings.deleteAt t n p ht hn

theorem DistinctSiblings.updateMetadata {path : WStr} {m : FileMetadata}
    (ht : DistinctSiblings usbdev.rootStorage) :
    DistinctSiblings (usbdev.updateMetadata hr path m).tree := by
  rcases tree_updateMetadata hr usbdev path m with htree | ⟨p, spMeta, hp, htree⟩
  · rwa [htree]
  · obtain ⟨n, hn⟩ := exists_sub?_of_lookupPath hp
    rw [htree]
    apply ht.setMetadata hn

/-- Whether siblings stay distinct is a matter of one folder. -/
theorem distinctSiblings_createFolderMtp_iff {fpath : WStr} (ht : DistinctSiblings t) :
    DistinctSiblings (createFolderMtp hr t fpath).tree ↔
      (AcceptsFolder hr t fpath → items t (createKeys fpath) = none) := by
  rcases tree_createFolderMtp hr t fpath with ⟨hno, htree⟩ | ⟨p, hp, hacc, htree⟩
  · rw [htree]
    exact iff_of_true ht fun hacc => absurd hacc hno
  · rw [htree, distinctSiblings_insertFolder_iff ht (resolve_of_lookupPath hp)]
    exact ⟨fun h _ => h, fun h => h hacc⟩

/-- **A call keeps siblings distinct** unless it makes a folder of a name that is there. -/
theorem DeviceOp.Leaves.distinctSiblings_iff (hfolds : host.Folds)
    (hdistinct : DistinctSiblings usbdev.rootStorage) (h : op.Leaves host hr usbdev t) :
    DistinctSiblings t ↔ ∀ path, op = .createFolder path → usbdev.mode = .mtp →
      AcceptsFolder hr usbdev.rootStorage (host.jni.ca2w path).1 →
        items usbdev.rootStorage (createKeys (host.jni.ca2w path).1) = none := by
  by_cases hmtp : usbdev.mode = .mtp
  case neg =>
    rw [h.eq_of_not_mtp hmtp]
    exact iff_of_true hdistinct fun _ _ hmode => absurd hmode hmtp
  cases op with
  | sendFile srcfile destfile metadata =>
    obtain ⟨tr, htr, rfl⟩ := h
    rw [transferFile, hmtp] at htr
    refine iff_of_true ?_ fun _ hop => by simp at hop
    exact @DistinctSiblings.transferMtp _ _ _ _ _ _ _ hfolds hdistinct htr
  | createFolder path =>
    rw [DeviceOp.Leaves, if_pos hmtp] at h
    rw [h, distinctSiblings_createFolderMtp_iff hdistinct]
    refine ⟨?_, fun hall => hall path rfl hmtp⟩
    rintro hone _ hop -
    obtain rfl := DeviceOp.createFolder.inj hop
    exact hone
  | deleteFile path =>
    refine iff_of_true ?_ fun _ hop => by simp at hop
    rcases h with rfl | ⟨-, rfl⟩
    · exact hdistinct
    · exact @DistinctSiblings.deleteMtpitem _ _ _ hdistinct
  | deleteFolder path =>
    refine iff_of_true ?_ fun _ hop => by simp at hop
    rcases h with rfl | ⟨-, rfl⟩
    · exact hdistinct
    · exact @DistinctSiblings.deleteMtpitem _ _ _ hdistinct
  | updateMetadata path metadata =>
    refine iff_of_true ?_ fun _ hop => by simp at hop
    rcases h with rfl | ⟨m, -, rfl⟩
    · exact hdistinct
    · exact @DistinctSiblings.updateMetadata _ _ _ _ hdistinct
  | read =>
    obtain rfl : t = usbdev.rootStorage := h
    exact iff_of_true hdistinct fun _ hop => by simp at hop

end Items

/-! ## Distinct siblings over a run -/

/-- Every registered device has distinct siblings throughout. -/
def AllDistinct (r : Registry) : Prop :=
  ∀ id usbdev, r.device id = some usbdev → DistinctSiblings usbdev.rootStorage

/-- A `createFolder` that the device accepts names no item that is there. -/
def DeviceCall.Fresh (host : Host) (r : Registry) (c : DeviceCall) : Prop :=
  ∀ path usbdev, c.op = .createFolder path → r.device (c.devid host) = some usbdev →
    usbdev.mode = .mtp → AcceptsFolder c.hr usbdev.rootStorage (host.jni.ca2w path).1 →
      items usbdev.rootStorage (createKeys (host.jni.ca2w path).1) = none

section Distinct

variable {host : Host} {r r' : Registry} {c : DeviceCall}

/-- A call that makes no folder of its own is fresh. -/
theorem fresh_of_ne (h : ∀ path, c.op ≠ .createFolder path) : c.Fresh host r :=
  fun path _ hop => absurd hop (h path)

/-- **One call keeps siblings distinct** exactly if it is fresh. -/
theorem allDistinct_iff_fresh (hfolds : host.Folds) (hr : AllDistinct r)
    (h : r.perform host c = .ok r') : AllDistinct r' ↔ c.Fresh host r := by
  rcases leaves_of_perform h with ⟨hnone, heq⟩ | ⟨usbdev, t, hdev, hleaves, heq⟩
  · have hsame : AllDistinct r' := by rwa [AllDistinct, heq]
    refine iff_of_true hsame fun path d _ hd => ?_
    simp [hnone] at hd
  have hdistinct : DistinctSiblings usbdev.rootStorage := @hr _ _ hdev
  have hfresh : c.Fresh host r ↔ DistinctSiblings t := by
    rw [hleaves.distinctSiblings_iff hfolds hdistinct]
    constructor
    · exact fun hf path hop => hf path usbdev hop hdev
    · intro hf path d hop hd
      obtain rfl : usbdev = d := Option.some.inj (hdev.symm.trans hd)
      exact hf path hop
  rw [hfresh, AllDistinct, heq]
  constructor
  · exact fun hall => @hall (c.devid host) _ (Function.update_self _ _ _)
  · intro ht id d hd
    by_cases hid : id = c.devid host
    · subst hid
      rw [Function.update_self] at hd
      obtain rfl := Option.some.inj hd
      exact ht
    · rw [Function.update_of_ne hid] at hd
      have hdistinct := @hr id d hd
      exact hdistinct

/-- A device that is stored with another tree of distinct siblings. -/
theorem AllDistinct.store {id : WStr} {usbdev : UsbDevice} {t : Storage} (hr : AllDistinct r)
    (hdev : r.device id = some usbdev) (ht : DistinctSiblings t) :
    AllDistinct (r.store { usbdev with rootStorage := t }) := by
  intro id' d hd
  rw [device_store_eq hdev t, Function.update_apply] at hd
  split at hd
  · obtain rfl := Option.some.inj hd
    exact ht
  · exact @hr id' d hd

theorem perform_of_step (h : host.step r c = some r') : r.perform host c = .ok r' := by
  rw [Host.step] at h
  cases hp : r.perform host c with
  | error fault => simp [hp, Except.toOption] at h
  | ok s => simpa [hp, Except.toOption] using h

end Distinct

/-- **When siblings stay distinct.**  Over a run of calls on devices with distinct siblings, exactly
if no accepted `createFolder` names an item that is there: `sendFile` looks for a folder before it
creates one, `createFolder` does not. -/
theorem distinct_run_iff (host : Host) (hfolds : host.Folds) (r : Registry) (hr : AllDistinct r)
    (calls : List DeviceCall) :
    (∀ e ∈ Transition.fired host.step r calls, AllDistinct e.post) ↔
      ∀ e ∈ Transition.fired host.step r calls, e.label.Fresh host e.pre :=
  Transition.forall_post_iff AllDistinct AllDistinct (fun r c => c.Fresh host r) (fun _ => True)
    (fun _ _ _ _ hs hok h => (allDistinct_iff_fresh hfolds hs (perform_of_step h)).mpr hok)
    (fun _ h => h)
    (fun _ _ _ _ hs hno h hall => hno ((allDistinct_iff_fresh hfolds hs (perform_of_step h)).mp
      hall))
    calls (fun _ _ => trivial) hr

def Host.sample : Host :=
  ⟨.sample, .identity, fun _ => false, ⟨fun _ => false, fun _ => false⟩⟩

/-- One device with distinct siblings. -/
theorem allDistinct_store {usbdev : UsbDevice} (h : DistinctSiblings usbdev.rootStorage) :
    AllDistinct (Registry.empty.store usbdev) := by
  intro id d hd
  rw [Registry.device_store] at hd
  split at hd
  · obtain rfl := Option.some.inj hd
    exact h
  · simp at hd

theorem distinctSiblings_musicPlayer : DistinctSiblings musicPlayer.rootStorage := by
  have hmusic : DistinctSiblings (.node ⟨wide "Music", .folder, .empty, []⟩
      [.node ⟨wide "b.mp3", .file, .empty, []⟩ []]) := by
    rw [distinctSiblings_iff]
    refine ⟨List.nodup_singleton _, List.forall_mem_singleton.mpr ?_⟩
    exact distinctSiblings_leaf _
  rw [musicPlayer, distinctSiblings_iff]
  exact ⟨List.nodup_singleton _, List.forall_mem_singleton.mpr hmusic⟩

/-- The same folder made twice. -/
theorem distinct_run_iff_musicPlayer :
    (∀ e ∈ Transition.fired Host.sample.step (Registry.empty.store musicPlayer)
        [⟨.createFolder (wide "/Music/Rock"), wide "player", fun _ => sOk⟩,
          ⟨.createFolder (wide "/Music/ROCK"), wide "player", fun _ => sOk⟩], AllDistinct e.post) ↔
      ∀ e ∈ Transition.fired Host.sample.step (Registry.empty.store musicPlayer)
        [⟨.createFolder (wide "/Music/Rock"), wide "player", fun _ => sOk⟩,
          ⟨.createFolder (wide "/Music/ROCK"), wide "player", fun _ => sOk⟩],
        e.label.Fresh Host.sample e.pre :=
  distinct_run_iff .sample (fun _ _ => rfl) _ (allDistinct_store distinctSiblings_musicPlayer) _

/-! ## What a run does -/

section Run

variable {host : Host} {id : WStr}

/-- One call, as the device of a name sees it. -/
theorem step_edits {r r' : Registry} {c : DeviceCall} {usbdev : UsbDevice} (hfolds : host.Folds)
    (hr : AllDistinct r) (h : host.step r c = some r') (hdev : r.device id = some usbdev) :
    ∃ t es, r'.device id = some { usbdev with rootStorage := t } ∧ RunEdits host id [c] es ∧
      items t = (items usbdev.rootStorage).edit es := by
  by_cases hid : c.devid host = id
  case neg =>
    refine ⟨usbdev.rootStorage, [], ?_, .other hid .nil, rfl⟩
    rcases leaves_of_perform (perform_of_step h) with ⟨-, heq⟩ | ⟨_, _, -, -, heq⟩
    · rw [heq, hdev]
    · rw [heq, Function.update_of_ne (Ne.symm hid), hdev]
  subst hid
  rcases leaves_of_perform (perform_of_step h) with ⟨hnone, -⟩ | ⟨d, t, hd, hleaves, heq⟩
  · simp [hdev] at hnone
  · obtain rfl : usbdev = d := Option.some.inj (hdev.symm.trans hd)
    have hdistinct : DistinctSiblings usbdev.rootStorage := @hr _ _ hdev
    obtain ⟨spMeta, es, hes, hitems⟩ := hleaves.edits hfolds hdistinct
    refine ⟨t, es, by rw [heq, Function.update_self], ?_, hitems⟩
    rw [← List.append_nil es]
    exact .call rfl hes .nil

theorem RunEdits.cons {c : DeviceCall} {calls : List DeviceCall} {es fs : List DeviceEdit}
    (h : RunEdits host id [c] es) (hrest : RunEdits host id calls fs) :
    RunEdits host id (c :: calls) (es ++ fs) := by
  cases h with
  | other hc h =>
    cases h
    exact .other hc hrest
  | call hc hfs h =>
    cases h
    rw [List.append_nil]
    exact .call hc hfs hrest

/-- **What a run does.**  To the map of each device, of every call on it a prefix of its edits, one
call after the other; nothing else about the device changes. -/
theorem run_edits (hfolds : host.Folds) :
    ∀ (calls : List DeviceCall) {r : Registry} {usbdev : UsbDevice}, AllDistinct r →
      (∀ e ∈ Transition.fired host.step r calls, e.label.Fresh host e.pre) →
      r.device id = some usbdev →
      ∃ t es, (Transition.final host.step r calls).device id =
          some { usbdev with rootStorage := t } ∧
        RunEdits host id ((Transition.fired host.step r calls).map Transition.Fired.label) es ∧
        items t = (items usbdev.rootStorage).edit es
  | [], r, usbdev, _, _, hdev => ⟨usbdev.rootStorage, [], hdev, .nil, rfl⟩
  | c :: calls, r, usbdev, hr, hfresh, hdev => by
      cases h : host.step r c with
      | none =>
        rw [Transition.fired_cons_of_none h, Transition.final_cons_of_none h]
        exact ⟨usbdev.rootStorage, [], hdev, .nil, rfl⟩
      | some r' =>
        rw [Transition.fired_cons_of_some h, List.forall_mem_cons] at hfresh
        rw [Transition.fired_cons_of_some h, Transition.final_cons_of_some h, List.map_cons]
        obtain ⟨t, es, hdev', hes, hitems⟩ := step_edits hfolds hr h hdev
        have hr' := (allDistinct_iff_fresh hfolds hr (perform_of_step h)).mpr hfresh.1
        obtain ⟨t', fs, hfinal, hfs, hitems'⟩ := run_edits hfolds calls hr' hfresh.2 hdev'
        refine ⟨t', es ++ fs, hfinal, hes.cons hfs, ?_⟩
        rw [hitems', hitems, PathMap.edit_append]

variable {calls : List DeviceCall} {r : Registry} {usbdev : UsbDevice} {q : List WStr}

/-- **What no call overwrites stays, and what none creates stays away.** -/
theorem run_frame (hfolds : host.Folds) (hr : AllDistinct r)
    (hfresh : ∀ e ∈ Transition.fired host.step r calls, e.label.Fresh host e.pre)
    (hdev : r.device id = some usbdev) :
    ∃ t, (Transition.final host.step r calls).device id = some { usbdev with rootStorage := t } ∧
      (∀ q, (items usbdev.rootStorage q).isSome →
        (∀ e ∈ Transition.fired host.step r calls, e.label.devid host = id →
          ¬ e.label.op.Overwrites host q) → items t q = items usbdev.rootStorage q) ∧
      ∀ q, items usbdev.rootStorage q = none →
        (∀ e ∈ Transition.fired host.step r calls, e.label.devid host = id →
          ¬ e.label.op.Creates host q) → items t q = none := by
  obtain ⟨t, es, hfinal, hes, hitems⟩ := run_edits hfolds calls hr hfresh hdev
  refine ⟨t, hfinal, fun q hsome hkeep => ?_, fun q hnone hspare => ?_⟩
  · rw [hitems, PathMap.edit_of_isSome hsome]
    intro e he
    obtain ⟨c, hc, hid, spMeta, hmem⟩ := hes.exists_call he
    obtain ⟨f, hf, rfl⟩ := List.mem_map.mp hc
    exact not_overwrites_of_mem (hkeep f hf hid) hmem
  · rw [hitems, PathMap.edit_of_none hnone]
    intro e he
    obtain ⟨c, hc, hid, spMeta, hmem⟩ := hes.exists_call he
    obtain ⟨f, hf, rfl⟩ := List.mem_map.mp hc
    exact not_creates_of_mem (hspare f hf hid) hmem

end Run

end MtpRetag
