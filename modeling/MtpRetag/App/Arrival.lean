import MtpRetag.App.Delivery

/-!
# App/Arrival — what was listed arrives on the device

A click on Copy hands the list over to the queue, one file at a time, while the workers of earlier
clicks may go on (`Queueing`).  With what a session leaves on the device (`delivery`), the paths of
the list are there in the end, each under its last component in the folder `/Music`
(`list_arrives`).
-/

namespace MtpRetag

/-! ## The handler of Copy, from the list to the queue -/

/-- Where a queued file comes from, and where it goes. -/
def CopyFileDetails.way (file : CopyFileDetails) : WStr × WStr := (file.source, file.destination)

/-- …as the path of the list has it. -/
def wayOf (path : WStr) : WStr × WStr := (path, destination path)

/-- The GUI thread is between two handlers, or in one that shows the progress. -/
def GuiPc.resting : GuiPc → Bool
  | .idle | .propertyChange _ _ .idle | .stepProgressBar .idle => true
  | _ => false

/-- A click that begins another handler. -/
def Act.Begins : Act → Prop
  | .clickConnect _ | .clickCopy | .answer _ _ | .close => True
  | _ => False

/-- **How far the handler of Copy has got** with its list; its files are queued behind the first
`n`. -/
inductive State.Queueing (files : List WStr) (n : ℕ) (s : State) : Prop
  | setupBar (hgui : s.gui = .setupBar) (hlist : s.listModel = files)
      (hdetails : s.details.length = n)
  | copyFiles {index : ℕ} (hgui : s.gui = .copyFiles index) (hlist : s.listModel = files)
      (hn : n ≤ s.details.length)
      (hways : (s.details.drop n).map CopyFileDetails.way = (files.take index).map wayOf)
  | behind (hgui : s.gui.resting = true)
      (hways : (s.details.drop n).map CopyFileDetails.way = files.map wayOf)

section Window

variable {s s' : State} {a : Act} {files : List WStr} {n : ℕ}

theorem queueing_setupBar (hgui : s.gui = .setupBar) (hlist : s.listModel = files)
    (hdetails : s.details.length = n) (h : s.step a = some s') : s'.Queueing files n := by
  cases a with
  | gui =>
    rw [State.step, hgui, State.guiStep] at h
    obtain rfl := Option.some.inj h
    refine .copyFiles rfl hlist hdetails.ge ?_
    have hnone : s.setupBar.details.drop n = [] := List.drop_eq_nil_of_le hdetails.le
    rw [hnone]
    rfl
  | work i x =>
    obtain ⟨w, pc', eff, -, -, -, rfl⟩ := exists_of_workStep h
    refine .setupBar ?_ hlist ?_
    · simp [hgui]
    · dsimp only
      rw [details_afterWork, hdetails]
  | _ => simp [State.step, hgui] at h

theorem queueing_copyFiles {index : ℕ} (hgui : s.gui = .copyFiles index)
    (hlist : s.listModel = files) (hn : n ≤ s.details.length)
    (hways : (s.details.drop n).map CopyFileDetails.way = (files.take index).map wayOf)
    (hok : Undisturbed s a) (h : s.step a = some s') : s'.Queueing files n := by
  cases a with
  | gui =>
    rw [State.step, hgui, State.guiStep] at h
    split at h
    case isTrue => simp at h
    case isFalse hend =>
      obtain rfl := Option.some.inj h
      rw [hlist, not_lt] at hend
      rw [List.take_of_length_le hend] at hways
      exact .behind rfl hways
  | readTags o =>
    rw [State.step, hgui] at h
    obtain ⟨path, hpath, rfl⟩ := Option.map_eq_some_iff.mp h
    have hread : s.reading = some path := by
      rw [State.reading, hgui]
      exact hpath
    cases hdetails : copyFileDetails path o with
    | none => exact absurd hdetails (hok path hread)
    | some details =>
      obtain ⟨hsource, hdestination⟩ := destination_copyFileDetails hdetails
      refine .copyFiles rfl hlist ?_ ?_
      · simp only [State.enqueue, List.length_append]
        omega
      · rw [hlist] at hpath
        have hway : details.way = wayOf path := by
          rw [CopyFileDetails.way, hsource, hdestination, wayOf]
        simp only [State.enqueue]
        rw [List.drop_append_of_le_length hn, List.map_append, hways, List.take_add_one, hpath,
          List.map_append, List.map_singleton, hway]
        rfl
  | work i x =>
    obtain ⟨w, pc', eff, -, -, -, rfl⟩ := exists_of_workStep h
    have hdetails := details_afterWork s.toCopyState i (w.moveTo pc') eff
    refine .copyFiles (show _ = GuiPc.copyFiles index from ?_) hlist ?_ ?_
    · simp [hgui]
    · dsimp only
      rwa [hdetails]
    · dsimp only
      rwa [hdetails]
  | _ => simp [State.step, hgui] at h

theorem resting_iff {g : GuiPc} :
    g.resting = true ↔ g = .idle ∨ (∃ worker newValue, g = .propertyChange worker newValue .idle) ∨
      g = .stepProgressBar .idle := by
  constructor
  · fun_cases GuiPc.resting g <;> simp
  · rintro (rfl | ⟨worker, newValue, rfl⟩ | rfl) <;> rfl

/-- Between the handlers of the buttons nothing is queued… -/
theorem resting_step (hgui : s.gui.resting = true) (hbegins : ¬ a.Begins)
    (h : s.step a = some s') : s'.gui.resting = true ∧ s'.details = s.details := by
  cases a with
  | clickConnect | clickCopy | answer | close => exact absurd trivial hbegins
  | work i x =>
    obtain ⟨w, pc', eff, -, -, -, rfl⟩ := exists_of_workStep h
    refine ⟨?_, details_afterWork _ _ _ _⟩
    dsimp only
    split
    next hnotify => simp [hnotify.2, GuiPc.resting] at hgui
    next => exact hgui
  | editList list =>
    rw [State.step, Option.ite_none_right_eq_some] at h
    rw [← Option.some.inj h.2]
    exact ⟨hgui, rfl⟩
  | gui =>
    rcases resting_iff.mp hgui with hidle | ⟨worker, newValue, hchange⟩ | hbar
    · simp [State.step, hidle, State.guiStep] at h
    · rw [State.step, hchange, State.guiStep] at h
      obtain ⟨w, -, rfl⟩ := Option.map_eq_some_iff.mp h
      refine ⟨?_, rfl⟩
      dsimp only
      split <;> rfl
    · rw [State.step, hbar, State.guiStep] at h
      obtain rfl := Option.some.inj h
      exact ⟨rfl, congrArg CopyState.details (toCopyState_stepProgressBar s)⟩
  | deliver =>
    rw [State.step] at h
    split at h
    next back i events hback hevents =>
      obtain ⟨w, -, rfl⟩ := Option.map_eq_some_iff.mp h
      obtain rfl : back = .idle := by
        simpa [hback] using resting_iff.mp hgui
      exact ⟨rfl, rfl⟩
    next => simp at h
  | dismiss | readTags | wake =>
    rcases resting_iff.mp hgui with hidle | ⟨worker, newValue, hchange⟩ | hbar
    · simp [State.step, hidle] at h
    · simp [State.step, hchange] at h
    · simp [State.step, hbar] at h

/-- …and the handler of Copy hands its list over, whatever the workers do. -/
theorem queueing_step (hs : s.Queueing files n) (hbegins : ¬ a.Begins) (hok : Undisturbed s a)
    (h : s.step a = some s') : s'.Queueing files n := by
  cases hs with
  | setupBar hgui hlist hdetails => exact queueing_setupBar hgui hlist hdetails h
  | copyFiles hgui hlist hn hways => exact queueing_copyFiles hgui hlist hn hways hok h
  | behind hgui hways =>
    obtain ⟨hgui', hdetails⟩ := resting_step hgui hbegins h
    exact .behind hgui' (hdetails ▸ hways)

end Window

/-! ## On the device -/

section Device

variable {host : Host} {d d' : Desktop} {a : DesktopAct}

/-- With its device in hand, a desktop goes on with the list. -/
theorem queueing_step_desktop {jdev : WStr} {l : AList fun _ : WStr => ℕ} {files : List WStr}
    {n : ℕ} (hs : d.window.Queueing files n) (hholds : d.window.Holds jdev l) (hstays : a.Stays)
    (hclick : a ≠ .other .clickCopy) (htags : d.TagsRead a) (h : d.step host a = some d') :
    d'.window.Queueing files n := by
  obtain ⟨call, hcall, hwindow, -⟩ := exists_step_window h
  refine queueing_step hs ?_ (undisturbed_of_stays hholds hstays htags hcall) hwindow
  cases a with
  | clickConnect | answer | close => exact hstays.elim
  | lookup i =>
    rw [Desktop.call] at hcall
    split at hcall
    · simp [← Option.some.inj hcall, Act.Begins]
    · simp at hcall
  | sendFile i hr =>
    obtain ⟨send, -, rfl⟩ := Option.map_eq_some_iff.mp hcall
    exact not_false
  | other b =>
    rw [Desktop.call, Option.ite_none_left_eq_some] at hcall
    obtain ⟨hcalls, hcall⟩ := hcall
    obtain rfl := Option.some.inj hcall
    cases b with
    | clickCopy => exact absurd rfl hclick
    | clickConnect | answer | close => simp [Desktop.callsLibrary] at hcalls
    | _ => exact not_false

/-- Where a listed path lies on the device. -/
def musicKeys (path : WStr) : List WStr :=
  [makeLower musicFolder, makeLower (lastComponent path)]

/-- The strings of a destination have no NUL in them. -/
theorem cStr_lastComponent {path : WStr} (hcross : Crosses host.jni path) :
    cStr (lastComponent path) = lastComponent path := by
  refine cStr_eq_self fun hmem => ?_
  have hzero := (host.jni.ca2w (destination path)).2
  rw [hcross.2, destination] at hzero
  exact hzero (by simp [hmem])

theorem destFolders_destination {path : WStr} (hslash : slash ∉ path) :
    destFolders (destination path) = [musicFolder] := by
  have hmusic : cStr musicFolder = musicFolder := by decide
  rw [destFolders, splitString_destination hslash]
  exact congrArg (fun name => [name]) hmusic

theorem destKeys_destination {path : WStr} (hslash : slash ∉ path)
    (hcross : Crosses host.jni path) :
    destKeys (host.jni.ca2w (destination path)).1 = musicKeys path := by
  rw [hcross.2, destKeys, destFolders_destination hslash, fileName_destination hslash,
    cStr_lastComponent hcross]
  rfl

/-- The file of a listed path goes to `/Music`… -/
theorem unhindered_of_way {file : CopyFileDetails} {path : WStr} (hway : file.way = wayOf path)
    (hslash : slash ∉ path) (hcross : Crosses host.jni path) :
    file.sent.Unhindered host [musicFolder] ∧ file.sent.keys host = musicKeys path := by
  obtain ⟨-, hdestination⟩ := Prod.mk.inj hway
  have hdest : file.sent.destination = destination path := hdestination
  refine ⟨⟨fun _ => rfl, ?_, ?_⟩, ?_⟩
  · rw [hdest, hcross.2]
    exact List.cons_ne_nil _ _
  · rw [hdest, hcross.2, destFolders_destination hslash]
  · rw [CopyJob.keys, hdest, destKeys_destination hslash hcross]

/-- …and is the file of the path. -/
theorem info_of_way {file : CopyFileDetails} {path : WStr} (hway : file.way = wayOf path)
    (hslash : slash ∉ path) (hcross : Crosses host.jni path) :
    (file.sent.info host).name = lastComponent path ∧ (file.sent.info host).kind = .file ∧
      (file.sent.info host).content = host.world.content path := by
  obtain ⟨hsource, hdestination⟩ := Prod.mk.inj hway
  have hsrc : file.sent.source = path := hsource
  have hdest : file.sent.destination = destination path := hdestination
  have hzero : (0 : WChar) ∉ path := by
    rw [← hcross.1]
    exact (host.jni.ca2w path).2
  rw [CopyJob.info, sentInfo, hdest, hsrc, hcross.1, hcross.2, fileName_destination hslash,
    cStr_lastComponent hcross, cStr_eq_self hzero]
  exact ⟨rfl, rfl, rfl⟩

/-- Files of different names go to different places. -/
theorem nodup_keys_of_ways {details : List CopyFileDetails} {files : List WStr}
    (hways : details.map CopyFileDetails.way = files.map wayOf)
    (hpaths : ∀ path ∈ files, slash ∉ path ∧ Crosses host.jni path)
    (hnames : (files.map fun path => makeLower (lastComponent path)).Nodup) :
    (details.map fun file => file.sent.keys host).Nodup := by
  have hkeys : (details.map fun file => file.sent.keys host) =
      files.map fun path => destKeys (host.jni.ca2w (wayOf path).2).1 := by
    have hmap := congrArg (List.map fun way => destKeys (host.jni.ca2w way.2).1) hways
    rw [List.map_map, List.map_map] at hmap
    exact hmap
  have hmusic : (files.map fun path => destKeys (host.jni.ca2w (wayOf path).2).1) =
      (files.map fun path => makeLower (lastComponent path)).map
        fun name => [makeLower musicFolder, name] := by
    rw [List.map_map]
    exact List.map_congr_left fun path hpath =>
      destKeys_destination (hpaths path hpath).1 (hpaths path hpath).2
  rw [hkeys, hmusic]
  exact hnames.map fun _ _ h => (List.cons.inj (List.cons.inj h).2).1

/-- **Behind the click**, the handler hands the list over. -/
theorem queueing_final {jdev : WStr} {usbdev : UsbDevice} {rest : List DesktopAct}
    (hd : d.Running host.jni) (hrest : d.AtRest host jdev usbdev)
    (hconnected : d.window.connected = true)
    (hsteps : ∀ a ∈ rest, a.Stays ∧ a.Succeeds ∧ a ≠ .other .clickCopy)
    (htags : ∀ e ∈ Transition.fired (Desktop.step host) d (.other .clickCopy :: rest),
      e.pre.TagsRead e.label) :
    (Transition.final (Desktop.step host) d (.other .clickCopy :: rest)).window.Queueing
      d.window.listModel d.window.details.length := by
  have hclick : d.step host (.other .clickCopy) =
      some ⟨{ d.window with gui := .setupBar }, d.library⟩ := by
    simp [Desktop.step, Desktop.call, Desktop.callsLibrary, State.step, hrest.gui, hconnected]
  rw [Transition.fired_cons_of_some hclick, List.forall_mem_cons] at htags
  rw [Transition.final_cons_of_some hclick]
  have hfirst : Desktop.Copying host jdev ⟨{ d.window with gui := .setupBar }, d.library⟩ d :=
    copying_step (a := .other .clickCopy) (copying_refl hd hrest) trivial trivial hclick
  exact (Transition.final_inv
    (fun e => e.Copying host jdev d ∧
      e.window.Queueing d.window.listModel d.window.details.length)
    Desktop.TagsRead (fun a => a.Stays ∧ a.Succeeds ∧ a ≠ .other .clickCopy)
    (fun _ _ _ ha hinv hok h => ⟨copying_step hinv.1 ha.1 ha.2.1 h,
      queueing_step_desktop hinv.2 hinv.1.delivers.window ha.1 ha.2.2 hok h⟩)
    rest hsteps ⟨hfirst, .setupBar rfl rfl rfl⟩ htags.2).2

end Device

/-- **The list arrives.**  From where a connected desktop rests, a click on Copy and any steps
behind it, in any order, with no other click on Copy, Connect or Exit: when no COM call and no
reading of a tag fails, and handler and workers are done, every listed path is on the device, under
its last component in `/Music`, with its bytes; and what lay elsewhere still does. -/
theorem list_arrives (host : Host) (hfolds : host.Folds) (m : DeviceManager)
    (hm : m.listDevices = .empty) (before rest : List DesktopAct)
    (hclose : ∀ a ∈ before, a ≠ .close)
    (hsound : ∀ e ∈ Transition.fired (Desktop.step host) ⟨.init, m⟩ before,
      ∀ scan ∈ e.pre.scans e.label, scan.Sound host.jni e.pre.library)
    (d d' : Desktop) (hd : Transition.final (Desktop.step host) ⟨.init, m⟩ before = d)
    (hd' : Transition.final (Desktop.step host) d (.other .clickCopy :: rest) = d') (jdev : WStr)
    (usbdev : UsbDevice) (hrest : d.AtRest host jdev usbdev) (hmtp : usbdev.mode = .mtp)
    (hconnected : d.window.connected = true)
    (hpaths : ∀ path ∈ d.window.listModel, slash ∉ path ∧ Crosses host.jni path)
    (hnames : (d.window.listModel.map fun path => makeLower (lastComponent path)).Nodup)
    (hsteps : ∀ a ∈ rest, a.Stays ∧ a.Succeeds ∧ a ≠ .other .clickCopy)
    (htags : ∀ e ∈ Transition.fired (Desktop.step host) d (.other .clickCopy :: rest),
      e.pre.TagsRead e.label)
    (hdone : d'.window.AllDone) (hgui : d'.window.gui.resting = true) :
    ∃ t, getInternaldevice host.jni d'.library.listDevices jdev =
        some { usbdev with rootStorage := t } ∧
      (∀ path ∈ d.window.listModel, ∃ info, items t (musicKeys path) = some info ∧
        info.name = lastComponent path ∧ info.kind = .file ∧
        info.content = host.world.content path) ∧
      ∀ q, (items usbdev.rootStorage q).isSome →
        (∀ path ∈ d.window.listModel, ¬ musicKeys path <+: q) →
          items t q = items usbdev.rootStorage q := by
  have hrunning : d.Running host.jni := hd ▸ running_final hm hclose hsound
  have hafter : ∀ a ∈ DesktopAct.other .clickCopy :: rest, a.Stays ∧ a.Succeeds :=
    List.forall_mem_cons.mpr
      ⟨⟨trivial, trivial⟩, fun a ha => ⟨(hsteps a ha).1, (hsteps a ha).2.1⟩⟩
  have hcopying : d'.Copying host jdev d := hd' ▸ copying_final hrunning hrest hafter
  have hways : (d'.window.details.drop d.window.details.length).map CopyFileDetails.way =
      d.window.listModel.map wayOf := by
    have hqueueing := queueing_final hrunning hrest hconnected hsteps htags
    rw [hd'] at hqueueing
    cases hqueueing with
    | setupBar hsetup => simp [hsetup, GuiPc.resting] at hgui
    | copyFiles hcopy => simp [hcopy, GuiPc.resting] at hgui
    | behind _ hways => exact hways
  have hlisted : ∀ file ∈ d'.window.details.drop d.window.details.length,
      ∃ path ∈ d.window.listModel, file.way = wayOf path := fun file hfile => by
    have hmem := List.mem_map_of_mem (f := CopyFileDetails.way) hfile
    rw [hways] at hmem
    obtain ⟨path, hpath, heq⟩ := List.mem_map.mp hmem
    exact ⟨path, hpath, heq.symm⟩
  have hfiles : ∀ file ∈ d'.window.details.drop d.window.details.length,
      file.sent.Unhindered host [musicFolder] := fun file hfile => by
    obtain ⟨path, hpath, hway⟩ := hlisted file hfile
    exact (unhindered_of_way hway (hpaths path hpath).1 (hpaths path hpath).2).1
  obtain ⟨t, ht, hsent, hframe⟩ := items_of_copying hfolds hrunning hrest hmtp hcopying hfiles
    (nodup_keys_of_ways hways hpaths hnames)
  have hcopy : ∀ index, d'.window.gui ≠ .copyFiles index := fun index hcopy => by
    simp [hcopy, GuiPc.resting] at hgui
  have hall := sentSince_final hrunning hrest hafter htags hd' hdone hcopy
  refine ⟨t, ht, fun path hpath => ?_, fun q hq hout => hframe q hq fun file hfile => ?_⟩
  · obtain ⟨hslash, hcross⟩ := hpaths path hpath
    have hmem := List.mem_map_of_mem (f := wayOf) hpath
    rw [← hways] at hmem
    obtain ⟨file, hfile, hway⟩ := List.mem_map.mp hmem
    obtain ⟨-, hkeys⟩ := unhindered_of_way hway hslash hcross
    refine ⟨file.sent.info host, ?_, info_of_way hway hslash hcross⟩
    rw [← hkeys]
    exact hsent file (hall file hfile)
  · obtain ⟨f, hle, hf, -⟩ := hfile
    have hmem : file ∈ d'.window.details.drop d.window.details.length := by
      refine List.mem_of_getElem? (i := f - d.window.details.length) ?_
      rw [List.getElem?_drop, Nat.add_sub_cancel' hle, hf]
    obtain ⟨path, hpath, hway⟩ := hlisted file hmem
    rw [(unhindered_of_way hway (hpaths path hpath).1 (hpaths path hpath).2).2]
    exact hout path hpath

/-- Connecting to a player, and listing one file. -/
def listForPlayer : List DesktopAct :=
  connectToPlayer ++ [.other (.editList [wide "C:\\a.mp3"])]

def listedForPlayer : Desktop :=
  Transition.final (Desktop.step .sample) ⟨.init, .new .sample⟩ listForPlayer

/-- What is left to do behind the click. -/
def copyListed : List DesktopAct :=
  ([Act.gui, .readTags .cannotRead, .gui] ++ ticks 0 8).map .other ++
    [.lookup 0, .sendFile 0 fun _ => sOk] ++ (ticks 0 8).map .other

theorem list_arrives_copyListed :
    ∃ usbdev t, getInternaldevice .identity listedForPlayer.library.listDevices playerName =
        some usbdev ∧
      getInternaldevice .identity (Transition.final (Desktop.step .sample) listedForPlayer
          (.other .clickCopy :: copyListed)).library.listDevices playerName =
        some { usbdev with rootStorage := t } ∧
      ∀ path ∈ listedForPlayer.window.listModel, ∃ info,
        items t (musicKeys path) = some info ∧ info.content = Host.sample.world.content path := by
  obtain ⟨usbdev, hdev, hmtp⟩ : ∃ usbdev, getInternaldevice .identity
      listedForPlayer.library.listDevices playerName = some usbdev ∧ usbdev.mode = .mtp :=
    ⟨_, rfl, rfl⟩
  have hrest : listedForPlayer.AtRest .sample playerName usbdev :=
    ⟨by decide, by rw [CopyState.AllDone]; decide, by decide, by decide, hdev⟩
  have hsteps : ∀ a ∈ copyListed, a.Stays ∧ a.Succeeds ∧ a ≠ .other .clickCopy := by
    simp [copyListed, ticks, DesktopAct.Stays, DesktopAct.Succeeds]
  have htags : ∀ a ∈ DesktopAct.other .clickCopy :: copyListed, ∀ d : Desktop, d.TagsRead a := by
    simp [copyListed, ticks, Desktop.TagsRead, copyFileDetails]
  obtain ⟨t, ht, hpaths, -⟩ := list_arrives .sample (fun _ _ => rfl) (.new .sample) rfl
    listForPlayer copyListed (by simp [listForPlayer, connectToPlayer])
    (sound_connect (by simp [DesktopAct.Stays])) listedForPlayer _ rfl rfl playerName usbdev
    hrest hmtp (by decide) (by decide) (by decide) hsteps
    (fun e he => htags e.label (Transition.label_mem_of_mem_fired he) e.pre)
    (by rw [CopyState.AllDone]; decide) (by decide)
  refine ⟨usbdev, t, hdev, ht, fun path hpath => ?_⟩
  obtain ⟨info, hinfo, -, -, hcontent⟩ := hpaths path hpath
  exact ⟨info, hinfo, hcontent⟩

end MtpRetag
