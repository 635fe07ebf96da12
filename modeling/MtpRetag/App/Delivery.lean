import MtpRetag.App.Completion
import MtpRetag.App.Desktop
import MtpRetag.Native.Canonical
import MtpRetag.Native.Lasting

/-!
# App/Delivery — what has been copied is on the device

While nobody connects or disconnects, a desktop goes on with one device.  Its workers may be many
and their steps come in any order; the library sees one session, a `sendFile` call for each file
whose call has ended, in the order in which they ended (`Delivers`).  So what is on the device is
read off the session: every file that was sent is there, and what lies elsewhere still does
(`delivery`).
-/

namespace MtpRetag

/-- A step that leaves the connection alone, and the application running. -/
def DesktopAct.Stays : DesktopAct → Prop
  | .clickConnect _ | .answer _ _ | .close => False
  | _ => True

/-- …and behind which every COM call succeeds. -/
def DesktopAct.Succeeds : DesktopAct → Prop
  | .sendFile _ hr => ∀ c, hr c = sOk
  | _ => True

/-- A queued file, as it is sent when all goes well. -/
def CopyFileDetails.sent (file : CopyFileDetails) : CopyJob := file.job fun _ => sOk

/-- The window holds the device `jdev`, and its workers use no other one. -/
structure State.Holds (jdev : WStr) (l : AList fun _ : WStr => ℕ) (s : State) : Prop where
  usbDevice : s.usbDevice = some jdev
  listDevices : s.listDevices = l
  registered : (l.lookup jdev).isSome
  gui : s.gui.connecting = false
  asked : ∀ w ∈ s.workers, ∀ j, w.pc.asked = some j → j = jdev
  usbdev : ∀ w ∈ s.workers, ∀ p, w.pc.usbdev = some p → l.lookup jdev = some p

/-- **What happens between two desktops** that hold the same device: the library has seen a call for
each file whose call has ended, in their order. -/
structure Desktop.Delivers (host : Host) (jdev : WStr) (d d₀ : Desktop) : Prop where
  window : d.window.Holds jdev d₀.window.listDevices
  known : (getInternaldevice host.jni d.library.listDevices jdev).isSome
  details : d₀.window.details <+: d.window.details
  unsent : ∀ f ∈ d.window.unsentFiles, d₀.window.details.length ≤ f
  session : ∃ jobs : List (ℕ × CopyFileDetails),
    d.window.sent.map SentFile.details =
        d₀.window.sent.map SentFile.details ++ jobs.map Prod.fst ∧
      (∀ x ∈ jobs, d₀.window.details.length ≤ x.1 ∧ d.window.details[x.1]? = some x.2) ∧
      (jobs.map fun x => x.2.sent.call jdev).foldlM host.step d₀.library.listDevices =
        some d.library.listDevices

section Window

variable {s s' : State} {a : Act}

/-- A worker comes to its native device by the device it has asked for. -/
theorem usbdev_of_next {v : WorkerView} {isCancelled : Bool} {pc pc' : WorkerPc} {x : WorkerAct}
    {eff : Effect} {p : ℕ} (h : pc.next v isCancelled x = some (pc', eff))
    (hp : pc'.usbdev = some p) :
    pc.usbdev = some p ∨ ∃ jdev, pc.asked = some jdev ∧ v.getDevicebyid jdev = some p := by
  revert h
  fun_cases WorkerPc.next v isCancelled pc x
  all_goals rintro ⟨⟩
  all_goals simp_all [WorkerPc.usbdev, WorkerPc.asked]

theorem usbdev_of_move (hmove : Move s a s') {w : Worker} (hw : w ∈ s'.workers) {p : ℕ}
    (hp : w.pc.usbdev = some p) :
    ∃ w₀ ∈ s.workers, w₀.pc.usbdev = some p ∨
      ∃ jdev, w₀.pc.asked = some jdev ∧ s.listDevices.lookup jdev = some p := by
  rcases origin_of_move hmove hw with hw | rfl | ⟨-, hw₀, rfl⟩ | ⟨hw₀, hnext, rfl⟩
  · exact ⟨w, hw, .inl hp⟩
  · simp [Worker.new, WorkerPc.usbdev] at hp
  · exact ⟨_, hw₀, .inl hp⟩
  · exact ⟨_, List.mem_of_getElem? hw₀, usbdev_of_next hnext hp⟩

/-- The queued files stay where they are. -/
theorem details_move (hmove : Move s a s') : s.details <+: s'.details := by
  cases hmove with
  | rest hcopy => rw [hcopy]
  | setup | deliver | cancel | launch => exact List.prefix_rfl
  | stepProgressBar =>
    dsimp only
    rw [toCopyState_stepProgressBar]
  | enqueue => exact List.prefix_append _ _
  | work =>
    dsimp only
    rw [details_afterWork]

theorem finished_of_tick {v : WorkerView} {isCancelled : Bool} {pc pc' : WorkerPc} {eff : Effect}
    (h : pc.next v isCancelled .tick = some (pc', eff)) (hpc : pc.asked = none) :
    eff.finished = [] := by
  revert h
  generalize hx : WorkerAct.tick = x
  fun_cases WorkerPc.next v isCancelled pc x
  all_goals rintro ⟨⟩
  all_goals simp_all [WorkerPc.asked, Effect.finished]

/-- A step of the GUI thread ends no call… -/
theorem sent_of_move (hmove : Move s a s') (ha : ∀ i x, a ≠ .work i x) : s'.sent = s.sent := by
  cases hmove with
  | rest hcopy => rw [hcopy]
  | setup | deliver | cancel | launch | enqueue => rfl
  | stepProgressBar =>
    dsimp only
    rw [toCopyState_stepProgressBar]
  | work => exact absurd rfl (ha _ _)

/-- …nor does one of a worker that does not call the library. -/
theorem sent_of_not_callsLibrary {d : Desktop} (h : d.window.step a = some s')
    (ha : d.callsLibrary a = false) : s'.sent = d.window.sent := by
  cases a with
  | work i x =>
    cases x with
    | ret r | throw => simp [Desktop.callsLibrary] at ha
    | tick =>
      obtain ⟨w, pc', eff, hw, hnext, -, rfl⟩ := exists_of_workStep h
      have hpc : d.pc i = some w.pc := by rw [Desktop.pc, hw, Option.map_some]
      have hasked : w.pc.asked = none := by
        cases hlookup : w.pc with
        | lookup details jdev => simp [Desktop.callsLibrary, hpc, hlookup] at ha
        | _ => rfl
      have hfinished := finished_of_tick hnext hasked
      cases eff with
      | sent details ret => simp [Effect.finished] at hfinished
      | _ => rfl
  | _ => exact sent_of_move (moves_of_step h).copy (by simp)

/-- A file in the queue or in the hands of a worker was there before, or is a new one. -/
theorem unsentFiles_move (hmove : Move s a s') {f : ℕ} (hf : f ∈ s'.unsentFiles) :
    f ∈ s.unsentFiles ∨ s.details.length ≤ f := by
  cases hmove with
  | rest hcopy => exact .inl (hcopy ▸ hf)
  | setup | deliver => exact .inl hf
  | stepProgressBar =>
    dsimp only at hf
    rw [toCopyState_stepProgressBar] at hf
    exact .inl hf
  | cancel =>
    have hunsent : s.cancelWorker.unsentFiles = s.unsentFiles := by
      rw [CopyState.unsentFiles, List.flatMap_def, map_cancelWorker]
      rfl
    exact .inl (hunsent ▸ hf)
  | launch =>
    have hunsent : s.launch.unsentFiles = s.unsentFiles := by
      simp [CopyState.unsentFiles, State.launch, Worker.new, WorkerPc.held]
    exact .inl (hunsent ▸ hf)
  | enqueue =>
    simp only [CopyState.unsentFiles, State.enqueue, List.mem_append, List.mem_singleton] at hf ⊢
    rcases hf with (hf | rfl) | hf
    · exact .inl (.inl hf)
    · exact .inr le_rfl
    · exact .inl (.inr hf)
  | @work i x w pc' eff hw hnext =>
    have htaken := taken_append_transferQueue s.toCopyState i eff
    have hqueue : ∀ f ∈ eff.taken s.view.head, f ∈ s.transferQueue := fun f hf => by
      rw [← htaken]
      exact List.mem_append_left _ hf
    simp only [CopyState.unsentFiles, List.mem_append, List.mem_flatMap] at hf ⊢
    rcases hf with hf | ⟨w', hw', hheld⟩
    · exact .inl (.inl (htaken ▸ List.mem_append_right _ hf))
    rcases List.mem_or_eq_of_mem_set hw' with hw' | rfl
    · exact .inl (.inr ⟨w', hw', hheld⟩)
    · have hmem := (held_sublist hnext).subset (List.mem_append_left _ hheld)
      rcases List.mem_append.mp hmem with hmem | hmem
      · exact .inl (.inl (hqueue f hmem))
      · exact .inl (.inr ⟨w, List.mem_of_getElem? hw, hmem⟩)

/-- **The window goes on with its device** while nobody connects or disconnects. -/
theorem holds_step {jdev : WStr} {l : AList fun _ : WStr => ℕ} (hs : s.Holds jdev l)
    (h : s.step a = some s') (hscan : s.scan a = none) (hdisconnects : s.disconnects a = false) :
    s'.Holds jdev l := by
  have hmove := (moves_of_step h).copy
  have hlist := listDevices_of_quiet h hscan hdisconnects
  have hdevice : s'.usbDevice = s.usbDevice ∧ s'.gui.connecting = false := by
    have hout := hs.gui
    cases connectionMove_of_step h with
    | rest hdevice _ hgui =>
      refine ⟨by rw [hdevice], ?_⟩
      rcases hgui with hgui | ⟨-, hgui⟩
      · rw [hgui, hout]
      · exact hgui
    | scan ha => simp [hscan] at ha
    | release ha => simp [hdisconnects] at ha
    | take hgui | connected hgui | forget hgui => simp [hgui, GuiPc.connecting] at hout
    | threw _ _ hdevice _ hgui => exact ⟨by rw [hdevice], by rw [hgui]; rfl⟩
  refine ⟨hdevice.1.trans hs.usbDevice, hlist.trans hs.listDevices, hs.registered, hdevice.2,
    fun w hw j hj => ?_, fun w hw p hp => ?_⟩
  · rcases asked_move hmove hw hj with hheld | ⟨w₀, hw₀, hasked⟩
    · exact (Option.some.inj (hs.usbDevice.symm.trans hheld)).symm
    · exact hs.asked w₀ hw₀ j hasked
  · obtain ⟨w₀, hw₀, hused | ⟨j, hasked, hj⟩⟩ := usbdev_of_move hmove hw hp
    · exact hs.usbdev w₀ hw₀ p hused
    · rwa [hs.asked w₀ hw₀ j hasked, hs.listDevices] at hj

end Window

section Delivers

variable {host : Host} {jdev : WStr} {d₀ d d' : Desktop} {a : DesktopAct}

/-- Looking up a known device changes nothing. -/
theorem getDevicebyid_of_known {r : Registry} {devid : WStr} (h : (r.device devid).isSome) :
    (r.getDevicebyid devid).2 = r := by
  rw [Registry.getDevicebyid, dif_neg]
  rintro hnone
  simp [Registry.device, hnone] at h

/-- A step that sees no call end. -/
theorem session_of_sent (hd : d.Delivers host jdev d₀)
    (hsent : d'.window.sent.map SentFile.details = d.window.sent.map SentFile.details)
    (hdetails : d.window.details <+: d'.window.details)
    (hlibrary : d'.library.listDevices = d.library.listDevices) :
    ∃ jobs : List (ℕ × CopyFileDetails),
      d'.window.sent.map SentFile.details =
          d₀.window.sent.map SentFile.details ++ jobs.map Prod.fst ∧
        (∀ x ∈ jobs, d₀.window.details.length ≤ x.1 ∧ d'.window.details[x.1]? = some x.2) ∧
        (jobs.map fun x => x.2.sent.call jdev).foldlM host.step d₀.library.listDevices =
          some d'.library.listDevices := by
  obtain ⟨jobs, hjobs, hfiles, hrun⟩ := hd.session
  refine ⟨jobs, hsent.trans hjobs, fun x hx => ?_, hlibrary ▸ hrun⟩
  obtain ⟨more, hmore⟩ := hdetails
  obtain ⟨hle, hfile⟩ := hfiles x hx
  obtain ⟨hlt, -⟩ := List.getElem?_eq_some_iff.mp hfile
  exact ⟨hle, by rw [← hmore, List.getElem?_append_left hlt, hfile]⟩

/-- The device object of a worker has no other name than the one the window holds. -/
theorem calling_eq (hd : d.Delivers host jdev d₀) (hfresh : d.window.toDeviceState.Fresh) {i : ℕ}
    {j : WStr} {file : CopyFileDetails} (h : d.calling i = some (j, file)) :
    j = jdev ∧ ∃ f p, d.pc i = some (.transfer f p) ∧ d.window.details[f]? = some file := by
  rw [Desktop.calling] at h
  split at h
  case h_2 => simp at h
  case h_1 f p hpc =>
    obtain ⟨j', hname, hfile⟩ := Option.bind_eq_some_iff.mp h
    obtain ⟨file', hfile', heq⟩ := Option.map_eq_some_iff.mp hfile
    obtain ⟨rfl, rfl⟩ := Prod.mk.inj heq
    refine ⟨?_, f, p, hpc, hfile'⟩
    obtain ⟨w, hw, hwpc⟩ := Option.map_eq_some_iff.mp hpc
    obtain ⟨e, he, rfl⟩ := Option.map_eq_some_iff.mp hname
    have hp : e.2 = p := by simpa using List.find?_some he
    have hentry : d.window.listDevices.lookup e.1 = some p :=
      AList.mem_lookup_iff.mpr (hp ▸ List.mem_of_find?_eq_some he)
    have hused := hd.window.usbdev w (List.mem_of_getElem? hw) p (by rw [hwpc]; rfl)
    rw [← hd.window.listDevices] at hused
    exact hfresh.inj hentry hused

/-- What is queued is queued for good, and only new files are on their way. -/
theorem details_step (hd : d.Delivers host jdev d₀) {b : Act}
    (h : d.window.step b = some d'.window) :
    d₀.window.details <+: d'.window.details ∧
      ∀ f ∈ d'.window.unsentFiles, d₀.window.details.length ≤ f := by
  have hmove := (moves_of_step h).copy
  refine ⟨hd.details.trans (details_move hmove), fun f hf => ?_⟩
  rcases unsentFiles_move hmove hf with hold | hnew
  · exact hd.unsent f hold
  · exact hd.details.length_le.trans hnew

/-- A worker that looks its device up finds it, and the library is left as it is. -/
theorem delivers_lookup (hd : d.Delivers host jdev d₀) {i : ℕ}
    (h : d.step host (.lookup i) = some d') : d'.Delivers host jdev d₀ := by
  obtain ⟨call, hcall, hwindow, hlibrary⟩ := exists_step_window h
  rw [Desktop.call] at hcall
  split at hcall
  case h_2 => simp at hcall
  case h_1 f j hpc =>
    obtain rfl := Option.some.inj hcall
    obtain ⟨w, hw, hwpc⟩ := Option.map_eq_some_iff.mp hpc
    obtain rfl := hd.window.asked w (List.mem_of_getElem? hw) j (by rw [hwpc]; rfl)
    have hknown := hd.known
    rw [getInternaldevice_eq] at hknown
    have hsame : d'.library.listDevices = d.library.listDevices := by
      rw [hlibrary]
      exact getDevicebyid_of_known hknown
    obtain ⟨hdetails, hunsent⟩ := details_step hd hwindow
    refine ⟨holds_step hd.window hwindow rfl rfl, hsame ▸ hd.known, hdetails, hunsent,
      session_of_sent hd ?_ (details_move (moves_of_step hwindow).copy) hsame⟩
    obtain ⟨w', pc', eff, hw', hnext, -, heq⟩ := exists_of_workStep hwindow
    obtain rfl : w = w' := Option.some.inj (hw.symm.trans hw')
    obtain ⟨p, hp⟩ := Option.isSome_iff_exists.mp hd.window.registered
    rw [← hd.window.listDevices] at hp
    have hview : d.window.view.getDevicebyid j = some p := hp
    rw [hwpc, WorkerPc.next, hview] at hnext
    obtain ⟨-, rfl⟩ := Prod.mk.inj (Option.some.inj hnext)
    rw [heq]
    rfl

/-- A call that returns is one more of the session. -/
theorem delivers_sendFile (hd : d.Delivers host jdev d₀) (hfresh : d.window.toDeviceState.Fresh)
    {i : ℕ} {hr : Outcomes} (hok : ∀ c, hr c = sOk) (h : d.step host (.sendFile i hr) = some d') :
    d'.Delivers host jdev d₀ := by
  obtain ⟨call, hcall, hwindow, hlibrary⟩ := exists_step_window h
  obtain ⟨send, hsend, rfl⟩ := Option.map_eq_some_iff.mp hcall
  obtain ⟨j, file, hcalling, hperform⟩ := perform_of_sendFile hsend
  obtain ⟨rfl, f, p, hpc, hfile⟩ := calling_eq hd hfresh hcalling
  obtain rfl : hr = fun _ => sOk := funext hok
  have hlist : d'.library.listDevices = send.listDevices.getD d.library.listDevices := by
    rw [hlibrary]
  rw [← hlist] at hperform
  obtain ⟨hdetails, hunsent⟩ := details_step hd hwindow
  refine ⟨holds_step hd.window hwindow rfl rfl, ?_, hdetails, hunsent, ?_⟩
  · have hknown := hd.known
    rw [getInternaldevice_eq] at hknown ⊢
    exact (device_isSome_of_perform hperform _).mpr hknown
  obtain ⟨jobs, hjobs, hfiles, hrun⟩ := hd.session
  obtain ⟨w, hw, hwpc⟩ := Option.map_eq_some_iff.mp hpc
  obtain ⟨w', pc', eff, hw', hnext, -, heq⟩ := exists_of_workStep hwindow
  obtain rfl : w = w' := Option.some.inj (hw.symm.trans hw')
  have hsent : d'.window.sent.map SentFile.details =
      d.window.sent.map SentFile.details ++ [f] := by
    have hfinished : eff.finished = [f] := by
      rw [hwpc, WorkerPc.next] at hnext
      split at hnext <;> obtain ⟨-, rfl⟩ := Prod.mk.inj (Option.some.inj hnext) <;> rfl
    rw [heq, ← hfinished]
    exact sent_apply d.window.toCopyState i eff
  refine ⟨jobs ++ [(f, file)], ?_, ?_, ?_⟩
  · rw [hsent, hjobs, List.map_append, List.map_singleton, List.append_assoc]
  · have hdetails : d'.window.details = d.window.details := by
      rw [heq]
      exact details_afterWork _ _ _ _
    have hnew : d₀.window.details.length ≤ f := by
      refine hd.unsent f (List.mem_append_right _ (List.mem_flatMap.mpr ?_))
      exact ⟨w, List.mem_of_getElem? hw, by rw [hwpc]; exact List.mem_singleton_self f⟩
    rw [hdetails]
    exact List.forall_mem_append.mpr ⟨hfiles, List.forall_mem_singleton.mpr ⟨hnew, hfile⟩⟩
  · have hstep : host.step d.library.listDevices (file.sent.call j) =
        some d'.library.listDevices := by
      rw [Host.step, CopyFileDetails.sent, CopyFileDetails.job, CopyJob.call, hperform]
      rfl
    rw [List.map_append, List.foldlM_append, hrun, List.map_singleton]
    simpa using hstep

/-- **A step delivers.** -/
theorem delivers_step (hd : d.Delivers host jdev d₀) (hfresh : d.window.toDeviceState.Fresh)
    (hstays : a.Stays) (hok : a.Succeeds) (h : d.step host a = some d') :
    d'.Delivers host jdev d₀ := by
  cases a with
  | clickConnect | answer | close => exact hstays.elim
  | lookup i => exact delivers_lookup hd h
  | sendFile i hr => exact delivers_sendFile hd hfresh hok h
  | other b =>
    obtain ⟨call, hcall, hwindow, hlibrary⟩ := exists_step_window h
    rw [Desktop.call, Option.ite_none_left_eq_some, Bool.not_eq_true] at hcall
    obtain ⟨hcalls, hcall⟩ := hcall
    obtain rfl := Option.some.inj hcall
    have hscan : d.window.scan b = none := by
      cases b with
      | clickConnect | answer => simp [Desktop.callsLibrary] at hcalls
      | _ => rfl
    have hdisconnects : d.window.disconnects b = false := by
      cases b with
      | clickConnect | close => simp [Desktop.callsLibrary] at hcalls
      | _ => rfl
    have hsame : d'.library.listDevices = d.library.listDevices := by rw [hlibrary]
    obtain ⟨hdetails, hunsent⟩ := details_step hd hwindow
    exact ⟨holds_step hd.window hwindow hscan hdisconnects, hsame ▸ hd.known, hdetails, hunsent,
      session_of_sent hd (by rw [sent_of_not_callsLibrary hwindow hcalls])
        (details_move (moves_of_step hwindow).copy) hsame⟩

/-- What a run keeps, as long as the application is not closed. -/
structure Desktop.Running (jni : Jni) (d : Desktop) : Prop where
  coherent : d.Coherent jni
  connection : d.window.Connection
  fresh : d.window.toDeviceState.Fresh
  atMostOnce : d.window.AtMostOnce
  uncancelled : ∀ w ∈ d.window.workers, w.cancelled = false
  gui : d.window.gui.terminating = false

theorem running_init {m : DeviceManager} (hm : m.listDevices = .empty) :
    Desktop.Running host.jni ⟨.init, m⟩ where
  coherent := (coherent_init hm).1
  connection := connection_init
  fresh := fresh_init
  atMostOnce _ := Nat.zero_le _
  uncancelled := by simp [State.init]
  gui := rfl

theorem act_ne_close {call : LibraryCall} (hcall : d.call host a = some call) (ha : a ≠ .close) :
    call.act ≠ .close := by
  cases a with
  | close => exact absurd rfl ha
  | clickConnect scan =>
    rw [Desktop.call] at hcall
    split at hcall
    · simp [← Option.some.inj hcall]
    · obtain ⟨scanned, -, rfl⟩ := Option.map_eq_some_iff.mp hcall
      simp
  | answer ok scan =>
    cases ok with
    | true =>
      obtain ⟨scanned, -, rfl⟩ := Option.map_eq_some_iff.mp hcall
      simp
    | false => simp [← Option.some.inj hcall]
  | lookup i =>
    rw [Desktop.call] at hcall
    split at hcall
    · simp [← Option.some.inj hcall]
    · simp at hcall
  | sendFile i hr =>
    obtain ⟨send, -, rfl⟩ := Option.map_eq_some_iff.mp hcall
    simp
  | other b =>
    rw [Desktop.call, Option.ite_none_left_eq_some] at hcall
    obtain rfl := Option.some.inj hcall.2
    rintro rfl
    simp [Desktop.callsLibrary] at hcall

theorem running_step (hd : d.Running host.jni) (ha : a ≠ .close)
    (hsound : ∀ scan ∈ d.scans a, scan.Sound host.jni d.library) (h : d.step host a = some d') :
    d'.Running host.jni := by
  obtain ⟨call, hcall, hwindow, -⟩ := exists_step_window h
  have hmoves := moves_of_step hwindow
  obtain ⟨hcoherent, hconnection⟩ := coherent_step ⟨hd.coherent, hd.connection⟩ hsound h
  refine ⟨hcoherent, hconnection, fresh_of_deviceMove hmoves.device hd.fresh,
    atMostOnce_move hmoves.copy hd.atMostOnce, uncancelled_move hmoves.copy (fun hgui => ?_)
      hd.uncancelled, terminating_step hwindow (act_ne_close hcall ha) hd.gui⟩
  have hout := hd.gui
  simp [hgui, GuiPc.terminating] at hout

theorem scans_of_stays (hstays : a.Stays) : d.scans a = none := by
  cases a with
  | clickConnect | answer => exact hstays.elim
  | _ => rfl

/-- The tag library does not throw at Copy. -/
def Desktop.TagsRead (d : Desktop) : DesktopAct → Prop
  | .other (.readTags o) => ∀ path ∈ d.window.reading, copyFileDetails path o ≠ none
  | _ => True

/-- With its device in hand, a step disturbs no copy. -/
theorem undisturbed_of_stays {jdev : WStr} {l : AList fun _ : WStr => ℕ}
    (hd : d.window.Holds jdev l) (hstays : a.Stays) (htags : d.TagsRead a) {call : LibraryCall}
    (hcall : d.call host a = some call) : Undisturbed d.window call.act := by
  have hwork : ∀ i x, x ≠ .throw → Undisturbed d.window (.work i x) := fun i x hx w hw => by
    have hview : d.window.view.usbDevice = some jdev := hd.usbDevice
    cases hpc : w.pc <;> simp [WorkerPc.fails, hview, hx]
  cases a with
  | clickConnect | answer | close => exact hstays.elim
  | lookup i =>
    rw [Desktop.call] at hcall
    split at hcall
    · obtain rfl := Option.some.inj hcall
      exact hwork i .tick (by simp)
    · simp at hcall
  | sendFile i hr =>
    obtain ⟨send, -, rfl⟩ := Option.map_eq_some_iff.mp hcall
    exact hwork i (.ret send.ret) (by simp)
  | other b =>
    rw [Desktop.call, Option.ite_none_left_eq_some, Bool.not_eq_true] at hcall
    obtain ⟨hcalls, hcall⟩ := hcall
    obtain rfl := Option.some.inj hcall
    cases b with
    | work i x =>
      cases x with
      | tick => exact hwork i .tick (by simp)
      | ret r | throw => simp [Desktop.callsLibrary] at hcalls
    | readTags o => exact htags
    | _ => trivial

/-- A connected desktop that has nothing to do. -/
structure Desktop.AtRest (host : Host) (jdev : WStr) (usbdev : UsbDevice) (d : Desktop) : Prop where
  gui : d.window.gui = .idle
  done : d.window.AllDone
  transferQueue : d.window.transferQueue = []
  usbDevice : d.window.usbDevice = some jdev
  device : getInternaldevice host.jni d.library.listDevices jdev = some usbdev

/-- A desktop delivers from where it rests. -/
theorem delivers_refl {usbdev : UsbDevice} (hd : d.Running host.jni)
    (hrest : d.AtRest host jdev usbdev) : d.Delivers host jdev d where
  window :=
    { usbDevice := hrest.usbDevice
      listDevices := rfl
      registered :=
        (lookup_isSome_iff hd.coherent (hd.coherent.names.usbDevice jdev hrest.usbDevice)).mpr
          (by rw [hrest.device]; rfl)
      gui := by rw [hrest.gui]; rfl
      asked := fun w hw j hj => by simp [hrest.done w hw, WorkerPc.asked] at hj
      usbdev := fun w hw p hp => by simp [hrest.done w hw, WorkerPc.usbdev] at hp }
  known := by rw [hrest.device]; rfl
  details := List.prefix_rfl
  unsent f hf := by
    obtain ⟨w, hw, hheld⟩ : ∃ w ∈ d.window.workers, f ∈ w.pc.held := by
      simpa [CopyState.unsentFiles, hrest.transferQueue] using hf
    simp [hrest.done w hw, WorkerPc.held] at hheld
  session := ⟨[], by simp, by simp, rfl⟩

/-- **What a batch leaves on a device**: its files, and what lay elsewhere. -/
theorem items_of_calls {folders : List WStr} {queue : List CopyJob} {r r' : Registry}
    {usbdev : UsbDevice} (hfolds : host.Folds)
    (hrun : (queue.map fun details => details.call jdev).foldlM host.step r = some r')
    (hdev : r.device (host.jni.ca2w jdev).1 = some usbdev) (hmtp : usbdev.mode = .mtp)
    (hqueue : ∀ details ∈ queue, details.Unhindered host folders)
    (hnames : (queue.map fun details => details.keys host).Nodup) :
    ∃ t, r'.device (host.jni.ca2w jdev).1 = some { usbdev with rootStorage := t } ∧
      (∀ details ∈ queue, items t (details.keys host) = some (details.info host)) ∧
      ∀ q, (items usbdev.rootStorage q).isSome →
        (∀ details ∈ queue, ¬ details.keys host <+: q) →
          items t q = items usbdev.rootStorage q := by
  obtain ⟨t, hfinal, hitems⟩ := run_calls hfolds queue hqueue hdev hmtp
  rw [Transition.final_of_foldlM hrun] at hfinal
  refine ⟨t, hfinal, fun details hdetails => ?_, fun q hsome hq => ?_⟩
  · rw [hitems, edit_batchEdits queue _ (List.ne_nil_of_mem hdetails) hqueue]
    exact edit_batchPuts_keys hqueue hnames hdetails
  · rw [hitems, PathMap.edit_of_isSome hsome]
    intro e he hover
    obtain ⟨details, hdetails, he⟩ := List.mem_flatMap.mp he
    rcases List.mem_append.mp he with he | he
    · obtain ⟨_, _, rfl, -⟩ := exists_of_mem_folderAdds he
      exact hover
    · obtain rfl := List.mem_singleton.mp he
      exact hq details hdetails hover

/-- The files of a session have different names where the queued files have. -/
theorem nodup_keys_of_session {details : List CopyFileDetails} {n : ℕ}
    {jobs : List (ℕ × CopyFileDetails)} (hfst : (jobs.map Prod.fst).Nodup)
    (hfiles : ∀ x ∈ jobs, n ≤ x.1 ∧ details[x.1]? = some x.2)
    (hnames : ((details.drop n).map fun file => file.sent.keys host).Nodup) :
    ((jobs.map fun x => x.2.sent).map fun details => details.keys host).Nodup := by
  rw [List.map_map]
  refine List.Nodup.map_on (fun x hx y hy heq => ?_) hfst.of_map
  have hget : ∀ x ∈ jobs, ((details.drop n).map fun file => file.sent.keys host)[x.1 - n]? =
      some (x.2.sent.keys host) := fun x hx => by
    obtain ⟨hle, hfile⟩ := hfiles x hx
    rw [List.getElem?_map, List.getElem?_drop, Nat.add_sub_cancel' hle, hfile, Option.map_some]
  have hsame := (hget x hx).trans ((congrArg some heq).trans (hget y hy).symm)
  have hlt := (List.getElem?_eq_some_iff.mp (hget x hx)).1
  have hidx : x.1 - n = y.1 - n := (List.getElem?_inj hlt hnames).mp hsame
  obtain ⟨hle, hfile⟩ := hfiles x hx
  obtain ⟨hle', hfile'⟩ := hfiles y hy
  have hfst : x.1 = y.1 := by omega
  rw [hfst] at hfile
  exact Prod.ext hfst (Option.some.inj (hfile.symm.trans hfile'))

/-- Every file that was queued after the first `n` is in one place. -/
def CopyState.Accounted (n : ℕ) (c : CopyState) : Prop :=
  ∀ f, n ≤ f → c.places.count f = if f < c.details.length then 1 else 0

theorem accounted_of_atMostOnce {c : CopyState} (hc : c.AtMostOnce) :
    c.Accounted c.details.length := fun f hf => by
  rw [if_neg hf.not_gt, List.count_eq_zero]
  exact fun hmem => absurd (lt_of_mem_places hc hmem) hf.not_gt

/-- With its device in hand, no worker drops a file. -/
theorem accounted_move {n : ℕ} {l : AList fun _ : WStr => ℕ} {s s' : State} {a : Act}
    (hmove : Move s a s') (hs : s.Holds jdev l) (hcancel : ∀ w ∈ s.workers, w.cancelled = false)
    (hn : s.Accounted n) : s'.Accounted n := fun f hf => by
  obtain ⟨k, hk, hkeep⟩ := count_move (k := 0) hmove (hn f hf)
  rw [← hk, hkeep fun i x w _ hw => ?_, Nat.add_zero]
  have hlive := hcancel w (List.mem_of_getElem? hw)
  have hview : s.view.usbDevice = some jdev := hs.usbDevice
  cases hpc : w.pc <;> simp [WorkerPc.Drops, hlive, hview]

/-- What a run keeps from where the desktop rested on. -/
structure Desktop.Copying (host : Host) (jdev : WStr) (d d₀ : Desktop) : Prop where
  running : d.Running host.jni
  delivers : d.Delivers host jdev d₀
  accounted : d.window.Accounted d₀.window.details.length

theorem copying_refl {usbdev : UsbDevice} (hd : d.Running host.jni)
    (hrest : d.AtRest host jdev usbdev) : d.Copying host jdev d :=
  ⟨hd, delivers_refl hd hrest, accounted_of_atMostOnce hd.atMostOnce⟩

theorem copying_step (hd : d.Copying host jdev d₀) (hstays : a.Stays) (hok : a.Succeeds)
    (h : d.step host a = some d') : d'.Copying host jdev d₀ := by
  have hclose : a ≠ .close := fun ha => by simp [ha, DesktopAct.Stays] at hstays
  obtain ⟨call, -, hwindow, -⟩ := exists_step_window h
  refine ⟨running_step hd.running hclose (by simp [scans_of_stays hstays]) h,
    delivers_step hd.delivers hd.running.fresh hstays hok h, ?_⟩
  exact accounted_move (moves_of_step hwindow).copy hd.delivers.window hd.running.uncancelled
    hd.accounted

/-- …and the queue stays attended, where the tags are read. -/
theorem attendedCopying_step (hd : d.Copying host jdev d₀ ∧ d.window.Attended) (hstays : a.Stays)
    (hok : a.Succeeds) (htags : d.TagsRead a) (h : d.step host a = some d') :
    d'.Copying host jdev d₀ ∧ d'.window.Attended := by
  obtain ⟨call, hcall, hwindow, -⟩ := exists_step_window h
  refine ⟨copying_step hd.1 hstays hok h, attended_step hd.2 hd.1.running.uncancelled ?_ hwindow⟩
  exact undisturbed_of_stays hd.1.delivers.window hstays htags hcall

/-- A file that was queued after `d₀`, and whose call has ended. -/
def Desktop.SentSince (d₀ d : Desktop) (file : CopyFileDetails) : Prop :=
  ∃ f, d₀.window.details.length ≤ f ∧ d.window.details[f]? = some file ∧
    f ∈ d.window.sent.map SentFile.details

/-- The jobs of the session are the files sent since. -/
theorem sentSince_iff (hd₀ : d₀.window.AtMostOnce) {jobs : List (ℕ × CopyFileDetails)}
    (hjobs : d.window.sent.map SentFile.details =
      d₀.window.sent.map SentFile.details ++ jobs.map Prod.fst)
    (hfiles : ∀ x ∈ jobs, d₀.window.details.length ≤ x.1 ∧ d.window.details[x.1]? = some x.2)
    {file : CopyFileDetails} : d₀.SentSince d file ↔ ∃ x ∈ jobs, x.2 = file := by
  constructor
  · rintro ⟨f, hle, hfile, hmem⟩
    rw [hjobs, List.mem_append] at hmem
    rcases hmem with hmem | hmem
    · exact absurd (lt_of_mem_places hd₀ (List.mem_append_right _ hmem)) hle.not_gt
    · obtain ⟨x, hx, rfl⟩ := List.mem_map.mp hmem
      exact ⟨x, hx, Option.some.inj ((hfiles x hx).2.symm.trans hfile)⟩
  · rintro ⟨x, hx, rfl⟩
    refine ⟨x.1, (hfiles x hx).1, (hfiles x hx).2, ?_⟩
    rw [hjobs]
    exact List.mem_append_right _ (List.mem_map_of_mem hx)

/-- When the workers are done with an empty queue, every file has been sent. -/
theorem sentSince_of_allDone (haccounted : d.window.Accounted d₀.window.details.length)
    (hdone : d.window.AllDone) (hqueue : d.window.transferQueue = []) {file : CopyFileDetails}
    (hfile : file ∈ d.window.details.drop d₀.window.details.length) : d₀.SentSince d file := by
  obtain ⟨k, hk⟩ := List.mem_iff_getElem?.mp hfile
  rw [List.getElem?_drop] at hk
  refine ⟨_, Nat.le_add_right _ k, hk, ?_⟩
  have hheld : d.window.workers.flatMap (fun w => w.pc.held) = [] :=
    List.flatMap_eq_nil_iff.mpr fun w hw => by rw [hdone w hw]; rfl
  have hcount := haccounted _ (Nat.le_add_right _ k)
  rw [if_pos (List.getElem?_eq_some_iff.mp hk).1, CopyState.places, hqueue, hheld,
    List.nil_append, List.nil_append] at hcount
  exact List.count_pos_iff.mp (by omega)

/-- Every run that is not closed leads to such a desktop. -/
theorem running_final {m : DeviceManager} (hm : m.listDevices = .empty) {before : List DesktopAct}
    (hclose : ∀ a ∈ before, a ≠ .close)
    (hsound : ∀ e ∈ Transition.fired (Desktop.step host) ⟨.init, m⟩ before,
      ∀ scan ∈ e.pre.scans e.label, scan.Sound host.jni e.pre.library) :
    (Transition.final (Desktop.step host) ⟨.init, m⟩ before).Running host.jni :=
  Transition.final_inv (Desktop.Running host.jni)
    (fun d a => ∀ scan ∈ d.scans a, scan.Sound host.jni d.library) (· ≠ .close)
    (fun _ _ _ ha hinv hok h => running_step hinv ha hok h) before hclose (running_init hm) hsound

section Run

variable {usbdev : UsbDevice} {after : List DesktopAct}

/-- …from where it goes on with its device. -/
theorem copying_final (hd : d.Running host.jni) (hrest : d.AtRest host jdev usbdev)
    (hafter : ∀ a ∈ after, a.Stays ∧ a.Succeeds) :
    (Transition.final (Desktop.step host) d after).Copying host jdev d :=
  Transition.final_inv (Desktop.Copying host jdev · d) (fun _ _ => True)
    (fun a => a.Stays ∧ a.Succeeds) (fun _ _ _ ha hinv _ h => copying_step hinv ha.1 ha.2 h) after
    hafter (copying_refl hd hrest) fun _ _ => trivial

/-- Where the tags are read, and the workers are done behind the handler, all files have been
sent. -/
theorem sentSince_final (hd : d.Running host.jni) (hrest : d.AtRest host jdev usbdev)
    (hafter : ∀ a ∈ after, a.Stays ∧ a.Succeeds)
    (htags : ∀ e ∈ Transition.fired (Desktop.step host) d after, e.pre.TagsRead e.label)
    (hd' : Transition.final (Desktop.step host) d after = d') (hdone : d'.window.AllDone)
    (hcopy : ∀ index, d'.window.gui ≠ .copyFiles index) :
    ∀ file ∈ d'.window.details.drop d.window.details.length, d.SentSince d' file := by
  intro file hfile
  obtain ⟨hcopying, hattended⟩ : d'.Copying host jdev d ∧ d'.window.Attended := by
    rw [← hd']
    exact Transition.final_inv (fun e => e.Copying host jdev d ∧ e.window.Attended)
      Desktop.TagsRead (fun a => a.Stays ∧ a.Succeeds)
      (fun _ _ _ ha hinv hok h => attendedCopying_step hinv ha.1 ha.2 hok h) after hafter
      ⟨copying_refl hd hrest, .inl hrest.transferQueue⟩ htags
  refine sentSince_of_allDone hcopying.accounted hdone ?_ hfile
  rcases hattended with hempty | ⟨index, hgui⟩ | ⟨w, hw, hattends⟩
  · exact hempty
  · exact absurd hgui (hcopy index)
  · simp [hdone w hw, WorkerPc.attends] at hattends

/-- **What is on the device** behind a session, by the files that were sent in it. -/
theorem items_of_copying (hfolds : host.Folds) (hd : d.Running host.jni)
    (hrest : d.AtRest host jdev usbdev) (hmtp : usbdev.mode = .mtp)
    (hcopying : d'.Copying host jdev d) {folders : List WStr}
    (hfiles : ∀ file ∈ d'.window.details.drop d.window.details.length,
      file.sent.Unhindered host folders)
    (hnames : ((d'.window.details.drop d.window.details.length).map fun file =>
      file.sent.keys host).Nodup) :
    ∃ t, getInternaldevice host.jni d'.library.listDevices jdev =
        some { usbdev with rootStorage := t } ∧
      (∀ file, d.SentSince d' file →
        items t (file.sent.keys host) = some (file.sent.info host)) ∧
      ∀ q, (items usbdev.rootStorage q).isSome →
        (∀ file, d.SentSince d' file → ¬ file.sent.keys host <+: q) →
          items t q = items usbdev.rootStorage q := by
  obtain ⟨jobs, hjobs, hjobFiles, hrun⟩ := hcopying.delivers.session
  have hsince : ∀ file, d.SentSince d' file ↔ ∃ x ∈ jobs, x.2 = file := fun file =>
    sentSince_iff hd.atMostOnce hjobs hjobFiles
  have hnodup : (jobs.map Prod.fst).Nodup := by
    have hall := (List.nodup_append.mp (nodup_places hcopying.running.atMostOnce)).2.1
    rw [hjobs] at hall
    exact (List.nodup_append.mp hall).2.1
  have hqueue : ∀ details ∈ jobs.map (fun x => x.2.sent), details.Unhindered host folders := by
    intro details hdetails
    obtain ⟨x, hx, rfl⟩ := List.mem_map.mp hdetails
    obtain ⟨hle, hfile⟩ := hjobFiles x hx
    refine hfiles x.2 (List.mem_of_getElem? (i := x.1 - d.window.details.length) ?_)
    rw [List.getElem?_drop, Nat.add_sub_cancel' hle, hfile]
  have hcalls : ((jobs.map fun x => x.2.sent).map fun details => details.call jdev).foldlM
      host.step d.library.listDevices = some d'.library.listDevices := by
    rwa [List.map_map]
  have hdev := hrest.device
  rw [getInternaldevice_eq] at hdev
  obtain ⟨t, ht, hsent, hframe⟩ := items_of_calls hfolds hcalls hdev hmtp hqueue
    (nodup_keys_of_session hnodup hjobFiles hnames)
  refine ⟨t, ?_, fun file hfile => ?_, fun q hq hout => hframe q hq fun details hdetails => ?_⟩
  · rwa [getInternaldevice_eq]
  · obtain ⟨x, hx, rfl⟩ := (hsince file).mp hfile
    exact hsent x.2.sent (List.mem_map_of_mem hx)
  · obtain ⟨x, hx, rfl⟩ := List.mem_map.mp hdetails
    exact hout x.2 ((hsince x.2).mpr ⟨x, hx, rfl⟩)

end Run

end Delivers

/-- **Delivery.**  From where a connected desktop rests on, in whatever order its workers take their
steps: as long as nobody connects, disconnects or closes and the COM calls succeed, each new file
whose `sendFile` call has ended is on the device, and what lay elsewhere still does.  And when the
workers are done, with no exception about a tag, every new file has been sent. -/
theorem delivery (host : Host) (hfolds : host.Folds) (m : DeviceManager)
    (hm : m.listDevices = .empty) (before after : List DesktopAct)
    (hclose : ∀ a ∈ before, a ≠ .close)
    (hsound : ∀ e ∈ Transition.fired (Desktop.step host) ⟨.init, m⟩ before,
      ∀ scan ∈ e.pre.scans e.label, scan.Sound host.jni e.pre.library)
    (d d' : Desktop) (hd : Transition.final (Desktop.step host) ⟨.init, m⟩ before = d)
    (hd' : Transition.final (Desktop.step host) d after = d') (jdev : WStr) (usbdev : UsbDevice)
    (hrest : d.AtRest host jdev usbdev) (hmtp : usbdev.mode = .mtp)
    (hafter : ∀ a ∈ after, a.Stays ∧ a.Succeeds) (folders : List WStr)
    (hfiles : ∀ file ∈ d'.window.details.drop d.window.details.length,
      file.sent.Unhindered host folders)
    (hnames : ((d'.window.details.drop d.window.details.length).map fun file =>
      file.sent.keys host).Nodup) :
    (∃ t, getInternaldevice host.jni d'.library.listDevices jdev =
        some { usbdev with rootStorage := t } ∧
      (∀ file, d.SentSince d' file →
        items t (file.sent.keys host) = some (file.sent.info host)) ∧
      ∀ q, (items usbdev.rootStorage q).isSome →
        (∀ file, d.SentSince d' file → ¬ file.sent.keys host <+: q) →
          items t q = items usbdev.rootStorage q) ∧
    ((∀ e ∈ Transition.fired (Desktop.step host) d after, e.pre.TagsRead e.label) →
      d'.window.AllDone → (∀ index, d'.window.gui ≠ .copyFiles index) →
        ∀ file ∈ d'.window.details.drop d.window.details.length, d.SentSince d' file) := by
  have hrunning : d.Running host.jni := hd ▸ running_final hm hclose hsound
  have hcopying : d'.Copying host jdev d := hd' ▸ copying_final hrunning hrest hafter
  exact ⟨items_of_copying hfolds hrunning hrest hmtp hcopying hfiles hnames,
    fun htags hdone hcopy => sentSince_final hrunning hrest hafter htags hd' hdone hcopy⟩

def playerName : WStr := wide "\\\\?\\usb#vid#s#{g}"

/-- A scan that finds one player… -/
def NativeScan.player : NativeScan where
  calls :=
    { wmdm := ⟨true, sOk, sOk, [{ MtpEntry.named playerName with
        devInfo := some [⟨some (wide "usb\\vid\\s"), .ok []⟩] }]⟩
      drives := []
      devInfo := some [] }
  env := ⟨true, fun _ => true, fun _ => true⟩
  memory _ := (⟨0, 0, 0, 0, 0, .undef⟩, ⟨0, 0, 0, 0, 0, .undef⟩)
  listed := [some playerName]

/-- …to which the window connects… -/
def connectToPlayer : List DesktopAct := [.clickConnect .player, .other .gui, .other .gui]

def connectedPlayer : Desktop :=
  Transition.final (Desktop.step .sample) ⟨.init, .new .sample⟩ connectToPlayer

/-- …and copies one file, to the end of its worker. -/
def copyToPlayer : List DesktopAct :=
  (copyOneFile (wide "C:\\a.mp3") ++ ticks 0 8).map .other ++
    [.lookup 0, .sendFile 0 fun _ => sOk] ++ (ticks 0 8).map .other

def copiedToPlayer : Desktop :=
  Transition.final (Desktop.step .sample) connectedPlayer copyToPlayer

theorem sound_player : NativeScan.player.Sound .identity (.new .sample) := by
  have hserves : ∀ infos, NativeScan.player.env.ServesAll infos := fun _ =>
    ⟨rfl, rfl, fun _ => rfl, fun _ _ => by simp [NativeScan.player, JniLookups.serves]⟩
  refine sound_of_servesAll rfl (hserves _) ?_ fun devid hsome => ?_
  · exact List.forall_mem_singleton.mpr ⟨playerName, by decide, by decide⟩
  · obtain rfl : devid = playerName := eq_of_device_store_empty hsome
    decide

/-- Nothing behind the connecting scans again. -/
theorem sound_connect {more : List DesktopAct} (hmore : ∀ a ∈ more, a.Stays) :
    ∀ e ∈ Transition.fired (Desktop.step .sample) ⟨.init, .new .sample⟩
        (.clickConnect .player :: more),
      ∀ scan ∈ e.pre.scans e.label, scan.Sound .identity e.pre.library := by
  intro e he scan hscan
  rw [Transition.fired] at he
  split at he
  · simp at he
  rcases List.mem_cons.mp he with rfl | hrest
  · obtain rfl := Option.some.inj hscan
    exact sound_player
  · rw [scans_of_stays (hmore e.label (Transition.label_mem_of_mem_fired hrest))] at hscan
    simp at hscan

theorem delivery_copyToPlayer :
    ∃ usbdev t, getInternaldevice .identity connectedPlayer.library.listDevices
        playerName = some usbdev ∧
      getInternaldevice .identity copiedToPlayer.library.listDevices
        playerName = some { usbdev with rootStorage := t } ∧
      ∀ file ∈ copiedToPlayer.window.details.drop connectedPlayer.window.details.length,
        items t (file.sent.keys .sample) = some (file.sent.info .sample) := by
  have hafter : ∀ a ∈ copyToPlayer, a.Stays ∧ a.Succeeds := by
    simp [copyToPlayer, copyOneFile, ticks, DesktopAct.Stays, DesktopAct.Succeeds]
  have hfile : ∀ file ∈ copiedToPlayer.window.details.drop connectedPlayer.window.details.length,
      file = addFileToTransferQueue (wide "C:\\a.mp3") (albumOf (pathTokens (wide "C:\\a.mp3")))
        (wide "unknown title") (wide "unknown artist") := fun file hfile =>
    List.mem_singleton.mp hfile
  obtain ⟨usbdev, hdev, hmtp⟩ : ∃ usbdev, getInternaldevice .identity
      connectedPlayer.library.listDevices playerName = some usbdev ∧
      usbdev.mode = .mtp := ⟨_, rfl, rfl⟩
  have hrest : connectedPlayer.AtRest .sample playerName usbdev :=
    ⟨by decide, by rw [CopyState.AllDone]; decide, by decide, by decide, hdev⟩
  have hunhindered : ∀ file ∈
      copiedToPlayer.window.details.drop connectedPlayer.window.details.length,
        file.sent.Unhindered .sample [wide "Music"] := fun file hf => by
    rw [hfile file hf]
    exact ⟨fun _ => rfl, by decide, by decide⟩
  obtain ⟨⟨t, ht, hitems, -⟩, hall⟩ := delivery .sample (fun _ _ => rfl) (.new .sample) rfl
    connectToPlayer copyToPlayer (by simp [connectToPlayer])
    (sound_connect (by simp [DesktopAct.Stays])) connectedPlayer copiedToPlayer rfl rfl playerName
    usbdev hrest hmtp hafter [wide "Music"] hunhindered (by decide)
  refine ⟨usbdev, t, hdev, ht, fun file hf => hitems file (hall ?_ ?_ ?_ file hf)⟩
  · intro e he
    have hlabel : ∀ a ∈ copyToPlayer, ∀ d : Desktop, d.TagsRead a := by
      simp [copyToPlayer, copyOneFile, ticks, Desktop.TagsRead, copyFileDetails]
    exact hlabel e.label (Transition.label_mem_of_mem_fired he) e.pre
  · rw [CopyState.AllDone]; decide
  · intro index
    have hgui : copiedToPlayer.window.gui = .idle := by decide
    simp [hgui]

end MtpRetag
