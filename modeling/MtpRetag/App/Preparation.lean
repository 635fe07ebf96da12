import MtpRetag.App.Machine

/-!
# App/Preparation — one click on Copy

`menuItemCopyFilesAction` as one call: it connects if it has to, queues the listed files one by one
while it reads their tags, and at the end starts a worker and clears the list.  The steps of the
machine do the same (`exists_run_menuItemCopyFilesAction`).

An exception in the middle leaves files queued and the list as it was (`allOrNothing_click_iff`),
and the next click queues them again.
-/

namespace MtpRetag

/-- What decides a click on Copy from outside: the answer to "Please connect USB device.", the scan
that an OK leads to, and the tags of the files by their index. -/
structure CopyClick where
  ok : Bool
  scan : DeviceScan
  reads : ℕ → TagOutcome

namespace State

/-- The loop of `menuItemCopyFilesAction` from the `index`-th file on, and what follows it.  An
exception leaves both. -/
def copyLoop (reads : ℕ → TagOutcome) : ℕ → List WStr → State → State
  | _, [], s => s.launch
  | index, path :: files, s =>
    match copyFileDetails path (reads index) with
    | some details =>
      copyLoop reads (index + 1) files { s.enqueue details with gui := .copyFiles (index + 1) }
    | none => { s with gui := .idle }

/-- `usbConnect`, to its end. -/
def usbConnected (s : State) (scan : DeviceScan) : State :=
  { (s.usbConnect scan true).setConnectedState (scan.listed.any Option.isSome) with
    usbDevice := scan.listed.getLast?.getD (s.usbConnect scan true).usbDevice }

/-- `menuItemCopyFilesAction`. -/
def menuItemCopyFilesAction (s : State) (click : CopyClick) : State :=
  if s.connected then s.setupBar.copyLoop click.reads 0 s.listModel
  else if click.ok then (s.usbConnected click.scan).setupBar.copyLoop click.reads 0 s.listModel
  else s

end State

/-! ## The same in steps -/

section Steps

variable {s s' : State}

theorem foldlM_cons_of_step {a : Act} (h : s.step a = some s') (as : List Act) :
    (a :: as).foldlM State.step s = as.foldlM State.step s' := by
  rw [List.foldlM_cons, h]
  rfl

/-- The steps of the loop. -/
theorem exists_run_copyLoop (reads : ℕ → TagOutcome) :
    ∀ (files : List WStr) (index : ℕ) (s : State), s.gui = .copyFiles index →
      s.listModel.drop index = files →
      ∃ as : List Act, as.foldlM State.step s = some (s.copyLoop reads index files)
  | [], index, s, hgui, hfiles => by
      have hend : ¬ index < s.listModel.length := not_lt.mpr (List.drop_eq_nil_iff.mp hfiles)
      have hstep : s.step .gui = some s.launch := by
        rw [State.step, hgui, State.guiStep, if_neg hend]
      exact ⟨[.gui], foldlM_cons_of_step hstep []⟩
  | path :: files, index, s, hgui, hfiles => by
      have hpath : s.listModel[index]? = some path := by
        rw [← List.head?_drop, hfiles]
        rfl
      have hrest : s.listModel.drop (index + 1) = files := by
        rw [← List.tail_drop, hfiles]
        rfl
      rw [State.copyLoop]
      cases hdetails : copyFileDetails path (reads index) with
      | none =>
        have hstep : s.step (.readTags (reads index)) = some { s with gui := .idle } := by
          simp only [State.step, hgui, hpath, Option.map_some, hdetails]
        exact ⟨[.readTags (reads index)], foldlM_cons_of_step hstep []⟩
      | some details =>
        have hstep : s.step (.readTags (reads index)) =
            some { s.enqueue details with gui := .copyFiles (index + 1) } := by
          simp only [State.step, hgui, hpath, Option.map_some, hdetails]
        obtain ⟨as, has⟩ := exists_run_copyLoop reads files (index + 1)
          { s.enqueue details with gui := .copyFiles (index + 1) } rfl hrest
        exact ⟨.readTags (reads index) :: as, (foldlM_cons_of_step hstep as).trans has⟩

/-- The steps of the loop over the device list. -/
theorem foldlM_connectLoop (copy : Bool) :
    ∀ (devices : List (Option WStr)) (success : Bool) (s : State),
      s.gui = .connectLoop devices success copy →
      (List.replicate devices.length Act.gui).foldlM State.step s =
        some { s with
          usbDevice := devices.getLast?.getD s.usbDevice
          gui := .connectLoop [] (success || devices.any Option.isSome) copy }
  | [], success, s, hgui => by
      have hnone : (success || ([] : List (Option WStr)).any Option.isSome) = success :=
        Bool.or_false success
      rw [hnone, ← hgui]
      rfl
  | usbDevice :: devices, success, s, hgui => by
      have hstep : s.step .gui = some { s with
          usbDevice := usbDevice
          gui := .connectLoop devices (success || usbDevice.isSome) copy } := by
        rw [State.step, hgui]
        rfl
      rw [List.length_cons, List.replicate_succ, foldlM_cons_of_step hstep,
        foldlM_connectLoop copy devices _ _ rfl, List.getLast?_cons, List.any_cons, Bool.or_assoc]
      rfl

/-- The steps from the set-up of the bar. -/
theorem exists_run_setupBar (reads : ℕ → TagOutcome) (hgui : s.gui = .setupBar) :
    ∃ as : List Act, as.foldlM State.step s = some (s.setupBar.copyLoop reads 0 s.listModel) := by
  have hsetup : s.step .gui = some s.setupBar := by
    rw [State.step, hgui]
    rfl
  obtain ⟨as, has⟩ := exists_run_copyLoop reads s.listModel 0 s.setupBar rfl rfl
  exact ⟨.gui :: as, (foldlM_cons_of_step hsetup as).trans has⟩

/-- The steps of a connect, up to the set-up of the bar. -/
theorem exists_run_usbConnect (s : State) (scan : DeviceScan) :
    ∃ as : List Act, as.foldlM State.step (s.usbConnect scan true) =
      some { s.usbConnected scan with gui := .setupBar } := by
  have hloop := foldlM_connectLoop true scan.listed false (s.usbConnect scan true) rfl
  cases hsuccess : scan.listed.any Option.isSome with
  | true =>
    refine ⟨List.replicate scan.listed.length .gui ++ [.gui], ?_⟩
    rw [List.foldlM_append, hloop, State.usbConnected, hsuccess]
    rfl
  | false =>
    refine ⟨List.replicate scan.listed.length .gui ++ [.gui, .dismiss], ?_⟩
    rw [List.foldlM_append, hloop, State.usbConnected, hsuccess]
    rfl

/-- **A click in steps.** -/
theorem exists_run_menuItemCopyFilesAction (s : State) (click : CopyClick) (hgui : s.gui = .idle) :
    ∃ as : List Act, as.foldlM State.step s = some (s.menuItemCopyFilesAction click) := by
  have hclick : s.step .clickCopy =
      some { s with gui := if s.connected then .setupBar else .dispatching .confirm } := by
    rw [State.step, if_pos hgui]
  rw [State.menuItemCopyFilesAction]
  split
  next hconnected =>
    rw [if_pos hconnected] at hclick
    obtain ⟨as, has⟩ := exists_run_setupBar (s := { s with gui := .setupBar }) click.reads rfl
    exact ⟨.clickCopy :: as, (foldlM_cons_of_step hclick as).trans has⟩
  next hconnected =>
    rw [if_neg hconnected] at hclick
    split
    next hok =>
      have hanswer : State.step { s with gui := .dispatching .confirm } (.answer true click.scan) =
          some (s.usbConnect click.scan true) := rfl
      obtain ⟨as, has⟩ := exists_run_usbConnect s click.scan
      obtain ⟨as', has'⟩ := exists_run_setupBar
        (s := { s.usbConnected click.scan with gui := .setupBar }) click.reads rfl
      refine ⟨.clickCopy :: .answer true click.scan :: (as ++ as'), ?_⟩
      rw [foldlM_cons_of_step hclick, foldlM_cons_of_step hanswer, List.foldlM_append, has]
      exact has'
    next hok =>
      have hanswer : State.step { s with gui := .dispatching .confirm } (.answer false click.scan) =
          some s := by
        rw [State.step, if_pos rfl, if_neg Bool.false_ne_true, ← hgui]
      exact ⟨[.clickCopy, .answer false click.scan],
        (foldlM_cons_of_step hclick _).trans (foldlM_cons_of_step hanswer [])⟩

end Steps

/-! ## All or nothing -/

/-- Every listed file is queued once, a worker is started and the list is cleared. -/
structure QueuedAll (s s' : State) : Prop where
  details : ∃ added, s'.details = s.details ++ added ∧
    added.map CopyFileDetails.source = s.listModel
  transferQueue : s'.transferQueue =
    s.transferQueue ++ List.range' s.details.length s.listModel.length
  workers : s'.workers = s.workers ++ [Worker.new]
  listModel : s'.listModel = []

/-- The list and the queue are as they were. -/
structure LeftAlone (s s' : State) : Prop where
  details : s'.details = s.details
  transferQueue : s'.transferQueue = s.transferQueue
  listModel : s'.listModel = s.listModel

def AllOrNothing (s s' : State) : Prop := QueuedAll s s' ∨ LeftAlone s s'

/-- Reading these tags of a file ends in an exception that leaves the handler: the library throws
one other than `CannotReadException`, or a tag is empty and the path has no name in its place. -/
def TagOutcome.Raises (path : WStr) : TagOutcome → Prop
  | .tag artist title =>
    (artist = none ∧ (pathTokens path).length < 2) ∨ (title = none ∧ pathTokens path = [])
  | .cannotRead => False
  | .threw => True

/-- A click that gets to the list raises no exception, or raises one at its first file. -/
def FailsEarlyOrNever (s : State) (click : CopyClick) : Prop :=
  s.connected = true ∨ click.ok = true →
    (∀ index path, s.listModel[index]? = some path → ¬ (click.reads index).Raises path) ∨
      ∃ path, s.listModel[0]? = some path ∧ (click.reads 0).Raises path

section Click

variable {s s' : State}

theorem copyFileDetails_eq_none_iff {path : WStr} {o : TagOutcome} :
    copyFileDetails path o = none ↔ o.Raises path := by
  cases o with
  | tag artist title =>
    have hartist : artist.or (pathTokens path).reverse[1]? = none ↔
        artist = none ∧ (pathTokens path).length < 2 := by
      rw [Option.or_eq_none_iff, List.getElem?_eq_none_iff, List.length_reverse]
      exact and_congr_right fun _ => Nat.lt_succ_iff.symm
    have htitle : title.or (pathTokens path).reverse[0]? = none ↔
        title = none ∧ pathTokens path = [] := by
      rw [Option.or_eq_none_iff, List.getElem?_eq_none_iff, List.length_reverse, Nat.le_zero,
        List.length_eq_zero_iff]
    rw [copyFileDetails, TagOutcome.Raises, ← hartist, ← htitle]
    cases artist.or (pathTokens path).reverse[1]? with
    | none => simp
    | some a => simp
  | cannotRead => simp [copyFileDetails, TagOutcome.Raises]
  | threw => simp [copyFileDetails, TagOutcome.Raises]

/-- These files have been queued, one behind the other. -/
structure Queued (s s' : State) (files : List WStr) : Prop where
  details : ∃ added, s'.details = s.details ++ added ∧ added.map CopyFileDetails.source = files
  transferQueue : s'.transferQueue = s.transferQueue ++ List.range' s.details.length files.length

theorem queued_nil (hdetails : s'.details = s.details)
    (hqueue : s'.transferQueue = s.transferQueue) : Queued s s' [] := by
  refine ⟨⟨[], ?_, rfl⟩, ?_⟩
  · rw [hdetails, List.append_nil]
  · rw [hqueue, List.length_nil, List.range'_zero, List.append_nil]

/-- The first file is queued before the others. -/
theorem Queued.cons {path : WStr} {o : TagOutcome} {details : CopyFileDetails} {gui : GuiPc}
    {files : List WStr} (hdetails : copyFileDetails path o = some details)
    (h : Queued { s.enqueue details with gui := gui } s' files) : Queued s s' (path :: files) := by
  obtain ⟨added, hadded, hmap⟩ := h.details
  refine ⟨⟨details :: added, ?_, ?_⟩, ?_⟩
  · rw [hadded]
    simp [State.enqueue]
  · rw [List.map_cons, (destination_copyFileDetails hdetails).1, hmap]
  · rw [h.transferQueue]
    simp [State.enqueue, List.range'_succ]

/-- **What the loop does**: it gets to the end and queues all files, or an exception leaves it with
those before queued. -/
theorem copyLoop_cases (reads : ℕ → TagOutcome) :
    ∀ (files : List WStr) (index : ℕ) (s : State),
      ((∀ i path, files[i]? = some path → ¬ (reads (index + i)).Raises path) ∧
        Queued s (s.copyLoop reads index files) files ∧
        (s.copyLoop reads index files).workers = s.workers ++ [Worker.new] ∧
        (s.copyLoop reads index files).listModel = []) ∨
      ∃ i path, files[i]? = some path ∧ (reads (index + i)).Raises path ∧
        Queued s (s.copyLoop reads index files) (files.take i) ∧
        (s.copyLoop reads index files).listModel = s.listModel
  | [], _, s => .inl ⟨by simp, queued_nil rfl rfl, rfl, rfl⟩
  | path :: files, index, s => by
      rw [State.copyLoop]
      cases hdetails : copyFileDetails path (reads index) with
      | none =>
        have hraises := copyFileDetails_eq_none_iff.mp hdetails
        exact .inr ⟨0, path, rfl, hraises, queued_nil rfl rfl, rfl⟩
      | some details =>
        have hno : ¬ (reads index).Raises path := fun h => by
          simp [copyFileDetails_eq_none_iff.mpr h] at hdetails
        have hshift : ∀ i, index + 1 + i = index + (i + 1) := fun i => by omega
        have ih := copyLoop_cases reads files (index + 1)
          { s.enqueue details with gui := .copyFiles (index + 1) }
        simp only [hshift] at ih
        rcases ih with ⟨hall, hqueued, hworkers, hlist⟩ | ⟨i, f, hf, hraises, hqueued, hlist⟩
        · refine .inl ⟨fun i f hf => ?_, hqueued.cons hdetails, hworkers, hlist⟩
          cases i with
          | zero =>
            obtain rfl : path = f := Option.some.inj hf
            exact hno
          | succ i => exact hall i f hf
        · exact .inr ⟨i + 1, f, hf, hraises, hqueued.cons hdetails, hlist⟩

/-- A loop from a state with the list, the queue and the workers of another one. -/
theorem allOrNothing_copyLoop_iff {s₀ : State} (reads : ℕ → TagOutcome)
    (hcopy : s₀.toCopyState.details = s.details ∧ s₀.transferQueue = s.transferQueue ∧
      s₀.workers = s.workers) (hlist : s₀.listModel = s.listModel) :
    AllOrNothing s (s₀.copyLoop reads 0 s.listModel) ↔
      (∀ index path, s.listModel[index]? = some path → ¬ (reads index).Raises path) ∨
        ∃ path, s.listModel[0]? = some path ∧ (reads 0).Raises path := by
  obtain ⟨hdetails, hqueue, hworkers⟩ := hcopy
  constructor
  · intro h
    rcases copyLoop_cases reads s.listModel 0 s₀ with
      ⟨hall, -⟩ | ⟨i, path, hpath, hraises, hqueued, hl⟩
    · exact .inl fun index path hpath => Nat.zero_add index ▸ hall index path hpath
    · have hne : s.listModel ≠ [] := List.ne_nil_of_mem (List.mem_of_getElem? hpath)
      rcases h with hall | halone
      · exact absurd (hlist.symm.trans (hl.symm.trans hall.listModel)) hne
      · obtain ⟨added, hadded, hmap⟩ := hqueued.details
        rw [halone.details, hdetails, List.self_eq_append_right] at hadded
        rw [hadded, List.map_nil, eq_comm, List.take_eq_nil_iff] at hmap
        obtain rfl := hmap.resolve_right hne
        exact .inr ⟨path, hpath, hraises⟩
  · rintro (hall | ⟨path, hpath, hraises⟩)
    · rcases copyLoop_cases reads s.listModel 0 s₀ with
        ⟨-, hqueued, hw, hl⟩ | ⟨i, path, hpath, hraises, -⟩
      · exact .inl ⟨hdetails ▸ hqueued.details, by rw [hqueued.transferQueue, hqueue, hdetails],
          by rw [hw, hworkers], hl⟩
      · exact absurd (Nat.zero_add i ▸ hraises) (hall i path hpath)
    · cases hfiles : s.listModel with
      | nil => simp [hfiles] at hpath
      | cons f files =>
        obtain rfl : f = path := by simpa [hfiles] using hpath
        rw [State.copyLoop, copyFileDetails_eq_none_iff.mpr hraises]
        exact .inr ⟨hdetails, hqueue, hlist⟩

/-- One click is all or nothing exactly if it fails early or never. -/
theorem allOrNothing_click_iff (s : State) (click : CopyClick) :
    AllOrNothing s (s.menuItemCopyFilesAction click) ↔ FailsEarlyOrNever s click := by
  rw [State.menuItemCopyFilesAction, FailsEarlyOrNever]
  split
  next hconnected =>
    rw [imp_iff_right (.inl hconnected)]
    exact allOrNothing_copyLoop_iff click.reads ⟨rfl, rfl, rfl⟩ rfl
  next hconnected =>
    split
    next hok =>
      rw [imp_iff_right (.inr hok)]
      exact allOrNothing_copyLoop_iff click.reads ⟨rfl, rfl, rfl⟩ rfl
    next hok =>
      exact iff_of_true (.inr ⟨rfl, rfl, rfl⟩) fun h => absurd h (not_or.mpr ⟨hconnected, hok⟩)

end Click

/-! ## Repeated clicks -/

/-- A click on Copy in a state. -/
structure CopyRound where
  before : State
  click : CopyClick

def CopyRound.after (r : CopyRound) : State := r.before.menuItemCopyFilesAction r.click

/-- The files that a click queues. -/
def CopyRound.queued (r : CopyRound) : List WStr :=
  (r.after.details.drop r.before.details.length).map CopyFileDetails.source

/-- The next click finds the list as this one has left it. -/
def CopyRound.Leads (r r' : CopyRound) : Prop := r'.before.listModel = r.after.listModel

section Rounds

theorem queued_of_allOrNothing {r : CopyRound} (h : AllOrNothing r.before r.after) :
    (r.queued = r.before.listModel ∧ r.after.listModel = []) ∨
      (r.queued = [] ∧ r.after.listModel = r.before.listModel) := by
  rcases h with hqueued | halone
  · obtain ⟨added, hdetails, hmap⟩ := hqueued.details
    refine .inl ⟨?_, hqueued.listModel⟩
    rw [CopyRound.queued, hdetails, List.drop_left, hmap]
  · refine .inr ⟨?_, halone.listModel⟩
    rw [CopyRound.queued, halone.details, List.drop_length, List.map_nil]

/-- If each click is all or nothing, no entry is queued more often than it is listed. -/
theorem count_queued_le (path : WStr) :
    ∀ (r : CopyRound) (rounds : List CopyRound), (r :: rounds).IsChain CopyRound.Leads →
      (∀ x ∈ r :: rounds, AllOrNothing x.before x.after) →
      ((r :: rounds).flatMap CopyRound.queued).count path ≤ r.before.listModel.count path
  | r, [], _, h => by
      rw [List.flatMap_cons, List.flatMap_nil, List.append_nil]
      rcases queued_of_allOrNothing (h r List.mem_cons_self) with ⟨hqueued, -⟩ | ⟨hqueued, -⟩
      · rw [hqueued]
      · rw [hqueued]
        exact Nat.zero_le _
  | r, r' :: rounds, hchain, h => by
      obtain ⟨hleads, hrest⟩ := List.isChain_cons_cons.mp hchain
      have ih := count_queued_le path r' rounds hrest fun x hx => h x (List.mem_cons_of_mem r hx)
      rw [hleads] at ih
      rw [List.flatMap_cons, List.count_append]
      rcases queued_of_allOrNothing (h r List.mem_cons_self) with
        ⟨hqueued, hlist⟩ | ⟨hqueued, hlist⟩
      · rw [hlist] at ih
        rw [hqueued]
        exact Nat.add_le_add_left ih _
      · rw [hlist] at ih
        rw [hqueued, List.count_nil, Nat.zero_add]
        exact ih

end Rounds

/-- **Copy is all or nothing exactly where it fails early or never**: over any number of clicks each
one is, and none queues an entry again, if and only if none raises an exception behind its first
file. -/
theorem copy_allOrNothing_iff (r : CopyRound) (rounds : List CopyRound)
    (hchain : (r :: rounds).IsChain CopyRound.Leads) :
    ((∀ x ∈ r :: rounds, AllOrNothing x.before x.after) ∧
      ∀ path, ((r :: rounds).flatMap CopyRound.queued).count path ≤
        r.before.listModel.count path) ↔
      ∀ x ∈ r :: rounds, FailsEarlyOrNever x.before x.click := by
  have heach : (∀ x ∈ r :: rounds, AllOrNothing x.before x.after) ↔
      ∀ x ∈ r :: rounds, FailsEarlyOrNever x.before x.click :=
    forall₂_congr fun x _ => allOrNothing_click_iff x.before x.click
  rw [← heach]
  exact and_iff_left_of_imp fun h path => count_queued_le path r rounds hchain h

/-- A connected window with two files in its list. -/
def twoListed : State :=
  { State.init with connected := true, listModel := [wide "C:\\a.mp3", wide "C:\\b.mp3"] }

/-- A click that finds the second file corrupt, -/
def corruptSecond : CopyClick where
  ok := true
  scan := ⟨none, []⟩
  reads index := if index = 1 then .threw else .cannotRead

/-- …and one that can read no tags, which is no exception. -/
def untagged : CopyClick := ⟨true, ⟨none, []⟩, fun _ => .cannotRead⟩

/-- Clicks of the second kind queue each file once. -/
theorem copy_allOrNothing_iff_untagged :
    AllOrNothing twoListed (twoListed.menuItemCopyFilesAction untagged) ∧
      ∀ path, ([⟨twoListed, untagged⟩,
          ⟨twoListed.menuItemCopyFilesAction untagged, untagged⟩].flatMap
        CopyRound.queued).count path ≤ twoListed.listModel.count path := by
  have hchain : [⟨twoListed, untagged⟩,
      ⟨twoListed.menuItemCopyFilesAction untagged, untagged⟩].IsChain CopyRound.Leads :=
    List.isChain_cons_cons.mpr ⟨rfl, .singleton _⟩
  refine ((copy_allOrNothing_iff ⟨twoListed, untagged⟩ _ hchain).mpr fun x hx _ => ?_).imp_left
    fun h => h _ List.mem_cons_self
  have hclick : x.click = untagged := by
    simp only [List.mem_cons, List.not_mem_nil, or_false] at hx
    rcases hx with rfl | rfl <;> rfl
  rw [hclick]
  exact .inl fun index path _ => id

/-- One of the first kind and one of the second queue the first file twice. -/
theorem not_allOrNothing_corruptSecond :
    [⟨twoListed, corruptSecond⟩,
      ⟨twoListed.menuItemCopyFilesAction corruptSecond, untagged⟩].flatMap CopyRound.queued =
        [wide "C:\\a.mp3", wide "C:\\a.mp3", wide "C:\\b.mp3"] ∧
      ¬ AllOrNothing twoListed (twoListed.menuItemCopyFilesAction corruptSecond) := by
  have hlist : (twoListed.menuItemCopyFilesAction corruptSecond).listModel ≠ [] := by decide
  have hdetails : (twoListed.menuItemCopyFilesAction corruptSecond).details ≠ [] := by decide
  refine ⟨by decide, ?_⟩
  rintro (hqueued | halone)
  · exact hlist hqueued.listModel
  · exact hdetails halone.details

end MtpRetag
