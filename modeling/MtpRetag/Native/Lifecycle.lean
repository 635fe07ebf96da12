import MtpRetag.Native.Basic
import Mathlib.Data.List.Induction

/-!
# Native/Lifecycle — the manager pointer, the singleton, and the objects behind them

Each entry point tests one global pointer, `pasmgr`, for NULL; every source file keeps a pointer of
its own to the `usbdevman_app` singleton.  `releaseInstance` deletes both objects and sets neither
pointer to NULL.

`lifecycle_exact` is the exact condition under which no call touches a deleted object.
-/

namespace MtpRetag

/-! ## Objects and accesses -/

/-- An object of a class whose lifetime the library manages. -/
inductive NativeObject
  | devicemanager (n : ℕ)
  | usbdevmanApp (n : ℕ)
  deriving DecidableEq, Repr

inductive AccessKind
  | read
  | write
  | delete
  deriving DecidableEq, Repr

/-- What a call does to an object. -/
structure Access where
  kind : AccessKind
  object : NativeObject
  deriving DecidableEq, Repr

/-- The global pointers and the objects made so far.  `theapp` stands for the file-static pointers:
all are set while the library is loaded, and to the same object. -/
structure NativeState where
  pasmgr : Option ℕ
  theapp : ℕ
  appInstance : Option ℕ
  nextManager : ℕ
  nextApp : ℕ
  deleted : List NativeObject

/-- The library is loaded. -/
def NativeState.init : NativeState := ⟨none, 0, some 0, 0, 1, []⟩

/-- `usbdevman_app::get_instance`. -/
def NativeState.getInstance (s : NativeState) : ℕ × NativeState :=
  match s.appInstance with
  | some a => (a, s)
  | none => (s.nextApp, { s with appInstance := some s.nextApp, nextApp := s.nextApp + 1 })

/-- `usbdevman_app::release_instance`. -/
def NativeState.releaseInstance (s : NativeState) : List Access × NativeState :=
  match s.appInstance with
  | none => ([], s)
  | some a =>
    ([⟨.delete, .usbdevmanApp a⟩],
      { s with appInstance := none, deleted := .usbdevmanApp a :: s.deleted })

/-! ## The entry points -/

inductive UsbOp
  | existFile
  | deleteFile
  | existFolder
  | deleteFolder
  | createFolder
  | getMetadata
  | updateMetadata
  | getFile
  | sendFile
  | parseFolder
  deriving DecidableEq, Repr

/-- The operations that end early without a metadata object. -/
def UsbOp.takesMetadata (op : UsbOp) : Bool := op = .getMetadata ∨ op = .updateMetadata

/-- The operations on whose way the flag is polled through `theapp`: in the file itself, in
`helperlib`, or in the notifier. -/
def UsbOp.pollsTheapp (op : UsbOp) : Bool := op ∉ [.deleteFile, .deleteFolder, .createFolder]

/-- A call of a `UsbDevice` operation: whether there is a metadata object, whether `getCanonical` is
found, whether the body gets to a place where it polls the flag through `theapp`, or through
`get_instance()`, and what it returns. -/
structure UsbCall where
  op : UsbOp
  metadata : Bool
  getCanonical : Bool
  theappPolled : Bool
  instancePolled : Bool
  ret : Int64

/-- A call of a native entry point.  `listed` says whether the scan lists a device, `controller`
whether a host controller is found; `ret` is what the body returns where it is not cut short. -/
inductive NativeCall
  | setVerbose (verbose : Int32)
  | createInstance
  | releaseInstance
  | detectDevices (findClass init listed : Bool) (ret : Int64)
  | checkDevice (controller : Bool) (ret : Int64)
  | releaseDevice (removeDevice : Bool) (ret : Int64)
  | usbDevice (call : UsbCall)

/-- What a call does. -/
structure NativeOutcome where
  ret : Int64
  accesses : List Access
  post : NativeState

/-- `theapp->is_verbose()`. -/
def NativeState.pollTheapp (s : NativeState) : Access := ⟨.read, .usbdevmanApp s.theapp⟩

/-- `usbdevman_app::get_instance()->is_verbose()`, where the body gets there. -/
def NativeState.pollInstance (s : NativeState) (reached : Bool) : List Access × NativeState :=
  if reached then ([⟨.read, .usbdevmanApp s.getInstance.1⟩], s.getInstance.2) else ([], s)

/-- A `UsbDevice` operation behind its pointer test. -/
def NativeState.usbDevice (s : NativeState) (m : ℕ) (call : UsbCall) : NativeOutcome :=
  if call.op.takesMetadata ∧ ¬ call.metadata then ⟨Error.success.toInt64, [], s⟩
  else
    -- without the method, `get_internaldevice` leaves its result unassigned and the body goes on
    let getInternaldevice := if call.getCanonical then ⟨.read, .devicemanager m⟩ else s.pollTheapp
    let polled := if call.op.pollsTheapp ∧ call.theappPolled then [s.pollTheapp] else []
    let (instancePolls, post) := s.pollInstance call.instancePolled
    ⟨call.ret, getInternaldevice :: polled ++ instancePolls, post⟩

/-- What an entry point does. -/
def NativeState.call (s : NativeState) : NativeCall → NativeOutcome
  | .setVerbose _ => ⟨0, [⟨.write, .usbdevmanApp s.theapp⟩], s⟩
  | .createInstance =>
    ⟨0, [⟨.write, .usbdevmanApp s.theapp⟩],
      { s with pasmgr := some s.nextManager, nextManager := s.nextManager + 1 }⟩
  | .releaseInstance =>
    match s.pasmgr with
    | none =>
      let (accesses, post) := s.releaseInstance
      ⟨0, accesses, post⟩
    | some m =>
      let (accesses, post) := { s with deleted := .devicemanager m :: s.deleted }.releaseInstance
      ⟨0, ⟨.delete, .devicemanager m⟩ :: accesses, post⟩
  | .detectDevices findClass init listed ret =>
    match s.pasmgr with
    | none => ⟨1, [], s⟩
    | some m =>
      -- `refresh_devices` polls the flag whatever it finds
      let (instancePolls, post) := s.pollInstance true
      if ¬ findClass ∨ ¬ init then
        ⟨1, ⟨.read, .devicemanager m⟩ :: instancePolls ++ [s.pollTheapp], post⟩
      else
        ⟨ret, ⟨.read, .devicemanager m⟩ :: instancePolls ++ ⟨.read, .devicemanager m⟩ ::
          (if listed then [s.pollTheapp] else []), post⟩
  | .checkDevice controller ret =>
    match s.pasmgr with
    | none => ⟨1, [], s⟩
    | some m =>
      let (instancePolls, post) := s.pollInstance controller
      ⟨ret, s.pollTheapp :: ⟨.read, .devicemanager m⟩ :: instancePolls, post⟩
  | .releaseDevice removeDevice ret =>
    match s.pasmgr with
    | none => ⟨1, [], s⟩
    | some m => ⟨if removeDevice then ret else 1, [⟨.read, .devicemanager m⟩, s.pollTheapp], s⟩
  | .usbDevice call =>
    match s.pasmgr with
    | none => ⟨Error.initDeviceManager.toInt64, [], s⟩
    | some m => s.usbDevice m call

/-- The state after these calls. -/
def NativeState.after (calls : List NativeCall) : NativeState :=
  calls.foldl (fun s c => (s.call c).post) init

/-! ## What is promised, and when -/

/-- A manager is alive: one was created since the last release. -/
def managerAlive (calls : List NativeCall) : Bool :=
  calls.foldl (fun alive c =>
    match c with
    | .createInstance => true
    | .releaseInstance => false
    | _ => alive) false

/-- The code that a call answers without a manager, if it needs one. -/
def NativeCall.errorCode : NativeCall → Option Int64
  | .setVerbose _ | .createInstance | .releaseInstance => none
  | .detectDevices .. | .checkDevice .. | .releaseDevice .. => some 1
  | .usbDevice _ => some Error.initDeviceManager.toInt64

/-- No deleted object is read or deleted. -/
def NativeState.Spares (s : NativeState) (accesses : List Access) : Prop :=
  ∀ access ∈ accesses, access.kind ≠ .write → access.object ∉ s.deleted

/-- A call made after these reads and deletes no deleted object, and answers its error code if no
manager is alive. -/
def NativeCall.Safe (before : List NativeCall) (c : NativeCall) : Prop :=
  (NativeState.after before).Spares ((NativeState.after before).call c).accesses ∧
    (managerAlive before = false → ∀ ret, c.errorCode = some ret →
      ((NativeState.after before).call c).ret = ret)

/-- The way of a call leads to a place where the flag is polled through `theapp`. -/
def NativeCall.PollsTheapp : NativeCall → Prop
  | .setVerbose _ | .createInstance | .releaseInstance => False
  | .detectDevices findClass init listed _ => findClass = false ∨ init = false ∨ listed = true
  | .checkDevice .. | .releaseDevice .. => True
  | .usbDevice call =>
    ¬ (call.op.takesMetadata = true ∧ ¬ call.metadata = true) ∧
      (call.getCanonical = false ∨ call.op.pollsTheapp = true ∧ call.theappPolled = true)

/-- Once a manager was created, a call that asks for it or deletes it is made only while one is
alive, and a call that polls `theapp` only before the first release. -/
def NativeCall.Allowed (before : List NativeCall) (c : NativeCall) : Prop :=
  (c.errorCode ≠ none ∨ c = .releaseInstance) → .createInstance ∈ before →
    managerAlive before = true ∧ (c.PollsTheapp → .releaseInstance ∉ before)

/-! ## What the pointers are worth -/

/-- The pointers after these calls: the singleton that the files share is deleted by the first
release, the manager by the release that follows its creation. -/
structure NativeState.Inv (before : List NativeCall) (s : NativeState) : Prop where
  theapp : s.theapp = 0
  app_deleted : .usbdevmanApp 0 ∈ s.deleted ↔ .releaseInstance ∈ before
  app_first : .releaseInstance ∉ before → s.appInstance = some 0
  app_live : ∀ a, s.appInstance = some a → .usbdevmanApp a ∉ s.deleted ∧ a < s.nextApp
  app_lt : ∀ a, .usbdevmanApp a ∈ s.deleted → a < s.nextApp
  pasmgr : s.pasmgr = none ↔ .createInstance ∉ before
  manager_deleted : ∀ m, s.pasmgr = some m →
    (.devicemanager m ∈ s.deleted ↔ managerAlive before = false) ∧ m < s.nextManager
  manager_lt : ∀ m, .devicemanager m ∈ s.deleted → m < s.nextManager

section Invariant

variable {before : List NativeCall} {s : NativeState} {c : NativeCall}

theorem inv_init : NativeState.init.Inv [] where
  theapp := rfl
  app_deleted := by simp [NativeState.init]
  app_first _ := rfl
  app_live a ha := by
    obtain rfl : 0 = a := Option.some.inj ha
    exact ⟨by simp [NativeState.init], Nat.one_pos⟩
  app_lt a ha := by simp [NativeState.init] at ha
  pasmgr := by simp [NativeState.init]
  manager_deleted m hm := by simp [NativeState.init] at hm
  manager_lt m hm := by simp [NativeState.init] at hm

@[simp] theorem managerAlive_snoc (before : List NativeCall) (c : NativeCall) :
    managerAlive (before ++ [c]) =
      match c with
      | .createInstance => true
      | .releaseInstance => false
      | _ => managerAlive before := by
  rw [managerAlive, List.foldl_append]
  rfl

/-- A call that neither creates nor releases leaves the invariant about its state alone. -/
theorem inv_snoc (h : s.Inv before) (hcreate : c ≠ .createInstance)
    (hrelease : c ≠ .releaseInstance) : s.Inv (before ++ [c]) := by
  have hmem : ∀ d : NativeCall, d ≠ c → (d ∈ before ++ [c] ↔ d ∈ before) := fun d hd => by
    rw [List.mem_append, List.mem_singleton, or_iff_left hd]
  have halive : managerAlive (before ++ [c]) = managerAlive before := by
    rw [managerAlive_snoc]
    cases c with
    | createInstance => exact absurd rfl hcreate
    | releaseInstance => exact absurd rfl hrelease
    | _ => rfl
  exact
    { theapp := h.theapp
      app_deleted := by rw [hmem _ hrelease.symm, h.app_deleted]
      app_first := by rw [hmem _ hrelease.symm]; exact h.app_first
      app_live := h.app_live
      app_lt := h.app_lt
      pasmgr := by rw [hmem _ hcreate.symm, h.pasmgr]
      manager_deleted := by rw [halive]; exact h.manager_deleted
      manager_lt := h.manager_lt }

/-- A poll through `get_instance()` makes a singleton if there is none. -/
theorem inv_pollInstance (h : s.Inv before) (reached : Bool) :
    (s.pollInstance reached).2.Inv before := by
  cases reached with
  | false => exact h
  | true =>
    change s.getInstance.2.Inv before
    rw [NativeState.getInstance]
    cases happ : s.appInstance with
    | some a => exact h
    | none =>
      exact
        { theapp := h.theapp
          app_deleted := h.app_deleted
          app_first := fun hno => by simp [h.app_first hno] at happ
          app_live := fun a ha => by
            obtain rfl : s.nextApp = a := Option.some.inj ha
            exact ⟨fun hmem => absurd (h.app_lt _ hmem) (lt_irrefl _), Nat.lt_succ_self _⟩
          app_lt := fun a ha => Nat.lt_succ_of_lt (h.app_lt a ha)
          pasmgr := h.pasmgr
          manager_deleted := h.manager_deleted
          manager_lt := h.manager_lt }

/-- …and never meets a deleted one. -/
theorem live_of_pollInstance (h : s.Inv before) (reached : Bool) :
    ∀ access ∈ (s.pollInstance reached).1, access.object ∉ s.deleted := by
  cases reached with
  | false => simp [NativeState.pollInstance]
  | true =>
    rw [NativeState.pollInstance, if_pos rfl, List.forall_mem_singleton, NativeState.getInstance]
    cases happ : s.appInstance with
    | some a => exact (h.app_live a happ).1
    | none => exact fun hmem => absurd (h.app_lt _ hmem) (lt_irrefl _)

/-- What `releaseInstance` does: it deletes what the two pointers of the library point to. -/
theorem call_releaseInstance (s : NativeState) :
    s.call .releaseInstance =
      ⟨0, s.pasmgr.toList.map (fun m => ⟨.delete, .devicemanager m⟩) ++
          s.appInstance.toList.map (fun a => ⟨.delete, .usbdevmanApp a⟩),
        { s with
          appInstance := none
          deleted := s.appInstance.toList.map .usbdevmanApp ++
            (s.pasmgr.toList.map .devicemanager ++ s.deleted) }⟩ := by
  obtain ⟨pasmgr, theapp, appInstance, nextManager, nextApp, deleted⟩ := s
  cases pasmgr <;> cases appInstance <;> rfl

theorem inv_createInstance (h : s.Inv before) :
    (s.call .createInstance).post.Inv (before ++ [.createInstance]) where
  theapp := h.theapp
  app_deleted := by simpa [NativeState.call] using h.app_deleted
  app_first hno := h.app_first (by simpa using hno)
  app_live := h.app_live
  app_lt := h.app_lt
  pasmgr := by simp [NativeState.call]
  manager_deleted m hm := by
    obtain rfl : s.nextManager = m := Option.some.inj hm
    refine ⟨?_, Nat.lt_succ_self _⟩
    have hfresh : .devicemanager s.nextManager ∉ s.deleted := fun hmem =>
      absurd (h.manager_lt _ hmem) (lt_irrefl _)
    simpa [NativeState.call] using hfresh
  manager_lt m hm := Nat.lt_succ_of_lt (h.manager_lt m hm)

theorem inv_releaseInstance (h : s.Inv before) :
    (s.call .releaseInstance).post.Inv (before ++ [.releaseInstance]) := by
  rw [call_releaseInstance]
  exact
    { theapp := h.theapp
      app_deleted := by
        have hfirst : s.appInstance = some 0 ∨ .usbdevmanApp 0 ∈ s.deleted := by
          by_cases hreleased : .releaseInstance ∈ before
          · exact .inr (h.app_deleted.mpr hreleased)
          · exact .inl (h.app_first hreleased)
        simpa [List.mem_append] using hfirst
      app_first := fun hno => by simp at hno
      app_live := fun a ha => by simp at ha
      app_lt := fun a ha => by
        have ha' : s.appInstance = some a ∨ .usbdevmanApp a ∈ s.deleted := by
          simpa [List.mem_append] using ha
        exact ha'.elim (fun happ => (h.app_live a happ).2) (h.app_lt a)
      pasmgr := by simpa using h.pasmgr
      manager_deleted := fun m hm => by
        have hm' : s.pasmgr = some m := hm
        exact ⟨by simp [hm'], (h.manager_deleted m hm').2⟩
      manager_lt := fun m hm => by
        have hm' : s.pasmgr = some m ∨ .devicemanager m ∈ s.deleted := by
          simpa [List.mem_append] using hm
        exact hm'.elim (fun hpas => (h.manager_deleted m hpas).2) (h.manager_lt m) }

/-- Every other call changes the state by a poll through `get_instance()` at most. -/
theorem post_call (s : NativeState) (hcreate : c ≠ .createInstance)
    (hrelease : c ≠ .releaseInstance) :
    ∃ reached, (s.call c).post = (s.pollInstance reached).2 := by
  cases c with
  | createInstance => exact absurd rfl hcreate
  | releaseInstance => exact absurd rfl hrelease
  | setVerbose verbose => exact ⟨false, rfl⟩
  | detectDevices findClass init listed ret =>
    rw [NativeState.call]
    cases s.pasmgr with
    | none => exact ⟨false, rfl⟩
    | some m =>
      refine ⟨true, ?_⟩
      dsimp only
      split <;> rfl
  | checkDevice controller ret =>
    rw [NativeState.call]
    cases s.pasmgr with
    | none => exact ⟨false, rfl⟩
    | some m => exact ⟨controller, rfl⟩
  | releaseDevice removeDevice ret =>
    rw [NativeState.call]
    cases s.pasmgr with
    | none => exact ⟨false, rfl⟩
    | some m => exact ⟨false, rfl⟩
  | usbDevice call =>
    rw [NativeState.call]
    cases s.pasmgr with
    | none => exact ⟨false, rfl⟩
    | some m =>
      dsimp only
      rw [NativeState.usbDevice]
      split
      · exact ⟨false, rfl⟩
      · exact ⟨call.instancePolled, rfl⟩

/-- **Each call keeps the invariant**… -/
theorem inv_call (h : s.Inv before) (c : NativeCall) : (s.call c).post.Inv (before ++ [c]) := by
  by_cases hcreate : c = .createInstance
  · subst hcreate
    exact inv_createInstance h
  by_cases hrelease : c = .releaseInstance
  · subst hrelease
    exact inv_releaseInstance h
  obtain ⟨reached, hpost⟩ := post_call s hcreate hrelease
  rw [hpost]
  exact inv_snoc (inv_pollInstance h reached) hcreate hrelease

/-- …and so do all calls. -/
theorem inv_after (calls : List NativeCall) : (NativeState.after calls).Inv calls := by
  induction calls using List.reverseRecOn with
  | nil => exact inv_init
  | append_singleton calls c ih =>
    rw [NativeState.after, List.foldl_append]
    exact inv_call ih c

/-- A manager that is not alive was released. -/
theorem mem_of_not_managerAlive (h : managerAlive before = false)
    (hcreate : .createInstance ∈ before) : .releaseInstance ∈ before := by
  induction before using List.reverseRecOn with
  | nil => simp at hcreate
  | append_singleton before c ih =>
    rw [managerAlive_snoc] at h
    cases c with
    | createInstance => cases h
    | releaseInstance => simp
    | _ => exact List.mem_append_left _ (ih h (by simpa using hcreate))

end Invariant

/-! ## Which calls are safe -/

section Safe

variable {before : List NativeCall} {s : NativeState} {m : ℕ} {accesses accesses' : List Access}

@[simp] theorem spares_nil : s.Spares [] := fun _ h => absurd h (by simp)

@[simp] theorem spares_cons {access : Access} :
    s.Spares (access :: accesses) ↔
      (access.kind ≠ .write → access.object ∉ s.deleted) ∧ s.Spares accesses :=
  List.forall_mem_cons

@[simp] theorem spares_append :
    s.Spares (accesses ++ accesses') ↔ s.Spares accesses ∧ s.Spares accesses' :=
  List.forall_mem_append

theorem spares_pollInstance (h : s.Inv before) (reached : Bool) :
    s.Spares (s.pollInstance reached).1 :=
  fun access hmem _ => live_of_pollInstance h reached access hmem

@[simp] theorem kind_pollTheapp (s : NativeState) : s.pollTheapp.kind = .read := rfl

theorem pollTheapp_spared_iff (h : s.Inv before) :
    s.pollTheapp.object ∉ s.deleted ↔ .releaseInstance ∉ before := by
  rw [NativeState.pollTheapp, h.theapp]
  exact h.app_deleted.not

theorem manager_spared_iff (h : s.Inv before) (hm : s.pasmgr = some m) :
    .devicemanager m ∉ s.deleted ↔ managerAlive before = true := by
  rw [(h.manager_deleted m hm).1, Bool.not_eq_false]

theorem mem_of_pasmgr (h : s.Inv before) (hm : s.pasmgr = some m) : .createInstance ∈ before :=
  not_not.mp fun hno => by simp [h.pasmgr.mpr hno] at hm

/-- What makes a call through a pointer that is set safe: a manager that is not alive was released,
so a call that touches either object meets a deleted one. -/
theorem asked_iff (h : s.Inv before) (hm : s.pasmgr = some m) {error : Prop} (reads polls : Prop)
    (htouch : reads ∨ polls) (hspares : s.Spares accesses ↔
      (reads → managerAlive before = true) ∧ (polls → .releaseInstance ∉ before)) :
    (s.Spares accesses ∧ (managerAlive before = false → error)) ↔
      managerAlive before = true ∧ (polls → .releaseInstance ∉ before) := by
  have hreleased : .releaseInstance ∉ before → managerAlive before = true := fun hno =>
    Bool.of_not_eq_false fun halive => hno (mem_of_not_managerAlive halive (mem_of_pasmgr h hm))
  rw [hspares]
  constructor
  · rintro ⟨⟨hread, hpoll⟩, -⟩
    exact ⟨htouch.elim hread fun hp => hreleased (hpoll hp), hpoll⟩
  · rintro ⟨halive, hpoll⟩
    exact ⟨⟨fun _ => halive, hpoll⟩, fun hdead => by simp [halive] at hdead⟩

theorem safe_usbDevice_iff (h : s.Inv before) (hm : s.pasmgr = some m) (call : UsbCall) :
    (s.Spares (s.usbDevice m call).accesses ∧
        (managerAlive before = false →
          (s.usbDevice m call).ret = Error.initDeviceManager.toInt64)) ↔
      managerAlive before = true ∧
        ((NativeCall.usbDevice call).PollsTheapp → .releaseInstance ∉ before) := by
  have hpolls := spares_pollInstance h call.instancePolled
  rw [NativeState.usbDevice, NativeCall.PollsTheapp]
  by_cases hmeta : call.op.takesMetadata = true ∧ ¬ call.metadata = true
  · have hcode : Error.success.toInt64 ≠ Error.initDeviceManager.toInt64 := by decide
    rw [if_pos hmeta]
    simp [hmeta, hcode]
  · rw [if_neg hmeta]
    simp only [hmeta, not_false_eq_true, true_and]
    refine asked_iff h hm (call.getCanonical = true) _ ?_ ?_
    · cases call.getCanonical <;> simp
    · cases call.getCanonical <;>
        by_cases hpolled : call.op.pollsTheapp = true ∧ call.theappPolled = true <;>
        simp [hpolls, hpolled, manager_spared_iff h hm, pollTheapp_spared_iff h]

theorem safe_detectDevices_iff (h : s.Inv before) (hm : s.pasmgr = some m)
    (findClass init listed : Bool) (ret : Int64) :
    (s.Spares (s.call (.detectDevices findClass init listed ret)).accesses ∧
        (managerAlive before = false →
          (s.call (.detectDevices findClass init listed ret)).ret = 1)) ↔
      managerAlive before = true ∧
        ((NativeCall.detectDevices findClass init listed ret).PollsTheapp →
          .releaseInstance ∉ before) := by
  have hpolls := spares_pollInstance h true
  refine asked_iff h hm True _ (.inl trivial) ?_
  rw [NativeState.call, hm, NativeCall.PollsTheapp]
  cases findClass <;> cases init <;> cases listed <;>
    simp [hpolls, manager_spared_iff h hm, pollTheapp_spared_iff h]

theorem safe_releaseInstance_iff (h : s.Inv before) :
    s.Spares (s.call .releaseInstance).accesses ↔
      (.createInstance ∈ before → managerAlive before = true) := by
  have happ : s.Spares (s.appInstance.toList.map fun a => ⟨.delete, .usbdevmanApp a⟩) := by
    cases happ : s.appInstance with
    | none => simp
    | some a => simp [(h.app_live a happ).1]
  rw [call_releaseInstance, spares_append, and_iff_left happ]
  cases hm : s.pasmgr with
  | none => simp [h.pasmgr.mp hm]
  | some m => simp [mem_of_pasmgr h hm, manager_spared_iff h hm]

/-- Through a pointer that is NULL no object is touched. -/
theorem call_of_pasmgr_none {c : NativeCall} {ret : Int64} (h : s.pasmgr = none)
    (hc : c.errorCode = some ret) : s.call c = ⟨ret, [], s⟩ := by
  cases c with
  | setVerbose verbose => cases hc
  | createInstance => cases hc
  | releaseInstance => cases hc
  | detectDevices findClass init listed ret =>
    cases hc
    rw [NativeState.call, h]
  | checkDevice controller ret =>
    cases hc
    rw [NativeState.call, h]
  | releaseDevice removeDevice ret =>
    cases hc
    rw [NativeState.call, h]
  | usbDevice call =>
    cases hc
    rw [NativeState.call, h]

/-- A call that asks for a manager, through a pointer that is set. -/
theorem safe_asking_iff (h : s.Inv before) (hm : s.pasmgr = some m) {c : NativeCall} {ret : Int64}
    (hc : c.errorCode = some ret) :
    (s.Spares (s.call c).accesses ∧ (managerAlive before = false → (s.call c).ret = ret)) ↔
      managerAlive before = true ∧ (c.PollsTheapp → .releaseInstance ∉ before) := by
  cases c with
  | setVerbose verbose => cases hc
  | createInstance => cases hc
  | releaseInstance => cases hc
  | detectDevices findClass init listed ret =>
    cases hc
    exact safe_detectDevices_iff h hm findClass init listed ret
  | checkDevice controller ret =>
    refine asked_iff h hm True _ (.inl trivial) ?_
    rw [NativeState.call, hm, NativeCall.PollsTheapp]
    simp [spares_pollInstance h controller, manager_spared_iff h hm, pollTheapp_spared_iff h,
      and_comm]
  | releaseDevice removeDevice ret =>
    refine asked_iff h hm True _ (.inl trivial) ?_
    rw [NativeState.call, hm, NativeCall.PollsTheapp]
    simp [manager_spared_iff h hm, pollTheapp_spared_iff h]
  | usbDevice call =>
    cases hc
    rw [NativeState.call, hm]
    exact safe_usbDevice_iff h hm call

/-- **Which call is safe**, after any others. -/
theorem safe_iff_allowed (before : List NativeCall) (c : NativeCall) :
    c.Safe before ↔ c.Allowed before := by
  have h := inv_after before
  rw [NativeCall.Safe, NativeCall.Allowed]
  generalize NativeState.after before = s at h ⊢
  cases hc : c.errorCode with
  | some ret =>
    simp only [Option.some.injEq, forall_eq', ne_eq, reduceCtorEq, not_false_eq_true, true_or,
      true_imp_iff]
    cases hm : s.pasmgr with
    | none =>
      rw [call_of_pasmgr_none hm hc]
      simp [h.pasmgr.mp hm]
    | some m =>
      rw [safe_asking_iff h hm hc]
      simp [mem_of_pasmgr h hm]
  | none =>
    cases c with
    | setVerbose verbose => simp [NativeState.call]
    | createInstance => simp [NativeState.call]
    | releaseInstance => simp [safe_releaseInstance_iff h, NativeCall.PollsTheapp]
    | detectDevices findClass init listed ret => cases hc
    | checkDevice controller ret => cases hc
    | releaseDevice removeDevice ret => cases hc
    | usbDevice call => cases hc

end Safe

/-- **When the life cycle is safe.**  In a run of native calls no call reads or deletes a deleted
object, and each answers its error code without a manager, if and only if, once a manager was
created, a call that asks for it or deletes it is made only while one is alive, and one that polls
the flag through `theapp` only before the first release. -/
theorem lifecycle_exact (calls : List NativeCall) :
    (∀ before c after, calls = before ++ c :: after → c.Safe before) ↔
      ∀ before c after, calls = before ++ c :: after → c.Allowed before := by
  simp only [safe_iff_allowed]

/-- After a release, a scan goes through the deleted manager… -/
theorem lifecycle_unsafe :
    ¬ ∀ before c after,
      [.createInstance, .releaseInstance, .detectDevices true true false 0] = before ++ c :: after →
        NativeCall.Safe before c := by
  intro h
  have hsafe := h [.createInstance, .releaseInstance] (.detectDevices true true false 0) [] rfl
  exact hsafe.1 ⟨.read, .devicemanager 0⟩ (by decide) (by decide) (by decide)

/-- …and a second release deletes it again. -/
example : ¬ NativeCall.releaseInstance.Safe [.createInstance, .releaseInstance] := fun h =>
  h.1 ⟨.delete, .devicemanager 0⟩ (by decide) (by decide) (by decide)

end MtpRetag
