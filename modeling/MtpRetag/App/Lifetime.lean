import MtpRetag.App.Moves

/-!
# App/Lifetime — devices that are deleted while a transfer uses them

`sendFile` takes a device pointer out of the registry and goes on with it outside the lock;
`release_device` and `clear_devices` delete what is in the registry.  New devices get new objects
(`Fresh`), so the only way to a deleted device is the one a transfer already has in hand.  Neither
the handlers that disconnect nor a scan look whether one does: `undeleted_run_iff` says at which
moments of a run they must not come.
-/

namespace MtpRetag

/-! ## The registry -/

/-- The registry holds each object once, and no deleted one. -/
structure DeviceState.Fresh (d : DeviceState) : Prop where
  inj : ∀ {k k' : WStr} {p : ℕ}, d.listDevices.lookup k = some p →
    d.listDevices.lookup k' = some p → k = k'
  lt : ∀ {k : WStr} {p : ℕ}, d.listDevices.lookup k = some p → p < d.nextDevice
  live : ∀ {k : WStr} {p : ℕ}, d.listDevices.lookup k = some p → p ∉ d.deleted
  deleted_lt : ∀ p ∈ d.deleted, p < d.nextDevice

section Registry

variable {d d' : DeviceState}

theorem mem_registered {p : ℕ} : p ∈ d.registered ↔ ∃ k, d.listDevices.lookup k = some p := by
  simp only [DeviceState.registered, List.mem_map, Sigma.exists]
  constructor
  · rintro ⟨k, p, hmem, rfl⟩
    exact ⟨k, AList.mem_lookup_iff.mpr hmem⟩
  · rintro ⟨k, hk⟩
    exact ⟨k, p, AList.mem_lookup_iff.mp hk, rfl⟩

theorem fresh_init : State.init.toDeviceState.Fresh where
  inj hk := by simp [State.init] at hk
  lt hk := by simp [State.init] at hk
  live hk := by simp [State.init] at hk
  deleted_lt p hp := by simp [State.init] at hp

theorem fresh_clearDevices (hd : d.Fresh) : d.clearDevices.Fresh where
  inj hk := by simp [DeviceState.clearDevices] at hk
  lt hk := by simp [DeviceState.clearDevices] at hk
  live hk := by simp [DeviceState.clearDevices] at hk
  deleted_lt p hp := by
    rcases List.mem_append.mp hp with hp | hp
    · obtain ⟨k, hk⟩ := mem_registered.mp hp
      exact hd.lt hk
    · exact hd.deleted_lt p hp

theorem fresh_register (hd : d.Fresh) (canonical : WStr) : (d.register canonical).Fresh := by
  have hcases : ∀ {k p}, (d.register canonical).listDevices.lookup k = some p →
      (k = canonical ∧ p = d.nextDevice) ∨ d.listDevices.lookup k = some p := fun {k p} hk => by
    rw [DeviceState.register] at hk
    by_cases hkc : k = canonical
    · subst hkc
      rw [AList.lookup_insert] at hk
      exact .inl ⟨rfl, (Option.some.inj hk).symm⟩
    · rw [AList.lookup_insert_ne hkc] at hk
      exact .inr hk
  have hnext : (d.register canonical).nextDevice = d.nextDevice + 1 := rfl
  refine ⟨fun {k k' p} hk hk' => ?_, fun {k p} hk => ?_, fun {k p} hk hp => ?_, fun p hp => ?_⟩
  · rcases hcases hk with ⟨hkc, hp⟩ | hold
    · rcases hcases hk' with ⟨hkc', -⟩ | hold'
      · rw [hkc, hkc']
      · exact absurd (hd.lt hold') (by omega)
    · rcases hcases hk' with ⟨-, hp⟩ | hold'
      · exact absurd (hd.lt hold) (by omega)
      · exact hd.inj hold hold'
  · rcases hcases hk with ⟨-, rfl⟩ | hk
    · omega
    · have := hd.lt hk
      omega
  · rcases hcases hk with ⟨-, rfl⟩ | hk
    · exact absurd (hd.deleted_lt _ hp) (lt_irrefl _)
    · exact hd.live hk hp
  · have := hd.deleted_lt p hp
    omega

theorem fresh_foldl_register :
    ∀ (found : List WStr) {d : DeviceState}, d.Fresh → (found.foldl DeviceState.register d).Fresh
  | [], _, hd => hd
  | canonical :: found, _, hd => fresh_foldl_register found (fresh_register hd canonical)

theorem fresh_releaseDevice (hd : d.Fresh) (devid : WStr) : (d.releaseDevice devid).Fresh := by
  rw [DeviceState.releaseDevice]
  cases hlookup : d.listDevices.lookup devid with
  | none => exact hd
  | some usbdev =>
    have herase : ∀ {k p}, (d.listDevices.erase devid).lookup k = some p →
        k ≠ devid ∧ d.listDevices.lookup k = some p := fun {k p} hk => by
      by_cases hkd : k = devid
      · subst hkd
        simp at hk
      · exact ⟨hkd, by rwa [AList.lookup_erase_ne hkd] at hk⟩
    refine ⟨fun hk hk' => hd.inj (herase hk).2 (herase hk').2, fun hk => hd.lt (herase hk).2,
      fun {k p} hk hp => ?_, fun p hp => ?_⟩
    · rcases List.mem_cons.mp hp with rfl | hp
      · exact (herase hk).1 (hd.inj (herase hk).2 hlookup)
      · exact hd.live (herase hk).2 hp
    · rcases List.mem_cons.mp hp with rfl | hp
      · exact hd.lt hlookup
      · exact hd.deleted_lt p hp

theorem deleted_foldl_register :
    ∀ (found : List WStr) (d : DeviceState),
      (found.foldl DeviceState.register d).deleted = d.deleted
  | [], _ => rfl
  | canonical :: found, d => deleted_foldl_register found (d.register canonical)

/-- A move deletes what it says, -/
theorem deleted_of_deviceMove {l : List ℕ} (h : DeviceMove d l d') :
    d'.deleted = l ++ d.deleted := by
  cases h with
  | rest | assign => rfl
  | refresh found => exact deleted_foldl_register found d.clearDevices
  | release jdev =>
    rw [DeviceState.releaseDevice]
    cases d.listDevices.lookup jdev <;> rfl

/-- …and keeps the registry fresh. -/
theorem fresh_of_deviceMove {l : List ℕ} (h : DeviceMove d l d') (hd : d.Fresh) : d'.Fresh := by
  cases h with
  | rest => exact hd
  | assign usbDevice => exact ⟨hd.inj, hd.lt, hd.live, hd.deleted_lt⟩
  | refresh found => exact fresh_foldl_register found (fresh_clearDevices hd)
  | release jdev => exact fresh_releaseDevice hd jdev

end Registry

/-! ## Runs -/

/-- No `sendFile` call is at work with a deleted device. -/
def State.Undeleted (s : State) : Prop := ∀ w ∈ s.workers, ∀ p ∈ w.pc.usbdev, p ∉ s.deleted

instance (s : State) : Decidable s.Undeleted :=
  inferInstanceAs (Decidable (∀ w ∈ s.workers, ∀ p ∈ w.pc.usbdev, p ∉ s.deleted))

/-- A worker is in `transfer_file` with the device that is registered under a name… -/
def State.TransfersTo (s : State) (jdev : WStr) : Prop :=
  ∃ w ∈ s.workers, ∃ p ∈ w.pc.usbdev, s.listDevices.lookup jdev = some p

/-- …or with any registered device. -/
def State.Transfers (s : State) : Prop := ∃ w ∈ s.workers, ∃ p ∈ w.pc.usbdev, p ∈ s.registered

/-- No Disconnect, and no close of a connected window, while a worker transfers to the device that
is registered under the name of `usbDevice`; and no scan that clears the registry while one
transfers to any registered device. -/
def SparesTransfers (s : State) : Act → Prop
  | .clickConnect scan =>
    if s.connected then ∀ jdev ∈ s.usbDevice, ¬ s.TransfersTo jdev
    else scan.refreshed ≠ none → ¬ s.Transfers
  | .answer ok scan => ok = true → scan.refreshed ≠ none → ¬ s.Transfers
  | .close => s.connected = true → ∀ jdev ∈ s.usbDevice, ¬ s.TransfersTo jdev
  | _ => True

section Run

variable {s s' : State} {a : Act}

/-- What `usbDisconnect` deletes is in no transfer. -/
theorem deletedByDisconnect_spares_iff :
    (∀ jdev ∈ s.usbDevice, ¬ s.TransfersTo jdev) ↔
      ∀ w ∈ s.workers, ∀ p ∈ w.pc.usbdev, p ∉ s.deletedByDisconnect := by
  rw [DeviceState.deletedByDisconnect]
  cases s.usbDevice with
  | none => simp
  | some jdev => simp [State.TransfersTo]

/-- What a scan deletes is in no transfer. -/
theorem deletedByScan_spares_iff (scan : DeviceScan) :
    (scan.refreshed ≠ none → ¬ s.Transfers) ↔
      ∀ w ∈ s.workers, ∀ p ∈ w.pc.usbdev, p ∉ s.deletedByScan scan := by
  rw [DeviceState.deletedByScan]
  split
  case isTrue hnone => simp [hnone]
  case isFalse hsome => simp [hsome, State.Transfers]

/-- **These are the moments** at which a step deletes a device that a call is at work with. -/
theorem sparesTransfers_iff :
    SparesTransfers s a ↔ ∀ w ∈ s.workers, ∀ p ∈ w.pc.usbdev, p ∉ s.deletes a := by
  cases a with
  | clickConnect scan =>
    rw [SparesTransfers, State.deletes]
    split
    · exact deletedByDisconnect_spares_iff
    · exact deletedByScan_spares_iff scan
  | answer ok scan =>
    rw [SparesTransfers, State.deletes]
    cases ok with
    | false => simp
    | true => simpa using deletedByScan_spares_iff scan
  | close =>
    rw [SparesTransfers, State.deletes]
    split
    case isTrue hconnected => simpa [hconnected] using deletedByDisconnect_spares_iff
    case isFalse hconnected => simp [hconnected]
  | editList | clickCopy | dismiss | deliver | gui | readTags | wake | work =>
    simp [SparesTransfers, State.deletes]

/-- After a step, a worker's device is one it had, or one of the registry. -/
theorem usbdev_move (hmove : Move s a s') {w : Worker} (hw : w ∈ s'.workers) {p : ℕ}
    (hp : w.pc.usbdev = some p) :
    (∃ w ∈ s.workers, w.pc.usbdev = some p) ∨ ∃ k, s.listDevices.lookup k = some p := by
  rcases origin_of_move hmove hw with hw | rfl | ⟨-, hw₀, rfl⟩ | ⟨hw₀, hnext, rfl⟩
  · exact .inl ⟨w, hw, hp⟩
  · simp [Worker.new, WorkerPc.usbdev] at hp
  · exact .inl ⟨_, hw₀, hp⟩
  · rcases usbdev_next hnext hp with hp | ⟨jdev, hjdev⟩
    · exact .inl ⟨_, List.mem_of_getElem? hw₀, hp⟩
    · exact .inr ⟨jdev, hjdev⟩

/-- The steps that delete leave the workers alone. -/
theorem workers_of_deletes (hmove : Move s a s') {p : ℕ} (hp : p ∈ s.deletes a) :
    s'.workers = s.workers := by
  cases hmove with
  | rest hcopy => rw [hcopy]
  | setup | enqueue | deliver => rfl
  | launch | stepProgressBar | cancel | work => simp [State.deletes] at hp

theorem undeleted_step (hs : s.Undeleted) (hd : s.toDeviceState.Fresh) (hok : SparesTransfers s a)
    (h : s.step a = some s') : s'.Undeleted := fun w hw p hp => by
  have hmove := (moves_of_step h).copy
  rw [deleted_of_deviceMove (moves_of_step h).device, List.mem_append, not_or]
  constructor
  · intro hdel
    rw [workers_of_deletes hmove hdel] at hw
    exact sparesTransfers_iff.mp hok w hw p hp hdel
  · rcases usbdev_move hmove hw hp with ⟨w₀, hw₀, hp₀⟩ | ⟨k, hk⟩
    · exact hs w₀ hw₀ p hp₀
    · exact hd.live hk

/-- A step that deletes a device in use leaves a call at work with a deleted device. -/
theorem not_undeleted_of_deletes (hbad : ¬ SparesTransfers s a) (h : s.step a = some s') :
    ¬ s'.Undeleted := by
  rw [sparesTransfers_iff] at hbad
  push Not at hbad
  obtain ⟨w, hw, p, hp, hdel⟩ := hbad
  rw [← workers_of_deletes (moves_of_step h).copy hdel] at hw
  intro hs'
  refine hs' w hw p hp ?_
  rw [deleted_of_deviceMove (moves_of_step h).device]
  exact List.mem_append_left _ hdel

end Run

/-- **No transfer uses a deleted device, exactly when no Disconnect, no close and no scan comes
while a worker transfers to a device that it deletes.** -/
theorem undeleted_run_iff (as : List Act) :
    (∀ e ∈ Transition.fired State.step .init as, e.post.Undeleted) ↔
      ∀ e ∈ Transition.fired State.step .init as, SparesTransfers e.pre e.label :=
  Transition.forall_post_iff (fun s => s.Undeleted ∧ s.toDeviceState.Fresh) State.Undeleted
    SparesTransfers (fun _ => True)
    (fun _ _ _ _ hs hok hstep => ⟨undeleted_step hs.1 hs.2 hok hstep,
      fresh_of_deviceMove (moves_of_step hstep).device hs.2⟩)
    (fun _ hs => hs.1)
    (fun _ _ _ _ _ hbad hstep => not_undeleted_of_deletes hbad hstep)
    as (fun _ _ => trivial) ⟨by simp [State.Undeleted, State.init], fresh_init⟩

/-- A copy to a connected device, and a click on Disconnect during the transfer. -/
def disconnectDuringTransfer : List Act :=
  connectPlayer ++ copyOneFile (wide "C:\\a.mp3") ++ ticks 0 9 ++ [.clickConnect ⟨none, []⟩]

theorem not_undeleted_disconnectDuringTransfer :
    ¬ ∀ e ∈ Transition.fired State.step .init disconnectDuringTransfer, e.post.Undeleted := by
  decide

end MtpRetag
