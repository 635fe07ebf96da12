import MtpRetag.Native.Descriptors

/-!
# Native/CheckDevice — is a device still attached?

`check_device` looks behind the root hubs of up to ten host controllers.  A controller or a hub that
does not answer is passed over; a port that does not answer ends the scan of its hub, as it does in
`get_descriptor_props`.  One variable, `ret`, is the `BOOL` of each call, the error code behind the
`catch`, and what is returned.

`checkDevice_eq_zero_iff` says which ports are seen.
-/

namespace MtpRetag

/-- What the root hub of a controller answers: the error of `CreateFile`, the one of
`IOCTL_USB_GET_NODE_INFORMATION`, or its ports. -/
inductive RootHub
  | notOpened (err : Int32)
  | notQueried (err : Int32)
  | ports (nodes : List UsbNode)

/-- A host controller: whether it can be opened, whether it tells the name of its root hub, and the
hub of that name. -/
structure HostController where
  opened : Bool
  rootHubName : Bool
  rootHub : RootHub

/-! ## `check_device` -/

/-- `name_serial_vid_pid`, in lower case. -/
def UsbPort.checkId (port : UsbPort) : WStr :=
  makeLower (cStr port.name ++ wide "_" ++ cStr port.serial ++ wide "_" ++ hex4 true port.vid ++
    wide "_" ++ hex4 true port.pid)

/-- The port holds the device that is asked for. -/
def UsbNode.Answers (devid : WStr) (node : UsbNode) : Prop :=
  ¬ node.deviceIsHub ∧ devid.map towlower = node.port.checkId

instance (devid : WStr) : DecidablePred (UsbNode.Answers devid) :=
  fun _ => inferInstanceAs (Decidable (_ ∧ _))

/-- The port loop: `ret`, and what is thrown. -/
def checkPorts (devid : WStr) (ret : Int32) : List UsbNode → Int32 × Option Int32
  | [] => (ret, none)
  | node :: nodes =>
    match node.failed with
    | some err => (0, some err)
    -- the device is found by an exception, too
    | none => if node.Answers devid then (0, some 0) else checkPorts devid 1 nodes

/-- The `try` block. -/
def checkRootHub (devid : WStr) (ret : Int32) : RootHub → Int32 × Option Int32
  | .notOpened err => (ret, some err)
  | .notQueried err => (0, some err)
  | .ports nodes => checkPorts devid 1 nodes

/-- `catch(DWORD lasterr)`. -/
def catchLasterr : Int32 × Option Int32 → Int32
  | (ret, none) => ret
  | (ret, some lasterr) => if lasterr ≠ 0 then lasterr else ret

/-- The loop over the host controllers. -/
def checkControllers (devid : WStr) : List HostController → Int32 → Int32
  | [], ret => ret
  | controller :: controllers, ret =>
    if ¬ controller.opened then checkControllers devid controllers ret
    else if ¬ controller.rootHubName then checkControllers devid controllers ret
    else
      let ret := catchLasterr (checkRootHub devid ret controller.rootHub)
      if ret = 0 then ret else checkControllers devid controllers ret

/-- `devicemanager::check_device`; `hcd i` is the host controller `\\.\HCDi`. -/
def checkDevice (hcd : ℕ → HostController) (devid : WStr) : Int32 :=
  checkControllers devid ((List.range 10).map hcd) 1

/-! ## Which ports are seen -/

/-- The ports of a root hub, if it answers… -/
def RootHub.nodes : RootHub → List UsbNode
  | .ports nodes => nodes
  | _ => []

/-- …and those that a controller gives access to. -/
def HostController.nodes (controller : HostController) : List UsbNode :=
  if controller.opened ∧ controller.rootHubName then controller.rootHub.nodes else []

/-- A failed call leaves an error code. -/
def RootHub.FailuresCoded : RootHub → Prop
  | .notOpened err => err ≠ 0
  | .notQueried err => err ≠ 0
  | .ports nodes => ∀ node ∈ nodes, node.failed ≠ some 0

/-- A port that holds the device, queried like every port of its hub before it. -/
abbrev AnswersAt (devid : WStr) (nodes : List UsbNode) (i : ℕ) (node : UsbNode) : Prop :=
  Scan.Hits UsbNode.failed (UsbNode.Answers devid) nodes i node

section Check

variable {devid : WStr}

/-- The port loop is a scan. -/
theorem catchLasterr_checkPorts {ret : Int32} (hret : ret ≠ 0) :
    ∀ nodes : List UsbNode,
      (catchLasterr (checkPorts devid ret nodes) = 0 ↔
        match Scan.run UsbNode.failed (UsbNode.Answers devid) nodes with
        | .exhausted => False
        | .failed err => err = 0
        | .found _ => True)
  | [] => iff_of_false hret id
  | node :: nodes => by
      rw [checkPorts, Scan.run]
      rcases node.failed with _ | err
      · dsimp only
        by_cases h : node.Answers devid
        · rw [if_pos h, if_pos h]
          exact iff_of_true rfl trivial
        · rw [if_neg h, if_neg h]
          exact catchLasterr_checkPorts (by decide) nodes
      · dsimp only [catchLasterr]
        by_cases herr : err = 0
        · rw [if_neg (not_not.mpr herr)]
          exact iff_of_true rfl herr
        · rw [if_pos herr]

/-- **The code of a root hub** is zero if and only if a port answers. -/
theorem catchLasterr_checkRootHub {ret : Int32} {hub : RootHub} (hcoded : hub.FailuresCoded) :
    catchLasterr (checkRootHub devid ret hub) = 0 ↔
      ∃ i node, AnswersAt devid hub.nodes i node := by
  rcases hub with err | err | nodes
  · have hcode : catchLasterr (checkRootHub devid ret (.notOpened err)) = err := if_pos hcoded
    rw [hcode]
    exact iff_of_false hcoded fun ⟨_, _, h⟩ => Scan.not_hits_nil h
  · have hcode : catchLasterr (checkRootHub devid ret (.notQueried err)) = err := if_pos hcoded
    rw [hcode]
    exact iff_of_false hcoded fun ⟨_, _, h⟩ => Scan.not_hits_nil h
  · rw [checkRootHub, catchLasterr_checkPorts (by decide), RootHub.nodes,
      ← Scan.exists_run_eq_found_iff]
    rcases hrun : Scan.run UsbNode.failed (UsbNode.Answers devid) nodes with _ | err | node
    · exact iff_of_false id fun ⟨_, h⟩ => nomatch h
    · obtain ⟨node, hnode, hfailed⟩ := Scan.exists_of_run_eq_failed hrun
      refine iff_of_false (fun herr : err = 0 => ?_) fun ⟨_, h⟩ => nomatch h
      exact hcoded node hnode (herr ▸ hfailed)
    · exact iff_of_true trivial ⟨node, rfl⟩

/-- A controller that gives access to no hub is passed over. -/
theorem checkControllers_cons_of_not_opened {controller : HostController}
    (h : ¬ (controller.opened = true ∧ controller.rootHubName = true))
    (controllers : List HostController) (ret : Int32) :
    checkControllers devid (controller :: controllers) ret =
      checkControllers devid controllers ret := by
  rw [checkControllers]
  by_cases hopened : controller.opened = true
  · rw [if_neg (not_not.mpr hopened), if_pos fun hname => h ⟨hopened, hname⟩]
  · rw [if_pos hopened]

/-- So is a hub that does not answer: its code is not zero, and the loop goes on. -/
theorem checkControllers_eq_zero_iff :
    ∀ {controllers : List HostController} {ret : Int32}, ret ≠ 0 →
      (∀ controller ∈ controllers, controller.rootHub.FailuresCoded) →
        (checkControllers devid controllers ret = 0 ↔
          ∃ controller ∈ controllers, ∃ i node, AnswersAt devid controller.nodes i node)
  | [], ret, hret, _ => iff_of_false hret fun ⟨_, h, _⟩ => List.not_mem_nil h
  | controller :: controllers, ret, hret, hcoded => by
      have hrest : ∀ c ∈ controllers, c.rootHub.FailuresCoded :=
        fun c hc => hcoded c (List.mem_cons_of_mem controller hc)
      rw [List.exists_mem_cons_iff, HostController.nodes]
      by_cases hopened : controller.opened = true ∧ controller.rootHubName = true
      · have hhub : catchLasterr (checkRootHub devid ret controller.rootHub) = 0 ↔ _ :=
          catchLasterr_checkRootHub (hcoded controller List.mem_cons_self)
        rw [checkControllers, if_neg (not_not.mpr hopened.1), if_neg (not_not.mpr hopened.2),
          if_pos hopened, ← hhub]
        dsimp only
        by_cases hcode : catchLasterr (checkRootHub devid ret controller.rootHub) = 0
        · rw [if_pos hcode]
          exact iff_of_true hcode (.inl hcode)
        · rw [if_neg hcode, checkControllers_eq_zero_iff hcode hrest]
          exact (or_iff_right hcode).symm
      · rw [checkControllers_cons_of_not_opened hopened, if_neg hopened,
          checkControllers_eq_zero_iff hret hrest]
        exact (or_iff_right fun ⟨_, _, h⟩ => Scan.not_hits_nil h).symm

end Check

/-- **Which devices are attached.**  `check_device` returns 0 if and only if the device is behind a
port of one of the ten root hubs that was queried like every port of that hub before it. -/
theorem checkDevice_eq_zero_iff (hcd : ℕ → HostController) (devid : WStr)
    (hcoded : ∀ i < 10, (hcd i).rootHub.FailuresCoded) :
    checkDevice hcd devid = 0 ↔ ∃ i < 10, ∃ j node, AnswersAt devid (hcd i).nodes j node := by
  have hall : ∀ controller ∈ (List.range 10).map hcd, controller.rootHub.FailuresCoded := by
    intro controller hmem
    obtain ⟨i, hi, rfl⟩ := List.mem_map.mp hmem
    exact hcoded i (List.mem_range.mp hi)
  rw [checkDevice, checkControllers_eq_zero_iff (by decide) hall]
  constructor
  · rintro ⟨_, hmem, h⟩
    obtain ⟨i, hi, rfl⟩ := List.mem_map.mp hmem
    exact ⟨i, List.mem_range.mp hi, h⟩
  · rintro ⟨i, hi, h⟩
    exact ⟨hcd i, List.mem_map_of_mem (List.mem_range.mpr hi), h⟩

/-- Two host controllers: the hub of the first cannot be opened, the second has these ports. -/
def HostController.two (nodes : List UsbNode) : ℕ → HostController
  | 0 => ⟨true, true, .notOpened 5⟩
  | 1 => ⟨true, true, .ports nodes⟩
  | _ => ⟨false, false, .ports []⟩

/-- The closed hub does not hide the device, nor does the broken port behind it. -/
theorem checkDevice_eq_zero_iff_player :
    checkDevice (.two [.subHub, .player, .broken]) (wide "O_n_0e79_1306") = 0 := by
  have hcoded : ∀ i < 10,
      (HostController.two [.subHub, .player, .broken] i).rootHub.FailuresCoded := by
    rintro (_ | _ | i) -
    · exact fun h : (5 : Int32) = 0 => absurd h (by decide)
    · have hports : ∀ node ∈ [UsbNode.subHub, .player, .broken], node.failed ≠ some 0 := by decide
      exact hports
    · exact fun node hnode => absurd hnode List.not_mem_nil
  have hplayer : UsbNode.player.Answers (wide "O_n_0e79_1306") := by decide
  exact (checkDevice_eq_zero_iff _ _ hcoded).mpr
    ⟨1, by decide, 1, .player,
      Scan.hits_cons_succ.mpr ⟨rfl, Scan.hits_cons_zero.mpr ⟨rfl, hplayer, rfl⟩⟩⟩

/-- A broken port hides the device behind the next one. -/
theorem player_hidden :
    checkDevice (.two [.broken, .player]) (wide "O_n_0e79_1306") = 31 ∧
      ∃ i < 10, ∃ node ∈ (HostController.two [.broken, .player] i).nodes,
        node.failed = none ∧ node.Answers (wide "O_n_0e79_1306") :=
  ⟨by decide, 1, by decide, .player, List.mem_cons_of_mem _ List.mem_cons_self, rfl, by decide⟩

end MtpRetag
