import MtpRetag.Native.Refresh

/-!
# Native/Canonical — the device id in a canonical name

The canonical name of a USB device is its instance id, with `#` for `\`, between `\\?\` and the GUID
of its interface; a number behind a `$` tells several devices of one id apart.  `detect_devices_mtp`
takes the id and the number out of the lower-case name again.

`canonicalName_inverts` says that it gets back what was put in, up to letter case.
-/

namespace MtpRetag

/-! ## The format -/

/-- The separator in a canonical name. -/
def sharp : WChar := 35

/-- …and the one before a device index. -/
def dollar : WChar := 36

/-- What the canonical name of a USB device is made of. -/
structure UsbName where
  hardware : WStr
  serial : WStr
  guid : WStr
  index : Option ℕ
  hardware_ne_nil : hardware ≠ []
  serial_ne_nil : serial ≠ []
  hardware_plain : backslash ∉ hardware ∧ sharp ∉ hardware ∧ dollar ∉ hardware
  serial_plain : backslash ∉ serial ∧ sharp ∉ serial ∧ dollar ∉ serial
  guid_plain : sharp ∉ guid ∧ dollar ∉ guid
  index_lt : ∀ i ∈ index, i < 2 ^ 31

namespace UsbName

/-- The instance id `usb\hardware\serial`. -/
def instanceId (n : UsbName) : WStr := wide "usb\\" ++ n.hardware ++ backslash :: n.serial

/-- `$` and the device index, in decimal. -/
def suffix (n : UsbName) : WStr := n.index.elim [] fun i => dollar :: wide (toString i)

/-- The canonical name. -/
def canonicalName (n : UsbName) : WStr :=
  wide "\\\\?\\" ++ n.instanceId.map (fun c => if c = backslash then sharp else c) ++ sharp :: n.guid ++
    n.suffix

end UsbName

/-! ## Letter case -/

/-- Only capital letters change. -/
theorem towlower_eq_iff {c d : WChar} (hupper : ¬ (65 ≤ d ∧ d ≤ 90)) (hlower : ¬ (97 ≤ d ∧ d ≤ 122)) :
    towlower c = d ↔ c = d := by
  rw [towlower]
  split
  case isFalse => rfl
  case isTrue h =>
    have h65 : 65 ≤ c.toNat := UInt16.le_iff_toNat_le.mp h.1
    have h90 : c.toNat ≤ 90 := UInt16.le_iff_toNat_le.mp h.2
    have hadd : (c + 32).toNat = c.toNat + 32 := by
      rw [UInt16.toNat_add, Nat.mod_eq_of_lt]
      · rfl
      · change c.toNat + 32 < 65536
        omega
    refine iff_of_false (fun hc => hlower ?_) fun hc => hupper (hc ▸ h)
    rw [← hc, UInt16.le_iff_toNat_le, UInt16.le_iff_toNat_le, hadd]
    exact ⟨show 97 ≤ _ by omega, show _ ≤ 122 by omega⟩

theorem mem_makeLower_iff {s : WStr} {d : WChar} (hupper : ¬ (65 ≤ d ∧ d ≤ 90))
    (hlower : ¬ (97 ≤ d ∧ d ≤ 122)) : d ∈ makeLower s ↔ d ∈ s := by
  rw [makeLower, List.mem_map]
  simp only [towlower_eq_iff hupper hlower, exists_eq_right]

theorem makeLower_append (s t : WStr) : makeLower (s ++ t) = makeLower s ++ makeLower t :=
  List.map_append

/-! ## Decimal numbers -/

/-- A string of digits is read as their value, up to the largest `int`. -/
theorem wtoi_of_digits {s : WStr} (hne : s ≠ []) (hdigit : ∀ c ∈ s, 48 ≤ c ∧ c ≤ 57) :
    wtoi s = Int32.ofNat (min (s.foldl (fun n c => 10 * n + (c.toNat - 48)) 0) (2 ^ 31 - 1)) := by
  obtain ⟨c, t, rfl⟩ := List.exists_cons_of_ne_nil hne
  have h48 : 48 ≤ c.toNat := UInt16.le_iff_toNat_le.mp (hdigit c List.mem_cons_self).1
  have hspace : ¬ (c = 32 ∨ (9 ≤ c ∧ c ≤ 13)) := by
    rintro (rfl | ⟨-, h13⟩)
    · exact absurd h48 (by decide)
    · have : c.toNat ≤ 13 := UInt16.le_iff_toNat_le.mp h13
      omega
  have hminus : ¬ (c :: t).head? = some 45 := by
    rintro ⟨⟩
    exact absurd h48 (by decide)
  have hplus : ¬ (c :: t).head? = some 43 := by
    rintro ⟨⟩
    exact absurd h48 (by decide)
  have htake : (c :: t).takeWhile (fun c => 48 ≤ c ∧ c ≤ 57) = c :: t :=
    List.takeWhile_eq_self_iff.mpr fun d hd => by simpa using hdigit d hd
  rw [wtoi, List.dropWhile_cons_of_neg (by simpa using hspace)]
  rw [if_neg hminus, if_neg (not_or.mpr ⟨hminus, hplus⟩), htake]

/-- The digits of a number, as characters of the string. -/
theorem wide_toString (i : ℕ) :
    wide (toString i) = (Nat.toDigits 10 i).map fun c => c.toNat.toUInt16 := by
  rw [wide, Nat.toString_eq_ofList_toDigits, String.toList_ofList]

theorem toNat_digit {c : Char} (h : c.isDigit = true) :
    c.toNat.toUInt16.toNat = c.toNat ∧ 48 ≤ c.toNat ∧ c.toNat ≤ 57 := by
  obtain ⟨hlo, hhi⟩ : 48 ≤ c.toNat ∧ c.toNat ≤ 57 := by
    simpa [Char.isDigit, UInt32.le_iff_toNat_le] using h
  exact ⟨Nat.mod_eq_of_lt (show c.toNat < 65536 by omega), hlo, hhi⟩

theorem digit_of_mem_wide_toString {i : ℕ} {c : WChar} (h : c ∈ wide (toString i)) :
    48 ≤ c ∧ c ≤ 57 := by
  rw [wide_toString] at h
  obtain ⟨d, hd, rfl⟩ := List.mem_map.mp h
  obtain ⟨hval, hlo, hhi⟩ := toNat_digit (Nat.isDigit_of_mem_toDigits (by decide) (by decide) hd)
  rw [UInt16.le_iff_toNat_le, UInt16.le_iff_toNat_le, hval]
  exact ⟨hlo, hhi⟩

/-- The fold of `_wtoi` is the one over the characters of Lean. -/
theorem foldl_map_toUInt16 :
    ∀ {cs : List Char}, (∀ c ∈ cs, c.isDigit = true) → ∀ n : ℕ,
      (cs.map fun c => c.toNat.toUInt16).foldl (fun n c => 10 * n + (c.toNat - 48)) n =
        Nat.ofDigitChars 10 cs n
  | [], _, n => rfl
  | c :: cs, h, n => by
      rw [List.map_cons, List.foldl_cons, Nat.ofDigitChars_cons,
        foldl_map_toUInt16 fun d hd => h d (List.mem_cons_of_mem c hd),
        (toNat_digit (h c List.mem_cons_self)).1]
      rfl

/-- **`_wtoi` reads what was written.** -/
theorem wtoi_wide_toString {i : ℕ} (h : i < 2 ^ 31) : wtoi (wide (toString i)) = Int32.ofNat i := by
  have hne : wide (toString i) ≠ [] := by
    rw [wide_toString]
    exact fun hnil => Nat.toDigits_ne_nil (List.map_eq_nil_iff.mp hnil)
  have hvalue : (wide (toString i)).foldl (fun n c => 10 * n + (c.toNat - 48)) 0 = i := by
    rw [wide_toString, foldl_map_toUInt16 fun c hc =>
      Nat.isDigit_of_mem_toDigits (by decide) (by decide) hc]
    exact Nat.ofDigitChars_ten_toDigits
  rw [wtoi_of_digits hne fun c hc => digit_of_mem_wide_toString hc, hvalue,
    min_eq_left (Nat.le_sub_one_of_lt h)]

/-! ## The searches -/

/-- `ReverseFind` and `Left` cut at the last separator. -/
theorem dropLast_rdropWhile {c : WChar} {a b : WStr} (hb : c ∉ b) :
    ((a ++ c :: b).rdropWhile (· ≠ c)).dropLast = a := by
  have hrev : c ∉ b.reverse := fun h => hb (List.mem_reverse.mp h)
  rw [List.rdropWhile, List.reverse_append, List.reverse_cons, List.append_assoc,
    List.singleton_append, List.dropWhile_append_of_pos (decide_ne_of_notMem hrev),
    List.dropWhile_cons_of_neg (by simp), List.reverse_cons, List.reverse_reverse,
    List.dropLast_concat]

/-- The first `usb` is the one behind `\\?\`. -/
theorem find_usb (s : WStr) : find (wide "usb") (wide "\\\\?\\usb" ++ s) = some 4 := by
  have husb : wide "usb" <+: wide "usb" ++ s := List.prefix_append _ s
  have hfind : find (wide "usb") (wide "usb" ++ s) = some 0 := if_pos husb
  have hskip : ∀ {c : WChar} {t : WStr}, c ≠ 117 →
      find (wide "usb") (c :: t) = (find (wide "usb") t).map (· + 1) := fun hc =>
    if_neg fun h => hc (List.cons_prefix_cons.mp h).1.symm
  change find (wide "usb") (92 :: 92 :: 63 :: 92 :: (wide "usb" ++ s)) = some 4
  rw [hskip (by decide), hskip (by decide), hskip (by decide), hskip (by decide), hfind]
  rfl

theorem replace_of_notMem {c d : WChar} {s : WStr} (h : c ∉ s) :
    (s.map fun x => if x = c then d else x) = s := by
  have hid : ∀ x ∈ s, (if x = c then d else x) = id x :=
    fun x hx => if_neg fun hxc : x = c => h (hxc ▸ hx)
  rw [List.map_congr_left hid, List.map_id]

/-! ## The name is read back -/

namespace UsbName

/-- A string without separators has none in lower case. -/
theorem makeLower_plain {s : WStr} (h : backslash ∉ s ∧ sharp ∉ s ∧ dollar ∉ s) :
    backslash ∉ makeLower s ∧ sharp ∉ makeLower s ∧ dollar ∉ makeLower s := by
  rw [mem_makeLower_iff (by decide) (by decide), mem_makeLower_iff (by decide) (by decide),
    mem_makeLower_iff (by decide) (by decide)]
  exact h

/-- The suffix is made of digits and a separator of its own. -/
theorem makeLower_suffix (n : UsbName) : makeLower n.suffix = n.suffix := by
  rw [suffix]
  cases n.index with
  | none => rfl
  | some i =>
    have hdigit : ∀ c ∈ wide (toString i), towlower c = id c := fun c hc =>
      if_neg fun h : 65 ≤ c ∧ c ≤ 90 =>
        absurd (UInt16.le_trans h.1 (digit_of_mem_wide_toString hc).2) (by decide)
    have hdigits : makeLower (wide (toString i)) = wide (toString i) := by
      rw [makeLower, List.map_congr_left hdigit, List.map_id]
    exact congrArg (List.cons dollar) hdigits

theorem sharp_notMem_suffix (n : UsbName) : sharp ∉ n.suffix := by
  rw [suffix]
  cases n.index with
  | none => exact List.not_mem_nil
  | some i =>
    rintro (_ | ⟨_, h⟩)
    exact absurd (digit_of_mem_wide_toString h).1 (by decide)

/-- The canonical name in lower case, cut at its separators. -/
theorem makeLower_canonicalName (n : UsbName) :
    makeLower n.canonicalName =
      (wide "\\\\?\\usb" ++ sharp :: makeLower n.hardware ++ sharp :: makeLower n.serial) ++
        sharp :: (makeLower n.guid ++ n.suffix) := by
  have hhardware := replace_of_notMem (d := sharp) n.hardware_plain.1
  have hserial := replace_of_notMem (d := sharp) n.serial_plain.1
  have hreplace : n.instanceId.map (fun c => if c = backslash then sharp else c) =
      wide "usb#" ++ n.hardware ++ sharp :: n.serial := by
    rw [instanceId, List.map_append, List.map_append, hhardware, List.map_cons, hserial]
    rfl
  have hfront : makeLower (wide "\\\\?\\") ++ makeLower (wide "usb#") = wide "\\\\?\\usb" ++ [sharp] := by
    decide
  have hsharp : ∀ s, makeLower (sharp :: s) = sharp :: makeLower s := fun _ => rfl
  rw [canonicalName, hreplace]
  simp only [makeLower_append, makeLower_suffix, hsharp, ← List.append_assoc, hfront]
  simp only [List.append_assoc, List.cons_append, List.nil_append]

/-- **The name is that of a USB device.** -/
theorem take_makeLower_canonicalName (n : UsbName) :
    (makeLower n.canonicalName).take 7 = usbPrefix := by
  rw [makeLower_canonicalName, List.append_assoc, List.append_assoc, List.take_append_of_le_length]
  · rfl
  · decide

/-- The id of a name with an `usb` before its last separator. -/
theorem deviceIdFromCanonical_append {a b : WStr} {k : ℕ} (hb : sharp ∉ b)
    (hfind : find (wide "usb") a = some k) :
    deviceIdFromCanonical (a ++ sharp :: b) =
      (a.drop k).map fun c => if c = sharp then backslash else c := by
  have hmem : sharp ∈ a ++ sharp :: b := List.mem_append_right a List.mem_cons_self
  have hcut : (if sharp ∈ a ++ sharp :: b then
      ((a ++ sharp :: b).rdropWhile (· ≠ sharp)).dropLast else a ++ sharp :: b) = a := by
    rw [if_pos hmem, dropLast_rdropWhile hb]
  have hid : deviceIdFromCanonical (a ++ sharp :: b) =
      (fun id : WStr => ((find (wide "usb") id).elim id id.drop).map
        fun c => if c = sharp then backslash else c)
          (if sharp ∈ a ++ sharp :: b then
            ((a ++ sharp :: b).rdropWhile (· ≠ sharp)).dropLast else a ++ sharp :: b) := rfl
  rw [hid, hcut]
  dsimp only
  rw [hfind]
  rfl

theorem deviceIndex_eq (s : WStr) :
    deviceIndex s = if dollar ∈ s then wtoi (s.rtakeWhile (· ≠ dollar)) else 0 := rfl

/-- **The id is found in it**, in lower case. -/
theorem deviceIdFromCanonical_canonicalName (n : UsbName) :
    deviceIdFromCanonical (makeLower n.canonicalName) = makeLower n.instanceId := by
  obtain ⟨-, hhardware, -⟩ := makeLower_plain n.hardware_plain
  obtain ⟨-, hserial, -⟩ := makeLower_plain n.serial_plain
  have hguid : sharp ∉ makeLower n.guid ++ n.suffix := by
    rw [List.mem_append, mem_makeLower_iff (by decide) (by decide)]
    exact not_or.mpr ⟨n.guid_plain.1, n.sharp_notMem_suffix⟩
  rw [makeLower_canonicalName, List.append_assoc (wide _), deviceIdFromCanonical_append hguid
    (find_usb _)]
  have hdrop : ∀ s : WStr, (wide "\\\\?\\usb" ++ s).drop 4 = wide "usb" ++ s := fun _ => rfl
  have husb : (wide "usb").map (fun c => if c = sharp then backslash else c) = wide "usb" := by
    decide
  have hlower : makeLower (wide "usb\\") = wide "usb" ++ [backslash] := by decide
  have hback : makeLower (backslash :: n.serial) = backslash :: makeLower n.serial := rfl
  rw [hdrop, List.map_append, List.map_append, List.map_cons, List.map_cons, husb,
    replace_of_notMem hhardware, replace_of_notMem hserial, if_pos rfl, instanceId,
    makeLower_append, makeLower_append, hlower, hback]
  simp only [List.append_assoc, List.cons_append, List.nil_append]

/-- **The index is found in it.** -/
theorem deviceIndex_canonicalName (n : UsbName) :
    deviceIndex (makeLower n.canonicalName) = Int32.ofNat (n.index.getD 0) := by
  obtain ⟨-, -, hhardware⟩ := makeLower_plain n.hardware_plain
  obtain ⟨-, -, hserial⟩ := makeLower_plain n.serial_plain
  have hguid : dollar ∉ makeLower n.guid := by
    rw [mem_makeLower_iff (by decide) (by decide)]
    exact n.guid_plain.2
  rw [deviceIndex_eq, makeLower_canonicalName, suffix]
  cases hindex : n.index with
  | none =>
    refine if_neg fun h => ?_
    have hfront : dollar ∉ wide "\\\\?\\usb" := by decide
    have hsharp : dollar ≠ sharp := by decide
    simp only [Option.elim_none, List.append_nil, List.mem_append, List.mem_cons, hfront, hsharp,
      hhardware, hserial, hguid, or_self] at h
  | some i =>
    have hdigits : dollar ∉ wide (toString i) := fun h =>
      absurd (digit_of_mem_wide_toString h).1 (by decide)
    have hself : (wide (toString i)).rtakeWhile (· ≠ dollar) = wide (toString i) :=
      List.rtakeWhile_eq_self_iff.mpr (decide_ne_of_notMem hdigits)
    rw [Option.elim_some, ← List.cons_append, ← List.append_assoc]
    rw [if_pos (List.mem_append_right _ List.mem_cons_self), rtakeWhile_append_cons (by simp), hself,
      wtoi_wide_toString (n.index_lt i hindex)]
    rfl

end UsbName

/-- **Canonical names are read back.**  In any letter case, the name is one of a USB device, its id
is found in lower case and its index exactly; so two devices are matched to the same enumerated id
if and only if their ids differ in letter case at most. -/
theorem canonicalName_inverts (e : MtpEntry) (n : UsbName)
    (hcase : e.canonical = makeLower n.canonicalName) :
    e.canonical.take 7 = usbPrefix ∧
    deviceIdFromCanonical e.canonical = makeLower n.instanceId ∧
    (deviceIndex e.canonical).toInt = n.index.getD 0 ∧
    ∀ (e' : MtpEntry) (n' : UsbName), e'.canonical = makeLower n'.canonicalName →
      ∀ infos infos' info info', findUsb e.canonical infos = some info →
        findUsb e'.canonical infos' = some info' →
          (info.instanceId.map makeLower = info'.instanceId.map makeLower ↔
            makeLower n.instanceId = makeLower n'.instanceId) := by
  have hfound : ∀ (e : MtpEntry) (n : UsbName), e.canonical = makeLower n.canonicalName →
      ∀ infos info, findUsb e.canonical infos = some info →
        info.instanceId.map makeLower = some (makeLower n.instanceId) := by
    intro e n hcase infos info h
    rw [← n.deviceIdFromCanonical_canonicalName, ← hcase]
    have hinfo := List.find?_some h
    exact of_decide_eq_true hinfo
  have hindex : n.index.getD 0 < 2 ^ 31 := by
    cases hindex : n.index with
    | none => decide
    | some i => exact n.index_lt i hindex
  refine ⟨?_, ?_, ?_, ?_⟩
  · rw [hcase, n.take_makeLower_canonicalName]
  · rw [hcase, n.deviceIdFromCanonical_canonicalName]
  · rw [hcase, n.deviceIndex_canonicalName, Int32.toInt_ofNat_of_lt hindex]
  · intro e' n' hcase' infos infos' info info' h h'
    rw [hfound e n hcase infos info h, hfound e' n' hcase' infos' info' h', Option.some_inj]

/-- A device of one serial number, with an index. -/
def UsbName.sample (hardware : WStr) (hne : hardware ≠ [])
    (hplain : backslash ∉ hardware ∧ sharp ∉ hardware ∧ dollar ∉ hardware) : UsbName where
  hardware := hardware
  serial := wide "S"
  guid := wide "{g}"
  index := some 12
  hardware_ne_nil := hne
  serial_ne_nil := by decide
  hardware_plain := hplain
  serial_plain := by decide
  guid_plain := by decide
  index_lt := by decide

/-- A round that meets a device of a canonical name, and nothing else. -/
def MtpEntry.named (canonicalName : WStr) : MtpEntry where
  next := sOk
  pIdv := some
    { mtpDevice := 0
      enumStorage := ⟨sOk, true⟩
      nextStorage := ⟨sOk, true⟩
      getStorageGlobals := ⟨sOk, true⟩
      enumSubStorage := ⟨sOk, true⟩
      getName := none
      getCanonicalName := some canonicalName
      getManufacturer := none
      protocolMtp := true
      getTotalSize := none
      getTotalFree := none
      rootStorage := .node ⟨[], .folder, .empty, []⟩ [] }
  devInfo := some []
  heap := ⟨0, 0, 0, 0, 0, .undef⟩

theorem vid_plain : backslash ∉ wide "vid" ∧ sharp ∉ wide "vid" ∧ dollar ∉ wide "vid" := by
  decide

theorem VID_plain : backslash ∉ wide "VID" ∧ sharp ∉ wide "VID" ∧ dollar ∉ wide "VID" := by
  decide

/-- A name that WMDM reports in capitals. -/
theorem canonicalName_inverts_sample :
    deviceIdFromCanonical (MtpEntry.named (wide "\\\\?\\USB#VID#S#{G}$12")).canonical =
        wide "usb\\vid\\s" ∧
      (deviceIndex (MtpEntry.named (wide "\\\\?\\USB#VID#S#{G}$12")).canonical).toInt = 12 := by
  obtain ⟨-, hid, hindex, -⟩ := canonicalName_inverts
    (.named (wide "\\\\?\\USB#VID#S#{G}$12")) (.sample (wide "vid") (by decide) vid_plain) (by decide)
  exact ⟨hid.trans (by decide), hindex⟩

/-- Two ids that differ in letter case belong to the same enumerated device. -/
theorem ids_matched_alike :
    (UsbName.sample (wide "vid") (by decide) vid_plain).instanceId ≠
        (UsbName.sample (wide "VID") (by decide) VID_plain).instanceId ∧
      ∃ infos info,
        findUsb (MtpEntry.named
          (UsbName.sample (wide "vid") (by decide) vid_plain).canonicalName).canonical infos =
            some info ∧
        findUsb (MtpEntry.named
          (UsbName.sample (wide "VID") (by decide) VID_plain).canonicalName).canonical infos =
            some info :=
  ⟨by decide, [⟨some (wide "usb\\vid\\s"), .ok []⟩], _, rfl, rfl⟩

end MtpRetag
