import MtpRetag.Native.Storage
import MtpRetag.Machinery.LittleEndian

/-!
# Native/MetaItems — how metadata fields become bytes and come back

`transfer_file` and `update_metadata` write strings as their UTF-16 bytes with the NUL, and numbers
as `DWORD`s.  The reader, `getMetadata`, takes a string up to its NUL, and of a number the byte
that the `BYTE*` points to.
-/

namespace MtpRetag

/-! ## Writing -/

/-- The two bytes of a character in memory. -/
def wcharBytes (c : WChar) : List UInt8 := LittleEndian.bytes 2 c.toNat

/-- A string item: `(wcslen(s) + 1) * sizeof(WCHAR)` bytes from `s.c_str()`. -/
def stringItem (s : WStr) : MetaItem := ⟨.string, (cStr s ++ [0]).flatMap wcharBytes⟩

/-- A `DWORD` item. -/
def dwordItem (d : UInt32) : MetaItem := ⟨.dword, LittleEndian.bytes 4 d.toNat⟩

/-- A sequence of `AddItem` calls. -/
def addItems (hr : Outcomes) (md : MetaData) (items : List (MetaKey × MetaItem)) : MetaData :=
  items.foldl (fun md item => addItem hr md item.1 item.2) md

/-- The keys whose `AddItem` returned `S_OK`. -/
def acceptedKeys (hr : Outcomes) (items : List (MetaKey × MetaItem)) : List MetaKey :=
  (items.map Prod.fst).filter fun k => hr (.addItem k) = sOk

/-! ## Reading -/

/-- The characters stored in memory. -/
def wcharsOf : List UInt8 → WStr
  | lo :: hi :: rest => UInt16.ofNat (LittleEndian.value [lo, hi]) :: wcharsOf rest
  | _ => []

/-- `QueryByName`, which fails on an item the object does not have. -/
def queryByName (hr : Outcomes) (md : MetaData) (k : MetaKey) : Option MetaItem :=
  if hr (.queryByName k) = sOk then md k else none

/-- `title = (LPWSTR)pVal`, and `L""` when the query failed. -/
def readString : Option MetaItem → WStr
  | some item => cStr (wcharsOf item.value)
  | none => []

/-- `rating = (*pVal)` through a `BYTE*`, and `0` when the query failed; it crosses as a `jint`. -/
def readRating : Option MetaItem → Int32
  | some item => (item.value.headD 0).toUInt32.toInt32
  | none => 0

@[simp] theorem readString_none : readString none = [] := rfl

@[simp] theorem readRating_none : readRating none = 0 := rfl

/-! ## Reading what was written -/

theorem wcharsOf_flatMap : ∀ s : WStr, wcharsOf (s.flatMap wcharBytes) = s
  | [] => rfl
  | c :: s => by
      have hlt : c.toNat < 256 ^ 2 := c.toNat_lt
      have hc : UInt16.ofNat (LittleEndian.value (wcharBytes c)) = c := by
        rw [wcharBytes, LittleEndian.value_bytes_of_lt hlt, UInt16.ofNat_toNat]
      rw [List.flatMap_cons]
      exact congrArg₂ List.cons hc (wcharsOf_flatMap s)

/-- **Strings come back**, up to their first NUL. -/
theorem readString_stringItem (s : WStr) : readString (some (stringItem s)) = cStr s := by
  have hcut : cStr (cStr s ++ [0]) = cStr s := by
    rw [cStr, List.takeWhile_append_of_pos (decide_ne_of_notMem (zero_notMem_cStr s))]
    simp
  rw [readString, stringItem, wcharsOf_flatMap, hcut]

/-- A byte, as the `jint` it crosses the boundary as. -/
theorem toInt_toInt32_byte (b : UInt8) : b.toUInt32.toInt32.toInt = b.toNat := by
  have hlt : b.toNat < 2 ^ 31 := b.toNat_lt.trans (by decide)
  have hb : b.toUInt32.toInt32 = Int32.ofNat b.toNat := by
    rw [← UInt32.toInt32_ofNat', ← UInt8.toNat_toUInt32, UInt32.ofNat_toNat]
  rw [hb, Int32.toInt_ofNat_of_lt hlt]

/-- **Ratings come back exactly when they fit in a byte.** -/
theorem readRating_dwordItem_iff (r : Int32) :
    readRating (some (dwordItem r.toUInt32)) = r ↔ 0 ≤ r ∧ r ≤ 255 := by
  have hread : readRating (some (dwordItem r.toUInt32)) =
      (UInt8.ofNat r.toUInt32.toNat).toUInt32.toInt32 := rfl
  have hb : (UInt8.ofNat r.toUInt32.toNat).toNat = r.toUInt32.toNat % 256 := UInt8.toNat_ofNat'
  have h0 : (0 : Int32).toInt = 0 := rfl
  have h255 : (255 : Int32).toInt = 255 := rfl
  rw [hread, ← Int32.toInt_inj, Int32.le_iff_toInt_le, Int32.le_iff_toInt_le, toInt_toInt32_byte,
    h0, h255]
  constructor
  · intro h
    omega
  · rintro ⟨hlo, hhi⟩
    have hnat : r.toUInt32.toNat = r.toInt.toNat :=
      (Int32.toNat_toUInt32_of_le (Int32.le_iff_toInt_le.mpr hlo)).trans (Int32.toNat_toInt r).symm
    omega

/-- When every `AddItem` of a sequence is accepted, each one has its effect. -/
theorem addItem_of_accepted {hr : Outcomes} {items : List (MetaKey × MetaItem)}
    (h : acceptedKeys hr items = items.map Prod.fst) {k : MetaKey} {item : MetaItem}
    (hk : (k, item) ∈ items) (md : MetaData) :
    addItem hr md k item = Function.update md k (some item) := by
  have hok : hr (.addItem k) = sOk := by
    simpa using List.filter_eq_self.mp h k (List.mem_map_of_mem hk)
  rw [addItem, hok, if_pos succeeded_sOk]

end MtpRetag
