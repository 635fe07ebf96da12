import Mathlib.Data.List.TakeWhile

/-!
# Native/Basic — wide strings, status codes and device modes

The vocabulary of the native library: UTF-16 strings, COM status codes, the error codes shared with
Java, and what crosses the JNI boundary.
-/

namespace MtpRetag

/-! ## Wide strings -/

abbrev WChar := UInt16

/-- A `std::wstring`: UTF-16 code units on Windows. -/
abbrev WStr := List WChar

/-- A wide-string literal of the source. -/
def wide (s : String) : WStr := s.toList.map fun c => c.toNat.toUInt16

/-- The path separator on the device. -/
def slash : WChar := 47

/-- …and in Windows paths. -/
def backslash : WChar := 92

/-- What survives `c_str()`: the characters before the first NUL. -/
def cStr (s : WStr) : WStr := s.takeWhile (· ≠ 0)

/-- `towlower` in the C locale. -/
def towlower (c : WChar) : WChar := if 65 ≤ c ∧ c ≤ 90 then c + 32 else c

/-- `CString::MakeLower`. -/
def makeLower (s : WStr) : WStr := s.map towlower

/-- A search for a character runs through a string without it. -/
theorem decide_ne_of_notMem {c : WChar} {s : WStr} (h : c ∉ s) : ∀ d ∈ s, decide (d ≠ c) = true :=
  fun d hd => decide_eq_true fun hdc : d = c => h (hdc ▸ hd)

theorem cStr_eq_self {s : WStr} (h : (0 : WChar) ∉ s) : cStr s = s :=
  List.takeWhile_eq_self_iff.mpr (decide_ne_of_notMem h)

theorem zero_notMem_cStr (s : WStr) : (0 : WChar) ∉ cStr s := fun h => by
  simpa using List.mem_takeWhile_imp h

/-- A string that went through `char*`: it carries no NUL. -/
abbrev CString := {s : WStr // (0 : WChar) ∉ s}

/-! ## Status codes -/

/-- COM status codes, and the `int` codes of the native methods, which mix with them. -/
abbrev HRESULT := Int32

/-- The `SUCCEEDED` macro. -/
abbrev Succeeded (hr : HRESULT) : Prop := 0 ≤ hr

def sOk : HRESULT := 0

def eFail : HRESULT := -2147467259

@[simp] theorem succeeded_sOk : Succeeded sOk := by decide

/-- A code crosses to Java as a `jlong`, which is zero only for zero. -/
theorem toInt64_eq_zero {hr : HRESULT} : hr.toInt64 = 0 ↔ hr = 0 := by
  rw [← Int64.toInt_inj, Int32.toInt_toInt64, ← Int32.toInt_inj]
  rfl

/-! The `ERROR_*` constants of `jpmp.device.UsbDevice`. -/

namespace Error

def success : Int32 := 0
def fileNotfound : Int32 := 2
def folderNotfound : Int32 := 3
def metadataProperty : Int32 := 5
def invokeMethod : Int32 := 6
def initDeviceManager : Int32 := 7
def deviceNotMounted : Int32 := 8
def mtpNotAvailable : Int32 := 10
def mscNotAvailable : Int32 := 11
def wrongParameter : Int32 := 12
def unknown : Int32 := 1000

end Error

/-- The `device_mode` enumeration; `other` is what an unassigned member may hold. -/
inductive DeviceMode
  | undef
  | msc
  | mtp
  | other (raw : ℕ)
  deriving DecidableEq, Repr

/-! ## The JNI boundary -/

/-- The two string conversions at the boundary.  `ca2w` is `CA2W` after `GetStringUTFChars`, whose
result is a C string; `newString` is `NewStringUTF` after `CW2A`. -/
structure Jni where
  ca2w : WStr → CString
  newString : WStr → WStr

/-- The conversions on a system whose code page maps every character to itself. -/
def Jni.identity : Jni where
  ca2w s := ⟨cStr s, zero_notMem_cStr s⟩
  newString := id

/-- A `jpmp.device.FileMetadata`, as Java and as the native side hold it. -/
structure FileMetadata where
  title : WStr
  artist : WStr
  album : WStr
  genre : WStr
  rating : Int32
  deriving DecidableEq, Repr

/-- The native copy that `sendFile` and `updateMetadata` make of a Java record. -/
def Jni.filemetadata (jni : Jni) (m : FileMetadata) : FileMetadata :=
  { title := (jni.ca2w m.title).1, artist := (jni.ca2w m.artist).1,
    album := (jni.ca2w m.album).1, genre := (jni.ca2w m.genre).1, rating := m.rating }

end MtpRetag
