import MtpRetag.Machinery.Cuts
import MtpRetag.Native.Basic
import Mathlib.Data.List.DropRight

/-!
# Native/SplitString — `helperlib::split_string` and the two ways to a file name

`split_string` cuts a path at its slashes and drops the empty tokens, except the last one, which is
always pushed; `Native/SplitVector` has the vector it pushes to.  `getLast?_splitString` is that the
last one is the file name, which `transfer_file` cuts off by `find_last_of`.
-/

namespace MtpRetag

/-- `std::wstring::find` from position 0. -/
def find (delimiter : WStr) : WStr → Option ℕ
  | [] => if delimiter = [] then some 0 else none
  | c :: s => if delimiter <+: c :: s then some 0 else (find delimiter s).map (· + 1)

/-- The loop of `split_string`: cut at the delimiter while there is one, then push the rest.  It
skips one character for the delimiter, whatever its length.  Each round shortens `temp`, so its
length is enough fuel. -/
def splitLoop (delimiter : WStr) (includeempties : Bool) : ℕ → WStr → List WStr
  | 0, temp => [temp]
  | fuel + 1, temp =>
    match find delimiter temp with
    | none => [temp]
    | some ipos =>
      let token := temp.take ipos
      let results := splitLoop delimiter includeempties fuel (temp.drop (ipos + 1))
      if 0 < token.length ∨ (token.length = 0 ∧ includeempties) then token :: results else results

/-- `helperlib::split_string`: the strings it pushes.  It returns their number. -/
def splitString (input delimiter : WStr) (includeempties : Bool) : List WStr :=
  match input, delimiter with
  | [], _ => []
  | _, [] => []
  | c :: rest, delimiter =>
    -- one leading slash is removed
    let temp := if c = slash then rest else c :: rest
    splitLoop delimiter includeempties temp.length temp

/-- The file name of `transfer_file`: what follows the `find_last_of` slash, or all of `dest`. -/
def fileName (dest : WStr) : WStr := dest.rtakeWhile (· ≠ slash)

/-! ## Finding a delimiter -/

theorem find_eq_none_iff {d : WStr} : ∀ {s : WStr}, find d s = none ↔ ¬ d <:+: s
  | [] => by by_cases hd : d = [] <;> simp [find, hd]
  | c :: s => by
      rw [find, List.infix_cons_iff]
      split
      case isTrue h => simp [h]
      case isFalse h => simp [h, find_eq_none_iff (d := d) (s := s)]

/-- What is found is the first occurrence. -/
theorem firstAt_of_find {d : WStr} :
    ∀ {s : WStr} {i : ℕ}, find d s = some i → Cuts.FirstAt d s i
  | [], i, h => by
      rw [find] at h
      split at h
      case isTrue hd =>
        obtain rfl : 0 = i := by simpa using h
        exact .zero (hd ▸ List.nil_prefix)
      case isFalse => cases h
  | c :: s, i, h => by
      rw [find] at h
      split at h
      case isTrue hc =>
        obtain rfl : 0 = i := by simpa using h
        exact .zero hc
      case isFalse hc =>
        obtain ⟨j, hj, rfl⟩ := Option.map_eq_some_iff.mp h
        exact (firstAt_of_find hj).cons hc

theorem lt_length_of_find {d s : WStr} {i : ℕ} (hd : d ≠ []) (h : find d s = some i) :
    i < s.length := by
  have hle := (firstAt_of_find h).add_length_le hd
  have hpos := List.length_pos_iff.mpr hd
  omega

/-- What follows the delimiter's first character is shorter. -/
theorem length_drop_le_of_find {d s : WStr} {i fuel : ℕ} (hd : d ≠ []) (h : find d s = some i)
    (hfuel : s.length ≤ fuel + 1) : (s.drop (i + 1)).length ≤ fuel := by
  have hi := lt_length_of_find hd h
  rw [List.length_drop]
  omega

theorem find_singleton_eq_none {c : WChar} {s : WStr} : find [c] s = none ↔ c ∉ s :=
  find_eq_none_iff.trans (not_congr (List.singleton_infix_iff c s))

/-- A found character splits the string at its first occurrence. -/
theorem find_singleton_eq_some {c : WChar} {s : WStr} {i : ℕ} (h : find [c] s = some i) :
    c ∉ s.take i ∧ s = s.take i ++ c :: s.drop (i + 1) := by
  have hfirst := firstAt_of_find h
  have hnot := hfirst.not_infix_take (List.cons_ne_nil c [])
  exact ⟨fun hc => hnot ((List.singleton_infix_iff c _).mpr hc),
    (hfirst.take_append (n := 1) le_rfl).symm⟩

theorem find_singleton_append {c : WChar} (s : WStr) :
    ∀ {a : WStr}, c ∉ a → find [c] (a ++ c :: s) = some a.length
  | [], _ => by simp [find]
  | d :: a, h => by
      obtain ⟨hd, ha⟩ : c ≠ d ∧ c ∉ a := by simpa using h
      simp [find, hd, find_singleton_append s ha]

/-! ## The pushed strings -/

theorem splitLoop_of_find_none {d s : WStr} (h : find d s = none) (inc : Bool) (fuel : ℕ) :
    splitLoop d inc fuel s = [s] := by
  cases fuel with
  | zero => rfl
  | succ fuel => rw [splitLoop, h]

/-- What is pushed of a token. -/
def kept (includeempties : Bool) (token : WStr) : List WStr :=
  if 0 < token.length ∨ (token.length = 0 ∧ includeempties) then [token] else []

theorem splitLoop_of_find_some {d s : WStr} {i : ℕ} (h : find d s = some i) (inc : Bool)
    (fuel : ℕ) :
    splitLoop d inc (fuel + 1) s =
      kept inc (s.take i) ++ splitLoop d inc fuel (s.drop (i + 1)) := by
  rw [splitLoop, h, kept]
  dsimp only
  split <;> rfl

@[simp] theorem kept_true (token : WStr) : kept true token = [token] := by
  have hlen : 0 < token.length ∨ (token.length = 0 ∧ true) := by
    simpa using (Nat.eq_zero_or_pos token.length).symm
  exact if_pos hlen

theorem splitLoop_ne_nil (d : WStr) (inc : Bool) :
    ∀ (fuel : ℕ) (s : WStr), splitLoop d inc fuel s ≠ []
  | 0, s => by simp [splitLoop]
  | fuel + 1, s => by
      cases h : find d s with
      | none => simp [splitLoop_of_find_none h]
      | some i =>
        rw [splitLoop_of_find_some h]
        exact List.append_ne_nil_of_right_ne_nil _ (splitLoop_ne_nil d inc fuel _)

theorem splitString_cons (c e : WChar) (rest d : WStr) (inc : Bool) :
    splitString (c :: rest) (e :: d) inc =
      if c = slash then splitLoop (e :: d) inc rest.length rest
      else splitLoop (e :: d) inc (rest.length + 1) (c :: rest) := by
  by_cases h : c = slash <;> simp [splitString, h]

/-- Something is pushed for every non-empty input. -/
theorem splitString_ne_nil {s d : WStr} (hs : s ≠ []) (hd : d ≠ []) (inc : Bool) :
    splitString s d inc ≠ [] := by
  obtain ⟨c, rest, rfl⟩ := List.exists_cons_of_ne_nil hs
  obtain ⟨e, d, rfl⟩ := List.exists_cons_of_ne_nil hd
  rw [splitString_cons]
  split <;> exact splitLoop_ne_nil _ _ _ _

/-- Without the separator there is nothing to cut. -/
theorem splitLoop_of_notMem {c : WChar} {s : WStr} (h : c ∉ s) (inc : Bool) (fuel : ℕ) :
    splitLoop [c] inc fuel s = [s] :=
  splitLoop_of_find_none (find_singleton_eq_none.mpr h) inc fuel

theorem rtakeWhile_append_cons {p : WChar → Bool} {c : WChar} (hc : p c = false) (a s : WStr) :
    (a ++ c :: s).rtakeWhile p = s.rtakeWhile p := by
  have hcut : (c :: a.reverse).takeWhile p = [] := by simp [hc]
  rw [List.rtakeWhile, List.reverse_append, List.reverse_cons, List.append_assoc,
    List.singleton_append, List.takeWhile_append, hcut, List.append_nil, List.rtakeWhile]
  split
  case isTrue h =>
    rw [(List.takeWhile_prefix p).eq_of_length h]
  case isFalse => rfl

theorem fileName_of_notMem {s : WStr} (h : slash ∉ s) : fileName s = s :=
  List.rtakeWhile_eq_self_iff.mpr (decide_ne_of_notMem h)

theorem fileName_append_slash (a s : WStr) : fileName (a ++ slash :: s) = fileName s :=
  rtakeWhile_append_cons (by simp) a s

theorem getLast?_splitLoop (inc : Bool) :
    ∀ {fuel : ℕ} {s : WStr}, s.length ≤ fuel →
      (splitLoop [slash] inc fuel s).getLast? = some (fileName s)
  | 0, s, h => by
      obtain rfl : s = [] := List.length_eq_zero_iff.mp (Nat.le_zero.mp h)
      rfl
  | fuel + 1, s, h => by
      cases hf : find [slash] s with
      | none =>
        have hs := find_singleton_eq_none.mp hf
        rw [splitLoop_of_notMem hs, fileName_of_notMem hs, List.getLast?_singleton]
      | some i =>
        have hlast : fileName s = fileName (s.drop (i + 1)) := by
          conv_lhs => rw [(find_singleton_eq_some hf).2]
          exact fileName_append_slash _ _
        have ih := getLast?_splitLoop inc (length_drop_le_of_find (List.cons_ne_nil _ _) hf h)
        rw [splitLoop_of_find_some hf, List.getLast?_append, ih, hlast]
        rfl

/-- **Two ways to one file name.**  The last string `split_string` pushes is the file name. -/
theorem getLast?_splitString {dest : WStr} (h : dest ≠ []) (inc : Bool) :
    (splitString dest [slash] inc).getLast? = some (fileName dest) := by
  obtain ⟨c, rest, rfl⟩ := List.exists_cons_of_ne_nil h
  by_cases hc : c = slash
  · subst hc
    rw [splitString_cons, if_pos rfl, getLast?_splitLoop inc le_rfl]
    exact congrArg some (fileName_append_slash [] rest).symm
  · rw [splitString_cons, if_neg hc, getLast?_splitLoop inc (by simp)]

/-- …so the components are the folders and then the file name. -/
theorem splitString_eq_append {dest : WStr} (h : dest ≠ []) (inc : Bool) :
    splitString dest [slash] inc =
      (splitString dest [slash] inc).dropLast ++ [fileName dest] :=
  (List.dropLast_append_getLast? _ (getLast?_splitString h inc)).symm

/-! ## Joined paths -/

/-- One cut, at the first separator. -/
theorem splitLoop_append_slash {a : WStr} (ha : slash ∉ a) (s : WStr) (fuel : ℕ) :
    splitLoop [slash] false (fuel + 1) (a ++ slash :: s) =
      (if a = [] then [] else [a]) ++ splitLoop [slash] false fuel s := by
  rw [splitLoop, find_singleton_append s ha]
  cases a with
  | nil => simp
  | cons c a => simp

/-- Names without a slash, and what follows them, each behind a slash. -/
def joined (names : List WStr) (m : WStr) : WStr := names.foldr (fun a s => a ++ slash :: s) m

theorem slash_cons_joined (names : List WStr) (m : WStr) :
    slash :: joined names m = names.flatMap (slash :: ·) ++ slash :: m := by
  induction names with
  | nil => rfl
  | cons a names ih =>
    rw [List.flatMap_cons, List.append_assoc, ← ih]
    rfl

theorem splitLoop_joined {m : WStr} (hm : slash ∉ m) :
    ∀ {names : List WStr} {fuel : ℕ}, (∀ a ∈ names, a ≠ [] ∧ slash ∉ a) →
      (joined names m).length ≤ fuel →
      splitLoop [slash] false fuel (joined names m) = names ++ [m]
  | [], fuel, _, _ => splitLoop_of_notMem hm false fuel
  | a :: names, 0, _, h => by simp [joined] at h
  | a :: names, fuel + 1, hnames, h => by
      obtain ⟨hne, ha⟩ := hnames a List.mem_cons_self
      have hlen : (joined names m).length ≤ fuel := by
        simp only [joined, List.foldr_cons, List.length_append, List.length_cons] at h ⊢
        omega
      have ih := splitLoop_joined hm (fun b hb => hnames b (List.mem_cons_of_mem _ hb)) hlen
      have hcut : joined (a :: names) m = a ++ slash :: joined names m := rfl
      rw [hcut, splitLoop_append_slash ha, if_neg hne, ih]
      rfl

/-- **The components of a joined path** are the names it was joined from. -/
theorem splitString_joined {names : List WStr} {m : WStr}
    (hnames : ∀ a ∈ names, a ≠ [] ∧ slash ∉ a) (hm : slash ∉ m) :
    splitString (names.flatMap (slash :: ·) ++ slash :: m) [slash] false = names ++ [m] := by
  rw [← slash_cons_joined, splitString_cons, if_pos rfl]
  exact splitLoop_joined hm hnames le_rfl

/-- …also behind a second slash, as a name appended to the root has it. -/
theorem splitString_slash_slash {m : WStr} (hm : slash ∉ m) :
    splitString (slash :: slash :: m) [slash] false = [m] := by
  rw [splitString_cons, if_pos rfl, List.length_cons]
  have hcut := splitLoop_append_slash (a := []) (by simp) m m.length
  rw [if_pos rfl, List.nil_append, List.nil_append] at hcut
  rw [hcut, splitLoop_of_notMem hm]

/-- A path of one folder and a file name has these two components. -/
theorem splitString_folder_file {folder name : WStr} (hne : folder ≠ []) (hf : slash ∉ folder)
    (hn : slash ∉ name) :
    splitString (slash :: folder ++ slash :: name) [slash] false = [folder, name] := by
  have hfolder : ∀ a ∈ [folder], a ≠ [] ∧ slash ∉ a := by simp [hne, hf]
  simpa using splitString_joined hfolder hn

end MtpRetag
