import MtpRetag.Machinery.Loop
import MtpRetag.Native.CreateFolder

/-!
# Native/SplitVector — `split_string`, with the vector it appends to

`split_string` appends to a vector that its caller hands over, and returns how many strings it has
appended.  Its loop cuts `temp` at the delimiter until there is none; it may run for ever, and
`substr` may throw.

It does neither: `splits_iff` says what it returns for every input, in terms of `splitString`.  So
it agrees with the search for the last slash (`split_ways_agree`), and joining what it appends gives
its input back exactly where `roundTrips_iff` says.
-/

namespace MtpRetag

/-! ## `split_string` -/

/-- `std::wstring::substr` up to the end; behind the end it throws `std::out_of_range`. -/
def substr (s : WStr) (pos : ℕ) : Option WStr := if pos ≤ s.length then some (s.drop pos) else none

/-- The local variables of `split_string`, and its vector.  `ipos` is `none` for `npos`. -/
structure SplitState where
  temp : WStr
  ipos : Option ℕ
  results : List WStr
  numfound : UInt32

/-- How a call ends. -/
inductive SplitExit
  | returned (ret : Int32) (results : List WStr)
  | outOfRange
  deriving DecidableEq, Repr

/-- `results.push_back(s)` and `numfound++`. -/
def SplitState.pushBack (st : SplitState) (s : WStr) : SplitState :=
  { st with results := st.results ++ [s], numfound := st.numfound + 1 }

/-- The end of `split_string`: `temp` is pushed, and `numfound` is returned as an `int`. -/
def SplitState.finish (st : SplitState) : SplitExit :=
  let st := st.pushBack st.temp
  .returned st.numfound.toInt32 st.results

/-- One round of the loop, and what follows it. -/
def splitRound (delimiter : WStr) (includeempties : Bool) (st : SplitState) :
    Loop.Round SplitState SplitExit :=
  match st.ipos with
  | none => .leave st.finish
  | some ipos =>
    let token := st.temp.take ipos
    let next :=
      if 0 < token.length ∨ (token.length = 0 ∧ includeempties) then st.pushBack token else st
    match substr st.temp (ipos + 1) with
    | none => .leave .outOfRange
    | some temp => .again { next with temp := temp, ipos := find delimiter temp }

/-- `helperlib::split_string`, with `fuel` for the rounds of its loop. -/
def splitStringRun (fuel : ℕ) (input delimiter : WStr) (results : List WStr)
    (includeempties : Bool) : Option SplitExit :=
  if input.length = 0 ∨ delimiter.length = 0 then some (.returned 0 results)
  else
    match if input.head? = some slash then substr input 1 else some input with
    | none => some .outOfRange
    | some temp =>
      let st : SplitState := ⟨temp, find delimiter temp, results, 0⟩
      if st.ipos = none then some st.finish
      else Loop.run (splitRound delimiter includeempties) fuel st

/-- A call ends, after however many rounds. -/
def Splits (input delimiter : WStr) (results : List WStr) (includeempties : Bool)
    (exit : SplitExit) : Prop :=
  ∃ fuel, splitStringRun fuel input delimiter results includeempties = some exit

/-- A call ends, and only so: it returns `ret` and has appended `appended`. -/
def Appends (input delimiter : WStr) (results : List WStr) (includeempties : Bool) (ret : Int32)
    (appended : List WStr) : Prop :=
  ∀ exit, Splits input delimiter results includeempties exit ↔
    exit = .returned ret (results ++ appended)

/-- The input less one leading slash. -/
def withoutSlash : WStr → WStr
  | [] => []
  | c :: rest => if c = slash then rest else c :: rest

/-! ## What a call returns -/

section Run

variable {d : WStr} {inc : Bool} {v pushed : List WStr} {st st' : SplitState} {exit : SplitExit}

theorem splitRound_of_none (h : st.ipos = none) : splitRound d inc st = .leave st.finish := by
  rw [splitRound, h]

/-- A round that has a delimiter in front of it. -/
theorem splitRound_of_some {i : ℕ} (h : st.ipos = some i) (hi : i < st.temp.length) :
    splitRound d inc st = .again
      { temp := st.temp.drop (i + 1)
        ipos := find d (st.temp.drop (i + 1))
        results := st.results ++ kept inc (st.temp.take i)
        numfound := st.numfound + UInt32.ofNat (kept inc (st.temp.take i)).length } := by
  have hsub : substr st.temp (i + 1) = some (st.temp.drop (i + 1)) := if_pos hi
  simp only [splitRound, h, hsub, kept]
  split
  case isTrue => rfl
  case isFalse => simp

/-- **What the loop keeps**: what it has pushed behind `v`, and what it is still to cut `temp`
into, are `pushed`; `numfound` counts the former. -/
structure SplitInv (d : WStr) (inc : Bool) (v pushed : List WStr) (st : SplitState) : Prop where
  ipos_eq : st.ipos = find d st.temp
  done : ∃ done fuel, st.temp.length ≤ fuel ∧ st.results = v ++ done ∧
    st.numfound = UInt32.ofNat done.length ∧ done ++ splitLoop d inc fuel st.temp = pushed

/-- A round that goes on keeps it, and shortens `temp`. -/
theorem SplitInv.again (hd : d ≠ []) (h : SplitInv d inc v pushed st)
    (hround : splitRound d inc st = .again st') :
    SplitInv d inc v pushed st' ∧ st'.temp.length < st.temp.length := by
  cases hipos : st.ipos with
  | none =>
    rw [splitRound_of_none hipos] at hround
    cases hround
  | some i =>
    have hfind : find d st.temp = some i := h.ipos_eq.symm.trans hipos
    have hi := lt_length_of_find hd hfind
    rw [splitRound_of_some hipos hi] at hround
    obtain rfl := Loop.Round.again.inj hround
    obtain ⟨done, fuel, hfuel, hresults, hnum, hpushed⟩ := h.done
    obtain ⟨fuel, rfl⟩ := Nat.exists_eq_add_one.mpr (Nat.zero_lt_of_lt (hi.trans_le hfuel))
    have hshort : (st.temp.drop (i + 1)).length < st.temp.length := by
      rw [List.length_drop]
      omega
    refine ⟨⟨rfl, done ++ kept inc (st.temp.take i), fuel, ?_, ?_, ?_, ?_⟩, hshort⟩
    · exact Nat.le_of_lt_succ (hshort.trans_le hfuel)
    · rw [hresults, List.append_assoc]
    · rw [hnum, List.length_append, UInt32.ofNat_add]
    · rw [List.append_assoc, ← splitLoop_of_find_some hfind]
      exact hpushed

/-- Where the delimiter is not found, the rest is pushed. -/
theorem SplitInv.finish (h : SplitInv d inc v pushed st) (hipos : st.ipos = none) :
    st.finish = .returned (Int32.ofNat pushed.length) (v ++ pushed) := by
  obtain ⟨done, fuel, -, hresults, hnum, hpushed⟩ := h.done
  rw [splitLoop_of_find_none (h.ipos_eq.symm.trans hipos)] at hpushed
  rw [← hpushed, List.length_append, ← List.append_assoc, ← hresults]
  simp only [SplitState.finish, SplitState.pushBack, hnum]
  rw [List.length_singleton, Int32.ofNat_add]
  rfl

theorem SplitInv.leave (hd : d ≠ []) (h : SplitInv d inc v pushed st)
    (hround : splitRound d inc st = .leave exit) :
    exit = .returned (Int32.ofNat pushed.length) (v ++ pushed) := by
  cases hipos : st.ipos with
  | none =>
    rw [splitRound_of_none hipos] at hround
    rw [← h.finish hipos]
    exact (Loop.Round.leave.inj hround).symm
  | some i =>
    rw [splitRound_of_some hipos (lt_length_of_find hd (h.ipos_eq.symm.trans hipos))] at hround
    cases hround

/-- …so the loop is left, and what it has pushed then is all of `pushed`. -/
theorem SplitInv.leaves (hd : d ≠ []) (h : SplitInv d inc v pushed st) :
    Loop.Leaves (splitRound d inc) st
      (.returned (Int32.ofNat pushed.length) (v ++ pushed)) := by
  obtain ⟨exit, hleaves, hexit⟩ :=
    Loop.exists_leaves (fun st => st.temp.length) (fun _ _ hs => hs.again hd)
      (fun _ _ hs => hs.leave hd) h
  exact hexit ▸ hleaves

/-- The variables before the first round. -/
def SplitState.start (d : WStr) (v : List WStr) (temp : WStr) : SplitState :=
  ⟨temp, find d temp, v, 0⟩

theorem splitInv_start (d : WStr) (inc : Bool) (v : List WStr) (temp : WStr) :
    SplitInv d inc v (splitLoop d inc temp.length temp) (.start d v temp) :=
  ⟨rfl, [], temp.length, le_rfl, (List.append_nil v).symm, rfl, rfl⟩

theorem splitStringRun_of_ne_nil (fuel : ℕ) {input : WStr} (hs : input ≠ []) (hd : d ≠ [])
    (inc : Bool) (v : List WStr) :
    splitStringRun fuel input d v inc =
      if find d (withoutSlash input) = none then
        some (SplitState.start d v (withoutSlash input)).finish
      else Loop.run (splitRound d inc) fuel (.start d v (withoutSlash input)) := by
  obtain ⟨c, rest, rfl⟩ := List.exists_cons_of_ne_nil hs
  have hguard : ¬ ((c :: rest).length = 0 ∨ d.length = 0) := by simp [hd]
  have htemp :
      (if (c :: rest).head? = some slash then substr (c :: rest) 1 else some (c :: rest)) =
        some (withoutSlash (c :: rest)) := by
    by_cases hc : c = slash <;> simp [withoutSlash, substr, hc]
  rw [splitStringRun, if_neg hguard, htemp]
  rfl

/-- A call is its loop, if neither string is empty. -/
theorem splits_iff_leaves {input : WStr} (hs : input ≠ []) (hd : d ≠ []) :
    Splits input d v inc exit ↔
      Loop.Leaves (splitRound d inc) (.start d v (withoutSlash input)) exit := by
  have hrun (fuel : ℕ) := splitStringRun_of_ne_nil fuel hs hd inc v
  simp only [Splits, hrun]
  by_cases hfind : find d (withoutSlash input) = none
  · have hleaves : Loop.Leaves (splitRound d inc) (.start d v (withoutSlash input))
        (SplitState.start d v (withoutSlash input)).finish :=
      Loop.leaves_of_leave (splitRound_of_none hfind)
    simp only [if_pos hfind, exists_const, Option.some.injEq]
    exact ⟨fun h => h ▸ hleaves, fun h => hleaves.unique h⟩
  · simp only [if_neg hfind]
    rfl

theorem splitString_eq_splitLoop {input : WStr} (hs : input ≠ []) (hd : d ≠ []) :
    splitString input d inc =
      splitLoop d inc (withoutSlash input).length (withoutSlash input) := by
  obtain ⟨c, rest, rfl⟩ := List.exists_cons_of_ne_nil hs
  obtain ⟨e, d, rfl⟩ := List.exists_cons_of_ne_nil hd
  rfl

/-- **What a call returns**, and that it does, for every input. -/
theorem splits_iff {input : WStr} :
    Splits input d v inc exit ↔
      exit = .returned (Int32.ofNat (splitString input d inc).length)
        (v ++ splitString input d inc) := by
  by_cases hempty : input.length = 0 ∨ d.length = 0
  · have hnil : splitString input d inc = [] := by
      rcases hempty with h | h
      · rw [List.length_eq_zero_iff.mp h, splitString]
      · rw [List.length_eq_zero_iff.mp h]
        cases input <;> rfl
    have hrun (fuel : ℕ) : splitStringRun fuel input d v inc = some (.returned 0 v) := if_pos hempty
    simp only [Splits, hrun, exists_const, Option.some.injEq, hnil, List.append_nil]
    exact eq_comm
  · obtain ⟨hs, hd⟩ : input ≠ [] ∧ d ≠ [] := by simpa using hempty
    have hleaves := (splitInv_start d inc v (withoutSlash input)).leaves hd
    rw [splits_iff_leaves hs hd, splitString_eq_splitLoop hs hd]
    exact ⟨fun h => h.unique hleaves, fun h => h ▸ hleaves⟩

/-- …so that is what it appends and counts. -/
theorem appends_iff {input : WStr} {ret : Int32} {appended : List WStr} :
    Appends input d v inc ret appended ↔
      ret = Int32.ofNat (splitString input d inc).length ∧ appended = splitString input d inc := by
  simp only [Appends, splits_iff]
  constructor
  · intro h
    obtain ⟨hret, happended⟩ := SplitExit.returned.inj ((h _).mpr rfl)
    exact ⟨hret, List.append_cancel_left happended⟩
  · rintro ⟨rfl, rfl⟩ exit
    exact Iff.rfl

end Run

/-! ## The last component -/

/-- The file name in `transfer_file`: what lies behind the slash that `find_last_of` finds. -/
def transferFilename (dest : WStr) : WStr :=
  match findLastOf slash dest with
  | none => dest
  | some idx => dest.drop (idx + 1)

/-- A string with a slash in it, cut at the last one. -/
theorem exists_last_slash {s : WStr} (h : slash ∈ s) :
    ∃ a m, s = a ++ slash :: m ∧ slash ∉ m := by
  obtain ⟨m, a, hs, hm⟩ := List.eq_append_cons_of_mem (List.mem_reverse.mpr h)
  refine ⟨a.reverse, m.reverse, ?_, fun h => hm (List.mem_reverse.mp h)⟩
  simpa using congrArg List.reverse hs

theorem transferFilename_eq_fileName (dest : WStr) : transferFilename dest = fileName dest := by
  by_cases h : slash ∈ dest
  · obtain ⟨a, m, rfl, hm⟩ := exists_last_slash h
    rw [transferFilename, findLastOf_append hm, fileName_append_slash, fileName_of_notMem hm]
    simp
  · rw [transferFilename, findLastOf_of_notMem h, fileName_of_notMem h]

/-- The last piece between slashes is the file name. -/
theorem splitOn_slash_eq_append (dest : WStr) :
    dest.splitOn slash = (dest.splitOn slash).dropLast ++ [fileName dest] := by
  by_cases h : slash ∈ dest
  · obtain ⟨a, m, rfl, hm⟩ := exists_last_slash h
    rw [List.splitOn_append_cons_self, List.splitOn_eq_singleton hm, List.dropLast_concat,
      fileName_append_slash, fileName_of_notMem hm]
  · rw [List.splitOn_eq_singleton h, fileName_of_notMem h]
    rfl

/-- The non-empty pieces between slashes, the last one apart. -/
def leadingFolders (dest : WStr) : List WStr := (dest.splitOn slash).dropLast.filter (· ≠ [])

/-- What is pushed for a path are its folders, and then its file name, which may be empty. -/
theorem splitString_eq_leadingFolders_append {dest : WStr} (h : dest ≠ []) :
    splitString dest [slash] false = leadingFolders dest ++ [fileName dest] := by
  rw [splitString_slash h, components, splitOn_slash_eq_append, List.filter_append,
    List.append_assoc, lastEmpty, leadingFolders]
  by_cases hname : fileName dest = [] <;> simp [hname]

/-- A folder has a character, and a slash behind it. -/
theorem two_mul_length_leadingFolders_le (dest : WStr) :
    2 * (leadingFolders dest).length ≤ dest.length := by
  have hlen := Cuts.length_intercalate [slash] (dest.splitOn slash)
  rw [List.intercalate_splitOn, List.length_singleton, Nat.mul_one] at hlen
  have hslashes : (leadingFolders dest).length ≤ (dest.splitOn slash).length - 1 := by
    rw [← List.length_dropLast]
    exact List.length_filter_le _ _
  have hchars : (leadingFolders dest).length ≤ (dest.splitOn slash).flatten.length := by
    refine (Cuts.length_filter_ne_nil_le _).trans ?_
    conv_rhs => rw [splitOn_slash_eq_append, List.flatten_append, List.length_append]
    exact Nat.le_add_right _ _
  omega

/-- **Two ways to one file name.**  For a destination `split_string` appends the folders and then
the file name that `transfer_file` cuts off, and returns the number of these; a string of the
32-bit build is short enough for an `int`. -/
theorem split_ways_agree {dest : WStr} (h : dest ≠ []) (v : List WStr) :
    ∃ ret appended, Appends dest [slash] v false ret appended ∧
      appended.getLast? = some (transferFilename dest) ∧
      appended.dropLast = (dest.splitOn slash).dropLast.filter (· ≠ []) ∧
      ret = Int32.ofNat appended.length ∧
      (dest.length < 2 ^ 31 → ret.toInt = appended.length) := by
  have hpushed := splitString_eq_leadingFolders_append h
  refine ⟨_, _, appends_iff.mpr ⟨rfl, rfl⟩, ?_, ?_, rfl, fun hlen => ?_⟩
  · rw [hpushed, List.getLast?_concat, transferFilename_eq_fileName]
  · rw [hpushed, List.dropLast_concat, leadingFolders]
  · have hfolders := two_mul_length_leadingFolders_le dest
    have hcount : (splitString dest [slash] false).length = (leadingFolders dest).length + 1 := by
      rw [hpushed, List.length_append, List.length_singleton]
    exact Int32.toInt_ofNat_of_lt (by omega)

/-- …as for a song in a folder, behind a string that was there before. -/
theorem split_ways_agree_song :
    ∃ ret appended,
      Appends (wide "//Music/song.mp3") [slash] [wide "old"] false ret appended ∧
      appended.getLast? = some (transferFilename (wide "//Music/song.mp3")) ∧
      appended.dropLast =
        ((wide "//Music/song.mp3").splitOn slash).dropLast.filter (· ≠ []) ∧
      ret = Int32.ofNat appended.length ∧
      ((wide "//Music/song.mp3").length < 2 ^ 31 → ret.toInt = appended.length) :=
  split_ways_agree (by decide) [wide "old"]

/-! ## Splitting and joining -/

/-- What the loop pushes are the pieces between the delimiters, of which it skips one character. -/
theorem pieces_splitLoop {d : WStr} (hd : d ≠ []) :
    ∀ {fuel : ℕ} {s : WStr}, s.length ≤ fuel → Cuts.Pieces d 1 s (splitLoop d true fuel s)
  | 0, s, h => by
      obtain rfl : s = [] := List.length_eq_zero_iff.mp (Nat.le_zero.mp h)
      exact .last fun hinfix => hd (List.infix_nil.mp hinfix)
  | fuel + 1, s, h => by
      cases hfind : find d s with
      | none =>
        rw [splitLoop_of_find_none hfind]
        exact .last (find_eq_none_iff.mp hfind)
      | some i =>
        rw [splitLoop_of_find_some hfind, kept_true]
        exact .cut (firstAt_of_find hfind) (pieces_splitLoop hd (length_drop_le_of_find hd hfind h))

theorem pieces_splitString {s d : WStr} (hs : s ≠ []) (hd : d ≠ []) :
    Cuts.Pieces d 1 (withoutSlash s) (splitString s d true) := by
  rw [splitString_eq_splitLoop hs hd]
  exact pieces_splitLoop hd le_rfl

/-- A call ends; what it appends, joined with the delimiter, is the input less one leading slash;
and no appended string holds the delimiter. -/
def RoundTrips (s d : WStr) : Prop :=
  ∀ v : List WStr, ∃ ret appended, Appends s d v true ret appended ∧
    d.intercalate appended = withoutSlash s ∧ ∀ a ∈ appended, ¬ d <:+: a

theorem roundTrips_iff_pushed {s d : WStr} :
    RoundTrips s d ↔ d.intercalate (splitString s d true) = withoutSlash s ∧
      ∀ a ∈ splitString s d true, ¬ d <:+: a := by
  simp only [RoundTrips, appends_iff]
  constructor
  · intro h
    obtain ⟨_, _, ⟨rfl, rfl⟩, hjoin⟩ := h []
    exact hjoin
  · intro hjoin v
    exact ⟨_, _, ⟨rfl, rfl⟩, hjoin⟩

/-- Joined with the first character of the delimiter, what is pushed is always the input. -/
theorem intercalate_take_one {s d : WStr} (hs : s ≠ []) (hd : d ≠ []) :
    (d.take 1).intercalate (splitString s d true) = withoutSlash s :=
  (pieces_splitString hs hd).intercalate_take (List.length_pos_iff.mpr hd)

/-- **Splitting and joining.**  With a delimiter of more than one character only what is not cut
comes back, since the loop skips one character for it. -/
theorem roundTrips_iff {s d : WStr} (hs : s ≠ []) (hd : d ≠ []) :
    RoundTrips s d ↔ d.length = 1 ∨ ¬ d <:+: withoutSlash s := by
  have hpieces := pieces_splitString hs hd
  rw [roundTrips_iff_pushed, hpieces.intercalate_eq_iff (List.length_pos_iff.mpr hd),
    eq_comm (a := 1)]
  exact and_iff_left (hpieces.not_infix hd)

theorem roundTrips_iff_folder : RoundTrips (wide "/Music/Rock") [slash] :=
  (roundTrips_iff (by decide) (by decide)).mpr (.inl rfl)

/-- `a::b`, cut at `::`, leaves `a` and `:b`, which make `a:::b`. -/
theorem colon_left_over :
    Appends (wide "a::b") (wide "::") [] true 2 [wide "a", wide ":b"] ∧
      ¬ RoundTrips (wide "a::b") (wide "::") := by
  refine ⟨appends_iff.mpr ⟨by decide, by decide⟩, fun h => ?_⟩
  exact absurd (roundTrips_iff_pushed.mp h).1 (by decide)

end MtpRetag
