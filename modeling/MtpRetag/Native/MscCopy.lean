import MtpRetag.Native.Abort
import Mathlib.Data.Nat.Find

/-!
# Native/MscCopy — `msc_copy`, call by call

The copy reads blocks of 1024 bytes, writes each of them, and tells its notifier how far it has got.
A read may stop early, a write may be short, and the notifier may ask to stop; what is returned is
decided behind the loop, from the end-of-file flag of the source.

The loop is left in the first round that does not copy its whole block (`streamLoop_eq`), which
gives the result and the events of a whole copy (`mscCopyRun_of_open`, `mscCopyRun_of_none`).
`mscCopy_eq_mscCopyRun` connects the coarser model of the same function.
-/

namespace MtpRetag

/-! ## Streams -/

/-- A file that is open for reading: its bytes, and the calls of `fread` that stop early, each with
the number of bytes it gives before. -/
structure SourceStream where
  content : List UInt8
  short : ℕ → Option ℕ

/-- The `i`-th `fread`, from position `pos` on: its bytes, and whether it meets the end of the
file. -/
def SourceStream.fread (s : SourceStream) (i pos : ℕ) : List UInt8 × Bool :=
  let rest := s.content.drop pos
  match s.short i with
  | some n => (rest.take (min n maxBuf), false)
  | none => (rest.take maxBuf, rest.length < maxBuf)

/-- What happens in a copy. -/
inductive CopyEvent
  | openFrom
  | openTo
  | notifyBegin (size : UInt64)
  | write (bytes : List UInt8)
  | notifyCurrent (pos : UInt64)
  | notifyEnd
  | closeFrom
  | closeTo
  deriving DecidableEq, Repr

/-- A notification, through a pointer that may be NULL. -/
def notified (pnotif : Option Notifier) (e : CopyEvent) : List CopyEvent :=
  if pnotif.isSome then [e] else []

/-- A `long` passed as an `unsigned __int64`. -/
def longToU64 (n : Int32) : UInt64 := n.toInt64.toUInt64

/-! ## `msc_copy` -/

/-- How the loop ends: it is left, with `retcode` and the flag behind `feof`; or a stream is used
that is not open; or it has rounds to go. -/
inductive LoopExit
  | left (retcode : Int32) (feof : Bool)
  | nullStream
  | running
  deriving DecidableEq, Repr

structure LoopRun where
  exit : LoopExit
  events : List CopyEvent

/-- The loop of `msc_copy`, from the `i`-th round on.  `target` says how many bytes each `fwrite`
can write, if the target is open. -/
def streamLoop (s : SourceStream) (target : Option (ℕ → ℕ)) (pnotif : Option Notifier) :
    ℕ → ℕ → ℕ → UInt32 → Bool → LoopRun
  | 0, _, _, _, _ => ⟨.running, []⟩
  | fuel + 1, i, pos, crtCopied, feof =>
    if aborted pnotif i then ⟨.left 0 feof, []⟩
    else
      let (buf, eof) := s.fread i pos
      let feof := feof || eof
      if buf.length = 0 then ⟨.left 0 feof, []⟩
      else
        let crtCopied := crtCopied + UInt32.ofNat buf.length
        match target with
        | none => ⟨.nullStream, []⟩
        | some fwrite =>
          let byteswritten := min (fwrite i) buf.length
          if byteswritten ≠ buf.length then ⟨.left 3 feof, [.write (buf.take byteswritten)]⟩
          else
            let r := streamLoop s target pnotif fuel (i + 1) (pos + buf.length) crtCopied feof
            ⟨r.exit, .write buf ::
              (notified pnotif (.notifyCurrent (longToU64 crtCopied.toInt32)) ++ r.events)⟩

/-- How a copy ends. -/
inductive CopyEnd
  | returned (ret : Int32)
  | nullStream
  | running
  deriving DecidableEq, Repr

structure CopyRun where
  result : CopyEnd
  events : List CopyEvent

/-- What happens before the loop. -/
def begun (s : SourceStream) (target : Option (ℕ → ℕ)) (pnotif : Option Notifier) :
    List CopyEvent :=
  .openFrom :: ((if target.isSome then [.openTo] else []) ++
    notified pnotif (.notifyBegin (longToU64 (ftell s.content.length))))

/-- `usbdevice::msc_copy` for the streams that the two `_wfopen` give.  The second test is on the
source again. -/
def mscCopyRun (source : Option SourceStream) (target : Option (ℕ → ℕ))
    (pnotif : Option Notifier) : CopyRun :=
  match source with
  | none => ⟨.returned 1, []⟩
  | some s =>
    let r := streamLoop s target pnotif (s.content.length + 1) 0 0 0 false
    let ended := begun s target pnotif ++ r.events ++ notified pnotif .notifyEnd
    match r.exit with
    | .running => ⟨.running, begun s target pnotif ++ r.events⟩
    | .nullStream => ⟨.nullStream, begun s target pnotif ++ r.events⟩
    | .left _ false => ⟨.returned 4, ended⟩
    | .left _ true =>
      match target with
      | none => ⟨.nullStream, ended ++ [.closeFrom]⟩
      | some _ => ⟨.returned 0, ended ++ [.closeFrom, .closeTo]⟩

/-! ## What is read -/

namespace SourceStream

/-- The position before the `i`-th `fread`, if all before it are made. -/
def offset (s : SourceStream) : ℕ → ℕ
  | 0 => 0
  | i + 1 => s.offset i + (s.fread i (s.offset i)).1.length

/-- What the `i`-th `fread` gives… -/
def bytes (s : SourceStream) (i : ℕ) : List UInt8 := (s.fread i (s.offset i)).1

/-- …and whether it meets the end of the file. -/
def eof (s : SourceStream) (i : ℕ) : Bool := (s.fread i (s.offset i)).2

/-- One of the first `k` calls has met the end. -/
def eofBefore (s : SourceStream) (k : ℕ) : Bool := (List.range k).any s.eof

variable (s : SourceStream)

theorem offset_succ (i : ℕ) : s.offset (i + 1) = s.offset i + (s.bytes i).length := rfl

theorem eofBefore_succ (k : ℕ) : s.eofBefore (k + 1) = (s.eofBefore k || s.eof k) := by
  rw [eofBefore, List.range_succ, List.any_append, List.any_cons, List.any_nil, Bool.or_false,
    eofBefore]

theorem eofBefore_eq_true_iff {k : ℕ} : s.eofBefore k = true ↔ ∃ j < k, s.eof j = true := by
  simp [eofBefore]

/-- A read gives what follows in the file. -/
theorem bytes_eq_take (i : ℕ) :
    s.bytes i = (s.content.drop (s.offset i)).take (s.bytes i).length := by
  have htake : ∀ (l : List UInt8) n, l.take n = l.take (l.take n).length := fun l n => by
    rw [List.length_take, List.take_eq_take_min]
  rw [bytes, fread]
  cases s.short i with
  | none => exact htake _ _
  | some n => exact htake _ _

theorem length_bytes_le (i : ℕ) : s.offset i + (s.bytes i).length ≤ s.content.length ∨
    s.bytes i = [] := by
  by_cases h : s.bytes i = []
  · exact .inr h
  · have hlen := congrArg List.length (s.bytes_eq_take i)
    have hpos := List.length_pos_iff.mpr h
    rw [List.length_take, List.length_drop] at hlen
    omega

theorem offset_le (i : ℕ) : s.offset i ≤ s.content.length := by
  induction i with
  | zero => exact Nat.zero_le _
  | succ i ih =>
    rw [offset_succ]
    rcases s.length_bytes_le i with h | h
    · exact h
    · simpa [h] using ih

/-- What has been read before the `i`-th call. -/
theorem take_offset_succ (i : ℕ) :
    s.content.take (s.offset (i + 1)) = s.content.take (s.offset i) ++ s.bytes i := by
  rw [offset_succ, List.take_add, ← s.bytes_eq_take i]

/-- **Behind the end** there is nothing more to read. -/
theorem offset_of_eof {i : ℕ} (h : s.eof i = true) : s.offset (i + 1) = s.content.length := by
  have hle := s.offset_le i
  rw [eof, fread] at h
  rw [offset_succ, bytes, fread]
  cases hshort : s.short i with
  | some n => simp [hshort] at h
  | none =>
    have hlt : (s.content.drop (s.offset i)).length < maxBuf := by simpa [hshort] using h
    rw [List.take_of_length_le hlt.le, List.length_drop]
    omega

theorem bytes_of_offset {i : ℕ} (h : s.offset i = s.content.length) : s.bytes i = [] := by
  have := s.bytes_eq_take i
  rwa [h, List.drop_length, List.take_nil] at this

end SourceStream

/-! ## The round in which the loop is left -/

section Loop

variable (s : SourceStream) (target : Option (ℕ → ℕ)) (pnotif : Option Notifier)

/-- The `i`-th round copies all it reads. -/
def Copied (i : ℕ) : Prop :=
  aborted pnotif i = false ∧ s.bytes i ≠ [] ∧
    ∃ fwrite, target = some fwrite ∧ (s.bytes i).length ≤ fwrite i

/-- The `i`-th read takes place. -/
def Fetches (i : ℕ) : Prop :=
  (∀ j < i, Copied s target pnotif j) ∧ aborted pnotif i = false

/-- The `k`-th round is the first that does not. -/
def IsLast (k : ℕ) : Prop := (∀ j < k, Copied s target pnotif j) ∧ ¬ Copied s target pnotif k

/-- The flag behind `feof` when the loop is left in the `k`-th round. -/
def exitFeof (k : ℕ) : Bool := s.eofBefore k || (!aborted pnotif k && s.eof k)

/-- What a round that copies makes happen. -/
def roundEvents (i : ℕ) : List CopyEvent :=
  .write (s.bytes i) ::
    notified pnotif (.notifyCurrent (longToU64 (UInt32.ofNat (s.offset (i + 1))).toInt32))

/-- The last round. -/
def lastRound (k : ℕ) : LoopRun :=
  if aborted pnotif k then ⟨.left 0 (exitFeof s pnotif k), []⟩
  else if s.bytes k = [] then ⟨.left 0 (exitFeof s pnotif k), []⟩
  else
    match target with
    | none => ⟨.nullStream, []⟩
    | some fwrite => ⟨.left 3 (exitFeof s pnotif k), [.write ((s.bytes k).take (fwrite k))]⟩

variable {s target pnotif}

/-- Every round but the last reads something, so there is a last one. -/
theorem le_offset_of_copied : ∀ {k : ℕ}, (∀ j < k, Copied s target pnotif j) → k ≤ s.offset k
  | 0, _ => Nat.zero_le _
  | k + 1, h => by
      have ih := le_offset_of_copied fun j hj => h j (Nat.lt_succ_of_lt hj)
      have hpos := List.length_pos_iff.mpr (h k (Nat.lt_succ_self k)).2.1
      rw [s.offset_succ]
      omega

theorem exists_isLast (s : SourceStream) (target : Option (ℕ → ℕ)) (pnotif : Option Notifier) :
    ∃ k, IsLast s target pnotif k ∧ k ≤ s.content.length := by
  classical
  have hex : ∃ k, ¬ Copied s target pnotif k := by
    by_contra hall
    have hcopied : ∀ j < s.content.length + 1, Copied s target pnotif j := fun j _ =>
      not_not.mp (not_exists.mp hall j)
    have := (le_offset_of_copied hcopied).trans (s.offset_le _)
    omega
  have hlast : IsLast s target pnotif (Nat.find hex) :=
    ⟨fun j hj => not_not.mp (Nat.find_min hex hj), Nat.find_spec hex⟩
  exact ⟨_, hlast, (le_offset_of_copied hlast.1).trans (s.offset_le _)⟩

/-- A read that takes place is one of the rounds up to the last. -/
theorem Fetches.le {i k : ℕ} (h : Fetches s target pnotif i) (hk : IsLast s target pnotif k) :
    i ≤ k := Nat.le_of_not_lt fun hlt => hk.2 (h.1 k hlt)

section Round

variable {fwrite : ℕ → ℕ} {fuel i pos : ℕ} {crtCopied : UInt32} {feof eof : Bool}
  {buf : List UInt8}

/-- A round that is stopped… -/
theorem streamLoop_of_aborted (hgo : aborted pnotif i = true) :
    streamLoop s target pnotif (fuel + 1) i pos crtCopied feof = ⟨.left 0 feof, []⟩ := by
  rw [streamLoop, if_pos hgo]

/-- …one that reads nothing… -/
theorem streamLoop_of_nil (hgo : aborted pnotif i = false) (hread : s.fread i pos = ([], eof)) :
    streamLoop s target pnotif (fuel + 1) i pos crtCopied feof = ⟨.left 0 (feof || eof), []⟩ := by
  rw [streamLoop, if_neg (Bool.not_eq_true _ ▸ hgo), hread]
  rfl

/-- …one that writes to a stream that is not open… -/
theorem streamLoop_of_none (hgo : aborted pnotif i = false) (hread : s.fread i pos = (buf, eof))
    (hne : buf.length ≠ 0) (htarget : target = none) :
    streamLoop s target pnotif (fuel + 1) i pos crtCopied feof = ⟨.nullStream, []⟩ := by
  rw [streamLoop, if_neg (Bool.not_eq_true _ ▸ hgo), hread, htarget]
  exact if_neg hne

/-- …one whose block is written short… -/
theorem streamLoop_of_short (hgo : aborted pnotif i = false) (hread : s.fread i pos = (buf, eof))
    (htarget : target = some fwrite) (hshort : fwrite i < buf.length) :
    streamLoop s target pnotif (fuel + 1) i pos crtCopied feof =
      ⟨.left 3 (feof || eof), [.write (buf.take (fwrite i))]⟩ := by
  have hne : buf.length ≠ 0 := Nat.ne_of_gt (Nat.zero_lt_of_lt hshort)
  have hmin : min (fwrite i) buf.length = fwrite i := Nat.min_eq_left hshort.le
  rw [streamLoop, if_neg (Bool.not_eq_true _ ▸ hgo), hread, htarget]
  refine (if_neg hne).trans ?_
  dsimp only
  rw [hmin, if_pos hshort.ne]

/-- …and one that copies all it reads. -/
theorem streamLoop_of_copied (hgo : aborted pnotif i = false) (hread : s.fread i pos = (buf, eof))
    (hne : buf.length ≠ 0) (htarget : target = some fwrite) (hfull : buf.length ≤ fwrite i)
    {r : LoopRun}
    (hr : streamLoop s target pnotif fuel (i + 1) (pos + buf.length)
      (crtCopied + UInt32.ofNat buf.length) (feof || eof) = r) :
    streamLoop s target pnotif (fuel + 1) i pos crtCopied feof =
      ⟨r.exit, .write buf ::
        (notified pnotif (.notifyCurrent
          (longToU64 (crtCopied + UInt32.ofNat buf.length).toInt32)) ++ r.events)⟩ := by
  have hmin : min (fwrite i) buf.length = buf.length := Nat.min_eq_right hfull
  rw [streamLoop, if_neg (Bool.not_eq_true _ ▸ hgo), hread]
  refine (if_neg hne).trans ?_
  rw [htarget] at hr ⊢
  dsimp only
  rw [hmin, if_neg (not_not.mpr rfl), hr]

end Round

/-- **How the loop is left**: rounds that copy, and the last one. -/
theorem streamLoop_eq {k : ℕ} (hk : IsLast s target pnotif k) :
    ∀ {fuel i : ℕ}, i ≤ k → k < i + fuel →
      streamLoop s target pnotif fuel i (s.offset i) (UInt32.ofNat (s.offset i)) (s.eofBefore i) =
        ⟨(lastRound s target pnotif k).exit,
          (List.range' i (k - i)).flatMap (roundEvents s pnotif) ++
            (lastRound s target pnotif k).events⟩
  | 0, i, hik, hfuel => by omega
  | fuel + 1, i, hik, hfuel => by
      have hread : s.fread i (s.offset i) = (s.bytes i, s.eof i) := rfl
      rcases Nat.lt_or_eq_of_le hik with hlt | rfl
      · obtain ⟨hgo, hne, fwrite, htarget, hfull⟩ := hk.1 i hlt
        have hrange : List.range' i (k - i) = i :: List.range' (i + 1) (k - (i + 1)) := by
          rw [show k - i = k - (i + 1) + 1 by omega, List.range'_succ]
        have hrest : i + 1 ≤ k ∧ k < i + 1 + fuel := by omega
        have ih := streamLoop_eq hk hrest.1 hrest.2
        rw [s.eofBefore_succ, s.offset_succ, UInt32.ofNat_add] at ih
        rw [streamLoop_of_copied hgo hread (fun h => hne (List.length_eq_zero_iff.mp h)) htarget
          hfull ih, hrange, List.flatMap_cons, roundEvents, s.offset_succ, UInt32.ofNat_add,
          List.cons_append, List.cons_append, List.append_assoc]
      · rw [Nat.sub_self, List.range'_zero, List.flatMap_nil, List.nil_append]
        cases hgo : aborted pnotif i with
        | true => simp [streamLoop_of_aborted hgo, lastRound, exitFeof, hgo]
        | false =>
          by_cases hnil : s.bytes i = []
          · rw [hnil] at hread
            simp [streamLoop_of_nil hgo hread, lastRound, exitFeof, hgo, hnil]
          · have hne : (s.bytes i).length ≠ 0 := fun h => hnil (List.length_eq_zero_iff.mp h)
            cases htarget : target with
            | none => simp [streamLoop_of_none hgo hread hne, lastRound, hgo, hnil]
            | some fwrite =>
              have hshort : fwrite i < (s.bytes i).length := Nat.lt_of_not_le fun hfull =>
                hk.2 ⟨hgo, hnil, fwrite, htarget, hfull⟩
              simp [streamLoop_of_short hgo hread rfl hshort, lastRound, exitFeof, hgo, hnil]

/-- What the loop makes happen. -/
def loopEvents (s : SourceStream) (target : Option (ℕ → ℕ)) (pnotif : Option Notifier) (k : ℕ) :
    List CopyEvent :=
  (List.range k).flatMap (roundEvents s pnotif) ++ (lastRound s target pnotif k).events

theorem streamLoop_zero {k : ℕ} (hk : IsLast s target pnotif k) (hle : k ≤ s.content.length) :
    streamLoop s target pnotif (s.content.length + 1) 0 0 0 false =
      ⟨(lastRound s target pnotif k).exit, loopEvents s target pnotif k⟩ := by
  have h := streamLoop_eq hk (Nat.zero_le k) (by omega : k < 0 + (s.content.length + 1))
  rwa [Nat.sub_zero, ← List.range_eq_range'] at h

/-- **A copy between two open streams** returns, by the flag. -/
theorem mscCopyRun_of_open {fwrite : ℕ → ℕ} {k : ℕ} (hk : IsLast s (some fwrite) pnotif k)
    (hle : k ≤ s.content.length) :
    mscCopyRun (some s) (some fwrite) pnotif =
      ⟨.returned (if exitFeof s pnotif k then 0 else 4),
        begun s (some fwrite) pnotif ++ loopEvents s (some fwrite) pnotif k ++
          notified pnotif .notifyEnd ++
          if exitFeof s pnotif k then [.closeFrom, .closeTo] else []⟩ := by
  have hexit : ∃ retcode, (lastRound s (some fwrite) pnotif k).exit =
      .left retcode (exitFeof s pnotif k) := by
    rw [lastRound]
    split
    · exact ⟨0, rfl⟩
    · split
      · exact ⟨0, rfl⟩
      · exact ⟨3, rfl⟩
  obtain ⟨retcode, hexit⟩ := hexit
  rw [mscCopyRun, streamLoop_zero hk hle, hexit]
  cases exitFeof s pnotif k <;> simp

/-- A copy whose target could not be opened is left in the first round. -/
theorem isLast_of_none (s : SourceStream) (pnotif : Option Notifier) : IsLast s none pnotif 0 :=
  ⟨fun j hj => absurd hj (Nat.not_lt_zero j), fun h => by simp [Copied] at h⟩

/-- **A copy to a target that could not be opened** returns only if it does not come to write or to
close it. -/
theorem mscCopyRun_of_none (s : SourceStream) (pnotif : Option Notifier) :
    mscCopyRun (some s) none pnotif =
      if aborted pnotif 0 = true ∨ s.bytes 0 = [] ∧ s.eof 0 = false then
        ⟨.returned 4, begun s none pnotif ++ notified pnotif .notifyEnd⟩
      else if s.bytes 0 = [] then
        ⟨.nullStream, begun s none pnotif ++ notified pnotif .notifyEnd ++ [.closeFrom]⟩
      else ⟨.nullStream, begun s none pnotif⟩ := by
  rw [mscCopyRun, streamLoop_zero (isLast_of_none s pnotif) (Nat.zero_le _)]
  cases hgo : aborted pnotif 0 with
  | true => simp [lastRound, loopEvents, exitFeof, SourceStream.eofBefore, hgo]
  | false =>
    by_cases hnil : s.bytes 0 = []
    · cases heof : s.eof 0 <;>
        simp [lastRound, loopEvents, exitFeof, SourceStream.eofBefore, hgo, hnil, heof]
    · simp [lastRound, loopEvents, hgo, hnil]

/-- The flag is set if and only if some read that takes place meets the end. -/
theorem exitFeof_eq_true_iff {k : ℕ} (hk : IsLast s target pnotif k) :
    exitFeof s pnotif k = true ↔ ∃ i, Fetches s target pnotif i ∧ s.eof i = true := by
  rw [exitFeof, Bool.or_eq_true, s.eofBefore_eq_true_iff, Bool.and_eq_true, Bool.not_eq_true']
  constructor
  · rintro (⟨j, hj, heof⟩ | ⟨hgo, heof⟩)
    · exact ⟨j, ⟨fun i hi => hk.1 i (hi.trans hj), (hk.1 j hj).1⟩, heof⟩
    · exact ⟨k, ⟨hk.1, hgo⟩, heof⟩
  · rintro ⟨i, hi, heof⟩
    rcases Nat.lt_or_eq_of_le (hi.le hk) with hlt | rfl
    · exact .inl ⟨i, hlt, heof⟩
    · exact .inr ⟨hi.2, heof⟩

/-- Once the end has been met, everything is read. -/
theorem offset_of_eofBefore {k : ℕ} (hk : ∀ j < k, Copied s target pnotif j)
    (h : s.eofBefore k = true) : s.offset k = s.content.length := by
  obtain ⟨j, hj, heof⟩ := s.eofBefore_eq_true_iff.mp h
  have hend := s.offset_of_eof heof
  rcases Nat.lt_or_eq_of_le (Nat.succ_le_of_lt hj) with hlt | heq
  · exact absurd (s.bytes_of_offset hend) (hk (j + 1) hlt).2.1
  · exact heq ▸ hend

end Loop

/-! ## The coarser model -/

/-- A file that is read in whole blocks, up to its end or to an error. -/
def SourceFile.stream (f : SourceFile) : SourceStream :=
  ⟨f.content, fun _ => if f.complete then none else some maxBuf⟩

/-- What a caller sees of a copy. -/
def CopyEvent.toTransferEvent : CopyEvent → Option TransferEvent
  | .write bytes => some (.chunk bytes)
  | .notifyBegin size => some (.notifyBegin size.toInt64)
  | .notifyCurrent pos => some (.notifyCurrent pos.toInt64)
  | .notifyEnd => some .notifyEnd
  | _ => none

@[simp] theorem toTransferEvent_write (bytes : List UInt8) :
    (CopyEvent.write bytes).toTransferEvent = some (.chunk bytes) := rfl

@[simp] theorem toTransferEvent_closeFrom : CopyEvent.closeFrom.toTransferEvent = none := rfl

@[simp] theorem toTransferEvent_closeTo : CopyEvent.closeTo.toTransferEvent = none := rfl

def CopyRun.toTransferRun (r : CopyRun) : TransferRun :=
  ⟨match r.result with
    | .returned ret => some ret
    | _ => none,
    r.events.filterMap CopyEvent.toTransferEvent⟩

/-- The flag behind the loop, if it is left. -/
def LoopExit.feof : LoopExit → Option Bool
  | .left _ feof => some feof
  | _ => none

section Coarse

variable {f : SourceFile} {pnotif : Option Notifier}

/-- The number of blocks. -/
def SourceFile.blocks (f : SourceFile) : ℕ := (f.content.length + (maxBuf - 1)) / maxBuf

theorem fread_stream (f : SourceFile) (i pos : ℕ) :
    f.stream.fread i pos =
      ((f.content.drop pos).take maxBuf,
        decide ((f.content.drop pos).length < maxBuf) && f.complete) := by
  rw [SourceStream.fread, SourceFile.stream]
  cases f.complete <;> simp

theorem filterMap_notified {e : CopyEvent} {e' : TransferEvent} (h : e.toTransferEvent = some e') :
    (notified pnotif e).filterMap CopyEvent.toTransferEvent = told pnotif e' := by
  cases pnotif <;> simp [notified, told, h]

/-- The blocks of a file, by their reads. -/
theorem freads_eq (f : SourceFile) :
    f.freads = (List.range' 0 (f.blocks - 0)).map fun j =>
      (f.content.drop (j * maxBuf)).take maxBuf := by
  rw [SourceFile.freads, List.range_eq_range', Nat.sub_zero]
  rfl

/-- The read of one block… -/
theorem fread_of_lt {i : ℕ} (hlt : i < f.blocks) :
    ∃ buf, f.stream.fread i (min (i * maxBuf) f.content.length) =
        (buf, decide (buf.length < maxBuf) && f.complete) ∧
      (f.content.drop (i * maxBuf)).take maxBuf = buf ∧ buf.length ≠ 0 ∧
      min (i * maxBuf) f.content.length + buf.length =
        min ((i + 1) * maxBuf) f.content.length ∧
      (buf.length < maxBuf → f.blocks ≤ i + 1) := by
  have hblock : 0 < maxBuf := by decide
  have hpos : i * maxBuf < f.content.length := by
    have := (Nat.le_div_iff_mul_le hblock).mp (Nat.succ_le_of_lt hlt)
    rw [Nat.succ_mul] at this
    omega
  have hlen : ((f.content.drop (i * maxBuf)).take maxBuf).length =
      min maxBuf (f.content.length - i * maxBuf) := by rw [List.length_take, List.length_drop]
  refine ⟨_, ?_, rfl, by omega, ?_, fun hshort => ?_⟩
  · rw [Nat.min_eq_left hpos.le, fread_stream, hlen, List.length_drop]
    congr 2
    exact decide_eq_decide.mpr (by omega)
  · rw [hlen, Nat.succ_mul]
    omega
  · refine Nat.le_of_lt_succ ((Nat.div_lt_iff_lt_mul hblock).mpr ?_)
    rw [Nat.succ_mul, Nat.succ_mul]
    omega

/-- …and the one behind the last. -/
theorem fread_blocks (f : SourceFile) :
    f.stream.fread f.blocks (min (f.blocks * maxBuf) f.content.length) = ([], f.complete) := by
  have hle : f.content.length ≤ f.blocks * maxBuf := by
    have hdiv := Nat.div_add_mod (f.content.length + (maxBuf - 1)) maxBuf
    have hmod := Nat.mod_lt (f.content.length + (maxBuf - 1)) (by decide : 0 < maxBuf)
    rw [SourceFile.blocks, Nat.mul_comm]
    omega
  rw [Nat.min_eq_right hle, fread_stream, List.drop_length, List.take_nil, List.length_nil]
  simp [maxBuf]

/-- The loop over the blocks is the loop over the file.  A flag that is set is set by the last
block. -/
theorem streamLoop_stream (target : Option (ℕ → ℕ)) :
    ∀ {fuel i crtCopied : ℕ} {feof : Bool} {run : LoopRun}, i ≤ f.blocks → f.blocks < i + fuel →
      (feof = true → f.complete = true ∧ f.blocks ≤ i) →
      streamLoop f.stream target pnotif fuel i (min (i * maxBuf) f.content.length)
        (UInt32.ofNat crtCopied) feof = run →
      copyLoop pnotif f.complete target i crtCopied feof
          ((List.range' i (f.blocks - i)).map fun j =>
            (f.content.drop (j * maxBuf)).take maxBuf) =
        (run.events.filterMap CopyEvent.toTransferEvent, run.exit.feof)
  | 0, i, crtCopied, feof, run, hi, hfuel, hfeof, hrun => by omega
  | fuel + 1, i, crtCopied, feof, run, hi, hfuel, hfeof, hrun => by
      rcases Nat.lt_or_eq_of_le hi with hlt | heq
      · obtain ⟨buf, hread, hbuf, hne, hnext, hlast⟩ := fread_of_lt hlt
        have hrange : List.range' i (f.blocks - i) =
            i :: List.range' (i + 1) (f.blocks - (i + 1)) := by
          rw [show f.blocks - i = f.blocks - (i + 1) + 1 by omega, List.range'_succ]
        have hflag : feof = false := Bool.eq_false_of_not_eq_true fun h => by
          have := (hfeof h).2
          omega
        subst hflag
        rw [hrange, List.map_cons, hbuf, copyLoop]
        cases hgo : aborted pnotif i with
        | true =>
          rw [streamLoop_of_aborted hgo] at hrun
          subst hrun
          rfl
        | false =>
          cases htarget : target with
          | none =>
            rw [streamLoop_of_none hgo hread hne htarget] at hrun
            subst hrun
            rfl
          | some fwrite =>
            by_cases hshort : fwrite i < buf.length
            · rw [streamLoop_of_short hgo hread htarget hshort, Bool.false_or] at hrun
              subst hrun
              simp [LoopExit.feof, hshort]
            · -- the whole block is copied, and the rest follows
              obtain ⟨rest, hrest⟩ : ∃ rest, streamLoop f.stream target pnotif fuel (i + 1)
                  (min ((i + 1) * maxBuf) f.content.length)
                  (UInt32.ofNat (crtCopied + buf.length))
                  (decide (buf.length < maxBuf) && f.complete) = rest := ⟨_, rfl⟩
              have ih := streamLoop_stream target hlt (by omega)
                (fun h => by simpa [and_comm] using And.imp_left hlast (by simpa using h)) hrest
              rw [← hnext, UInt32.ofNat_add, ← Bool.false_or (_ && _)] at hrest
              rw [streamLoop_of_copied hgo hread hne htarget (Nat.le_of_not_lt hshort) hrest,
                ← UInt32.ofNat_add] at hrun
              subst hrun
              rw [htarget] at ih
              simp only [Bool.false_eq_true, if_false, hshort, ih, toTransferEvent_write,
                List.filterMap_cons, List.filterMap_append]
              rw [filterMap_notified rfl]
              rfl
      · have hread := fread_blocks f
        rw [heq] at hrun
        rw [heq, Nat.sub_self, List.range'_zero, List.map_nil, copyLoop]
        cases hgo : aborted pnotif f.blocks with
        | true =>
          rw [streamLoop_of_aborted hgo] at hrun
          subst hrun
          rfl
        | false =>
          rw [streamLoop_of_nil hgo hread] at hrun
          subst hrun
          have hflag : (feof || f.complete) = f.complete := by
            cases feof with
            | false => rfl
            | true => exact (hfeof rfl).1.symm
          rw [hflag]
          rfl

/-- **The two models of `msc_copy` agree**, where a read stops early only at an error. -/
theorem mscCopy_eq_mscCopyRun (files : LocalFiles) (pnotif : Option Notifier) (src dest : WStr) :
    mscCopy files pnotif src dest =
      (mscCopyRun ((files.source src).map SourceFile.stream) (files.target dest)
        pnotif).toTransferRun := by
  rw [mscCopy]
  cases files.source src with
  | none => rfl
  | some f =>
    have hfuel : f.blocks < 0 + (f.content.length + 1) := by
      rw [SourceFile.blocks, maxBuf]
      omega
    obtain ⟨run, hrun⟩ : ∃ run, streamLoop f.stream (files.target dest) pnotif
        (f.content.length + 1) 0 0 0 false = run := ⟨_, rfl⟩
    have hzero : min (0 * maxBuf) f.content.length = 0 := by simp
    have hloop := streamLoop_stream (files.target dest) (Nat.zero_le f.blocks) hfuel
      (fun h => absurd h Bool.false_ne_true) (hzero ▸ hrun)
    rw [← freads_eq] at hloop
    have hbegun : (begun f.stream (files.target dest) pnotif).filterMap
        CopyEvent.toTransferEvent = told pnotif (.notifyBegin (ftell f.content.length).toInt64) := by
      cases files.target dest <;> cases pnotif <;> rfl
    have hended : (notified pnotif .notifyEnd).filterMap CopyEvent.toTransferEvent =
        told pnotif .notifyEnd := filterMap_notified rfl
    have hcontent : f.stream.content = f.content := rfl
    simp only [Option.map_some, mscCopyRun, hcontent, hrun, hloop]
    obtain ⟨exit, events⟩ := run
    cases exit with
    | running => simp [CopyRun.toTransferRun, LoopExit.feof, List.filterMap_append, hbegun]
    | nullStream => simp [CopyRun.toTransferRun, LoopExit.feof, List.filterMap_append, hbegun]
    | left retcode feof =>
      cases feof with
      | false =>
        simp [CopyRun.toTransferRun, LoopExit.feof, List.filterMap_append, hbegun, hended]
      | true =>
        cases htarget : files.target dest <;> rw [htarget] at hbegun <;>
          simp [CopyRun.toTransferRun, LoopExit.feof, List.filterMap_append, hbegun, hended]

end Coarse

end MtpRetag
