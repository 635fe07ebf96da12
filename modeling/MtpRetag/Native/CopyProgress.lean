import MtpRetag.Native.CopyResult
import Mathlib.Tactic.NormNum

/-!
# Native/CopyProgress — what `msc_copy` tells its notifier

The number of bytes copied is counted in a `size_t` of 32 bits, cast to a `long`, and widened to an
`unsigned __int64`; the announced size is what `ftell` gives.

`progressProtocol_iff` is the exact condition under which the notifier can make sense of it.
-/

namespace MtpRetag

/-! ## Progress -/

/-- The notifications of a run. -/
def notifications (events : List CopyEvent) : List CopyEvent :=
  events.filter fun e =>
    match e with
    | .notifyBegin _ | .notifyCurrent _ | .notifyEnd => true
    | _ => false

/-- Each position that is told is the number of bytes written, where `n` were written before. -/
def PositionsExact : ℕ → List CopyEvent → Prop
  | _, [] => True
  | n, .write bytes :: events => PositionsExact (n + bytes.length) events
  | n, .notifyCurrent pos :: events => pos.toNat = n ∧ PositionsExact n events
  | n, _ :: events => PositionsExact n events

/-- One begin, one end, and in between exact positions that increase up to the size. -/
structure ProgressProtocol (r : CopyRun) : Prop where
  order : ∃ (size : UInt64) (positions : List UInt64),
    notifications r.events =
      .notifyBegin size :: (positions.map CopyEvent.notifyCurrent ++ [.notifyEnd]) ∧
    positions.Pairwise (· < ·) ∧ ∀ pos ∈ positions, pos ≤ size
  exact : PositionsExact 0 r.events

section Progress

variable {s : SourceStream} {fwrite : ℕ → ℕ} {n : Notifier}

/-- The position that is told when `offset i` bytes are copied. -/
def toldPosition (s : SourceStream) (i : ℕ) : UInt64 :=
  longToU64 (UInt32.ofNat (s.offset i)).toInt32

/-- **A `long` is widened with its sign.** -/
theorem toNat_longToU64 {m : ℕ} (h : m < 2 ^ 32) :
    (longToU64 (UInt32.ofNat m).toInt32).toNat = if m < 2 ^ 31 then m else 2 ^ 64 - 2 ^ 32 + m := by
  have hbits : (longToU64 (UInt32.ofNat m).toInt32).toNat =
      ((BitVec.ofNat 32 m).signExtend 64).toNat := rfl
  rw [hbits, BitVec.toNat_signExtend, BitVec.msb_eq_decide]
  simp only [BitVec.toNat_setWidth, BitVec.toNat_ofNat, decide_eq_true_eq]
  split <;> split <;> omega

theorem toldPosition_eq_offset_iff {i : ℕ} (h : s.content.length ≤ 2 ^ 32 - 1) :
    (toldPosition s i).toNat = s.offset i ↔ s.offset i < 2 ^ 31 := by
  have hle := s.offset_le i
  rw [toldPosition, toNat_longToU64 (by omega)]
  split <;> omega

theorem notifications_append (events events' : List CopyEvent) :
    notifications (events ++ events') = notifications events ++ notifications events' :=
  List.filter_append ..

theorem positionsExact_append :
    ∀ (events events' : List CopyEvent) (m : ℕ), PositionsExact m (events ++ events') ↔
      PositionsExact m events ∧ PositionsExact (m + (received events).length) events'
  | [], events', m => by simp [PositionsExact, received]
  | e :: events, events', m => by
      have hreceived : received (e :: events) = received [e] ++ received events :=
        received_append [e] events
      cases e with
      | write bytes =>
        have hwrite : received [.write bytes] = bytes := List.append_nil bytes
        rw [List.cons_append, PositionsExact, PositionsExact, positionsExact_append, hreceived,
          hwrite, List.length_append, Nat.add_assoc]
      | notifyCurrent pos =>
        rw [List.cons_append, PositionsExact, PositionsExact, positionsExact_append, hreceived,
          and_assoc]
        rfl
      | _ => exact positionsExact_append events events' m

/-- The rounds that copy tell one position each… -/
theorem notifications_rounds (k : ℕ) :
    notifications ((List.range k).flatMap (roundEvents s (some n))) =
      ((List.range k).map fun i => toldPosition s (i + 1)).map CopyEvent.notifyCurrent := by
  induction k with
  | zero => rfl
  | succ k ih =>
    rw [List.range_succ, List.flatMap_append, List.flatMap_singleton, notifications_append, ih,
      List.map_append, List.map_append]
    rfl

/-- …and which of them are exact. -/
theorem positionsExact_rounds (k : ℕ) :
    PositionsExact 0 ((List.range k).flatMap (roundEvents s (some n))) ↔
      ∀ i < k, (toldPosition s (i + 1)).toNat = s.offset (i + 1) := by
  induction k with
  | zero => simp [PositionsExact]
  | succ k ih =>
    have hlen : (received ((List.range k).flatMap (roundEvents s (some n)))).length =
        s.offset k := by
      rw [received_rounds, List.length_take, Nat.min_eq_left (s.offset_le k)]
    have hround : PositionsExact (s.offset k) (roundEvents s (some n) k) ↔
        (toldPosition s (k + 1)).toNat = s.offset (k + 1) := by
      rw [roundEvents, PositionsExact, ← s.offset_succ]
      exact and_iff_left trivial
    rw [List.range_succ, List.flatMap_append, List.flatMap_singleton, positionsExact_append, ih,
      hlen, Nat.zero_add, hround]
    constructor
    · rintro ⟨hbefore, hlast⟩ i hi
      rcases Nat.lt_succ_iff_lt_or_eq.mp hi with hlt | rfl
      · exact hbefore i hlt
      · exact hlast
    · exact fun h => ⟨fun i hi => h i (Nat.lt_succ_of_lt hi), h k (Nat.lt_succ_self k)⟩

/-- What the last round writes is told nobody. -/
theorem lastRound_silent (s : SourceStream) (fwrite : ℕ → ℕ) (n : Notifier) (k : ℕ) :
    notifications (lastRound s (some fwrite) (some n) k).events = [] ∧
      ∀ m, PositionsExact m (lastRound s (some fwrite) (some n) k).events := by
  rw [lastRound]
  split
  · exact ⟨rfl, fun _ => trivial⟩
  · split
    · exact ⟨rfl, fun _ => trivial⟩
    · exact ⟨rfl, fun _ => trivial⟩

/-- Rounds that copy come forward. -/
theorem offset_lt_of_copied {k : ℕ} (hk : ∀ j < k, Copied s (some fwrite) (some n) j) {i j : ℕ}
    (hij : i < j) (hjk : j ≤ k) : s.offset i < s.offset j := by
  induction hij with
  | refl =>
    have hpos := List.length_pos_iff.mpr (hk i hjk).2.1
    rw [s.offset_succ]
    omega
  | @step j _ ih =>
    have := ih (by omega)
    rw [s.offset_succ]
    omega

/-- The positions of rounds that copy increase, below `2 ^ 31`, and reach no further than the
size. -/
theorem toldPosition_order {k : ℕ} (hlen : s.content.length ≤ 2 ^ 32 - 1)
    (hk : ∀ j < k, Copied s (some fwrite) (some n) j)
    (hexact : ∀ i < k, (toldPosition s (i + 1)).toNat = s.offset (i + 1)) :
    ((List.range k).map fun i => toldPosition s (i + 1)).Pairwise (· < ·) ∧
      ∀ pos ∈ (List.range k).map fun i => toldPosition s (i + 1),
        pos ≤ longToU64 (ftell s.content.length) := by
  constructor
  · refine List.pairwise_map.mpr (List.pairwise_iff_getElem.mpr fun i j hi hj hij => ?_)
    rw [List.length_range] at hi hj
    rw [List.getElem_range, List.getElem_range, UInt64.lt_iff_toNat_lt, hexact i hi, hexact j hj]
    exact offset_lt_of_copied hk (Nat.succ_lt_succ hij) hj
  · intro pos hpos
    obtain ⟨i, hi, rfl⟩ := List.mem_map.mp hpos
    have hi' := List.mem_range.mp hi
    have hle := s.offset_le (i + 1)
    rw [UInt64.le_iff_toNat_le, hexact i hi', ftell]
    split
    case isTrue hsmall =>
      have hsize : (longToU64 (Int32.ofNat s.content.length)).toNat = s.content.length := by
        have := toNat_longToU64 (m := s.content.length) (by omega)
        rwa [if_pos hsmall] at this
      omega
    case isFalse =>
      -- a size that a `long` does not hold is announced as the largest of all
      have hsize : (longToU64 (-1)).toNat = 2 ^ 64 - 1 := by decide
      omega

/-- The events of a copy between two open streams with a notifier. -/
theorem events_of_open {k : ℕ} (hk : IsLast s (some fwrite) (some n) k)
    (hle : k ≤ s.content.length) :
    ∃ closes, notifications closes = [] ∧ (∀ m, PositionsExact m closes) ∧
      (mscCopyRun (some s) (some fwrite) (some n)).events =
        begun s (some fwrite) (some n) ++ (List.range k).flatMap (roundEvents s (some n)) ++
          (lastRound s (some fwrite) (some n) k).events ++ [.notifyEnd] ++ closes := by
  rw [mscCopyRun_of_open hk hle]
  refine ⟨if exitFeof s (some n) k then [.closeFrom, .closeTo] else [], ?_, fun m => ?_, ?_⟩
  · split <;> rfl
  · split <;> trivial
  · simp [loopEvents, notified]

/-- **When the positions are exact**: no block is copied beyond `2 ^ 31` bytes. -/
theorem positionsExact_iff (hlen : s.content.length ≤ 2 ^ 32 - 1) :
    PositionsExact 0 (mscCopyRun (some s) (some fwrite) (some n)).events ↔
      ∀ i, (∀ j ≤ i, Copied s (some fwrite) (some n) j) → s.offset (i + 1) < 2 ^ 31 := by
  obtain ⟨k, hk, hle⟩ := exists_isLast s (some fwrite) (some n)
  obtain ⟨closes, -, hcloses, hevents⟩ := events_of_open hk hle
  have hsilent := (lastRound_silent s fwrite n k).2
  have hbegun : received (begun s (some fwrite) (some n)) = [] := received_begun
  have hrounds : PositionsExact 0 (mscCopyRun (some s) (some fwrite) (some n)).events ↔
      ∀ i < k, (toldPosition s (i + 1)).toNat = s.offset (i + 1) := by
    rw [hevents, ← positionsExact_rounds]
    simp only [positionsExact_append, hbegun, List.length_nil, Nat.zero_add]
    constructor
    · exact fun h => h.1.1.1.2
    · exact fun h => ⟨⟨⟨⟨trivial, h⟩, hsilent _⟩, trivial⟩, hcloses _⟩
  rw [hrounds]
  constructor
  · intro h i hi
    have hik : i < k := Nat.lt_of_not_le fun hki => hk.2 (hi k hki)
    exact (toldPosition_eq_offset_iff hlen).mp (h i hik)
  · exact fun h i hi => (toldPosition_eq_offset_iff hlen).mpr
      (h i fun j hj => hk.1 j (Nat.lt_of_le_of_lt hj hi))

/-- **When progress is exact.**  A copy between two open streams tells the protocol exactly if no
block is copied beyond `2 ^ 31` bytes, where a `long` turns negative. -/
theorem progressProtocol_iff (s : SourceStream) (fwrite : ℕ → ℕ) (n : Notifier)
    (hlen : s.content.length ≤ 2 ^ 32 - 1) :
    ProgressProtocol (mscCopyRun (some s) (some fwrite) (some n)) ↔
      ∀ i, (∀ j ≤ i, Copied s (some fwrite) (some n) j) → s.offset (i + 1) < 2 ^ 31 := by
  refine ⟨fun h => (positionsExact_iff hlen).mp h.exact, fun h => ?_⟩
  obtain ⟨k, hk, hle⟩ := exists_isLast s (some fwrite) (some n)
  obtain ⟨closes, hcloses, -, hevents⟩ := events_of_open hk hle
  have hsilent := (lastRound_silent s fwrite n k).1
  have htold : ∀ i < k, (toldPosition s (i + 1)).toNat = s.offset (i + 1) := fun i hi =>
    (toldPosition_eq_offset_iff hlen).mpr (h i fun j hj => hk.1 j (Nat.lt_of_le_of_lt hj hi))
  obtain ⟨hincreasing, hbound⟩ := toldPosition_order hlen hk.1 htold
  refine ⟨⟨longToU64 (ftell s.content.length), _, ?_, hincreasing, hbound⟩,
    (positionsExact_iff hlen).mpr h⟩
  have hbegun : notifications (begun s (some fwrite) (some n)) =
      [.notifyBegin (longToU64 (ftell s.content.length))] := rfl
  have hend : notifications [.notifyEnd] = [.notifyEnd] := rfl
  rw [hevents]
  simp only [notifications_append, hbegun, notifications_rounds, hsilent, hend, hcloses,
    List.append_nil, List.nil_append, List.cons_append]

/-- Where no read stops early, the reads are whole blocks. -/
theorem offset_of_whole (hshort : ∀ i, s.short i = none) {i : ℕ}
    (h : i * maxBuf ≤ s.content.length) : s.offset i = i * maxBuf := by
  induction i with
  | zero => exact (Nat.zero_mul maxBuf).symm
  | succ i ih =>
    rw [Nat.succ_mul] at h ⊢
    have hprev := ih (Nat.le_of_add_right_le h)
    have hbytes : s.bytes i = (s.content.drop (i * maxBuf)).take maxBuf := by
      rw [SourceStream.bytes, SourceStream.fread, hshort i, hprev]
    rw [s.offset_succ, hbytes, hprev, List.length_take, List.length_drop]
    omega

end Progress

/-- A file of `2 ^ 31` bytes that is copied without trouble. -/
theorem not_progressProtocol_large :
    ¬ ProgressProtocol (mscCopyRun (some ⟨List.replicate (2 ^ 31) 0, fun _ => none⟩)
      (some fun _ => maxBuf) (some ⟨fun _ => false⟩)) := by
  obtain ⟨s, hs⟩ : ∃ s : SourceStream, s = ⟨List.replicate (2 ^ 31) 0, fun _ => none⟩ := ⟨_, rfl⟩
  have hlen : s.content.length = 2 ^ 21 * maxBuf := by
    rw [hs, List.length_replicate, maxBuf]
    norm_num
  have hwhole : ∀ {i}, i * maxBuf ≤ s.content.length → s.offset i = i * maxBuf :=
    offset_of_whole fun i => by rw [hs]
  have hsmall : s.content.length ≤ 2 ^ 32 - 1 := by rw [hlen, maxBuf]; norm_num
  have hcopied : ∀ j ≤ 2 ^ 21 - 1, Copied s (some fun _ => maxBuf) (some ⟨fun _ => false⟩) j := by
    intro j hj
    have hnext : (j + 1) * maxBuf ≤ s.content.length := by
      rw [hlen]
      exact Nat.mul_le_mul_right maxBuf (by omega)
    have hbytes := s.offset_succ j
    rw [hwhole hnext, hwhole ((Nat.mul_le_mul_right maxBuf (Nat.le_succ j)).trans hnext),
      Nat.succ_mul] at hbytes
    have hblock : (s.bytes j).length = maxBuf := by omega
    refine ⟨rfl, fun hnil => ?_, _, rfl, hblock.le⟩
    simp [hnil, maxBuf] at hblock
  rw [← hs]
  intro h
  have hbound := (positionsExact_iff hsmall).mp h.exact (2 ^ 21 - 1) hcopied
  rw [hwhole (by rw [hlen]; norm_num), maxBuf] at hbound
  norm_num at hbound

/-- Three bytes are announced exactly. -/
theorem progressProtocol_iff_sample :
    ProgressProtocol (mscCopyRun (some ⟨[1, 2, 3], fun _ => none⟩) (some fun _ => maxBuf)
      (some ⟨fun _ => false⟩)) :=
  (progressProtocol_iff ⟨[1, 2, 3], fun _ => none⟩ (fun _ => maxBuf) ⟨fun _ => false⟩
    (by decide)).mpr fun i _ =>
      Nat.lt_of_le_of_lt (SourceStream.offset_le ⟨[1, 2, 3], fun _ => none⟩ (i + 1)) (by decide)

end MtpRetag
