import MtpRetag.Native.MscCopy

/-!
# Native/CopyResult — what `msc_copy` returns, and what it leaves open

Zero is returned where the end of the source has been met, whatever the last write was; the streams
are closed only there.  The test whether the target could be opened asks about the source.

`copiesSafely_iff` and `closesStreams_iff` are the exact conditions under which a copy is safe and
complete, and under which its streams are closed.
-/

namespace MtpRetag

/-! ## Safe and complete -/

/-- What the target has received. -/
def received (events : List CopyEvent) : List UInt8 :=
  events.flatMap fun e =>
    match e with
    | .write bytes => bytes
    | _ => []

/-- A copy comes to an end, uses no stream that is not open, and returns zero only if the target has
received the source. -/
structure CopiesSafely (source : Option SourceStream) (target : Option (ℕ → ℕ))
    (pnotif : Option Notifier) : Prop where
  terminates : (mscCopyRun source target pnotif).result ≠ .running
  opened : (mscCopyRun source target pnotif).result ≠ .nullStream
  complete : (mscCopyRun source target pnotif).result = .returned 0 →
    ∃ s, source = some s ∧ received (mscCopyRun source target pnotif).events = s.content

/-- A target that could not be opened is neither written nor closed, and no block that ends with the
file is written short. -/
structure SafeInputs (s : SourceStream) (target : Option (ℕ → ℕ)) (pnotif : Option Notifier) :
    Prop where
  unopened : target = none → aborted pnotif 0 = false → s.bytes 0 = [] ∧ s.eof 0 = false
  lastWrite : ∀ fwrite i, target = some fwrite → Fetches s target pnotif i → s.eof i = true →
    (s.bytes i).length ≤ fwrite i

section Safe

variable {s : SourceStream} {target : Option (ℕ → ℕ)} {pnotif : Option Notifier}

@[simp] theorem received_append (events events' : List CopyEvent) :
    received (events ++ events') = received events ++ received events' :=
  List.flatMap_append

@[simp] theorem received_begun : received (begun s target pnotif) = [] := by
  cases target <;> cases pnotif <;> rfl

@[simp] theorem received_notified_end : received (notified pnotif .notifyEnd) = [] := by
  cases pnotif <;> rfl

@[simp] theorem received_roundEvents (i : ℕ) : received (roundEvents s pnotif i) = s.bytes i := by
  cases pnotif <;> simp [roundEvents, notified, received]

/-- **What the rounds that copy write** is the source up to there. -/
theorem received_rounds (s : SourceStream) (pnotif : Option Notifier) (k : ℕ) :
    received ((List.range k).flatMap (roundEvents s pnotif)) = s.content.take (s.offset k) := by
  induction k with
  | zero => rfl
  | succ k ih =>
    rw [List.range_succ, List.flatMap_append, List.flatMap_singleton, received_append, ih,
      received_roundEvents, s.take_offset_succ]

/-- …and what a copy between two open streams writes, with what the last round writes behind it. -/
theorem received_of_open (s : SourceStream) (fwrite : ℕ → ℕ) (pnotif : Option Notifier) (k : ℕ) :
    received (begun s (some fwrite) pnotif ++ loopEvents s (some fwrite) pnotif k ++
        notified pnotif .notifyEnd ++ [.closeFrom, .closeTo]) =
      s.content.take (s.offset k) ++ received (lastRound s (some fwrite) pnotif k).events := by
  have hclose : received [.closeFrom, .closeTo] = [] := rfl
  simp [loopEvents, received_rounds, hclose]

/-- A copy between two open streams that returns zero is complete, if the block that ends with the
file is not written short. -/
theorem received_eq_content_iff {fwrite : ℕ → ℕ} {k : ℕ} (hk : IsLast s (some fwrite) pnotif k)
    (hfeof : exitFeof s pnotif k = true) :
    received (begun s (some fwrite) pnotif ++ loopEvents s (some fwrite) pnotif k ++
        notified pnotif .notifyEnd ++ [.closeFrom, .closeTo]) = s.content ↔
      (Fetches s (some fwrite) pnotif k → s.eof k = true → (s.bytes k).length ≤ fwrite k) := by
  rw [received_of_open]
  have hend : s.eofBefore k = true → s.content.take (s.offset k) = s.content ∧ s.bytes k = [] := by
    intro h
    have hoffset := offset_of_eofBefore hk.1 h
    exact ⟨by rw [hoffset, List.take_length], s.bytes_of_offset hoffset⟩
  cases hgo : aborted pnotif k with
  | true =>
    have hbefore : s.eofBefore k = true := by simpa [exitFeof, hgo] using hfeof
    have hevents : (lastRound s (some fwrite) pnotif k).events = [] := by simp [lastRound, hgo]
    rw [hevents, (hend hbefore).1]
    exact iff_of_true (List.append_nil _) fun h => absurd (hgo.symm.trans h.2) (by simp)
  | false =>
    have heither : s.eofBefore k = true ∨ s.eof k = true := by simpa [exitFeof, hgo] using hfeof
    by_cases hnil : s.bytes k = []
    · -- nothing is left to be read
      have hoffset : s.offset k = s.content.length := by
        rcases heither with h | h
        · exact offset_of_eofBefore hk.1 h
        · simpa [s.offset_succ, hnil] using s.offset_of_eof h
      have hevents : (lastRound s (some fwrite) pnotif k).events = [] := by
        simp [lastRound, hgo, hnil]
      rw [hevents, hoffset, List.take_length]
      exact iff_of_true (List.append_nil _) fun _ _ => by simp [hnil]
    · -- the block that ends with the file is written short
      have heof : s.eof k = true := heither.resolve_left fun h => hnil (hend h).2
      have hshort : fwrite k < (s.bytes k).length := by
        by_contra hfull
        exact hk.2 ⟨hgo, hnil, fwrite, rfl, by omega⟩
      have hevents : (lastRound s (some fwrite) pnotif k).events =
          [.write ((s.bytes k).take (fwrite k))] := by simp [lastRound, hgo, hnil]
      have hcontent : s.content = s.content.take (s.offset k) ++ s.bytes k := by
        rw [← s.take_offset_succ, s.offset_of_eof heof, List.take_length]
      rw [hevents]
      refine iff_of_false (fun h => ?_) fun h => absurd (h ⟨hk.1, hgo⟩ heof) (by omega)
      have hsame := List.append_cancel_left (h.trans hcontent)
      have := congrArg List.length hsame
      simp only [received, List.flatMap_cons, List.flatMap_nil, List.append_nil,
        List.length_take] at this
      omega

/-- Between two open streams, the copy is safe exactly if the last block is not written short. -/
theorem copiesSafely_of_open {fwrite : ℕ → ℕ} :
    CopiesSafely (some s) (some fwrite) pnotif ↔ SafeInputs s (some fwrite) pnotif := by
  obtain ⟨k, hk, hle⟩ := exists_isLast s (some fwrite) pnotif
  have hrun := mscCopyRun_of_open hk hle
  have hlater : ∀ i, Fetches s (some fwrite) pnotif i → i ≠ k →
      (s.bytes i).length ≤ fwrite i := fun i hi hne => by
    obtain ⟨-, -, _, hsome, hfull⟩ := hk.1 i (Nat.lt_of_le_of_ne (hi.le hk) hne)
    obtain rfl := Option.some.inj hsome
    exact hfull
  have hsafe : SafeInputs s (some fwrite) pnotif ↔
      (Fetches s (some fwrite) pnotif k → s.eof k = true → (s.bytes k).length ≤ fwrite k) := by
    refine ⟨fun h => h.lastWrite fwrite k rfl, fun h => ⟨fun hnone => by simp at hnone, ?_⟩⟩
    rintro _ i hsome hi heof
    obtain rfl := Option.some.inj hsome
    by_cases hik : i = k
    · exact hik ▸ h (hik ▸ hi) (hik ▸ heof)
    · exact hlater i hi hik
  rw [hsafe]
  cases hfeof : exitFeof s pnotif k with
  | true =>
    rw [← received_eq_content_iff hk hfeof]
    rw [hfeof] at hrun
    constructor
    · rintro ⟨-, -, hcomplete⟩
      obtain ⟨s', hs', hall⟩ := hcomplete (by rw [hrun]; rfl)
      obtain rfl := Option.some.inj hs'
      rwa [hrun] at hall
    · intro h
      refine ⟨by simp [hrun], by simp [hrun], fun _ => ⟨s, rfl, ?_⟩⟩
      rw [hrun]
      exact h
  | false =>
    rw [hfeof] at hrun
    refine iff_of_true ⟨by simp [hrun], by simp [hrun], fun h => ?_⟩ fun hfetch heof => ?_
    · simp [hrun] at h
    · have := (exitFeof_eq_true_iff hk).mpr ⟨k, hfetch, heof⟩
      simp [hfeof] at this

/-- Without an open target, exactly if it is not come to. -/
theorem copiesSafely_of_none : CopiesSafely (some s) none pnotif ↔ SafeInputs s none pnotif := by
  have hsafe : SafeInputs s none pnotif ↔
      aborted pnotif 0 = true ∨ s.bytes 0 = [] ∧ s.eof 0 = false := by
    constructor
    · intro h
      cases hgo : aborted pnotif 0 with
      | true => exact .inl rfl
      | false => exact .inr (h.unopened rfl hgo)
    · refine fun h => ⟨fun _ hgo => h.resolve_left (by simp [hgo]), ?_⟩
      exact fun _ _ hsome => by simp at hsome
  have hrun := mscCopyRun_of_none s pnotif
  rw [hsafe]
  by_cases h : aborted pnotif 0 = true ∨ s.bytes 0 = [] ∧ s.eof 0 = false
  · rw [if_pos h] at hrun
    exact iff_of_true ⟨by simp [hrun], by simp [hrun], fun h0 => by simp [hrun] at h0⟩ h
  · rw [if_neg h] at hrun
    refine iff_of_false (fun hcopies => hcopies.opened ?_) h
    rw [hrun]
    split <;> rfl

theorem forall_eq_some_iff {α : Type*} {a : α} {P : α → Prop} :
    (∀ b, some a = some b → P b) ↔ P a := by simp

/-- **When a copy is safe.**  It always comes to an end.  It uses no unopened stream and returns zero
for complete copies only, exactly if a target that could not be opened is not come to, and no block
that ends with the file is written short. -/
theorem copiesSafely_iff (source : Option SourceStream) (target : Option (ℕ → ℕ))
    (pnotif : Option Notifier) :
    CopiesSafely source target pnotif ↔ ∀ s, source = some s → SafeInputs s target pnotif := by
  cases source with
  | none =>
    exact iff_of_true ⟨by simp [mscCopyRun], by simp [mscCopyRun], fun h => by
      simp [mscCopyRun] at h⟩ fun s hs => by simp at hs
  | some s =>
    rw [forall_eq_some_iff]
    cases target with
    | none => exact copiesSafely_of_none
    | some fwrite => exact copiesSafely_of_open

end Safe

/-- Three bytes, of which two can be written, and three for a target that could not be opened. -/
theorem copy_unsafe :
    ¬ CopiesSafely (some ⟨[1, 2, 3], fun _ => none⟩) (some fun _ => 2) none ∧
      ¬ CopiesSafely (some ⟨[1, 2, 3], fun _ => none⟩) none none := by
  constructor
  · intro h
    obtain ⟨s, hs, hall⟩ := h.complete (by decide)
    obtain rfl := Option.some.inj hs
    exact absurd hall (by decide)
  · exact fun h => h.opened (by decide)

/-! ## Closed streams -/

/-- Where a copy returns, what it has opened is closed once. -/
def ClosesStreams (r : CopyRun) : Prop :=
  ∀ ret, r.result = .returned ret →
    r.events.count .closeFrom = r.events.count .openFrom ∧
      r.events.count .closeTo = r.events.count .openTo

section Closes

variable {s : SourceStream} {target : Option (ℕ → ℕ)} {pnotif : Option Notifier}

/-- The loop opens and closes nothing. -/
theorem count_loopEvents {e : CopyEvent} (k : ℕ) (hwrite : ∀ bytes, e ≠ .write bytes)
    (hcurrent : ∀ pos, e ≠ .notifyCurrent pos) :
    (loopEvents s target pnotif k).count e = 0 := by
  have hround : ∀ i, e ∉ roundEvents s pnotif i := fun i => by
    cases pnotif <;> simp [roundEvents, notified, hwrite, hcurrent]
  have hlast : e ∉ (lastRound s target pnotif k).events := by
    cases target <;> simp only [lastRound] <;> split
    · simp
    · split <;> simp
    · simp
    · split <;> simp [hwrite]
  refine List.count_eq_zero.mpr fun hmem => ?_
  rcases List.mem_append.mp hmem with h | h
  · obtain ⟨i, -, hi⟩ := List.mem_flatMap.mp h
    exact hround i hi
  · exact hlast h

/-- What is open behind the loop. -/
theorem count_ended (s : SourceStream) (target : Option (ℕ → ℕ)) (pnotif : Option Notifier)
    (k : ℕ) {events : List CopyEvent}
    (h : events = begun s target pnotif ++ loopEvents s target pnotif k ++
      notified pnotif .notifyEnd) :
    events.count .openFrom = 1 ∧ events.count .openTo = (if target.isSome then 1 else 0) ∧
      events.count .closeFrom = 0 ∧ events.count .closeTo = 0 := by
  have hcount : ∀ e, (∀ bytes, e ≠ .write bytes) → (∀ pos, e ≠ .notifyCurrent pos) →
      events.count e = (begun s target pnotif).count e + (notified pnotif .notifyEnd).count e := by
    intro e hwrite hcurrent
    rw [h, List.count_append, List.count_append, count_loopEvents k hwrite hcurrent, Nat.add_zero]
  rw [hcount _ (by simp) (by simp), hcount _ (by simp) (by simp), hcount _ (by simp) (by simp),
    hcount _ (by simp) (by simp)]
  cases target <;> cases pnotif <;> simp [begun, notified]

/-- Two open streams are closed exactly if the end of the file was met. -/
theorem closesStreams_of_open {fwrite : ℕ → ℕ} {k : ℕ} (hk : IsLast s (some fwrite) pnotif k)
    (hle : k ≤ s.content.length) :
    ClosesStreams (mscCopyRun (some s) (some fwrite) pnotif) ↔ exitFeof s pnotif k = true := by
  obtain ⟨events, hevents⟩ : ∃ events, events = begun s (some fwrite) pnotif ++
      loopEvents s (some fwrite) pnotif k ++ notified pnotif .notifyEnd := ⟨_, rfl⟩
  obtain ⟨hfrom, hto, hnofrom, hnoto⟩ := count_ended s (some fwrite) pnotif k hevents
  rw [ClosesStreams, mscCopyRun_of_open hk hle, ← hevents]
  cases exitFeof s pnotif k with
  | true => simp [List.count_append, hfrom, hto, hnofrom, hnoto]
  | false => simp [hfrom, hto, hnofrom, hnoto]

/-- An open source alone is closed, where the copy returns, in no case. -/
theorem closesStreams_of_none :
    ClosesStreams (mscCopyRun (some s) none pnotif) ↔
      ¬ (aborted pnotif 0 = true ∨ s.bytes 0 = [] ∧ s.eof 0 = false) := by
  rw [ClosesStreams, mscCopyRun_of_none]
  by_cases h : aborted pnotif 0 = true ∨ s.bytes 0 = [] ∧ s.eof 0 = false
  · rw [if_pos h]
    refine iff_of_false (fun hcloses => ?_) (not_not.mpr h)
    have := (hcloses 4 rfl).1
    cases pnotif <;> simp [begun, notified] at this
  · rw [if_neg h]
    refine iff_of_true (fun ret hret => ?_) h
    split at hret <;> simp at hret

/-- **When the streams are closed.**  Where a copy returns, exactly if a read that took place met the
end of the file, or the copy never returned from writing to a target that could not be opened. -/
theorem closesStreams_iff (source : Option SourceStream) (target : Option (ℕ → ℕ))
    (pnotif : Option Notifier) :
    ClosesStreams (mscCopyRun source target pnotif) ↔ ∀ s, source = some s →
      (∃ i, Fetches s target pnotif i ∧ s.eof i = true) ∨
        target = none ∧ aborted pnotif 0 = false ∧ s.bytes 0 ≠ [] := by
  cases source with
  | none => exact iff_of_true (fun ret _ => ⟨rfl, rfl⟩) fun s hs => by simp at hs
  | some s =>
    rw [forall_eq_some_iff]
    obtain ⟨k, hk, hle⟩ := exists_isLast s target pnotif
    rw [← exitFeof_eq_true_iff hk]
    cases target with
    | some fwrite => simp [closesStreams_of_open hk hle]
    | none =>
      obtain rfl : k = 0 := Nat.le_zero.mp (Nat.le_of_not_lt fun hpos =>
        (isLast_of_none s pnotif).2 (hk.1 0 hpos))
      rw [closesStreams_of_none]
      have hbefore : s.eofBefore 0 = false := rfl
      rw [exitFeof, hbefore, Bool.false_or]
      cases aborted pnotif 0 <;> cases s.eof 0 <;> simp

end Closes

/-- A copy that is stopped at once leaves both streams open. -/
theorem streams_left_open :
    (mscCopyRun (some ⟨[1, 2, 3], fun _ => none⟩) (some fun _ => 1024)
        (some ⟨fun _ => true⟩)).result = .returned 4 ∧
      ¬ ClosesStreams (mscCopyRun (some ⟨[1, 2, 3], fun _ => none⟩) (some fun _ => 1024)
        (some ⟨fun _ => true⟩)) :=
  ⟨by decide, fun h => absurd (h 4 (by decide)) (by decide)⟩

end MtpRetag
