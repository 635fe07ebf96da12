import MtpRetag.Native.ReadFile

/-!
# Native/Abort — what a transfer tells its notifier, and when it stops

A notifier is asked whether to go on by `is_abort`.  `msc_copy` asks it before each block of the
file; a WMDM transfer calls `CUsbPmpTransferNotifier` back after each chunk, whose `Progress` passes
the position on and returns `S_OK`.

`abort_exact` is the exact condition under which no chunk follows an answer to stop.
-/

namespace MtpRetag

/-! ## Notifiers -/

/-- A chunk of the file is transferred, or the Java notifier is told something. -/
inductive TransferEvent
  | chunk (bytes : List UInt8)
  | notifyBegin (size : Int64)
  | notifyCurrent (pos : Int64)
  | notifyEnd
  deriving DecidableEq, Repr

/-- A caller's notifier: what it answers to `is_abort` when `i` chunks have been transferred. -/
structure Notifier where
  isAbort : ℕ → Bool

/-- A notification, through a pointer that may be NULL. -/
def told (pnotif : Option Notifier) (e : TransferEvent) : List TransferEvent :=
  if pnotif.isSome then [e] else []

/-- `pnotif && pnotif->is_abort()`. -/
def aborted (pnotif : Option Notifier) (i : ℕ) : Bool := pnotif.elim false fun n => n.isAbort i

/-- What a copy returns, unless it writes through NULL, and what happened on the way. -/
structure TransferRun where
  ret : Option HRESULT
  events : List TransferEvent

/-! ## `msc_copy` -/

def maxBuf : ℕ := 1024

/-- A file that can be opened for reading: its bytes, up to its end or, where it is not `complete`,
up to an error. -/
structure SourceFile where
  content : List UInt8
  complete : Bool

/-- The files of the system.  A file that can be opened for writing says how many bytes its `i`-th
`fwrite` can write. -/
structure LocalFiles where
  source : WStr → Option SourceFile
  target : WStr → Option (ℕ → ℕ)

/-- What `fread` gives, call by call, before it gives nothing. -/
def SourceFile.freads (f : SourceFile) : List (List UInt8) :=
  (List.range ((f.content.length + (maxBuf - 1)) / maxBuf)).map fun i =>
    (f.content.drop (i * maxBuf)).take maxBuf

/-- `ftell` at the end of a file, which a `long` must hold. -/
def ftell (size : ℕ) : Int32 := if size < 2 ^ 31 then Int32.ofNat size else -1

/-- The loop of `msc_copy`, from the `i`-th round on: what happens, and `feof` behind the loop
unless it writes through NULL. -/
def copyLoop (pnotif : Option Notifier) (complete : Bool) (fTo : Option (ℕ → ℕ)) :
    ℕ → ℕ → Bool → List (List UInt8) → List TransferEvent × Option Bool
  | i, _, feof, [] => if aborted pnotif i then ([], some feof) else ([], some complete)
  | i, crtCopied, feof, buf :: bufs =>
    if aborted pnotif i then ([], some feof)
    else
      let feof := decide (buf.length < maxBuf) && complete
      let crtCopied := crtCopied + buf.length
      match fTo with
      | none => ([], none)
      | some fwrite =>
        if fwrite i < buf.length then ([.chunk (buf.take (fwrite i))], some feof)
        else
          let (events, feof) := copyLoop pnotif complete fTo (i + 1) crtCopied feof bufs
          (.chunk buf :: (told pnotif (.notifyCurrent (Int32.ofNat crtCopied).toInt64) ++ events),
            feof)

/-- `usbdevice::msc_copy`.  A target that cannot be opened is not noticed: the test is on the source
again.  A failed `fwrite` sets a `retcode` that is not returned. -/
def mscCopy (files : LocalFiles) (pnotif : Option Notifier) (src dest : WStr) : TransferRun :=
  match files.source src with
  | none => ⟨some 1, []⟩
  | some f =>
    let begun := told pnotif (.notifyBegin (ftell f.content.length).toInt64)
    match copyLoop pnotif f.complete (files.target dest) 0 0 false f.freads with
    | (events, none) => ⟨none, begun ++ events⟩
    | (events, some feof) =>
      ⟨if feof then (if (files.target dest).isSome then some 0 else none) else some 4,
        begun ++ events ++ told pnotif .notifyEnd⟩

/-! ## A WMDM transfer -/

/-- `CUsbPmpTransferNotifier`, with its `_internalNotif`. -/
structure CUsbPmpTransferNotifier where
  internalNotif : Option Notifier

namespace CUsbPmpTransferNotifier

/-- `Begin`. -/
def beginTransfer (n : CUsbPmpTransferNotifier) (dwEstimatedTicks : UInt32) :
    HRESULT × List TransferEvent :=
  (sOk, told n.internalNotif (.notifyBegin (Int64.ofNat dwEstimatedTicks.toNat)))

/-- `Progress`. -/
def progress (n : CUsbPmpTransferNotifier) (dwTranspiredTicks : UInt32) :
    HRESULT × List TransferEvent :=
  (sOk, told n.internalNotif (.notifyCurrent (Int64.ofNat dwTranspiredTicks.toNat)))

/-- `End`. -/
def endTransfer (n : CUsbPmpTransferNotifier) : HRESULT × List TransferEvent :=
  (sOk, told n.internalNotif .notifyEnd)

end CUsbPmpTransferNotifier

/-- How WMDM transfers a file if it is not stopped: its estimate, and its chunks, each with the
ticks that `Progress` is then called with. -/
structure WmdmTransfer where
  dwEstimatedTicks : UInt32
  chunks : List (List UInt8 × UInt32)

/-- The chunks of a blocking transfer, which goes on exactly as long as `Progress` returns
`S_OK`. -/
def progressLoop (sink : Option CUsbPmpTransferNotifier) :
    List (List UInt8 × UInt32) → List TransferEvent
  | [] => []
  | (bytes, ticks) :: chunks =>
    match sink with
    | none => .chunk bytes :: progressLoop sink chunks
    | some n =>
      .chunk bytes :: ((n.progress ticks).2 ++
        if (n.progress ticks).1 = sOk then progressLoop sink chunks else [])

/-- A blocking transfer. -/
def blockingTransfer (sink : Option CUsbPmpTransferNotifier) (job : WmdmTransfer) :
    List TransferEvent :=
  sink.elim [] (fun n => (n.beginTransfer job.dwEstimatedTicks).2) ++
    progressLoop sink job.chunks ++
    sink.elim [] fun n => n.endTransfer.2

/-- The `spWMDMProgress` of a transfer that got a progress sink, or not. -/
def spWMDMProgress (pnotif : Option Notifier) (progress : Bool) : Option CUsbPmpTransferNotifier :=
  if progress then some ⟨pnotif⟩ else none

/-! ## The two directions -/

/-- A run of `usbdevice::transfer_file`. -/
def transferFileRun (files : LocalFiles) (job : WmdmTransfer) (pnotif : Option Notifier) (w : World)
    (hr : Outcomes) (usbdev : UsbDevice) (src dest : WStr) (metadata : Option FileMetadata) :
    TransferRun :=
  match usbdev.mode with
  | .msc =>
    if 0 < usbdev.mountpoint.length then
      mscCopy files pnotif (cStr src) (cStr (usbdev.mountpoint ++ dest))
    else ⟨some 1, []⟩
  | .mtp =>
    match transferMtp w hr usbdev.rootStorage src dest metadata with
    | .error _ => ⟨none, []⟩
    | .ok r =>
      ⟨some r.ret, if r.insert3.isSome then blockingTransfer (spWMDMProgress pnotif r.progress) job
        else []⟩
  | _ => ⟨some 1, []⟩

/-- A run of `usbdevice::read_file`. -/
def readFileRun (files : LocalFiles) (job : WmdmTransfer) (pnotif : Option Notifier)
    (hr : Outcomes) (usbdev : UsbDevice) (src dest : WStr) : TransferRun :=
  match usbdev.mode with
  | .msc =>
    if 0 < usbdev.mountpoint.length then
      mscCopy files pnotif (cStr (usbdev.mountpoint ++ src)) (cStr dest)
    else ⟨some 1, []⟩
  | .mtp =>
    let r := readMtp hr usbdev.rootStorage src
    ⟨some r.ret,
      if r.read.isSome then blockingTransfer (spWMDMProgress pnotif r.progress) job else []⟩
  | _ => ⟨some 1, []⟩

section Ret

variable {files : LocalFiles} {pnotif : Option Notifier} {w : World} {usbdev : UsbDevice}
  {src dest : WStr}

/-- A run returns what `transferFile` does, with the copy that `w` stands for… -/
theorem ret_transferFileRun (job : WmdmTransfer) (hr : Outcomes) (metadata : Option FileMetadata)
    (hcopy : (mscCopy files pnotif (cStr src) (cStr (usbdev.mountpoint ++ dest))).ret =
      some (w.mscCopy (cStr src) (cStr (usbdev.mountpoint ++ dest)))) :
    (transferFileRun files job pnotif w hr usbdev src dest metadata).ret =
      (transferFile w hr usbdev src dest metadata).toOption.map TransferResult.ret := by
  rw [transferFileRun, transferFile]
  cases usbdev.mode with
  | undef => rfl
  | other raw => rfl
  | msc =>
    dsimp only
    split
    · exact hcopy
    · rfl
  | mtp =>
    cases transferMtp w hr usbdev.rootStorage src dest metadata with
    | error e => rfl
    | ok r => rfl

/-- …and what `readFile` does. -/
theorem ret_readFileRun (job : WmdmTransfer) (hr : Outcomes)
    (hcopy : (mscCopy files pnotif (cStr (usbdev.mountpoint ++ src)) (cStr dest)).ret =
      some (w.mscCopy (cStr (usbdev.mountpoint ++ src)) (cStr dest))) :
    (readFileRun files job pnotif hr usbdev src dest).ret =
      some (readFile w hr usbdev src dest).ret := by
  rw [readFileRun, readFile]
  cases usbdev.mode with
  | undef => rfl
  | other raw => rfl
  | mtp => rfl
  | msc =>
    dsimp only
    split
    · exact hcopy
    · rfl

end Ret

/-! ## When an answer is honoured -/

/-- The chunks of a run. -/
def chunksOf (events : List TransferEvent) : List (List UInt8) :=
  events.filterMap fun e =>
    match e with
    | .chunk bytes => some bytes
    | _ => none

/-- No chunk follows an answer to stop. -/
def Honours (n : Notifier) (events : List TransferEvent) : Prop :=
  ∀ i, n.isAbort i = true → (chunksOf events).length ≤ i

/-- The final `Insert3` is reached: the walk arrives, the interfaces are there, and so is the
metadata if there is an object for it. -/
def ReachesInsert3 (hr : Outcomes) (t : Storage) (dest : WStr) (metadata : Option FileMetadata) :
    Prop :=
  splitString dest [slash] false ≠ [] ∧
    ∃ q, Walks hr true [] t.children (splitString dest [slash] false).dropLast q ∧
      Succeeded (hr (.queryStorage3 q)) ∧ Succeeded (hr (.queryControl3 q)) ∧
      (hr (.createEmptyMetadata q) = sOk → metadata ≠ none)

/-- `Read` is reached. -/
def ReachesRead (hr : Outcomes) (t : Storage) (src : WStr) : Prop :=
  ∃ q, ArrivesAt hr t src q ∧
    Succeeded (hr (.queryStorage3 q)) ∧ Succeeded (hr (.queryControl3 q))

section Honours

variable {n : Notifier} {pnotif : Option Notifier} {hr : Outcomes} {t : Storage} {src dest : WStr}
  {metadata : Option FileMetadata}

@[simp] theorem chunksOf_append (events events' : List TransferEvent) :
    chunksOf (events ++ events') = chunksOf events ++ chunksOf events' :=
  List.filterMap_append

@[simp] theorem chunksOf_chunk (bytes : List UInt8) (events : List TransferEvent) :
    chunksOf (.chunk bytes :: events) = bytes :: chunksOf events := rfl

theorem chunksOf_told {e : TransferEvent} (he : chunksOf [e] = []) :
    chunksOf (told pnotif e) = [] := by
  rw [told]
  split
  · exact he
  · rfl

@[simp] theorem chunksOf_told_begin (size : Int64) :
    chunksOf (told pnotif (.notifyBegin size)) = [] := chunksOf_told rfl

@[simp] theorem chunksOf_told_current (pos : Int64) :
    chunksOf (told pnotif (.notifyCurrent pos)) = [] := chunksOf_told rfl

@[simp] theorem chunksOf_told_end : chunksOf (told pnotif .notifyEnd) = [] := chunksOf_told rfl

/-- **The loop asks before each block**, and stops at the first answer to stop. -/
theorem length_copyLoop_le (complete : Bool) (fTo : Option (ℕ → ℕ)) {j : ℕ}
    (hj : n.isAbort j = true) :
    ∀ (bufs : List (List UInt8)) (i crtCopied : ℕ) (feof : Bool), i ≤ j →
      i + (chunksOf (copyLoop (some n) complete fTo i crtCopied feof bufs).1).length ≤ j
  | [], i, crtCopied, feof, hi => by
      rw [copyLoop]
      split <;> exact hi
  | buf :: bufs, i, crtCopied, feof, hi => by
      rw [copyLoop]
      by_cases habort : aborted (some n) i = true
      · rw [if_pos habort]
        exact hi
      · have hne : i ≠ j := fun heq => habort (heq ▸ hj)
        have hlt : i + 1 ≤ j := by omega
        rw [if_neg habort]
        cases fTo with
        | none => exact hi
        | some fwrite =>
          dsimp only
          split
          · exact hlt
          · have ih := length_copyLoop_le complete (some fwrite) hj bufs (i + 1)
              (crtCopied + buf.length) (decide (buf.length < maxBuf) && complete) hlt
            simp only [chunksOf_chunk, chunksOf_append, chunksOf_told_current, List.nil_append,
              List.length_cons]
            omega

/-- **A copy to or from a volume honours every answer.** -/
theorem honours_mscCopy (files : LocalFiles) (n : Notifier) (src dest : WStr) :
    Honours n (mscCopy files (some n) src dest).events := by
  intro j hj
  rw [mscCopy]
  cases files.source src with
  | none => exact Nat.zero_le j
  | some f =>
    have hloop := length_copyLoop_le f.complete (files.target dest) hj f.freads 0 0 false
      (Nat.zero_le j)
    rw [Nat.zero_add] at hloop
    dsimp only
    split
    next events heq =>
      rw [heq] at hloop
      simpa using hloop
    next events feof heq =>
      rw [heq] at hloop
      simpa using hloop

/-- `Progress` never stops a transfer: all its chunks are transferred. -/
theorem chunksOf_progressLoop (sink : Option CUsbPmpTransferNotifier) :
    ∀ chunks : List (List UInt8 × UInt32), chunksOf (progressLoop sink chunks) = chunks.map Prod.fst
  | [] => rfl
  | (bytes, ticks) :: chunks => by
      have ih := chunksOf_progressLoop sink chunks
      cases sink with
      | none => simp [progressLoop, ih]
      | some m => simp [progressLoop, CUsbPmpTransferNotifier.progress, ih]

theorem chunksOf_blockingTransfer (sink : Option CUsbPmpTransferNotifier) (job : WmdmTransfer) :
    chunksOf (blockingTransfer sink job) = job.chunks.map Prod.fst := by
  rw [blockingTransfer, chunksOf_append, chunksOf_append, chunksOf_progressLoop]
  cases sink with
  | none => simp [chunksOf]
  | some m => simp [CUsbPmpTransferNotifier.beginTransfer, CUsbPmpTransferNotifier.endTransfer]

/-- **A blocking transfer honours an answer only if it comes too late to matter.** -/
theorem honours_blockingTransfer_iff (sink : Option CUsbPmpTransferNotifier) (job : WmdmTransfer) :
    Honours n (blockingTransfer sink job) ↔ ∀ i < job.chunks.length, n.isAbort i = false := by
  rw [Honours, chunksOf_blockingTransfer, List.length_map]
  constructor
  · intro h i hi
    exact Bool.eq_false_of_not_eq_true fun habort => absurd (h i habort) (by omega)
  · intro h i habort
    by_contra hlt
    simp [h i (by omega)] at habort

theorem honours_nil (n : Notifier) : Honours n [] := fun i _ => Nat.zero_le i

theorem insertInto_reaches_iff (w : World) (p : Pos) (src filename : WStr) (progress : Bool)
    (ret : HRESULT) :
    (∃ r, insertInto w hr t p src filename metadata progress ret = .ok r ∧
        r.insert3.isSome = true) ↔
      Succeeded (hr (.queryStorage3 p)) ∧ Succeeded (hr (.queryControl3 p)) ∧
        (hr (.createEmptyMetadata p) = sOk → metadata ≠ none) := by
  rcases missing_or_queries hr p with hmiss | ⟨h3, hc⟩
  case inl =>
    rw [insertInto_of_missing hmiss]
    exact iff_of_false (by simp) fun h => hmiss.elim (fun h3 => h3 h.1) fun hc => hc h.2.1
  rw [insertInto_of_queries h3 hc]
  by_cases hcreate : hr (.createEmptyMetadata p) = sOk
  · cases metadata with
    | none => simp [transferMetadata, hcreate]
    | some m => simp [transferMetadata, hcreate, h3, hc, insert3_insert3]
  · simp [transferMetadata, hcreate, h3, hc, insert3_insert3]

/-- Whether `transfer_file` gets to its final `Insert3`. -/
theorem transferMtp_reaches_iff (w : World) (src : WStr) :
    (∃ r, transferMtp w hr t src dest metadata = .ok r ∧ r.insert3.isSome = true) ↔
      ReachesInsert3 hr t dest metadata := by
  have hroot : t.sub? [] = some t := Rose.sub?_nil t
  rw [transferMtp, ReachesInsert3]
  by_cases hnil : splitString dest [slash] false = []
  · simp [hnil]
  rw [if_neg hnil, afterWalk]
  rcases walkFolders_storage_cases hr true (splitString dest [slash] false).dropLast hroot with
    ⟨q, hq, hstorage⟩ | ⟨hno, hstorage⟩
  · rw [hstorage]
    dsimp only
    rw [insertInto_reaches_iff]
    constructor
    · exact fun h => ⟨hnil, q, hq, h⟩
    · rintro ⟨-, q', hq', h⟩
      obtain rfl := hq.unique hroot hq'
      exact h
  · rw [hstorage]
    constructor
    · rintro ⟨r, hr', hins⟩
      obtain rfl := Except.ok.inj hr'
      simp at hins
    · rintro ⟨-, q, hq, -⟩
      exact absurd hq (hno q)

/-- Whether `read_file` gets to `Read`. -/
theorem readMtp_reaches_iff : (readMtp hr t src).read.isSome = true ↔ ReachesRead hr t src := by
  rcases readMtp_cases hr t src with ⟨hno, heq⟩ | ⟨q, hq, ⟨hmiss, heq⟩ | ⟨h3, hc, heq⟩⟩
  · rw [heq]
    exact iff_of_false (by simp) fun ⟨q, hq, _⟩ => hno q hq
  · rw [heq]
    refine iff_of_false (by simp) fun ⟨q', hq', h3, hc⟩ => ?_
    obtain rfl := hq.unique hq'
    exact hmiss.elim (fun h => h h3) fun h => h hc
  · rw [heq]
    exact iff_of_true rfl ⟨q, hq, h3, hc⟩

theorem honours_transferFileRun_iff (files : LocalFiles) (job : WmdmTransfer) (n : Notifier)
    (w : World) (hr : Outcomes) (usbdev : UsbDevice) (src dest : WStr)
    (metadata : Option FileMetadata) :
    Honours n (transferFileRun files job (some n) w hr usbdev src dest metadata).events ↔
      (usbdev.mode = .mtp → ReachesInsert3 hr usbdev.rootStorage dest metadata →
        ∀ i < job.chunks.length, n.isAbort i = false) := by
  rw [transferFileRun]
  cases hmode : usbdev.mode with
  | undef => simp [honours_nil]
  | other raw => simp [honours_nil]
  | msc =>
    refine iff_of_true ?_ (by simp)
    dsimp only
    split
    · exact honours_mscCopy files n _ _
    · exact honours_nil n
  | mtp =>
    rw [← transferMtp_reaches_iff w src]
    cases hrun : transferMtp w hr usbdev.rootStorage src dest metadata with
    | error fault => simp [honours_nil]
    | ok r =>
      cases hins : r.insert3 with
      | none => simp [hins, honours_nil]
      | some e => simp [hins, honours_blockingTransfer_iff]

theorem honours_readFileRun_iff (files : LocalFiles) (job : WmdmTransfer) (n : Notifier)
    (hr : Outcomes) (usbdev : UsbDevice) (src dest : WStr) :
    Honours n (readFileRun files job (some n) hr usbdev src dest).events ↔
      (usbdev.mode = .mtp → ReachesRead hr usbdev.rootStorage src →
        ∀ i < job.chunks.length, n.isAbort i = false) := by
  rw [readFileRun]
  cases hmode : usbdev.mode with
  | undef => simp [honours_nil]
  | other raw => simp [honours_nil]
  | msc =>
    refine iff_of_true ?_ (by simp)
    dsimp only
    split
    · exact honours_mscCopy files n _ _
    · exact honours_nil n
  | mtp =>
    rw [← readMtp_reaches_iff]
    cases hread : (readMtp hr usbdev.rootStorage src).read with
    | none => simp [hread, honours_nil]
    | some e => simp [hread, honours_blockingTransfer_iff]

end Honours

/-- **When an abort is honoured.**  In MSC mode always; in MTP mode exactly if the transfer itself
is not reached or the notifier never answers to stop while there are chunks left.  For both
directions. -/
theorem abort_exact (files : LocalFiles) (job : WmdmTransfer) (n : Notifier) (w : World)
    (hr : Outcomes) (usbdev : UsbDevice) (src dest : WStr) (metadata : Option FileMetadata) :
    (Honours n (transferFileRun files job (some n) w hr usbdev src dest metadata).events ↔
      (usbdev.mode = .mtp → ReachesInsert3 hr usbdev.rootStorage dest metadata →
        ∀ i < job.chunks.length, n.isAbort i = false)) ∧
    (Honours n (readFileRun files job (some n) hr usbdev src dest).events ↔
      (usbdev.mode = .mtp → ReachesRead hr usbdev.rootStorage src →
        ∀ i < job.chunks.length, n.isAbort i = false)) :=
  ⟨honours_transferFileRun_iff files job n w hr usbdev src dest metadata,
    honours_readFileRun_iff files job n hr usbdev src dest⟩

/-- A notifier that asks to stop after the first chunk, and a transfer of two. -/
def Notifier.sample : Notifier := ⟨fun i => 0 < i⟩

def WmdmTransfer.sample : WmdmTransfer := ⟨2, [([1], 1), ([2], 2)]⟩

/-- A player takes both, and gives both. -/
theorem abort_ignored :
    ¬ Honours .sample (transferFileRun ⟨fun _ => none, fun _ => none⟩ .sample (some .sample) .sample
        (fun _ => sOk) (.emptyPlayer (wide "player")) (wide "C:\\a.mp3") (wide "/a.mp3")
        (some ⟨[], [], [], [], 0⟩)).events ∧
    ¬ Honours .sample (readFileRun ⟨fun _ => none, fun _ => none⟩ .sample (some .sample)
        (fun _ => sOk) .filePlayer (wide "/a.mp3") (wide "C:\\a.mp3")).events :=
  ⟨fun h => absurd (h 1 rfl) (by decide), fun h => absurd (h 1 rfl) (by decide)⟩

end MtpRetag
