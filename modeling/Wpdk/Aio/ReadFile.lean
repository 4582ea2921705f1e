import Mathlib.Algebra.BigOperators.Group.List.Basic
import Mathlib.Logic.Function.Iterate
import Wpdk.Aio.Submit
import Wpdk.Aio.VectoredSettle

/-!
# Vectored and plain reads

`wpdk_aio_readv` reads the segments of a vector one after the other, at offsets that follow each
other, and `wpdk_aio_read` reads as many bytes at once.  With a `ReadFile` that completes inside
the call the two can be compared: on what is posted or returned, and on the bytes.

The bytes always agree.  The results do unless the file ends where a segment does: the segment
after that is at the end of the file, its `ReadFile` fails, and `wpdk_aio_iov_abort` finds that no
other transfer is active.  It takes the request for one that has not been started, frees it and
returns an error; the plain read posts the number of bytes up to the end of the file.

* `readFile`, `fileOracle`: a file, as the transfers of a vector see it.
* `readvStep`, `readvRun`: `wpdk_aio_readv` with the buffers of the segments, to its end.
* `endsInError`: whether the vectored read runs into the end of the file between two segments.
* `readv_endsIn`: how the loop of `wpdk_aio_readv` ends, from any segment on.
* `aio_readv_agrees_iff`: when the two reads agree.
-/

namespace Wpdk
namespace Aio

/-! ## A file -/

/-- The conversion of a length to `DWORD`. -/
def dword (len : ℕ) : ℕ := len % 4294967296

/-- `ReadFile` at an offset: the bytes that there are, or `ERROR_HANDLE_EOF`. -/
def readFile (file : List (BitVec 8)) (offset n : ℕ) : Option (List (BitVec 8)) :=
  if offset < file.length then some ((file.drop offset).take n) else none

/-- What becomes of a transfer. -/
def readOutcome (file : List (BitVec 8)) (offset len : ℕ) : Outcome :=
  match readFile file offset (dword len) with
  | some bytes => .inline bytes.length
  | none => .failed .errorHandleEof

theorem readOutcome_possible (file : List (BitVec 8)) (offset len : ℕ) :
    (readOutcome file offset len).Possible len := by
  unfold readOutcome readFile
  split_ifs
  · show ((file.drop offset).take (dword len)).length ≤ len
    rw [List.length_take]
    exact (Nat.min_le_left _ _).trans (Nat.mod_le _ _)
  · exact ⟨by decide, by decide⟩

/-- The offset of a segment. -/
def segmentOffset (offset : ℕ) (iov : List ℕ) (i : ℕ) : ℕ := offset + (iov.take i).sum

/-- The transfers of a vector. -/
def fileOracle (file : List (BitVec 8)) (offset : ℕ) (iov : List ℕ) : TransferOracle :=
  fun _ i len => ⟨readOutcome file (segmentOffset offset iov i) len, readOutcome_possible _ _ _⟩

/-! ## The two reads -/

/-- A vectored read, and what is in the buffers of its segments. -/
structure ReadvState where
  req : VecRequest
  buffers : ℕ → List (BitVec 8)

section Readv

variable (file : List (BitVec 8)) (offset : ℕ) (iov : List ℕ)

/-- What `ReadFile` puts into a buffer when a segment is issued; an empty one is not passed to
it. -/
def transferInto (buffers : ℕ → List (BitVec 8)) (i len : ℕ) : ℕ → List (BitVec 8) :=
  if len = 0 then buffers
  else
    match readFile file (segmentOffset offset iov i) (dword len) with
    | some bytes => Function.update buffers i bytes
    | none => buffers

/-- One step of `wpdk_aio_readv`. -/
def readvStep (s : ReadvState) : Option ReadvState :=
  (aioReadv (fileOracle file offset iov) iov s.req .submit).map fun req =>
    ⟨req,
      match s.req.pc with
      | .issue i =>
        match iov[i]? with
        | some len => transferInto file offset iov s.buffers i len
        | none => s.buffers
      | _ => s.buffers⟩

/-- A step, as long as there is one. -/
def readvAdvance (s : ReadvState) : ReadvState := (readvStep file offset iov s).getD s

/-- `wpdk_aio_readv` to its end: there are at most three steps for each segment and three more. -/
def readvRun : ReadvState :=
  (readvAdvance file offset iov)^[3 * iov.length + 3]
    ⟨aioAllocateVector iov.length, fun _ => []⟩

/-- The bytes of all segments, in their order. -/
def ReadvState.bytes (s : ReadvState) (n : ℕ) : List (BitVec 8) :=
  (List.range n).flatMap s.buffers

/-- The transfer of `wpdk_aio_read`. -/
def plainRead (hdr : IoHeader) (task : IoTask) (len : ℕ) : IoHeader × Entry :=
  issuePlain hdr task ⟨len, readOutcome file offset len, readOutcome_possible file offset len⟩

/-- The buffer of `wpdk_aio_read`. -/
def plainBuffer (len : ℕ) : List (BitVec 8) :=
  if len = 0 then [] else (readFile file offset (dword len)).getD []

end Readv

/-- What a read comes to: an event with a result is posted, or an error is returned. -/
inductive ReadResult where
  | posted (res : ℤ)
  | error (rc : ℤ)
deriving DecidableEq

/-- The result of a vectored read, once it has come to an end. -/
def VecRequest.readResult (req : VecRequest) : Option ReadResult :=
  match req.pc, req.posted with
  | .returned _, [res] => some (.posted res)
  | .aborted rc, [] => some (.error rc)
  | _, _ => none

/-- The result of a plain read, once it has come to an end. -/
def Entry.readResult : Entry → Option ReadResult
  | .plain _ _ (.completed res) => some (.posted res)
  | .plain _ _ (.aborted error) => some (.error (-convertToPosix error))
  | _ => none

/-- **The two reads agree**: the vectored one comes to an end, with the result of the plain one
and the same bytes. -/
structure ReadsAgree (file : List (BitVec 8)) (offset : ℕ) (iov : List ℕ) (hdr : IoHeader)
    (task : IoTask) : Prop where
  returns : readvStep file offset iov (readvRun file offset iov) = none
  result : ∃ r, (readvRun file offset iov).req.readResult = some r ∧
    (plainRead file offset hdr task iov.sum).2.readResult = some r
  bytes : (readvRun file offset iov).bytes iov.length = plainBuffer file offset iov.sum

/-- The file ends where a segment does, and there is more to read. -/
def EndsOnBoundary (size offset : ℕ) (iov : List ℕ) : Prop :=
  offset < size ∧ size - offset < iov.sum ∧ ∃ i, (iov.take i).sum = size - offset

/-! ## Segments by their lengths -/

/-- Whether the vectored read ends in an error: a segment that is not empty begins at the end of
the file, and all before it were read whole. -/
def endsInError (size : ℕ) : ℕ → List ℕ → Bool
  | _, [] => false
  | offset, len :: iov =>
    if len = 0 then endsInError size offset iov
    else if offset < size then
      if len ≤ size - offset then endsInError size (offset + len) iov else false
    else true

theorem endsInError_iff (size offset : ℕ) (iov : List ℕ) :
    endsInError size offset iov = true ↔
      (size ≤ offset ∧ 0 < iov.sum) ∨ EndsOnBoundary size offset iov := by
  unfold EndsOnBoundary
  induction iov generalizing offset with
  | nil => simp [endsInError]
  | cons len iov ih =>
    -- the sums of initial parts begin with zero, and go on behind the first length
    have hinitial : (∃ i, ((len :: iov).take i).sum = size - offset) ↔
        0 = size - offset ∨ ∃ i, len + (iov.take i).sum = size - offset := by
      constructor
      · rintro ⟨i, hi⟩
        cases i with
        | zero => exact Or.inl hi
        | succ i => exact Or.inr ⟨i, by rwa [List.take_succ_cons, List.sum_cons] at hi⟩
      · rintro (hzero | ⟨i, hi⟩)
        · exact ⟨0, hzero⟩
        · exact ⟨i + 1, by rwa [List.take_succ_cons, List.sum_cons]⟩
    rw [hinitial, List.sum_cons, endsInError]
    split_ifs with hlen hin hfits
    · subst hlen
      rw [ih]
      simp only [Nat.zero_add]
      constructor
      · rintro (h | ⟨hlt, hmore, hex⟩)
        · exact Or.inl h
        · exact Or.inr ⟨hlt, hmore, Or.inr hex⟩
      · rintro (h | ⟨hlt, hmore, hzero | hex⟩)
        · exact Or.inl h
        · omega
        · exact Or.inr ⟨hlt, hmore, hex⟩
    · rw [ih]
      constructor
      · rintro (⟨hend, hpos⟩ | ⟨hlt, hmore, i, hi⟩)
        · exact Or.inr ⟨hin, by omega, Or.inr ⟨0, by simp; omega⟩⟩
        · exact Or.inr ⟨hin, by omega, Or.inr ⟨i, by omega⟩⟩
      · rintro (⟨hend, -⟩ | ⟨-, hmore, hzero | ⟨i, hi⟩⟩)
        · omega
        · omega
        · by_cases hend : size ≤ offset + len
          · exact Or.inl ⟨hend, by omega⟩
          · exact Or.inr ⟨by omega, by omega, i, by omega⟩
    · refine iff_of_false (by simp) ?_
      rintro (⟨hend, -⟩ | ⟨-, -, hzero | ⟨i, hi⟩⟩) <;> omega
    · exact iff_of_true rfl (Or.inl ⟨by omega, by omega⟩)

/-- One segment. -/
def readSegment (file : List (BitVec 8)) (offset len : ℕ) : Segment :=
  ⟨len, readOutcome file offset len, readOutcome_possible file offset len⟩

/-- The segments of a vector, at offsets that follow each other. -/
def fileSegments (file : List (BitVec 8)) : ℕ → List ℕ → List Segment
  | _, [] => []
  | offset, len :: iov => readSegment file offset len :: fileSegments file (offset + len) iov

theorem segmentsOf_fileOracle (file : List (BitVec 8)) (offset : ℕ) (iov : List ℕ)
    (call : FileCall) :
    segmentsOf (fileOracle file offset iov) call iov = fileSegments file offset iov := by
  show iov.mapIdx (fun i len => readSegment file (segmentOffset offset iov i) len) = _
  unfold segmentOffset
  induction iov generalizing offset with
  | nil => rfl
  | cons len iov ih =>
    rw [List.mapIdx_cons, fileSegments, ← ih]
    congr 1
    refine congrArg (fun f => List.mapIdx f iov) (funext fun i => funext fun len' => ?_)
    rw [List.take_succ_cons, List.sum_cons, Nat.add_assoc]

theorem dword_of_lt {len : ℕ} (h : len < 4294967296) : dword len = len := Nat.mod_eq_of_lt h

theorem readOutcome_of_lt {file : List (BitVec 8)} {offset len : ℕ} (hlen : len < 4294967296)
    (h : offset < file.length) :
    readOutcome file offset len = .inline (min len (file.length - offset)) := by
  unfold readOutcome readFile
  rw [if_pos h, dword_of_lt hlen]
  dsimp only
  rw [List.length_take, List.length_drop]

theorem readOutcome_of_ge {file : List (BitVec 8)} {offset len : ℕ} (h : file.length ≤ offset) :
    readOutcome file offset len = .failed .errorHandleEof := by
  unfold readOutcome readFile
  rw [if_neg (Nat.not_lt.mpr h)]

/-- What becomes of a segment. -/
theorem issued_readSegment (file : List (BitVec 8)) (offset : ℕ) {len : ℕ}
    (hlen : len < 4294967296) :
    (readSegment file offset len).issued =
      if len = 0 then .inline 0
      else if offset < file.length then .inline (min len (file.length - offset))
      else .failed .errorHandleEof := by
  unfold Segment.issued readSegment
  split_ifs with hzero hin
  · rfl
  · exact readOutcome_of_lt hlen hin
  · exact readOutcome_of_ge (Nat.le_of_not_lt hin)

/-- The scan of a vector that does not end in an error adds up what the file has. -/
theorem scanResult_fileSegments {file : List (BitVec 8)} {offset : ℕ} {iov : List ℕ}
    (hlen : iov.sum < 4294967296) (h : endsInError file.length offset iov = false) (sum : ℤ) :
    scanResult (fileSegments file offset iov) sum =
      sum + (min iov.sum (file.length - offset) : ℕ) := by
  induction iov generalizing offset sum with
  | nil => simp [fileSegments, scanResult]
  | cons len iov ih =>
    rw [List.sum_cons] at hlen
    rw [fileSegments, scanResult, issued_readSegment file offset (by omega), List.sum_cons]
    rw [endsInError] at h
    have hiovLen : (readSegment file offset len).iovLen = len := rfl
    rw [hiovLen]
    split_ifs at h ⊢ with hzero hin hfits
    · subst hzero
      simp only [lt_irrefl, if_false]
      rw [Nat.add_zero, ih (by omega) h]
      simp
    · simp only
      rw [if_neg (by omega), ih (by omega) h]
      omega
    · simp only
      rw [if_pos (by omega)]
      omega

/-! ## The loop without pending transfers -/

section Loop

variable {segs : List Segment} {seg : Segment} {m i : ℕ} {s s' : VecRequest}

/-- No transfer is left pending. -/
def Synchronous (segs : List Segment) : Prop := ∀ seg ∈ segs, ∀ res, seg.issued ≠ .later res

/-- Nothing is left to other threads. -/
def VecRequest.Quiet (s : VecRequest) : Prop :=
  ∀ j, (s.task j).phase ≠ .pending ∧ (s.task j).phase ≠ .stored

theorem VecRequest.Quiet.setTask (h : s.Quiet) (i : ℕ) {t : SegTask}
    (ht : t.phase ≠ .pending ∧ t.phase ≠ .stored) : (s.setTask i t).Quiet := by
  intro j
  show (Function.update s.task i t j).phase ≠ _ ∧ (Function.update s.task i t j).phase ≠ _
  by_cases hj : j = i
  · subst hj
    rwa [Function.update_self]
  · rw [Function.update_of_ne hj]
    exact h j

theorem VecRequest.Quiet.of_task (h : s.Quiet) (htask : s'.task = s.task) : s'.Quiet := by
  unfold VecRequest.Quiet
  rw [htask]
  exact h

/-- The submit loop leaves nothing to other threads. -/
theorem VecRequest.Quiet.submitStep (h : s.Quiet) (hsync : Synchronous segs)
    (hstep : submitStep segs s = some s') : s'.Quiet := by
  cases submitted_of_submitStep hstep with
  | finish hpc hseg => exact h.of_task (aioIovDone_task _ _ _)
  | inline hpc hseg hissued =>
    exact h.setTask _ (t := ⟨_, _, .inline⟩) ⟨Phase.noConfusion, Phase.noConfusion⟩
  | later hpc hseg hissued => exact absurd hissued (hsync _ (List.mem_of_getElem? hseg) _)
  | failed hpc hseg hissued =>
    exact h.setTask _ (t := ⟨_, _, .unissued⟩) ⟨Phase.noConfusion, Phase.noConfusion⟩
  | @transferred i nbytes seg hpc hseg =>
    exact (h.setTask i (t := (s.task i).store nbytes .counted)
      ⟨Phase.noConfusion, Phase.noConfusion⟩).of_task (aioIovDone_task _ _ _)
  | short hpc => exact h.of_task (aioIovDone_task _ _ _)
  | @abort i error hpc =>
    exact (h.setTask i (t := { s.task i with result := -convertToPosix error }) (h i)).of_task
      (aioIovDone_task _ _ _)
  | free hpc hone => exact h.of_task rfl
  | keep hpc hmore => exact h.of_task rfl
  | giveUp hpc => exact h.of_task (aioIovDone_task _ _ _)

theorem VecInv.outstanding_of_quiet (h : VecInv segs m s) (hquiet : s.Quiet)
    (hpc : ∀ j nbytes, s.pc ≠ .transferred j nbytes) : outstanding segs.length s.task = 0 := by
  rw [outstanding_eq_zero_iff]
  intro j _
  have hinline := h.not_inline hpc j
  obtain ⟨hpending, hstored⟩ := hquiet j
  cases hphase : (s.task j).phase with
  | unissued => exact Or.inl rfl
  | counted => exact Or.inr rfl
  | inline => exact absurd hphase hinline
  | pending => exact absurd hphase hpending
  | stored => exact absurd hphase hstored

/-- A request that was left by the loop has posted the scan of its segments. -/
theorem VecInv.readResult_returned (h : VecInv segs m s) (hquiet : s.Quiet) {rc : ℤ}
    (hpc : s.pc = .returned rc) : s.readResult = some (.posted (scanResult segs 0)) := by
  have hledger := h.ledger
  have hzero := h.outstanding_of_quiet hquiet (by simp [hpc])
  unfold Ledger at hledger
  rw [hpc] at hledger
  simp only [if_pos hzero] at hledger
  unfold VecRequest.readResult
  rw [hpc, hledger.1]

theorem VecInv.readResult_aborted (h : VecInv segs m s) {rc : ℤ} (hpc : s.pc = .aborted rc) :
    s.readResult = some (.error rc) := by
  have hledger := h.ledger
  unfold Ledger at hledger
  rw [hpc] at hledger
  unfold VecRequest.readResult
  rw [hpc, hledger.2.1]

/-! The steps, by where they lead. -/

theorem submitStep_end (hpc : s.pc = .issue i) (hseg : segs[i]? = none) :
    ∃ s', submitStep segs s = some s' ∧ s'.pc = .returned 0 := by
  unfold submitStep
  simp only [hpc, hseg]
  exact ⟨_, rfl, rfl⟩

theorem submitStep_inline (hpc : s.pc = .issue i) (hseg : segs[i]? = some seg) {nbytes : ℕ}
    (hissued : seg.issued = .inline nbytes) :
    ∃ s', submitStep segs s = some s' ∧ s'.pc = .transferred i nbytes := by
  unfold submitStep
  simp only [hpc, hseg, hissued]
  exact ⟨_, rfl, rfl⟩

theorem submitStep_failed (hpc : s.pc = .issue i) (hseg : segs[i]? = some seg) {error : WinError}
    (hissued : seg.issued = .failed error) :
    ∃ s', submitStep segs s = some s' ∧ s'.pc = .abort i error := by
  unfold submitStep
  simp only [hpc, hseg, hissued]
  exact ⟨_, rfl, rfl⟩

theorem submitStep_transferred {nbytes : ℕ} (hpc : s.pc = .transferred i nbytes)
    (hseg : segs[i]? = some seg) :
    ∃ s', submitStep segs s = some s' ∧
      s'.pc = if nbytes ≠ seg.iovLen then .short i else .issue (i + 1) := by
  unfold submitStep
  simp only [hpc, hseg]
  exact ⟨_, rfl, rfl⟩

theorem submitStep_short (segs : List Segment) (hpc : s.pc = .short i) :
    ∃ s', submitStep segs s = some s' ∧ s'.pc = .returned 0 := by
  unfold submitStep
  simp only [hpc]
  exact ⟨_, rfl, rfl⟩

theorem submitStep_abort (segs : List Segment) {error : WinError}
    (hpc : s.pc = .abort i error) :
    ∃ s', submitStep segs s = some s' ∧ s'.pc = .reread i error := by
  unfold submitStep
  simp only [hpc]
  exact ⟨_, rfl, rfl⟩

theorem submitStep_reread (segs : List Segment) {error : WinError}
    (hpc : s.pc = .reread i error)
    (hone : s.active = 1) :
    ∃ s', submitStep segs s = some s' ∧ s'.pc = .aborted (-convertToPosix error) := by
  unfold submitStep
  simp only [hpc, if_pos hone]
  exact ⟨_, rfl, rfl⟩

end Loop

/-! ## The bytes -/

section Bytes

variable {file : List (BitVec 8)} {offset : ℕ} {iov : List ℕ}

/-- What a segment should receive. -/
def slice (file : List (BitVec 8)) (offset : ℕ) (iov : List ℕ) (j : ℕ) : List (BitVec 8) :=
  (file.drop (segmentOffset offset iov j)).take (iov.getD j 0)

theorem slice_of_lt {j : ℕ} (h : j < iov.length) :
    slice file offset iov j = (file.drop (segmentOffset offset iov j)).take iov[j] := by
  rw [slice, List.getD_eq_getElem?_getD, List.getElem?_eq_getElem h, Option.getD_some]

theorem slice_of_le {j : ℕ} (h : file.length ≤ segmentOffset offset iov j) :
    slice file offset iov j = [] := by
  rw [slice, List.drop_eq_nil_of_le h, List.take_nil]

theorem slice_of_length_le {j : ℕ} (h : iov.length ≤ j) : slice file offset iov j = [] := by
  rw [slice, List.getD_eq_getElem?_getD, List.getElem?_eq_none h, Option.getD_none,
    List.take_zero]

theorem segmentOffset_succ {i : ℕ} (hi : i < iov.length) :
    segmentOffset offset iov (i + 1) = segmentOffset offset iov i + iov[i] := by
  unfold segmentOffset
  rw [List.sum_take_succ iov i hi, Nat.add_assoc]

theorem segmentOffset_mono {i j : ℕ} (h : i ≤ j) :
    segmentOffset offset iov i ≤ segmentOffset offset iov j :=
  Nat.add_le_add_left (List.monotone_sum_take iov h) offset

/-- The segments together receive what follows the offset. -/
theorem flatMap_slice {k : ℕ} (hk : k ≤ iov.length) :
    (List.range k).flatMap (slice file offset iov) =
      (file.drop offset).take (iov.take k).sum := by
  induction k with
  | zero => simp
  | succ k ih =>
    have hlt : k < iov.length := hk
    rw [List.range_succ, List.flatMap_append, ih (Nat.le_of_lt hlt), List.sum_take_succ iov k hlt,
      List.take_add, List.drop_drop, List.flatMap_singleton, slice_of_lt hlt]
    rfl

theorem plainBuffer_eq {len : ℕ} (hlen : len < 4294967296) :
    plainBuffer file offset len = (file.drop offset).take len := by
  unfold plainBuffer readFile
  rw [dword_of_lt hlen]
  split_ifs with hzero hin
  · rw [hzero, List.take_zero]
  · rfl
  · rw [List.drop_eq_nil_of_le (Nat.le_of_not_lt hin), List.take_nil]
    rfl

end Bytes

/-! ## The run -/

section Run

variable {file : List (BitVec 8)} {offset : ℕ} {iov : List ℕ} {s s' : ReadvState}

theorem length_fileSegments (file : List (BitVec 8)) (offset : ℕ) (iov : List ℕ) :
    (fileSegments file offset iov).length = iov.length := by
  rw [← segmentsOf_fileOracle file offset iov .readFile, length_segmentsOf]

theorem getElem?_fileSegments (file : List (BitVec 8)) (offset : ℕ) {i : ℕ}
    (hi : i < iov.length) :
    (fileSegments file offset iov)[i]? =
      some (readSegment file (segmentOffset offset iov i) iov[i]) := by
  rw [← segmentsOf_fileOracle file offset iov .readFile, segmentsOf, List.getElem?_mapIdx,
    List.getElem?_eq_getElem hi]
  rfl

theorem synchronous_fileSegments (hlen : iov.sum < 4294967296) :
    Synchronous (fileSegments file offset iov) := by
  induction iov generalizing offset with
  | nil => exact fun seg hseg => absurd hseg List.not_mem_nil
  | cons len iov ih =>
    rw [List.sum_cons] at hlen
    intro seg hseg res
    rcases List.mem_cons.mp hseg with rfl | hseg
    · rw [issued_readSegment file offset (by omega)]
      split_ifs <;> exact Outcome.noConfusion
    · exact ih (by omega) seg hseg res

/-- The state of a vectored read. -/
structure ReadvInv (file : List (BitVec 8)) (offset : ℕ) (iov : List ℕ) (s : ReadvState) :
    Prop where
  inv : ∃ m, VecInv (fileSegments file offset iov) m s.req
  quiet : s.req.Quiet

/-- The buffers when `i` segments were read: those behind are empty. -/
def FilledTo (file : List (BitVec 8)) (offset : ℕ) (iov : List ℕ) (i : ℕ)
    (buffers : ℕ → List (BitVec 8)) : Prop :=
  ∀ j, buffers j = if j < i then slice file offset iov j else []

/-- **The end of a read**: after `k` steps there is no further one, the result is there, and every
segment has received its part. -/
structure EndsIn (file : List (BitVec 8)) (offset : ℕ) (iov : List ℕ) (k : ℕ) (s : ReadvState)
    (r : ReadResult) : Prop where
  stuck : readvStep file offset iov ((readvAdvance file offset iov)^[k] s) = none
  result : ((readvAdvance file offset iov)^[k] s).req.readResult = some r
  buffers : ∀ j, ((readvAdvance file offset iov)^[k] s).buffers j = slice file offset iov j

theorem endsIn_zero (hstuck : readvStep file offset iov s = none) {r : ReadResult}
    (hresult : s.req.readResult = some r) (hbuf : ∀ j, s.buffers j = slice file offset iov j) :
    EndsIn file offset iov 0 s r := ⟨hstuck, hresult, hbuf⟩

theorem EndsIn.of_iterate_eq {k l : ℕ} {r : ReadResult} (h : EndsIn file offset iov k s' r)
    (heq : (readvAdvance file offset iov)^[l] s = (readvAdvance file offset iov)^[k] s') :
    EndsIn file offset iov l s r := by
  constructor
  · rw [heq]
    exact h.stuck
  · rw [heq]
    exact h.result
  · rw [heq]
    exact h.buffers

theorem EndsIn.step {k : ℕ} {r : ReadResult} (h : EndsIn file offset iov k s' r)
    (hstep : readvStep file offset iov s = some s') : EndsIn file offset iov (k + 1) s r := by
  have hadvance : readvAdvance file offset iov s = s' := by
    unfold readvAdvance
    rw [hstep, Option.getD_some]
  refine h.of_iterate_eq ?_
  rw [Function.iterate_succ_apply, hadvance]

theorem EndsIn.mono {k l : ℕ} {r : ReadResult} (h : EndsIn file offset iov k s r) (hkl : k ≤ l) :
    EndsIn file offset iov l s r := by
  obtain ⟨d, rfl⟩ := Nat.exists_eq_add_of_le' hkl
  have hfixed : readvAdvance file offset iov ((readvAdvance file offset iov)^[k] s) =
      (readvAdvance file offset iov)^[k] s := by
    rw [readvAdvance, h.stuck, Option.getD_none]
  refine h.of_iterate_eq ?_
  rw [Function.iterate_add_apply]
  exact Function.iterate_fixed hfixed d

theorem ReadvInv.step (h : ReadvInv file offset iov s) (hlen : iov.sum < 4294967296)
    {req : VecRequest} (hstep : submitStep (fileSegments file offset iov) s.req = some req)
    (buffers : ℕ → List (BitVec 8)) : ReadvInv file offset iov ⟨req, buffers⟩ := by
  obtain ⟨m, hinv⟩ := h.inv
  exact ⟨vecInv_submitStep hinv hstep,
    h.quiet.submitStep (synchronous_fileSegments hlen) hstep⟩

/-- A step that issues a segment. -/
theorem readvStep_issue {req : VecRequest} {i : ℕ}
    (hstep : submitStep (fileSegments file offset iov) s.req = some req)
    (hpc : s.req.pc = .issue i) (hi : i < iov.length) :
    readvStep file offset iov s =
      some ⟨req, transferInto file offset iov s.buffers i iov[i]⟩ := by
  unfold readvStep aioReadv vectorStep
  rw [segmentsOf_fileOracle]
  simp only [hstep, hpc, List.getElem?_eq_getElem hi, Option.map_some]

/-- Every other step. -/
theorem readvStep_other {req : VecRequest}
    (hstep : submitStep (fileSegments file offset iov) s.req = some req)
    (hpc : ∀ i, s.req.pc = .issue i → iov.length ≤ i) :
    readvStep file offset iov s = some ⟨req, s.buffers⟩ := by
  unfold readvStep aioReadv vectorStep
  rw [segmentsOf_fileOracle]
  simp only [hstep, Option.map_some]
  cases hs : s.req.pc with
  | issue i => simp only [List.getElem?_eq_none (hpc i hs)]
  | _ => rfl

theorem readvStep_eq_none (hstep : submitStep (fileSegments file offset iov) s.req = none) :
    readvStep file offset iov s = none := by
  unfold readvStep aioReadv vectorStep
  rw [segmentsOf_fileOracle]
  simp only [hstep, Option.map_none]

/-- A read that has left its loop. -/
theorem ReadvInv.endsIn_returned (h : ReadvInv file offset iov s) {rc : ℤ}
    (hpc : s.req.pc = .returned rc) (hbuf : ∀ j, s.buffers j = slice file offset iov j) :
    EndsIn file offset iov 0 s (.posted (scanResult (fileSegments file offset iov) 0)) := by
  obtain ⟨m, hinv⟩ := h.inv
  refine endsIn_zero (readvStep_eq_none ?_) (hinv.readResult_returned h.quiet hpc) hbuf
  unfold submitStep
  rw [hpc]

theorem ReadvInv.endsIn_aborted (h : ReadvInv file offset iov s) {rc : ℤ}
    (hpc : s.req.pc = .aborted rc) (hbuf : ∀ j, s.buffers j = slice file offset iov j) :
    EndsIn file offset iov 0 s (.error rc) := by
  obtain ⟨m, hinv⟩ := h.inv
  refine endsIn_zero (readvStep_eq_none ?_) (hinv.readResult_aborted hpc) hbuf
  unfold submitStep
  rw [hpc]

/-- `wpdk_aio_iov_abort` when nothing is active: the request is freed. -/
theorem ReadvInv.endsIn_abort (h : ReadvInv file offset iov s) (hlen : iov.sum < 4294967296)
    {i : ℕ} {error : WinError} (hpc : s.req.pc = .abort i error)
    (hbuf : ∀ j, s.buffers j = slice file offset iov j) :
    EndsIn file offset iov 2 s (.error (-convertToPosix error)) := by
  obtain ⟨req, hreq, hreread⟩ := submitStep_abort (fileSegments file offset iov) hpc
  have hone := h.step hlen hreq s.buffers
  obtain ⟨m, hinv⟩ := hone.inv
  have hactive := hinv.active_eq
  have hzero := hinv.outstanding_of_quiet hone.quiet (by simp [hreread])
  simp only [hreread, SubmitPc.shares, hzero] at hactive
  obtain ⟨req', hreq', haborted⟩ :=
    submitStep_reread (fileSegments file offset iov) hreread hactive
  have hend := (hone.step hlen hreq' s.buffers).endsIn_aborted haborted hbuf
  have hlast : EndsIn file offset iov 1 ⟨req, s.buffers⟩ (.error (-convertToPosix error)) :=
    hend.step (readvStep_other hreq' (by simp [hreread]))
  exact hlast.step (readvStep_other hreq (by simp [hpc]))

/-- What the read comes to, when the segments from `i` on are left. -/
def readvResult (file : List (BitVec 8)) (offset : ℕ) (iov : List ℕ) (i : ℕ) : ReadResult :=
  if endsInError file.length (segmentOffset offset iov i) (iov.drop i) = true then
    .error (-convertToPosix .errorHandleEof)
  else .posted (scanResult (fileSegments file offset iov) 0)

theorem readvResult_step {i : ℕ} (hi : i < iov.length) :
    readvResult file offset iov i =
      if iov[i] = 0 then readvResult file offset iov (i + 1)
      else if segmentOffset offset iov i < file.length then
        if iov[i] ≤ file.length - segmentOffset offset iov i then
          readvResult file offset iov (i + 1)
        else .posted (scanResult (fileSegments file offset iov) 0)
      else .error (-convertToPosix .errorHandleEof) := by
  unfold readvResult
  rw [List.drop_eq_getElem_cons hi, endsInError, segmentOffset_succ hi]
  split_ifs with hzero <;> simp_all

/-- The buffers after a segment was issued. -/
theorem FilledTo.succ {i : ℕ} {buffers : ℕ → List (BitVec 8)}
    (h : FilledTo file offset iov i buffers) (hi : i < iov.length) (hlen : iov[i] < 4294967296) :
    FilledTo file offset iov (i + 1) (transferInto file offset iov buffers i iov[i]) := by
  have hempty : buffers i = [] := by rw [h i, if_neg (lt_irrefl i)]
  have hupdate : transferInto file offset iov buffers i iov[i] =
      Function.update buffers i (slice file offset iov i) := by
    unfold transferInto readFile
    rw [slice_of_lt hi, dword_of_lt hlen]
    split_ifs with hzero hin
    · rw [hzero, List.take_zero, ← hempty, Function.update_eq_self]
    · rfl
    · rw [List.drop_eq_nil_of_le (Nat.le_of_not_lt hin), List.take_nil, ← hempty,
        Function.update_eq_self]
  intro j
  rw [hupdate]
  by_cases hj : j = i
  · subst hj
    rw [Function.update_self, if_pos (Nat.lt_succ_self j)]
  · rw [Function.update_of_ne hj, h j]
    exact if_congr (by omega) rfl rfl

/-- Nothing is missing if what is left lies behind the end. -/
theorem FilledTo.all {i : ℕ} {buffers : ℕ → List (BitVec 8)}
    (h : FilledTo file offset iov i buffers)
    (hrest : ∀ j, i ≤ j → slice file offset iov j = []) (j : ℕ) :
    buffers j = slice file offset iov j := by
  rw [h j]
  split_ifs with hj
  · rfl
  · exact (hrest j (Nat.le_of_not_lt hj)).symm

theorem FilledTo.all_of_le {i : ℕ} {buffers : ℕ → List (BitVec 8)}
    (h : FilledTo file offset iov i buffers) (hend : file.length ≤ segmentOffset offset iov i)
    (j : ℕ) : buffers j = slice file offset iov j :=
  h.all (fun _ hij => slice_of_le (hend.trans (segmentOffset_mono hij))) j

/-- A segment that is read: the loop goes on, or ends because the transfer was short. -/
theorem ReadvInv.endsIn_issue (h : ReadvInv file offset iov s) (hlen : iov.sum < 4294967296)
    {i nbytes k : ℕ} {r : ReadResult} (hi : i < iov.length) (hpc : s.req.pc = .issue i)
    (hissued : (readSegment file (segmentOffset offset iov i) iov[i]).issued = .inline nbytes)
    (hnext : ∀ req, req.pc = (if nbytes ≠ iov[i] then .short i else .issue (i + 1)) →
      ReadvInv file offset iov ⟨req, transferInto file offset iov s.buffers i iov[i]⟩ →
      EndsIn file offset iov k ⟨req, transferInto file offset iov s.buffers i iov[i]⟩ r) :
    EndsIn file offset iov (k + 2) s r := by
  have hseg := getElem?_fileSegments file offset hi
  obtain ⟨req, hreq, htransferred⟩ := submitStep_inline hpc hseg hissued
  have hone := h.step hlen hreq (transferInto file offset iov s.buffers i iov[i])
  obtain ⟨req', hreq', hpc'⟩ := submitStep_transferred htransferred hseg
  have htwo := hone.step hlen hreq' (transferInto file offset iov s.buffers i iov[i])
  have hlast : EndsIn file offset iov (k + 1)
      ⟨req, transferInto file offset iov s.buffers i iov[i]⟩ r :=
    (hnext req' hpc' htwo).step (readvStep_other hreq' (by simp [htransferred]))
  exact hlast.step (readvStep_issue hreq hpc hi)

/-- How the loop of `wpdk_aio_readv` ends, from any segment on. -/
theorem readv_endsIn (hlen : iov.sum < 4294967296) {d i : ℕ} (hd : i + d = iov.length)
    (h : ReadvInv file offset iov s) (hpc : s.req.pc = .issue i)
    (hbuf : FilledTo file offset iov i s.buffers) :
    EndsIn file offset iov (3 * d + 3) s (readvResult file offset iov i) := by
  induction d generalizing i s with
  | zero =>
    obtain rfl : i = iov.length := hd
    have hseg : (fileSegments file offset iov)[iov.length]? = none :=
      List.getElem?_eq_none (by rw [length_fileSegments])
    obtain ⟨req, hreq, hreturned⟩ := submitStep_end hpc hseg
    have hresult : readvResult file offset iov iov.length =
        .posted (scanResult (fileSegments file offset iov) 0) := by
      rw [readvResult, List.drop_length, endsInError, if_neg Bool.false_ne_true]
    rw [hresult]
    have hend := (h.step hlen hreq s.buffers).endsIn_returned hreturned
      (hbuf.all fun _ hj => slice_of_length_le hj)
    refine (hend.step (readvStep_other hreq ?_)).mono (by omega)
    intro i hi
    rw [hpc] at hi
    exact le_of_eq (SubmitPc.issue.inj hi)
  | succ d ih =>
    have hi : i < iov.length := by omega
    have hlen' : iov[i] < 4294967296 :=
      lt_of_le_of_lt (List.le_sum_of_mem (List.getElem_mem hi)) hlen
    have hfilled := hbuf.succ hi hlen'
    have hissued := issued_readSegment file (segmentOffset offset iov i) hlen'
    -- the loop goes on behind a segment that was read whole
    have hwhole : (readSegment file (segmentOffset offset iov i) iov[i]).issued =
        .inline iov[i] →
        EndsIn file offset iov (3 * (d + 1) + 3) s (readvResult file offset iov (i + 1)) := by
      intro hinline
      refine (h.endsIn_issue hlen (k := 3 * d + 3) hi hpc hinline ?_).mono (by omega)
      intro req hreq hinv
      rw [if_neg (not_not_intro rfl)] at hreq
      exact ih (by omega) hinv hreq hfilled
    rw [readvResult_step hi]
    split_ifs at hissued ⊢ with hzero hin hfits
    · exact hwhole (by rw [hissued, hzero])
    · exact hwhole (by rw [hissued, Nat.min_eq_left hfits])
    · -- a short transfer
      refine (h.endsIn_issue hlen (k := 1) hi hpc hissued ?_).mono (by omega)
      intro req hreq hinv
      rw [if_pos (by omega)] at hreq
      obtain ⟨req', hreq', hreturned⟩ := submitStep_short (fileSegments file offset iov) hreq
      have hpast : file.length ≤ segmentOffset offset iov (i + 1) := by
        rw [segmentOffset_succ hi]
        omega
      have hend := (hinv.step hlen hreq' _).endsIn_returned hreturned
        (hfilled.all_of_le hpast)
      exact hend.step (readvStep_other hreq' (by simp [hreq]))
    · -- the end of the file
      have hpast : file.length ≤ segmentOffset offset iov (i + 1) := by
        rw [segmentOffset_succ hi]
        omega
      obtain ⟨req, hreq, habort⟩ := submitStep_failed hpc
        (getElem?_fileSegments file offset hi) hissued
      have hend := (h.step hlen hreq _).endsIn_abort hlen habort (hfilled.all_of_le hpast)
      exact (hend.step (readvStep_issue hreq hpc hi)).mono (by omega)

end Run

/-! ## The comparison -/

section Agreement

variable (file : List (BitVec 8)) (offset : ℕ) (iov : List ℕ)

/-- `wpdk_aio_readv` from its beginning. -/
theorem readvRun_endsIn (h2 : 2 ≤ iov.length) (hlen : iov.sum < 4294967296) :
    EndsIn file offset iov (3 * iov.length + 3) ⟨aioAllocateVector iov.length, fun _ => []⟩
      (readvResult file offset iov 0) := by
  have hinv : ReadvInv file offset iov ⟨aioAllocateVector iov.length, fun _ => []⟩ := by
    refine ⟨⟨0, ?_⟩, fun j => ⟨Phase.noConfusion, Phase.noConfusion⟩⟩
    have hstart : VecInv (fileSegments file offset iov) 0
        (aioAllocateVector (fileSegments file offset iov).length) :=
      vecInv_start (by rwa [length_fileSegments])
    rwa [length_fileSegments] at hstart
  refine readv_endsIn hlen (Nat.zero_add _) hinv rfl fun j => ?_
  rw [if_neg (Nat.not_lt_zero j)]

/-- What the vectored read comes to. -/
theorem readvResult_zero (hlen : iov.sum < 4294967296) :
    readvResult file offset iov 0 =
      if endsInError file.length offset iov = true then
        .error (-convertToPosix .errorHandleEof)
      else .posted (min iov.sum (file.length - offset) : ℕ) := by
  have hoffset : segmentOffset offset iov 0 = offset := by
    rw [segmentOffset, List.take_zero, List.sum_nil, Nat.add_zero]
  rw [readvResult, List.drop_zero, hoffset]
  split_ifs with herror
  · rfl
  · rw [scanResult_fileSegments hlen (Bool.eq_false_of_not_eq_true herror), Int.zero_add]

/-- What the plain read comes to. -/
theorem plainRead_readResult (hdr : IoHeader) (task : IoTask) {len : ℕ}
    (hlen : len < 4294967296) :
    (plainRead file offset hdr task len).2.readResult =
      some (if file.length ≤ offset ∧ 0 < len then .error (-convertToPosix .errorHandleEof)
        else .posted (min len (file.length - offset) : ℕ)) := by
  unfold plainRead issuePlain
  have hissued := issued_readSegment file offset hlen
  unfold readSegment at hissued
  rw [hissued]
  by_cases hzero : len = 0
  · subst hzero
    simp [Entry.readResult]
  · by_cases hin : offset < file.length
    · rw [if_neg hzero, if_pos hin, if_neg (by omega)]
      rfl
    · rw [if_neg hzero, if_neg hin, if_pos (by omega)]
      rfl

/-- **When the two reads agree**: unless the file ends where a segment does and there is more to
read.  The bytes are the same in any case. -/
theorem aio_readv_agrees_iff (hdr : IoHeader) (task : IoTask) (h2 : 2 ≤ iov.length)
    (hlen : iov.sum < 4294967296) :
    ReadsAgree file offset iov hdr task ↔ ¬ EndsOnBoundary file.length offset iov := by
  have hend := readvRun_endsIn file offset iov h2 hlen
  have hplain := plainRead_readResult file offset hdr task hlen
  have hresult := hend.result
  rw [readvResult_zero file offset iov hlen] at hresult
  have herror := endsInError_iff file.length offset iov
  constructor
  · rintro ⟨-, ⟨r, hr, hr'⟩, -⟩ hboundary
    have heq := (hresult.symm.trans hr).trans (hr'.symm.trans hplain)
    rw [if_pos (herror.mpr (Or.inr hboundary)),
      if_neg (fun h => absurd hboundary.1 (Nat.not_lt.mpr h.1))] at heq
    cases heq
  · intro hboundary
    refine ⟨hend.stuck, ⟨_, hresult, ?_⟩, ?_⟩
    · rw [hplain]
      refine congrArg some (if_congr ?_ rfl rfl)
      rw [herror, or_iff_left hboundary]
    · unfold ReadvState.bytes
      rw [plainBuffer_eq hlen]
      have hbuffers : (readvRun file offset iov).buffers = slice file offset iov :=
        funext hend.buffers
      rw [hbuffers, flatMap_slice (Nat.le_refl _), List.take_length]

/-- Three bytes in two segments of two: the second transfer is short. -/
theorem aio_readv_agrees_three_bytes :
    ReadsAgree [1, 2, 3] 0 [2, 2] (.init 4 (by decide)) ⟨0, 0⟩ := by
  refine (aio_readv_agrees_iff _ _ _ _ _ (by decide) (by decide)).mpr ?_
  rintro ⟨-, -, i, hi⟩
  rcases i with - | - | i
  · exact absurd hi (by decide)
  · exact absurd hi (by decide)
  · rw [List.take_of_length_le (Nat.le_add_left 2 i)] at hi
    exact absurd hi (by decide)

/-- One byte in two segments of one: the plain read posts one byte, the vectored read has put it
into the buffer and returns an error. -/
theorem aio_readv_loses_byte :
    (readvRun [7] 0 [1, 1]).bytes 2 = [7] ∧
    (readvRun [7] 0 [1, 1]).req.readResult =
      some (.error (-convertToPosix .errorHandleEof)) ∧
    (plainRead [7] 0 (.init 4 (by decide)) ⟨0, 0⟩ 2).2.readResult = some (.posted 1) ∧
    ¬ ReadsAgree [7] 0 [1, 1] (.init 4 (by decide)) ⟨0, 0⟩ := by
  have hreadv : (readvRun [7] 0 [1, 1]).req.readResult =
      some (.error (-convertToPosix .errorHandleEof)) := by decide
  have hread : (plainRead [7] 0 (.init 4 (by decide)) ⟨0, 0⟩ 2).2.readResult =
      some (.posted 1) := by decide
  refine ⟨by decide, hreadv, hread, ?_⟩
  rintro ⟨-, ⟨r, hr, hr'⟩, -⟩
  have heq := (hreadv.symm.trans hr).trans (hr'.symm.trans hread)
  cases heq

end Agreement

end Aio
end Wpdk
