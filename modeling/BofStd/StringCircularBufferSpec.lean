import BofStd.StringCircularBuffer
import BofStd.Lib.Cut

/-!
# What `BofStringCircularBuffer` is for: a queue of strings

Without overwrite mode the buffer is a queue of whole strings, read in pieces (`DeliversStrings`). In
overwrite mode it is meant to be a window over the newest bytes of everything pushed (`KeepsNewest`). In
snapshot mode the stored bytes can be read again from any of them on (`ReplaysExactly`).
-/

namespace BofStd.StringCircularBuffer

open Memory Machine Cut

/-- The unread bytes, terminators included. -/
def unread (s : StringCircularBuffer) : List UInt8 :=
  circ s.size s.mpData_c s.mPopIndex_U32 s.mNbCharInBuffer_U32

/-- The bytes that a reader with room for `k` bytes takes: up to a terminator, or all but one of the
`k` bytes if there is no terminator among them. -/
def popBytes : Nat → List UInt8 → List UInt8
  | 0, _ => []
  | _ + 1, [] => []
  | k + 1, c :: cs => if c = 0 then [c] else if k = 0 then [] else c :: popBytes k cs

/-- A string with its terminator. -/
def terminated (x : List UInt8) : List UInt8 := x ++ [0]

/-- The text of a stored string: what stands before the terminator. -/
def textOf (data : List UInt8) : List UInt8 := data.takeWhile (· ≠ 0)

/-! ## Strings delivered intact -/

/-- The string that a call has put into the buffer. -/
def acceptedString : Op × StringOut → Option (List UInt8)
  | (.pushString (some x), out) => if out.err = .noError then some x else none
  | _ => none

/-- The string that a call has handed out. -/
def poppedPiece : Op × StringOut → Option (List UInt8)
  | (.popString _ _, out) => if out.err = .noError then some (textOf out.data) else none
  | _ => none

/-- The calls of a user of strings: no string holds a terminator, and every read has room for a byte
and a terminator. -/
def StringCall : Op → Prop
  | .pushString (some x) => 0 ∉ x
  | .popString (some nbMax) true => 2 ≤ nbMax
  | _ => False

/-- What one call does: a push is accepted exactly when there is room for the string and its
terminator and else changes nothing, and a pop of a buffer that is not empty takes something. -/
def CallMeetsSpec (s : StringCircularBuffer) : Op → Prop
  | .pushString (some x) =>
    (s.mNbCharInBuffer_U32 + x.length + 1 ≤ s.size → (s.pushString (some x)).2.err = .noError) ∧
    (¬ s.mNbCharInBuffer_U32 + x.length + 1 ≤ s.size →
      s.pushString (some x) = (s, { err := .full }))
  | .popString pNbMax pData =>
    0 < s.mNbCharInBuffer_U32 →
      (s.popString pNbMax pData).1.mNbCharInBuffer_U32 < s.mNbCharInBuffer_U32
  | _ => True

/-- The run `ops` of a new buffer delivers strings intact: the strings handed out are the accepted
strings cut into consecutive pieces, the unread bytes are those of the strings that are left, and every
call has done what it should. -/
structure DeliversStrings (param : StringCircularBufferParam) (pData : Nat → UInt8)
    (ops : List Op) : Prop where
  strings : ∃ pending,
    Cuts ((history step (create param pData) ops).filterMap poppedPiece)
      ((history step (create param pData) ops).filterMap acceptedString) pending ∧
    unread (run step (create param pData) ops).1 = pending.flatMap terminated ∧
    (run step (create param pData) ops).1.mNbCharInBuffer_U32 =
      (pending.flatMap terminated).length ∧
    (run step (create param pData) ops).1.mNbElementInBuffer_U32 =
      (pending.flatMap terminated).count 0
  push_eq : (run step (create param pData) ops).1.mPushIndex_U32 =
    ((run step (create param pData) ops).1.mPopIndex_U32 +
      (run step (create param pData) ops).1.mNbCharInBuffer_U32) % param.BufferSizeInByte_U32
  calls : ∀ ops₁ op ops₂, ops = ops₁ ++ op :: ops₂ →
    CallMeetsSpec (run step (create param pData) ops₁).1 op

/-- The sum that `PushString` tests is not made small enough by the wrap of `uint32_t` values. -/
def SumFitsWord (s : StringCircularBuffer) : Op → Prop
  | .pushString (some x) =>
    s.mNbCharInBuffer_U32 + x.length + 1 < 4294967296 ∨
    s.size < (s.mNbCharInBuffer_U32 + x.length + 1) % 4294967296
  | _ => True

/-! ## The newest bytes -/

/-- The bytes that a push adds to the stream. -/
def pushedBytes : Op → List UInt8
  | .pushString (some x) | .pushBinary (some x) => terminated x
  | _ => []

/-- The unread bytes after a call: a push keeps the newest of them, a pop takes the oldest. In snapshot
mode the reads are from a snapshot. -/
def keepNewest (param : StringCircularBufferParam) (content : List UInt8) : Op → List UInt8
  | .pushString (some x) | .pushBinary (some x) =>
    (content ++ terminated x).drop
      ((content ++ terminated x).length - param.BufferSizeInByte_U32)
  | .popString (some nbMax) true =>
    if param.SnapshotMode_B then content
    else content.drop (popBytes (min nbMax content.length) content).length
  | _ => content

/-- The run `ops` of a new buffer keeps the newest bytes. -/
structure KeepsNewest (param : StringCircularBufferParam) (pData : Nat → UInt8)
    (ops : List Op) : Prop where
  push_lt : (run step (create param pData) ops).1.mPushIndex_U32 < param.BufferSizeInByte_U32
  pop_lt : (run step (create param pData) ops).1.mPopIndex_U32 < param.BufferSizeInByte_U32
  push_eq : (run step (create param pData) ops).1.mPushIndex_U32 =
    ((run step (create param pData) ops).1.mPopIndex_U32 +
      (run step (create param pData) ops).1.mNbCharInBuffer_U32) % param.BufferSizeInByte_U32
  content : unread (run step (create param pData) ops).1 = ops.foldl (keepNewest param) []
  newest : unread (run step (create param pData) ops).1 <:+ ops.flatMap pushedBytes
  elements : (run step (create param pData) ops).1.mNbElementInBuffer_U32 =
    (unread (run step (create param pData) ops).1).count 0

/-- A push of `x` in overwrite mode that `PushBinary` accounts for rightly: no sum wraps; as many
terminators are pushed out as there are in `x`; and if bytes are pushed out, then exactly one byte of
room was left and one wrap of the pop index is enough. -/
def PushIsExact (s : StringCircularBuffer) (x : List UInt8) : Prop :=
  s.mNbCharInBuffer_U32 + x.length + 1 < 4294967296 ∧
  ((unread s ++ terminated x).take (s.mNbCharInBuffer_U32 + x.length + 1 - s.size)).count 0 =
    x.count 0 ∧
  (s.mNbCharInBuffer_U32 + x.length + 1 ≤ s.size ∨
    (s.mNbCharInBuffer_U32 + 1 = s.size ∧ s.mPopIndex_U32 + x.length < 2 * s.size ∧
      s.mPopIndex_U32 + x.length < 4294967296))

instance (s : StringCircularBuffer) (x : List UInt8) : Decidable (PushIsExact s x) :=
  inferInstanceAs (Decidable (_ ∧ _ ∧ _))

/-- If the call is a push, it is exact. -/
def OverwriteIsExact (s : StringCircularBuffer) : Op → Prop
  | .pushString (some x) | .pushBinary (some x) => PushIsExact s x
  | _ => True

/-! ## Replays of the stored bytes -/

/-- What a call with room for `limit` bytes hands out is this piece of the stored bytes: up to a terminator, or all
that there is room for in front of an added one. -/
def HandsOutPiece (limit : Nat) (piece : List UInt8) (out : StringOut) : Prop :=
  out.err = .noError ∧ out.nbMax = out.data.length ∧
    (out.data = piece ∧ piece.getLast? = some 0 ∨ out.data = piece ++ [0] ∧ out.data.length = limit)

/-- The calls with these limits hand out the bytes in pieces, and then find the buffer empty. -/
inductive HandsOut : List UInt8 → List Nat → List StringOut → Prop
  | empty (limits : List Nat) : HandsOut [] limits (limits.map fun _ => { err := .empty })
  | piece {piece content : List UInt8} {limit : Nat} {limits : List Nat} {out : StringOut} {outs : List StringOut}
      (hne : piece ≠ []) (hpiece : HandsOutPiece limit piece out) (hrest : HandsOut content limits outs) :
      HandsOut (piece ++ content) (limit :: limits) (out :: outs)

/-- One `PopString` of a replay. -/
def stepReplay (s : StringCircularBuffer) (limit : Nat) : StringCircularBuffer × StringOut :=
  s.popString (some limit) true

/-- After `ResyncSnapshot(i)`, as many reads as one likes hand out the stored bytes from the `i`-th oldest on and then
nothing, and leave everything but the snapshot as it is. -/
def ReplaysExactly (s : StringCircularBuffer) (i : Nat) : Prop :=
  ∀ limits : List Nat, (∀ limit ∈ limits, 2 ≤ limit) → s.mNbCharInBuffer_U32 < limits.length →
    HandsOut ((unread s).drop i) limits (run stepReplay (s.resyncSnapshot i).1 limits).2 ∧
    ∃ index nb, (run stepReplay (s.resyncSnapshot i).1 limits).1 =
      { s with mPopSnapshotIndex_U32 := index, mNbSnapshotCharInBuffer_U32 := nb }

/-- The calls on a buffer in snapshot mode; the result is that of the `PushString` or `PopString`. -/
inductive SnapshotOp where
  | pushString (pData : Option (List UInt8))
  | popString (pNbMax : Option Nat) (pData : Bool)
  | resyncSnapshot (index : Nat)
  deriving DecidableEq

/-- One call. -/
def stepSnapshot (s : StringCircularBuffer) : SnapshotOp → StringCircularBuffer × StringOut
  | .pushString pData => s.pushString pData
  | .popString pNbMax pData => s.popString pNbMax pData
  | .resyncSnapshot index => ((s.resyncSnapshot index).1, { err := .noError })

/-- A string that is pushed fits, or is refused. -/
def NoOverflow (s : StringCircularBuffer) : SnapshotOp → Prop
  | .pushString (some x) =>
    s.mNbCharInBuffer_U32 + x.length + 1 ≤ s.size ∨ (s.pushString (some x)).2.err ≠ .noError
  | _ => True

/-- The signed difference that `ResyncSnapshot` computes finds the oldest byte: the buffer is not full, or half the
range of `uint32_t` holds the size; else reading from the wrong byte on must give the same bytes. -/
def FindsOldest (s : StringCircularBuffer) : Prop :=
  s.mNbCharInBuffer_U32 < s.size ∨ s.size ≤ 2147483648 ∨
    (unread s).rotate (4294967296 - s.size) = unread s

instance (s : StringCircularBuffer) : Decidable (FindsOldest s) := inferInstanceAs (Decidable (_ ∨ _ ∨ _))

end BofStd.StringCircularBuffer
