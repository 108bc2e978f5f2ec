import BofStd.BofRpc
import BofStd.BofStackSpec

/-!
# What RPC frames are for

The layout of a frame: the header, the arguments that are sent, the return code and the function id, and the checksum.
What the builder puts in is what the parser restores (`RestoresRequest`, `RestoresAnswer`), on a CPU of either byte
order.
-/

namespace BofStd

/-- Words that the builder sends and the parser restores. -/
def RpcVarType.isScalar : RpcVarType → Bool
  | .void | .u8 | .s8 | .u16 | .s16 | .u32 | .s32 | .float | .double => true
  | .char | .u64 | .s64 | .array | .other => false

/-- All the arguments are scalar. -/
def RpcFunction.IsScalar (f : RpcFunction) : Prop := ∀ arg ∈ f.pArg_U16, (BofRpc.varType arg).isScalar = true

/-- The bytes of an argument in a frame. -/
def BofRpc.varWidth (answer : Bool) (arg : UInt16) : Nat :=
  if BofRpc.rpcParam answer arg then (BofRpc.varType arg).width else 0

/-- The bytes of all the arguments in a frame. -/
def RpcFunction.sentWidth (answer : Bool) (f : RpcFunction) : Nat := (f.pArg_U16.map (BofRpc.varWidth answer)).sum

namespace BofRpc

/-! ## The layout -/

/-- The header. -/
def header (cpu : CpuEndianness) (flag timeOut tag len : Nat) : List UInt8 :=
  [magicNumber, flag, timeOut, tag, len].flatMap (cpu.store 2)

@[simp] theorem length_header (cpu : CpuEndianness) (flag timeOut tag len : Nat) :
    (header cpu flag timeOut tag len).length = 10 := by
  simp [header]

/-- An argument, if it is sent; `word` are the values of the arguments. -/
def varBytes (cpu : CpuEndianness) (answer : Bool) (word : UInt16 × Nat → Nat) (a : UInt16 × Nat) : List UInt8 :=
  cpu.store (varWidth answer a.1) (word a % 256 ^ varWidth answer a.1)

/-- The arguments, the return code and the function id. -/
def payload (cpu : CpuEndianness) (answer : Bool) (word : UInt16 × Nat → Nat) (f : RpcFunction) (rpcRts fctId : Nat) :
    List UInt8 :=
  f.pArg_U16.zipIdx.flatMap (varBytes cpu answer word) ++ [rpcRts, fctId].flatMap (cpu.store 2)

/-! ## What a builder returns -/

/-- The request that `BuildRpcRequest` has built. -/
def requestFrame (r : BofRpc) (req : RpcParserResult) : List UInt8 :=
  Memory.read r.mpRpcReqStack_O.mpStack_U8 0 req.RpcStackLen_U32

/-- The answer that `BuildRpcAnswer` has built. -/
def answerFrame (r : BofRpc) (res : RpcParserResult) : List UInt8 :=
  Memory.read r.mpRpcAnsStack_O.mpStack_U8 0 res.RpcStackLen_U32

/-! ## What the parser restores -/

/-- The parser accepts the frame. -/
def Accepts (r : BofRpc) (answer : Bool) (buffer : List UInt8) (old : RpcParserResult) : Prop :=
  ∃ r' res, r.parseRpcFrame answer buffer old = some (r', res, .noError)

/-- The parser accepts the frame as a request and restores the function id, the tag, the timeout and the arguments
that are sent. -/
def RestoresRequest (r : BofRpc) (buffer : List UInt8) (old : RpcParserResult) (fctId tag timeOut : Nat)
    (va : Nat → RpcValue) : Prop :=
  ∃ r' res, r.parseRpcFrame false buffer old = some (r', res, .noError) ∧ res.FctId_U32 = fctId ∧
    res.RpcTag_U16 = tag ∧ res.TimeOut_U32 = timeOut ∧
      ∀ arg i, (r.pRpcFct_X fctId).pArg_U16[i]? = some arg → rpcIn arg = true →
        (res.pRpcVar_X i).word r.cpu (varType arg).width = (va i).word % 256 ^ (varType arg).width

/-- The parser accepts the frame as an answer and restores the function id, the tag, the return code and the
arguments that are sent by the CPU `cpu`. -/
def RestoresAnswer (r : BofRpc) (buffer : List UInt8) (old : RpcParserResult) (cpu : CpuEndianness)
    (sent : RpcParserResult) : Prop :=
  ∃ r' res, r.parseRpcFrame true buffer old = some (r', res, .noError) ∧ res.FctId_U32 = sent.FctId_U32 ∧
    res.RpcTag_U16 = sent.RpcTag_U16 ∧ res.RpcRts_U32 = sent.RpcRts_U32 ∧
      ∀ arg i, (r.pRpcFct_X sent.FctId_U32).pArg_U16[i]? = some arg → rpcOut arg = true →
        (res.pRpcVar_X i).word r.cpu (varType arg).width = (sent.pRpcVar_X i).word cpu (varType arg).width

/-- The stack after the pops of the words of the header, for a frame in the byte order of the CPU `cpu`. -/
def headerStack (r : BofRpc) (answer : Bool) (cpu : CpuEndianness) (buffer : List UInt8) : BofStack :=
  let s := (((r.parserStack answer).copied (buffer.take 16)).setStackPointer 16).2.setSwapByte (decide (cpu ≠ r.cpu))
  ((s.withPointer 0).setStackPointer s.stackPointer).2

/-- The stack on which the pops behind the header start, for a frame of `len` bytes. -/
def bodyStack (r : BofRpc) (answer : Bool) (cpu : CpuEndianness) (buffer : List UInt8) (len : Nat) : BofStack :=
  (((r.headerStack answer cpu buffer).copied (buffer.take len)).setStackPointer len).2

/-- The sizes with which a frame without checksum is restored: there is room behind the header, and the frame has the
16 bytes that the parser copies. -/
def RoomToParse (max : Nat) (answer : Bool) (f : RpcFunction) : Prop := 10 < max ∧ 2 ≤ f.sentWidth answer

/-! ## The checksum -/

/-- The sizes with which a frame with a checksum is accepted: there is room behind the header, and the stack is not full
before the checksum. -/
def RoomForChecksum (max : Nat) (answer : Bool) (f : RpcFunction) : Prop := 10 < max ∧ max ≠ 14 + f.sentWidth answer

/-- The parser returns an error. -/
def Rejects (r : BofRpc) (answer : Bool) (buffer : List UInt8) (old : RpcParserResult) : Prop :=
  ∃ r' res err, r.parseRpcFrame answer buffer old = some (r', res, err) ∧ err ≠ .noError

/-- The word of a buffer at `i`. -/
def wordAt (cpu : CpuEndianness) (buffer : List UInt8) (i : Nat) : Nat := cpu.load ((buffer.drop i).take 2)

/-- The last word of a frame is not the sum modulo `65536` of the bytes before it. -/
def SumDiffers (cpu : CpuEndianness) (buffer : List UInt8) (len : Nat) : Prop :=
  wordAt cpu buffer (len - 2) ≠ ((buffer.take (len - 2)).map UInt8.toNat).sum % 2 ^ 16

/-- The stack pointer in front of the word for the checksum. -/
def checkedEnd (flag ptr : Nat) : Nat := if flag &&& flagUseChecksum ≠ 0 ∧ 2 ≤ ptr then ptr - 2 else ptr

/-- The answer has the tag that is expected. -/
def HasExpectedTag (answer : Bool) (old : RpcParserResult) (tag : Nat) : Prop :=
  answer = true ∧ old.RpcTag_U16 ≠ 0 ∧ old.RpcTag_U16 = tag

end BofRpc

end BofStd

/-!
## Strings, arrays and integers of 64 bits in RPC frames

What it means that the parser restores the arguments that are no words of at most 32 bits: it accepts the frame, they
have the values that were sent, and every pop leaves the stack pointer where the push of the argument has found it.
-/

namespace BofStd

/-- A string shorter than the buffer of the parser, and an array whose sizes are words of 16 bits. -/
def RpcValue.WellFormed (v : RpcValue) : RpcVarType → Prop
  | .char => 0 ∉ v.text ∧ v.text.length < rpcMaxStringSize
  | .array => v.array.ItemSize_U32 < 2 ^ 16 ∧ v.array.NbItem_U32 < 2 ^ 16 ∧
      v.array.pItem.length = v.array.NbItem_U32 * v.array.ItemSize_U32
  | _ => True

/-- The member of `VALUE` has the string, the array or the integer of 64 bits. -/
def RpcVar.Holds (cpu : CpuEndianness) (v : RpcVar) (ty : RpcVarType) (value : RpcValue) : Prop :=
  match ty with
  | .char => (v.value cpu .char).map RpcValue.text = some value.text
  | .array => v.array cpu = value.array
  | .u64 | .s64 => v.word cpu 8 = value.word % 2 ^ 64
  | _ => True

namespace BofRpc

/-- What the builders get for the arguments. -/
abbrev Values := Nat → RpcVarType → Option RpcValue

/-- The strings and arrays that are sent are well-formed. -/
def Sound (answer : Bool) (value : Values) (f : RpcFunction) : Prop :=
  ∀ arg i v, f.pArg_U16[i]? = some arg → rpcParam answer arg = true → value i (varType arg) = some v →
    v.WellFormed (varType arg)

/-! ## What is to be restored -/

/-- The stack of the parser when the arguments are popped: the frame without the return code and the function id. -/
def argsStack (r : BofRpc) (answer : Bool) (frame : List UInt8) : BofStack where
  MaxStackSize_U32 := (r.parserStack answer).MaxStackSize_U32
  SwapByte_B := false
  mpStack_U8 := Memory.write (Memory.write (r.parserStack answer).mpStack_U8 0 (frame.take 16)) 0 frame
  stackPointer := frame.length - 4

/-- The variables with which the parser starts. -/
def oldVars (answer : Bool) (old : RpcParserResult) : Nat → RpcVar :=
  (if answer then old else {} : RpcParserResult).pRpcVar_X

/-- The pop of every argument leaves the stack pointer where the push of this argument has found it: `s` is the stack of
the builder, and the arguments behind this one are popped before. -/
def PopsBack (r r' : BofRpc) (answer : Bool) (s : BofStack) (value : Values) (fctId : Nat) (frame : List UInt8)
    (old : RpcParserResult) : Prop :=
  ∀ before a after, (r.pRpcFct_X fctId).pArg_U16.zipIdx = before ++ a :: after →
    ∃ pushed vars popped,
      pushVars r.cpu answer value before true (resetStackPointerToRpcPayload (s.setSwapByte false)) =
        some (true, pushed) ∧
      popVars r'.cpu answer (a :: after).reverse (oldVars answer old) (r'.argsStack answer frame) =
        some (true, vars, popped) ∧
      popped.stackPointer = pushed.stackPointer

/-- The parser `r'` accepts the frame that `r` has built on the stack `s`, and restores what has been sent. -/
def RestoresComposites (r r' : BofRpc) (answer : Bool) (s : BofStack) (value : Values) (fctId : Nat)
    (frame : List UInt8) (old : RpcParserResult) : Prop :=
  (∃ r'' res, r'.parseRpcFrame answer frame old = some (r'', res, .noError) ∧
    ∀ arg i v, (r.pRpcFct_X fctId).pArg_U16[i]? = some arg → rpcParam answer arg = true →
      value i (varType arg) = some v → (res.pRpcVar_X i).Holds r'.cpu (varType arg) v) ∧
  PopsBack r r' answer s value fctId frame old

/-! ## What is restored -/

/-- The bytes of an argument that is no array. -/
def argBytes (cpu : CpuEndianness) (answer : Bool) (value : Values) (a : UInt16 × Nat) : List UInt8 :=
  if rpcParam answer a.1 then
    match value a.2 (varType a.1) with
    | some v =>
      if varType a.1 = .char then 0 :: v.text.reverse
      else cpu.store (varType a.1).width (v.word % 256 ^ (varType a.1).width)
    | none => []
  else []

/-- There is no pop for an integer of 64 bits, and the pop of an array does not take off what its push has put on. A
string is read from one byte above its end on: only the empty one in front of a zero is restored. -/
def ArgRestored (answer : Bool) (value : Values) (a : UInt16 × Nat) (tail : List UInt8) : Prop :=
  match varType a.1 with
  | .u64 | .s64 => False
  | .array => rpcParam answer a.1 = false
  | .char => rpcParam answer a.1 = true → (value a.2 .char).map RpcValue.text = some [] ∧ tail.head? = some 0
  | _ => True

/-- All of the arguments in front of the bytes `tail`. -/
def ArgsRestored (cpu : CpuEndianness) (answer : Bool) (value : Values) : List (UInt16 × Nat) → List UInt8 → Prop
  | [], _ => True
  | a :: args, tail =>
    ArgRestored answer value a (args.flatMap (argBytes cpu answer value) ++ tail) ∧ ArgsRestored cpu answer value args tail

/-- The sizes of `RoomToParse`, and arguments that are restored. -/
def CompositesRestored (cpu : CpuEndianness) (answer : Bool) (max : Nat) (value : Values) (f : RpcFunction)
    (rpcRts fctId : Nat) : Prop :=
  10 < max ∧ 2 ≤ (f.pArg_U16.zipIdx.flatMap (argBytes cpu answer value)).length ∧
    ArgsRestored cpu answer value f.pArg_U16.zipIdx ([rpcRts % 2 ^ 16, fctId % 2 ^ 16].flatMap (cpu.store 2))

end BofRpc

end BofStd

/-!
## Where the parser of RPC frames reads and writes

What it means that the parser stays in its buffers, and a walk over a frame that follows only the stack pointer: from the
end of the frame down, over the tests, the function id, the return code and the arguments from the last one on.
-/

namespace BofStd.BofRpc

/-! ## What the parser has to do -/

/-- The byte order of a frame, by its magic number. -/
def frameOrder : List UInt8 → Option CpuEndianness
  | b₀ :: b₁ :: _ =>
    if b₀ = 0x42 ∧ b₁ = 0x48 then some .big else if b₁ = 0x42 ∧ b₀ = 0x48 then some .little else none
  | _ => none

/-- The length in the header. -/
def declaredLength (cpu : CpuEndianness) (buffer : List UInt8) : Nat := wordAt cpu buffer 8

/-- There is a result, so nothing has been read or written outside of the buffers; without an error, the pops have
started at the declared length and have ended at the header. -/
def StaysInBounds (r : BofRpc) (answer : Bool) (buffer : List UInt8) (old : RpcParserResult) : Prop :=
  ∃ r' res err, r.parseRpcFrame answer buffer old = some (r', res, err) ∧ (err = .noError →
    ∃ cpu, frameOrder buffer = some cpu ∧
      (r.bodyStack answer cpu buffer (declaredLength cpu buffer)).stackPointer = declaredLength cpu buffer ∧
      (r'.parserStack answer).stackPointer = 10)

/-! ## The walk -/

/-- What a pop does to the stack pointer: it leaves the buffers, it returns `false`, or the stack pointer is moved. -/
inductive Walk where
  | outside
  | refused
  | to (ptr : Nat)
  deriving DecidableEq

/-- A string, from the stack pointer down to the first zero: with its end it has to fit into `pVal_c`. -/
def walkText (max : Nat) (mem : Nat → UInt8) (ptr : Nat) : Walk :=
  if ptr = 0 then .to 0
  else if max ≤ ptr then .outside
  else match (List.range ptr).find? fun k => mem (ptr - k) = 0 with
    | some k => if k < rpcMaxStringSize then .to (ptr - (k + 1)) else .outside
    | none => if ptr < rpcMaxStringSize then .refused else .outside

/-- An array of `nb` bytes, by the two words below the stack pointer. The stack pointer is moved up behind the `nb` bytes
above the words if `int` has its new value and the size of the stack, and then the items are read. -/
def walkArray (cpu : CpuEndianness) (max : Nat) (mem : Nat → UInt8) (ptr : Nat) : Walk :=
  if ptr < 8 then .refused
  else
    let nb : Nat := cpu.load (Memory.read mem (ptr - 4) 4) * cpu.load (Memory.read mem (ptr - 8) 4) % 2 ^ 32
    if max < 2 ^ 31 then
      if ptr - 8 + 2 * nb ≤ max then .to (ptr - 8 + nb) else .outside
    else if ptr - 8 + nb ≤ max ∧ (nb < 2 ^ 31 → ptr - 8 + nb < 2 ^ 31) then .to (ptr - 8)
    else .outside

/-- An argument. -/
def walkVar (cpu : CpuEndianness) (answer : Bool) (max : Nat) (mem : Nat → UInt8) (arg : UInt16) (ptr : Nat) : Walk :=
  match varType arg, rpcParam answer arg with
  | .u64, _ | .s64, _ | .other, _ => .refused
  | _, false => .to ptr
  | .char, true => walkText max mem ptr
  | .array, true => walkArray cpu max mem ptr
  | ty, true => if ty.width ≤ ptr then .to (ptr - ty.width) else .refused

/-- The arguments, from the last one on. -/
def walkVars (cpu : CpuEndianness) (answer : Bool) (max : Nat) (mem : Nat → UInt8) : List UInt16 → Nat → Walk
  | [], ptr => .to ptr
  | arg :: args, ptr =>
    match walkVar cpu answer max mem arg ptr with
    | .to ptr => walkVars cpu answer max mem args ptr
    | w => w

/-- The tests of the checksum and of the tag, for a frame that ends at `ptr`. -/
def PassesTests (answer : Bool) (cpu : CpuEndianness) (buffer : List UInt8) (old : RpcParserResult) (ptr : Nat) : Prop :=
  if answer = true ∧ old.RpcTag_U16 ≠ 0 then wordAt cpu buffer 6 = old.RpcTag_U16
  else wordAt cpu buffer 2 &&& flagUseChecksum ≠ 0 →
    2 ≤ ptr ∧ checksum (buffer.take (ptr - 2)) = wordAt cpu buffer (ptr - 2)

instance (answer : Bool) (cpu : CpuEndianness) (buffer : List UInt8) (old : RpcParserResult) (ptr : Nat) :
    Decidable (PassesTests answer cpu buffer old ptr) := by
  unfold PassesTests
  infer_instance

/-- The frame behind its header. -/
def walkFrame (r : BofRpc) (answer : Bool) (cpu : CpuEndianness) (buffer : List UInt8) (old : RpcParserResult) : Walk :=
  let s := r.bodyStack answer cpu buffer (declaredLength cpu buffer)
  let e := checkedEnd (wordAt cpu buffer 2) s.stackPointer
  if PassesTests answer cpu buffer old s.stackPointer ∧ 4 ≤ e ∧ wordAt cpu buffer (e - 2) < maxFct then
    walkVars cpu answer s.MaxStackSize_U32 s.mpStack_U8 (r.pRpcFct_X (wordAt cpu buffer (e - 2))).pArg_U16.reverse (e - 4)
  else .refused

/-! ## Damaged frames -/

/-- The result of the test of the tag is written over that of the test of the checksum; or the length is the size of the
stack, to which the stack pointer cannot be set, and the bytes in front of the stack pointer pass the test. -/
def ChecksumPassedOver (r : BofRpc) (answer : Bool) (cpu : CpuEndianness) (buffer : List UInt8) (old : RpcParserResult) :
    Prop :=
  HasExpectedTag answer old (wordAt cpu buffer 6) ∨
    ¬(answer = true ∧ old.RpcTag_U16 ≠ 0) ∧ declaredLength cpu buffer = (r.parserStack answer).MaxStackSize_U32 ∧
      PassesTests answer cpu buffer old (r.bodyStack answer cpu buffer (declaredLength cpu buffer)).stackPointer

/-- Behind the tests, the pops leave the buffers or come back to the header. -/
def Escapes (r : BofRpc) (answer : Bool) (cpu : CpuEndianness) (buffer : List UInt8) (old : RpcParserResult) : Prop :=
  r.walkFrame answer cpu buffer old = .outside ∨ r.walkFrame answer cpu buffer old = .to 10

/-! ## When it does -/

/-- The stack has the bytes that are recorded of a frame of `len` bytes, which are 64 at most. -/
def RecordFits (max len : Nat) : Prop := len ≤ max ∨ 64 ≤ max

/-- The frame has the 16 bytes that are copied first. No pop leaves the buffers, and a frame that is accepted is shorter
than the stack. The record of an answer that is refused at its header has the length of the old result. -/
def FrameInBounds (r : BofRpc) (answer : Bool) (buffer : List UInt8) (old : RpcParserResult) : Prop :=
  16 ≤ buffer.length ∧
    match frameOrder buffer with
    | none => answer = true → RecordFits (r.parserStack answer).MaxStackSize_U32 old.RpcStackLen_U32
    | some cpu =>
      if declaredLength cpu buffer ≤ (r.parserStack answer).MaxStackSize_U32 then
        r.walkFrame answer cpu buffer old ≠ .outside ∧
          (r.walkFrame answer cpu buffer old = .to 10 →
            declaredLength cpu buffer < (r.parserStack answer).MaxStackSize_U32)
      else answer = true → RecordFits (r.parserStack answer).MaxStackSize_U32 old.RpcStackLen_U32

end BofStd.BofRpc
