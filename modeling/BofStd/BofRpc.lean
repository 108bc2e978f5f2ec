import BofStd.BofStack

/-!
# `BofRpc` (`bofrpc.h`, `bofrpc.cpp`)

Frames are built and parsed on a `BofStack`: the header of ten bytes, the arguments that are sent, the return code and
the function id, and the checksum. As in `BofStack`, what accesses memory outside of its buffer has no result. The
stacks are not shared between threads: `MultiThreadAware_B` is off, since with it the functions that build a frame lock
the mutex of their stack twice. `va_arg` returns what the caller passes for an argument, so the arguments of a call are
a function on the indexes.
-/

namespace BofStd

/-- `BOF_RPC_VAR_TYPE`; `other` are `BOF_RPC_VAR_UNDEF`, `BOF_RPC_VAR_SLONG` and what is not in the enumeration. -/
inductive RpcVarType where
  | void
  | char
  | u8
  | s8
  | u16
  | s16
  | u32
  | s32
  | u64
  | s64
  | float
  | double
  | array
  | other
  deriving DecidableEq

/-- `BOF_RPC_VAR_BINARY`, with the bytes that `pItem` points to. -/
structure RpcVarBinary where
  ItemSize_U32 : Nat := 0
  NbItem_U32 : Nat := 0
  pItem : List UInt8 := []

/-- What `va_arg` returns for an argument, or what the member of `VALUE` for the type of an argument holds. -/
structure RpcValue where
  word : Nat := 0
  text : List UInt8 := []
  array : RpcVarBinary := {}

/-- `BOF_RPC_MAXSTRINGSIZE`. -/
def rpcMaxStringSize : Nat := 256

/-- The size of the words; `0` where the values are no words. -/
def RpcVarType.width : RpcVarType → Nat
  | .u8 | .s8 => 1
  | .u16 | .s16 => 2
  | .u32 | .s32 | .float => 4
  | .u64 | .s64 | .double => 8
  | .void | .char | .array | .other => 0

/-- `BOFRPCVAR`: the union `VALUE` as its bytes, with what `Val_X.pItem` points to. -/
structure RpcVar where
  VALUE : Nat → UInt8 := fun _ => 0
  pItem : List UInt8 := []
  Type_E : RpcVarType := .other
  Arg_U16 : UInt16 := 0

namespace RpcVar

/-- The member `Val_U8`, `Val_U16`, `Val_U32`, `Val_U64`, `Val_f` or `Val_ff` of `w` bytes. -/
def word (cpu : CpuEndianness) (v : RpcVar) (w : Nat) : Nat := cpu.load (Memory.read v.VALUE 0 w)

/-- Assigns to one of these members. -/
def setWord (cpu : CpuEndianness) (v : RpcVar) (w n : Nat) : RpcVar :=
  { v with VALUE := Memory.write v.VALUE 0 (cpu.store w n) }

/-- The member `Val_X`. -/
def array (cpu : CpuEndianness) (v : RpcVar) : RpcVarBinary where
  ItemSize_U32 := cpu.load (Memory.read v.VALUE 0 4)
  NbItem_U32 := cpu.load (Memory.read v.VALUE 4 4)
  pItem := v.pItem

/-- Assigns to `Val_X`. -/
def setArray (cpu : CpuEndianness) (v : RpcVar) (a : RpcVarBinary) : RpcVar :=
  { v with
    VALUE := Memory.write v.VALUE 0 (cpu.store 4 a.ItemSize_U32 ++ cpu.store 4 a.NbItem_U32)
    pItem := a.pItem }

/-- The member of `VALUE` for a type; a string ends inside of `pVal_c`. -/
def value (cpu : CpuEndianness) (v : RpcVar) (ty : RpcVarType) : Option RpcValue :=
  let chars := Memory.read v.VALUE 0 rpcMaxStringSize
  match ty with
  | .char => if 0 ∈ chars then some { text := chars.takeWhile (· ≠ 0) } else none
  | .array => some { array := v.array cpu }
  | ty => some { word := v.word cpu ty.width }

end RpcVar

/-- `BOF_RPC_FUNCTION`: the arguments below `NbArg_U16`. -/
structure RpcFunction where
  pArg_U16 : List UInt16
  /-- `BOF_RPC_MAXFCTARG` -/
  length_le : pArg_U16.length ≤ 16

/-- `BOF_RPC_PARSER_RESULT`, as `Reset` leaves it; `pRpcStack_U8` is the buffer of a stack of the object. -/
structure RpcParserResult where
  FctId_U32 : Nat := 0
  RpcRts_U32 : Nat := 0
  RpcStackLen_U32 : Nat := 0
  TimeOut_U32 : Nat := 0
  RpcTag_U16 : Nat := 0
  pRpcVar_X : Nat → RpcVar := fun _ => {}

/-- The members of `BOF_RPC_STATE` for the requests or for the answers. -/
structure RpcFrameState where
  FctId_U32 : Nat := 0
  RpcRts_U32 : Nat := 0
  RpcStackLen_U32 : Nat := 0
  TimeOut_U32 : Nat := 0
  Tag_U16 : Nat := 0
  Flag_U16 : Nat := 0
  pRpcStack_U8 : List UInt8 := []

/-- The members of `BofRpc`, on a CPU. -/
structure BofRpc where
  cpu : CpuEndianness
  UseChecksum_B : Bool
  /-- `pRpcFct_X`, of `BOF_RPC_MAXFCT` functions. -/
  pRpcFct_X : Nat → RpcFunction
  mpRpcReqStack_O : BofStack
  mpRpcAnsStack_O : BofStack
  reqState : RpcFrameState
  ansState : RpcFrameState

namespace BofRpc

/-- `BOF_RPCMAGICNUMBER`. -/
def magicNumber : Nat := 0x4248

/-- `BOF_RPC_MAXFCT`. -/
def maxFct : Nat := 256

/-- `(BOF_RPC_VAR_TYPE)(pArg_U16[i] & BOF_RPC_VARTYPEMASK)`. -/
def varType (arg : UInt16) : RpcVarType :=
  match (arg &&& 0xFF).toNat with
  | 1 => .void
  | 2 => .char
  | 3 => .u8
  | 4 => .s8
  | 5 => .u16
  | 6 => .s16
  | 7 => .u32
  | 8 => .s32
  | 9 => .u64
  | 10 => .s64
  | 12 => .float
  | 13 => .double
  | 14 => .array
  | _ => .other

/-- `RpcIn_B`: the argument is sent in a request. -/
def rpcIn (arg : UInt16) : Bool := arg &&& 0x100 ≠ 0 || arg &&& 0x400 ≠ 0

/-- `RpcOut_B`: the argument is sent in an answer. -/
def rpcOut (arg : UInt16) : Bool := arg &&& 0x200 ≠ 0 || arg &&& 0x400 ≠ 0

/-- Whether an argument is sent in a frame. -/
def rpcParam (answer : Bool) (arg : UInt16) : Bool := if answer then rpcOut arg else rpcIn arg

/-! ## The header -/

/-- `ResetStackPointerToRpcPayload`. -/
def resetStackPointerToRpcPayload (s : BofStack) : BofStack := (s.setStackPointer (2 + 2 + 2 + 2 + 2)).2

/-- One `Push` after the other, as long as they succeed. -/
def pushWords (cpu : CpuEndianness) : List Nat → BofStack → Option (Bool × BofStack)
  | [], s => some (true, s)
  | v :: vs, s => do
    let (sts, s) ← s.pushU16 cpu v
    if sts then pushWords cpu vs s else return (false, s)

/-- `PushTopRpcControlParam`. -/
def pushTopRpcControlParam (cpu : CpuEndianness) (s : BofStack) (sof flags timeOutInMs tag val : Nat) :
    Option (Bool × BofStack) := do
  let ptr := s.stackPointer
  let (rts, s) ← pushWords cpu [sof, flags, timeOutInMs, tag, val % 2 ^ 16] (s.setStackPointer 0).2
  return (rts, (s.setStackPointer ptr).2)

/-- One `Pop` after the other, as long as they succeed. -/
def popWords (cpu : CpuEndianness) : Nat → BofStack → Option (List Nat × BofStack)
  | 0, s => some ([], s)
  | n + 1, s => do
    match ← s.popU16 cpu with
    | (some v, s) =>
      let (vs, s) ← popWords cpu n s
      return (v :: vs, s)
    | (none, s) => return ([], s)

/-- `PopTopRpcControlParam`: the words of the header from the last one on, if all of them could be popped. -/
def popTopRpcControlParam (cpu : CpuEndianness) (s : BofStack) : Option (List Nat × BofStack) := do
  let ptr := s.stackPointer
  let (vals, s) ← popWords cpu 5 (s.setStackPointer (2 + 2 + 2 + 2 + 2)).2
  return (vals, (s.setStackPointer ptr).2)

/-- `IsRpcLittleEndian`: `MustSwap_B`, if the buffer starts with the magic number in one of the byte orders. -/
def isRpcLittleEndian (cpu : CpuEndianness) (buffer : Nat → UInt8) : Option Bool :=
  if buffer 0 = 0x42 ∧ buffer 1 = 0x48 then some cpu.isCpuLittleEndian
  else if buffer 1 = 0x42 ∧ buffer 0 = 0x48 then some (!cpu.isCpuLittleEndian)
  else none

/-- `CheckAndResetStackPointerToRpcControlSize`. -/
def checkAndResetStackPointerToRpcControlSize (s : BofStack) : BofStack × BofErr :=
  if s.stackPointer ≠ 2 + 2 + 2 + 2 + 2 then ((s.setStackPointer (2 + 2)).2, .format) else (s, .noError)

/-! ## The arguments -/

/-- `Push` for an array: the items, then their size and their number as words of 16 bits. -/
def pushArray (cpu : CpuEndianness) (s : BofStack) (array : RpcVarBinary) : Option (Bool × BofStack) := do
  let nb : Nat := array.NbItem_U32 * array.ItemSize_U32 % 2 ^ 32
  if s.fits nb then
    -- `memcpy`, which reads `nb` bytes of the items, then `AdjustStackBufferLocation`
    if nb ≤ array.pItem.length then
      let s ← s.write s.stackPointer (array.pItem.take nb)
      let (_, s) ← s.adjustStackBufferLocation ((nb : Int).bmod (2 ^ 32))
      pushWords cpu [array.ItemSize_U32 % 2 ^ 16, array.NbItem_U32 % 2 ^ 16] s
    else none
  else return (false, s)

/-- `Pop` for an array: the number of the items and their size as words of 32 bits, then the items. -/
def popArray (cpu : CpuEndianness) (s : BofStack) (array : RpcVarBinary) :
    Option (Bool × RpcVarBinary × BofStack) := do
  let array := { array with NbItem_U32 := 0 }
  match ← s.popU32 cpu with
  | (none, s) => return (false, array, s)
  | (some nbItem, s) =>
    let array := { array with NbItem_U32 := nbItem }
    match ← s.popU32 cpu with
    | (none, s) => return (false, array, s)
    | (some itemSize, s) =>
      let nb : Nat := nbItem * itemSize % 2 ^ 32
      let (_, s) ← s.adjustStackBufferLocation ((nb : Int).bmod (2 ^ 32))
      let bytes ← s.read s.stackPointer nb
      return (true, { array with ItemSize_U32 := itemSize, pItem := bytes }, s)

/-- A word of `w` bytes of an argument: it is converted to the type and pushed. -/
def pushScalar (cpu : CpuEndianness) (w : Nat) (value : RpcValue) (s : BofStack) : Option (Bool × BofStack) :=
  s.pushWord cpu w (value.word % 256 ^ w)

/-- The `switch` of the builders: the push of an argument, if it is sent. -/
def pushVar (cpu : CpuEndianness) (ty : RpcVarType) (sent : Bool) (value : Option RpcValue) (s : BofStack) :
    Option (Bool × BofStack) :=
  let ifSent (push : RpcValue → BofStack → Option (Bool × BofStack)) :=
    if sent then value.bind fun value => push value s else some (true, s)
  match ty with
  | .void => some (true, s)
  | .char => ifSent fun value s => s.pushTxt value.text
  | .u8 | .s8 => ifSent (pushScalar cpu 1)
  | .u16 | .s16 => ifSent (pushScalar cpu 2)
  | .u32 | .s32 | .float => ifSent (pushScalar cpu 4)
  | .u64 | .s64 | .double => ifSent (pushScalar cpu 8)
  | .array => ifSent fun value s => pushArray cpu s value.array
  | .other => some (false, s)

/-- The loop of the builders over the arguments, with `Sts_B`. -/
def pushVars (cpu : CpuEndianness) (answer : Bool) (value : Nat → RpcVarType → Option RpcValue) :
    List (UInt16 × Nat) → Bool → BofStack → Option (Bool × BofStack)
  | [], sts, s => some (sts, s)
  | (arg, i) :: args, _, s => do
    let (sts, s) ← pushVar cpu (varType arg) (rpcParam answer arg) (value i (varType arg)) s
    if sts then pushVars cpu answer value args sts s else return (false, s)

/-- A `Pop` of a word of `w` bytes into `VALUE`. -/
def popScalar (cpu : CpuEndianness) (w : Nat) (v : RpcVar) (s : BofStack) : Option (Bool × RpcVar × BofStack) := do
  match ← s.popWord cpu w with
  | (some n, s) => return (true, v.setWord cpu w n, s)
  | (none, s) => return (false, v, s)

/-- The `switch` of the parser: the pop of an argument, if it is sent. There is no case for integers of 64 bits. -/
def popVar (cpu : CpuEndianness) (ty : RpcVarType) (sent : Bool) (v : RpcVar) (s : BofStack) :
    Option (Bool × RpcVar × BofStack) :=
  let ifSent (pop : RpcVar → BofStack → Option (Bool × RpcVar × BofStack)) :=
    if sent then pop v s else some (true, v, s)
  match ty with
  | .void => some (true, v, s)
  | .char => ifSent fun v s => do
    let (sts, txt, s) ← s.popTxt
    if txt.length ≤ rpcMaxStringSize then return (sts, { v with VALUE := Memory.write v.VALUE 0 txt }, s) else none
  | .u8 | .s8 => ifSent (popScalar cpu 1)
  | .u16 | .s16 => ifSent (popScalar cpu 2)
  | .u32 | .s32 | .float => ifSent (popScalar cpu 4)
  | .double => ifSent (popScalar cpu 8)
  | .array => ifSent fun v s => do
    let (sts, array, s) ← popArray cpu s (v.array cpu)
    return (sts, v.setArray cpu array, s)
  | .u64 | .s64 | .other => some (false, v, s)

/-- The loop of the parser over the arguments, from the last one on. -/
def popVars (cpu : CpuEndianness) (answer : Bool) :
    List (UInt16 × Nat) → (Nat → RpcVar) → BofStack → Option (Bool × (Nat → RpcVar) × BofStack)
  | [], vars, s => some (true, vars, s)
  | (arg, i) :: args, vars, s => do
    let v := { vars i with Arg_U16 := arg, Type_E := varType arg }
    let (sts, v, s) ← popVar cpu (varType arg) (rpcParam answer arg) v s
    if sts then popVars cpu answer args (Function.update vars i v) s
    else return (false, Function.update vars i v, s)

/-! ## Building -/

/-- `Cs_U32`. -/
def checksum (bytes : List UInt8) : Nat := (bytes.map UInt8.toNat).sum % 2 ^ 32

/-- `BOF_RPC_FLAG_USECHECKSUM`. -/
def flagUseChecksum : Nat := 1

/-- `S_mRpcCmdTag_U16++`, which leaves out 0. -/
def nextCmdTag (cmdTag : Nat) : Nat := if (cmdTag + 1) % 2 ^ 16 = 0 then 1 else (cmdTag + 1) % 2 ^ 16

/-- The builders up to the function id. -/
def pushPayload (r : BofRpc) (answer : Bool) (value : Nat → RpcVarType → Option RpcValue) (rpcRts fctId : Nat)
    (s : BofStack) : Option (Bool × BofStack) := do
  let s := resetStackPointerToRpcPayload (s.setSwapByte false)
  let (sts, s) ← pushVars r.cpu answer value (r.pRpcFct_X fctId).pArg_U16.zipIdx false s
  if sts then pushWords r.cpu [rpcRts % 2 ^ 16, fctId % 2 ^ 16] s else return (false, s)

/-- The checksum: the header has to be there before. -/
def pushChecksum (r : BofRpc) (timeOut tag : Nat) (s : BofStack) : Option (Bool × BofStack) := do
  let (sts, s) ← pushTopRpcControlParam r.cpu s magicNumber flagUseChecksum timeOut tag (s.stackPointer + 2)
  if sts then
    let bytes ← s.read 0 s.stackPointer
    s.pushU16 r.cpu (checksum bytes % 2 ^ 16)
  else return (false, s)

/-- `RpcStackLen_U32` and the header: the length, and whether the header could be pushed. -/
def pushSize (r : BofRpc) (flag timeOut tag : Nat) (s : BofStack) : Option (Option Nat × BofErr × BofStack) := do
  let len := s.stackPointer
  let (sts, s) ← pushTopRpcControlParam r.cpu s magicNumber flag timeOut tag len
  return (some len, if sts then .noError else .tooBig, s)

/-- The builders after the function id: `RpcStackLen_U32`, if it is written, and the result. -/
def closeFrame (r : BofRpc) (timeOut tag : Nat) (s : BofStack) : Option (Option Nat × BofErr × BofStack) :=
  if r.UseChecksum_B then do
    let (sts, s) ← r.pushChecksum timeOut tag s
    if sts then r.pushSize flagUseChecksum timeOut tag s else return (none, .tooBig, s)
  else r.pushSize 0 timeOut tag s

/-- `BuildRpcRequest`, with `S_mRpcCmdTag_U16` and the arguments that the caller passes. -/
def buildRpcRequest (r : BofRpc) (cmdTag : Nat) (va : Nat → RpcValue) (req : RpcParserResult) :
    Option (BofRpc × Nat × RpcParserResult × BofErr) :=
  if req.FctId_U32 < maxFct then do
    let (sts, s) ← r.pushPayload false (fun i _ => some (va i)) 0 req.FctId_U32 r.mpRpcReqStack_O
    if sts then
      let cmdTag := nextCmdTag cmdTag
      let (len, err, s) ← r.closeFrame (req.TimeOut_U32 % 2 ^ 16) cmdTag s
      return ({ r with mpRpcReqStack_O := s }, cmdTag,
        { req with RpcStackLen_U32 := len.getD req.RpcStackLen_U32 }, err)
    else return ({ r with mpRpcReqStack_O := s }, cmdTag, req, .tooBig)
  else return (r, cmdTag, req, .tooBig)

/-- `BuildRpcAnswer`. -/
def buildRpcAnswer (r : BofRpc) (res : RpcParserResult) : Option (BofRpc × RpcParserResult × BofErr) :=
  if res.FctId_U32 < maxFct then do
    let (sts, s) ← r.pushPayload true (fun i ty => (res.pRpcVar_X i).value r.cpu ty) res.RpcRts_U32 res.FctId_U32
      r.mpRpcAnsStack_O
    if sts then
      let (len, err, s) ← r.closeFrame 0 res.RpcTag_U16 s
      return ({ r with mpRpcAnsStack_O := s }, { res with RpcStackLen_U32 := len.getD res.RpcStackLen_U32 }, err)
    else return ({ r with mpRpcAnsStack_O := s }, res, .tooBig)
  else return (r, res, .tooBig)

/-! ## Parsing -/

/-- The local variables `Sts_B`, `Rts_U32`, `TheTag_U16` and `Flag_U16` of `ParseRpcFrame`, with the result and the
stack. -/
structure Parsing where
  Sts_B : Bool
  Rts_U32 : BofErr
  TheTag_U16 : Nat
  Flag_U16 : Nat
  res : RpcParserResult
  s : BofStack

/-- `memcpy` of the first `n` bytes of the frame to the stack buffer. -/
def copyFrame (s : BofStack) (buffer : List UInt8) (n : Nat) : Option BofStack :=
  if n ≤ buffer.length then s.write 0 (buffer.take n) else none

/-- The test of the checksum: `Sts_B` and `Rts_U32`. -/
def checkChecksum (cpu : CpuEndianness) (s : BofStack) : Option (Bool × BofErr × BofStack) := do
  match ← s.popU16 cpu with
  | (some theCs, s) =>
    let bytes ← s.read 0 s.stackPointer
    return (checksum bytes = theCs, .invalidChecksum, s)
  | (none, s) => return (false, .tooBig, s)

/-- The test of the checksum, if the frame has one. -/
def checkFlag (cpu : CpuEndianness) (flag : Nat) (s : BofStack) : Option (Bool × BofErr × BofStack) :=
  if flag &&& flagUseChecksum ≠ 0 then checkChecksum cpu s else some (true, .tooBig, s)

/-- The function id, the return code and the arguments. -/
def parsePayload (r : BofRpc) (answer : Bool) (p : Parsing) : Option Parsing := do
  match ← p.s.popU16 r.cpu with
  | (none, s) => return { p with Sts_B := false, s }
  | (some fctId, s) =>
    let p := { p with Rts_U32 := .invalidCommand, res := { p.res with FctId_U32 := fctId } }
    if fctId < maxFct then
      match ← s.popU16 r.cpu with
      | (none, s) => return { p with Sts_B := false, s }
      | (some rpcRts, s) =>
        let (sts, vars, s) ← popVars r.cpu answer (r.pRpcFct_X fctId).pArg_U16.zipIdx.reverse p.res.pRpcVar_X s
        return { p with Sts_B := sts, s, res := { p.res with RpcRts_U32 := rpcRts, pRpcVar_X := vars } }
    else return { p with Sts_B := false, s }

/-- The test of the tag, if a tag is expected: the result of the test of the checksum is written over then. -/
def checkTag (answer : Bool) (len : Nat) (sts : Bool) (err : BofErr) (s : BofStack) (p : Parsing) : Parsing :=
  let expectedTag := p.res.RpcTag_U16
  let res := { p.res with RpcStackLen_U32 := len, RpcTag_U16 := p.TheTag_U16 }
  if answer ∧ expectedTag ≠ 0 then
    { p with Sts_B := decide (p.TheTag_U16 = expectedTag), Rts_U32 := .notFound, res, s }
  else { p with Sts_B := sts, Rts_U32 := err, res, s }

/-- The tests of the checksum and of the tag, and what is behind the header. -/
def parseChecked (r : BofRpc) (answer : Bool) (len : Nat) (p : Parsing) (s : BofStack) : Option Parsing := do
  let (sts, err, s) ← checkFlag r.cpu p.Flag_U16 s
  let p := checkTag answer len sts err s p
  if p.Sts_B then r.parsePayload answer p else return p

/-- The frame after its header. -/
def parseBody (r : BofRpc) (answer : Bool) (buffer : List UInt8) (len : Nat) (p : Parsing) : Option Parsing := do
  let s ← copyFrame p.s buffer len
  r.parseChecked answer len p (s.setStackPointer len).2

/-- The frame from its header on, for a buffer that starts with the magic number. -/
def parseHeader (r : BofRpc) (answer : Bool) (buffer : List UInt8) (res : RpcParserResult) (s : BofStack) :
    Option Parsing := do
  match ← popTopRpcControlParam r.cpu s with
  | ([len, tag, timeOut, flag, sof], s) =>
    let res := { res with TimeOut_U32 := timeOut }
    if sof = magicNumber ∧ len ≤ s.MaxStackSize_U32 then
      r.parseBody answer buffer len ⟨false, .tooBig, tag, flag, res, s⟩
    else return ⟨false, .tooBig, tag, flag, res, s⟩
  -- the variables are not initialized
  | _ => none

/-- The frame from its first bytes on: without the magic number there is nothing to parse. -/
def parseMagicNumber (r : BofRpc) (answer : Bool) (buffer : List UInt8) (res : RpcParserResult) (s : BofStack) :
    Option Parsing :=
  match isRpcLittleEndian r.cpu s.mpStack_U8 with
  | some mustSwap => r.parseHeader answer buffer res (s.setSwapByte mustSwap)
  | none => some ⟨false, .einval, 0, 0, res, s⟩

/-- The record of the frame in `mRpcState_X`. -/
def frameState (p : Parsing) : Option RpcFrameState := do
  let bytes ← p.s.read 0 (if p.res.RpcStackLen_U32 < 64 then p.res.RpcStackLen_U32 else 64)
  return ⟨p.res.FctId_U32, p.res.RpcRts_U32, p.res.RpcStackLen_U32, p.res.TimeOut_U32, p.TheTag_U16, p.Flag_U16,
    bytes ++ List.replicate (64 - bytes.length) 0⟩

/-- The end of `ParseRpcFrame`. -/
def endFrame (r : BofRpc) (answer : Bool) (p : Parsing) : Option (BofRpc × RpcParserResult × BofErr) := do
  let state ← frameState p
  let (s, err) := if p.Sts_B then checkAndResetStackPointerToRpcControlSize p.s else (p.s, p.Rts_U32)
  return (if answer then { r with mpRpcAnsStack_O := s, ansState := state }
    else { r with mpRpcReqStack_O := s, reqState := state }, p.res, err)

/-- The stack on which a frame is parsed. -/
def parserStack (r : BofRpc) (answer : Bool) : BofStack := if answer then r.mpRpcAnsStack_O else r.mpRpcReqStack_O

/-- `ParseRpcFrame`. -/
def parseRpcFrame (r : BofRpc) (answer : Bool) (buffer : List UInt8) (res : RpcParserResult) :
    Option (BofRpc × RpcParserResult × BofErr) := do
  let s ← copyFrame (r.parserStack answer) buffer 16
  let p ← r.parseMagicNumber answer buffer (if answer then res else {}) (s.setStackPointer 16).2
  r.endFrame answer p

end BofRpc

end BofStd
