import BofStd.Parameter

/-!
# What lists of parameters are for

The value of an array is a list of pieces between commas, and the call stores what the calls with the pieces alone store,
up to the first one that fails.
-/

namespace BofStd

namespace BofParameter

open StdString

variable {D Tm : Type}

/-- What a call returns: an error, and what is stored. -/
abbrev ParseResult (Tm : Type) : Type := BofErr × List (ElementPlace × ParameterValue Tm)

/-- The pieces of a value. One empty piece behind the last comma is dropped. -/
def pieces (value : Text) : List Text :=
  let all := (cStr value).splitOn ','.toUInt8
  if 1 < all.length ∧ all.getLast? = some [] then all.dropLast else all

/-- The calls with the pieces, at one index after the other, up to the first one that fails. -/
def parseEach (f : UInt32 → Text → Option (ParseResult Tm)) : UInt32 → List Text → Option (ParseResult Tm)
  | _, [] => some (.noError, [])
  | index, piece :: rest =>
    (f index piece).bind fun result =>
      if result.1 = .noError then
        (parseEach f (index + 1) rest).map fun others => (others.1, result.2 ++ others.2)
      else some result

/-- The call with one piece alone. -/
def parseAlone (env : ParameterEnv D Tm) (p : BofParameter D) (parseCallback : Option ParseCallback) (index : UInt32)
    (piece : Text) : Option (ParseResult Tm) := parse env p parseCallback index (some piece)

/-- The pieces in front of the `n`th one succeed, and it fails with an error. -/
def FirstFailure (env : ParameterEnv D Tm) (p : BofParameter D) (parseCallback : Option ParseCallback) (start : UInt32)
    (value : Text) (n : Nat) (err : BofErr) : Prop :=
  err ≠ .noError ∧
    (∀ i piece, i < n → (pieces value)[i]? = some piece →
      ∃ stored, parseAlone env p parseCallback (start + UInt32.ofNat i) piece = some (.noError, stored)) ∧
    ∃ piece stored, (pieces value)[n]? = some piece ∧
      parseAlone env p parseCallback (start + UInt32.ofNat n) piece = some (err, stored)

/-- All pieces that fit the capacity succeed, and there are more. -/
def FillsCapacity (env : ParameterEnv D Tm) (p : BofParameter D) (parseCallback : Option ParseCallback) (start : UInt32)
    (value : Text) : Prop :=
  p.ArrayCapacity_U32.toNat < start.toNat + (pieces value).length ∧
    ∀ i piece, (pieces value)[i]? = some piece → start.toNat + i < p.ArrayCapacity_U32.toNat →
      ∃ stored, parseAlone env p parseCallback (start + UInt32.ofNat i) piece = some (.noError, stored)

/-- A list is parsed element by element. -/
structure ParsesElementwise (env : ParameterEnv D Tm) (p : BofParameter D) (parseCallback : Option ParseCallback)
    (start : UInt32) (value : Text) : Prop where
  each : parse env p parseCallback start (some value) = parseEach (parseAlone env p parseCallback) start (pieces value)
  returns : (parse env p parseCallback start (some value)).isSome
  /-- A piece that fails stores nothing. -/
  untouched : ∀ index piece err stored, piece ∈ pieces value →
    parseAlone env p parseCallback index piece = some (err, stored) → err ≠ .noError → stored = []
  outOfRange : (∃ stored, parse env p parseCallback start (some value) = some (.outOfRange, stored)) ↔
    FillsCapacity env p parseCallback start value ∨
      ∃ n, start.toNat + n < p.ArrayCapacity_U32.toNat ∧ FirstFailure env p parseCallback start value n .outOfRange

/-- An array whose values are cut at the commas, without a regular expression. -/
structure IsList (p : BofParameter D) : Prop where
  value : p.pValue = true
  array : p.ArrayCapacity_U32 ≠ 0
  coma : isAnyBitFlagSet p.ArgFlag_E COMA_IS_NOT_A_SEPARATOR = false
  regexp : isAnyBitFlagSet p.ArgFlag_E STR_FORMAT_ISREGEXP = false

/-- A type of dates and times. -/
def IsDateTime (type : BofParameterArgType) : Prop := type = .date ∨ type = .time ∨ type = .dateTime

/-- A callback that does not look at the text and leaves every error an error. -/
def KeepsErrors (parseCallback : Option ParseCallback) : Prop :=
  ∀ callback, parseCallback = some callback → ∀ index err, err ≠ .noError → ∀ text text',
    callback index err text = callback index err text' ∧ callback index err text ≠ .noError

/-- An environment of whole numbers in decimal digits, and dates of ten characters. -/
def decimalEnv : ParameterEnv Int Text where
  sscanf _ _ text := if (text.takeWhile isDigit).isEmpty then none else some (numeral (text.takeWhile isDigit))
  cast _ d := d
  less a b := a < b
  strptime text _ := some (text.take 10, text.drop 10)
  atoi text := UInt32.ofNat (numeral (text.takeWhile isDigit))
  regexMatch _ _ := true

/-- An array of four elements, with bounds. -/
def arrayParameter (type : BofParameterArgType) (min max : Int) : BofParameter Int where
  Format_S := []
  ArgFlag_E := 0
  ArgType_E := type
  Min_lf := min
  Max_lf := max
  pValue := true
  ArrayElementSize_U32 := 16
  ArrayCapacity_U32 := 4
  StringToEnum := none

end BofParameter

end BofStd
