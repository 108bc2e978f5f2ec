import BofStd.BofString
import Mathlib.Algebra.Group.Nat.Defs

/-!
# What the functions on strings are for
-/

namespace BofStd.BofString

/-- Both replacements come to an end with the same string, in which the leftmost occurrences are replaced. -/
def ReplaceAlike (s str new : Text) : Prop :=
  ∃ t, (∃ rounds, stringReplace rounds s str new = some t) ∧ (∃ rounds, stringTokenReplace rounds s str new = some t) ∧
    (str ≠ [] → Replace.Replaces str new s t)

/-- Splitting and joining undo each other, and a split cuts at every delimiter. -/
structure SplitsAndJoins : Prop where
  join_split : ∀ (s : Text) (d : UInt8), ∃ ts, stringSplit s [d] = some ts ∧ stringJoin ts [d] = s
  split_join : ∀ (ts : List Text) (d : UInt8), ts ≠ [] → (∀ t ∈ ts, d ∉ t) →
    stringSplit (stringJoin ts [d]) [d] = some ts
  split : ∀ s splitDelimiter : Text, ∃ ts, stringSplit s splitDelimiter = some ts ∧
    ts.length = s.countP (fun c => c ∈ splitDelimiter) + 1 ∧ ∀ t ∈ ts, ∀ c ∈ t, c ∉ splitDelimiter

/-! ## Keys and values -/

/-- A pair, and the run of delimiters behind it. -/
structure KeyValue where
  key : Text
  value : Text
  run : Text

/-- The pairs as they are written: a run of delimiters, and each pair with the one behind it. -/
def format (keyValueSeparator : UInt8) (lead : Text) (pairs : List KeyValue) : Text :=
  lead ++ pairs.flatMap fun pair => pair.key ++ keyValueSeparator :: pair.value ++ pair.run

/-- Keys are not empty, keys and values hold neither delimiters nor the separator, runs hold delimiters only, and
between two pairs there is one. -/
structure IsFormat (delimiter : Text) (keyValueSeparator : UInt8) (lead : Text) (pairs : List KeyValue) : Prop where
  delimiter_ne : delimiter ≠ []
  separator : keyValueSeparator ∉ delimiter
  key_ne : ∀ pair ∈ pairs, pair.key ≠ []
  key : ∀ pair ∈ pairs, ∀ c ∈ pair.key, c ∉ delimiter ∧ c ≠ keyValueSeparator
  value : ∀ pair ∈ pairs, ∀ c ∈ pair.value, c ∉ delimiter ∧ c ≠ keyValueSeparator
  run : ∀ run ∈ lead :: pairs.map KeyValue.run, ∀ c ∈ run, c ∈ delimiter
  between : ∀ pair ∈ pairs.dropLast, pair.run ≠ []

/-- The value of the first pair whose trimmed key is the name; otherwise the output is not touched. -/
def lookup (pairs : List (Text × Text)) (keyName value : Text) : BofErr × Text :=
  match pairs.find? fun pair => stringTrim pair.1 = keyName with
  | some pair => (.noError, pair.2)
  | none => (.notFound, value)

/-- The keys with their values. -/
def keyValues (pairs : List KeyValue) : List (Text × Text) := pairs.map fun pair => (pair.key, pair.value)

/-- The lookup finds the value of the first pair with this key. -/
def FindsFirst (delimiter : Text) (keyValueSeparator : UInt8) (lead : Text) (pairs : List KeyValue)
    (keyName value : Text) : Prop :=
  ∃ rounds, getStringFromMultipleKeyValueString rounds (format keyValueSeparator lead pairs) delimiter keyName
    keyValueSeparator value = some (lookup (keyValues pairs) keyName value)

/-- The C functions see a text as it is: `strchr` finds its delimiters and nothing else. Where the first delimiter is
the null byte all repetitions are removed, so no other character is repeated. -/
structure SeenWhole (delimiter text : Text) : Prop where
  seen : ∀ c ∈ text, StdString.strchr delimiter c ↔ c ∈ delimiter
  repeated : delimiter.head? = some 0 → text.IsChain fun c₁ c₂ => c₁ = c₂ → c₁ = 0

/-- The keys, and the empty text behind a run at the end. -/
def keyPlaces : List KeyValue → List Text
  | [] => [[]]
  | pair :: pairs => pair.key :: if pair.run = [] then [] else keyPlaces pairs

/-- The empty text in front of a run at the start, and the values. -/
def valuePlaces (pairs : List KeyValue) : List Text := [] :: pairs.map KeyValue.value

/-- The first of the texts that is the name once it is trimmed. -/
structure IsFirst (texts : List Text) (name : Text) (i : Nat) : Prop where
  named : ∃ t, texts[i]? = some t ∧ stringTrim t = name
  first : ∀ j < i, ∀ t, texts[j]? = some t → stringTrim t ≠ name

/-- The text in the place of the first name. -/
def StandsBehind (names texts : List Text) (name text : Text) : Prop :=
  ∃ i, IsFirst names name i ∧ texts[i]? = some text

/-- An index of type `uint32_t` that goes over every other piece comes to the name, or to the end. -/
def IndexSuffices (names : List Text) (name : Text) : Prop := names.length < 2 ^ 31 ∨ ∃ i < 2 ^ 31, IsFirst names name i

/-- Behind the first value that is the name stands the text that is the value of the first key that is the name. -/
def ValuesTellTheSame (pairs : List KeyValue) (name : Text) : Prop :=
  ∀ text, StandsBehind (valuePlaces pairs) (keyPlaces pairs) name text ↔
    StandsBehind (pairs.map KeyValue.key) (pairs.map KeyValue.value) name text

end BofStd.BofString
