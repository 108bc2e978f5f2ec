import BofStd.BofCommandLineParser
import BofStd.BofGetoptSpec

/-!
# What `BofCommandLineParser::ToByte` does with a command line

`event` is what an option of the command line comes to. An `Element` is one way to write options down, `words` are its
words and `events` what it is meant to do; `Understood` says when `ToByte` does that. `Fits` says when the tables for
`getopt_long` have room for the options.
-/

namespace BofStd.BofCommandLineParser

open BofParameter Getopt StdString

/-- The short options as `getopt` reads them. -/
def shortString (options : List CommandLineOption) : Text :=
  options.flatMap fun p =>
    if p.Name_S.length = 1 then
      if isAnyBitFlagSet p.ArgFlag_E CMDLINE_LONGOPT_NEED_ARG then p.Name_S ++ [colon] else p.Name_S
    else []

/-- The long options as `getopt_long` reads them. -/
def longTable (options : List CommandLineOption) : List LongOption :=
  (options.filter fun p => p.Name_S.length ≠ 1).map fun p =>
    { name := cStr p.Name_S, hasArg := p.ArgFlag_E.toInt32.toInt, flag := none, val := 0 }

/-- The options for `getopt_long`. -/
def getoptOptions (options : List CommandLineOption) : Options := ⟨shortString options, some (longTable options), true⟩

/-- How many elements of a command line have not been scanned. -/
def left (x : Input) : Nat := x.words.length + if x.cluster = [] then 0 else 1

/-- What an option of the command line comes to. The error names the element before the next one to be scanned. -/
def event (options : List CommandLineOption) (argv : List Text) (e : Reply × Input) : Event :=
  let found :=
    match e.1.longind with
    | none => (findShort options (UInt8.ofInt e.1.ret)).map fun i => (i, e.1.optarg.map skipSeparator)
    | some index =>
      ((longTable options)[index]?).bind fun p => (findLongName options p.name).map fun i => (i, e.1.optarg)
  match found with
  | some (i, optVal) => .parse i optVal
  | none =>
    .error (if e.1.ret = question then (argv.getD (argv.length - left e.2 - 1) []).take (errorSize - 1) else [])

/-- The result of `ToByte` for its events. -/
def result (events : List Event) : BofErr × List Event :=
  (if events.any fun e => match e with | .error _ => true | .parse _ _ => false then .parser else .noError, events)

/-- An option that ends the filling of the tables with an error: the short ones take up too much room, or it is `?`. -/
def Refused (before : List CommandLineOption) (p : CommandLineOption) : Prop :=
  p.Name_S.length = 1 ∧ (shortSize - 3 ≤ (shortString before).length ∨ p.Name_S = ['?'.toUInt8])

instance refusedDecidable (before : List CommandLineOption) (p : CommandLineOption) : Decidable (Refused before p) :=
  inferInstanceAs (Decidable (_ ∧ _))

/-- None of the options is refused. -/
def Accepted (options : List CommandLineOption) : Prop :=
  ∀ before p after, options = before ++ p :: after → ¬Refused before p

/-- `pGetOptLong_X` has room for every long option up to the first refused one, and for the empty one behind them if
none is refused. -/
def Fits (options : List CommandLineOption) : Prop :=
  (∀ before after, options = before ++ after → Accepted before → (longTable before).length ≤ longSize) ∧
    (Accepted options → (longTable options).length < longSize)

/-- The characters of a string are ASCII. -/
def Ascii (s : Text) : Prop := ∀ c ∈ s, c < 0x80

instance asciiDecidable (s : Text) : Decidable (Ascii s) := inferInstanceAs (Decidable (∀ c ∈ s, c < 0x80))

/-- Ways to write options down. -/
inductive Element where
  /-- `-abc` -/
  | flags (cs : Text)
  /-- `-abcVALUE` -/
  | attached (cs : Text) (c : UInt8) (optVal : Text)
  /-- `-abc=VALUE` -/
  | assigned (cs : Text) (c : UInt8) (optVal : Text)
  /-- `-abc VALUE` -/
  | separate (cs : Text) (c : UInt8) (optVal : Text)
  /-- `--name` -/
  | long (name : Text)
  /-- `--name=VALUE` -/
  | longAttached (name optVal : Text)
  /-- `--name VALUE` -/
  | longSeparate (name optVal : Text)

/-- The words of an element. -/
def Element.words : Element → List Text
  | .flags cs => [dash :: cs]
  | .attached cs c optVal => [dash :: (cs ++ c :: optVal)]
  | .assigned cs c optVal => [dash :: (cs ++ c :: equals :: optVal)]
  | .separate cs c optVal => [dash :: (cs ++ [c]), optVal]
  | .long name => [dash :: dash :: name]
  | .longAttached name optVal => [dash :: dash :: (name ++ equals :: optVal)]
  | .longSeparate name optVal => [dash :: dash :: name, optVal]

/-- `S_Parse` of the option with this name. -/
def parseOf (options : List CommandLineOption) (name : Text) (optVal : Option Text) : Event :=
  .parse (options.findIdx fun p => p.Name_S = name) optVal

/-- What an element is meant to do. -/
def Element.events (options : List CommandLineOption) : Element → List Event
  | .flags cs => cs.map fun c => parseOf options [c] none
  | .attached cs c optVal | .assigned cs c optVal | .separate cs c optVal =>
    (cs.map fun c => parseOf options [c] none) ++ [parseOf options [c] (some optVal)]
  | .long name => [parseOf options name none]
  | .longAttached name optVal | .longSeparate name optVal => [parseOf options name (some optVal)]

/-- The options have names that can be told apart: the short ones are ASCII and not special to `getopt`, and the long
ones are not empty and have neither a `=` nor a null byte. -/
structure Distinct (options : List CommandLineOption) : Prop where
  nodup : (options.map CommandLineOption.Name_S).Nodup
  short : ∀ p ∈ options, ∀ c, p.Name_S = [c] → c < 0x80 ∧ c ∉ [0, dash, plus, colon, semicolon, '?'.toUInt8]
  long : ∀ p ∈ options, p.Name_S ≠ [] ∧ (p.Name_S.length ≠ 1 → equals ∉ p.Name_S ∧ 0 ∉ p.Name_S)

/-- There is a short option `c`, and it needs an argument or not. -/
def HasShort (options : List CommandLineOption) (c : UInt8) (needArg : Bool) : Prop :=
  ∃ p ∈ options, p.Name_S = [c] ∧ isAnyBitFlagSet p.ArgFlag_E CMDLINE_LONGOPT_NEED_ARG = needArg

/-- There is a long option `name`, and it needs an argument or not. -/
def HasLong (options : List CommandLineOption) (name : Text) (needArg : Bool) : Prop :=
  ∃ p ∈ options, p.Name_S = name ∧ name.length ≠ 1 ∧ isAnyBitFlagSet p.ArgFlag_E CMDLINE_LONGOPT_NEED_ARG = needArg

/-- The element is made of options of the program, with a value for those that need an argument and for no other. -/
def Element.Valid (options : List CommandLineOption) : Element → Prop
  | .flags cs => cs ≠ [] ∧ ∀ c ∈ cs, HasShort options c false
  | .attached cs c optVal => (∀ c ∈ cs, HasShort options c false) ∧ HasShort options c true ∧ optVal ≠ []
  | .assigned cs c _ | .separate cs c _ => (∀ c ∈ cs, HasShort options c false) ∧ HasShort options c true
  | .long name => HasLong options name false
  | .longAttached name _ | .longSeparate name _ => HasLong options name true

/-- The value of a short option does not begin like `-w=1` or `-w 1` in one word. -/
def Bare (optVal : Text) : Prop := ∀ c ∈ optVal.head?, c ≠ ' '.toUInt8 ∧ c ≠ equals

/-- The element is read as it is meant: the value of a short option loses a separator that it begins with, and a long
option that has another flag besides needing an argument does not take the next word. -/
def Element.Understood (options : List CommandLineOption) : Element → Prop
  | .attached _ _ optVal | .separate _ _ optVal => Bare optVal
  | .longSeparate name _ => ∀ p ∈ options, p.Name_S = name → p.ArgFlag_E = CMDLINE_LONGOPT_NEED_ARG
  | .flags _ | .assigned _ _ _ | .long _ | .longAttached _ _ => True

end BofStd.BofCommandLineParser
