import BofStd.BofPath

/-!
# `getopt_long`

`_getopt_internal` with the functions it calls, for `long_only` 0, which `getopt` and `getopt_long` pass. A pointer into
a word is the rest of the word. `none` is a read outside of `argv` or of a string, or through a null table. The text
that a call prints is part of its reply. The strings are shorter than 4 GiB, and a `char` is signed.
-/

namespace BofStd.Getopt

/-- `struct option`; a flag is the address of an `int`. -/
structure LongOption where
  name : Text
  hasArg : Int
  flag : Option Nat
  val : Int
  deriving DecidableEq

/-- `ordering` -/
inductive ArgOrdering where
  | requireOrder
  | permute
  | returnInOrder
  deriving DecidableEq

/-- What the caller passes beside `argv`. -/
structure Options where
  optstring : Text
  longopts : Option (List LongOption)
  opterr : Bool

/-- `argv` and the variables that a call leaves to the next one. -/
structure Scan where
  argv : List Text
  optind : Nat
  initialized : Bool
  nextchar : Option Text
  ordering : ArgOrdering
  firstNonopt : Nat
  lastNonopt : Nat

/-- What a call answers. It leaves `optopt` and `*longind` alone where they are `none`, and `stored` is what it writes
through a flag. -/
structure Reply where
  ret : Int
  optarg : Option Text := none
  optopt : Option Int := none
  longind : Option Nat := none
  stored : Option (Nat × Int) := none
  printed : Text := []
  deriving DecidableEq

/-- A `char` as an `int`. -/
def charInt (c : UInt8) : Int := c.toInt8.toInt

/-- A text of the source. -/
def text (s : List Char) : Text := s.map Char.toUInt8

/-- The first characters of `optstring` and of an element. -/
def dash : UInt8 := '-'.toUInt8
def plus : UInt8 := '+'.toUInt8
def colon : UInt8 := ':'.toUInt8
def semicolon : UInt8 := ';'.toUInt8
def equals : UInt8 := '='.toUInt8

/-- `'?'` and `':'` as they are returned. -/
def question : Int := 63
def missing (optstring : Text) : Int := if optstring.head? = some colon then 58 else question

/-- What the source stores in `posixly_correct`: the environment is not asked. -/
def posixlyCorrect : Bool := true

/-! ## The elements of `argv` -/

/-- The inner loops of `exchange`. -/
def swapSegments (argv : List Text) (i j : Nat) : Nat → List Text
  | 0 => argv
  | len + 1 => swapSegments ((argv.set i (argv.getD j [])).set j (argv.getD i [])) (i + 1) (j + 1) len

/-- The outer loop of `exchange`. -/
def exchangeLoop (argv : List Text) (bottom middle top : Nat) : List Text :=
  if top > middle ∧ middle > bottom then
    if top - middle > middle - bottom then
      exchangeLoop (swapSegments argv bottom (top - (middle - bottom)) (middle - bottom)) bottom middle
        (top - (middle - bottom))
    else
      exchangeLoop (swapSegments argv bottom middle (top - middle)) (bottom + (top - middle)) middle top
  else argv
termination_by top - bottom

/-- `exchange` -/
def Scan.exchange (s : Scan) : Scan :=
  { s with
    argv := exchangeLoop s.argv s.firstNonopt s.lastNonopt s.optind
    firstNonopt := s.firstNonopt + (s.optind - s.lastNonopt)
    lastNonopt := s.optind }

/-- `_getopt_initialize` -/
def Scan.getoptInitialize (s : Scan) (optstring : Text) : Scan × Text :=
  let s := { s with firstNonopt := s.optind, lastNonopt := s.optind, nextchar := none, initialized := true }
  if optstring.head? = some dash then ({ s with ordering := .returnInOrder }, optstring.tail)
  else if optstring.head? = some plus then ({ s with ordering := .requireOrder }, optstring.tail)
  else ({ s with ordering := if posixlyCorrect then .requireOrder else .permute }, optstring)

/-- `NONOPTION_P` -/
def nonOption (word : Text) : Bool :=
  match word with
  | c :: _ :: _ => c ≠ dash
  | _ => true

/-- `while (optind < argc && NONOPTION_P)` -/
def skipNonOptions (argv : List Text) (optind : Nat) : Nat :=
  optind + ((argv.drop optind).takeWhile nonOption).length

/-- The scan before it looks at the next element: the non-options are within what has been scanned, and with `PERMUTE`
the options that followed them are exchanged with them and more of them are skipped. -/
def Scan.settle (s : Scan) : Scan :=
  let s := if s.lastNonopt > s.optind then { s with lastNonopt := s.optind } else s
  let s := if s.firstNonopt > s.optind then { s with firstNonopt := s.optind } else s
  if s.ordering = .permute then
    let s :=
      if s.firstNonopt ≠ s.lastNonopt ∧ s.lastNonopt ≠ s.optind then s.exchange
      else if s.lastNonopt ≠ s.optind then { s with firstNonopt := s.optind }
      else s
    let optind := skipNonOptions s.argv s.optind
    { s with optind := optind, lastNonopt := optind }
  else s

/-- The element `--`. -/
def Scan.endOfOptions (s : Scan) : Scan :=
  let s := { s with optind := s.optind + 1 }
  let s :=
    if s.firstNonopt ≠ s.lastNonopt ∧ s.lastNonopt ≠ s.optind then s.exchange
    else if s.firstNonopt = s.lastNonopt then { s with firstNonopt := s.optind }
    else s
  { s with lastNonopt := s.argv.length, optind := s.argv.length }

/-- All the elements have been scanned. -/
def Scan.finish (s : Scan) : Scan := if s.firstNonopt ≠ s.lastNonopt then { s with optind := s.firstNonopt } else s

/-- The scan goes on to the element at `optind`: the call returns, or it has found an option. -/
def Scan.takeElement (long : Bool) (s : Scan) : Option ((Scan × Reply) ⊕ Scan) :=
  if s.optind = s.argv.length then some (.inl (s.finish, { ret := -1 }))
  else
    match s.argv[s.optind]? with
    | none => none
    | some word =>
      if nonOption word then
        if s.ordering = .requireOrder then some (.inl (s, { ret := -1 }))
        else some (.inl ({ s with optind := s.optind + 1 }, { ret := 1, optarg := some word }))
      else
        some (.inr { s with nextchar := some (word.drop (if long ∧ word[1]? = some dash then 2 else 1)) })

/-- "Advance to the next ARGV-element" -/
def Scan.advance (long : Bool) (s : Scan) : Option ((Scan × Reply) ⊕ Scan) :=
  let s := s.settle
  if s.optind ≠ s.argv.length then
    match s.argv[s.optind]? with
    | none => none
    | some word => if word = [dash, dash] then s.endOfOptions.takeElement long else s.takeElement long
  else s.takeElement long

/-! ## What is answered

`program` is `argv[0]`, which a message begins with. -/

/-- A line that is printed. -/
def line (printErrors : Bool) (program : Text) (message : List Text) : Text :=
  if printErrors then program ++ text [':', ' '] ++ message.flatten ++ text ['\n'] else []

/-- The option `p` with the index `index` has been found. -/
def foundReply (index : Nat) (p : LongOption) (optarg : Option Text) : Reply :=
  match p.flag with
  | some flag => { ret := 0, optarg := optarg, longind := some index, stored := some (flag, p.val) }
  | none => { ret := p.val, optarg := optarg, longind := some index }

def ambiguousReply (printErrors : Bool) (program word : Text) : Reply :=
  { ret := question, optopt := some 0,
    printed := line printErrors program [text ['o', 'p', 't', 'i', 'o', 'n', ' ', '\x60'], word,
      text ['\'', ' ', 'i', 's', ' ', 'a', 'm', 'b', 'i', 'g', 'u', 'o', 'u', 's']] }

def notAllowedReply (printErrors : Bool) (program : Text) (p : LongOption) : Reply :=
  { ret := question, optopt := some p.val,
    printed := line printErrors program [text ['o', 'p', 't', 'i', 'o', 'n', ' ', '\x60', '-', '-'], p.name,
      text ['\'', ' ', 'd', 'o', 'e', 's', 'n', '\'', 't', ' ', 'a', 'l', 'l', 'o', 'w', ' ', 'a', 'n', ' ', 'a', 'r',
        'g', 'u', 'm', 'e', 'n', 't']] }

def requiresReply (printErrors : Bool) (optstring program word : Text) (p : LongOption) : Reply :=
  { ret := missing optstring, optopt := some p.val,
    printed := line printErrors program [text ['o', 'p', 't', 'i', 'o', 'n', ' ', '\x60'], word,
      text ['\'', ' ', 'r', 'e', 'q', 'u', 'i', 'r', 'e', 's', ' ', 'a', 'n', ' ', 'a', 'r', 'g', 'u', 'm', 'e', 'n',
        't']] }

def unrecognizedReply (printErrors : Bool) (program nextchar : Text) : Reply :=
  { ret := question, optopt := some 0,
    printed := line printErrors program [text ['u', 'n', 'r', 'e', 'c', 'o', 'g', 'n', 'i', 'z', 'e', 'd', ' ', 'o',
      'p', 't', 'i', 'o', 'n', ' ', '\x60', '-', '-'], nextchar, text ['\'']] }

/-- A character that is no option. -/
def illegalReply (printErrors : Bool) (program : Text) (c : UInt8) : Reply :=
  { ret := question, optopt := some (charInt c),
    printed := line printErrors program [if posixlyCorrect then
        text ['i', 'l', 'l', 'e', 'g', 'a', 'l', ' ', 'o', 'p', 't', 'i', 'o', 'n', ' ', '-', '-', ' ']
      else text ['i', 'n', 'v', 'a', 'l', 'i', 'd', ' ', 'o', 'p', 't', 'i', 'o', 'n', ' ', '-', '-', ' '], [c]] }

/-- A short option without the argument that it requires. -/
def missingReply (printErrors : Bool) (optstring program : Text) (c : UInt8) : Reply :=
  { ret := missing optstring, optopt := some (charInt c),
    printed := line printErrors program [text ['o', 'p', 't', 'i', 'o', 'n', ' ', 'r', 'e', 'q', 'u', 'i', 'r', 'e',
      's', ' ', 'a', 'n', ' ', 'a', 'r', 'g', 'u', 'm', 'e', 'n', 't', ' ', '-', '-', ' '], [c]] }

/-! ## Options -/

/-- `argv[0]` -/
def Scan.program (s : Scan) : Text := s.argv.headD []

/-- Two options that an abbreviation does not tell apart, and need not. -/
def LongOption.alike (p q : LongOption) : Bool := p.hasArg = q.hasArg ∧ p.flag = q.flag ∧ p.val = q.val

/-- The loop over `longopts`: `pfound` with its index, and `ambig` if the match is not exact. With `tolerant` an
abbreviation of options that are alike is the first of them. -/
def findLong (tolerant : Bool) (key : Text) :
    List LongOption → Nat → Option (Nat × LongOption) → Bool → Option (Nat × LongOption) × Bool
  | [], _, pfound, ambig => (pfound, ambig)
  | p :: longopts, index, pfound, ambig =>
    if key.isPrefixOf p.name then
      if key.length = p.name.length then (some (index, p), false)
      else
        match pfound with
        | none => findLong tolerant key longopts (index + 1) (some (index, p)) ambig
        | some f => findLong tolerant key longopts (index + 1) pfound (ambig || !(tolerant && f.2.alike p))
    else findLong tolerant key longopts (index + 1) pfound ambig

/-- A long option: the element `word` from `nextchar` on. -/
def longOption (printErrors : Bool) (optstring : Text) (longopts : List LongOption) (s : Scan) (word nextchar : Text) :
    Scan × Reply :=
  let nameend := nextchar.dropWhile (· ≠ equals)
  let after := { s with nextchar := some [], optind := s.optind + 1 }
  match findLong true (nextchar.takeWhile (· ≠ equals)) longopts 0 none false with
  | (_, true) => (after, ambiguousReply printErrors s.program word)
  | (some (index, p), false) =>
    match nameend with
    | _ :: optarg =>
      (after, if p.hasArg ≠ 0 then foundReply index p (some optarg) else notAllowedReply printErrors s.program p)
    | [] =>
      if p.hasArg = 1 then
        match s.argv[s.optind + 1]? with
        | some optarg => ({ after with optind := s.optind + 1 + 1 }, foundReply index p (some optarg))
        | none => (after, requiresReply printErrors optstring s.program word p)
      else (after, foundReply index p none)
  | (none, false) => (after, unrecognizedReply printErrors s.program nextchar)

/-- An argument that is required: the rest of the element, or the next element. -/
def requiredArgument (s : Scan) (nextchar : Text) : Option (Scan × Text) :=
  match nextchar with
  | _ :: _ => some ({ s with optind := s.optind + 1 }, nextchar)
  | [] => (s.argv[s.optind]?).map fun optarg => ({ s with optind := s.optind + 1 }, optarg)

/-- `-W foo` -/
def wOption (printErrors : Bool) (optstring : Text) (longopts : Option (List LongOption)) (s : Scan) (c : UInt8)
    (nextchar : Text) : Option (Scan × Reply) :=
  match requiredArgument s nextchar with
  | none => some (s, missingReply printErrors optstring s.program c)
  | some (s, optarg) =>
    let nameend := optarg.dropWhile (· ≠ equals)
    let s := { s with nextchar := some [] }
    let dashW := text ['o', 'p', 't', 'i', 'o', 'n', ' ', '\x60', '-', 'W', ' ']
    longopts.bind fun longopts =>
      match findLong false (optarg.takeWhile (· ≠ equals)) longopts 0 none false with
      | (_, true) =>
        -- the message is about the element behind the argument, and the scan skips it
        let after := { s with optind := s.optind + 1 }
        if printErrors then
          (s.argv[s.optind]?).map fun word =>
            (after,
              { ret := question, optarg := some optarg, printed := line true s.program [dashW, word,
                  text ['\'', ' ', 'i', 's', ' ', 'a', 'm', 'b', 'i', 'g', 'u', 'o', 'u', 's']] })
        else some (after, { ret := question, optarg := some optarg })
      | (some (index, p), false) =>
        match nameend with
        | _ :: value =>
          if p.hasArg ≠ 0 then some (s, foundReply index p (some value))
          else
            some (s, { ret := question, optarg := some optarg, printed := line printErrors s.program [dashW, p.name,
              text ['\'', ' ', 'd', 'o', 'e', 's', 'n', '\'', 't', ' ', 'a', 'l', 'l', 'o', 'w', ' ', 'a', 'n', ' ',
                'a', 'r', 'g', 'u', 'm', 'e', 'n', 't']] })
        | [] =>
          if p.hasArg = 1 then
            match s.argv[s.optind]? with
            | some value => some ({ s with optind := s.optind + 1 }, foundReply index p (some value))
            | none =>
              (s.argv[s.optind - 1]?).map fun word =>
                (s, { requiresReply printErrors optstring s.program word p with optarg := some optarg, optopt := none })
          else some (s, foundReply index p (some optarg))
      | (none, false) => some ({ s with nextchar := none }, { ret := charInt c, optarg := some optarg })

/-- A short option: the next character of the element. -/
def shortOption (o : Options) (printErrors : Bool) (optstring : Text) (s : Scan) (nextchar : Text) :
    Option (Scan × Reply) :=
  match nextchar with
  | [] => none
  | c :: nextchar =>
    let s := { s with nextchar := some nextchar, optind := if nextchar = [] then s.optind + 1 else s.optind }
    match optstring.dropWhile (· ≠ c) with
    | [] => some (s, illegalReply printErrors s.program c)
    | temp :: follows =>
      if c = colon then some (s, illegalReply printErrors s.program c)
      else if temp = 'W'.toUInt8 ∧ follows.head? = some semicolon then
        wOption printErrors optstring o.longopts s c nextchar
      else if follows.head? = some colon then
        if follows.tail.head? = some colon then
          -- an optional argument is the rest of the element
          if nextchar = [] then some ({ s with nextchar := none }, { ret := charInt c })
          else some ({ s with nextchar := none, optind := s.optind + 1 }, { ret := charInt c, optarg := some nextchar })
        else
          match requiredArgument s nextchar with
          | none => some ({ s with nextchar := none }, missingReply printErrors optstring s.program c)
          | some (s, optarg) => some ({ s with nextchar := none }, { ret := charInt c, optarg := some optarg })
      else some (s, { ret := charInt c })

/-- "Decode the current option-ARGV-element." -/
def decode (o : Options) (printErrors : Bool) (optstring : Text) (s : Scan) (nextchar : Text) :
    Option (Scan × Reply) :=
  match o.longopts with
  | none => shortOption o printErrors optstring s nextchar
  | some longopts =>
    (s.argv[s.optind]?).bind fun word =>
      if word[1]? = some dash then some (longOption printErrors optstring longopts s word nextchar)
      else shortOption o printErrors optstring s nextchar

/-- `print_errors` -/
def Options.printErrors (o : Options) : Bool := o.opterr && o.optstring.head? ≠ some colon

/-- `_getopt_internal` behind the initialization. -/
def scanOption (o : Options) (optstring : Text) (s : Scan) : Option (Scan × Reply) :=
  match s.nextchar with
  | some (c :: nextchar) => decode o o.printErrors optstring s (c :: nextchar)
  | _ =>
    match s.advance o.longopts.isSome with
    | none => none
    | some (.inl reply) => some reply
    | some (.inr s) => decode o o.printErrors optstring s (s.nextchar.getD [])

/-- `_getopt_internal`; only the first call skips a leading `-` or `+` of the string. -/
def getoptInternal (o : Options) (s : Scan) : Option (Scan × Reply) :=
  if s.argv.length < 1 then some (s, { ret := -1 })
  else if s.optind = 0 ∨ s.initialized = false then
    let r := ({ s with optind := if s.optind = 0 then 1 else s.optind } : Scan).getoptInitialize o.optstring
    scanOption o r.2 r.1
  else scanOption o o.optstring s

/-- `getopt_reset` -/
def Scan.reset (s : Scan) : Scan := { s with optind := 1, initialized := false }

/-- So many calls, one after the other: the replies. -/
def calls (o : Options) : Nat → Scan → Option (Scan × List Reply)
  | 0, s => some (s, [])
  | n + 1, s =>
    match getoptInternal o s with
    | none => none
    | some (s, reply) => (calls o n s).map fun r => (r.1, reply :: r.2)

end BofStd.Getopt
