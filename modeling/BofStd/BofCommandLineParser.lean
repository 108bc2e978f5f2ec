import BofStd.BofGetopt
import BofStd.Parameter

/-!
# `BofCommandLineParser::ToByte`

The options become the tables of `getopt_long`, which is called until it has read the command line. What `S_Parse`
answers is ignored, so a result is the calls of `S_Parse` and of the error callback in order. `none` is an access
outside of an array.
-/

namespace BofStd

open BofParameter Getopt Retry StdString

/-- The fields of a `BOFPARAMETER` that `ToByte` reads. -/
structure CommandLineOption where
  Name_S : Text
  ArgFlag_E : UInt32

namespace BofCommandLineParser

abbrev CMDLINE_LONGOPT_NEED_ARG : UInt32 := 0x00000001

/-- The sizes of `pGetOptShort_c`, `pGetOptLong_X` (also in bytes) and `pError_c`. -/
def shortSize : Nat := 256
def longSize : Nat := 512
def longBytes : Nat := longSize * 32
def errorSize : Nat := 256

/-- What `ToByte` does for an option of the command line. -/
inductive Event where
  /-- `S_Parse` of an option and its value. -/
  | parse (index : Nat) (optVal : Option Text)
  | error (text : Text)
  deriving DecidableEq

/-- `pGetOptShort_c` and `pGetOptLong_X`, or an error. The bound of the second one is its size in bytes. -/
def getOptTables : List CommandLineOption → Text → List LongOption → Option (Except BofErr (Text × List LongOption))
  | [], short, long => if long.length < longSize then some (.ok (short, long)) else none
  | p :: options, short, long =>
    if p.Name_S.length = 1 then
      if short.length < shortSize - 3 ∧ p.Name_S ≠ ['?'.toUInt8] then
        let short := short ++ p.Name_S
        let short := if isAnyBitFlagSet p.ArgFlag_E CMDLINE_LONGOPT_NEED_ARG then short ++ [colon] else short
        getOptTables options short long
      else some (.error .parser)
    else if long.length < longBytes - 2 then
      if long.length < longSize then
        getOptTables options short
          (long ++ [{ name := cStr p.Name_S, hasArg := p.ArgFlag_E.toInt32.toInt, flag := none, val := 0 }])
      else none
    else some (.error .parser)

/-- The option with a short name. -/
def findShort (options : List CommandLineOption) (c : UInt8) : Option Nat :=
  options.findIdx? fun p => p.Name_S = [c]

/-- The option with a long name. -/
def findLongName (options : List CommandLineOption) (name : Text) : Option Nat :=
  options.findIdx? fun p => p.Name_S.length ≠ 1 ∧ cStr p.Name_S = name

/-- `-w1`, `-w 1` and `-w=1` are the same. -/
def skipSeparator (optVal : Text) : Text :=
  match optVal with
  | c :: rest => if c = ' '.toUInt8 ∨ c = equals then rest else optVal
  | [] => []

/-- The variables of the loop. -/
structure Loop where
  scan : Scan
  optopt : Int
  err : BofErr
  events : List Event

/-- The option that a reply is about, and `optopt` after it has been looked for. -/
def optionOf (options : List CommandLineOption) (longopts : List LongOption) (r : Reply) (optopt : Int) :
    Option (Option Nat × Option Text × Int) :=
  match r.longind with
  | none =>
    -- the reply as a `char`
    match findShort options (UInt8.ofInt r.ret) with
    | some i => some (some i, r.optarg.map skipSeparator, optopt)
    | none => some (none, r.optarg, 0)
  | some index => (longopts[index]?).map fun p => (findLongName options p.name, r.optarg, optopt)

/-- One turn of the loop. -/
def round (options : List CommandLineOption) (o : Options) (longopts : List LongOption) (l : Loop) :
    Round Loop (Option (BofErr × List Event)) :=
  match getoptInternal o l.scan with
  | none => .stop none
  | some (scan, r) =>
    let optopt := r.optopt.getD l.optopt
    if r.ret = -1 then .stop (some (l.err, l.events))
    else
      match optionOf options longopts r optopt with
      | none => .stop none
      | some (some i, optVal, optopt) =>
        let l : Loop := ⟨scan, optopt, l.err, l.events ++ [.parse i optVal]⟩
        if r.ret ≥ 0 then .again l else .stop (some (l.err, l.events))
      | some (none, _, optopt) =>
        match scan.argv[if optopt = 0 then scan.optind - 1 else scan.optind]? with
        | none => .stop none
        | some opt =>
          let l : Loop :=
            ⟨scan, optopt, .parser, l.events ++ [.error (if r.ret = question then opt.take (errorSize - 1) else [])]⟩
          if r.ret ≥ 0 then .again l else .stop (some (l.err, l.events))

/-- `ToByte` of a command line; `scan` are the variables of `getopt_long` as they have been left. -/
def toByte (fuel : Nat) (argv : List Text) (options : List CommandLineOption) (scan : Scan) (optopt : Int) :
    Option (BofErr × List Event) :=
  if argv.length = 0 then some (.parser, [])
  else if argv.length = 1 then some (.noError, [])
  else
    match getOptTables options [] [] with
    | none => none
    | some (.error err) => some (err, [])
    | some (.ok (short, long)) =>
      (loop (round options ⟨short, some long, true⟩ long) fuel
        ⟨({ scan with argv := argv } : Scan).reset, optopt, .noError, []⟩).join

end BofCommandLineParser

end BofStd
