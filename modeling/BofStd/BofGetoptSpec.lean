import Mathlib
import BofStd.BofGetopt

/-!
# What a command line says

The words of a command line read once from the left to the right, without indices, pointers and permutations: `next` is
the next option of what is left of it, and `parse` all of them. `lookup` says what a long name means.
-/

namespace BofStd.Getopt

/-- What is left of a command line: the rest of an element whose options are being read, and the elements behind it. -/
structure Input where
  cluster : Text
  words : List Text

/-- What a long name stands for. -/
inductive Lookup where
  | found (index : Nat) (p : LongOption)
  | ambiguous
  | unknown

/-- The options that a name abbreviates. -/
def abbreviated (key : Text) (longopts : List LongOption) : List (LongOption × Nat) :=
  longopts.zipIdx.filter fun e => key.isPrefixOf e.1.name

/-- A name is that of an option, or it abbreviates options that are all alike. -/
def lookup (key : Text) (longopts : List LongOption) : Lookup :=
  match longopts.zipIdx.find? fun e => e.1.name = key with
  | some (p, index) => .found index p
  | none =>
    match abbreviated key longopts with
    | [] => .unknown
    | (p, index) :: others => if others.all fun e => p.alike e.1 then .found index p else .ambiguous

/-- What a string of options says about a character. -/
inductive ArgKind where
  | illegal
  | none
  | required
  | optional
  deriving DecidableEq

/-- A character is an option if the string has it; the colons behind its first occurrence are its argument. -/
def argKind (optstring : Text) (c : UInt8) : ArgKind :=
  if c = colon then .illegal
  else
    match optstring.dropWhile (· ≠ c) with
    | [] => .illegal
    | _ :: follows =>
      if follows.head? = some colon then if follows.tail.head? = some colon then .optional else .required else .none

/-- The program's name and the options, with the string for the call at hand. -/
structure Reader extends Options where
  program : Text
  current : Text

namespace Reader

variable (g : Reader)

/-- The options of a short element: the first of them, `cluster` behind it and the elements behind that. -/
def short (c : UInt8) (cluster : Text) (words : List Text) : Reply × Input :=
  match argKind g.current c with
  | .illegal => (illegalReply g.printErrors g.program c, ⟨cluster, words⟩)
  | .none => ({ ret := charInt c }, ⟨cluster, words⟩)
  | .optional => ({ ret := charInt c, optarg := if cluster = [] then .none else some cluster }, ⟨[], words⟩)
  | .required =>
    match cluster, words with
    | _ :: _, _ => ({ ret := charInt c, optarg := some cluster }, ⟨[], words⟩)
    | [], optarg :: words => ({ ret := charInt c, optarg := some optarg }, ⟨[], words⟩)
    | [], [] => (missingReply g.printErrors g.current g.program c, ⟨[], []⟩)

/-- The long element `--text`, and the elements behind it. -/
def long (longopts : List LongOption) (word text : Text) (words : List Text) : Reply × Input :=
  match lookup (text.takeWhile (· ≠ equals)) longopts with
  | .ambiguous => (ambiguousReply g.printErrors g.program word, ⟨[], words⟩)
  | .unknown => (unrecognizedReply g.printErrors g.program text, ⟨[], words⟩)
  | .found index p =>
    match text.dropWhile (· ≠ equals) with
    | _ :: optarg =>
      (if p.hasArg ≠ 0 then foundReply index p (some optarg) else notAllowedReply g.printErrors g.program p,
        ⟨[], words⟩)
    | [] =>
      if p.hasArg = 1 then
        match words with
        | optarg :: words => (foundReply index p (some optarg), ⟨[], words⟩)
        | [] => (requiresReply g.printErrors g.current g.program word p, ⟨[], []⟩)
      else (foundReply index p none, ⟨[], words⟩)

/-- The non-options are returned too if the string begins with a `-`. -/
def inOrder : Bool := g.optstring.head? = some dash

/-- The next option, or the elements that are left where the options end. -/
def next (x : Input) : Except (List Text) (Reply × Input) :=
  match x.cluster, x.words with
  | c :: cluster, words => .ok (g.short c cluster words)
  | [], [] => .error []
  | [], word :: words =>
    match word with
    | d :: c :: cluster =>
      if word = [dash, dash] then .error words
      else if d ≠ dash then
        if g.inOrder then .ok ({ ret := 1, optarg := some word }, ⟨[], words⟩) else .error (word :: words)
      else
        match g.longopts with
        | some longopts =>
          if c = dash then .ok (g.long longopts word cluster words) else .ok (g.short c cluster words)
        | none => .ok (g.short c cluster words)
    | _ => if g.inOrder then .ok ({ ret := 1, optarg := some word }, ⟨[], words⟩) else .error (word :: words)

end Reader

/-- How much of a command line is left. -/
def Input.size (x : Input) : Nat := x.cluster.length + (x.words.map fun w => w.length + 1).sum

theorem Reader.short_size (g : Reader) (c : UInt8) (cluster : Text) (words : List Text) :
    (g.short c cluster words).2.size ≤ Input.size ⟨cluster, words⟩ := by
  unfold Reader.short
  split
  · exact le_rfl
  · exact le_rfl
  · simp [Input.size]
  · split <;> simp [Input.size]

theorem Reader.long_size (g : Reader) (longopts : List LongOption) (word text : Text) (words : List Text) :
    (g.long longopts word text words).2.size ≤ Input.size ⟨[], words⟩ := by
  unfold Reader.long
  split
  · exact le_rfl
  · exact le_rfl
  · split
    · exact le_rfl
    · split
      · split <;> simp [Input.size]
      · exact le_rfl

/-- Every option takes something off the command line. -/
theorem Reader.next_size {g : Reader} {x : Input} {r : Reply × Input} (h : g.next x = .ok r) : r.2.size < x.size := by
  obtain ⟨cluster, words⟩ := x
  cases cluster with
  | cons c cluster =>
    simp only [Reader.next, Except.ok.injEq] at h
    subst h
    refine (g.short_size ..).trans_lt ?_
    simp [Input.size]
  | nil =>
    cases words with
    | nil => simp [Reader.next] at h
    | cons word words =>
      have hword : Input.size ⟨[], words⟩ < Input.size ⟨[], word :: words⟩ := by simp [Input.size]
      match word with
      | [] | [_] =>
        simp only [Reader.next] at h
        split at h <;> cases h
        exact hword
      | d :: c :: cluster =>
        have hcluster : Input.size ⟨cluster, words⟩ < Input.size ⟨[], (d :: c :: cluster) :: words⟩ := by
          simp [Input.size]
          omega
        simp only [Reader.next] at h
        split at h
        · simp at h
        · split at h
          · split at h <;> cases h
            exact hword
          · split at h
            · split at h <;> cases h
              · exact (g.long_size ..).trans_lt hword
              · exact (g.short_size ..).trans_lt hcluster
            · cases h
              exact (g.short_size ..).trans_lt hcluster

/-- All the options of a command line, each with what it leaves, and the elements that are left where they end. Only the
first option is read with the string as it is when a leading `-` or `+` has been skipped. -/
def Reader.parse (g : Reader) (x : Input) : List (Reply × Input) × List Text :=
  match _h : g.next x with
  | .error rest => ([], rest)
  | .ok r => ((r :: (Reader.parse { g with current := g.optstring } r.2).1),
      (Reader.parse { g with current := g.optstring } r.2).2)
termination_by x.size
decreasing_by all_goals exact Reader.next_size _h

/-- The command line of a program. -/
def Options.reader (o : Options) (program : Text) : Reader :=
  { o with
    program := program
    current :=
      if o.optstring.head? = some dash ∨ o.optstring.head? = some plus then o.optstring.tail else o.optstring }

/-- The string does not ask for `-W foo`. -/
def NoW (optstring : Text) : Prop := ¬['W'.toUInt8, semicolon] <:+: optstring

instance noWDecidable (optstring : Text) : Decidable (NoW optstring) :=
  inferInstanceAs (Decidable (¬['W'.toUInt8, semicolon] <:+: optstring))

/-- The calls of `getopt_long` from `s` on give the options `p.1` and then their end, they leave `argv` as it is, and
the index at the end is that of the elements `p.2`. -/
def Reads (o : Options) (argv : List Text) (s : Scan) (p : List (Reply × Input) × List Text) : Prop :=
  ∃ s', calls o (p.1.length + 1) s = some (s', p.1.map Prod.fst ++ [{ ret := -1 }]) ∧ s'.argv = argv ∧
    s'.optind ≤ argv.length ∧ argv.drop s'.optind = p.2

end BofStd.Getopt
