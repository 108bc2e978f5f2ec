import BofStd.SplitUri
import BofStd.Lib.OrderedMap
import Mathlib.Data.List.Lex

/-!
# Uniform resource identifiers: `BofUri`

A `BofUri` is copied by printing and parsing it. The working directory, the network and the byte order of the CPU belong
to the environment. What `Val_i` of `S_UrlDecode` holds at first is an argument of each function that parses a query. The
query is a map in the order of `std::string`, whose characters are compared as bytes.
-/

namespace BofStd

instance linearOrderUInt8 : LinearOrder UInt8 where
  le_refl := UInt8.le_refl
  le_trans _ _ _ := UInt8.le_trans
  le_antisymm _ _ := UInt8.le_antisymm
  le_total := UInt8.le_total
  lt_iff_le_not_ge a b := by
    rw [UInt8.not_le]
    exact ⟨fun h => ⟨UInt8.le_of_lt h, h⟩, And.right⟩
  toDecidableLE := inferInstance

/-- A URI. -/
structure BofUri where
  schemeAuthority : SocketAddressComponent SocketAddress
  path : BofPath
  queryParamCollection : OrderedMap Text Text
  fragment : Text
  queryParamDelimiter : UInt8
  valid : Bool

namespace BofUri

/-- What the functions on URIs get from outside. -/
structure Environment where
  currentDirectory : Option Text
  net : IpAddress.Network
  cpu : CpuEndianness

/-! ## The query -/

/-- The token of an entry. -/
def printEntry (e : Text × Text) : Text := if e.2 ≠ [] then e.1 ++ '='.toUInt8 :: e.2 else e.1

/-- The key and the value of a token. -/
def parseEntry (token : Text) : Text × Text :=
  (token.takeWhile fun c => c ≠ '='.toUInt8, (token.dropWhile fun c => c ≠ '='.toUInt8).drop 1)

/-- The loop of `ExtractQueryParamIntoCollection`. -/
def collect : List Text → OrderedMap Text Text → OrderedMap Text Text × BofErr
  | [], collection => (collection, .noError)
  | token :: tokens, collection =>
    let (key, value) := parseEntry token
    if collection.find? key = none then collect tokens (collection.assign key value) else (collection, .ekeyrevoked)

/-- `ExtractQueryParamIntoCollection`. -/
def extractQueryParam (val : Nat) (queryParam : Text) : OrderedMap Text Text × BofErr :=
  collect (stringSplit (UrlCode.urlDecode val queryParam) ['&'.toUInt8, ';'.toUInt8]) .empty

/-! ## Printing and parsing -/

/-- The query as it is printed. -/
def queryString (u : BofUri) : Text :=
  stringJoin (u.queryParamCollection.entries.map printEntry) u.queryParamDelimiter

/-- `ToString`. -/
def toString (u : BofUri) : Text :=
  u.schemeAuthority.toString true true true true ++ u.path.toString ++
    (if u.queryParamCollection.entries ≠ [] then '?'.toUInt8 :: u.queryString else []) ++
    if u.fragment ≠ [] then '#'.toUInt8 :: u.fragment else []

/-- `mPath = BofPath(path)`: the new path is parsed, printed and parsed again. -/
def parsePath (currentDirectory : Option Text) (path : Text) : Option BofPath :=
  (BofPath.ofString currentDirectory path false).bind (BofPath.copy currentDirectory)

/-- The scheme and authority with their network address. -/
def withAddress (env : Environment) (c : SocketAddressComponent SocketAddress) : SocketAddressComponent SocketAddress :=
  { c with ip := (IpAddress.ipAddressToSocketAddress env.net env.cpu (c.toString true false false true) c.ip).1 }

/-- `InitUriField`: the URI and the error code. -/
def initUriField (env : Environment) (val : Nat) (u : BofUri) (uri : Text) : Option (BofUri × BofErr) :=
  match SplitUri.splitUri env.net env.cpu uri with
  | none => none
  | some (.error err) => some ({ u with valid := false }, err)
  | some (.ok (c, pathText, query, fragment)) =>
    (parsePath env.currentDirectory pathText).map fun path =>
      let u := { u with schemeAuthority := withAddress env c, path := path, fragment := fragment, valid := false }
      if path.valid then
        if query ≠ [] then
          let (collection, err) := extractQueryParam val query
          ({ u with queryParamCollection := collection, valid := err = .noError }, err)
        else ({ u with queryParamCollection := .empty, valid := true }, .noError)
      else (u, .enoent)

/-- The members before a constructor runs. -/
def members : BofUri :=
  ⟨IpAddress.resetComponent, BofPath.emptyPath BofPath.defaultForbiddenChar, .empty, [], '&'.toUInt8, false⟩

/-- The constructor for a `std::string`. -/
def ofString (env : Environment) (val : Nat) (uri : Text) : Option (BofUri) :=
  (initUriField env val members uri).map Prod.fst

/-- The copy constructor. -/
def copyConstructor (env : Environment) (val : Nat) (other : BofUri) : Option (BofUri) :=
  (initUriField env val members other.toString).map Prod.fst

/-- The copy assignment. -/
def copyAssignment (env : Environment) (val : Nat) (u other : BofUri) : Option (BofUri) :=
  (initUriField env val u other.toString).map Prod.fst

/-- `operator==`. -/
def OperatorEq (u other : BofUri) : Prop :=
  u.schemeAuthority.OperatorEq other.schemeAuthority ∧ u.path.OperatorEq other.path ∧
    u.queryParamCollection = other.queryParamCollection ∧ u.fragment = other.fragment ∧
    u.queryParamDelimiter = other.queryParamDelimiter ∧ u.valid = other.valid

/-! ## The setters -/

/-- The setters. -/
inductive Op where
  | setQueryParamDelimiter (queryParamDelimiter : UInt8)
  | setQueryParamCollection (collection : OrderedMap Text Text)
  | setQueryParamString (queryParam : Text)
  | addToQueryParamCollection (key value : Text)
  | removeFromQueryParamCollection (key : Text)
  | setFragment (fragment : Text)
  | setPath (path : BofPath)

/-- The end of a setter: the URI is printed and parsed. -/
def reparse (env : Environment) (val : Nat) (u : BofUri) : Option (BofUri × BofErr) :=
  (initUriField env val u u.toString).map fun r => (r.1, .noError)

/-- A call of a setter: the URI and the error code. The two values are those of `Val_i` in the first and in the second
query that is parsed. -/
def call (env : Environment) (val val' : Nat) (u : BofUri) : Op → Option (BofUri × BofErr)
  | .setQueryParamDelimiter delimiter =>
    if delimiter = '&'.toUInt8 ∨ delimiter = ';'.toUInt8 then
      some ({ u with queryParamDelimiter := delimiter }, .noError)
    else some (u, .einval)
  | .setQueryParamCollection collection => reparse env val' { u with queryParamCollection := collection }
  | .setQueryParamString queryParam =>
    match extractQueryParam val queryParam with
    | (collection, .noError) => reparse env val' { u with queryParamCollection := collection }
    | (_, err) => some (u, err)
  | .addToQueryParamCollection key value =>
    if u.queryParamCollection.find? key = none then
      reparse env val' { u with queryParamCollection := u.queryParamCollection.assign key value }
    else some (u, .duplicate)
  | .removeFromQueryParamCollection key =>
    if u.queryParamCollection.find? key ≠ none then
      reparse env val' { u with queryParamCollection := u.queryParamCollection.erase key }
    else some (u, .dontExist)
  | .setFragment fragment => reparse env val' { u with fragment := fragment }
  | .setPath path =>
    (path.copy env.currentDirectory).bind fun path =>
      if path.valid then
        (path.copy env.currentDirectory).bind fun path => reparse env val' { u with path := path }
      else some (u, .einval)

end BofUri

end BofStd
