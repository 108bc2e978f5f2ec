import BofStd.BofUri
import BofStd.Lib.Regex

/-!
# Requests of the hypertext transfer protocol: `BofHttpRequest`, `Bof_SplitHttpRequest`

Like a `BofUri` a request is printed and parsed by its constructors from components and by its setters. `std::regex` is
the first match of `Regex`. The working directory and what `Val_i` of `S_UrlDecode` holds at first are arguments. The
default constructor does not initialize `mMethod_E`, which is `none` then.
-/

namespace BofStd

/-- A text of ASCII characters. -/
def ascii (s : List Char) : Text := s.map Char.toUInt8

/-- `BOF_HTTP_REQUEST_TYPE`. -/
inductive HttpRequestType where
  | unknown
  | get
  | post
  | put
  | path
  | delete
  | head
  | options
  | connect
  | trace
  | dbgEcho
  | max
  deriving DecidableEq

namespace HttpRequestType

/-- The table of `S_BofHttpRequestTypeEnumConverter`. -/
def table : List (HttpRequestType × Text) :=
  [(unknown, ascii ['U', 'N', 'K', 'N', 'O', 'W', 'N']), (get, ascii ['G', 'E', 'T']),
    (post, ascii ['P', 'O', 'S', 'T']), (put, ascii ['P', 'U', 'T']), (path, ascii ['P', 'A', 'T', 'H']),
    (delete, ascii ['D', 'E', 'L', 'E', 'T', 'E']), (head, ascii ['H', 'E', 'A', 'D']),
    (options, ascii ['O', 'P', 'T', 'I', 'O', 'N', 'S']), (connect, ascii ['C', 'O', 'N', 'N', 'E', 'C', 'T']),
    (trace, ascii ['T', 'R', 'A', 'C', 'E']), (dbgEcho, ascii ['D', 'B', 'G', '_', 'E', 'C', 'H', 'O'])]

/-- `ToString` of the converter, with the name of the fallback value for a type that is not in the table. -/
def toText (t : HttpRequestType) : Text :=
  ((table.find? fun e => e.1 = t).map Prod.snd).getD (ascii ['U', 'N', 'K', 'N', 'O', 'W', 'N'])

/-- `ToEnum` of the converter. -/
def ofText (s : Text) : HttpRequestType := ((table.find? fun e => e.2 = s).map Prod.fst).getD unknown

end HttpRequestType

/-- A request. -/
structure BofHttpRequest where
  method : Text
  methodType : Option HttpRequestType
  path : BofPath
  queryParamCollection : OrderedMap Text Text
  fragment : Text
  queryParamDelimiter : UInt8
  valid : Bool

namespace BofHttpRequest

/-! ## `Bof_SplitHttpRequest` -/

/-- `[A-Z]`. -/
def isUpper (c : UInt8) : Bool := 'A'.toUInt8 ≤ c && c ≤ 'Z'.toUInt8

/-- The characters that `.` does not match. -/
def isLineTerminator (c : UInt8) : Bool := c = 10 || c = 13

/-- `S_RegExHttpRequest`: `([A-Z]*)\s+(/[^?#]+)?(\?[^#]*)?(#.*)?`. -/
def regExHttpRequest : Regex UInt8 :=
  let path := (Regex.item fun c => c = '/'.toUInt8).seq (.many 1 fun c => c ≠ '?'.toUInt8 && c ≠ '#'.toUInt8)
  let query := (Regex.item fun c => c = '?'.toUInt8).seq (.many 0 fun c => c ≠ '#'.toUInt8)
  let fragment := (Regex.item fun c => c = '#'.toUInt8).seq (.many 0 fun c => !isLineTerminator c)
  (Regex.many 0 isUpper).group.seq
    ((Regex.many 1 UrlCode.isSpace).seq (path.group.opt.seq (query.group.opt.seq fragment.group.opt)))

/-- `Bof_SplitHttpRequest`: the method, the path, the query and the fragment. -/
def splitHttpRequest (uri : Text) : Except BofErr (Text × Text × Text × Text) :=
  match (regExHttpRequest.search uri).map Regex.Match.groups with
  -- the marks of the query and of the fragment are removed
  | some [method, path, query, fragment] => .ok (method, path, query.drop 1, fragment.drop 1)
  | _ => .error .format

/-! ## Printing and parsing -/

/-- `ExtractQueryParamIntoCollection`. -/
def extractQueryParam (val : Nat) (queryParam : Text) : OrderedMap Text Text × BofErr :=
  BofUri.extractQueryParam val queryParam

/-- The query as it is printed. -/
def queryString (r : BofHttpRequest) : Text :=
  stringJoin (r.queryParamCollection.entries.map BofUri.printEntry) r.queryParamDelimiter

/-- `ToString`. -/
def toString (r : BofHttpRequest) : Text :=
  r.method ++ ' '.toUInt8 :: (r.path.toString ++
    ((if r.queryParamCollection.entries ≠ [] then '?'.toUInt8 :: r.queryString else []) ++
      if r.fragment ≠ [] then '#'.toUInt8 :: r.fragment else []))

/-- `InitHttpRequestField`: the request and the error code. -/
def initHttpRequestField (currentDirectory : Option Text) (val : Nat) (r : BofHttpRequest) (httpRequest : Text) :
    Option (BofHttpRequest × BofErr) :=
  match splitHttpRequest httpRequest with
  | .error err => some ({ r with valid := false }, err)
  | .ok (method, pathText, query, fragment) =>
    (BofUri.parsePath currentDirectory pathText).map fun path =>
      let r := { r with
        method := method
        methodType := some (HttpRequestType.ofText method)
        path := path
        fragment := fragment
        valid := false }
      if path.valid then
        if query ≠ [] then
          let (collection, err) := extractQueryParam val query
          ({ r with queryParamCollection := collection, valid := err = .noError }, err)
        else ({ r with queryParamCollection := .empty, valid := true }, .noError)
      else (r, .enoent)

/-- The members before a constructor runs. -/
def members : BofHttpRequest :=
  ⟨[], none, BofPath.emptyPath BofPath.defaultForbiddenChar, .empty, [], '&'.toUInt8, false⟩

/-- The constructor for a `std::string`. -/
def ofString (currentDirectory : Option Text) (val : Nat) (httpRequest : Text) : Option BofHttpRequest :=
  (initHttpRequestField currentDirectory val members httpRequest).map Prod.fst

/-- The constructor from the components and the name of the method. -/
def ofComponents (currentDirectory : Option Text) (val : Nat) (method : Text) (path : BofPath)
    (collection : OrderedMap Text Text) (fragment : Text) : Option BofHttpRequest := do
  let path ← path.copy currentDirectory
  let r := { members with
    method := method
    methodType := some (HttpRequestType.ofText method)
    path := path
    queryParamCollection := collection
    fragment := fragment }
  let r ← initHttpRequestField currentDirectory val r r.toString
  return r.1

/-- The constructor from the components and the type of the method: the request that it makes is a temporary one. -/
def ofComponentsType (currentDirectory : Option Text) (val : Nat) (methodType : HttpRequestType) (path : BofPath)
    (collection : OrderedMap Text Text) (fragment : Text) : Option BofHttpRequest :=
  (ofComponents currentDirectory val methodType.toText path collection fragment).map fun _ => members

/-- The copy constructor. -/
def copyConstructor (currentDirectory : Option Text) (val : Nat) (other : BofHttpRequest) : Option BofHttpRequest :=
  (initHttpRequestField currentDirectory val members other.toString).map Prod.fst

/-- `operator==`. -/
def OperatorEq (r other : BofHttpRequest) : Prop :=
  r.method = other.method ∧ r.methodType = other.methodType ∧ r.path.OperatorEq other.path ∧
    r.queryParamCollection = other.queryParamCollection ∧ r.fragment = other.fragment ∧
    r.queryParamDelimiter = other.queryParamDelimiter ∧ r.valid = other.valid

/-! ## The setters -/

/-- The setters, but for those of the delimiter and of the query as a text. -/
inductive Op where
  | setMethod (method : Text)
  | setMethodType (methodType : HttpRequestType)
  | setPath (path : BofPath)
  | setQueryParamCollection (collection : OrderedMap Text Text)
  | addToQueryParamCollection (key value : Text)
  | removeFromQueryParamCollection (key : Text)
  | setFragment (fragment : Text)

/-- The end of a setter: the request is printed and parsed. -/
def reparse (currentDirectory : Option Text) (val : Nat) (r : BofHttpRequest) : Option (BofHttpRequest × BofErr) :=
  (initHttpRequestField currentDirectory val r r.toString).map fun r => (r.1, .noError)

/-- `SetMethod` for a name. -/
def setMethod (currentDirectory : Option Text) (val : Nat) (r : BofHttpRequest) (method : Text) :
    Option (BofHttpRequest × BofErr) :=
  reparse currentDirectory val { r with method := method, methodType := some (HttpRequestType.ofText method) }

/-- `SetPath`: the path is copied, and the copy is copied if it is valid. -/
def setPath (currentDirectory : Option Text) (val : Nat) (r : BofHttpRequest) (path : BofPath) :
    Option (BofHttpRequest × BofErr) := do
  let path ← path.copy currentDirectory
  if path.valid then
    let path ← path.copy currentDirectory
    reparse currentDirectory val { r with path := path }
  else return (r, .einval)

/-- A call of a setter: the request and the error code. -/
def call (currentDirectory : Option Text) (val : Nat) (r : BofHttpRequest) : Op → Option (BofHttpRequest × BofErr)
  | .setMethod method => setMethod currentDirectory val r method
  | .setMethodType methodType => setMethod currentDirectory val r methodType.toText
  | .setPath path => setPath currentDirectory val r path
  | .setQueryParamCollection collection => reparse currentDirectory val { r with queryParamCollection := collection }
  | .addToQueryParamCollection key value =>
    if r.queryParamCollection.find? key = none then
      reparse currentDirectory val { r with queryParamCollection := r.queryParamCollection.assign key value }
    else some (r, .duplicate)
  | .removeFromQueryParamCollection key =>
    if r.queryParamCollection.find? key ≠ none then
      reparse currentDirectory val { r with queryParamCollection := r.queryParamCollection.erase key }
    else some (r, .dontExist)
  | .setFragment fragment => reparse currentDirectory val { r with fragment := fragment }

end BofHttpRequest

end BofStd
