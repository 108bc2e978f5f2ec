import BofStd.BofHttpRequest
import BofStd.BofPathSpec
import BofStd.Lib.Run

/-!
# The components of a request

`Components` are what a caller has given last, and `Kept` says that a request has them and can be copied. Every
constructor and every setter parses the text of the request, so that a request keeps its components as long as this text
says all of them: the path must be `Printable`, and the query must fit into an `int`.
-/

namespace BofStd.BofHttpRequest

/-- The components that a caller gives. -/
structure Components where
  method : Text
  methodType : HttpRequestType
  path : BofPath
  queryParamCollection : OrderedMap Text Text
  fragment : Text

/-- The two constructors from components. -/
inductive Start where
  | named (method : Text) (path : BofPath) (collection : OrderedMap Text Text) (fragment : Text)
  | typed (methodType : HttpRequestType) (path : BofPath) (collection : OrderedMap Text Text) (fragment : Text)

namespace Start

/-- The request that is constructed. -/
def construct (currentDirectory : Option Text) (val : Nat) : Start → Option BofHttpRequest
  | named method path collection fragment => ofComponents currentDirectory val method path collection fragment
  | typed t path collection fragment => ofComponentsType currentDirectory val t path collection fragment

end Start

namespace Components

/-- The components after a setter. -/
def set (c : Components) : Op → Components
  | .setMethod method => { c with method := method, methodType := .ofText method }
  | .setMethodType t => { c with method := t.toText, methodType := t }
  | .setPath path => { c with path := path }
  | .setQueryParamCollection collection => { c with queryParamCollection := collection }
  | .addToQueryParamCollection key value =>
    { c with
      queryParamCollection :=
        if c.queryParamCollection.find? key = none then c.queryParamCollection.assign key value
        else c.queryParamCollection }
  | .removeFromQueryParamCollection key => { c with queryParamCollection := c.queryParamCollection.erase key }
  | .setFragment fragment => { c with fragment := fragment }

/-- A setter that is called with `Val_i`, as the step of a machine. -/
def step (c : Components) (i : Nat × Op) : Components × Unit := (c.set i.2, ())

end Components

/-- A setter that is called with `Val_i`, as the step of a machine. There is no request if a function does not
return. -/
def step (currentDirectory : Option Text) (r : Option BofHttpRequest) (i : Nat × Op) :
    Option BofHttpRequest × Option BofErr :=
  let r := r.bind fun r => r.call currentDirectory i.1 i.2
  (r.map Prod.fst, r.map Prod.snd)

/-! ## What may be given -/

/-- The name of a method in the table, in capital letters. -/
def IsMethod (s : Text) : Prop := (∀ c ∈ s, isUpper c = true) ∧ ∃ t, (t, s) ∈ HttpRequestType.table

/-- A type in the table, with such a name. -/
def IsMethodType (t : HttpRequestType) : Prop := IsMethod t.toText ∧ ∃ s, (t, s) ∈ HttpRequestType.table

/-- A valid absolute path that can stand in a request. -/
structure IsPath (m : BofPath) : Prop where
  valid : m.valid = true
  /-- A valid path has none of the characters that it forbids, but for those of the disk. -/
  allowed : ∀ c ∈ m.directoryName ++ m.fileNameWithExtension, c ∉ m.forbiddenCharacter
  root : m.directoryName.head? = some '/'.toUInt8
  question : '?'.toUInt8 ∉ m.toString
  hash : '#'.toUInt8 ∉ m.toString
  dot : m.fileNameWithExtension.getLast? ≠ some '.'.toUInt8

/-- An entry with a key. -/
def IsEntry (e : Text × Text) : Prop := e.1 ≠ [] ∧ ∀ c ∈ e.1 ++ e.2, UrlCode.isUnreserved c = true

def IsQueryParamCollection (q : OrderedMap Text Text) : Prop := ∀ e ∈ q.entries, IsEntry e

/-- A text without line breaks. -/
def IsFragment (s : Text) : Prop := ∀ c ∈ s, isLineTerminator c = false

/-- The arguments of a constructor. -/
def Start.Given : Start → Prop
  | .named method path collection fragment =>
    IsMethod method ∧ IsPath path ∧ IsQueryParamCollection collection ∧ IsFragment fragment
  | .typed t path collection fragment =>
    IsMethodType t ∧ IsPath path ∧ IsQueryParamCollection collection ∧ IsFragment fragment

/-- The arguments of a setter. -/
def Op.Given : Op → Prop
  | .setMethod method => IsMethod method
  | .setMethodType t => IsMethodType t
  | .setPath path => IsPath path
  | .setQueryParamCollection collection => IsQueryParamCollection collection
  | .addToQueryParamCollection key value => IsEntry (key, value)
  | .removeFromQueryParamCollection _ => True
  | .setFragment fragment => IsFragment fragment

/-! ## What is kept -/

/-- The getters return the components, and the copies of the request are equal to it. -/
structure Kept (currentDirectory : Option Text) (c : Components) (r : BofHttpRequest) : Prop where
  valid : r.valid = true
  method : r.method = c.method
  methodType : r.methodType = some c.methodType
  path : r.path.OperatorEq c.path
  pathText : r.path.toString = c.path.toString
  query : r.queryParamCollection = c.queryParamCollection
  fragment : r.fragment = c.fragment
  copied : ∀ val, ∃ r', r.copyConstructor currentDirectory val = some r' ∧ r'.OperatorEq r
  parsed : ∀ val, ∃ r', ofString currentDirectory val r.toString = some r' ∧ r'.OperatorEq r

/-- There is a request, and it keeps the components. -/
def Keeps (currentDirectory : Option Text) (r : Option BofHttpRequest) (c : Components) : Prop :=
  ∃ r', r = some r' ∧ Kept currentDirectory c r'

/-- A path that is read back from its text. -/
structure Printable (m : BofPath) : Prop where
  disk : m.diskName = []
  text : m.toString = m.directoryName ++ m.fileNameWithExtension
  directory : m.directoryName.getLast? = some '/'.toUInt8
  fileName : '/'.toUInt8 ∉ m.fileNameWithExtension
  /-- The path is reduced, and it has none of the characters that are forbidden if none are given. -/
  normal : BofPath.Normal m.toString
  /-- The expression for the path asks for a character behind the slash. -/
  notRoot : m.toString ≠ ['/'.toUInt8]
  /-- A blank at the end is dropped. -/
  blank : ∀ c, m.fileNameWithExtension.getLast? = some c → c ∉ defaultTrimCharList

/-- The printed query is short enough for the `int` of `S_UrlDecode`. -/
def Fits (q : OrderedMap Text Text) : Prop :=
  (stringJoin (q.entries.map BofUri.printEntry) '&'.toUInt8).length < 2147483648

end BofStd.BofHttpRequest
