import BofStd.BofPathSpec
import BofStd.BofUri

/-!
# Copies of a URI

A copy is equal to the URI exactly if the URI is `Printable`: its text must say all that the members say, and it must be
a text that `Bof_SplitUri` accepts.
-/

namespace BofStd.BofUri

/-- The URIs that are constructed from a text and changed by the setters. -/
inductive Reachable (env : Environment) : BofUri → Prop
  | construct {val : Nat} {uri : Text} {u : BofUri} (h : ofString env val uri = some u) : Reachable env u
  | call {val val' : Nat} {op : Op} {u u' : BofUri} {err : BofErr} (hu : Reachable env u)
    (h : u.call env val val' op = some (u', err)) : Reachable env u'

/-- The copy of `u`, and `w` after `u` is assigned to it, are equal to `u`, whatever `Val_i` holds. -/
def Preserved (env : Environment) (u w : BofUri) : Prop :=
  ∀ val, (∃ u', u.copyConstructor env val = some u' ∧ u'.OperatorEq u) ∧
    ∃ u', w.copyAssignment env val u = some u' ∧ u'.OperatorEq u

/-- The text of the URI says all that its members say. -/
structure Printable (u : BofUri) : Prop where
  /-- The password is printed behind a user only. -/
  password : u.schemeAuthority.user = [] → u.schemeAuthority.password = []
  /-- The delimiter is not part of the text. -/
  delimiter : u.queryParamDelimiter = '&'.toUInt8
  /-- A dot or a blank at the end of the file name is dropped. -/
  fileName : BofPath.Stable u.path.fileNameWithExtension
  /-- The working directory can bring any character into the path. -/
  path : Escapes.Escaped SplitUri.isPathChar '%'.toUInt8 SplitUri.isHexDigit u.path.toString
  /-- The query is stored decoded and printed without escapes. -/
  query : ∀ e ∈ u.queryParamCollection.entries, ∀ c ∈ e.1 ++ e.2, SplitUri.isQueryChar c = true ∧ c ≠ '+'.toUInt8
  /-- The entry with empty key and value is printed as nothing. -/
  entries : u.queryParamCollection.entries ≠ [([], [])]

end BofStd.BofUri
