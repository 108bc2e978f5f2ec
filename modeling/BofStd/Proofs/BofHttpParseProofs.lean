import BofStd.Proofs.BofHttpPathProofs

/-!
# Requests that are parsed again

A request whose members are the components (`Holds`) is printed, and its text is cut into the components if the path is
printable (`splitHttpRequest_toString`). Then the request that is parsed keeps them exactly if the query fits
(`init_iff`). A request that keeps a path is one of a printable path, even if the path got shorter before it was printed
(`printable_of_kept`).
-/

namespace BofStd.BofHttpRequest

open BofPath (Normal)
open BofUri (Marked IsQuery parsePath printEntry isSeparator)

variable {r r' v : BofHttpRequest} {c : Components} {op : Op} {cwd : Option Text} {w m p q f t : Text} {val : Nat}
  {err : BofErr} {collection : OrderedMap Text Text}

/-! ## Components -/

/-- What is known of the components. -/
structure Components.Given (c : Components) : Prop where
  method : IsMethod c.method
  methodType : c.methodType = .ofText c.method
  path : IsPath c.path
  query : IsQueryParamCollection c.queryParamCollection
  fragment : IsFragment c.fragment

theorem ofText_toText {t : HttpRequestType} (h : ∃ s, (t, s) ∈ HttpRequestType.table) :
    HttpRequestType.ofText t.toText = t := by
  obtain ⟨s, hs⟩ := h
  cases t with
  | max => simp [HttpRequestType.table] at hs
  | _ => rfl

theorem Components.Given.set (hc : c.Given) (hop : op.Given) : (c.set op).Given := by
  cases op with
  | setMethod method => exact ⟨hop, rfl, hc.path, hc.query, hc.fragment⟩
  | setMethodType t => exact ⟨hop.1, (ofText_toText hop.2).symm, hc.path, hc.query, hc.fragment⟩
  | setPath path => exact ⟨hc.method, hc.methodType, hop, hc.query, hc.fragment⟩
  | setQueryParamCollection collection => exact ⟨hc.method, hc.methodType, hc.path, hop, hc.fragment⟩
  | addToQueryParamCollection key value =>
    refine ⟨hc.method, hc.methodType, hc.path, ?_, hc.fragment⟩
    intro e he
    rw [Components.set] at he
    dsimp only at he
    split at he
    · rcases OrderedMap.mem_assign.mp he with rfl | ⟨he, -⟩
      · exact hop
      · exact hc.query e he
    · exact hc.query e he
  | removeFromQueryParamCollection key =>
    refine ⟨hc.method, hc.methodType, hc.path, ?_, hc.fragment⟩
    intro e he
    exact hc.query e (OrderedMap.mem_erase.mp he).1
  | setFragment fragment => exact ⟨hc.method, hc.methodType, hc.path, hc.query, hop⟩

/-- The members of a request are the components. -/
structure Holds (r : BofHttpRequest) (c : Components) : Prop where
  method : r.method = c.method
  path : r.path.OperatorEq c.path
  pathText : r.path.toString = c.path.toString
  query : r.queryParamCollection = c.queryParamCollection
  fragment : r.fragment = c.fragment
  delimiter : r.queryParamDelimiter = '&'.toUInt8

/-! ## Queries -/

theorem initHttpRequestField_delimiter {s : Text} (h : initHttpRequestField cwd val v s = some (r, err)) :
    r.queryParamDelimiter = v.queryParamDelimiter := by
  unfold initHttpRequestField at h
  split at h
  · obtain ⟨rfl, -⟩ := Prod.mk.inj (Option.some.inj h)
    rfl
  obtain ⟨path, -, h⟩ := Option.map_eq_some_iff.mp h
  dsimp only at h
  split at h
  · split at h
    · obtain ⟨rfl, -⟩ := Prod.mk.inj h
      rfl
    · obtain ⟨rfl, -⟩ := Prod.mk.inj h
      rfl
  · obtain ⟨rfl, -⟩ := Prod.mk.inj h
    rfl

/-- The parts of the text of a request. -/
theorem toString_eq (r : BofHttpRequest) : ∃ printedQuery printedFragment : Text,
    r.toString = r.method ++ ' '.toUInt8 :: (r.path.toString ++ (printedQuery ++ printedFragment)) ∧
      Marked '?'.toUInt8 printedQuery r.queryString ∧ Marked '#'.toUInt8 printedFragment r.fragment := by
  refine ⟨_, _, rfl, ?_, ?_⟩
  · by_cases hq : r.queryParamCollection.entries = []
    · rw [if_neg fun h => h hq]
      refine .inr ⟨rfl, ?_⟩
      rw [queryString, hq]
      rfl
    · rw [if_pos hq]
      exact .inl rfl
  · by_cases hf : r.fragment = []
    · rw [if_neg fun h => h hf]
      exact .inr ⟨rfl, hf⟩
    · rw [if_pos hf]
      exact .inl rfl

theorem Kept.holds (h : Kept cwd c r) : Holds r c := by
  refine ⟨h.method, h.path, h.pathText, h.query, h.fragment, ?_⟩
  obtain ⟨r', hr', heq⟩ := h.copied 0
  obtain ⟨⟨r₁, err⟩, hinit, rfl⟩ := Option.map_eq_some_iff.mp hr'
  have hdelimiter := initHttpRequestField_delimiter hinit
  exact heq.2.2.2.2.2.1.symm.trans hdelimiter

/-- What a caller has to see to. -/
def Good (cwd : Option Text) (c : Components) : Prop :=
  (∃ w, cwd = some w) ∧ Printable c.path ∧ Fits c.queryParamCollection

end BofStd.BofHttpRequest
