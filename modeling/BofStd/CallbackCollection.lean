import Mathlib.Order.Nat
import BofStd.Basic
import BofStd.Lib.OrderedMap
import BofStd.Lib.Run

/-!
# The class `BofCallbackCollection`

Callbacks in a map ordered by their identifiers, which a 32-bit counter hands out. Whether a callback fails is up
to the callback: a `Call` carries the outcomes of the callbacks that it runs, by identifier and callback. A
callback without a result never fails. The callbacks do not use the collection that calls them.
-/

namespace BofStd

/-- The members of a collection of callbacks of type `τ`. -/
structure CallbackCollection (τ : Type*) where
  callbackId : Nat
  callbackCollection : OrderedMap Nat τ
  unregisterIfFail : Bool

namespace CallbackCollection

variable {τ : Type*}

/-- The constructor. -/
def create : CallbackCollection τ := ⟨0, .empty, false⟩

/-- The identifier that `Register` takes from the counter: `++mCallbackId`, once more if it is 0. -/
def nextId (callbackId : Nat) : Nat :=
  let id := u32 (callbackId + 1)
  if id = 0 then u32 (id + 1) else id

/-- `Register`: the new collection and the identifier. -/
def register (s : CallbackCollection τ) (callback : τ) : CallbackCollection τ × Nat :=
  let id := nextId s.callbackId
  ({ s with callbackId := id, callbackCollection := s.callbackCollection.assign id callback }, id)

/-- `Unregister`. -/
def unregister (s : CallbackCollection τ) (id : Nat) : CallbackCollection τ × BofErr :=
  if id = 0 then ({ s with callbackCollection := .empty }, .noError)
  else
    match s.callbackCollection.find? id with
    | some _ => ({ s with callbackCollection := s.callbackCollection.erase id }, .noError)
    | none => (s, .notFound)

/-- The loop of `Call` over all the callbacks: what stays in the collection. -/
def callAll (s : CallbackCollection τ) (hasFailed : Nat → τ → Bool) : CallbackCollection τ :=
  { s with
    callbackCollection := s.callbackCollection.filter fun e => !(s.unregisterIfFail && hasFailed e.1 e.2) }

/-- `Call`: the new collection, the error code, and the identifiers of the callbacks that were run. -/
def call (s : CallbackCollection τ) (id : Nat) (hasFailed : Nat → τ → Bool) :
    CallbackCollection τ × BofErr × List Nat :=
  if id = 0 then
    (s.callAll hasFailed, if s.callbackCollection.entries.isEmpty then .empty else .noError, s.callbackCollection.keys)
  else
    match s.callbackCollection.find? id with
    | none => (s, .notFound, [])
    | some callback =>
      if s.unregisterIfFail && hasFailed id callback then
        ({ s with callbackCollection := s.callbackCollection.erase id }, .cancel, [id])
      else (s, .noError, [id])

/-- The calls. -/
inductive Op (τ : Type*) where
  | register (callback : τ)
  | unregister (id : Nat)
  | call (id : Nat) (hasFailed : Nat → τ → Bool)
  | unregisterIfFail (b : Bool)

/-- What a call returns. -/
inductive Out where
  | id (n : Nat)
  | err (e : BofErr)
  | called (e : BofErr) (ids : List Nat)
  | done
  deriving DecidableEq

/-- One call. -/
def step (s : CallbackCollection τ) : Op τ → CallbackCollection τ × Out
  | .register callback => ((s.register callback).1, .id (s.register callback).2)
  | .unregister id => ((s.unregister id).1, .err (s.unregister id).2)
  | .call id hasFailed => ((s.call id hasFailed).1, .called (s.call id hasFailed).2.1 (s.call id hasFailed).2.2)
  | .unregisterIfFail b => ({ s with unregisterIfFail := b }, .done)

end CallbackCollection

end BofStd

/-!
# Registrations that are never overwritten

`Sound` says what a single call may do to the registrations in the collection. The registry is what the
collection is for: registrations are numbered by an unbounded counter, so that none is ever overwritten. The
identifier of a registration is its number modulo `2^32 - 1`, and the collection simulates the registry as
long as a new number does not meet an old one with the same identifier.
-/

namespace BofStd.CallbackCollection

variable {τ : Type*}

/-- The calls through which a registration may leave the collection: `Unregister` of its identifier or of all,
and a `Call` that fails while `UnregisterIfFail` is set. -/
def Removes (s : CallbackCollection τ) (e : Nat × τ) : Op τ → Prop
  | .register _ => False
  | .unregister id => id = 0 ∨ id = e.1
  | .call id hasFailed => (id = 0 ∨ id = e.1) ∧ s.unregisterIfFail = true ∧ hasFailed e.1 e.2 = true
  | .unregisterIfFail _ => False

/-- A new registration gets an identifier of its own, and no registration is lost otherwise. -/
def Sound (s : CallbackCollection τ) (op : Op τ) : Prop :=
  (∀ id, (step s op).2 = .id id → id ≠ 0 ∧ id ∉ s.callbackCollection.keys) ∧
    ∀ e ∈ s.callbackCollection.entries, e ∉ (step s op).1.callbackCollection.entries → Removes s e op

/-- The registrations with their numbers, and how many there have been. -/
structure Registry (τ : Type*) where
  count : Nat
  live : List (Nat × τ)
  unregisterIfFail : Bool

/-- The number of different identifiers. -/
def period : Nat := 4294967295

/-- The identifier of the registration with this number; the first number is 1. -/
def idOf (n : Nat) : Nat := (n - 1) % period + 1

namespace Registry

def empty : Registry τ := ⟨0, [], false⟩

/-- One call on the registry. -/
def step (a : Registry τ) : Op τ → Registry τ
  | .register callback => { a with count := a.count + 1, live := a.live ++ [(a.count + 1, callback)] }
  | .unregister id => { a with live := a.live.filter fun e => id ≠ 0 ∧ id ≠ idOf e.1 }
  | .call id hasFailed =>
    { a with
      live := a.live.filter fun e => !((id = 0 ∨ id = idOf e.1) ∧ a.unregisterIfFail ∧ hasFailed (idOf e.1) e.2) }
  | .unregisterIfFail b => { a with unregisterIfFail := b }

/-- When a callback is registered, the registration that is exactly `2^32 - 1` registrations old is no longer
there. -/
def OldGone (a : Registry τ) : Op τ → Prop
  | .register _ => ∀ e ∈ a.live, e.1 + period ≠ a.count + 1
  | _ => True

end Registry

/-- A machine without outputs. -/
def Registry.machine (a : Registry τ) (op : Op τ) : Registry τ × Unit := (a.step op, ())

end BofStd.CallbackCollection
