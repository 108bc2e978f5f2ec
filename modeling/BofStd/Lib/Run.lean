import Mathlib.Tactic.Basic
import Mathlib.Data.List.Basic
import Mathlib.Data.List.Forall2

/-!
# Runs of deterministic machines

A machine is a step function `σ → ι → σ × ο`: from a state and an input it computes the next state
and an output. `run` feeds it a finite list of inputs; a claim about every reachable state is a claim
about `(run step s₀ is).1` for every `is`. Inductions over runs are done here once: `inv_run` for an
invariant, `sim_run` for a simulation by another machine. Both take a guard `cond` on single steps,
so that they also serve for runs whose steps all meet a condition (`Meets`).
-/

namespace Machine

variable {σ τ ι ο : Type*}

/-- Feed the inputs `is` to the machine, collecting the outputs. -/
def run (step : σ → ι → σ × ο) (s : σ) : List ι → σ × List ο
  | [] => (s, [])
  | i :: is => ((run step (step s i).1 is).1, (step s i).2 :: (run step (step s i).1 is).2)

/-- Every step of the run over the inputs meets `cond` in the state where it is taken. -/
def Meets (step : σ → ι → σ × ο) (cond : σ → ι → Prop) (s : σ) : List ι → Prop
  | [] => True
  | i :: is => cond s i ∧ Meets step cond (step s i).1 is

variable {step : σ → ι → σ × ο} {cond : σ → ι → Prop}

@[simp] theorem run_nil (s : σ) : run step s [] = (s, []) := rfl

@[simp] theorem run_cons (s : σ) (i : ι) (is : List ι) :
    run step s (i :: is) =
      ((run step (step s i).1 is).1, (step s i).2 :: (run step (step s i).1 is).2) := rfl

theorem run_append (s : σ) (is js : List ι) :
    run step s (is ++ js) =
      ((run step (run step s is).1 js).1, (run step s is).2 ++ (run step (run step s is).1 js).2) := by
  induction is generalizing s with
  | nil => simp
  | cons i is ih => simp [ih]

@[simp] theorem length_run (s : σ) (is : List ι) : (run step s is).2.length = is.length := by
  induction is generalizing s with
  | nil => simp
  | cons i is ih => simp [ih]

@[simp] theorem meets_nil (s : σ) : Meets step cond s [] := trivial

@[simp] theorem meets_cons (s : σ) (i : ι) (is : List ι) :
    Meets step cond s (i :: is) ↔ cond s i ∧ Meets step cond (step s i).1 is := Iff.rfl

instance Meets.decidable [∀ s i, Decidable (cond s i)] (s : σ) :
    (is : List ι) → Decidable (Meets step cond s is)
  | [] => isTrue trivial
  | i :: is =>
    have := Meets.decidable (step s i).1 is
    inferInstanceAs (Decidable (_ ∧ _))

theorem meets_append (s : σ) (is js : List ι) :
    Meets step cond s (is ++ js) ↔
      Meets step cond s is ∧ Meets step cond (run step s is).1 js := by
  induction is generalizing s with
  | nil => simp
  | cons i is ih => simp [ih, and_assoc]

theorem meets_of_forall (h : ∀ s i, cond s i) (s : σ) (is : List ι) : Meets step cond s is := by
  induction is generalizing s with
  | nil => trivial
  | cons i is ih => exact ⟨h s i, ih _⟩

/-- A run meets a condition that follows from an invariant. -/
theorem meets_of_inv {P : σ → Prop} (hcond : ∀ s i, P s → cond s i) (hstep : ∀ s i, P s → P (step s i).1) {s : σ}
    (h : P s) (is : List ι) : Meets step cond s is := by
  induction is generalizing s with
  | nil => trivial
  | cons i is ih => exact ⟨hcond s i h, ih (hstep s i h)⟩

/-- Under an invariant that the steps keep, a condition may be replaced by one that follows from it. -/
theorem Meets.imp_of_inv {cond' : σ → ι → Prop} {P : σ → Prop} (himp : ∀ s i, P s → cond s i → cond' s i)
    (hstep : ∀ s i, P s → cond s i → P (step s i).1) {s : σ} {is : List ι} (h : P s) (hc : Meets step cond s is) :
    Meets step cond' s is := by
  induction is generalizing s with
  | nil => trivial
  | cons i is ih => exact ⟨himp s i h hc.1, ih (hstep s i h hc.1) hc.2⟩

theorem meets_and {Q : ι → Prop} {s : σ} {is : List ι} (hc : Meets step cond s is)
    (hQ : ∀ i ∈ is, Q i) : Meets step (fun s i => cond s i ∧ Q i) s is := by
  induction is generalizing s with
  | nil => trivial
  | cons i is ih =>
    rw [List.forall_mem_cons] at hQ
    exact ⟨⟨hc.1, hQ.1⟩, ih hc.2 hQ.2⟩

theorem meets_inter {cond' : σ → ι → Prop} {s : σ} {is : List ι} (hc : Meets step cond s is)
    (hc' : Meets step cond' s is) : Meets step (fun s i => cond s i ∧ cond' s i) s is := by
  induction is generalizing s with
  | nil => trivial
  | cons i is ih => exact ⟨⟨hc.1, hc'.1⟩, ih hc.2 hc'.2⟩

/-- The invariant rule: what every guarded step preserves, every guarded run preserves. -/
theorem inv_run {P : σ → Prop} (hstep : ∀ s i, P s → cond s i → P (step s i).1) {s : σ}
    {is : List ι} (h : P s) (hc : Meets step cond s is) : P (run step s is).1 := by
  induction is generalizing s with
  | nil => exact h
  | cons i is ih => exact ih (hstep s i h hc.1) hc.2

/-- The simulation rule: if related states stay related by one step of each machine and the two outputs
are related, then this holds of whole runs. -/
theorem sim_run_rel {ο' : Type*} {spec : τ → ι → τ × ο'} {R : σ → τ → Prop} {Q : ο → ο' → Prop}
    (hstep : ∀ s t i, R s t → cond s i →
      R (step s i).1 (spec t i).1 ∧ Q (step s i).2 (spec t i).2)
    {s : σ} {t : τ} {is : List ι} (h : R s t) (hc : Meets step cond s is) :
    R (run step s is).1 (run spec t is).1 ∧ List.Forall₂ Q (run step s is).2 (run spec t is).2 := by
  induction is generalizing s t with
  | nil => exact ⟨h, .nil⟩
  | cons i is ih =>
    obtain ⟨hR, ho⟩ := hstep s t i h hc.1
    obtain ⟨hR', ho'⟩ := ih hR hc.2
    exact ⟨hR', .cons ho ho'⟩

/-- The simulation rule for outputs that agree under the view `v`. -/
theorem sim_run {ο' : Type*} {spec : τ → ι → τ × ο'} {R : σ → τ → Prop} {v : ο → ο'}
    (hstep : ∀ s t i, R s t → cond s i →
      R (step s i).1 (spec t i).1 ∧ v (step s i).2 = (spec t i).2)
    {s : σ} {t : τ} {is : List ι} (h : R s t) (hc : Meets step cond s is) :
    R (run step s is).1 (run spec t is).1 ∧ (run step s is).2.map v = (run spec t is).2 := by
  obtain ⟨hR, ho⟩ := sim_run_rel (Q := fun o o' => v o = o') hstep h hc
  refine ⟨hR, ?_⟩
  rw [← List.forall₂_eq_eq_eq, List.forall₂_map_left_iff]
  exact ho

/-- Two machines that simulate each other as long as their steps meet the conditions: one run meets its
condition exactly if the other does. -/
theorem meets_iff_meets {ο' : Type*} {spec : τ → ι → τ × ο'} {cond' : τ → ι → Prop} {R : σ → τ → Prop}
    (hcond : ∀ s t i, R s t → (cond s i ↔ cond' t i))
    (hstep : ∀ s t i, R s t → cond' t i → R (step s i).1 (spec t i).1) {s : σ} {t : τ} {is : List ι} (h : R s t) :
    Meets step cond s is ↔ Meets spec cond' t is := by
  induction is generalizing s t with
  | nil => exact Iff.rfl
  | cons i is ih =>
    rw [meets_cons, meets_cons, hcond s t i h]
    exact and_congr_right fun hc => ih (hstep s t i h hc)

/-- Under an invariant, and a guard that every step meets: if a step keeps the invariant when it meets the condition, and
the condition says when the step has a property, then every step of a run has the property exactly if it meets the
condition. -/
theorem meets_iff_meets_of_inv {guard cond' : σ → ι → Prop} {P : σ → Prop}
    (hiff : ∀ s i, P s → guard s i → (cond' s i ↔ cond s i))
    (hkeep : ∀ s i, P s → guard s i → cond s i → P (step s i).1) {s : σ} {is : List ι} (h : P s)
    (hg : Meets step guard s is) : Meets step cond' s is ↔ Meets step cond s is := by
  induction is generalizing s with
  | nil => exact Iff.rfl
  | cons i is ih =>
    rw [meets_cons, meets_cons, hiff s i h hg.1]
    exact and_congr_right fun hc => ih (hkeep s i h hg.1 hc) hg.2

/-- A property `Q` that follows from an invariant `P`: if a step that meets the condition keeps `P`, and one that
does not breaks `Q`, then `Q` holds all along a run exactly if every step meets the condition. -/
theorem forall_prefix_iff_meets_of_inv {guard : σ → ι → Prop} {P Q : σ → Prop} (hPQ : ∀ s, P s → Q s)
    (hkeep : ∀ s i, P s → guard s i → cond s i → P (step s i).1)
    (hbreak : ∀ s i, P s → guard s i → Q (step s i).1 → cond s i) {s : σ} {is : List ι} (h : P s)
    (hg : Meets step guard s is) : (∀ js, js <+: is → Q (run step s js).1) ↔ Meets step cond s is := by
  induction is generalizing s with
  | nil =>
    refine iff_of_true ?_ trivial
    intro js hjs
    rw [List.prefix_nil.mp hjs]
    exact hPQ s h
  | cons i is ih =>
    rw [meets_cons]
    constructor
    · intro hall
      have hQ : Q (step s i).1 := hall [i] (List.prefix_append [i] is)
      have hc := hbreak s i h hg.1 hQ
      refine ⟨hc, (ih (hkeep s i h hg.1 hc) hg.2).mp ?_⟩
      intro js hjs
      exact hall (i :: js) (List.cons_prefix_cons.mpr ⟨rfl, hjs⟩)
    · rintro ⟨hc, hcs⟩ js hjs
      cases js with
      | nil => exact hPQ s h
      | cons j js =>
        obtain ⟨rfl, htail⟩ := List.cons_prefix_cons.mp hjs
        exact (ih (hkeep s j h hg.1 hc) hg.2).mpr hcs js htail

/-- What a step keeps exactly if it meets the condition holds all along a run exactly if every step meets it. -/
theorem forall_prefix_iff_meets {guard : σ → ι → Prop} {P : σ → Prop}
    (hstep : ∀ s i, P s → guard s i → (P (step s i).1 ↔ cond s i)) {s : σ} {is : List ι} (h : P s)
    (hg : Meets step guard s is) : (∀ js, js <+: is → P (run step s js).1) ↔ Meets step cond s is :=
  forall_prefix_iff_meets_of_inv (fun _ hP => hP) (fun s i hP hgi hc => (hstep s i hP hgi).mpr hc)
    (fun s i hP hgi hQ => (hstep s i hP hgi).mp hQ) h hg

/-- Two machines whose states stay related in a step exactly if the step meets the condition: they are related all
along a run exactly if every step of it meets the condition. -/
theorem forall_prefix_rel_iff_meets {ο' : Type*} {spec : τ → ι → τ × ο'} {R : σ → τ → Prop}
    (hstep : ∀ s t i, R s t → (R (step s i).1 (spec t i).1 ↔ cond s i)) {s : σ} {t : τ} {is : List ι} (h : R s t) :
    (∀ js, js <+: is → R (run step s js).1 (run spec t js).1) ↔ Meets step cond s is := by
  induction is generalizing s t with
  | nil =>
    refine iff_of_true ?_ trivial
    intro js hjs
    rw [List.prefix_nil.mp hjs]
    exact h
  | cons i is ih =>
    rw [meets_cons, ← hstep s t i h]
    constructor
    · intro hall
      have hR : R (step s i).1 (spec t i).1 := hall [i] (List.prefix_append [i] is)
      exact ⟨hR, (ih hR).mp fun js hjs => hall (i :: js) (List.cons_prefix_cons.mpr ⟨rfl, hjs⟩)⟩
    · rintro ⟨hR, hcs⟩ js hjs
      cases js with
      | nil => exact h
      | cons j js =>
        obtain ⟨rfl, htail⟩ := List.cons_prefix_cons.mp hjs
        exact (ih hR).mpr hcs js htail

/-- The inputs of a run, each with its output. -/
def history (step : σ → ι → σ × ο) (s : σ) (is : List ι) : List (ι × ο) := is.zip (run step s is).2

theorem history_cons (s : σ) (i : ι) (is : List ι) :
    history step s (i :: is) = (i, (step s i).2) :: history step (step s i).1 is := rfl

@[simp] theorem map_fst_history (s : σ) (is : List ι) : (history step s is).map Prod.fst = is := by
  induction is generalizing s with
  | nil => rfl
  | cons i is ih => rw [history_cons, List.map_cons, ih]

/-- What the last step of a history adds to a list of selected items. -/
theorem filterMap_singleton {β γ : Type*} (f : β → Option γ) (b : β) :
    [b].filterMap f = (f b).toList := by
  cases hf : f b with
  | none => simp [hf]
  | some c => simp [hf]

/-- The invariant rule for what a run has done so far: the property may also speak of the inputs and
outputs before the state. -/
theorem inv_history {P : List (ι × ο) → σ → Prop}
    (hstep : ∀ h s i, P h s → cond s i → P (h ++ [(i, (step s i).2)]) (step s i).1) {h : List (ι × ο)}
    {s : σ} {is : List ι} (h0 : P h s) (hc : Meets step cond s is) :
    P (h ++ history step s is) (run step s is).1 := by
  induction is generalizing h s with
  | nil =>
    rw [history, run_nil, List.zip_nil_left, List.append_nil]
    exact h0
  | cons i is ih =>
    have ih' := ih (hstep h s i h0 hc.1) hc.2
    rw [List.append_assoc] at ih'
    exact ih'

/-- Inputs and outputs related step by step. -/
theorem forall₂_run {P : σ → Prop} {Q : ι → ο → Prop}
    (hstep : ∀ s i, P s → cond s i → P (step s i).1 ∧ Q i (step s i).2) {s : σ} {is : List ι}
    (h : P s) (hc : Meets step cond s is) : List.Forall₂ Q is (run step s is).2 := by
  induction is generalizing s with
  | nil => exact .nil
  | cons i is ih =>
    obtain ⟨hP, hQ⟩ := hstep s i h hc.1
    exact .cons hQ (ih hP hc.2)

/-- What holds of the output of every step holds of all the outputs. -/
theorem outputs_run {P : σ → Prop} {Q : ο → Prop}
    (hstep : ∀ s i, P s → cond s i → P (step s i).1 ∧ Q (step s i).2) {s : σ} {is : List ι}
    (h : P s) (hc : Meets step cond s is) : ∀ o ∈ (run step s is).2, Q o := by
  induction is generalizing s with
  | nil =>
    intro o ho
    exact absurd ho List.not_mem_nil
  | cons i is ih =>
    obtain ⟨hP, hQ⟩ := hstep s i h hc.1
    exact List.forall_mem_cons.mpr ⟨hQ, ih hP hc.2⟩

/-- A trace of a nondeterministic machine, given by its step relation. -/
inductive Trace (R : τ → ι → ο → τ → Prop) : τ → List ι → List ο → τ → Prop
  | nil {t : τ} : Trace R t [] [] t
  | cons {t t' t'' : τ} {i : ι} {o : ο} {is : List ι} {os : List ο} (h : R t i o t')
      (hs : Trace R t' is os t'') : Trace R t (i :: is) (o :: os) t''

/-- A run of a machine, seen through `f` and `v`, is a trace of a relation that every step obeys. -/
theorem trace_run {ο' : Type*} {R : τ → ι → ο' → τ → Prop} {P : σ → Prop} (f : σ → τ) (v : ο → ο')
    (hstep : ∀ s i, P s → cond s i →
      P (step s i).1 ∧ R (f s) i (v (step s i).2) (f (step s i).1))
    {s : σ} {is : List ι} (h : P s) (hc : Meets step cond s is) :
    Trace R (f s) is ((run step s is).2.map v) (f (run step s is).1) := by
  induction is generalizing s with
  | nil => exact .nil
  | cons i is ih =>
    obtain ⟨hP, hR⟩ := hstep s i h hc.1
    exact .cons hR (ih hP hc.2)

end Machine
