import BofStd.PotSpec
import BofStd.Proofs.PotProofs

/-!
# An iteration of a pot misses nothing that stays

Without a magic number the flag of a slot is one of three values (`Flags`), so that the test of the iterator is
"in use and not locked". The count of the pot is exact, so that the guard of `GetFirstUsed` refuses only when nothing is
used. The rest is one induction over the calls: what is in front of the cursor and stays used is returned later.
-/

namespace BofStd.Pot

open Machine

variable {s : Pot} {i j : Nat}

/-! ## The flags -/

/-- A pot without magic number, with the flags that the calls set. -/
structure Flags (s : Pot) : Prop where
  magic_eq : s.param.magicNumber = 0
  flag : ∀ i, s.inUseList i = 0 ∨ s.inUseList i = 0xAA ∨ s.inUseList i = 0xFF

theorem Flags.setFlag (h : s.Flags) (i : Nat) {w : Nat} (hw : w = 0 ∨ w = 0xAA ∨ w = 0xFF) : (s.setFlag i w).Flags := by
  refine ⟨h.magic_eq, ?_⟩
  intro j
  have hflag : (s.setFlag i w).inUseList j = if j = i then w else s.inUseList j :=
    Function.update_apply s.inUseList i w j
  rw [hflag]
  split
  · exact hw
  · exact h.flag j

theorem Flags.of_eq (h : s.Flags) {s' : Pot} (hp : s'.param = s.param) (hf : s'.inUseList = s.inUseList) : s'.Flags := by
  refine ⟨?_, ?_⟩
  · rw [hp]
    exact h.magic_eq
  · rw [hf]
    exact h.flag

theorem Flags.clear (h : s.Flags) (i : Nat) : (s.clear i).Flags := by
  refine h.of_eq param_clear ?_
  unfold Pot.clear
  split <;> rfl

theorem Flags.mark (h : s.Flags) (lock : Bool) (i j : Nat) : (s.mark lock i j).Flags := by
  rw [Pot.mark, if_neg (not_not.mpr h.magic_eq)]
  cases lock with
  | true => exact h.setFlag j (Or.inr (Or.inl rfl))
  | false => exact h.setFlag j (Or.inr (Or.inr rfl))

theorem Flags.free (h : s.Flags) (i : Nat) : (s.free i).Flags := by
  rw [Pot.free, if_neg (not_not.mpr h.magic_eq)]
  exact h.setFlag i (Or.inl rfl)

theorem Flags.foldl_free (h : s.Flags) (l : List Nat) : (l.foldl Pot.free s).Flags := by
  induction l generalizing s with
  | nil => exact h
  | cons i l ih => exact ih (h.free i)

theorem Flags.getElement (h : s.Flags) (lock : Bool) : (s.getElement lock).1.Flags := by
  unfold Pot.getElement
  split
  · split
    · exact h
    · exact ((h.clear _).mark lock _ _).of_eq rfl rfl
  · exact h

/-- Every call sets flags to one of the three values. -/
theorem Flags.step (h : s.Flags) (op : Op) : (Pot.step s op).1.Flags := by
  cases op with
  | get => exact h.getElement false
  | lock =>
    simp only [Pot.step, lockElement, if_neg (not_not.mpr h.magic_eq)]
    exact h.getElement true
  | unlock p =>
    simp only [Pot.step, unlock]
    split
    · rw [if_neg (not_not.mpr h.magic_eq)]
      exact h.setFlag _ (Or.inr (Or.inr rfl))
    · exact h
  | release p =>
    simp only [Pot.step, release]
    split
    · split
      · have h' : Flags { s with nbOut := s.nbOut - 1 } := h.of_eq rfl rfl
        exact h'.free _
      · exact h
    · exact h
  | clearPot n =>
    simp only [Pot.step, clearPot]
    split
    · exact (h.foldl_free _).of_eq rfl rfl
    · exact h
  | reset =>
    have h' : Flags { s with levelMax := 0, first := 0, nbOut := 0 } := h.of_eq rfl rfl
    exact h'.foldl_free _
  | store i e => exact h.of_eq rfl rfl

/-- The test of the iterator. -/
theorem Flags.used_iff (h : s.Flags) : s.used i = true ↔ s.inUse i = true ∧ s.locked i = false := by
  have hmagic : ¬ s.param.magicNumber ≠ 0 := not_not.mpr h.magic_eq
  rw [used, inUse, locked, if_neg hmagic, if_neg hmagic, if_neg hmagic]
  rcases h.flag i with hf | hf | hf
  · simp [hf]
  · simp [hf]
  · simp [hf]

/-! ## One call of the iterator -/

/-- The search ends at the first used slot, or passes over slots that are not used. -/
theorem searchUsed_spec (s : Pot) (n i : Nat) :
    (∃ d, s.searchUsed 0 n i 0 = some d ∧ i ≤ d ∧ d < i + n ∧ s.used d = true ∧
      ∀ k, i ≤ k → k < d → ¬ s.used k = true) ∨
    (s.searchUsed 0 n i 0 = none ∧ ∀ k, i ≤ k → k < i + n → ¬ s.used k = true) := by
  induction n generalizing i with
  | zero =>
    refine Or.inr ⟨rfl, ?_⟩
    intro k hik hk
    omega
  | succ n ih =>
    rw [searchUsed]
    by_cases hu : s.used i = true
    · rw [if_pos hu, if_pos rfl]
      refine Or.inl ⟨i, rfl, Nat.le_refl i, by omega, hu, ?_⟩
      intro k hik hk
      omega
    · rw [if_neg hu]
      have hfirst : ∀ k, i ≤ k → ¬ i + 1 ≤ k → ¬ s.used k = true := by
        intro k hik hk
        rw [show k = i by omega]
        exact hu
      rcases ih (i + 1) with ⟨d, hd, hle, hlt, hud, hbelow⟩ | ⟨hnone, hall⟩
      · refine Or.inl ⟨d, hd, by omega, by omega, hud, ?_⟩
        intro k hik hk
        by_cases hk' : i + 1 ≤ k
        · exact hbelow k hk' hk
        · exact hfirst k hik hk'
      · refine Or.inr ⟨hnone, ?_⟩
        intro k hik hk
        by_cases hk' : i + 1 ≤ k
        · exact hall k hk' (by omega)
        · exact hfirst k hik hk'

/-- The slots that the cursor has not passed. -/
def Cursor.InFront : Cursor → Nat → Prop
  | .start, _ => True
  | .behind i, j => i < j
  | .done, _ => False

/-- What the call of the iterator at the cursor returns. -/
def nextAt (s : Pot) : Cursor → Option Nat
  | .start => s.getFirstUsed 0
  | .behind i => s.getNextUsed (some (i : Int))
  | .done => none

/-- What holds between the calls: the pot is sound, and the cursor stands behind one of its slots. -/
structure Ready (s : Pot) (c : Cursor) : Prop where
  inv : s.Inv
  flags : s.Flags
  cursor_lt : ∀ i, c = .behind i → i < s.capacity

/-- What a call of the iterator returns: the first used slot in front of the cursor, or nothing if there is none. -/
theorem Ready.nextAt_spec {c : Cursor} (h : Ready s c) :
    (∃ d, s.nextAt c = some d ∧ c.InFront d ∧ s.IsUsed d ∧ ∀ k, c.InFront k → k < d → ¬ s.IsUsed k) ∨
    (s.nextAt c = none ∧ ∀ k, c.InFront k → ¬ s.IsUsed k) := by
  have hused : ∀ {k}, k < s.capacity → s.used k = true → s.IsUsed k := fun hk hu => ⟨hk, h.flags.used_iff.mp hu⟩
  have hnot : ∀ {k}, ¬ s.used k = true → ¬ s.IsUsed k := fun hn hk => hn (h.flags.used_iff.mpr hk.2)
  cases c with
  | start =>
    simp only [nextAt, getFirstUsed]
    by_cases hout : 0 < s.nbOut
    · rw [if_pos hout]
      rcases searchUsed_spec s s.capacity 0 with ⟨d, hd, -, hlt, hu, hbelow⟩ | ⟨hnone, hall⟩
      · exact Or.inl ⟨d, hd, trivial, hused (by omega) hu, fun k _ hk => hnot (hbelow k (Nat.zero_le k) hk)⟩
      · refine Or.inr ⟨hnone, ?_⟩
        intro k _ hk
        exact hnot (hall k (Nat.zero_le k) (by rw [Nat.zero_add]; exact hk.1)) hk
    · -- nothing is out of the pot
      rw [if_neg hout]
      refine Or.inr ⟨rfl, ?_⟩
      intro k _ hk
      have hpos : 0 < s.out.card := Finset.card_pos.mpr ⟨k, mem_out.mpr ⟨hk.1, hk.2.1⟩⟩
      have hexact := h.inv.exact.1
      omega
  | behind i =>
    have hi := h.cursor_lt i rfl
    simp only [nextAt, getNextUsed, index_eq_some.mpr ⟨hi, rfl⟩]
    by_cases hlast : i + 1 ≤ s.capacity - 1
    · rw [if_pos hlast]
      rcases searchUsed_spec s (s.capacity - 1 - (i + 1) + 1) (i + 1) with ⟨d, hd, hle, hlt, hu, hbelow⟩ | ⟨hnone, hall⟩
      · exact Or.inl ⟨d, hd, hle, hused (by omega) hu, fun k hk hkd => hnot (hbelow k hk hkd)⟩
      · refine Or.inr ⟨hnone, ?_⟩
        intro k hik hk
        have hlt := hk.1
        exact hnot (hall k hik (by omega)) hk
    · rw [if_neg hlast]
      refine Or.inr ⟨rfl, ?_⟩
      intro k hik hk
      have hlt := hk.1
      have hik' : i < k := hik
      omega
  | done => exact Or.inr ⟨rfl, fun _ hk => absurd hk not_false⟩

/-- A call of the iterator leaves the pot as it is. -/
theorem stepIter_next (s : Pot) (c : Cursor) (hc : c ≠ .done) :
    stepIter (s, c) .next = ((s, .after (s.nextAt c)), s.nextAt c) := by
  cases c with
  | start => rfl
  | behind i => rfl
  | done => exact absurd rfl hc

theorem Ready.after {c : Cursor} (h : Ready s c) : Ready s (.after (s.nextAt c)) := by
  refine ⟨h.inv, h.flags, ?_⟩
  intro i hi
  rcases h.nextAt_spec with ⟨d, hd, -, hu, -⟩ | ⟨hnone, -⟩
  · rw [hd] at hi
    cases hi
    exact hu.1
  · rw [hnone] at hi
    exact Cursor.noConfusion hi

/-- What one call keeps. -/
theorem Ready.stepIter {c : Cursor} (h : Ready s c) (e : IterOp) :
    Ready (Pot.stepIter (s, c) e).1.1 (Pot.stepIter (s, c) e).1.2 := by
  have hmagic : s.param.magicNumber ≠ 4294967295 := by
    rw [h.flags.magic_eq]
    decide
  cases e with
  | call op =>
    refine ⟨(step_spec h.inv hmagic op).1, h.flags.step op, ?_⟩
    intro i hi
    show i < (Pot.step s op).1.param.potCapacity
    rw [step_param hmagic]
    exact h.cursor_lt i hi
  | next =>
    by_cases hc : c = .done
    · subst hc
      exact h
    · rw [stepIter_next s c hc]
      exact h.after

/-! ## Runs -/

/-- The slots that the iterator gets in a run from the state `s` with the cursor `c`. -/
def gets (s : Pot) (c : Cursor) (evs : List IterOp) : List Nat := (run stepIter (s, c) evs).2.filterMap id

theorem gets_next (s : Pot) {c : Cursor} (hc : c ≠ .done) (evs : List IterOp) :
    gets s c (.next :: evs) = (s.nextAt c).toList ++ gets s (.after (s.nextAt c)) evs := by
  rw [gets, run_cons, stepIter_next s c hc, List.filterMap_cons, gets]
  cases s.nextAt c with
  | none => rfl
  | some d => rfl

/-- After the end nothing is returned. -/
theorem gets_done (s : Pot) (evs : List IterOp) : gets s .done evs = [] := by
  induction evs generalizing s with
  | nil => rfl
  | cons e evs ih =>
    cases e with
    | call op => exact ih (Pot.step s op).1
    | next => exact ih s

/-- The slots are returned in increasing order, all of them in front of the cursor. -/
theorem Ready.gets_increasing {c : Cursor} (h : Ready s c) (evs : List IterOp) :
    (gets s c evs).Pairwise (· < ·) ∧ ∀ d ∈ gets s c evs, c.InFront d := by
  induction evs generalizing s c with
  | nil => exact ⟨List.Pairwise.nil, fun d hd => absurd hd List.not_mem_nil⟩
  | cons e evs ih =>
    cases e with
    | call op => exact ih (h.stepIter (.call op))
    | next =>
      by_cases hc : c = .done
      · rw [hc, gets_done]
        exact ⟨List.Pairwise.nil, fun d hd => absurd hd List.not_mem_nil⟩
      · rw [gets_next s hc]
        have hrest := ih h.after
        rcases h.nextAt_spec with ⟨d, hd, hfront, -, -⟩ | ⟨hnone, -⟩
        · rw [hd] at hrest ⊢
          have hbehind : ∀ k ∈ gets s (.after (some d)) evs, c.InFront k := by
            intro k hk
            have hdk : d < k := hrest.2 k hk
            cases c with
            | start => trivial
            | behind i => exact Nat.lt_trans hfront hdk
            | done => exact absurd rfl hc
          refine ⟨List.Pairwise.cons hrest.2 hrest.1, ?_⟩
          intro k hk
          rcases List.mem_cons.mp hk with rfl | hk
          · exact hfront
          · exact hbehind k hk
        · rw [hnone]
          show (gets s .done evs).Pairwise (· < ·) ∧ ∀ d ∈ gets s .done evs, c.InFront d
          rw [gets_done]
          exact ⟨List.Pairwise.nil, fun d hd => absurd hd List.not_mem_nil⟩

/-- A slot in front of the cursor that stays used until the end is returned. -/
theorem Ready.mem_gets {c : Cursor} (h : Ready s c) {evs : List IterOp} (hj : c.InFront j)
    (hstay : ∀ es, es <+: evs → (run Pot.stepIter (s, c) es).1.2 ≠ .done →
      (run Pot.stepIter (s, c) es).1.1.IsUsed j)
    (hdone : (run Pot.stepIter (s, c) evs).1.2 = .done) : j ∈ gets s c evs := by
  have hc : c ≠ .done := by
    rintro rfl
    exact hj
  induction evs generalizing s c with
  | nil => exact absurd hdone hc
  | cons e evs ih =>
    have hnow : s.IsUsed j := hstay [] List.nil_prefix hc
    have hlater : ∀ es, es <+: evs → (run Pot.stepIter (Pot.stepIter (s, c) e).1 es).1.2 ≠ .done →
        (run Pot.stepIter (Pot.stepIter (s, c) e).1 es).1.1.IsUsed j := by
      intro es hes
      exact hstay (e :: es) (List.cons_prefix_cons.mpr ⟨rfl, hes⟩)
    cases e with
    | call op => exact ih (h.stepIter (.call op)) hj hlater hdone hc
    | next =>
      rw [run_cons, stepIter_next s c hc] at hdone
      rw [stepIter_next s c hc] at hlater
      have hready := h.after
      rw [gets_next s hc]
      rcases h.nextAt_spec with ⟨d, hd, -, -, hfirst⟩ | ⟨-, hnone⟩
      · rw [hd] at hlater hdone hready ⊢
        rcases Nat.lt_trichotomy j d with hjd | rfl | hjd
        · exact absurd hnow (hfirst j hj hjd)
        · exact List.mem_cons_self
        · exact List.mem_cons_of_mem d (ih hready hjd hlater hdone Cursor.noConfusion)
      · exact absurd hnow (hnone j hj)

/-- The number of slots that a cursor may still return. -/
def Cursor.left (capacity : Nat) : Cursor → Nat
  | .start => capacity + 1
  | .behind i => capacity - i
  | .done => 0

/-- Every call of the iterator brings it closer to its end. -/
theorem Ready.left_after {c : Cursor} (h : Ready s c) (hc : c ≠ .done) :
    (Cursor.after (s.nextAt c)).left s.capacity < c.left s.capacity := by
  have hpos : 0 < c.left s.capacity := by
    cases c with
    | start => exact Nat.succ_pos _
    | behind i => exact Nat.sub_pos_of_lt (h.cursor_lt i rfl)
    | done => exact absurd rfl hc
  rcases h.nextAt_spec with ⟨d, hd, hfront, hu, -⟩ | ⟨hnone, -⟩
  · rw [hd]
    have hlt := hu.1
    cases c with
    | start =>
      show s.capacity - d < s.capacity + 1
      omega
    | behind i =>
      have hid : i < d := hfront
      show s.capacity - d < s.capacity - i
      omega
    | done => exact absurd rfl hc
  · rw [hnone]
    exact hpos

theorem run_done (s : Pot) (evs : List IterOp) : (run stepIter (s, .done) evs).1.2 = .done := by
  induction evs generalizing s with
  | nil => rfl
  | cons e evs ih =>
    cases e with
    | call op => exact ih (Pot.step s op).1
    | next => exact ih s

/-- Enough calls bring the iterator to its end. -/
theorem Ready.ends {c : Cursor} (h : Ready s c) {evs : List IterOp}
    (hn : c.left s.capacity ≤ evs.countP IterOp.isNext) : (run Pot.stepIter (s, c) evs).1.2 = .done := by
  induction evs generalizing s c with
  | nil =>
    rw [List.countP_nil] at hn
    cases c with
    | start => exact absurd hn (Nat.not_succ_le_zero _)
    | behind i =>
      have hi := h.cursor_lt i rfl
      have hle : s.capacity - i ≤ 0 := hn
      omega
    | done => rfl
  | cons e evs ih =>
    cases e with
    | call op =>
      refine ih (h.stepIter (.call op)) ?_
      show c.left (Pot.step s op).1.param.potCapacity ≤ _
      rw [step_param (by rw [h.flags.magic_eq]; decide)]
      exact hn
    | next =>
      by_cases hc : c = .done
      · rw [hc]
        exact run_done s (.next :: evs)
      · have hleft := h.left_after hc
        rw [List.countP_cons_of_pos rfl] at hn
        rw [run_cons, stepIter_next s c hc]
        exact ih h.after (by omega)

/-- The states of an iteration. -/
theorem Ready.run {c : Cursor} (h : Ready s c) (evs : List IterOp) :
    Ready (Machine.run Pot.stepIter (s, c) evs).1.1 (Machine.run Pot.stepIter (s, c) evs).1.2 :=
  inv_run (P := fun t => Ready t.1 t.2) (fun _ e ht (_ : True) => ht.stepIter e) (s := (s, c)) h
    (meets_of_forall (fun _ _ => trivial) _ evs)

/-- An iteration from a state in which the pot is sound. -/
theorem Ready.missesNothing (h : Ready s .start) (evs : List IterOp) : MissesNothing s evs where
  increasing := (h.gets_increasing (.next :: evs)).1
  used_at_call := by
    intro es es' _ i hi
    have hready := h.run es
    generalize Machine.run Pot.stepIter (s, .start) es = r at hready hi
    obtain ⟨⟨t, c⟩, outs⟩ := r
    by_cases hc : c = .done
    · rw [hc] at hi
      exact absurd hi (Option.some_ne_none i).symm
    · rw [stepIter_next t c hc] at hi
      rcases hready.nextAt_spec with ⟨d, hd, -, hu, -⟩ | ⟨hnone, -⟩
      · have hdi : some d = some i := hd.symm.trans hi
        cases hdi
        exact hu
      · exact absurd (hnone.symm.trans hi) (Option.some_ne_none i).symm
  complete := by
    intro hdone j hstay
    refine h.mem_gets trivial ?_ hdone
    intro es hes hne
    cases es with
    | nil => exact hstay.1
    | cons e es =>
      obtain ⟨rfl, htail⟩ := List.cons_prefix_cons.mp hes
      exact hstay.2 es htail hne
  ends hn := h.ends hn

/-- In a pot without magic number, whatever the calls before and during it, an iteration misses nothing that stays used
and returns only what is used. -/
theorem pot_iterate_missesNothing (param : PotParam) (data : Nat → PotElement) (ops : List Op) (evs : List IterOp)
    (hm : param.magicNumber = 0) : MissesNothing (run step (create param data) ops).1 evs := by
  have hcreate : (create param data).Flags := by
    unfold create
    split
    · exact ⟨rfl, fun _ => Or.inl rfl⟩
    · rw [if_neg (not_not.mpr hm)]
      exact ⟨hm, fun _ => Or.inl rfl⟩
  have hinv := (create_inv param data (Or.inl (by rw [hm]; decide))).1
  have hstep : ∀ (s : Pot) (op : Op), s.Inv ∧ s.Flags → True → (step s op).1.Inv ∧ (step s op).1.Flags := by
    rintro s op ⟨hs, hf⟩ -
    exact ⟨(step_spec hs (by rw [hf.magic_eq]; decide) op).1, hf.step op⟩
  have hrun := inv_run hstep ⟨hinv, hcreate⟩ (meets_of_forall (fun _ _ => trivial) _ ops)
  exact Ready.missesNothing ⟨hrun.1, hrun.2, fun _ hi => Cursor.noConfusion hi⟩ evs

/-- A pot of four slots, the third one locked: after the first call of the iterator the second slot is released. -/
theorem missesNothing_four_slots :
    MissesNothing (run step (create ⟨0, false, 4, by decide, by decide⟩ fun _ => ⟨0, []⟩) [.get, .get, .lock, .get]).1
      [.call (.release (some 1)), .next, .call .get, .next] ∧
    returned (run step (create ⟨0, false, 4, by decide, by decide⟩ fun _ => ⟨0, []⟩) [.get, .get, .lock, .get]).1
      [.call (.release (some 1)), .next, .call .get, .next] = [0, 3] :=
  ⟨pot_iterate_missesNothing ⟨0, false, 4, by decide, by decide⟩ (fun _ => ⟨0, []⟩) [.get, .get, .lock, .get]
    [.call (.release (some 1)), .next, .call .get, .next] rfl, by decide⟩

end BofStd.Pot
