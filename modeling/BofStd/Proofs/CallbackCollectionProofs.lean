import BofStd.CallbackCollection

/-!
# The collection simulates the registry

The invariant is `Follows`: the entries of the collection are the live registrations under their identifiers,
and no live registration is older than `2^32 - 1` registrations. A new identifier can only meet the
identifier of a registration of exactly that age (`idOf_eq_iff`).
-/

namespace BofStd.CallbackCollection

open Machine

variable {τ : Type*} {s : CallbackCollection τ} {a : Registry τ} {op : Op τ} {callback : τ}

/-- The counter after `n` registrations. -/
def counter (n : Nat) : Nat := if n = 0 then 0 else idOf n

theorem idOf_ne_zero (n : Nat) : idOf n ≠ 0 := Nat.succ_ne_zero _

theorem nextId_counter (n : Nat) : nextId (counter n) = idOf (n + 1) := by
  unfold nextId counter idOf period
  simp only [u32_eq_mod]
  split
  · subst n
    rfl
  · split <;> omega

/-- Two numbers less than a period apart have different identifiers. -/
theorem idOf_eq_iff {m n : Nat} (hpos : 1 ≤ m) (hle : m ≤ n) (hlt : n < m + period) :
    idOf m = idOf (n + 1) ↔ m + period = n + 1 := by
  unfold idOf period at *
  omega

/-- The collection holds the live registrations of the registry under their identifiers. -/
structure Follows (s : CallbackCollection τ) (a : Registry τ) : Prop where
  callbackId_eq : s.callbackId = counter a.count
  unregisterIfFail_eq : s.unregisterIfFail = a.unregisterIfFail
  entries_iff : ∀ e, e ∈ s.callbackCollection.entries ↔ ∃ d ∈ a.live, (idOf d.1, d.2) = e
  live_pos : ∀ d ∈ a.live, 1 ≤ d.1
  live_le : ∀ d ∈ a.live, d.1 ≤ a.count
  live_young : ∀ d ∈ a.live, a.count < d.1 + period

theorem follows_create : Follows (create : CallbackCollection τ) Registry.empty where
  callbackId_eq := rfl
  unregisterIfFail_eq := rfl
  entries_iff e := by
    constructor
    · intro he
      exact absurd he List.not_mem_nil
    · rintro ⟨d, hd, -⟩
      exact absurd hd List.not_mem_nil
  live_pos d hd := absurd hd List.not_mem_nil
  live_le d hd := absurd hd List.not_mem_nil
  live_young d hd := absurd hd List.not_mem_nil

/-- The new identifier is free unless the registration of age `2^32 - 1` is still there. -/
theorem Follows.nextId_free_iff (h : Follows s a) (callback : τ) :
    nextId s.callbackId ∉ s.callbackCollection.keys ↔ a.OldGone (.register callback) := by
  rw [h.callbackId_eq, nextId_counter, OrderedMap.mem_keys]
  constructor
  · intro hfree d hd hage
    apply hfree
    refine ⟨d.2, (h.entries_iff _).mpr ⟨d, hd, ?_⟩⟩
    rw [(idOf_eq_iff (h.live_pos d hd) (h.live_le d hd) (h.live_young d hd)).mpr hage]
  · rintro hold ⟨x, hx⟩
    obtain ⟨d, hd, heq⟩ := (h.entries_iff _).mp hx
    have hid : idOf d.1 = idOf (a.count + 1) := congrArg Prod.fst heq
    exact hold d hd ((idOf_eq_iff (h.live_pos d hd) (h.live_le d hd) (h.live_young d hd)).mp hid)

/-- Only `Register` can break the rules. -/
theorem sound_of_not_register (s : CallbackCollection τ) (hop : ∀ callback, op ≠ .register callback) :
    Sound s op := by
  cases op with
  | register callback => exact absurd rfl (hop callback)
  | unregister id =>
    refine ⟨nofun, ?_⟩
    intro e he hgone
    by_cases hid : id = 0
    · exact .inl hid
    · refine .inr ?_
      by_contra hne
      apply hgone
      simp only [step, unregister]
      rw [if_neg hid]
      cases s.callbackCollection.find? id with
      | none => exact he
      | some x => exact OrderedMap.mem_erase.mpr ⟨he, Ne.symm hne⟩
  | call id hasFailed =>
    refine ⟨nofun, ?_⟩
    intro e he hgone
    by_contra hnot
    apply hgone
    simp only [step, call]
    by_cases hid : id = 0
    · rw [if_pos hid]
      refine OrderedMap.mem_filter.mpr ⟨he, ?_⟩
      rw [Bool.not_eq_true']
      refine Bool.eq_false_iff.mpr fun hfail => hnot ⟨.inl hid, ?_⟩
      exact Bool.and_eq_true_iff.mp hfail
    · rw [if_neg hid]
      cases hfind : s.callbackCollection.find? id with
      | none => exact he
      | some x =>
        by_cases hfail : (s.unregisterIfFail && hasFailed id x) = true
        · simp only [hfail, if_true]
          refine OrderedMap.mem_erase.mpr ⟨he, ?_⟩
          rintro rfl
          obtain rfl := OrderedMap.value_unique (OrderedMap.find?_eq_some_iff.mp hfind) he
          exact hnot ⟨.inr rfl, Bool.and_eq_true_iff.mp hfail⟩
        · simp only [hfail]
          exact he
  | unregisterIfFail b =>
    refine ⟨nofun, ?_⟩
    intro e he hgone
    exact absurd he hgone

theorem sound_register_iff :
    Sound s (.register callback) ↔ nextId s.callbackId ≠ 0 ∧ nextId s.callbackId ∉ s.callbackCollection.keys := by
  constructor
  · intro h
    exact h.1 _ rfl
  · rintro ⟨hne, hfree⟩
    refine ⟨?_, ?_⟩
    · rintro id ⟨⟩
      exact ⟨hne, hfree⟩
    · intro e he hgone
      refine absurd (OrderedMap.mem_assign.mpr (.inr ⟨he, ?_⟩)) hgone
      intro hid
      exact hfree (OrderedMap.mem_keys.mpr ⟨e.2, hid ▸ he⟩)

theorem Follows.sound_iff (h : Follows s a) (op : Op τ) : Sound s op ↔ a.OldGone op := by
  cases op with
  | register callback =>
    rw [sound_register_iff, h.nextId_free_iff callback]
    refine and_iff_right ?_
    rw [h.callbackId_eq, nextId_counter]
    exact idOf_ne_zero _
  | unregister id => exact iff_of_true (sound_of_not_register s fun _ => nofun) trivial
  | call id hasFailed => exact iff_of_true (sound_of_not_register s fun _ => nofun) trivial
  | unregisterIfFail b => exact iff_of_true (sound_of_not_register s fun _ => nofun) trivial

/-- A call that only removes registrations. -/
theorem Follows.of_filter {s' : CallbackCollection τ} {p : Nat × τ → Bool} (h : Follows s a)
    (hid : s'.callbackId = s.callbackId) (hflag : s'.unregisterIfFail = s.unregisterIfFail)
    (hentries : ∀ e, e ∈ s'.callbackCollection.entries ↔ e ∈ s.callbackCollection.entries ∧ p e) :
    Follows s' { a with live := a.live.filter fun d => p (idOf d.1, d.2) } where
  callbackId_eq := hid.trans h.callbackId_eq
  unregisterIfFail_eq := hflag.trans h.unregisterIfFail_eq
  entries_iff e := by
    rw [hentries, h.entries_iff]
    constructor
    · rintro ⟨⟨d, hd, rfl⟩, hp⟩
      exact ⟨d, List.mem_filter.mpr ⟨hd, hp⟩, rfl⟩
    · rintro ⟨d, hd, rfl⟩
      obtain ⟨hd, hp⟩ := List.mem_filter.mp hd
      exact ⟨⟨d, hd, rfl⟩, hp⟩
  live_pos d hd := h.live_pos d (List.mem_filter.mp hd).1
  live_le d hd := h.live_le d (List.mem_filter.mp hd).1
  live_young d hd := h.live_young d (List.mem_filter.mp hd).1

theorem Follows.register (h : Follows s a) (hold : a.OldGone (.register callback)) :
    Follows (step s (.register callback)).1 (a.step (.register callback)) where
  callbackId_eq := by
    have hnext : (step s (.register callback)).1.callbackId = idOf (a.count + 1) := by
      rw [← nextId_counter, ← h.callbackId_eq]
      rfl
    rw [hnext]
    exact (if_neg (Nat.succ_ne_zero a.count)).symm
  unregisterIfFail_eq := h.unregisterIfFail_eq
  entries_iff e := by
    have hfree := (h.nextId_free_iff callback).mpr hold
    have hmem : e ∈ (step s (.register callback)).1.callbackCollection.entries ↔
        e = (nextId s.callbackId, callback) ∨ (e ∈ s.callbackCollection.entries ∧ e.1 ≠ nextId s.callbackId) :=
      OrderedMap.mem_assign
    have hother : (e ∈ s.callbackCollection.entries ∧ e.1 ≠ nextId s.callbackId) ↔
        e ∈ s.callbackCollection.entries := by
      refine and_iff_left_of_imp fun he heq => hfree ?_
      exact OrderedMap.mem_keys.mpr ⟨e.2, heq ▸ he⟩
    rw [hmem, hother, h.entries_iff, h.callbackId_eq, nextId_counter]
    simp only [Registry.step, List.mem_append, List.mem_singleton]
    constructor
    · rintro (rfl | ⟨d, hd, rfl⟩)
      · exact ⟨_, .inr rfl, rfl⟩
      · exact ⟨d, .inl hd, rfl⟩
    · rintro ⟨d, hd | rfl, rfl⟩
      · exact .inr ⟨d, hd, rfl⟩
      · exact .inl rfl
  live_pos d hd := by
    rcases List.mem_append.mp hd with hd | hd
    · exact h.live_pos d hd
    · rw [List.mem_singleton.mp hd]
      exact Nat.le_add_left 1 _
  live_le d hd := by
    rcases List.mem_append.mp hd with hd | hd
    · exact Nat.le_succ_of_le (h.live_le d hd)
    · rw [List.mem_singleton.mp hd]
      exact Nat.le_refl _
  live_young d hd := by
    rcases List.mem_append.mp hd with hd | hd
    · have hyoung := h.live_young d hd
      have hne := hold d hd
      change a.count + 1 < d.1 + period
      omega
    · rw [List.mem_singleton.mp hd]
      exact Nat.lt_add_of_pos_right (by decide)

theorem Follows.unregister {id : Nat} (h : Follows s a) :
    Follows (step s (.unregister id)).1 (a.step (.unregister id)) := by
  refine h.of_filter (p := fun e => id ≠ 0 ∧ id ≠ e.1) ?_ ?_ ?_
  · simp only [step, CallbackCollection.unregister]
    split
    · rfl
    · split <;> rfl
  · simp only [step, CallbackCollection.unregister]
    split
    · rfl
    · split <;> rfl
  · intro e
    rw [decide_eq_true_iff]
    simp only [step, CallbackCollection.unregister]
    by_cases hid : id = 0
    · rw [if_pos hid]
      exact iff_of_false List.not_mem_nil fun he => he.2.1 hid
    · rw [if_neg hid]
      cases hfind : s.callbackCollection.find? id with
      | none =>
        refine (and_iff_left_of_imp fun he => ⟨hid, ?_⟩).symm
        rintro rfl
        exact OrderedMap.find?_eq_none_iff.mp hfind (OrderedMap.mem_keys.mpr ⟨e.2, he⟩)
      | some x =>
        refine OrderedMap.mem_erase.trans (and_congr_right fun _ => ?_)
        exact ⟨fun hne => ⟨hid, hne.symm⟩, fun hne => hne.2.symm⟩

theorem Follows.call {id : Nat} {hasFailed : Nat → τ → Bool} (h : Follows s a) :
    Follows (step s (.call id hasFailed)).1 (a.step (.call id hasFailed)) := by
  rw [Registry.step, ← h.unregisterIfFail_eq]
  have hflag : ({ a with unregisterIfFail := s.unregisterIfFail } : Registry τ) = a := by
    rw [h.unregisterIfFail_eq]
  rw [← hflag] at h
  refine h.of_filter (p := fun e => !((id = 0 ∨ id = e.1) ∧ s.unregisterIfFail ∧ hasFailed e.1 e.2)) ?_ ?_ ?_
  · simp only [step, CallbackCollection.call]
    split
    · rfl
    · split
      · rfl
      · split <;> rfl
  · simp only [step, CallbackCollection.call]
    split
    · rfl
    · split
      · rfl
      · split <;> rfl
  · intro e
    rw [Bool.not_eq_true', decide_eq_false_iff_not]
    simp only [step, CallbackCollection.call]
    by_cases hid : id = 0
    · rw [if_pos hid]
      refine OrderedMap.mem_filter.trans (and_congr_right fun _ => ?_)
      rw [Bool.not_eq_true', Bool.eq_false_iff, ne_eq, Bool.and_eq_true_iff]
      refine not_congr ?_
      exact (and_iff_right (.inl hid)).symm
    · rw [if_neg hid]
      cases hfind : s.callbackCollection.find? id with
      | none =>
        refine (and_iff_left_of_imp ?_).symm
        rintro he ⟨h0 | rfl, -⟩
        · exact hid h0
        · exact OrderedMap.find?_eq_none_iff.mp hfind (OrderedMap.mem_keys.mpr ⟨e.2, he⟩)
      | some x =>
        have hx := OrderedMap.find?_eq_some_iff.mp hfind
        by_cases hfail : (s.unregisterIfFail && hasFailed id x) = true
        · simp only [hfail, if_true]
          refine OrderedMap.mem_erase.trans (and_congr_right fun he => ?_)
          constructor
          · rintro hne ⟨h0 | heq, -⟩
            · exact hid h0
            · exact hne heq.symm
          · rintro hnot rfl
            obtain rfl := OrderedMap.value_unique hx he
            exact hnot ⟨.inr rfl, Bool.and_eq_true_iff.mp hfail⟩
        · simp only [hfail]
          refine (and_iff_left_of_imp ?_).symm
          rintro he ⟨h0 | rfl, hfail'⟩
          · exact hid h0
          · obtain rfl := OrderedMap.value_unique hx he
            exact hfail (Bool.and_eq_true_iff.mpr hfail')

theorem Follows.step (h : Follows s a) (hold : a.OldGone op) :
    Follows (CallbackCollection.step s op).1 (a.step op) := by
  cases op with
  | register callback => exact h.register hold
  | unregister id => exact h.unregister
  | call id hasFailed => exact h.call
  | unregisterIfFail b => exact ⟨h.callbackId_eq, rfl, h.entries_iff, h.live_pos, h.live_le, h.live_young⟩

theorem Follows.meets_iff (h : Follows s a) (ops : List (Op τ)) :
    Meets CallbackCollection.step Sound s ops ↔ Meets Registry.machine Registry.OldGone a ops :=
  meets_iff_meets (R := Follows) (fun _ _ op hfollows => hfollows.sound_iff op)
    (fun _ _ _ hfollows hold => hfollows.step hold) h

/-- No registration is overwritten in a run exactly if no registration stays for `2^32 - 1` registrations. -/
theorem sound_iff_oldGone (ops : List (Op τ)) :
    Meets CallbackCollection.step Sound create ops ↔
      Meets Registry.machine Registry.OldGone Registry.empty ops :=
  follows_create.meets_iff ops

section Lap

/-- Callbacks that are registered and unregistered, the first of them with identifier 2. -/
def laps (n : Nat) : List (Op Unit) := (List.range n).flatMap fun k => [.register (), .unregister (k + 2)]

/-- A callback that stays, while the counter goes round once. -/
def fullTurn : List (Op Unit) := .register () :: (laps (period - 1) ++ [.register ()])

theorem run_laps {n : Nat} (hn : n < period) :
    (run Registry.machine ⟨1, [(1, ())], false⟩ (laps n)).1 = ⟨n + 1, [(1, ())], false⟩ := by
  induction n with
  | zero => rfl
  | succ n ih =>
    have hsplit : laps (n + 1) = laps n ++ [.register (), .unregister (n + 2)] := by
      rw [laps, List.range_succ, List.flatMap_append]
      rfl
    have hfirst : idOf 1 = 1 := rfl
    have hnew : idOf (n + 2) = n + 2 := by
      unfold idOf
      rw [Nat.mod_eq_of_lt (by omega)]
      omega
    rw [hsplit, run_append, ih (Nat.lt_of_succ_lt hn)]
    simp only [run_cons, run_nil, Registry.machine, Registry.step, List.cons_append, List.nil_append]
    rw [List.filter_cons_of_pos, List.filter_cons_of_neg]
    · rfl
    · simp [hnew]
    · simp [hfirst]

/-- A registration is overwritten by the one that comes a full turn of the counter later. -/
theorem not_sound_fullTurn : ¬ Meets CallbackCollection.step Sound create fullTurn := by
  rw [follows_create.meets_iff, fullTurn, meets_cons, meets_append]
  rintro ⟨-, -, hold, -⟩
  have hstate : (run Registry.machine (Registry.machine Registry.empty (.register ())).1 (laps (period - 1))).1 =
      ⟨period - 1 + 1, [(1, ())], false⟩ := run_laps (Nat.sub_lt (by decide) (by decide))
  rw [hstate] at hold
  exact hold (1, ()) (List.mem_singleton.mpr rfl) (by decide)

end Lap

end BofStd.CallbackCollection
