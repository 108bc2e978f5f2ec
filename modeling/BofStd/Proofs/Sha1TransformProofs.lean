import BofStd.Sha1Transform

/-!
# The unrolled transformation is the standard one

Three computations step by step: the calls on working variables in changing roles, the operations that move
their operands (`op`), and the steps of the standard. A call is an operation on the variables seen through
their roles; an operation is a step of the standard as long as the block holds the last sixteen words of the
message schedule.
-/

namespace BofStd

namespace Sha1

/-! ## Calls and operations -/

/-- The variable in role `k` of call `t`: the roles move on by one variable after each call. -/
def role (k t : Nat) : Var := [Var.a, .b, .c, .d, .e].getD ((k + 4 * t) % 5) .a

/-- The function of call `t`. -/
def fnAt (t : Nat) : Fn :=
  if t < 16 then .r0 else if t < 20 then .r1 else if t < 40 then .r2 else if t < 60 then .r3 else .r4

/-- Call `t`. -/
def callAt (t : Nat) : Call := ⟨fnAt t, role 0 t, role 1 t, role 2 t, role 3 t, role 4 t, t % 16⟩

theorem calls_eq : calls = (List.range 80).map callAt := by decide

theorem role_mod (k t : Nat) : role k (t % 5) = role k t := by
  rw [role, role, show (k + 4 * (t % 5)) % 5 = (k + 4 * t) % 5 by omega]

theorem role_succ (k t : Nat) : role (k + 1) (t + 1) = role k t := by
  rw [role, role, show (k + 1 + 4 * (t + 1)) % 5 = (k + 4 * t) % 5 by omega]

theorem role_zero_succ (t : Nat) : role 0 (t + 1) = role 4 t := by
  rw [role, role, show (0 + 4 * (t + 1)) % 5 = (4 + 4 * t) % 5 by omega]

/-- Two roles are never held by one variable. -/
theorem role_ne {j k : Nat} (hj : j < 5) (hk : k < 5) (h : j ≠ k) (t : Nat) : role j t ≠ role k t := by
  have hall : ∀ t < 5, ∀ j < 5, ∀ k < 5, j ≠ k → role j t ≠ role k t := by decide
  rw [← role_mod j, ← role_mod k]
  exact hall _ (Nat.mod_lt _ (by omega)) j hj k hk h

/-- The working variables in the order of their roles in call `t`. -/
def view (t : Nat) (s : Work) : Digest :=
  ⟨s.var (role 0 t), s.var (role 1 t), s.var (role 2 t), s.var (role 3 t), s.var (role 4 t)⟩

/-- What a call does to the working variables. -/
theorem view_accumulate (f : UInt32 → UInt32 → UInt32 → UInt32) (k : UInt32) (s : Work) (t i : Nat) :
    view (t + 1) (accumulate f k s (role 0 t) (role 1 t) (role 2 t) (role 3 t) (role 4 t) i) =
      ⟨(view t s).e + (f (view t s).b (view t s).c (view t s).d + s.block.getD i 0 + k + rol (view t s).a 5),
        (view t s).a, rol (view t s).b 30, (view t s).c, (view t s).d⟩ := by
  have h01 := role_ne (j := 0) (k := 1) (by omega) (by omega) (by omega) t
  have h04 := role_ne (j := 0) (k := 4) (by omega) (by omega) (by omega) t
  have h14 := role_ne (j := 1) (k := 4) (by omega) (by omega) (by omega) t
  have h21 := role_ne (j := 2) (k := 1) (by omega) (by omega) (by omega) t
  have h24 := role_ne (j := 2) (k := 4) (by omega) (by omega) (by omega) t
  have h31 := role_ne (j := 3) (k := 1) (by omega) (by omega) (by omega) t
  have h34 := role_ne (j := 3) (k := 4) (by omega) (by omega) (by omega) t
  simp [view, accumulate, role_succ, role_zero_succ, h01, h04, h14, h14.symm, h21, h24, h31, h34]

/-- The function of call `t` with what `op` knows of it. -/
theorem apply_fnAt (s : Work) (v w x y z : Var) (t i : Nat) :
    (fnAt t).apply s v w x y z i =
      accumulate (fun w x y => (mix t w x y).1) (mix t 0 0 0).2 (if t < 16 then s else extend s i) v w x y z i := by
  by_cases h16 : t < 16
  · have h20 : t < 20 := by omega
    simp only [fnAt, mix, if_pos h16, if_pos h20]
    rfl
  · by_cases h20 : t < 20
    · simp only [fnAt, mix, if_neg h16, if_pos h20]
      rfl
    · by_cases h40 : t < 40
      · simp only [fnAt, mix, if_neg h16, if_neg h20, if_pos h40]
        rfl
      · by_cases h60 : t < 60
        · simp only [fnAt, mix, if_neg h16, if_neg h20, if_neg h40, if_pos h60]
          rfl
        · simp only [fnAt, mix, if_neg h16, if_neg h20, if_neg h40, if_neg h60]
          rfl

/-- The constant of an operation does not depend on the words. -/
theorem mix_snd (t : Nat) (w x y : UInt32) : (mix t w x y).2 = (mix t 0 0 0).2 := by
  unfold mix
  split
  · rfl
  · split
    · rfl
    · split <;> rfl

/-- A call is an operation on the variables in the order of their roles. -/
theorem exec_callAt (s : Work) (t : Nat) :
    (view (t + 1) (Call.exec s (callAt t)), (Call.exec s (callAt t)).block) = op (view t s, s.block) t := by
  have hcall : Call.exec s (callAt t) = accumulate (fun w x y => (mix t w x y).1) (mix t 0 0 0).2
      (if t < 16 then s else extend s (t % 16)) (role 0 t) (role 1 t) (role 2 t) (role 3 t) (role 4 t) (t % 16) :=
    apply_fnAt s _ _ _ _ _ t _
  rw [hcall, view_accumulate]
  simp only [op, mix_snd t (view t s).b]
  split
  · rfl
  · rfl

/-- The first `n` calls. -/
theorem foldl_exec (s : Work) (n : Nat) :
    (view n (((List.range n).map callAt).foldl Call.exec s), (((List.range n).map callAt).foldl Call.exec s).block) =
      (List.range n).foldl op (view 0 s, s.block) := by
  induction n with
  | zero => rfl
  | succ n ih =>
    rw [List.range_succ, List.map_append, List.foldl_append, List.foldl_append, ← ih]
    exact exec_callAt _ n

/-- The unrolled calls do what the loop over the operations does. -/
theorem sTransform_eq (digest : Digest) (block : List UInt32) (transforms : Nat) :
    sTransform digest block transforms =
      ((transform digest block).1, (transform digest block).2, (transforms + 1) % 2 ^ 64) := by
  have hfold := foldl_exec ⟨load digest, block⟩ 80
  rw [← calls_eq, Prod.ext_iff] at hfold
  obtain ⟨hview, hblock⟩ := hfold
  have hload : view 0 ⟨load digest, block⟩ = digest := rfl
  rw [hload] at hview hblock
  simp only [sTransform, transform, ← hview, ← hblock]
  rfl

/-! ## Operations and steps of the standard -/

/-- Before operation `t` the block holds sixteen consecutive words of the message schedule, up to the last one that
was used. -/
def Window (m : Nat → UInt32) (t : Nat) (block : List UInt32) : Prop :=
  block.length = 16 ∧ ∀ j < max t 16, max t 16 ≤ j + 16 → block.getD (j % 16) 0 = Fips180.schedule m j

theorem rol_one (x : UInt32) : rol x 1 = Fips180.rotl 1 x :=
  Fips180.shiftLeft_or_shiftRight_eq_rotl (n := 1) (by decide) (by decide) x

theorem rol_five (x : UInt32) : rol x 5 = Fips180.rotl 5 x :=
  Fips180.shiftLeft_or_shiftRight_eq_rotl (n := 5) (by decide) (by decide) x

theorem rol_thirty (x : UInt32) : rol x 30 = Fips180.rotl 30 x :=
  Fips180.shiftLeft_or_shiftRight_eq_rotl (n := 30) (by decide) (by decide) x

/-- The functions and constants of the operations are those of the standard. -/
theorem mix_eq (t : Nat) (w x y : UInt32) : mix t w x y = (Fips180.fn t w x y, Fips180.constant t) := by
  by_cases h20 : t < 20
  · have h19 : t ≤ 19 := by omega
    simp only [mix, Fips180.fn, Fips180.constant, if_pos h20, if_pos h19, Fips180.xor_and_xor_eq_ch]
  · have h19 : ¬ t ≤ 19 := by omega
    by_cases h40 : t < 40
    · have h39 : t ≤ 39 := by omega
      simp only [mix, Fips180.fn, Fips180.constant, if_neg h20, if_neg h19, if_pos h40, if_pos h39, Fips180.parity]
    · have h39 : ¬ t ≤ 39 := by omega
      by_cases h60 : t < 60
      · have h59 : t ≤ 59 := by omega
        simp only [mix, Fips180.fn, Fips180.constant, if_neg h20, if_neg h19, if_neg h40, if_neg h39, if_pos h60,
          if_pos h59, Fips180.or_and_or_and_eq_maj]
      · have h59 : ¬ t ≤ 59 := by omega
        simp only [mix, Fips180.fn, Fips180.constant, if_neg h20, if_neg h19, if_neg h40, if_neg h39, if_neg h60,
          if_neg h59, Fips180.parity]

/-- The next word of the schedule from the words in the block. -/
theorem Window.blk_eq {m : Nat → UInt32} {t : Nat} {block : List UInt32} (h : Window m t block) (ht : 16 ≤ t) :
    blk block (t % 16) = Fips180.schedule m t := by
  have hword : ∀ n, 0 < n → n ≤ 16 → block.getD ((t + (16 - n)) % 16) 0 = Fips180.schedule m (t - n) := by
    intro n h0 hn
    have hn' := h.2 (t - n) (by omega) (by omega)
    rwa [show (t - n) % 16 = (t + (16 - n)) % 16 by omega] at hn'
  have hand : ∀ n, n &&& 15 = n % 16 := fun n => Nat.and_two_pow_sub_one_eq_mod n 4
  have h3 := hword 3 (by omega) (by omega)
  have h8 := hword 8 (by omega) (by omega)
  have h14 := hword 14 (by omega) (by omega)
  have h16 := hword 16 (by omega) (by omega)
  rw [blk, hand, hand, hand, rol_one, Fips180.schedule_of_lt (by omega), ← h3, ← h8, ← h14, ← h16,
    Nat.mod_add_mod, Nat.mod_add_mod, Nat.mod_add_mod]
  rfl

/-- The first sixteen operations leave the block as it is. -/
theorem Window.keep {m : Nat → UInt32} {t : Nat} {block : List UInt32} (h : Window m t block) (ht : t < 16) :
    Window m (t + 1) block := by
  obtain ⟨hlen, hword⟩ := h
  rw [Nat.max_eq_right (by omega)] at hword
  refine ⟨hlen, ?_⟩
  rw [Nat.max_eq_right (by omega)]
  exact hword

/-- The other operations replace the oldest word by the next one. -/
theorem Window.set {m : Nat → UInt32} {t : Nat} {block : List UInt32} (h : Window m t block) (ht : 16 ≤ t) :
    Window m (t + 1) (block.set (t % 16) (blk block (t % 16))) := by
  have hnew := h.blk_eq ht
  obtain ⟨hlen, hword⟩ := h
  rw [Nat.max_eq_left ht] at hword
  refine ⟨by rw [List.length_set, hlen], fun j hj hj' => ?_⟩
  rw [Nat.max_eq_left (by omega)] at hj hj'
  by_cases hjt : j = t
  · rw [hjt, hnew, List.getD_eq_getElem?_getD, List.getElem?_set_self (by omega), Option.getD_some]
  · rw [← hword j (by omega) (by omega), List.getD_eq_getElem?_getD, List.getD_eq_getElem?_getD,
      List.getElem?_set_ne (by omega)]

/-- The block after an operation, and the word that the operation uses. -/
theorem Window.op {m : Nat → UInt32} {t : Nat} {block : List UInt32} (h : Window m t block) (d : Digest) :
    Window m (t + 1) (op (d, block) t).2 ∧ (op (d, block) t).2.getD (t % 16) 0 = Fips180.schedule m t := by
  have hnext : Window m (t + 1) (Sha1.op (d, block) t).2 := by
    by_cases ht : t < 16
    · simp only [Sha1.op, if_pos ht]
      exact h.keep ht
    · simp only [Sha1.op, if_neg ht]
      exact h.set (by omega)
  exact ⟨hnext, hnext.2 t (by omega) (by omega)⟩

/-- An operation is a step of the standard. -/
theorem hash_op {m : Nat → UInt32} {t : Nat} {block : List UInt32} (h : Window m t block) (d : Digest) :
    (op (d, block) t).1.hash = Fips180.step d.hash t (Fips180.schedule m t) := by
  rw [← (h.op d).2]
  obtain ⟨v, w, x, y, z⟩ := d
  simp only [Sha1.op, Digest.hash, Fips180.step, mix_eq, rol_five, rol_thirty, Fips180.Hash.mk.injEq, and_true]
  ac_rfl

/-- The first `n` operations. -/
theorem foldl_op {m : Nat → UInt32} {block : List UInt32} (h : Window m 0 block) (d : Digest) (n : Nat) :
    Window m n ((List.range n).foldl op (d, block)).2 ∧ ((List.range n).foldl op (d, block)).1.hash =
      (List.range n).foldl (fun s t => Fips180.step s t (Fips180.schedule m t)) d.hash := by
  induction n with
  | zero => exact ⟨h, rfl⟩
  | succ n ih =>
    obtain ⟨hw, hh⟩ := ih
    rw [List.range_succ, List.foldl_append, List.foldl_append, ← hh]
    exact ⟨(hw.op _).1, hash_op hw _⟩

/-- A block before the first operation. -/
theorem window_zero (block : Vector UInt32 16) : Window (fun t => block.toList.getD t 0) 0 block.toList := by
  refine ⟨by simp, fun j hj _ => ?_⟩
  rw [Nat.zero_max] at hj
  rw [Fips180.schedule_of_le (by omega), Nat.mod_eq_of_lt hj]

/-- The eighty unrolled calls compute the compression of the standard. -/
theorem sTransform_eq_compress (digest : Digest) (block : Vector UInt32 16) (transforms : Nat) :
    (sTransform digest block.toList transforms).1.hash =
      Fips180.compress digest.hash fun t => block.toList.getD t 0 := by
  have hfold := (foldl_op (window_zero block) digest 80).2
  simp only [Fips180.compress]
  rw [sTransform_eq, ← hfold]
  simp only [transform, Digest.hash, Fips180.Hash.mk.injEq]
  exact ⟨UInt32.add_comm _ _, UInt32.add_comm _ _, UInt32.add_comm _ _, UInt32.add_comm _ _, UInt32.add_comm _ _⟩

end Sha1

end BofStd
