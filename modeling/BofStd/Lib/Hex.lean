import Mathlib.Algebra.Group.Nat.Defs
import Mathlib.Tactic.Basic
import Mathlib.Data.List.Basic
import Mathlib.Data.Option.NAry

/-!
# Hexadecimal text

Characters are bytes. `print a w n` is what `printf` makes of a 32-bit number with the conversion `%0wx`
(`a` is the character of the digit ten, so that it stands for `%0wX` as well), `value` is the value of a
digit of either case, and `decode` reads pairs of digits as bytes. `decode_flatMap_print` is the round trip;
`exists_decode`, `isSome_of_decode` and `getElem?_decode` say which texts are read and as what.
-/

namespace Hex

/-- The character of a digit. -/
def digit (a : UInt8) (n : Nat) : UInt8 :=
  if n < 10 then '0'.toUInt8 + n.toUInt8 else a + (n - 10).toUInt8

/-- The last `k` digits of a number, the most significant one first. -/
def nibbles : Nat → Nat → List Nat
  | 0, _ => []
  | k + 1, n => n / 16 ^ k % 16 :: nibbles k n

/-- The digits of a 32-bit number without leading zeros, filled up with zeros to `w` digits. -/
def print (a : UInt8) (w n : Nat) : List UInt8 :=
  let digits := (nibbles 8 n).dropWhile (· == 0)
  (List.replicate (w - digits.length) 0 ++ digits).map (digit a)

/-- The value of a hexadecimal digit. -/
def value (c : UInt8) : Option Nat :=
  if '0'.toUInt8 ≤ c ∧ c ≤ '9'.toUInt8 then some (c.toNat - '0'.toNat)
  else if 'a'.toUInt8 ≤ c ∧ c ≤ 'f'.toUInt8 then some (c.toNat - 'a'.toNat + 10)
  else if 'A'.toUInt8 ≤ c ∧ c ≤ 'F'.toUInt8 then some (c.toNat - 'A'.toNat + 10)
  else none

/-- The bytes that pairs of digits stand for. -/
def decode : List UInt8 → Option (List UInt8)
  | [] => some []
  | [_] => none
  | h :: l :: cs =>
    Option.map₂ List.cons (Option.map₂ (fun x y => (16 * x + y).toUInt8) (value h) (value l)) (decode cs)

/-- A digit of its own for each power of 16. -/
theorem nibbles_eq (w n : Nat) : nibbles w n = (List.range w).reverse.map fun i => n / 16 ^ i % 16 := by
  induction w with
  | zero => rfl
  | succ w ih => rw [nibbles, ih, List.range_succ, List.reverse_concat, List.map_cons]

/-- The last two digits are those of the lowest byte. -/
theorem nibbles_byte (k : Nat) {b : Nat} (h : b < 256) (v : Nat) :
    nibbles (k + 2) (b + 256 * v) = nibbles k v ++ [b / 16, b % 16] := by
  induction k with
  | zero =>
    simp only [nibbles, List.nil_append, List.cons.injEq, and_true]
    omega
  | succ k ih =>
    have hlow : (b + 256 * v) / 16 ^ 2 = v := by omega
    have hfirst : (b + 256 * v) / 16 ^ (k + 2) = v / 16 ^ k := by
      rw [Nat.add_comm k, Nat.pow_add, ← Nat.div_div_eq_div_mul, hlow]
    rw [nibbles, ih, nibbles, hfirst, List.cons_append]

theorem value_lower : ∀ n < 16, value (digit 'a'.toUInt8 n) = some n := by decide

theorem value_upper : ∀ n < 16, value (digit 'A'.toUInt8 n) = some n := by decide

theorem value_lt {c : UInt8} {n : Nat} (h : value c = some n) : n < 16 := by
  unfold value at h
  split_ifs at h with h1 h2 h3
  · have hle : c.toNat ≤ 57 := UInt8.le_iff_toNat_le.mp h1.2
    rw [← Option.some.inj h]
    show c.toNat - 48 < 16
    omega
  · have hle : c.toNat ≤ 102 := UInt8.le_iff_toNat_le.mp h2.2
    rw [← Option.some.inj h]
    show c.toNat - 97 + 10 < 16
    omega
  · have hle : c.toNat ≤ 70 := UInt8.le_iff_toNat_le.mp h3.2
    rw [← Option.some.inj h]
    show c.toNat - 65 + 10 < 16
    omega

/-- A byte is printed with two digits. -/
theorem print_two (a : UInt8) {n : Nat} (h : n < 256) : print a 2 n = [digit a (n / 16), digit a (n % 16)] := by
  have hdigits : ∀ n < 256, List.replicate (2 - ((nibbles 8 n).dropWhile (· == 0)).length) 0 ++
      (nibbles 8 n).dropWhile (· == 0) = [n / 16, n % 16] := by decide +kernel
  rw [print, hdigits n h]
  rfl

/-- Without a width a byte is printed with the digits that it needs. -/
theorem print_one (a : UInt8) {n : Nat} (h : n < 256) :
    print a 1 n = if n < 16 then [digit a n] else [digit a (n / 16), digit a (n % 16)] := by
  have hdigits : ∀ n < 256, List.replicate (1 - ((nibbles 8 n).dropWhile (· == 0)).length) 0 ++
      (nibbles 8 n).dropWhile (· == 0) = if n < 16 then [n] else [n / 16, n % 16] := by decide +kernel
  rw [print, hdigits n h]
  split
  · rfl
  · rfl

/-- A negative byte is printed as the 32-bit number that it is promoted to. -/
theorem print_negative (a : UInt8) {n : Nat} (h : n < 256) :
    print a 1 (0xFFFFFF00 + n) = List.replicate 6 (digit a 15) ++ [digit a (n / 16), digit a (n % 16)] := by
  have hnibbles : nibbles 8 (0xFFFFFF00 + n) = [15, 15, 15, 15, 15, 15, n / 16, n % 16] := by
    simp only [nibbles, List.cons.injEq, and_true]
    omega
  rw [print, hnibbles]
  rfl

theorem decode_cons {h l : UInt8} {x y : Nat} (hx : value h = some x) (hy : value l = some y) (cs : List UInt8) :
    decode (h :: l :: cs) = (decode cs).map fun bs => (16 * x + y).toUInt8 :: bs := by
  rw [decode, hx, hy]
  rfl

/-- Reading what has been printed; the digits may be of either case. -/
theorem decode_flatMap_print {a : UInt8} (ha : ∀ n < 16, value (digit a n) = some n) (bs : List UInt8) :
    decode (bs.flatMap fun b => print a 2 b.toNat) = some bs := by
  induction bs with
  | nil => rfl
  | cons b bs ih =>
    have hlt := b.toNat_lt
    have hhigh := ha (b.toNat / 16) (by omega)
    have hlow := ha (b.toNat % 16) (Nat.mod_lt _ (by omega))
    have hbyte : (16 * (b.toNat / 16) + b.toNat % 16).toUInt8 = b := by
      rw [Nat.div_add_mod]
      exact UInt8.ofNat_toNat
    rw [List.flatMap_cons, print_two a hlt, List.cons_append, List.cons_append, List.nil_append,
      decode_cons hhigh hlow, ih, Option.map_some, hbyte]

/-- What is read from a text that is accepted. -/
theorem decode_cons_eq_some {h l : UInt8} {cs bs : List UInt8} (hd : decode (h :: l :: cs) = some bs) :
    ∃ x y bs', value h = some x ∧ value l = some y ∧ decode cs = some bs' ∧
      bs = (16 * x + y).toUInt8 :: bs' := by
  obtain ⟨b, bs', hbyte, hcs, rfl⟩ := Option.map₂_eq_some_iff.mp hd
  obtain ⟨x, y, hx, hy, rfl⟩ := Option.map₂_eq_some_iff.mp hbyte
  exact ⟨x, y, bs', hx, hy, hcs, rfl⟩

/-- A text that is accepted has two digits for each byte. -/
theorem length_of_decode {cs bs : List UInt8} (hd : decode cs = some bs) : cs.length = 2 * bs.length := by
  induction cs using decode.induct generalizing bs with
  | case1 =>
    obtain rfl := Option.some.inj hd
    rfl
  | case2 c => exact nomatch hd
  | case3 h l cs ih =>
    obtain ⟨x, y, bs', -, -, hcs, rfl⟩ := decode_cons_eq_some hd
    rw [List.length_cons, List.length_cons, List.length_cons, ih hcs]
    omega

/-- All its characters are digits. -/
theorem isSome_of_decode {cs bs : List UInt8} (hd : decode cs = some bs) : ∀ c ∈ cs, (value c).isSome := by
  induction cs using decode.induct generalizing bs with
  | case1 => exact fun c hc => nomatch hc
  | case2 c => exact nomatch hd
  | case3 h l cs ih =>
    obtain ⟨x, y, bs', hx, hy, hcs, -⟩ := decode_cons_eq_some hd
    rw [List.forall_mem_cons, List.forall_mem_cons, hx, hy]
    exact ⟨rfl, rfl, ih hcs⟩

/-- Texts of pairs of digits are accepted. -/
theorem exists_decode {cs : List UInt8} (hlen : cs.length % 2 = 0) (hc : ∀ c ∈ cs, (value c).isSome) :
    ∃ bs, decode cs = some bs := by
  induction cs using decode.induct with
  | case1 => exact ⟨[], rfl⟩
  | case2 c => exact nomatch hlen
  | case3 h l cs ih =>
    rw [List.forall_mem_cons, List.forall_mem_cons] at hc
    obtain ⟨hh, hl, hcs⟩ := hc
    obtain ⟨x, hx⟩ := Option.isSome_iff_exists.mp hh
    obtain ⟨y, hy⟩ := Option.isSome_iff_exists.mp hl
    rw [List.length_cons, List.length_cons] at hlen
    obtain ⟨bs, hbs⟩ := ih (by omega) hcs
    exact ⟨_, by rw [decode_cons hx hy, hbs, Option.map_some]⟩

/-- The byte that is read at a place. -/
theorem getElem?_decode {cs bs : List UInt8} (hd : decode cs = some bs) {i : Nat} (hi : i < bs.length) :
    ∃ h l x y, cs[2 * i]? = some h ∧ cs[2 * i + 1]? = some l ∧ value h = some x ∧ value l = some y ∧
      bs[i] = (16 * x + y).toUInt8 := by
  induction cs using decode.induct generalizing bs i with
  | case1 =>
    obtain rfl := Option.some.inj hd
    exact absurd hi (Nat.not_lt_zero i)
  | case2 c => exact nomatch hd
  | case3 h l cs ih =>
    obtain ⟨x, y, bs', hx, hy, hcs, rfl⟩ := decode_cons_eq_some hd
    cases i with
    | zero => exact ⟨h, l, x, y, rfl, rfl, hx, hy, rfl⟩
    | succ i => exact ih hcs (Nat.lt_of_succ_lt_succ hi)

end Hex
