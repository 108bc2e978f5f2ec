import BofStd.Guid

/-!
# Parsing and printing GUIDs

The loop of the parser is compared with `Hex.decode` on the text without dashes: it ends behind the last
byte exactly when sixteen bytes are decoded.
-/

namespace BofStd.Guid

variable {c h l : UInt8} {x y : Nat} {cs s bs : List UInt8} {v w : Scan}

/-! ## Characters -/

theorem isValidHexChar_eq (c : UInt8) : isValidHexChar c = (Hex.value c).isSome := by
  unfold isValidHexChar Hex.value
  simp only [ge_iff_le]
  split_ifs
  · rfl
  · rfl
  · rfl
  · rfl

theorem sub_eq_toUInt8 {a : UInt8} (h : a ≤ c) : c - a = (c.toNat - a.toNat).toUInt8 := by
  apply UInt8.toNat_inj.mp
  have hlt : c.toNat - a.toNat < UInt8.size := Nat.lt_of_le_of_lt (Nat.sub_le _ _) c.toNat_lt
  rw [UInt8.toNat_sub_of_le _ _ h, Nat.toUInt8_eq, UInt8.toNat_ofNat_of_lt' hlt]

theorem hexDigitToChar_eq (hc : Hex.value c = some x) : hexDigitToChar c = x.toUInt8 := by
  unfold Hex.value at hc
  unfold hexDigitToChar
  simp only [ge_iff_le]
  split_ifs at hc ⊢ with h1 h2 h3
  · obtain rfl := Option.some.inj hc
    exact sub_eq_toUInt8 h1.1
  · obtain rfl := Option.some.inj hc
    rw [sub_eq_toUInt8 h2.1, Nat.toUInt8_eq, Nat.toUInt8_eq, UInt8.ofNat_add]
    rfl
  · obtain rfl := Option.some.inj hc
    rw [sub_eq_toUInt8 h3.1, Nat.toUInt8_eq, Nat.toUInt8_eq, UInt8.ofNat_add]
    rfl

theorem hexPairToChar_eq (hx : Hex.value h = some x) (hy : Hex.value l = some y) :
    hexPairToChar h l = (16 * x + y).toUInt8 := by
  rw [hexPairToChar, hexDigitToChar_eq hx, hexDigitToChar_eq hy, Nat.toUInt8_eq, Nat.toUInt8_eq, Nat.toUInt8_eq,
    UInt8.ofNat_add, UInt8.ofNat_mul, UInt8.mul_comm]
  rfl

theorem ne_dash (hc : (Hex.value c).isSome) : c ≠ '-'.toUInt8 := by
  rintro rfl
  exact nomatch hc

/-! ## The loop -/

/-- The loop does not see the dashes. -/
theorem scan_digits (s : List UInt8) (v : Scan) : scan s v = scan (digits s) v := by
  induction s generalizing v with
  | nil => rfl
  | cons c s ih =>
    by_cases hc : c = '-'.toUInt8
    · have hdigits : digits (c :: s) = digits s := List.filter_cons_of_neg (by simp [hc])
      rw [hdigits, ← ih, scan, if_pos hc]
    · have hdigits : digits (c :: s) = c :: digits s := List.filter_cons_of_pos (by simp [hc])
      rw [hdigits, scan, scan, if_neg hc, if_neg hc, ih, ih]

/-- A character that ends the loop. -/
theorem scan_of_bad (hc : c ≠ '-'.toUInt8) (hbad : v.index ≥ 16 ∨ ¬ isValidHexChar c) :
    scan (c :: cs) v = (false, v) := by
  rw [scan, if_neg hc, if_pos hbad]

/-- The first digit of a byte. -/
theorem scan_first (hindex : v.index < 16) (hlook : v.lookingForFirstChar = true) (hc : (Hex.value c).isSome) :
    scan (c :: cs) v = scan cs { v with one := c, lookingForFirstChar := false } := by
  have hgood : ¬ (v.index ≥ 16 ∨ ¬ isValidHexChar c) := by
    rw [isValidHexChar_eq, hc]
    simp [hindex]
  rw [scan, if_neg (ne_dash hc), if_neg hgood, if_pos hlook]

/-- The second digit. -/
theorem scan_second (hindex : v.index < 16) (hlook : v.lookingForFirstChar = false)
    (hc : (Hex.value c).isSome) :
    scan (c :: cs) v = scan cs
      { v with
        lookingForFirstChar := true
        index := v.index + 1
        bytes := v.bytes.setIfInBounds v.index (hexPairToChar v.one c) } := by
  have hgood : ¬ (v.index ≥ 16 ∨ ¬ isValidHexChar c) := by
    rw [isValidHexChar_eq, hc]
    simp [hindex]
  rw [scan, if_neg (ne_dash hc), if_neg hgood, if_neg (by rw [hlook]; exact Bool.false_ne_true)]

/-- Two digits are stored as one byte. -/
theorem scan_pair (hindex : v.index < 16) (hlook : v.lookingForFirstChar = true) (hx : Hex.value h = some x)
    (hy : Hex.value l = some y) :
    scan (h :: l :: cs) v = scan cs
      ⟨h, true, v.index + 1, v.bytes.setIfInBounds v.index (16 * x + y).toUInt8⟩ := by
  have hhex : (Hex.value h).isSome := by rw [hx]; rfl
  have hhex' : (Hex.value l).isSome := by rw [hy]; rfl
  rw [scan_first hindex hlook hhex, scan_second (v := ⟨h, false, v.index, v.bytes⟩) hindex rfl hhex', hexPairToChar_eq hx hy]

/-- Sixteen bytes altogether are stored one after the other. -/
theorem scan_of_decode (hlook : v.lookingForFirstChar = true) (hd : Hex.decode cs = some bs)
    (hlen : v.index + bs.length = 16) :
    ∃ w, scan cs v = (true, w) ∧ w.index = 16 ∧ w.bytes.toList = v.bytes.toList.take v.index ++ bs := by
  induction cs using Hex.decode.induct generalizing v bs with
  | case1 =>
    obtain rfl := Option.some.inj hd
    refine ⟨v, rfl, hlen, ?_⟩
    rw [List.append_nil, List.take_of_length_le]
    rw [Vector.length_toList]
    exact Nat.le_of_eq hlen.symm
  | case2 c => cases hd
  | case3 h l cs ih =>
    obtain ⟨x, y, bs', hx, hy, hcs, rfl⟩ := Hex.decode_cons_eq_some hd
    rw [List.length_cons] at hlen
    have hindex : v.index < 16 := by omega
    rw [scan_pair hindex hlook hx hy]
    obtain ⟨w, hscan, hw, hbytes⟩ := ih (v := ⟨h, true, v.index + 1,
      v.bytes.setIfInBounds v.index (16 * x + y).toUInt8⟩) rfl hcs (by simp only; omega)
    refine ⟨w, hscan, hw, ?_⟩
    have hlt : v.index < v.bytes.toList.length := by rwa [Vector.length_toList]
    rw [hbytes, Vector.toList_setIfInBounds, List.take_add_one, List.getElem?_set_self hlt, List.take_set_of_le (Nat.le_refl _),
      List.append_assoc]
    rfl

/-- Otherwise the loop breaks, or it ends too early. -/
theorem exists_decode_of_scan (hlook : v.lookingForFirstChar = true) (hv : v.index ≤ 16)
    (hdash : ∀ c ∈ cs, c ≠ '-'.toUInt8) (hscan : scan cs v = (true, w)) (hw : 16 ≤ w.index) :
    ∃ bs, Hex.decode cs = some bs ∧ v.index + bs.length = 16 := by
  induction cs using Hex.decode.induct generalizing v with
  | case1 =>
    obtain rfl : v = w := congrArg Prod.snd hscan
    exact ⟨[], rfl, Nat.le_antisymm hv hw⟩
  | case2 c =>
    exfalso
    have hc := hdash c List.mem_cons_self
    by_cases hbad : v.index ≥ 16 ∨ ¬ isValidHexChar c
    · rw [scan_of_bad hc hbad] at hscan
      cases hscan
    · rw [scan, if_neg hc, if_neg hbad, if_pos hlook] at hscan
      obtain rfl := congrArg Prod.snd hscan
      exact hbad (.inl hw)
  | case3 h l cs ih =>
    rw [List.forall_mem_cons, List.forall_mem_cons] at hdash
    obtain ⟨hh, hl, hcs⟩ := hdash
    by_cases hbad : v.index ≥ 16 ∨ ¬ isValidHexChar h
    · rw [scan_of_bad hh hbad] at hscan
      cases hscan
    · rw [isValidHexChar_eq, not_or, Nat.not_le, not_not] at hbad
      obtain ⟨hindex, hhex⟩ := hbad
      obtain ⟨x, hx⟩ := Option.isSome_iff_exists.mp hhex
      by_cases hlhex : (Hex.value l).isSome
      · obtain ⟨y, hy⟩ := Option.isSome_iff_exists.mp hlhex
        rw [scan_pair hindex hlook hx hy] at hscan
        obtain ⟨bs, hbs, hlen⟩ := ih rfl (Nat.succ_le_of_lt hindex) hcs hscan
        refine ⟨_, by rw [Hex.decode_cons hx hy, hbs, Option.map_some], ?_⟩
        simp only at hlen
        rw [List.length_cons]
        omega
      · rw [scan_first hindex hlook hhex, scan_of_bad hl (.inr (by rwa [isValidHexChar_eq]))] at hscan
        cases hscan

/-! ## The parser -/

theorem fromString_of_decode (g : Guid) (hd : Hex.decode (digits s) = some bs) (hlen : bs.length = 16) :
    ∃ g', g.fromString s = (g', true) ∧ g'.bytes.toList = bs := by
  obtain ⟨w, hscan, hw, hbytes⟩ := scan_of_decode (v := ⟨0, true, 0, g.bytes⟩) rfl hd ((Nat.zero_add _).trans hlen)
  refine ⟨⟨w.bytes⟩, ?_, hbytes⟩
  rw [fromString, scan_digits, hscan]
  simp [hw]

theorem fromString_of_not (g : Guid) (hd : ¬ ∃ bs, Hex.decode (digits s) = some bs ∧ bs.length = 16) :
    g.fromString s = (clear, false) := by
  rw [fromString, scan_digits]
  generalize hscan : scan (digits s) ⟨0, true, 0, g.bytes⟩ = r
  obtain ⟨ok, w⟩ := r
  by_cases hw : w.index < 16
  · simp [hw]
  · cases ok with
    | false => simp
    | true =>
      have hdash : ∀ c ∈ digits s, c ≠ '-'.toUInt8 := fun c hc => of_decide_eq_true (List.mem_filter.mp hc).2
      obtain ⟨bs, hbs, hlen⟩ := exists_decode_of_scan rfl (Nat.zero_le 16) hdash hscan (Nat.le_of_not_lt hw)
      exact absurd ⟨bs, hbs, (Nat.zero_add _).symm.trans hlen⟩ hd

theorem denotes_iff (s : List UInt8) : Denotes s ↔ ∃ bs, Hex.decode (digits s) = some bs ∧ bs.length = 16 := by
  constructor
  · intro ⟨hlen, hhex⟩
    obtain ⟨bs, hbs⟩ := Hex.exists_decode (by rw [hlen]) hhex
    have hlen' := Hex.length_of_decode hbs
    exact ⟨bs, hbs, by omega⟩
  · intro ⟨bs, hbs, hlen⟩
    exact ⟨by rw [Hex.length_of_decode hbs, hlen], Hex.isSome_of_decode hbs⟩

theorem parses (g : Guid) (s : List UInt8) : Parses g s := by
  unfold Parses
  by_cases hs : Denotes s
  · obtain ⟨bs, hbs, hlen⟩ := (denotes_iff s).mp hs
    obtain ⟨g', hparse, hbytes⟩ := fromString_of_decode g hbs hlen
    rw [hparse]
    refine ⟨⟨fun _ => hs, fun _ => rfl⟩, ?_, fun hn => absurd hs hn⟩
    intro _ i hi
    subst hbytes
    have hlt : i < g'.bytes.toList.length := by rwa [Vector.length_toList]
    obtain ⟨h, l, x, y, hh, hl, hx, hy, hbyte⟩ := Hex.getElem?_decode hbs hlt
    have hx16 := Hex.value_lt hx
    have hy16 := Hex.value_lt hy
    rw [Vector.getElem_toList] at hbyte
    refine ⟨h, l, x, y, hh, hl, hx, hy, ?_⟩
    rw [hbyte, Nat.toUInt8_eq, UInt8.toNat_ofNat_of_lt']
    show 16 * x + y < 256
    omega
  · rw [fromString_of_not g (fun hd => hs ((denotes_iff s).mpr hd))]
    exact ⟨⟨fun hf => absurd hf Bool.false_ne_true, fun hd => absurd hd hs⟩, fun hd => absurd hd hs, fun _ => rfl⟩

/-! ## The printed forms -/

/-- The printed form without dashes. -/
def hexText (g : Guid) (a : UInt8) : List UInt8 := g.bytes.toList.flatMap fun b => Hex.print a 2 b.toNat

theorem decode_hexText (g : Guid) {a : UInt8} (ha : ∀ n < 16, Hex.value (Hex.digit a n) = some n) :
    Hex.decode (g.hexText a) = some g.bytes.toList := Hex.decode_flatMap_print ha _

/-- The five parts are printed one after the other. -/
theorem printBytes_append (g : Guid) :
    g.printBytes 0 4 ++ (g.printBytes 4 2 ++ (g.printBytes 6 2 ++ (g.printBytes 8 2 ++ g.printBytes 10 6))) =
      g.hexText 'a'.toUInt8 := by
  have hlast : (g.bytes.toList.drop 10).take 6 = g.bytes.toList.drop 10 := by
    have hlen : (g.bytes.toList.drop 10).length = 6 := by rw [List.length_drop, Vector.length_toList]
    exact List.take_of_length_le (Nat.le_of_eq hlen)
  have hcut : ∀ (l : List UInt8) (i n : Nat), (l.drop i).take n ++ l.drop (i + n) = l.drop i := by
    intro l i n
    rw [← List.drop_drop, List.take_append_drop]
  simp only [printBytes, ← List.flatMap_append, hlast]
  rw [hcut _ 8 2, hcut _ 6 2, hcut _ 4 2, hcut _ 0 4, List.drop_zero]
  rfl

theorem digits_hexText (g : Guid) {a : UInt8} (ha : ∀ n < 16, Hex.value (Hex.digit a n) = some n) :
    digits (g.hexText a) = g.hexText a := by
  unfold digits
  rw [List.filter_eq_self]
  intro c hc
  exact decide_eq_true (ne_dash (Hex.isSome_of_decode (g.decode_hexText ha) c hc))

theorem dash_notMem_printBytes (g : Guid) (i n : Nat) : ∀ c ∈ g.printBytes i n, c ≠ '-'.toUInt8 := by
  intro c hc
  exact ne_dash (Hex.isSome_of_decode (Hex.decode_flatMap_print Hex.value_lower _) c hc)

theorem digits_printBytes (g : Guid) (i n : Nat) : digits (g.printBytes i n) = g.printBytes i n := by
  unfold digits
  rw [List.filter_eq_self]
  intro c hc
  exact decide_eq_true (g.dash_notMem_printBytes i n c hc)

theorem stringToUpper_hexText (g : Guid) : stringToUpper (g.hexText 'a'.toUInt8) = g.hexText 'A'.toUInt8 := by
  have hdigit : ∀ n < 16, toUpper (Hex.digit 'a'.toUInt8 n) = Hex.digit 'A'.toUInt8 n := by decide
  rw [stringToUpper, hexText, List.map_flatMap]
  unfold hexText
  congr 1
  funext b
  have hlt := b.toNat_lt
  rw [Hex.print_two _ hlt, Hex.print_two _ hlt, List.map_cons, List.map_cons, List.map_nil, hdigit _ (by omega),
    hdigit _ (Nat.mod_lt _ (by omega))]

/-- The digits of both forms, in lower and in upper case. -/
theorem digits_toString (g : Guid) (canonical : Bool) :
    digits (g.toString canonical) = g.hexText (if canonical then 'a'.toUInt8 else 'A'.toUInt8) := by
  cases canonical with
  | true =>
    have happend : ∀ a b : List UInt8, digits (a ++ b) = digits a ++ digits b := fun a b => List.filter_append ..
    have hdash : digits ['-'.toUInt8] = [] := rfl
    simp only [toString, if_true, happend, hdash, digits_printBytes, List.nil_append, List.append_assoc,
      printBytes_append]
  | false =>
    simp only [toString, Bool.false_eq_true, if_false, List.append_assoc, printBytes_append, stringToUpper_hexText]
    exact g.digits_hexText Hex.value_upper

/-- What has been printed is read back, whatever the GUID held before. -/
theorem fromString_toString (g g' : Guid) (canonical : Bool) : g'.fromString (g.toString canonical) = (g, true) := by
  have hd : Hex.decode (digits (g.toString canonical)) = some g.bytes.toList := by
    rw [digits_toString]
    cases canonical with
    | true => exact g.decode_hexText Hex.value_lower
    | false => exact g.decode_hexText Hex.value_upper
  obtain ⟨r, hparse, hbytes⟩ := fromString_of_decode g' hd Vector.length_toList
  have hr : r = g := congrArg Guid.mk (Vector.toList_inj.mp hbytes)
  rw [hparse, hr]

/-- Printing and parsing agree, and the parser accepts exactly the texts of 32 digits. -/
theorem fromString_exact :
    (∀ (g g' : Guid) (canonical : Bool), g'.fromString (g.toString canonical) = (g, true)) ∧
      ∀ (g : Guid) (s : List UInt8), Parses g s :=
  ⟨fromString_toString, parses⟩

end BofStd.Guid
