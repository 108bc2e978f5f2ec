import Mathlib.Algebra.Order.Group.Unbundled.Int
import Mathlib.Data.Int.ModEq
import BofStd.SocketAddressSpec
import BofStd.Proofs.BinSerializerProofs

/-!
# `BOF_SOCKET_ADDRESS`: which binary forms round-trip

A word that is stored after `htons` or `htonl` has its bytes in network order on either CPU (`store_htons`), and a
word that is loaded and converted has the bytes as its digits (`htons_load`). So `Set` writes the four words in network
order and `Parse` reads them. `Bof_BinToSocketAddress` stores without `htons`, which swaps the bytes of every word
on a little-endian CPU (`store_htons_load`).
-/

namespace BofStd

open Bytes

variable {cpu : CpuEndianness}

/-! ## Network order -/

theorem cpuToBe_lt (cpu : CpuEndianness) {w v : Nat} (h : v < 256 ^ w) : cpu.cpuToBe w v < 256 ^ w := by
  unfold CpuEndianness.cpuToBe
  cases cpu.isCpuLittleEndian with
  | false => exact h
  | true =>
    rw [endianScalar_true h]
    exact bswap_lt w v

theorem store_cpuToBe (cpu : CpuEndianness) {w v : Nat} (h : v < 256 ^ w) :
    cpu.store w (cpu.cpuToBe w v) = (bytesLE w v).reverse :=
  store_toStream ⟨cpu, .isBigEndian⟩ h

theorem cpuToBe_load (cpu : CpuEndianness) {w v : Nat} (h : v < 256 ^ w) :
    cpu.cpuToBe w (cpu.load (bytesLE w v).reverse) = v :=
  ofStream_load ⟨cpu, .isBigEndian⟩ h

theorem toNat_htons (cpu : CpuEndianness) (v : UInt16) : (cpu.htons v).toNat = cpu.cpuToBe 2 v.toNat :=
  UInt16.toNat_ofNat_of_lt' (cpuToBe_lt cpu (w := 2) v.toNat_lt)

theorem store_htons (cpu : CpuEndianness) (v : UInt16) :
    cpu.store 2 (cpu.htons v).toNat = (bytesLE 2 v.toNat).reverse := by
  rw [toNat_htons]
  exact store_cpuToBe cpu v.toNat_lt

theorem htons_htons (cpu : CpuEndianness) (v : UInt16) : cpu.htons (cpu.htons v) = v := by
  have hv : v.toNat < 256 ^ 2 := v.toNat_lt
  have h := cpuToBe_load cpu hv
  rw [← store_cpuToBe cpu hv, cpu.load_store (cpuToBe_lt cpu hv)] at h
  apply UInt16.toNat_inj.mp
  rw [toNat_htons, toNat_htons, h]

theorem htonl_load (cpu : CpuEndianness) (v : UInt32) :
    cpu.htonl (UInt32.ofNat (cpu.load (bytesLE 4 v.toNat).reverse)) = v := by
  have hv : v.toNat < 256 ^ 4 := v.toNat_lt
  have hlt : cpu.load (bytesLE 4 v.toNat).reverse < 2 ^ 32 := by
    rw [← store_cpuToBe cpu hv, cpu.load_store (cpuToBe_lt cpu hv)]
    exact cpuToBe_lt cpu hv
  rw [CpuEndianness.htonl, UInt32.toNat_ofNat_of_lt' hlt, cpuToBe_load cpu hv, UInt32.ofNat_toNat]

/-- A word in network order is its upper half and its lower half. -/
theorem halves (x : UInt32) :
    (bytesLE 2 (x >>> 16).toUInt16.toNat).reverse ++ (bytesLE 2 x.toUInt16.toNat).reverse =
      (bytesLE 4 x.toNat).reverse := by
  have hhigh : (x >>> 16).toUInt16.toNat = x.toNat / 256 ^ 2 % 256 ^ 2 := by
    rw [UInt32.toNat_toUInt16, UInt32.toNat_shiftRight, Nat.shiftRight_eq_div_pow]
    rfl
  have hlow : x.toUInt16.toNat = x.toNat % 256 ^ 2 := UInt32.toNat_toUInt16 x
  rw [hhigh, hlow, bytesLE_mod, bytesLE_mod, bytesLE_add 2 2, List.reverse_append]

namespace SocketAddress

/-! ## `Set` and `Parse` -/

variable {old a : SocketAddress} {socketType : SockType} {port : UInt16}

/-- The eight stores of `Set` put the four words in network order. -/
theorem set_bytes (ip1 ip2 ip3 ip4 : UInt32) :
    (old.set cpu true socketType ip1 ip2 ip3 ip4 port).IpV6Address_X.sin6_addr.bytes =
      (bytesLE 4 ip1.toNat).reverse ++ ((bytesLE 4 ip2.toNat).reverse ++
        ((bytesLE 4 ip3.toNat).reverse ++ (bytesLE 4 ip4.toNat).reverse)) := by
  rw [← halves ip1, ← halves ip2, ← halves ip3, ← halves ip4]
  cases socketType with
  | unknown | tcp | udp =>
    show List.flatMap _ [_, _, _, _, _, _, _, _] = _
    simp only [List.flatMap_cons, List.flatMap_nil, store_htons, List.append_assoc, List.append_nil]

theorem set_socketType (ipV6 : Bool) (ip1 ip2 ip3 ip4 : UInt32) :
    (old.set cpu ipV6 socketType ip1 ip2 ip3 ip4 port).SocketType_E = socketType := by
  cases ipV6 with
  | false | true => cases socketType <;> rfl

theorem set_ipV6 (ipV6 : Bool) (ip1 ip2 ip3 ip4 : UInt32) :
    (old.set cpu ipV6 socketType ip1 ip2 ip3 ip4 port).IpV6_B = ipV6 := by
  cases ipV6 with
  | false | true => cases socketType <;> rfl

theorem parse_set_v6 (ip1 ip2 ip3 ip4 : UInt32) :
    (old.set cpu true socketType ip1 ip2 ip3 ip4 port).parse cpu = (socketType, [ip1, ip2, ip3, ip4], port) := by
  have hbytes : (old.set cpu true socketType ip1 ip2 ip3 ip4 port).IpV6Address_X.sin6_addr.bytes = _ :=
    set_bytes ip1 ip2 ip3 ip4
  have hport : (old.set cpu true socketType ip1 ip2 ip3 ip4 port).IpV6Address_X.sin6_port = cpu.htons port := by
    cases socketType <;> rfl
  rw [parse, if_pos (set_ipV6 ..), set_socketType, hport, htons_htons]
  generalize old.set cpu true socketType ip1 ip2 ip3 ip4 port = b at hbytes
  have hword : ∀ i (ip : UInt32), (b.IpV6Address_X.sin6_addr.bytes.drop (4 * i)).take 4 = (bytesLE 4 ip.toNat).reverse →
      cpu.htonl (b.IpV6Address_X.sin6_addr.u32 cpu i) = ip := by
    intro i ip h
    rw [InAddr.u32, h, htonl_load]
  -- the four words are apart
  have h0 := hword 0 ip1 (by rw [hbytes]; rfl)
  have h1 := hword 1 ip2 (by rw [hbytes]; rfl)
  have h2 := hword 2 ip3 (by rw [hbytes]; rfl)
  have h3 := hword 3 ip4 (by rw [hbytes]; rfl)
  show (_, [cpu.htonl _, cpu.htonl _, cpu.htonl _, cpu.htonl _], _) = _
  rw [h0, h1, h2, h3]

theorem parse_set_v4 (ip1 ip2 ip3 ip4 : UInt8) :
    (old.set cpu false socketType ip1.toUInt32 ip2.toUInt32 ip3.toUInt32 ip4.toUInt32 port).parse cpu =
      (socketType, [ip1.toUInt32, ip2.toUInt32, ip3.toUInt32, ip4.toUInt32], port) := by
  have haddr : (old.set cpu false socketType ip1.toUInt32 ip2.toUInt32 ip3.toUInt32 ip4.toUInt32 port).IpV4Address_X =
      ⟨.inet, cpu.htons port, ⟨[ip1.toUInt32.toUInt8, ip2.toUInt32.toUInt8, ip3.toUInt32.toUInt8, ip4.toUInt32.toUInt8],
        rfl⟩⟩ := by
    cases socketType <;> rfl
  rw [parse, if_neg (by rw [set_ipV6]; decide), set_socketType, haddr, htons_htons]
  simp

theorem parse_set (ip : IpWords) :
    (ip.set cpu old socketType port).parse cpu = (socketType, ip.words, port) := by
  cases ip with
  | v4 ip1 ip2 ip3 ip4 => exact parse_set_v4 ip1 ip2 ip3 ip4
  | v6 ip1 ip2 ip3 ip4 => exact parse_set_v6 ip1 ip2 ip3 ip4

/-! ## The binary form -/

/-- A list that is put together from pairs. -/
theorem flatMap_pair_eq_iff {β : Type} {n : Nat} {f g : Nat → β} {l : List β} (h : l.length = 2 * n) :
    ((List.range n).flatMap fun i => [f i, g i]) = l ↔
      ∀ i < n, l[2 * i]? = some (f i) ∧ l[2 * i + 1]? = some (g i) := by
  induction n generalizing f g l with
  | zero => exact iff_of_true (List.length_eq_zero_iff.mp h).symm nofun
  | succ n ih =>
    match l, h with
    | x :: y :: l, h =>
      have hlen : l.length = 2 * n := by
        simp only [List.length_cons] at h
        omega
      rw [List.range_succ_eq_map, List.flatMap_cons, List.flatMap_map, List.cons_append, List.cons_append,
        List.nil_append, List.cons.injEq, List.cons.injEq, ih hlen, Nat.forall_lt_succ_left, and_assoc]
      refine and_congr (Iff.trans ?_ Option.some_inj.symm) (and_congr (Iff.trans ?_ Option.some_inj.symm) Iff.rfl)
      · exact eq_comm
      · exact eq_comm

/-- The two bytes of a 16-bit word. -/
theorem take_drop_eq_pair {l : List UInt8} {i : Nat} (h : 2 * i + 1 < l.length) :
    (l.drop (2 * i)).take 2 = [l.getD (2 * i) 0, l.getD (2 * i + 1) 0] := by
  rw [List.drop_eq_getElem_cons (by omega), List.drop_eq_getElem_cons h, List.getD_eq_getElem?_getD,
    List.getD_eq_getElem?_getD, List.getElem?_eq_getElem h, List.getElem?_eq_getElem (by omega)]
  rfl

/-- Without `htons` before the store the bytes of a word are swapped on a little-endian CPU. -/
theorem store_htons_load (x y : UInt8) :
    cpu.store 2 (cpu.htons (UInt16.ofNat (cpu.load [x, y]))).toNat =
      if cpu = .big then [x, y] else [y, x] := by
  have hdigits : ∀ z t : UInt8, (bytesLE 2 (UInt16.ofNat (valueLE [z, t])).toNat).reverse = [t, z] := by
    intro z t
    have hlt : valueLE [z, t] < 256 ^ 2 := valueLE_lt [z, t]
    rw [UInt16.toNat_ofNat_of_lt' hlt]
    exact congrArg List.reverse (bytesLE_valueLE [z, t])
  rw [store_htons]
  cases cpu with
  | big => exact hdigits y x
  | little => exact hdigits x y

theorem bin_v4 {b : SocketAddress} (ha : a.IpV6_B = false) (hb : b.IpV6_B = false) :
    ∃ b', b.binToSocketAddress cpu (a.socketAddressToBin cpu []).1 = some (b', .noError) ∧ b'.address = a.address := by
  have hbin : (a.socketAddressToBin cpu []).1 = a.IpV4Address_X.sin_addr.bytes.map UInt8.toUInt16 := by
    rw [socketAddressToBin, if_neg (ne_true_of_eq_false ha)]
    rfl
  have hlen : (a.socketAddressToBin cpu []).1.length = 4 := by
    rw [hbin, List.length_map, InAddr.length_eq]
  have hbytes : ((a.socketAddressToBin cpu []).1.take 4).map UInt16.toUInt8 = a.IpV4Address_X.sin_addr.bytes := by
    rw [List.take_of_length_le hlen.le, hbin, List.map_map]
    exact List.map_id'' (fun x => UInt8.toUInt8_toUInt16 x) _
  rw [binToSocketAddress, if_neg (ne_true_of_eq_false hb), dif_pos hlen.ge]
  refine ⟨_, rfl, ?_⟩
  rw [address, if_neg (ne_true_of_eq_false hb), address, if_neg (ne_true_of_eq_false ha)]
  exact hbytes

/-- The address that comes back. -/
theorem bin_v6 {b : SocketAddress} (ha : a.IpV6_B = true) (hb : b.IpV6_B = true) :
    ∃ b', b.binToSocketAddress cpu (a.socketAddressToBin cpu []).1 = some (b', .noError) ∧
      b'.address = (List.range 8).flatMap fun i =>
        if cpu = .big then [a.address.getD (2 * i) 0, a.address.getD (2 * i + 1) 0]
        else [a.address.getD (2 * i + 1) 0, a.address.getD (2 * i) 0] := by
  have haddr : a.address = a.IpV6Address_X.sin6_addr.bytes := if_pos ha
  have hbin : (a.socketAddressToBin cpu []).1 =
      (List.range 8).map fun i => cpu.htons (a.IpV6Address_X.sin6_addr.u16 cpu i) := by
    rw [socketAddressToBin, if_pos ha]
    rfl
  have hlen : (a.socketAddressToBin cpu []).1.length = 8 := by
    rw [hbin, List.length_map, List.length_range]
  rw [binToSocketAddress, if_pos hb, dif_pos hlen.ge]
  refine ⟨_, rfl, ?_⟩
  rw [address, if_pos hb]
  show ((a.socketAddressToBin cpu []).1.take 8).flatMap (fun v => cpu.store 2 v.toNat) = _
  rw [List.take_of_length_le hlen.le, hbin, List.flatMap_map]
  refine List.flatMap_congr fun i hi => ?_
  have hin : 2 * i + 1 < a.IpV6Address_X.sin6_addr.bytes.length := by
    rw [InAddr.length_eq]
    have h8 := List.mem_range.mp hi
    omega
  rw [InAddr.u16, take_drop_eq_pair hin, store_htons_load, haddr]

theorem getElem?_eq_some_getD {l : List UInt8} {i : Nat} (h : i < l.length) : l[i]? = some (l.getD i 0) := by
  rw [List.getD_eq_getElem?_getD, List.getElem?_eq_getElem h, Option.getD_some]

/-- The binary forms of a socket address round-trip exactly if the address has four bytes, the CPU is big-endian or
the two bytes of every 16-bit word of the address are the same. -/
theorem roundTrips_iff (cpu : CpuEndianness) (old : SocketAddress) (ip : IpWords) (socketType : SockType)
    (port : UInt16) (a : SocketAddress) :
    RoundTrips cpu old ip socketType port a ↔ a.IpV6_B = false ∨ cpu = .big ∨ Palindromic a.address := by
  have hbin : (∀ b : SocketAddress, b.IpV6_B = a.IpV6_B →
      ∃ b', b.binToSocketAddress cpu (a.socketAddressToBin cpu []).1 = some (b', .noError) ∧ b'.address = a.address) ↔
        a.IpV6_B = false ∨ cpu = .big ∨ Palindromic a.address := by
    obtain ha | ha := Bool.eq_false_or_eq_true a.IpV6_B
    · have hlen : a.address.length = 2 * 8 := by
        rw [address, if_pos ha, InAddr.length_eq]
      have hget : ∀ j < 16, a.address[j]? = some (a.address.getD j 0) := fun j hj =>
        getElem?_eq_some_getD (lt_of_lt_of_eq hj hlen.symm)
      rw [or_iff_right (by rw [ha]; decide)]
      cases cpu with
      | big =>
        refine iff_of_true (fun b hb => ?_) (.inl rfl)
        obtain ⟨b', heq, haddr⟩ := @bin_v6 .big a b ha (hb.trans ha)
        refine ⟨b', heq, haddr.trans ((flatMap_pair_eq_iff hlen).mpr fun i hi => ?_)⟩
        exact ⟨hget _ (by omega), hget _ (by omega)⟩
      | little =>
        rw [or_iff_right (by decide)]
        have hswap : ((List.range 8).flatMap fun i => [a.address.getD (2 * i + 1) 0, a.address.getD (2 * i) 0]) =
            a.address ↔ Palindromic a.address := by
          rw [flatMap_pair_eq_iff hlen]
          refine forall₂_congr fun i hi => ?_
          rw [hget (2 * i) (by omega), hget (2 * i + 1) (by omega)]
          exact ⟨And.left, fun h => ⟨h, h.symm⟩⟩
        rw [← hswap]
        constructor
        · intro h
          obtain ⟨b', heq, haddr⟩ := @bin_v6 .little a a ha ha
          obtain ⟨b'', heq', hsame⟩ := h a rfl
          obtain ⟨rfl, -⟩ := Prod.mk.inj (Option.some.inj (heq.symm.trans heq'))
          exact haddr.symm.trans hsame
        · intro hsame b hb
          obtain ⟨b', heq, haddr⟩ := @bin_v6 .little a b ha (hb.trans ha)
          exact ⟨b', heq, haddr.trans hsame⟩
    · exact iff_of_true (fun b hb => bin_v4 ha (hb.trans ha)) (.inl ha)
  exact ⟨fun h => hbin.mp h.bin, fun h => ⟨parse_set ip, hbin.mpr h⟩⟩

/-- The IPv6 address `2001:db8::1`. -/
def documentation : SocketAddress where
  IpV6_B := true
  Protocol_S := ""
  SocketType_E := .unknown
  IpV4Address_X := ⟨.unspec, 0, ⟨[0, 0, 0, 0], rfl⟩⟩
  IpV6Address_X := ⟨.inet6, 0, 0, 0, ⟨[0x20, 0x01, 0x0d, 0xb8, 0, 0, 0, 0, 0, 0, 0, 0, 0, 0, 0, 1], rfl⟩⟩

/-- `2001:db8::1` comes back as `120:b80d::100` on a little-endian CPU. -/
theorem not_roundTrips_documentation :
    ¬RoundTrips .little documentation (.v6 0 0 0 1) .tcp 80 documentation := by
  intro h
  obtain ⟨b', heq, hsame⟩ := h.bin documentation rfl
  obtain rfl := (Prod.mk.inj (Option.some.inj heq)).1
  exact absurd hsame (by decide)

end SocketAddress

end BofStd

/-!
# `Inc`: which increments add up

A group that rolls over hands the whole increment on to the next one. So the groups behind the last one get the sum of
the increments that reach them (`inc_congr`), and two ways to increment an address agree only if the same increments
reach every group (`sum_eq`).
-/

namespace BofStd

namespace SocketAddress

variable {B n m v w : Int} {rest : List Int}

/-! ## Groups of numbers -/

/-- The loop on the values. -/
def addGroups (B n : Int) (groups : List Int) : List Int := incLoop id id B n groups

theorem addGroups_cons (B n v : Int) (rest : List Int) : addGroups B n (v :: rest) =
    wrap B (v + n) :: if Inner B (v + n) then rest else addGroups B n rest := by
  by_cases hhigh : B ≤ v + n
  · have hout : ¬ Inner B (v + n) := fun h => absurd h.2 (by omega)
    simp [addGroups, incLoop, wrap, hhigh, hout]
  · by_cases hlow : v + n ≤ 0
    · have hout : ¬ Inner B (v + n) := fun h => absurd h.1 (by omega)
      simp [addGroups, incLoop, wrap, hhigh, hlow, hout]
    · have hin : Inner B (v + n) := ⟨by omega, by omega⟩
      simp [addGroups, incLoop, wrap, hhigh, hlow, hin]

/-- The loop on any groups is the loop on their values. -/
theorem map_incLoop {γ : Type} {load : γ → Int} {store : Int → γ} (hload : ∀ g, 0 ≤ load g ∧ load g ≤ B + 1)
    (hstore : ∀ x, 0 ≤ x → x ≤ B + 1 → load (store x) = x) (hn : Accepts B n) (groups : List γ) :
    (incLoop load store B n groups).map load = addGroups B n (groups.map load) := by
  obtain ⟨hlow, hhigh⟩ := hn
  induction groups with
  | nil => rfl
  | cons g groups ih =>
    obtain ⟨hg0, hg1⟩ := hload g
    unfold addGroups at ih ⊢
    simp only [incLoop, List.map_cons, id]
    split_ifs with hover hunder
    · rw [List.map_cons, ih, hstore _ (by omega) (by omega)]
    · rw [List.map_cons, ih, hstore _ (by omega) (by omega)]
    · rw [List.map_cons, hstore _ (by omega) (by omega)]

/-! ## The increments that reach a group -/

/-- The first group has changed by `s` modulo the base. -/
def Shifted (B s : Int) (groups groups' : List Int) : Prop :=
  ∃ v rest v' rest', groups = v :: rest ∧ groups' = v' :: rest' ∧ v' ≡ v + s [ZMOD B]

theorem shifted_refl (B v : Int) (rest : List Int) : Shifted B 0 (v :: rest) (v :: rest) :=
  ⟨v, rest, v, rest, rfl, rfl, by rw [Int.add_zero]⟩

theorem wrap_modEq (B v : Int) : wrap B v ≡ v [ZMOD B] := by
  unfold wrap
  split_ifs with hhigh hlow
  · exact Int.sub_emod_right v B
  · exact Int.add_emod_right v B
  · rfl

theorem Shifted.add {s : Int} {groups groups' : List Int} (h : Shifted B s groups groups') (n : Int) :
    Shifted B (s + n) groups (addGroups B n groups') := by
  obtain ⟨v, rest, v', rest', rfl, rfl, hmod⟩ := h
  rw [addGroups_cons]
  refine ⟨v, rest, _, _, rfl, rfl, (wrap_modEq B (v' + n)).trans ?_⟩
  rw [← Int.add_assoc]
  exact hmod.add_right n

/-- Equal results come from equal sums. -/
theorem sum_eq {s t : Int} {groups groups' : List Int} (hs : Shifted B s groups groups')
    (ht : Shifted B t groups groups') (hlow : -B < s - t) (hhigh : s - t < B) : s = t := by
  obtain ⟨v, rest, v', rest', rfl, rfl, hmod⟩ := hs
  obtain ⟨w, _, w', _, h1, h2, hmod'⟩ := ht
  obtain ⟨rfl, -⟩ := List.cons.inj h1
  obtain ⟨rfl, -⟩ := List.cons.inj h2
  have hst : t ≡ s [ZMOD B] := Int.ModEq.add_left_cancel' v (hmod'.symm.trans hmod)
  have hzero : s - t = 0 := Int.eq_zero_of_abs_lt_dvd hst.dvd (abs_lt.mpr ⟨hlow, hhigh⟩)
  omega

/-- The increment that reaches the groups behind a group with the value `v`. -/
def carry (B n v : Int) : Int := if Inner B v then 0 else n

theorem Shifted.carry {s : Int} {groups groups' : List Int} (h : Shifted B s groups groups') (n v : Int) :
    Shifted B (s + carry B n v) groups (if Inner B v then groups' else addGroups B n groups') := by
  unfold SocketAddress.carry
  split_ifs with hin
  · rwa [Int.add_zero]
  · exact h.add n

/-! ## The laws on groups of numbers -/

theorem wrap_of_inner (h : Inner B v) : wrap B v = v := by
  rw [wrap, if_neg (Int.not_le.mpr h.2), if_neg (by have := h.1; omega)]

theorem inner_of_wrap (hB : 2 ≤ B) (h : wrap B v = v) : Inner B v := by
  unfold wrap at h
  split_ifs at h with hhigh hlow
  · omega
  · omega
  · exact ⟨by omega, by omega⟩

theorem addGroups_of_inner (h : Inner B (v + n)) : addGroups B n (v :: rest) = (v + n) :: rest := by
  rw [addGroups_cons, wrap_of_inner h, if_pos h]

/-- An increment of 0 leaves the groups alone exactly if the last one is inside. -/
theorem addGroups_zero_iff (hB : 2 ≤ B) : addGroups B 0 (v :: rest) = v :: rest ↔ Inner B v := by
  constructor
  · intro h
    rw [addGroups_cons, Int.add_zero] at h
    exact inner_of_wrap hB (List.cons.inj h).1
  · intro h
    rw [addGroups_of_inner (by rwa [Int.add_zero]), Int.add_zero]

/-- If increments add up, the last groups agree, and the same increments reach the groups behind it. -/
theorem carry_of_add (hrest : rest ≠ []) (hs : SameSign n m) (hnm : Accepts B (n + m))
    (h : addGroups B m (addGroups B n (v :: rest)) = addGroups B (n + m) (v :: rest)) :
    wrap B (wrap B (v + n) + m) = wrap B (v + (n + m)) ∧
      carry B n (v + n) + carry B m (wrap B (v + n) + m) = carry B (n + m) (v + (n + m)) := by
  obtain ⟨w, rest, rfl⟩ := List.exists_cons_of_ne_nil hrest
  obtain ⟨hlow, hhigh⟩ := hnm
  rw [addGroups_cons B n v, addGroups_cons, addGroups_cons B (n + m) v] at h
  obtain ⟨hhead, htail⟩ := List.cons.inj h
  have hleft := ((shifted_refl B w rest).carry n (v + n)).carry m (wrap B (v + n) + m)
  have hright := (shifted_refl B w rest).carry (n + m) (v + (n + m))
  rw [htail] at hleft
  refine ⟨hhead, ?_⟩
  have hsum := sum_eq hleft hright
    (by unfold carry; rcases hs with hs | hs <;> split_ifs <;> omega)
    (by unfold carry; rcases hs with hs | hs <;> split_ifs <;> omega)
  omega

/-- The last group of an increment that reverts has rolled over and back, or stays inside. -/
theorem reverts_iff (hB : 2 ≤ B) (groups : List Int) (hgroups : ∀ v ∈ groups, 0 ≤ v ∧ v ≤ B + 1) :
    addGroups B (-n) (addGroups B n groups) = groups ↔ Reverts B n groups := by
  induction groups with
  | nil => exact ⟨fun _ => trivial, fun _ => rfl⟩
  | cons v rest ih =>
    obtain ⟨⟨hv0, hv1⟩, hrest⟩ := List.forall_mem_cons.mp hgroups
    rw [Reverts, ← ih hrest]
    by_cases hin : Inner B (v + n)
    · have hover : ¬ (B ≤ v + n ∧ v ≤ B ∨ v + n ≤ 0) := by
        obtain ⟨h1, h2⟩ := hin
        omega
      rw [addGroups_of_inner hin, addGroups_cons, Int.add_neg_cancel_right]
      simp only [hin, and_true, hover, false_and, or_false]
      constructor
      · intro h
        exact inner_of_wrap hB (List.cons.inj h).1
      · intro h
        rw [wrap_of_inner h, if_pos h]
    · simp only [hin, and_false, false_or]
      rw [addGroups_cons B n v, if_neg hin, addGroups_cons]
      by_cases hback : B ≤ v + n ∧ v ≤ B ∨ v + n ≤ 0
      · -- the group rolls over forth and back
        have hwrap : wrap B (wrap B (v + n) + -n) = v ∧ ¬ Inner B (wrap B (v + n) + -n) := by
          unfold wrap Inner
          split_ifs <;> omega
        rw [hwrap.1, if_neg hwrap.2, List.cons.injEq]
        simp [hback]
      · -- it rolls over, but not back
        have hwrap : wrap B (wrap B (v + n) + -n) ≠ v := by
          unfold Inner at hin
          unfold wrap
          split_ifs <;> omega
        simp [hback, hwrap]

/-- The laws hold exactly if the last group stays inside. -/
theorem laws_iff (hB : 2 ≤ B) (hrest : rest ≠ []) (hgroups : ∀ w ∈ v :: rest, 0 ≤ w ∧ w ≤ B + 1)
    (hn : Accepts B n) (hm : Accepts B m) (hnm : Accepts B (n + m)) (hs : SameSign n m) :
    addGroups B m (addGroups B n (v :: rest)) = addGroups B (n + m) (v :: rest) ∧
        addGroups B (-n) (addGroups B n (v :: rest)) = v :: rest ↔ StaysInside B n m (v :: rest) := by
  obtain ⟨hv0, hv1⟩ := hgroups v List.mem_cons_self
  unfold Accepts at hn hm hnm
  rw [StaysInside]
  by_cases hn0 : n = 0
  · subst hn0
    rw [if_pos rfl, Int.neg_zero, Int.zero_add]
    constructor
    · rintro ⟨hadd, hneg⟩
      by_cases hm0 : m = 0
      · subst hm0
        rw [hadd] at hneg
        exact (addGroups_zero_iff hB).mp hneg
      · -- an increment of 0 that rolls over is followed by another one than the sum
        obtain ⟨hhead, hcarry⟩ := carry_of_add hrest hs (by unfold Accepts; omega)
          (by rwa [Int.zero_add])
        by_contra hin
        unfold Inner at hin
        unfold carry Inner at hcarry
        unfold wrap at hhead hcarry
        split_ifs at hhead hcarry <;> omega
    · intro hin
      rw [(addGroups_zero_iff hB).mpr hin]
      exact ⟨rfl, (addGroups_zero_iff hB).mpr hin⟩
  · rw [if_neg hn0]
    by_cases hm0 : m = 0
    · subst hm0
      rw [if_pos rfl, Int.add_zero, reverts_iff hB _ hgroups, addGroups_cons, addGroups_zero_iff hB]
    · rw [if_neg hm0]
      constructor
      · rintro ⟨hadd, hneg⟩
        obtain ⟨hhead, hcarry⟩ := carry_of_add hrest hs hnm hadd
        have hinside : Inner B (v + n) ∧ Inner B (v + n + m) := by
          unfold carry at hcarry
          unfold Inner at hcarry ⊢
          unfold wrap at hhead hcarry
          unfold SameSign at hs
          split_ifs at hhead hcarry <;> omega
        rw [addGroups_of_inner hinside.1, addGroups_cons, Int.add_neg_cancel_right] at hneg
        exact ⟨inner_of_wrap hB (List.cons.inj hneg).1, hinside.2⟩
      · rintro ⟨hv, hvnm⟩
        have hvn : Inner B (v + n) := by
          unfold Inner at hv hvnm ⊢
          unfold SameSign at hs
          omega
        rw [addGroups_of_inner hvn, addGroups_of_inner hvnm, addGroups_of_inner (n := n + m) (by rwa [← Int.add_assoc]),
          addGroups_of_inner (by rwa [Int.add_neg_cancel_right]), Int.add_neg_cancel_right, Int.add_assoc]
        exact ⟨rfl, rfl⟩

/-- The laws on any groups are those on their values. -/
theorem loop_laws_iff {γ : Type} {load : γ → Int} {store : Int → γ} {groups : List γ} (hB : 2 ≤ B)
    (hload : ∀ g, 0 ≤ load g ∧ load g ≤ B + 1) (hstore : ∀ x, 0 ≤ x → x ≤ B + 1 → load (store x) = x)
    (hinj : Function.Injective load) (hlen : 2 ≤ groups.length) (hn : Accepts B n) (hm : Accepts B m)
    (hnm : Accepts B (n + m)) (hs : SameSign n m) :
    incLoop load store B m (incLoop load store B n groups) = incLoop load store B (n + m) groups ∧
        incLoop load store B (-n) (incLoop load store B n groups) = groups ↔
      StaysInside B n m (groups.map load) := by
  have hneg : Accepts B (-n) := by
    unfold Accepts at hn ⊢
    omega
  have hvalues : ∀ w ∈ groups.map load, 0 ≤ w ∧ w ≤ B + 1 := by
    intro w hw
    obtain ⟨g, -, rfl⟩ := List.mem_map.mp hw
    exact hload g
  rw [← (List.map_injective_iff.mpr hinj).eq_iff, ← (List.map_injective_iff.mpr hinj).eq_iff,
    map_incLoop hload hstore hm, map_incLoop hload hstore hn, map_incLoop hload hstore hnm,
    map_incLoop hload hstore hneg, map_incLoop hload hstore hn]
  match groups, hlen with
  | g :: g' :: groups, _ =>
    exact laws_iff hB (by rw [List.map_cons]; exact List.cons_ne_nil _ _) hvalues hn hm hnm hs

/-! ## Addresses -/

variable {cpu : CpuEndianness} {a : SocketAddress}

/-- An IPv4 address with other bytes. -/
def withV4 (a : SocketAddress) (bytes : InAddr 4) : SocketAddress :=
  { a with IpV4Address_X := { a.IpV4Address_X with sin_addr := bytes } }

/-- An IPv6 address with other bytes. -/
def withV6 (a : SocketAddress) (bytes : InAddr 16) : SocketAddress :=
  { a with IpV6Address_X := { a.IpV6Address_X with sin6_addr := bytes } }

theorem withV4_inj {x y : InAddr 4} : a.withV4 x = a.withV4 y ↔ x = y := by
  refine ⟨fun h => ?_, congrArg _⟩
  exact congrArg (fun b : SocketAddress => b.IpV4Address_X.sin_addr) h

theorem withV6_inj {x y : InAddr 16} : a.withV6 x = a.withV6 y ↔ x = y := by
  refine ⟨fun h => ?_, congrArg _⟩
  exact congrArg (fun b : SocketAddress => b.IpV6Address_X.sin6_addr) h

/-- `Inc` on the bytes of an IPv4 address, from the last one on. -/
abbrev incV4 (n : Int) (bytes : List UInt8) : List UInt8 := incLoop (fun g => (g.toNat : Int)) UInt8.ofInt 0xFE n bytes

/-- `Inc` on the words of an IPv6 address, from the last one on. -/
abbrev incV6 (cpu : CpuEndianness) (n : Int) (words : List UInt16) : List UInt16 :=
  incLoop (fun g => ((cpu.htons g).toNat : Int)) (fun v => cpu.htons (UInt16.ofInt v)) 0xFFFE n words

theorem length_incV4 {bytes : List UInt8} {k : Nat} (h : bytes.length = k) (n : Int) :
    (incV4 n bytes).reverse.length = k := by
  rw [List.length_reverse, length_incLoop, h]

theorem length_incV6 {words : List UInt16} {k : Nat} (h : words.length = k) (n : Int) :
    (incV6 cpu n words).reverse.length = k := by
  rw [List.length_reverse, length_incLoop, h]

theorem inc_v4 {bytes : List UInt8} (ha : a.IpV6_B = false) (hlen : bytes.reverse.length = 4) (hn : Accepts 0xFE n) :
    (a.withV4 ⟨bytes.reverse, hlen⟩).inc cpu n =
      a.withV4 ⟨(incV4 n bytes).reverse, length_incV4 (bytes.length_reverse.symm.trans hlen) n⟩ := by
  unfold Accepts at hn
  unfold inc
  have hfamily : (a.withV4 ⟨bytes.reverse, hlen⟩).IpV6_B = false := ha
  rw [if_neg (ne_true_of_eq_false hfamily), if_pos hn]
  refine withV4_inj.mpr (InAddr.ext ?_)
  show (incV4 n bytes.reverse.reverse).reverse = _
  rw [List.reverse_reverse]

theorem words_storeU16 (cpu : CpuEndianness) {k : Nat} (words : List UInt16) (h : words.length = k) :
    ((List.range k).map fun i => (InAddr.storeU16 cpu words h).u16 cpu i) = words := by
  induction words generalizing k with
  | nil =>
    obtain rfl : k = 0 := h.symm
    rfl
  | cons w words ih =>
    obtain rfl : k = words.length + 1 := h.symm
    have hlen : (cpu.store 2 w.toNat).length = 2 := cpu.length_store 2 w.toNat
    rw [List.range_succ_eq_map, List.map_cons, List.map_map]
    congr 1
    · show UInt16.ofNat (cpu.load (((cpu.store 2 w.toNat ++ _).drop 0).take 2)) = w
      rw [List.drop_zero, List.take_left' hlen, cpu.load_store w.toNat_lt, UInt16.ofNat_toNat]
    · refine Eq.trans (List.map_congr_left fun i _ => ?_) (ih rfl)
      show UInt16.ofNat (cpu.load (((cpu.store 2 w.toNat ++ _).drop (2 * (i + 1))).take 2)) = _
      rw [show 2 * (i + 1) = (cpu.store 2 w.toNat).length + 2 * i by omega, List.drop_length_add_append]
      rfl

/-- The words that are loaded give the bytes back. -/
theorem storeU16_words (cpu : CpuEndianness) (b : InAddr 16) (h : ((List.range 8).map (b.u16 cpu)).length = 8) :
    InAddr.storeU16 cpu ((List.range 8).map (b.u16 cpu)) h = b := by
  refine InAddr.ext ?_
  show ((List.range 8).map (b.u16 cpu)).flatMap (fun v => cpu.store 2 v.toNat) = b.bytes
  have hlen : b.bytes.length = 2 * 8 := b.length_eq
  have hpair : ∀ i < 8, cpu.store 2 (b.u16 cpu i).toNat = [b.bytes.getD (2 * i) 0, b.bytes.getD (2 * i + 1) 0] := by
    intro i hi
    rw [InAddr.u16, take_drop_eq_pair (by omega)]
    generalize hxy : [b.bytes.getD (2 * i) 0, b.bytes.getD (2 * i + 1) 0] = xy
    have hxylen : xy.length = 2 := by rw [← hxy]; rfl
    have hlt := cpu.load_lt xy
    have hstore := cpu.store_load xy
    rw [hxylen] at hlt hstore
    rw [UInt16.toNat_ofNat_of_lt' hlt, hstore]
  rw [List.flatMap_map, List.flatMap_congr fun i hi => hpair i (List.mem_range.mp hi), flatMap_pair_eq_iff hlen]
  exact fun i hi => ⟨getElem?_eq_some_getD (by omega), getElem?_eq_some_getD (by omega)⟩

theorem inc_v6 {words : List UInt16} (ha : a.IpV6_B = true) (hlen : words.reverse.length = 8)
    (hn : Accepts 0xFFFE n) :
    (a.withV6 (InAddr.storeU16 cpu words.reverse hlen)).inc cpu n =
      a.withV6 (InAddr.storeU16 cpu (incV6 cpu n words).reverse
        (length_incV6 (words.length_reverse.symm.trans hlen) n)) := by
  unfold Accepts at hn
  unfold inc
  have hfamily : (a.withV6 (InAddr.storeU16 cpu words.reverse hlen)).IpV6_B = true := ha
  rw [if_pos hfamily, if_pos hn]
  refine withV6_inj.mpr ?_
  have hwords := words_storeU16 cpu words.reverse hlen
  congr 1
  show (incV6 cpu n (List.reverse ((List.range 8).map fun i =>
    (InAddr.storeU16 cpu words.reverse hlen).u16 cpu i))).reverse = _
  rw [hwords, List.reverse_reverse]

theorem toNat_ofInt_8 {x : Int} (h0 : 0 ≤ x) (h1 : x ≤ 0xFE + 1) : ((UInt8.ofInt x).toNat : Int) = x := by
  have hlt : x.toNat < UInt8.size := by
    unfold UInt8.size
    omega
  have hmod : x % 2 ^ 8 = x := Int.emod_eq_of_lt h0 (by omega)
  rw [UInt8.ofInt, hmod, UInt8.toNat_ofNat_of_lt' hlt, Int.toNat_of_nonneg h0]

theorem toNat_ofInt_16 {x : Int} (h0 : 0 ≤ x) (h1 : x ≤ 0xFFFE + 1) : ((UInt16.ofInt x).toNat : Int) = x := by
  have hlt : x.toNat < UInt16.size := by
    unfold UInt16.size
    omega
  have hmod : x % 2 ^ 16 = x := Int.emod_eq_of_lt h0 (by omega)
  rw [UInt16.ofInt, hmod, UInt16.toNat_ofNat_of_lt' hlt, Int.toNat_of_nonneg h0]

/-- The laws for an IPv4 address are those of its bytes. -/
theorem incAdditive_v4 {bytes : List UInt8} (ha : a.IpV6_B = false) (hlen : bytes.reverse.length = 4)
    (hn : Accepts 0xFE n) (hm : Accepts 0xFE m) (hnm : Accepts 0xFE (n + m)) (hs : SameSign n m) :
    IncAdditive cpu (a.withV4 ⟨bytes.reverse, hlen⟩) n m ↔
      StaysInside 0xFE n m (bytes.map fun g => (g.toNat : Int)) := by
  have hneg : Accepts 0xFE (-n) := by
    unfold Accepts at hn ⊢
    omega
  have hload : ∀ g : UInt8, 0 ≤ (g.toNat : Int) ∧ (g.toNat : Int) ≤ 0xFE + 1 := by
    intro g
    have hlt := g.toNat_lt
    omega
  have hinj : Function.Injective fun g : UInt8 => (g.toNat : Int) := fun g g' h =>
    UInt8.toNat_inj.mp (Int.ofNat_inj.mp h)
  rw [← loop_laws_iff (by omega) hload (fun x => toNat_ofInt_8) hinj (by rw [← bytes.length_reverse]; omega) hn hm hnm
    hs]
  have hinc := fun k (hk : Accepts 0xFE k) => @inc_v4 k cpu a bytes ha hlen hk
  constructor
  · rintro ⟨hadd, hundo⟩
    rw [hinc n hn] at hadd hundo
    rw [inc_v4 ha _ hm, hinc _ hnm] at hadd
    rw [inc_v4 ha _ hneg] at hundo
    exact ⟨List.reverse_inj.mp (congrArg InAddr.bytes (withV4_inj.mp hadd)),
      List.reverse_inj.mp (congrArg InAddr.bytes (withV4_inj.mp hundo))⟩
  · rintro ⟨hadd, hundo⟩
    constructor
    · rw [hinc n hn, inc_v4 ha _ hm, hinc _ hnm]
      exact withV4_inj.mpr (InAddr.ext (congrArg List.reverse hadd))
    · rw [hinc n hn, inc_v4 ha _ hneg]
      exact withV4_inj.mpr (InAddr.ext (congrArg List.reverse hundo))

/-- The words that are stored tell the address. -/
theorem storeU16_inj {x y : List UInt16} {k : Nat} {hx : x.length = k} {hy : y.length = k}
    (h : InAddr.storeU16 cpu x hx = InAddr.storeU16 cpu y hy) : x = y := by
  rw [← words_storeU16 cpu x hx, h, words_storeU16]

/-- The laws for an IPv6 address are those of its words. -/
theorem incAdditive_v6 {words : List UInt16} (ha : a.IpV6_B = true) (hlen : words.reverse.length = 8)
    (hn : Accepts 0xFFFE n) (hm : Accepts 0xFFFE m) (hnm : Accepts 0xFFFE (n + m)) (hs : SameSign n m) :
    IncAdditive cpu (a.withV6 (InAddr.storeU16 cpu words.reverse hlen)) n m ↔
      StaysInside 0xFFFE n m (words.map fun g => ((cpu.htons g).toNat : Int)) := by
  have hneg : Accepts 0xFFFE (-n) := by
    unfold Accepts at hn ⊢
    omega
  have hload : ∀ g : UInt16, 0 ≤ ((cpu.htons g).toNat : Int) ∧ ((cpu.htons g).toNat : Int) ≤ 0xFFFE + 1 := by
    intro g
    have hlt := (cpu.htons g).toNat_lt
    omega
  have hstore : ∀ x : Int, 0 ≤ x → x ≤ 0xFFFE + 1 →
      ((cpu.htons (cpu.htons (UInt16.ofInt x))).toNat : Int) = x := by
    intro x h0 h1
    rw [htons_htons, toNat_ofInt_16 h0 h1]
  have hinj : Function.Injective fun g : UInt16 => ((cpu.htons g).toNat : Int) := by
    intro g g' h
    rw [← htons_htons cpu g, UInt16.toNat_inj.mp (Int.ofNat_inj.mp h), htons_htons]
  rw [← loop_laws_iff (by omega) hload hstore hinj (by rw [← words.length_reverse]; omega) hn hm hnm hs]
  have hinc := fun k (hk : Accepts 0xFFFE k) => @inc_v6 k cpu a words ha hlen hk
  constructor
  · rintro ⟨hadd, hundo⟩
    rw [hinc n hn] at hadd hundo
    rw [inc_v6 ha _ hm, hinc _ hnm] at hadd
    rw [inc_v6 ha _ hneg] at hundo
    exact ⟨List.reverse_inj.mp (storeU16_inj (withV6_inj.mp hadd)),
      List.reverse_inj.mp (storeU16_inj (withV6_inj.mp hundo))⟩
  · rintro ⟨hadd, hundo⟩
    constructor
    · rw [hinc n hn, inc_v6 ha _ hm, hinc _ hnm]
      refine withV6_inj.mpr ?_
      congr 2
    · rw [hinc n hn, inc_v6 ha _ hneg]
      refine withV6_inj.mpr ?_
      congr 2

/-- Increments of an address add up and can be undone exactly if its last group stays inside. -/
theorem incAdditive_iff (cpu : CpuEndianness) (a : SocketAddress) (n m : Int) (hn : Accepts a.base n)
    (hm : Accepts a.base m) (hnm : Accepts a.base (n + m)) (hs : SameSign n m) :
    IncAdditive cpu a n m ↔ StaysInside a.base n m (a.groups cpu) := by
  obtain ha | ha := Bool.eq_false_or_eq_true a.IpV6_B
  · have hbase : a.base = 0xFFFE := if_pos ha
    rw [hbase] at hn hm hnm ⊢
    have hwords := storeU16_words cpu a.IpV6Address_X.sin6_addr (by rw [List.length_map, List.length_range])
    have hlaws := @incAdditive_v6 n m cpu a ((List.range 8).map (a.IpV6Address_X.sin6_addr.u16 cpu)).reverse ha
      (by rw [List.reverse_reverse, List.length_map, List.length_range]) hn hm hnm hs
    simp only [List.reverse_reverse, hwords, List.map_reverse, List.map_map] at hlaws
    rw [groups, if_pos ha]
    exact hlaws
  · have hbase : a.base = 0xFE := if_neg (ne_true_of_eq_false ha)
    rw [hbase] at hn hm hnm ⊢
    have hlaws := @incAdditive_v4 n m cpu a a.IpV4Address_X.sin_addr.bytes.reverse ha
      (by rw [List.reverse_reverse]; exact a.IpV4Address_X.sin_addr.length_eq) hn hm hnm hs
    simp only [List.reverse_reverse, List.map_reverse] at hlaws
    rw [groups, if_neg (ne_true_of_eq_false ha)]
    exact hlaws

/-- The IPv4 address `10.0.0.v`. -/
def private10 (v : UInt8) : SocketAddress where
  IpV6_B := false
  Protocol_S := "udp"
  SocketType_E := .udp
  IpV4Address_X := ⟨.inet, 0, ⟨[10, 0, 0, v], rfl⟩⟩
  IpV6Address_X := ⟨.inet6, 0, 0, 0, ⟨List.replicate 16 0, List.length_replicate⟩⟩

/-- From `10.0.0.7` on, increments of 2 and 3 add up to 5. -/
theorem incAdditive_seven : IncAdditive .little (private10 7) 2 3 :=
  (incAdditive_iff .little (private10 7) 2 3 (by decide) (by decide) (by decide) (.inl (by decide))).mpr (by decide)

/-- From `10.0.0.253` on, two increments of 1 are not an increment of 2. -/
theorem not_incAdditive_wrap : ¬ IncAdditive .little (private10 253) 1 1 := by
  intro h
  have hbytes := congrArg (fun b : SocketAddress => b.IpV4Address_X.sin_addr.bytes) h.add
  exact absurd hbytes (by decide)

end SocketAddress

end BofStd
