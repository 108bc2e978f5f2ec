import Mathlib.Data.List.GetD
import BofStd.CryptoSpec

/-!
# Streaming is one-shot hashing

The invariant of both objects: the state is the iteration of the transformation over the complete blocks
of the bytes given so far, the buffer holds what is left behind them, and the counter tells their number.
One chunk keeps it (`addData_represents`, `update_represents`), so every way of cutting a message does.
The padding of MD5 is given to the object as two more chunks; that of SHA-1 is built in the buffer, in one
block or in two.
-/

namespace BofStd

open Memory Blocks Bytes

/-! ## Words and digits -/

/-- A word from its four bytes. -/
theorem word_eq (a b c d : UInt8) :
    a.toUInt32 ||| b.toUInt32 <<< 8 ||| c.toUInt32 <<< 16 ||| d.toUInt32 <<< 24 = wordLE [a, b, c, d] := by
  have hword := word_of_bytes (valueLE [a, b, c, d])
  have hbytes := bytesLE_valueLE [a, b, c, d]
  simp only [List.length_cons, List.length_nil, bytesLE, List.cons.injEq, and_true] at hbytes
  obtain ⟨ha, hb, hc, hd⟩ := hbytes
  rwa [ha, hb, hc, hd] at hword

/-- The last `k` hexadecimal digits of a number. -/
def lastDigits : Nat → Nat → List Char
  | 0, _ => []
  | k + 1, n => lastDigits k (n / 16) ++ [Nat.digitChar (n % 16)]

theorem lastDigits_zero (k : Nat) : lastDigits k 0 = List.replicate k '0' := by
  induction k with
  | zero => rfl
  | succ k ih =>
    rw [lastDigits, Nat.zero_div, ih, List.replicate_succ']
    rfl

/-- The digits of a number, with zeros in front up to `k` of them. -/
theorem fill_toDigits {k n : Nat} (hk : 0 < k) (hn : n < 16 ^ k) :
    List.replicate (k - (Nat.toDigits 16 n).length) '0' ++ Nat.toDigits 16 n = lastDigits k n := by
  induction k generalizing n with
  | zero => exact absurd hk (lt_irrefl 0)
  | succ k ih =>
    rw [lastDigits]
    by_cases hone : n < 16
    · rw [Nat.toDigits_of_lt_base hone, Nat.div_eq_of_lt hone, Nat.mod_eq_of_lt hone, lastDigits_zero]
      rfl
    · have hpos : 0 < k := by
        by_contra hzero
        obtain rfl : k = 0 := by omega
        omega
      rw [Nat.toDigits_of_base_le (by decide) (by omega), List.length_append, List.length_singleton,
        Nat.add_sub_add_right, ← List.append_assoc, ih hpos]
      rw [pow_succ] at hn
      exact Nat.div_lt_of_lt_mul (by rwa [Nat.mul_comm])

theorem getD_hexDigits {d : Nat} (h : d < 16) : hexDigits.getD d '0' = Nat.digitChar d := by
  have hall : ∀ d : Fin 16, hexDigits.getD d.val '0' = Nat.digitChar d.val := by decide
  exact hall ⟨d, h⟩

/-- The text of a word is that of its bytes, the most significant one first. -/
theorem hexWord_eq (w : UInt32) : Sha1.hexWord w = (bytesLE 4 w.toNat).reverse.flatMap byteText := by
  have hbyte : ∀ v : Nat, byteText (UInt8.ofNat v) = [Nat.digitChar (v / 16 % 16), Nat.digitChar (v % 16)] := by
    intro v
    have hhigh : v % 2 ^ 8 / 16 = v / 16 % 16 := by omega
    have hlow : v % 2 ^ 8 % 16 = v % 16 := by omega
    rw [byteText, UInt8.toNat_ofNat', hhigh, hlow, getD_hexDigits (Nat.mod_lt _ (by decide)),
      getD_hexDigits (Nat.mod_lt _ (by decide))]
  rw [Sha1.hexWord, fill_toDigits (by decide) w.toNat_lt]
  simp only [lastDigits, bytesLE, List.reverse_cons, List.reverse_nil, List.nil_append, List.cons_append,
    List.flatMap_cons, List.flatMap_nil, hbyte, Nat.div_div_eq_div_mul, Nat.reduceMul]

/-! ## MD5 -/

namespace Md5

/-- The state of a new context is that of RFC 1321. -/
theorem initState_eq : initState = rfcState := by decide

/-- The context `c` has been given the bytes `m`. -/
structure Represents (c : Context) (m : List UInt8) : Prop where
  state_eq : c.pState = (blocks 64 m).foldl transform initState
  buffer_eq : read c.pBuffer 0 (m.length % 64) = rest 64 m
  count_lt : c.pCount0 < 4294967296
  count_eq : c.pCount0 + 4294967296 * c.pCount1 = 8 * m.length % 18446744073709551616

theorem create_represents : Represents create [] where
  state_eq := rfl
  buffer_eq := rfl
  count_lt := by decide
  count_eq := rfl

/-- The place in the block is recovered from the bit counter. -/
theorem Represents.index_eq {c : Context} {m : List UInt8} (h : Represents c m) :
    c.pCount0 >>> 3 &&& 0x3F = m.length % 64 := by
  have hcount := h.count_eq
  have hlt := h.count_lt
  rw [show (0x3F : Nat) = 2 ^ 6 - 1 from rfl, Nat.and_two_pow_sub_one_eq_mod, Nat.shiftRight_eq_div_pow]
  omega

/-- The carry between the two words of the bit counter. -/
theorem Represents.addCount {c : Context} {m : List UInt8} (h : Represents c m) {n : Nat} (_ : n < 4294967296) :
    (addCount c n).1 < 4294967296 ∧
      (addCount c n).1 + 4294967296 * (addCount c n).2 = 8 * (m.length + n) % 18446744073709551616 := by
  have hcount := h.count_eq
  have hlt := h.count_lt
  simp only [Md5.addCount, u32_eq_mod, Nat.shiftLeft_eq, Nat.shiftRight_eq_div_pow]
  constructor
  · omega
  · split <;> omega

/-- The loop transforms the state with the complete blocks behind the index. -/
theorem transformLoop_eq {l : List UInt8} (hl : l.length < 4294967232) (fuel : Nat) {i : Nat} (s : State)
    (hi : i ≤ l.length) (hfuel : l.length - i < fuel) :
    ∃ j, transformLoop l fuel s i = some ((blocks 64 (l.drop i)).foldl transform s, j) ∧
      l.drop j = rest 64 (l.drop i) := by
  induction fuel generalizing i s with
  | zero => omega
  | succ fuel ih =>
    have hlen : (l.drop i).length = l.length - i := List.length_drop
    rw [transformLoop, u32_of_lt (by omega)]
    by_cases hmore : i + 63 < l.length
    · -- one more block
      rw [if_pos hmore, u32_of_lt (by omega)]
      obtain ⟨j, hloop, hrest⟩ := ih (transform s ((l.drop i).take 64)) (i := i + 64) (by omega) (by omega)
      have htake : ((l.drop i).take 64).length = 64 := List.length_take_of_le (by omega)
      have hsplit : l.drop i = (l.drop i).take 64 ++ l.drop (i + 64) := by
        rw [← List.drop_drop, List.take_append_drop]
      refine ⟨j, ?_, ?_⟩
      · rw [hloop, hsplit, blocks_block_append (by omega) htake, List.foldl_cons, ← hsplit]
      · rw [hrest, hsplit, rest_block_append (by omega) htake]
    · rw [if_neg hmore]
      refine ⟨i, ?_, ?_⟩
      · rw [blocks_of_lt (by omega)]
        rfl
      · rw [rest_of_lt (by omega)]

/-- One chunk. -/
theorem addData_represents {c : Context} {m l : List UInt8} (h : Represents c m)
    (hl : l.length < 4294967232) : ∃ c', addData c l = some c' ∧ Represents c' (m ++ l) := by
  obtain ⟨hlt, hcount⟩ := h.addCount (n := l.length) (by omega)
  obtain ⟨hblocks, hrest⟩ := blocks_append (B := 64) (by omega) m l
  have hrestlen := length_rest (B := 64) m
  have hmod : m.length % 64 < 64 := Nat.mod_lt _ (by omega)
  rw [← List.length_append] at hcount
  simp only [addData, h.index_eq]
  by_cases hfull : 64 - m.length % 64 ≤ l.length
  · -- the buffer is completed
    rw [if_pos hfull]
    have htake : (l.take (64 - m.length % 64)).length = 64 - m.length % 64 := List.length_take_of_le hfull
    have hbuffer : read (write c.pBuffer (m.length % 64) (l.take (64 - m.length % 64))) 0 64 =
        rest 64 m ++ l.take (64 - m.length % 64) := by
      have hread := read_write_behind c.pBuffer 0 (m.length % 64) (l.take (64 - m.length % 64))
      rw [Nat.zero_add, htake, Nat.add_sub_cancel' (by omega), h.buffer_eq] at hread
      exact hread
    have hblock : (rest 64 m ++ l.take (64 - m.length % 64)).length = 64 := by
      rw [List.length_append, hrestlen, htake]
      omega
    have hsplit : rest 64 m ++ l = (rest 64 m ++ l.take (64 - m.length % 64)) ++ l.drop (64 - m.length % 64) := by
      rw [List.append_assoc, List.take_append_drop]
    rw [hsplit, blocks_block_append (by omega) hblock] at hblocks
    rw [hsplit, rest_block_append (by omega) hblock] at hrest
    obtain ⟨j, hloop, hdrop⟩ := transformLoop_eq hl (l.length + 1)
      (transform c.pState (rest 64 m ++ l.take (64 - m.length % 64))) hfull (by omega)
    rw [hbuffer, hloop]
    refine ⟨_, rfl, ?_, ?_, hlt, hcount⟩
    · rw [hblocks, List.foldl_append, List.foldl_cons, ← h.state_eq]
    · have hself := read_write_self (write c.pBuffer (m.length % 64) (l.take (64 - m.length % 64))) 0 (l.drop j)
      have hlen : (l.drop j).length = (m ++ l).length % 64 := by
        rw [hdrop, ← hrest, length_rest]
      rw [hlen] at hself
      rw [hself, hdrop, hrest]
  · -- the chunk ends inside the block
    rw [if_neg hfull]
    have hshort : (rest 64 m ++ l).length < 64 := by
      rw [List.length_append, hrestlen]
      omega
    rw [blocks_of_lt hshort, List.append_nil] at hblocks
    rw [rest_of_lt hshort] at hrest
    have hlen : (m ++ l).length % 64 = m.length % 64 + l.length := by
      rw [List.length_append]
      omega
    refine ⟨_, rfl, ?_, ?_, hlt, hcount⟩
    · rw [hblocks, h.state_eq]
    · have hread := read_write_behind c.pBuffer 0 (m.length % 64) l
      rw [Nat.zero_add, h.buffer_eq] at hread
      rw [hrest, hlen, hread]

/-- All the chunks. -/
theorem foldlM_addData_represents {chunks : List (List UInt8)} (hc : ∀ l ∈ chunks, l.length < 4294967232)
    {c : Context} {m : List UInt8} (h : Represents c m) :
    ∃ c', chunks.foldlM addData c = some c' ∧ Represents c' (m ++ chunks.flatten) := by
  induction chunks generalizing c m with
  | nil => exact ⟨c, rfl, by rwa [List.flatten_nil, List.append_nil]⟩
  | cons l chunks ih =>
    obtain ⟨c1, hadd, h1⟩ := addData_represents h (hc l List.mem_cons_self)
    obtain ⟨c2, hfold, h2⟩ := ih (fun k hk => hc k (List.mem_cons_of_mem _ hk)) h1
    refine ⟨c2, ?_, ?_⟩
    · rw [List.foldlM_cons, hadd]
      exact hfold
    · rwa [List.flatten_cons, ← List.append_assoc]

/-- The bytes of one word. -/
theorem encode_word (w : Nat) :
    [UInt8.ofNat (w &&& 0xff), UInt8.ofNat (w >>> 8 &&& 0xff), UInt8.ofNat (w >>> 16 &&& 0xff),
      UInt8.ofNat (w >>> 24 &&& 0xff)] = bytesLE 4 w := by
  have hbyte : ∀ v, UInt8.ofNat (v &&& 0xff) = UInt8.ofNat v := by
    intro v
    apply UInt8.toNat_inj.mp
    rw [UInt8.toNat_ofNat', UInt8.toNat_ofNat', show (0xff : Nat) = 2 ^ 8 - 1 from rfl,
      Nat.and_two_pow_sub_one_eq_mod, Nat.mod_mod]
  simp only [hbyte, bytesLE, Nat.shiftRight_eq_div_pow, Nat.div_div_eq_div_mul, Nat.reducePow, Nat.reduceMul]

theorem encode_eq (ws : List Nat) : encode ws = ws.flatMap (bytesLE 4) := by
  simp only [encode, encode_word]

/-- The two words of the bit counter are the length field. -/
theorem Represents.encode_count {c : Context} {m : List UInt8} (h : Represents c m) :
    encode [c.pCount0, c.pCount1] = bytesLE 8 (8 * m.length) := by
  have hlt := h.count_lt
  have hcount := h.count_eq
  have hlow : c.pCount0 = 8 * m.length % 256 ^ 4 := by omega
  have hhigh : c.pCount1 = 8 * m.length / 256 ^ 4 % 256 ^ 4 := by omega
  have hsplit := bytesLE_add 4 4 (8 * m.length)
  rw [encode_eq, List.flatMap_cons, List.flatMap_singleton, hlow, hhigh, bytesLE_mod, bytesLE_mod, ← hsplit]

/-- The padding in front of the length field. -/
theorem take_padding {m : List UInt8} {c : Context} (h : Represents c m) :
    padding.take (if c.pCount0 >>> 3 &&& 0x3f < 56 then 56 - (c.pCount0 >>> 3 &&& 0x3f)
      else 120 - (c.pCount0 >>> 3 &&& 0x3f)) = 0x80 :: List.replicate (zeroPad m.length) 0 := by
  have hlen : (if c.pCount0 >>> 3 &&& 0x3f < 56 then 56 - (c.pCount0 >>> 3 &&& 0x3f)
      else 120 - (c.pCount0 >>> 3 &&& 0x3f)) = zeroPad m.length + 1 := by
    rw [h.index_eq, zeroPad_eq]
    split <;> omega
  have hle : min (zeroPad m.length) 63 = zeroPad m.length := by
    rw [zeroPad_eq]
    omega
  rw [hlen, padding, List.take_succ_cons, List.take_replicate, hle]

/-- `Compute` returns the digest of the bytes that were given. -/
theorem compute_eq {c : Context} {m : List UInt8} (h : Represents c m) :
    ∃ c', compute c = some (digest m, c') := by
  have hpad := take_padding h
  obtain ⟨c1, hadd1, h1⟩ := addData_represents h (l := 0x80 :: List.replicate (zeroPad m.length) 0) (by
    rw [List.length_cons, List.length_replicate, zeroPad_eq]
    omega)
  obtain ⟨c2, hadd2, h2⟩ := addData_represents h1 (l := bytesLE 8 (8 * m.length)) (by
    rw [length_bytesLE]
    omega)
  refine ⟨⟨⟨0, 0, 0, 0⟩, 0, 0, fun _ => 0⟩, ?_⟩
  simp only [compute, hpad, h.encode_count, hadd1, hadd2, Option.bind_eq_bind, Option.bind_some, encode_eq,
    h2.state_eq, initState_eq]
  rfl

end Md5

/-! ## SHA-1 -/

namespace Sha1

/-- The words that `S_BufferToBlock` reads from a complete block. -/
theorem bufferToBlock_eq {block : List UInt8} (h : block.length = 64) : bufferToBlock block = blockWords block := by
  unfold bufferToBlock blockWords
  refine List.map_congr_left fun i hi => ?_
  rw [List.mem_range] at hi
  have hlen : ((block.drop (4 * i)).take 4).length = 4 := by
    rw [List.length_take, List.length_drop]
    omega
  have hbyte : ∀ k < 4, Md5.byteAt block (4 * i + k) = Md5.byteAt ((block.drop (4 * i)).take 4) k := by
    intro k hk
    rw [Md5.byteAt, Md5.byteAt, List.getD_eq_getElem?_getD, List.getD_eq_getElem?_getD, List.getElem?_take_of_lt hk,
      List.getElem?_drop]
  rw [hbyte 3 (by decide), hbyte 2 (by decide), hbyte 1 (by decide), ← Nat.add_zero (4 * i), hbyte 0 (by decide),
    Nat.add_zero]
  obtain ⟨b₀, b₁, b₂, b₃, hbytes⟩ := List.length_eq_four.mp hlen
  rw [hbytes]
  exact word_eq b₃ b₂ b₁ b₀

/-- The text of a digest is that of its twenty bytes. -/
theorem hex_eq (d : Digest) :
    hex d = ([d.a, d.b, d.c, d.d, d.e].flatMap fun w => (bytesLE 4 w.toNat).reverse).flatMap byteText := by
  rw [List.flatMap_assoc]
  exact congrArg (List.flatMap · _) (funext hexWord_eq)

/-- One block. -/
def absorb (d : Digest) (b : List UInt8) : Digest := (transform d (bufferToBlock b)).1

/-- The object `c` has been given the bytes `m`. -/
structure Represents (c : Context) (m : List UInt8) : Prop where
  digest_eq : c.mpDigest = (blocks 64 m).foldl absorb initDigest
  buffer_eq : c.mBuffer = rest 64 m
  transform_eq : c.mTransform = m.length / 64 % 2 ^ 64

theorem create_represents : Represents create [] where
  digest_eq := rfl
  buffer_eq := rfl
  transform_eq := rfl

/-- The bytes that complete the block in the buffer. -/
theorem Represents.absorb {c : Context} {m l : List UInt8} (h : Represents c m)
    (hl : (c.mBuffer ++ l).length = 64) :
    Represents ⟨absorb c.mpDigest (c.mBuffer ++ l), [], (c.mTransform + 1) % 2 ^ 64⟩ (m ++ l) := by
  obtain ⟨hblocks, hrest⟩ := blocks_append (B := 64) (by omega) m l
  obtain ⟨hone, hleft⟩ := blocks_of_length (by omega) hl
  rw [← h.buffer_eq] at hblocks hrest
  refine ⟨?_, ?_, ?_⟩
  · rw [hblocks, hone, List.foldl_append, ← h.digest_eq]
    rfl
  · rw [hrest, hleft]
  · have hlen := length_rest (B := 64) m
    rw [List.length_append, h.buffer_eq] at hl
    show (c.mTransform + 1) % 2 ^ 64 = _
    rw [h.transform_eq, List.length_append]
    omega

/-- A stream that ends inside the block in the buffer. -/
theorem Represents.append {c : Context} {m l : List UInt8} (h : Represents c m)
    (hl : (c.mBuffer ++ l).length < 64) : Represents ⟨c.mpDigest, c.mBuffer ++ l, c.mTransform⟩ (m ++ l) := by
  obtain ⟨hblocks, hrest⟩ := blocks_append (B := 64) (by omega) m l
  have hlen := length_rest (B := 64) m
  rw [← h.buffer_eq] at hblocks hrest hlen
  rw [blocks_of_lt hl, List.append_nil] at hblocks
  rw [rest_of_lt hl] at hrest
  refine ⟨?_, ?_, ?_⟩
  · rw [hblocks, h.digest_eq]
  · rw [hrest]
  · show c.mTransform = _
    rw [h.transform_eq, List.length_append]
    rw [List.length_append] at hl
    omega

/-- One chunk. -/
theorem update_represents {c : Context} {m : List UInt8} (is : List UInt8) (h : Represents c m) :
    Represents (update c is) (m ++ is) := by
  -- by the number of bytes in the buffer and in the stream
  induction hn : is.length + c.mBuffer.length using Nat.strong_induction_on generalizing c m is with
  | _ n ih =>
    have hbuf : c.mBuffer.length < 64 := by
      rw [h.buffer_eq, length_rest]
      exact Nat.mod_lt _ (by omega)
    rw [update]
    by_cases hlong : 64 - c.mBuffer.length ≤ is.length
    · have hfull : (c.mBuffer ++ is.take (64 - c.mBuffer.length)).length = 64 := by
        rw [List.length_append, List.length_take_of_le hlong]
        omega
      rw [dif_neg (not_not.mpr hfull)]
      have h1 := ih (is.drop (64 - c.mBuffer.length)).length (by rw [← hn, List.length_drop]; omega) _
        (h.absorb hfull) rfl
      rwa [List.append_assoc, List.take_append_drop] at h1
    · have htake : is.take (64 - c.mBuffer.length) = is := List.take_of_length_le (by omega)
      have hshort : (c.mBuffer ++ is).length < 64 := by
        rw [List.length_append]
        omega
      rw [htake, dif_pos (by omega)]
      exact h.append hshort

/-- All the chunks. -/
theorem foldl_update_represents (chunks : List (List UInt8)) {c : Context} {m : List UInt8}
    (h : Represents c m) : Represents (chunks.foldl update c) (m ++ chunks.flatten) := by
  induction chunks generalizing c m with
  | nil => rwa [List.flatten_nil, List.append_nil]
  | cons l chunks ih =>
    have h1 := ih (update_represents l h)
    rwa [List.flatten_cons, ← List.append_assoc]

theorem length_bufferToBlock (b : List UInt8) : (bufferToBlock b).length = 16 := by
  rw [bufferToBlock, List.length_map, List.length_range]

theorem length_op (s : Digest × List UInt32) (t : Nat) : (op s t).2.length = s.2.length := by
  simp only [op]
  split
  · rfl
  · rw [List.length_set]

/-- The transformation leaves a block of the same size. -/
theorem length_transform (d : Digest) (block : List UInt32) : (transform d block).2.length = block.length := by
  have hfold : ∀ (ts : List Nat) (s : Digest × List UInt32), (ts.foldl op s).2.length = s.2.length := by
    intro ts
    induction ts with
    | nil =>
      intro s
      rfl
    | cons t ts ih =>
      intro s
      rw [List.foldl_cons, ih, length_op]
  exact hfold (List.range 80) (d, block)

/-- Overwriting the last two words of a block. -/
theorem set_set_eq {block : List UInt32} (h : block.length = 16) (x y : UInt32) :
    (block.set 15 x).set 14 y = block.take 14 ++ [y, x] := by
  have hdrop : (block.drop 14).length = 2 := by rw [List.length_drop, h]
  obtain ⟨u, v, huv⟩ := List.length_eq_two.mp hdrop
  have htake : (block.take 14).length = 14 := List.length_take_of_le (by omega)
  have hsplit := List.take_append_drop 14 block
  rw [huv] at hsplit
  rw [← hsplit, List.set_append_right _ _ (by omega), List.set_append_right _ _ (by omega), htake,
    List.take_left' htake]
  rfl

/-- The first words do not depend on the last bytes. -/
theorem take_bufferToBlock {p : List UInt8} (hp : p.length = 56) (z : List UInt8) :
    (bufferToBlock (p ++ z)).take 14 = (bufferToBlock p).take 14 := by
  have hbyte : ∀ j, j < 56 → Md5.byteAt (p ++ z) j = Md5.byteAt p j := by
    intro j hj
    rw [Md5.byteAt, Md5.byteAt, List.getD_append _ _ _ _ (by omega)]
  simp only [bufferToBlock, ← List.map_take, List.take_range]
  refine List.map_congr_left fun i hi => ?_
  rw [List.mem_range] at hi
  rw [hbyte _ (by omega), hbyte _ (by omega), hbyte _ (by omega), hbyte _ (by omega)]

/-- The words of a block that ends with the length field. -/
theorem bufferToBlock_lengthField {p : List UInt8} (hp : p.length = 56) (v : Nat) :
    bufferToBlock (p ++ (bytesLE 8 v).reverse) =
      (bufferToBlock p).take 14 ++ [UInt32.ofNat (v / 4294967296), UInt32.ofNat v] := by
  have hbyte : ∀ k, Md5.byteAt (p ++ (bytesLE 8 v).reverse) (56 + k) = Md5.byteAt (bytesLE 8 v).reverse k := by
    intro k
    rw [Md5.byteAt, Md5.byteAt, List.getD_append_right _ _ _ _ (by omega), hp, Nat.add_sub_cancel_left]
  have hdrop : (bufferToBlock (p ++ (bytesLE 8 v).reverse)).drop 14 =
      [UInt32.ofNat (v / 4294967296), UInt32.ofNat v] := by
    have hhigh := word_of_bytes (v / 256 / 256 / 256 / 256)
    have hlow := word_of_bytes v
    have hdiv : v / 4294967296 = v / 256 / 256 / 256 / 256 := by omega
    rw [hdiv, ← hhigh, ← hlow]
    show [Md5.byteAt _ (56 + 3) ||| Md5.byteAt _ (56 + 2) <<< 8 ||| Md5.byteAt _ (56 + 1) <<< 16 |||
        Md5.byteAt _ (56 + 0) <<< 24, Md5.byteAt _ (56 + 7) ||| Md5.byteAt _ (56 + 6) <<< 8 |||
        Md5.byteAt _ (56 + 5) <<< 16 ||| Md5.byteAt _ (56 + 4) <<< 24] = _
    simp only [hbyte]
    rfl
  rw [← take_bufferToBlock hp (bytesLE 8 v).reverse, ← hdrop, List.take_append_drop]

/-- The number of bits that `Final` computes. -/
theorem Represents.totalBits_eq {c : Context} {m : List UInt8} (h : Represents c m) :
    (c.mTransform * 64 % 2 ^ 64 + c.mBuffer.length) % 2 ^ 64 * 8 % 2 ^ 64 = 8 * m.length % 2 ^ 64 := by
  rw [h.transform_eq, h.buffer_eq, length_rest]
  omega

/-- The two words of the length field. -/
theorem ofNat_lengthField (v : Nat) :
    UInt32.ofNat (v % 2 ^ 64) = UInt32.ofNat v ∧
      UInt32.ofNat ((v % 2 ^ 64) >>> 32) = UInt32.ofNat (v / 4294967296) := by
  constructor
  · apply UInt32.toNat_inj.mp
    rw [UInt32.toNat_ofNat', UInt32.toNat_ofNat']
    omega
  · apply UInt32.toNat_inj.mp
    rw [UInt32.toNat_ofNat', UInt32.toNat_ofNat', Nat.shiftRight_eq_div_pow]
    omega

/-- The block with the length field is the last one of the padded message. -/
theorem absorb_lengthField {block : List UInt32} {p : List UInt8} (hblock : block.length = 16)
    (hp : p.length = 56) (htake : block.take 14 = (bufferToBlock p).take 14) (d : Digest) (v : Nat) :
    (transform d ((block.set 15 (UInt32.ofNat (v % 2 ^ 64))).set 14
      (UInt32.ofNat ((v % 2 ^ 64) >>> 32)))).1 = absorb d (p ++ (bytesLE 8 v).reverse) := by
  obtain ⟨hlow, hhigh⟩ := ofNat_lengthField v
  rw [set_set_eq hblock, htake, hlow, hhigh, ← bufferToBlock_lengthField hp]
  rfl

/-- The digest of a message by the functions of the object. -/
theorem digest_eq (m : List UInt8) : digest m =
    hex ((blocks 64 (padded m (bytesLE 8 (8 * m.length)).reverse)).foldl absorb initDigest) := by
  rw [digest, hex_eq, List.foldl_ext _ absorb]
  · rfl
  · intro d block hblock
    rw [absorb, bufferToBlock_eq (length_of_mem_blocks hblock)]

/-- `Final` returns the digest of the bytes that were given. -/
theorem final_eq {c : Context} {m : List UInt8} (h : Represents c m) : (final c).1 = digest m := by
  have hlen := length_rest (B := 64) m
  have hmod : m.length % 64 < 64 := Nat.mod_lt _ (by omega)
  have hsplit : padded m (bytesLE 8 (8 * m.length)).reverse =
      m ++ (0x80 :: List.replicate (zeroPad m.length) 0 ++ (bytesLE 8 (8 * m.length)).reverse) := by
    rw [padded, List.append_assoc]
  obtain ⟨hblocks, -⟩ := blocks_append (B := 64) (by omega) m
    (0x80 :: List.replicate (zeroPad m.length) 0 ++ (bytesLE 8 (8 * m.length)).reverse)
  have hdigest : digest m = hex ((blocks 64 (rest 64 m ++ (0x80 :: List.replicate (zeroPad m.length) 0 ++
      (bytesLE 8 (8 * m.length)).reverse))).foldl absorb c.mpDigest) := by
    rw [digest_eq, hsplit, hblocks, h.digest_eq, ← List.foldl_append]
  rw [← h.buffer_eq] at hlen hdigest
  rw [hdigest]
  simp only [final, h.totalBits_eq]
  congr 1
  have hzero : zeroPad m.length = (119 - c.mBuffer.length) % 64 := by rw [zeroPad_eq, hlen]
  have hbuf : (c.mBuffer ++ [0x80]).length = c.mBuffer.length + 1 := by
    rw [List.length_append, List.length_singleton]
  rw [hbuf]
  by_cases hfit : c.mBuffer.length + 1 > 64 - 8
  · -- the length field goes into a block of its own
    rw [if_pos hfit]
    have hrepl : List.replicate (zeroPad m.length) (0 : UInt8) =
        List.replicate (64 - (c.mBuffer.length + 1)) 0 ++ List.replicate 56 0 := by
      rw [List.replicate_append_replicate, hzero]
      congr 1
      omega
    have hfirst : (c.mBuffer ++ [0x80] ++ List.replicate (64 - (c.mBuffer.length + 1)) 0).length = 64 := by
      rw [List.length_append, hbuf, List.length_replicate]
      omega
    have hlast : (List.replicate 56 (0 : UInt8) ++ (bytesLE 8 (8 * m.length)).reverse).length = 64 := by
      rw [List.length_append, List.length_replicate, List.length_reverse, length_bytesLE]
    have htail : c.mBuffer ++ (0x80 :: List.replicate (zeroPad m.length) 0 ++
        (bytesLE 8 (8 * m.length)).reverse) =
        (c.mBuffer ++ [0x80] ++ List.replicate (64 - (c.mBuffer.length + 1)) 0) ++
          (List.replicate 56 0 ++ (bytesLE 8 (8 * m.length)).reverse) := by
      rw [hrepl]
      simp only [List.append_assoc, List.cons_append, List.nil_append]
    rw [htail, blocks_block_append (by omega) hfirst, (blocks_of_length (by omega) hlast).1]
    refine absorb_lengthField ?_ (List.length_replicate ..) ?_ _ _
    · rw [List.length_append, List.length_replicate, List.length_drop, length_transform, length_bufferToBlock]
    · rw [List.take_left' (List.length_replicate ..)]
      decide
  · -- the length field fits into the block
    rw [if_neg hfit]
    have hrepl : List.replicate (64 - (c.mBuffer.length + 1)) (0 : UInt8) =
        List.replicate (zeroPad m.length) 0 ++ List.replicate 8 0 := by
      rw [List.replicate_append_replicate, hzero]
      congr 1
      omega
    have hp : (c.mBuffer ++ 0x80 :: List.replicate (zeroPad m.length) 0).length = 56 := by
      rw [List.length_append, List.length_cons, List.length_replicate, hzero]
      omega
    have hlast : (c.mBuffer ++ 0x80 :: List.replicate (zeroPad m.length) 0 ++
        (bytesLE 8 (8 * m.length)).reverse).length = 64 := by
      rw [List.length_append, hp, List.length_reverse, length_bytesLE]
    rw [← List.append_assoc, (blocks_of_length (by omega) hlast).1]
    refine absorb_lengthField (length_bufferToBlock _) hp ?_ _ _
    have hblock : c.mBuffer ++ [0x80] ++ List.replicate (64 - (c.mBuffer.length + 1)) 0 =
        (c.mBuffer ++ 0x80 :: List.replicate (zeroPad m.length) 0) ++ List.replicate 8 0 := by
      rw [hrepl]
      simp only [List.append_assoc, List.cons_append, List.nil_append]
    rw [hblock, take_bufferToBlock hp]

end Sha1

/-! ## Streaming -/

/-- However a message is cut into chunks, the two objects return the digests of the whole message. -/
theorem stream_eq_digest {m : List UInt8} {chunks : List (List UInt8)} (hm : chunks.flatten = m)
    (hc : ∀ l ∈ chunks, l.length < 2 ^ 32 - 64) :
    Md5.stream chunks = some (Md5.digest m) ∧ Sha1.stream chunks = Sha1.digest m := by
  subst hm
  constructor
  · obtain ⟨c, hfold, h⟩ := Md5.foldlM_addData_represents hc Md5.create_represents
    obtain ⟨c', hcompute⟩ := Md5.compute_eq h
    simp only [Md5.stream, hfold, hcompute, Option.bind_eq_bind, Option.bind_some]
    rfl
  · have h := Sha1.foldl_update_represents chunks Sha1.create_represents
    rw [Sha1.stream, Sha1.final_eq h, List.nil_append]

/-- The message `abc` in two chunks. -/
theorem stream_eq_digest_abc :
    Md5.stream [[0x61], [0x62, 0x63]] = some (Md5.digest [0x61, 0x62, 0x63]) ∧
      Sha1.stream [[0x61], [0x62, 0x63]] = Sha1.digest [0x61, 0x62, 0x63] :=
  stream_eq_digest rfl (by decide)

-- the digest that the comment of `Hash` gives for this message
example : Md5.stream [[0x61], [0x62, 0x63]] =
    some [0x90, 0x01, 0x50, 0x98, 0x3c, 0xd2, 0x4f, 0xb0, 0xd6, 0x96, 0x3f, 0x7d, 0x28, 0xe1, 0x7f, 0x72] := by
  decide +kernel

-- the digest of this message in FIPS 180
example : Sha1.stream [[0x61], [0x62, 0x63]] = "a9993e364706816aba3e25717850c26c9cd0d89d".toList := by decide +kernel

end BofStd

/-!
## Which digest object can be reused

`Final` leaves a `BofSha1` object as its constructor does. `Compute` leaves a `BofCryptoMd5` object zeroized: the
counter is that of a new object, the four words of the state are not, so that the next digest starts from a wrong
value.
-/

namespace BofStd

open Machine

namespace Md5

/-- The context that `Compute` leaves. -/
def zeroized : Context := ⟨⟨0, 0, 0, 0⟩, 0, 0, fun _ => 0⟩

theorem compute_context {c c' : Context} {pDigest : List UInt8} (h : compute c = some (pDigest, c')) :
    c' = zeroized := by
  simp only [compute, Option.bind_eq_bind, Option.bind_eq_some_iff, Option.some.injEq, Prod.mk.injEq] at h
  obtain ⟨_, _, _, _, _, rfl⟩ := h
  rfl

/-- The context after any message. -/
theorem digestFrom_context {c c' : Context} {m : Message} {pDigest : List UInt8}
    (h : digestFrom c m = some (pDigest, c')) : c' = zeroized := by
  obtain ⟨chunks, finish⟩ := m
  cases finish with
  | compute =>
    simp only [digestFrom, Option.bind_eq_bind, Option.bind_eq_some_iff] at h
    obtain ⟨c₁, _, hcompute⟩ := h
    exact compute_context hcompute
  | hash pDataIn nbOut hcap =>
    simp only [digestFrom, hash, if_pos hcap, Option.bind_eq_bind, Option.bind_eq_some_iff, Option.some.injEq,
      Prod.exists, Prod.mk.injEq, Option.map_eq_some_iff] at h
    obtain ⟨c₁, _, d, c₂, ⟨c₃, _, d', c₄, hcompute, rfl, rfl⟩, e, _, rfl, rfl⟩ := h
    exact compute_context hcompute

/-- After a message an object is zeroized, or it hangs. -/
theorem step_state (c : Option Context) (m : Message) : (step c m).1 = none ∨ (step c m).1 = some zeroized := by
  unfold step
  split
  · rename_i pDigest c' h
    obtain ⟨c₀, _, hdigest⟩ := Option.bind_eq_some_iff.mp h
    exact .inr (congrArg some (digestFrom_context hdigest))
  · exact .inl rfl

/-- The same after one message or more. -/
theorem run_state (c : Option Context) {ms : List Message} (h : ms ≠ []) :
    (run step c ms).1 = none ∨ (run step c ms).1 = some zeroized := by
  rcases List.eq_nil_or_concat ms with rfl | ⟨ms, m, rfl⟩
  · exact absurd rfl h
  · rw [List.concat_eq_append, run_append]
    exact step_state _ m

/-- The empty message. -/
def empty : Message := ⟨[], .compute⟩

/-- The digest of the empty message of an object that has computed a digest already. -/
theorem step_empty_of_used {c : Option Context} (h : c = none ∨ c = some zeroized) :
    (step c empty).2 ≠ (step (some create) empty).2 := by
  rcases h with rfl | rfl
  · decide +kernel
  · decide +kernel

end Md5

/-- A `BofSha1` object can be reused without limit. A `BofCryptoMd5` object gives the right digest of every next
message exactly if it has hashed no message before. -/
theorem reusable_iff (messages : List (List (List UInt8))) (ms : List Md5.Message) :
    Reusable Sha1.step Sha1.create messages ∧
      ((∀ m, Reusable Md5.step (some Md5.create) (ms ++ [m])) ↔ ms = []) := by
  constructor
  · exact reusable_of_return (fun chunks => rfl) messages
  · constructor
    · intro h
      by_contra hne
      have hlast := h Md5.empty
      rw [Reusable, run_append, List.map_append] at hlast
      have hlen : (run Md5.step (some Md5.create) ms).2.length =
          (ms.map fun m => (Md5.step (some Md5.create) m).2).length := by
        rw [length_run, List.length_map]
      have htail := (List.append_inj hlast hlen).2
      rw [List.map_singleton, run_cons, List.cons.injEq] at htail
      exact Md5.step_empty_of_used (Md5.run_state _ hne) htail.1
    · rintro rfl m
      rfl

/-- Two empty messages hashed with one object. -/
theorem reusable_fails_empty : ¬ Reusable Md5.step (some Md5.create) [Md5.empty, Md5.empty] := by
  unfold Reusable
  decide +kernel

end BofStd
