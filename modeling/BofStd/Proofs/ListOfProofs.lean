import BofStd.ListOfSpec

/-!
# The intrusive lists are a stack and a deque when the header comes first

A list head and the items are cells of 16 bytes that do not overlap, so that a store to one link changes no
other (`load_store_other`, `load_store_same`). With the header at offset 0 a link address is an item address, and each call of
the model is a call of the abstract list on what the links make up. With the header anywhere else the first
removal returns an address before the item.
-/

namespace BofStd

open Memory Linked

variable {T : ItemType} {A : Arena T} {mem mem' : Mem} {l : List Nat} {p x y i j v h : Nat}

/-! ## Cells -/

/-- The list head and the items are the cells of the list. -/
def Arena.Cell (A : Arena T) (x : Nat) : Prop := x = A.listHead ∨ A.Item x

theorem Arena.cell_lt (hx : A.Cell x) : x + 16 ≤ 2 ^ 64 := by
  have hT := T.offset_le
  rcases hx with rfl | hx
  · exact A.listHead_le
  · have := A.item_le x hx
    omega

theorem Arena.item_lt (hx : A.Item x) : x < 2 ^ 64 := by
  have := cell_lt (.inr hx)
  omega

theorem Arena.cell_apart (hx : A.Cell x) (hy : A.Cell y) (hne : x ≠ y) : x + 16 ≤ y ∨ y + 16 ≤ x := by
  have hT := T.offset_le
  rcases hx with rfl | hx
  · rcases hy with rfl | hy
    · exact absurd rfl hne
    · have := A.apart_listHead y hy
      omega
  · rcases hy with rfl | hy
    · have := A.apart_listHead x hx
      omega
    · have := A.apart x y hx hy hne
      omega

theorem Arena.ne_listHead (hx : A.Item x) : x ≠ A.listHead := by
  have := A.apart_listHead x hx
  have hT := T.offset_le
  omega

/-- The two links of a cell. -/
def IsLink (i : Nat) : Prop := i = 0 ∨ i = 8

/-- A store to one link of a cell changes no link of the other kind. -/
theorem load_store_other (hx : A.Cell x) (hy : A.Cell y) (hi : IsLink i) (hj : IsLink j) (hne : j ≠ i) :
    load (store mem (x + i) v) (y + j) = load mem (y + j) := by
  apply load_store_of_disjoint
  unfold IsLink at hi hj
  by_cases hyx : y = x
  · omega
  · have := A.cell_apart hx hy (Ne.symm hyx)
    omega

/-- What it does to the links of its own kind. -/
theorem load_store_same (hx : A.Cell x) (hy : A.Cell y) (hv : v < 2 ^ 64) :
    load (store mem (x + i) v) (y + i) = if y = x then v else load mem (y + i) := by
  by_cases hyx : y = x
  · rw [if_pos hyx, hyx, load_store mem (x + i) hv]
  · rw [if_neg hyx]
    apply load_store_of_disjoint
    have := A.cell_apart hx hy (Ne.symm hyx)
    omega

/-- Only bytes of the list head and of the items of `l` change. -/
def OnlyCells (h : Nat) (l : List Nat) (mem mem' : Mem) : Prop :=
  ∀ a, (∀ x ∈ h :: l, a < x ∨ x + 16 ≤ a) → mem' a = mem a

namespace OnlyCells

theorem refl (h : Nat) (l : List Nat) (mem : Mem) : OnlyCells h l mem mem := fun _ _ => rfl

theorem store (ho : OnlyCells h l mem mem') (hx : x ∈ h :: l) (hi : IsLink i) :
    OnlyCells h l mem (Memory.store mem' (x + i) v) := by
  intro a ha
  have hax := ha x hx
  unfold IsLink at hi
  rw [store_of_outside (by omega), ho a ha]

theorem trans {mem'' : Mem} (ho : OnlyCells h l mem mem') (ho' : OnlyCells h l mem' mem'') :
    OnlyCells h l mem mem'' := by
  intro a ha
  rw [ho' a ha, ho a ha]

theorem mono {l' : List Nat} (ho : OnlyCells h l mem mem') (hl : ∀ x ∈ l, x ∈ l') : OnlyCells h l' mem mem' := by
  intro a ha
  apply ho
  intro x hx
  apply ha
  rcases List.mem_cons.mp hx with rfl | hx
  · exact List.mem_cons_self
  · exact List.mem_cons_of_mem _ (hl x hx)

/-- The items keep their bytes behind the header. -/
theorem untouched (hT : T.offset = 0) (ho : OnlyCells A.listHead l mem mem') (hl : ∀ x ∈ l, A.Item x) :
    A.Untouched mem mem' := by
  intro p hp k hk hout
  apply ho
  intro x hx
  have hcell : A.Cell x := by
    rcases List.mem_cons.mp hx with rfl | hx
    · exact .inl rfl
    · exact .inr (hl x hx)
  have hT' := T.offset_le
  rcases hcell with rfl | hx
  · have := A.apart_listHead p hp
    omega
  · by_cases heq : p = x
    · subst heq
      omega
    · have := A.apart p x hp hx heq
      omega

end OnlyCells

@[simp] theorem link_self (h : Nat) : link h h = none := if_pos rfl

theorem link_of_ne (hne : v ≠ h) : link h v = some v := if_neg hne

theorem link_eq_none : link h v = none ↔ v = h := by
  unfold link
  split
  · simp [*]
  · simp [*]

theorem link_eq_some : link h v = some x ↔ v = x ∧ x ≠ h := by
  unfold link
  split
  · rename_i hv
    constructor
    · intro hn
      cases hn
    · rintro ⟨rfl, hne⟩
      exact absurd hv hne
  · rename_i hv
    constructor
    · intro hs
      cases hs
      exact ⟨rfl, hv⟩
    · rintro ⟨rfl, -⟩
      rfl

/-- With the header first, the item address is the address of its links. -/
theorem ItemType.containerOf_of_zero (hT : T.offset = 0) (hx : x < 2 ^ 64) : T.containerOf x = x := by
  unfold containerOf
  omega

/-- With the header elsewhere, it is not. -/
theorem ItemType.containerOf_ne (hT : T.offset ≠ 0) (hx : x < 2 ^ 64) : T.containerOf x ≠ x := by
  have h1 := T.offset_le
  have h2 := T.size_lt
  unfold containerOf
  omega

/-! ## Counters -/

theorem ItemCount.increment_eq {c : ItemCount} (hlt : c.nbItemAvailable + 1 < 2 ^ 32) :
    c.increment = ⟨c.nbItemAvailable + 1, max c.nbMaxItemAvailable (c.nbItemAvailable + 1)⟩ := by
  have hmax : (if c.nbItemAvailable + 1 > c.nbMaxItemAvailable then c.nbItemAvailable + 1
      else c.nbMaxItemAvailable) = max c.nbMaxItemAvailable (c.nbItemAvailable + 1) := by
    split
    · omega
    · omega
  simp only [increment, Nat.mod_eq_of_lt hlt, hmax]

theorem ItemCount.decrement_eq {c : ItemCount} {n : Nat} (hn : c.nbItemAvailable = n + 1) (hlt : n + 1 < 2 ^ 32) :
    c.decrement = { c with nbItemAvailable := n } := by
  have hmod : (n + 1 + (2 ^ 32 - 1)) % 2 ^ 32 = n := by omega
  rw [decrement, hn, hmod]

/-! ## The loop of `Reset` -/

/-- A loop that takes the first item away until there is none leaves the list empty. -/
theorem exists_removeAll {σ : Type} {listHead : σ → Nat} {Holds : σ → Mem → List Nat → Prop}
    {removeAll : Nat → σ → Mem → Option (σ × Mem)} (removeHead : σ → Mem → σ × Mem × Nat)
    (hloop : ∀ {n s mem s' mem' item}, removeHead s mem = (s', mem', item) →
      removeAll (n + 1) s mem = if item ≠ 0 then removeAll n s' mem' else some (s', mem'))
    (hremove : ∀ {s mem l}, listHead s = A.listHead → Holds s mem l → (∀ x ∈ l, A.Item x) →
      ∃ s' mem', removeHead s mem = (s', mem', l.head?.getD 0) ∧ Holds s' mem' l.tail ∧ listHead s' = listHead s ∧
        OnlyCells (listHead s) l mem mem')
    {n : Nat} {s : σ} (hn : l.length < n) (hs : listHead s = A.listHead) (hh : Holds s mem l)
    (hl : ∀ x ∈ l, A.Item x) :
    ∃ s' mem', removeAll n s mem = some (s', mem') ∧ Holds s' mem' [] ∧ listHead s' = listHead s ∧
      OnlyCells (listHead s) l mem mem' := by
  induction n generalizing s mem l with
  | zero => omega
  | succ n ih =>
    obtain ⟨s₁, mem₁, hstep, hh₁, hs₁, ho₁⟩ := hremove hs hh hl
    rw [hloop hstep]
    cases l with
    | nil => exact ⟨s₁, mem₁, rfl, hh₁, hs₁, ho₁⟩
    | cons x l =>
      rw [List.forall_mem_cons] at hl
      rw [List.length_cons] at hn
      have hpos := A.item_pos x hl.1
      have hlen : l.length < n := by omega
      obtain ⟨s', mem', hrest, hh', hs', ho'⟩ := ih hlen (hs₁.trans hs) hh₁ hl.2
      refine ⟨s', mem', ?_, hh', hs'.trans hs₁, ?_⟩
      · exact (if_pos (Nat.ne_of_gt hpos)).trans hrest
      · rw [hs₁] at ho'
        exact ho₁.trans (ho'.mono fun _ => List.mem_cons_of_mem _)

/-! ## The single list -/

namespace SingleListOf

variable {s : SingleListOf}

theorem holds_create : Holds (create A.listHead mem).1 (create A.listHead mem).2 [] := by
  have hlt := A.listHead_le
  have hload : load (create A.listHead mem).2 A.listHead = A.listHead := by
    unfold create
    rw [load_store_of_disjoint (by omega), load_store _ _ (by omega)]
  refine ⟨?_, List.nodup_nil, rfl, by decide⟩
  exact link_eq_none.mpr hload

/-- Whether there is an item is read off the head. -/
theorem Holds.head_iff (hh : Holds s mem l) : load mem s.listHead = s.listHead ↔ l = [] := by
  have hchain := hh.chain
  cases l with
  | nil => exact iff_of_true (link_eq_none.mp hchain) rfl
  | cons x l =>
    obtain ⟨-, hne⟩ := link_eq_some.mp hchain.1
    refine iff_of_false ?_ (List.cons_ne_nil _ _)
    rw [(link_eq_some.mp hchain.1).1]
    exact hne

/-- `InsertHead` puts a new item in front. -/
theorem insertHead_spec (hT : T.offset = 0) (hs : s.listHead = A.listHead) (hh : Holds s mem l)
    (hl : ∀ x ∈ l, A.Item x) (hp : A.Item p) (hnew : p ∉ l) (hlt : l.length + 1 < 2 ^ 32) :
    ∃ mem', s.insertHead T mem p = (⟨s.listHead, s.count.increment⟩, mem', true) ∧
      Holds ⟨s.listHead, s.count.increment⟩ mem' (p :: l) ∧ OnlyCells s.listHead (p :: l) mem mem' := by
  have hhead : A.Cell s.listHead := .inl hs
  have hcell : A.Cell p := .inr hp
  have hne : s.listHead ≠ p := by
    rw [hs]
    exact (A.ne_listHead hp).symm
  have hp64 := A.item_lt hp
  have hfirst := load_lt mem s.listHead
  have hlink : IsLink 0 := .inl rfl
  -- the head names the item afterwards, the item what the head named before
  have hload : ∀ x, A.Cell x → load (store (store mem p (load mem s.listHead)) s.listHead p) x =
      if x = s.listHead then p else if x = p then load mem s.listHead else load mem x := by
    intro x hx
    have hfirst' : load (store mem (p + 0) (load mem s.listHead)) (x + 0) =
        if x = p then load mem s.listHead else load mem (x + 0) := load_store_same hcell hx hfirst
    exact (load_store_same (i := 0) hhead hx hp64).trans (congrArg _ hfirst')
  have htemp : load mem s.listHead ≠ p := by
    intro he
    have hchain := hh.chain
    cases l with
    | nil => exact hne ((link_eq_none.mp hchain).symm.trans he)
    | cons x l =>
      have hx := (link_eq_some.mp hchain.1).1
      exact hnew (List.mem_cons.mpr (.inl (he.symm.trans hx)))
  refine ⟨store (store mem p (load mem s.listHead)) s.listHead p, ?_, ⟨?_, ?_, ?_, hlt⟩, ?_⟩
  · have hpos := A.item_pos p hp
    simp only [insertHead, hT, Nat.add_zero, hload s.listHead hhead, if_true]
    rw [if_pos (by omega), if_pos htemp]
  · simp only [hload s.listHead hhead, if_true]
    rw [link_of_ne hne.symm]
    apply hh.chain.push
    · rw [hload p hcell, if_neg hne.symm, if_pos rfl]
    · intro x hx
      have hxp : x ≠ p := fun he => hnew (he ▸ hx)
      rw [hload x (.inr (hl x hx)), if_neg (hs ▸ A.ne_listHead (hl x hx)), if_neg hxp]
  · exact List.nodup_cons.mpr ⟨hnew, hh.nodup⟩
  · rw [ItemCount.increment_eq (by rw [hh.nbItemAvailable_eq]; exact hlt)]
    exact congrArg (· + 1) hh.nbItemAvailable_eq
  · exact ((OnlyCells.refl _ _ _).store (List.mem_cons_of_mem _ List.mem_cons_self) hlink).store
      List.mem_cons_self hlink

/-- `RemoveHead` takes the first item away, if there is one. -/
theorem removeHead_spec (hT : T.offset = 0) (hs : s.listHead = A.listHead) (hh : Holds s mem l)
    (hl : ∀ x ∈ l, A.Item x) :
    ∃ s' mem', s.removeHead T mem = (s', mem', l.head?.getD 0) ∧ Holds s' mem' l.tail ∧
      s'.listHead = s.listHead ∧ s'.count.nbMaxItemAvailable = s.count.nbMaxItemAvailable ∧
      OnlyCells s.listHead l mem mem' := by
  have hhead : A.Cell s.listHead := .inl hs
  have hnew := load_lt mem (load mem s.listHead)
  generalize hmem : store (store mem s.listHead (load mem (load mem s.listHead))) (s.listHead + 8)
    ((load mem (s.listHead + 8) + 1) % 2 ^ 64) = mem'
  have hload : ∀ x, A.Cell x →
      load mem' x = if x = s.listHead then load mem (load mem s.listHead) else load mem x := by
    intro x hx
    rw [← hmem]
    have hnext : load (store mem (s.listHead + 0) (load mem (load mem s.listHead))) (x + 0) =
        if x = s.listHead then load mem (load mem s.listHead) else load mem (x + 0) :=
      load_store_same hhead hx hnew
    rw [Nat.add_zero, Nat.add_zero] at hnext
    rw [← hnext]
    exact load_store_other (i := 8) (j := 0) hhead hx (.inr rfl) (.inl rfl) (by decide)
  have honly : OnlyCells s.listHead l mem mem' := by
    rw [← hmem]
    exact ((OnlyCells.refl _ _ _).store List.mem_cons_self (.inl rfl)).store List.mem_cons_self (.inr rfl)
  cases l with
  | nil =>
    have hempty : load mem s.listHead = s.listHead := hh.head_iff.mpr rfl
    refine ⟨s, mem', ?_, ⟨?_, List.nodup_nil, hh.nbItemAvailable_eq, by decide⟩, rfl, rfl, honly⟩
    · simp only [removeHead, hmem]
      rw [if_neg (by rw [hempty]; exact fun hne => hne rfl)]
      rfl
    · have hself := hload s.listHead hhead
      rw [if_pos rfl, hempty, hempty] at hself
      exact link_eq_none.mpr hself
  | cons x l =>
    obtain ⟨hx, htail⟩ := hh.chain
    obtain ⟨hfirst, hne⟩ := link_eq_some.mp hx
    rw [List.forall_mem_cons] at hl
    have hxlt := A.item_lt hl.1
    have hnd := hh.nodup
    have hlen := hh.length_lt
    rw [List.nodup_cons] at hnd
    rw [List.length_cons] at hlen
    have hcount := ItemCount.decrement_eq hh.nbItemAvailable_eq hlen
    have hlen' : l.length < 2 ^ 32 := by omega
    refine ⟨⟨s.listHead, s.count.decrement⟩, mem', ?_, ⟨?_, hnd.2, ?_, hlen'⟩, rfl, ?_, honly⟩
    · simp only [removeHead, hmem]
      rw [hfirst, if_pos hne, T.containerOf_of_zero hT hxlt]
      rfl
    · simp only [hload s.listHead hhead, if_true]
      rw [hfirst]
      apply htail.congr
      intro y hy
      rw [hload y (.inr (hl.2 y hy)), if_neg (hs ▸ A.ne_listHead (hl.2 y hy))]
    · rw [hcount]
      rfl
    · rw [hcount]

/-- The loop of `Reset` takes all items away. -/
theorem removeAll_spec (hT : T.offset = 0) {n : Nat} (hn : l.length < n) (hs : s.listHead = A.listHead)
    (hh : Holds s mem l) (hl : ∀ x ∈ l, A.Item x) :
    ∃ s' mem', removeAll T n s mem = some (s', mem') ∧ Holds s' mem' [] ∧ s'.listHead = s.listHead ∧
      OnlyCells s.listHead l mem mem' := by
  refine exists_removeAll (removeHead T) ?_ ?_ hn hs hh hl
  · intro n s mem s' mem' item hstep
    rw [removeAll, hstep]
  · intro s mem l hs hh hl
    obtain ⟨s', mem', hstep, hh', hs', -, ho⟩ := removeHead_spec hT hs hh hl
    exact ⟨s', mem', hstep, hh', hs', ho⟩

end SingleListOf

/-! ## The double list -/

namespace DoubleListOf

variable {s : DoubleListOf} {near far : Nat}

/-- The two directions in which a double list is linked. -/
def Ends (near far : Nat) : Prop := near = nextItem ∧ far = prevItem ∨ near = prevItem ∧ far = nextItem

theorem Ends.isLink (hn : Ends near far) : IsLink near ∧ IsLink far := by
  rcases hn with ⟨rfl, rfl⟩ | ⟨rfl, rfl⟩
  · exact ⟨.inl rfl, .inr rfl⟩
  · exact ⟨.inr rfl, .inl rfl⟩

theorem Ends.ne (hn : Ends near far) : near ≠ far := by
  rcases hn with ⟨rfl, rfl⟩ | ⟨rfl, rfl⟩
  · decide
  · decide

theorem Holds.symm (hh : Holds near far s mem l) : Holds far near s mem l.reverse := by
  refine ⟨hh.dlist.symm, ?_, ?_⟩
  · rw [hh.nbItemAvailable_eq, List.length_reverse]
  · rw [List.length_reverse]
    exact hh.length_lt

/-- The first cell behind the list head is the first item, or the list head itself. -/
theorem Holds.first (hh : Holds near far s mem l) (hs : s.listHead = A.listHead) (hl : ∀ x ∈ l, A.Item x) :
    link s.listHead (load mem (s.listHead + near)) = l.head? ∧ A.Cell (load mem (s.listHead + near)) := by
  have hfirst := hh.dlist.head_eq
  unfold linkAt at hfirst
  refine ⟨hfirst, ?_⟩
  cases l with
  | nil =>
    left
    rw [← hs]
    exact link_eq_none.mp hfirst
  | cons x l =>
    right
    rw [(link_eq_some.mp hfirst).1]
    exact hl x List.mem_cons_self

theorem holds_create : Holds nextItem prevItem (create A.listHead mem).1 (create A.listHead mem).2 [] := by
  have hhead : A.Cell A.listHead := .inl rfl
  have hlt : A.listHead < 2 ^ 64 := by
    have := A.listHead_le
    omega
  have hnext : IsLink nextItem := .inl rfl
  have hprev : IsLink prevItem := .inr rfl
  refine ⟨⟨?_, ?_, trivial, List.nodup_nil⟩, rfl, by decide⟩
  · apply link_eq_none.mpr
    simp only [create]
    rw [load_store_same hhead hhead hlt, if_pos rfl]
  · apply link_eq_none.mpr
    simp only [create]
    rw [load_store_other hhead hhead hnext hprev (by decide), load_store_same hhead hhead hlt, if_pos rfl]

/-- An item put in behind the list head. -/
theorem insert_spec (hn : Ends near far) (hs : s.listHead = A.listHead) (hh : Holds near far s mem l)
    (hl : ∀ x ∈ l, A.Item x) (hp : A.Item p) (hnew : p ∉ l) (hlt : l.length + 1 < 2 ^ 32) :
    ∃ mem', insert near far s mem p = (⟨s.listHead, s.count.increment⟩, mem', true) ∧
      Holds near far ⟨s.listHead, s.count.increment⟩ mem' (p :: l) ∧ OnlyCells s.listHead (p :: l) mem mem' := by
  obtain ⟨hnear, hfar⟩ := hn.isLink
  obtain ⟨hlink, hcellf⟩ := hh.first hs hl
  have hhead : A.Cell s.listHead := .inl hs
  have hcell : A.Cell p := .inr hp
  have hne : p ≠ s.listHead := by
    rw [hs]
    exact A.ne_listHead hp
  have hp64 := A.item_lt hp
  have hs64 : s.listHead < 2 ^ 64 := by
    have := A.cell_lt hhead
    omega
  have hf64 := load_lt mem (s.listHead + near)
  generalize hfirst : load mem (s.listHead + near) = first at hlink hcellf hf64
  generalize hmem : store (store (store (store mem (p + near) first) (s.listHead + near) p) (first + far) p)
    (p + far) s.listHead = mem'
  have hloadn : ∀ y, A.Cell y → load mem' (y + near) =
      if y = s.listHead then p else if y = p then first else load mem (y + near) := by
    intro y hy
    rw [← hmem, load_store_other hcell hy hfar hnear hn.ne, load_store_other hcellf hy hfar hnear hn.ne,
      load_store_same hhead hy hp64, load_store_same hcell hy hf64]
  have hloadf : ∀ y, A.Cell y → load mem' (y + far) =
      if y = p then s.listHead else if y = first then p else load mem (y + far) := by
    intro y hy
    rw [← hmem, load_store_same hcell hy hs64, load_store_same hcellf hy hp64,
      load_store_other hhead hy hnear hfar hn.ne.symm, load_store_other hcell hy hnear hfar hn.ne.symm]
  have hpl : ∀ y ∈ l, y ≠ p := fun y hy he => hnew (he ▸ hy)
  have hhl : ∀ y ∈ l, y ≠ s.listHead := by
    intro y hy
    rw [hs]
    exact A.ne_listHead (hl y hy)
  refine ⟨mem', ?_, ⟨?_, ?_, hlt⟩, ?_⟩
  · have hpos := A.item_pos p hp
    simp only [insert, hfirst]
    rw [if_pos (by omega), hmem]
  · have hold : DList (linkAt s.listHead mem near) (linkAt s.listHead mem far)
        (linkAt s.listHead mem near s.listHead) (linkAt s.listHead mem far s.listHead) ([] ++ l) := hh.dlist
    refine hold.insert hnew ?_ ?_ (fun y hy => nomatch hy) ?_ ?_ ?_ ?_ ?_
    · unfold linkAt
      rw [hloadn p hcell, if_neg hne, if_pos rfl, hlink]
    · unfold linkAt
      rw [hloadf p hcell, if_pos rfl, link_self]
      rfl
    · -- the old first item is linked back to the new one
      intro y hy
      have hyf := (link_eq_some.mp (hlink.trans hy)).1
      have hyl := List.mem_of_head? hy
      unfold linkAt
      rw [hloadf y (.inr (hl y hyl)), if_neg (hpl y hyl), if_pos hyf.symm, link_of_ne hne]
    · intro y hy _
      unfold linkAt
      rw [hloadn y (.inr (hl y hy)), if_neg (hhl y hy), if_neg (hpl y hy)]
    · intro y hy hyf
      have hne' : y ≠ first := by
        rintro rfl
        exact hyf (hlink.symm.trans (link_of_ne (hhl y hy)))
      unfold linkAt
      rw [hloadf y (.inr (hl y hy)), if_neg (hpl y hy), if_neg hne']
    · unfold linkAt
      rw [hloadn _ hhead, if_pos rfl, link_of_ne hne]
      rfl
    · unfold linkAt
      rw [hloadf _ hhead, if_neg hne.symm]
      cases l with
      | nil =>
        have hself := link_eq_none.mp hlink
        rw [if_pos hself.symm, link_of_ne hne]
        rfl
      | cons y l =>
        have hself := (link_eq_some.mp hlink).2
        have hyf := (link_eq_some.mp hlink).1
        rw [if_neg (fun he => hself (hyf.symm.trans he.symm))]
        exact hh.dlist.queue_eq
  · rw [ItemCount.increment_eq (by rw [hh.nbItemAvailable_eq]; exact hlt)]
    exact congrArg (· + 1) hh.nbItemAvailable_eq
  · have hmemf : first ∈ s.listHead :: p :: l := by
      cases l with
      | nil =>
        rw [link_eq_none.mp hlink]
        exact List.mem_cons_self
      | cons y l =>
        rw [(link_eq_some.mp hlink).1]
        simp
    have hmemp : p ∈ s.listHead :: p :: l := List.mem_cons_of_mem _ List.mem_cons_self
    rw [← hmem]
    exact ((((OnlyCells.refl _ _ _).store hmemp hnear).store List.mem_cons_self hnear).store hmemf hfar).store
      hmemp hfar

/-- Whether there is an item is read off both links of the head. -/
theorem Holds.isEmpty_iff (hh : Holds nextItem prevItem s mem l) : s.isEmpty mem = l.isEmpty := by
  have hhead := hh.dlist.head_eq
  have hqueue := hh.dlist.queue_eq
  unfold linkAt at hhead hqueue
  cases l with
  | nil =>
    unfold isEmpty
    rw [link_eq_none.mp hhead, link_eq_none.mp hqueue]
    simp
  | cons x l =>
    obtain ⟨hx, hne⟩ := link_eq_some.mp hhead
    unfold isEmpty
    rw [hx]
    simp [hne]

/-- The item behind the list head taken out. -/
theorem remove_spec (hT : T.offset = 0) (hn : Ends near far) (hs : s.listHead = A.listHead)
    (hh : Holds near far s mem l) (hl : ∀ x ∈ l, A.Item x) (hempty : s.isEmpty mem = l.isEmpty) :
    ∃ s' mem', remove near far T s mem = (s', mem', l.head?.getD 0) ∧ Holds near far s' mem' l.tail ∧
      s'.listHead = s.listHead ∧ s'.count.nbMaxItemAvailable = s.count.nbMaxItemAvailable ∧
      OnlyCells s.listHead l mem mem' := by
  cases l with
  | nil =>
    refine ⟨s, mem, ?_, hh, rfl, rfl, OnlyCells.refl _ _ _⟩
    unfold remove
    rw [hempty]
    rfl
  | cons x l =>
    obtain ⟨hnear, hfar⟩ := hn.isLink
    obtain ⟨hlink, -⟩ := hh.first hs hl
    obtain ⟨hfirst, hne⟩ := link_eq_some.mp hlink
    rw [List.forall_mem_cons] at hl
    have hhead : A.Cell s.listHead := .inl hs
    have hcell : A.Cell x := .inr hl.1
    have hs64 : s.listHead < 2 ^ 64 := by
      have := A.cell_lt hhead
      omega
    have hold : DList (linkAt s.listHead mem near) (linkAt s.listHead mem far)
        (linkAt s.listHead mem near s.listHead) (linkAt s.listHead mem far s.listHead) ([] ++ x :: l) := hh.dlist
    have hsecond := hold.links.2
    unfold linkAt at hsecond
    have hc64 := load_lt mem (x + near)
    have hkeep : load (store mem (s.listHead + near) (load mem (x + near))) (x + near) = load mem (x + near) := by
      rw [load_store_same hhead hcell hc64, if_neg hne]
    generalize hnext : load mem (x + near) = second at hsecond hc64 hkeep
    have hcells : A.Cell second := by
      cases l with
      | nil =>
        rw [link_eq_none.mp hsecond]
        exact hhead
      | cons y l =>
        rw [(link_eq_some.mp hsecond).1]
        exact .inr (hl.2 y List.mem_cons_self)
    generalize hmem : store (store mem (s.listHead + near) second) (second + far) s.listHead = mem'
    have hloadn : ∀ y, A.Cell y → load mem' (y + near) = if y = s.listHead then second else load mem (y + near) := by
      intro y hy
      rw [← hmem, load_store_other hcells hy hfar hnear hn.ne, load_store_same hhead hy hc64]
    have hloadf : ∀ y, A.Cell y → load mem' (y + far) = if y = second then s.listHead else load mem (y + far) := by
      intro y hy
      rw [← hmem, load_store_same hcells hy hs64, load_store_other hhead hy hnear hfar hn.ne.symm]
    have hhl : ∀ y ∈ l, y ≠ s.listHead := by
      intro y hy
      rw [hs]
      exact A.ne_listHead (hl.2 y hy)
    have hlen := hh.length_lt
    rw [List.length_cons] at hlen
    have hlen' : l.length < 2 ^ 32 := by omega
    have hcount := ItemCount.decrement_eq hh.nbItemAvailable_eq hlen
    have hlist : DList (linkAt s.listHead mem' near) (linkAt s.listHead mem' far) l.head? l.getLast? ([] ++ l) := by
      refine hold.remove (fun y hy => nomatch hy) ?_ ?_ ?_
      · intro y hy
        have hys := (link_eq_some.mp (hsecond.trans hy)).1
        unfold linkAt
        rw [hloadf y (.inr (hl.2 y (List.mem_of_head? hy))), if_pos hys.symm, link_self]
        rfl
      · intro y hy _
        unfold linkAt
        rw [hloadn y (.inr (hl.2 y hy)), if_neg (hhl y hy)]
      · intro y hy hys
        have hne' : y ≠ second := by
          rintro rfl
          exact hys (hsecond.symm.trans (link_of_ne (hhl y hy)))
        unfold linkAt
        rw [hloadf y (.inr (hl.2 y hy)), if_neg hne']
    have hends : linkAt s.listHead mem' near s.listHead = l.head? ∧ linkAt s.listHead mem' far s.listHead = l.getLast? := by
      constructor
      · unfold linkAt
        rw [hloadn _ hhead, if_pos rfl, hsecond]
      · unfold linkAt
        rw [hloadf _ hhead]
        cases l with
        | nil =>
          rw [if_pos (link_eq_none.mp hsecond).symm, link_self]
          rfl
        | cons y l =>
          obtain ⟨hys, hne'⟩ := link_eq_some.mp hsecond
          rw [if_neg (fun he => hne' (hys.symm.trans he.symm))]
          exact hh.dlist.queue_eq
    refine ⟨⟨s.listHead, s.count.decrement⟩, mem', ?_, ⟨?_, ?_, hlen'⟩, rfl, ?_, ?_⟩
    · unfold remove
      rw [hempty]
      simp only [List.isEmpty_cons, Bool.false_eq_true, if_false, hfirst, hnext, hkeep, hmem,
        T.containerOf_of_zero hT (A.item_lt hl.1)]
      rfl
    · exact ⟨hends.1, hends.2, hlist.seg, hlist.nodup⟩
    · rw [hcount]
      rfl
    · rw [hcount]
    · have hmems : second ∈ s.listHead :: x :: l := by
        cases l with
        | nil =>
          rw [link_eq_none.mp hsecond]
          exact List.mem_cons_self
        | cons y l =>
          rw [(link_eq_some.mp hsecond).1]
          simp
      rw [← hmem]
      exact ((OnlyCells.refl _ _ _).store List.mem_cons_self hnear).store hmems hfar

/-- An insertion at the end of the list is one at the front of the list read backwards. -/
theorem insertTail_spec {s : DoubleListOf} (hs : s.listHead = A.listHead) (hh : Holds nextItem prevItem s mem l)
    (hl : ∀ x ∈ l, A.Item x) (hp : A.Item p) (hnew : p ∉ l) (hlt : l.length + 1 < 2 ^ 32) :
    ∃ mem', s.insertTail mem p = (⟨s.listHead, s.count.increment⟩, mem', true) ∧
      Holds nextItem prevItem ⟨s.listHead, s.count.increment⟩ mem' (l ++ [p]) ∧
      OnlyCells s.listHead (l ++ [p]) mem mem' := by
  obtain ⟨mem', hstep, hh', ho⟩ := insert_spec (.inr ⟨rfl, rfl⟩) hs hh.symm
    (fun x hx => hl x (List.mem_reverse.mp hx)) hp (fun hx => hnew (List.mem_reverse.mp hx))
    (by rw [List.length_reverse]; exact hlt)
  have hback := hh'.symm
  rw [List.reverse_cons, List.reverse_reverse] at hback
  refine ⟨mem', hstep, hback, ho.mono ?_⟩
  intro x hx
  rcases List.mem_cons.mp hx with rfl | hx
  · exact List.mem_append_right _ List.mem_cons_self
  · exact List.mem_append_left _ (List.mem_reverse.mp hx)

/-- A removal at the end of the list is one at the front of the list read backwards. -/
theorem removeTail_spec {s : DoubleListOf} (hT : T.offset = 0) (hs : s.listHead = A.listHead)
    (hh : Holds nextItem prevItem s mem l) (hl : ∀ x ∈ l, A.Item x) :
    ∃ s' mem', s.removeTail T mem = (s', mem', l.getLast?.getD 0) ∧ Holds nextItem prevItem s' mem' l.dropLast ∧
      s'.listHead = s.listHead ∧ s'.count.nbMaxItemAvailable = s.count.nbMaxItemAvailable ∧
      OnlyCells s.listHead l mem mem' := by
  have hempty : s.isEmpty mem = l.reverse.isEmpty := by
    rw [hh.isEmpty_iff, List.isEmpty_reverse]
  obtain ⟨s', mem', hstep, hh', hs', hc', ho⟩ := remove_spec hT (.inr ⟨rfl, rfl⟩) hs hh.symm
    (fun x hx => hl x (List.mem_reverse.mp hx)) hempty
  have hback := hh'.symm
  rw [List.tail_reverse, List.reverse_reverse] at hback
  rw [List.head?_reverse] at hstep
  exact ⟨s', mem', hstep, hback, hs', hc', ho.mono fun x => List.mem_reverse.mp⟩

/-- The loop of `Reset` takes all items away. -/
theorem removeAll_spec (hT : T.offset = 0) {n : Nat} (hn : l.length < n) (hs : s.listHead = A.listHead)
    (hh : Holds nextItem prevItem s mem l) (hl : ∀ x ∈ l, A.Item x) :
    ∃ s' mem', removeAll T n s mem = some (s', mem') ∧ Holds nextItem prevItem s' mem' [] ∧
      s'.listHead = s.listHead ∧ OnlyCells s.listHead l mem mem' := by
  refine exists_removeAll (removeHead T) ?_ ?_ hn hs hh hl
  · intro n s mem s' mem' item hstep
    rw [removeAll, hstep]
  · intro s mem l hs hh hl
    obtain ⟨s', mem', hstep, hh', hs', -, ho⟩ := remove_spec hT (.inl ⟨rfl, rfl⟩) hs hh hl hh.isEmpty_iff
    exact ⟨s', mem', hstep, hh', hs', ho⟩

end DoubleListOf

end BofStd

/-!
# Runs of the intrusive lists

With the header first, each call of a list is one call of the stack or of the deque (`step_sim`), and so is
each run. With the header elsewhere one item put in and taken out again comes back as another pointer.
-/

namespace BofStd

open Memory

variable {T : ItemType} {A : Arena T} {mem mem' mem₀ : Mem} {l : List Nat} {p : Nat} {d : Deque}

theorem Arena.Untouched.trans {mem₁ : Mem} (hu : A.Untouched mem₀ mem) (hu' : A.Untouched mem mem₁) :
    A.Untouched mem₀ mem₁ := by
  intro p hp k hk hout
  rw [hu' p hp k hk hout, hu p hp k hk hout]

/-- The counters of a list agree with the abstract list, and the memory with the one at the start. -/
structure Tracks (A : Arena T) (mem₀ : Mem) (listHead : Nat) (count : ItemCount) (mem : Mem) (d : Deque) : Prop where
  listHead_eq : listHead = A.listHead
  items : ∀ x ∈ d.items, A.Item x
  most_eq : count.nbMaxItemAvailable = d.most
  untouched : A.Untouched mem₀ mem

theorem Tracks.resetMax {h : Nat} {c : ItemCount} (ht : Tracks A mem₀ h c mem d) :
    Tracks A mem₀ h c.resetMax mem { d with most := 0 } :=
  ⟨ht.listHead_eq, ht.items, rfl, ht.untouched⟩

/-- What an insertion changes beside the links. -/
theorem Tracks.insert {h : Nat} {c : ItemCount} {xs : List Nat} (hT : T.offset = 0) (ht : Tracks A mem₀ h c mem d)
    (hnb : c.nbItemAvailable = d.items.length) (hlt : d.items.length + 1 < 2 ^ 32) (hp : A.Item p)
    (hxs : ∀ x, x ∈ xs ↔ x = p ∨ x ∈ d.items) (ho : OnlyCells h xs mem mem') :
    Tracks A mem₀ h c.increment mem' ⟨xs, max d.most (d.items.length + 1)⟩ := by
  have hitems : ∀ x ∈ xs, A.Item x := by
    intro x hx
    rcases (hxs x).mp hx with rfl | hx
    · exact hp
    · exact ht.items x hx
  rw [ht.listHead_eq] at ho
  refine ⟨ht.listHead_eq, hitems, ?_, ht.untouched.trans (ho.untouched hT hitems)⟩
  rw [ItemCount.increment_eq (by rw [hnb]; exact hlt), hnb, ht.most_eq]

/-- What a removal changes beside the links. -/
theorem Tracks.remove {h h' : Nat} {c c' : ItemCount} {xs : List Nat} (hT : T.offset = 0)
    (ht : Tracks A mem₀ h c mem d) (hh : h' = h) (hc : c'.nbMaxItemAvailable = c.nbMaxItemAvailable)
    (hxs : ∀ x ∈ xs, x ∈ d.items) (ho : OnlyCells h d.items mem mem') :
    Tracks A mem₀ h' c' mem' { d with items := xs } := by
  rw [ht.listHead_eq] at ho
  refine ⟨hh.trans ht.listHead_eq, ?_, hc.trans ht.most_eq, ht.untouched.trans (ho.untouched hT ht.items)⟩
  intro x hx
  exact ht.items x (hxs x hx)

/-- What `Reset` changes beside the links. -/
theorem Tracks.reset {h h' : Nat} {c c' : ItemCount} (hT : T.offset = 0) (ht : Tracks A mem₀ h c mem d)
    (hh : h' = h) (ho : OnlyCells h d.items mem mem') :
    Tracks A mem₀ h' c'.resetMax mem' Deque.empty := by
  rw [ht.listHead_eq] at ho
  refine ⟨hh.trans ht.listHead_eq, ?_, rfl, ht.untouched.trans (ho.untouched hT ht.items)⟩
  intro x hx
  cases hx

/-- Where an item of the given size fits behind a list head. -/
def arenaAt (T : ItemType) : Arena T where
  listHead := 16
  Item p := p = 32
  listHead_le := by decide
  item_pos := by
    rintro p rfl
    decide
  item_le := by
    rintro p rfl
    have := T.size_lt
    omega
  apart := by
    rintro p q rfl rfl hne
    exact absurd rfl hne
  apart_listHead := by
    rintro p rfl
    exact .inr (by decide)

namespace SingleListOf

/-- The list object and the memory make up the abstract list. -/
structure Sim (A : Arena T) (mem₀ : Mem) (d : Deque) (r : SingleListOf × Mem) : Prop where
  holds : Holds r.1 r.2 d.items
  tracks : Tracks A mem₀ r.1.listHead r.1.count r.2 d

theorem sim_create (hT : T.offset = 0) : Sim A mem Deque.empty (create A.listHead mem) := by
  have honly : OnlyCells A.listHead [] mem (create A.listHead mem).2 :=
    ((OnlyCells.refl _ _ _).store (i := 0) List.mem_cons_self (.inl rfl)).store List.mem_cons_self (.inr rfl)
  have hnil : ∀ x ∈ Deque.empty.items, A.Item x := fun x hx => nomatch hx
  exact ⟨holds_create, rfl, hnil, rfl, honly.untouched hT hnil⟩

/-- One call. -/
theorem step_sim (hT : T.offset = 0) {r : SingleListOf × Mem} (hr : Sim A mem₀ d r) (op : Op) (hop : Legal A d op) :
    Sim A mem₀ (stackStep d op).1 (step T r op).1 ∧ (stackStep d op).2 = (step T r op).2 := by
  obtain ⟨s, mem⟩ := r
  obtain ⟨hh, ht⟩ := hr
  cases op with
  | insertHead p =>
    obtain ⟨hp, hnew, hlt⟩ := hop
    obtain ⟨mem', hstep, hh', ho⟩ := insertHead_spec hT ht.listHead_eq hh ht.items hp hnew hlt
    simp only [step, hstep]
    exact ⟨⟨hh', ht.insert hT hh.nbItemAvailable_eq hlt hp (fun x => List.mem_cons) ho⟩, rfl⟩
  | removeHead =>
    obtain ⟨s', mem', hstep, hh', hs', hc', ho⟩ := removeHead_spec hT ht.listHead_eq hh ht.items
    simp only [step, hstep]
    exact ⟨⟨hh', ht.remove hT hs' hc' (fun x => List.mem_of_mem_tail) ho⟩, rfl⟩
  | isEmpty =>
    have hempty : s.isEmpty mem = d.items.isEmpty := by
      rw [Bool.eq_iff_iff, List.isEmpty_iff, ← hh.head_iff]
      exact beq_iff_eq
    exact ⟨⟨hh, ht⟩, congrArg ListOut.empty hempty.symm⟩
  | getNbItemAvailable => exact ⟨⟨hh, ht⟩, congrArg ListOut.count hh.nbItemAvailable_eq.symm⟩
  | getNbMaxItemAvailable reset =>
    refine ⟨?_, congrArg ListOut.count ht.most_eq.symm⟩
    cases reset with
    | false => exact ⟨hh, ht⟩
    | true => exact ⟨⟨hh.chain, hh.nodup, hh.nbItemAvailable_eq, hh.length_lt⟩, ht.resetMax⟩
  | reset =>
    have hlen : d.items.length < 2 ^ 64 := Nat.lt_trans hh.length_lt (by decide)
    obtain ⟨s', mem', hloop, hh', hs', ho⟩ := removeAll_spec hT hlen ht.listHead_eq hh ht.items
    simp only [step, reset, hloop, Option.map_some]
    exact ⟨⟨⟨hh'.chain, hh'.nodup, hh'.nbItemAvailable_eq, hh'.length_lt⟩, ht.reset hT hs' ho⟩, rfl⟩

/-- The first removal after an insertion computes its result from the item pointer. -/
theorem removeHead_of_insertHead (hp : A.Item p) :
    (Machine.run (step T) (create A.listHead mem) [.insertHead p, .removeHead]).2 =
      [.inserted true, .item (T.containerOf p)] := by
  have hpos := A.item_pos p hp
  have hne := A.ne_listHead hp
  have hlt := A.listHead_le
  have happart := A.apart_listHead p hp
  have hT := T.offset_le
  have hempty : load (create A.listHead mem).2 A.listHead = A.listHead := holds_create.head_iff.mpr rfl
  have hfirst : load (store (store (create A.listHead mem).2 (p + T.offset) A.listHead) A.listHead p)
      A.listHead = p := load_store _ _ (A.item_lt hp)
  generalize hs : (create A.listHead mem).2 = mem₁ at hempty hfirst
  generalize hmem : store (store mem₁ (p + T.offset) A.listHead) A.listHead p = mem₂ at hfirst
  have hinsert : insertHead T (create A.listHead mem).1 mem₁ p =
      (⟨A.listHead, (create A.listHead mem).1.count.increment⟩, mem₂, true) := by
    simp only [insertHead, create, hempty, hmem, hfirst]
    rw [if_pos (by omega), if_pos hne.symm]
  simp only [Machine.run_cons, Machine.run_nil, step, hs, hinsert, removeHead, hfirst, if_pos hne]

/-- The single list is a stack exactly when the header comes first in an item. -/
theorem isStack_iff_offset : IsStack T ↔ T.offset = 0 := by
  constructor
  · intro hstack
    by_contra hT
    have hlegal : Machine.Meets stackStep (Legal (arenaAt T)) Deque.empty [.insertHead 32, .removeHead] :=
      ⟨⟨rfl, List.not_mem_nil, by decide⟩, trivial, trivial⟩
    obtain ⟨hout, -⟩ := hstack (arenaAt T) (fun _ => 0) _ hlegal
    rw [removeHead_of_insertHead rfl] at hout
    have hitem : ListOut.item (T.containerOf 32) = ListOut.item 32 := (List.cons.inj (List.cons.inj hout).2).1
    exact T.containerOf_ne hT (by decide) (ListOut.item.inj hitem)
  · intro hT A mem ops hlegal
    obtain ⟨hsim, hout⟩ := Machine.sim_run (R := Sim A mem) (v := id)
      (fun d r op (hr : Sim A mem d r) hop => step_sim hT hr op hop) (sim_create hT) hlegal
    rw [List.map_id] at hout
    exact ⟨hout.symm, hsim.holds.nbItemAvailable_eq, hsim.tracks.untouched⟩

end SingleListOf

namespace DoubleListOf

/-- The list object and the memory make up the abstract list. -/
structure Sim (A : Arena T) (mem₀ : Mem) (d : Deque) (r : DoubleListOf × Mem) : Prop where
  holds : Holds nextItem prevItem r.1 r.2 d.items
  tracks : Tracks A mem₀ r.1.listHead r.1.count r.2 d

theorem sim_create (hT : T.offset = 0) : Sim A mem Deque.empty (create A.listHead mem) := by
  have honly : OnlyCells A.listHead [] mem (create A.listHead mem).2 :=
    ((OnlyCells.refl _ _ _).store List.mem_cons_self (.inr rfl)).store List.mem_cons_self (.inl rfl)
  have hnil : ∀ x ∈ Deque.empty.items, A.Item x := fun x hx => nomatch hx
  exact ⟨holds_create, rfl, hnil, rfl, honly.untouched hT hnil⟩

/-- One call. -/
theorem step_sim (hT : T.offset = 0) {r : DoubleListOf × Mem} (hr : Sim A mem₀ d r) (op : Op) (hop : Legal A d op) :
    Sim A mem₀ (dequeStep d op).1 (step T r op).1 ∧ (dequeStep d op).2 = (step T r op).2 := by
  obtain ⟨s, mem⟩ := r
  obtain ⟨hh, ht⟩ := hr
  cases op with
  | insertHead p =>
    obtain ⟨hp, hnew, hlt⟩ := hop
    obtain ⟨mem', hstep, hh', ho⟩ := insert_spec (.inl ⟨rfl, rfl⟩) ht.listHead_eq hh ht.items hp hnew hlt
    simp only [step, insertHead, hstep]
    exact ⟨⟨hh', ht.insert hT hh.nbItemAvailable_eq hlt hp (fun x => List.mem_cons) ho⟩, rfl⟩
  | insertTail p =>
    obtain ⟨hp, hnew, hlt⟩ := hop
    obtain ⟨mem', hstep, hh', ho⟩ := insertTail_spec ht.listHead_eq hh ht.items hp hnew hlt
    have hmem : ∀ x, x ∈ d.items ++ [p] ↔ x = p ∨ x ∈ d.items := by
      intro x
      rw [List.mem_append, List.mem_singleton, or_comm]
    simp only [step, hstep]
    exact ⟨⟨hh', ht.insert hT hh.nbItemAvailable_eq hlt hp hmem ho⟩, rfl⟩
  | removeHead =>
    obtain ⟨s', mem', hstep, hh', hs', hc', ho⟩ :=
      remove_spec hT (.inl ⟨rfl, rfl⟩) ht.listHead_eq hh ht.items hh.isEmpty_iff
    simp only [step, removeHead, hstep]
    exact ⟨⟨hh', ht.remove hT hs' hc' (fun x => List.mem_of_mem_tail) ho⟩, rfl⟩
  | removeTail =>
    obtain ⟨s', mem', hstep, hh', hs', hc', ho⟩ := removeTail_spec hT ht.listHead_eq hh ht.items
    simp only [step, hstep]
    exact ⟨⟨hh', ht.remove hT hs' hc' (fun x hx => List.dropLast_subset _ hx) ho⟩, rfl⟩
  | isEmpty => exact ⟨⟨hh, ht⟩, congrArg ListOut.empty hh.isEmpty_iff.symm⟩
  | getNbItemAvailable => exact ⟨⟨hh, ht⟩, congrArg ListOut.count hh.nbItemAvailable_eq.symm⟩
  | getNbMaxItemAvailable reset =>
    refine ⟨?_, congrArg ListOut.count ht.most_eq.symm⟩
    cases reset with
    | false => exact ⟨hh, ht⟩
    | true => exact ⟨⟨hh.dlist, hh.nbItemAvailable_eq, hh.length_lt⟩, ht.resetMax⟩
  | reset =>
    have hlen : d.items.length < 2 ^ 64 := Nat.lt_trans hh.length_lt (by decide)
    obtain ⟨s', mem', hloop, hh', hs', ho⟩ := removeAll_spec hT hlen ht.listHead_eq hh ht.items
    simp only [step, reset, hloop, Option.map_some]
    exact ⟨⟨⟨hh'.dlist, hh'.nbItemAvailable_eq, hh'.length_lt⟩, ht.reset hT hs' ho⟩, rfl⟩

/-- The first removal after an insertion computes its result from the item pointer. -/
theorem removeHead_of_insertHead (hp : A.Item p) :
    (Machine.run (step T) (create A.listHead mem) [.insertHead p, .removeHead]).2 =
      [.inserted true, .item (T.containerOf p)] := by
  have hnew : Holds nextItem prevItem (create A.listHead mem).1 (create A.listHead mem).2 [] := holds_create
  obtain ⟨mem', hstep, hh, -⟩ := insert_spec (A := A) (.inl ⟨rfl, rfl⟩) rfl hnew
    (fun x hx => nomatch hx) hp List.not_mem_nil (by decide)
  have hempty := hh.isEmpty_iff
  have hfirst := (link_eq_some.mp hh.dlist.head_eq.symm.symm).1
  simp only [Machine.run_cons, Machine.run_nil, step, insertHead, hstep, removeHead, remove, hempty, hfirst,
    List.isEmpty_cons, Bool.false_eq_true, if_false]

/-- The double list is a deque exactly when the header comes first in an item. -/
theorem isDeque_iff_offset : IsDeque T ↔ T.offset = 0 := by
  constructor
  · intro hdeque
    by_contra hT
    have hlegal : Machine.Meets dequeStep (Legal (arenaAt T)) Deque.empty [.insertHead 32, .removeHead] :=
      ⟨⟨rfl, List.not_mem_nil, by decide⟩, trivial, trivial⟩
    obtain ⟨hout, -⟩ := hdeque (arenaAt T) (fun _ => 0) _ hlegal
    rw [removeHead_of_insertHead rfl] at hout
    have hitem : ListOut.item (T.containerOf 32) = ListOut.item 32 := (List.cons.inj (List.cons.inj hout).2).1
    exact T.containerOf_ne hT (by decide) (ListOut.item.inj hitem)
  · intro hT A mem ops hlegal
    obtain ⟨hsim, hout⟩ := Machine.sim_run (R := Sim A mem) (v := id)
      (fun d r op (hr : Sim A mem d r) hop => step_sim hT hr op hop) (sim_create hT) hlegal
    rw [List.map_id] at hout
    exact ⟨hout.symm, hsim.holds.nbItemAvailable_eq, hsim.tracks.untouched⟩

end DoubleListOf

/-- The intrusive lists take an item type exactly when its header is the first member. -/
theorem acceptsItem_iff : AcceptsItem T ↔ T.offset = 0 := by
  unfold AcceptsItem
  rw [SingleListOf.isStack_iff_offset, DoubleListOf.isDeque_iff_offset, and_self]

/-- Items of 48 bytes with the header behind the first 16 bytes. -/
def paddedItem : ItemType := ⟨48, 16, by decide, by decide⟩

/-- An item at the address 32 comes back as 16. -/
theorem not_acceptsItem_padded :
    (∀ mem, (Machine.run (SingleListOf.step paddedItem) (SingleListOf.create 16 mem)
      [.insertHead 32, .removeHead]).2 = [.inserted true, .item 16]) ∧
      (∀ mem, (Machine.run (DoubleListOf.step paddedItem) (DoubleListOf.create 16 mem)
        [.insertHead 32, .removeHead]).2 = [.inserted true, .item 16]) ∧ ¬ AcceptsItem paddedItem := by
  refine ⟨?_, ?_, ?_⟩
  · intro mem
    exact SingleListOf.removeHead_of_insertHead (A := arenaAt paddedItem) rfl
  · intro mem
    exact DoubleListOf.removeHead_of_insertHead (A := arenaAt paddedItem) rfl
  · rintro ⟨-, hdeque⟩
    exact absurd (DoubleListOf.isDeque_iff_offset.mp hdeque) (by decide)

end BofStd
