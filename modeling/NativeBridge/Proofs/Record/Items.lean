import NativeBridge.Proofs.Record.Fields

/-! Arrays of one item.

    The reference host makes an array of a descriptor and the bytes of one item, copied from the
    start of what it is given (`Heap.array_cases`). To take an item the index is multiplied by the
    size of the item and the size is added to the product. In a word that could come round to the
    start again, but a result that does not fit ends the call (`itemBytes?`). So the first item is
    the only one for as long as the array is there (`Heap.array_has_one_item`). -/

namespace NativeBridge

namespace Heap

variable {h h' h₂ : Heap} {descr array storage : Ref} {layout : Layout} {bytes : List UInt8}
  {out : Multiset Ref}

/-! ### Copies -/

/-- A new object, and new storage that it holds with these bytes; what was there before is as it
    was. -/
def Backed (h : Heap) (r : Ref) (holding : Ref → Body) (bytes : List UInt8) (h' : Heap) : Prop :=
  ∃ storage, h.Grown [(r, ⟨.fresh, 0, holding storage⟩), (storage, ⟨.fresh, 0, .bytes bytes⟩)] h'

theorem backed_alloc (h : Heap) (bytes : List UInt8) (holding : Ref → Body) :
    h.Backed (h.slots.length + 1) holding bytes
      ((h.alloc (.bytes bytes)).1.alloc (holding h.slots.length)).1 :=
  ⟨h.slots.length, by
    simpa using ((Grown.refl h).alloc (.bytes bytes)).alloc (holding h.slots.length)⟩

/-- A copy for an object with a descriptor is the bytes of its item. -/
theorem Backed.parts {r : Ref} {holding : Ref → Body} (backed : h.Backed r holding bytes h')
    (described : h.layout? descr = some layout) :
    ∃ storage, h'.body? r = some (holding storage) ∧ h'.Parts descr storage layout bytes := by
  obtain ⟨storage, grown⟩ := backed
  obtain ⟨o, found⟩ := live_of_layout? described
  have data : h'.body? storage = some (.bytes bytes) :=
    grown.body?_new (o := ⟨.fresh, 0, .bytes bytes⟩) (by simp)
  exact ⟨storage, grown.body?_new List.mem_cons_self,
    by rw [layout?_congr (grown.body?_eq found), described], by rw [data?, data]⟩

/-! ### Making an array -/

/-- This descriptor describes an item that the bytes begin with. -/
def Describes (h : Heap) (descr : Ref) (bytes : List UInt8) (layout : Layout) : Prop :=
  h.layout? descr = some layout ∧ 0 < layout.itemSize ∧ layout.itemSize ≤ bytes.length

/-- Either there is an array with a copy of the first item, or the reference is given back. -/
theorem array_cases (h : Heap) (bytes : List UInt8) (descr : Ref) :
    (∃ layout array h', h.Describes descr bytes layout ∧
      Services.reference.array h bytes descr = (h', some array) ∧
      h.Backed array (.recordArray descr) (bytes.take layout.itemSize) h') ∨
    (∀ layout, ¬h.Describes descr bytes layout) ∧
      Services.reference.array h bytes descr = (h.release descr, none) := by
  by_cases fits : ∃ layout, h.Describes descr bytes layout
  · obtain ⟨layout, described, positive, long⟩ := fits
    exact .inl ⟨layout, _, _, ⟨described, positive, long⟩, array_eq rfl described positive long,
      backed_alloc h _ _⟩
  · exact .inr ⟨not_exists.mp fits,
      array_eq_none fun layout described usable => fits ⟨layout, described, usable.2⟩⟩

theorem accounts_array (acc : h.Accounts (descr ::ₘ out)) (s : Services) (bytes : List UInt8) :
    (s.array h bytes descr).1.Accounts ((s.array h bytes descr).2.toList + out) :=
  Custody.accounts_moves_in_hand (Custody.moves_array s bytes descr) acc

/-! ### Taking an item -/

/-- Either the item is the first, and comes with a copy of the bytes, or nothing happens. -/
theorem item_cases (body : h.body? array = some (.recordArray descr storage))
    (parts : h.Parts descr storage layout bytes) (all : bytes.length = layout.itemSize)
    (positive : 0 < layout.itemSize) (word : layout.itemSize < sizeLimit) (index : Nat) :
    (∃ record h', index = 0 ∧ Services.reference.item h array index = (h', some record) ∧
      (h.retain descr).Backed record (.record descr) bytes h') ∨
    index ≠ 0 ∧ Services.reference.item h array index = (h, none) := by
  rcases Nat.eq_zero_or_pos index with rfl | later
  · have backed := backed_alloc (h.retain descr) bytes (.record descr)
    rw [length_retain] at backed
    exact .inl ⟨_, _, rfl, item_eq rfl body parts.layout parts.data word all, backed⟩
  · refine .inr ⟨Nat.ne_of_gt later, item_eq_none body parts.layout parts.data fun _ => ?_⟩
    refine Option.eq_none_iff_forall_ne_some.mpr fun part given => ?_
    obtain ⟨rfl, _⟩ := (itemBytes?_of_one all positive).mp given
    exact absurd later (Nat.lt_irrefl 0)

theorem accounts_item (acc : h.Accounts (array ::ₘ out)) (s : Services) (index : Nat) :
    (s.item h array index).1.Accounts ((s.item h array index).2.toList + array ::ₘ out) :=
  Custody.accounts_moves_in_hand (Custody.moves_item s index (Multiset.mem_cons_self array out)) acc

/-- Whatever came of the heap since the array was made, its first item is the one that can be
    taken. -/
theorem item_of_backed (backed : h.Backed array (.recordArray descr) bytes h')
    (described : h.layout? descr = some layout) (all : bytes.length = layout.itemSize)
    (positive : 0 < layout.itemSize) (word : layout.itemSize < sizeLimit) (keeps : h'.Keeps h₂)
    (acc : h₂.Accounts (array ::ₘ out)) (index : Nat) :
    let taken := Services.reference.item h₂ array index
    (taken.2.isSome ↔ index = 0) ∧ (taken.2 = none → taken.1 = h₂) ∧
      ∀ record ∈ taken.2, (h₂.retain descr).Backed record (.record descr) bytes taken.1 := by
  obtain ⟨storage, body, parts⟩ := backed.parts described
  have held := keeps.body?_of_live body (acc.owned (Multiset.mem_cons_self array out))
  have kept := parts.of_holder keeps acc rfl held
  obtain ⟨record, h₃, rfl, taken, own⟩ | ⟨later, untaken⟩ :=
    item_cases held kept all positive word index
  · simpa [taken] using own
  · simpa [untaken] using later

/-- An array is made exactly with a descriptor whose item is not empty and is there, and has a copy
    of its bytes. Of it the first item can be taken, as often as one likes, with a copy of its own
    and the descriptor of the array, and no other, however large the index. Where there is nothing
    to give nothing is made, and the reference to the descriptor is the only one that goes. -/
theorem array_has_one_item {bytes : List UInt8} (word : bytes.length < sizeLimit) (h : Heap)
    (descr : Ref) :
    let made := Services.reference.array h bytes descr
    (made.2.isSome ↔ ∃ layout, h.Describes descr bytes layout) ∧
    (made.2 = none → made.1 = h.release descr) ∧
    (∀ out, h.Accounts (descr ::ₘ out) → made.1.Accounts (made.2.toList + out)) ∧
    ∀ array ∈ made.2, ∃ layout, h.Describes descr bytes layout ∧
      h.Backed array (.recordArray descr) (bytes.take layout.itemSize) made.1 ∧
      ∀ h₂ out, made.1.Keeps h₂ → h₂.Accounts (array ::ₘ out) → ∀ index,
        let taken := Services.reference.item h₂ array index
        taken.1.Accounts (taken.2.toList + array ::ₘ out) ∧
        (taken.2.isSome ↔ index = 0) ∧ (taken.2 = none → taken.1 = h₂) ∧
        ∀ record ∈ taken.2, (h₂.retain descr).Backed record (.record descr)
          (bytes.take layout.itemSize) taken.1 := by
  intro made
  have accounts : ∀ out, h.Accounts (descr ::ₘ out) → made.1.Accounts (made.2.toList + out) :=
    fun out acc => accounts_array acc _ bytes
  obtain ⟨layout, array, h', describes, answer, backed⟩ | ⟨refused, answer⟩ :=
    array_cases h bytes descr
  · refine ⟨by simpa [made, answer] using ⟨layout, describes⟩, by simp [made, answer], accounts,
      fun array' mem => ⟨layout, describes, ?_⟩⟩
    have same : array' = array := by simpa [made, answer, eq_comm] using mem
    have backed : h.Backed array' (.recordArray descr) (bytes.take layout.itemSize) made.1 := by
      simpa [made, answer, same] using backed
    obtain ⟨described, positive, long⟩ := describes
    refine ⟨backed, fun h₂ out keeps acc index => ⟨accounts_item acc _ index, ?_⟩⟩
    exact item_of_backed backed described (List.length_take_of_le long) positive
      (long.trans_lt word) keeps acc index
  · exact ⟨by simpa [made, answer] using refused, by simp [made, answer], accounts,
      by simp [made, answer]⟩

/-- An index whose product with the size is one more than a word holds does not come round to the
    first item; and of one byte no array is made that needs two. -/
theorem array_has_one_item_of_wrapping :
    let h := (initial.newDescriptor (.scalar (.uint .two))).1
    let made := Services.reference.array h [7, 8, 9] 1
    let item := Services.reference.item made.1 3
    ([7, 8, 9] : List UInt8).length < sizeLimit ∧ h.Accounts {1} ∧
      made.2 = some 3 ∧ made.1.Accounts {3} ∧ h.Backed 3 (.recordArray 1) [7, 8] made.1 ∧
      (item 0).2 = some 5 ∧ (made.1.retain 1).Backed 5 (.record 1) [7, 8] (item 0).1 ∧
      2 ^ 63 * 2 = sizeLimit ∧ item (2 ^ 63) = (made.1, none) ∧
      (Services.reference.array h [7] 1).1 = h.release 1 := by
  intro h made item
  have word : ([7, 8, 9] : List UInt8).length < sizeLimit := by decide
  have acc : h.Accounts (1 ::ₘ 0) := (accounts_place_newDescriptor _ []).of_slots_eq rfl
  have answer : made.2 = some 3 := by decide +kernel
  have first : (item 0).2 = some 5 := by decide +kernel
  obtain ⟨_, _, accounts, one⟩ := array_has_one_item word h 1
  have counted : made.1.Accounts (made.2.toList + 0) := accounts 0 acc
  rw [answer] at counted
  obtain ⟨layout, ⟨described, _⟩, backed, items⟩ := one 3 answer
  obtain rfl : Layout.scalar (.uint .two) = layout := Option.some.inj described
  have itemAt := items made.1 0 (.refl _) counted
  obtain ⟨_, _, _, record⟩ := itemAt 0
  obtain ⟨_, only, untaken, _⟩ := itemAt (2 ^ 63)
  have refused : (item (2 ^ 63)).2 = none :=
    Option.not_isSome_iff_eq_none.mp fun taken => absurd (only.mp taken) (by decide)
  have short : ([7] : List UInt8).length < sizeLimit := by decide
  exact ⟨word, acc, answer, counted, backed, first, record 5 first, by decide,
    Prod.ext (untaken refused) refused, (array_has_one_item short h 1).2.1 (by decide +kernel)⟩

end Heap

end NativeBridge
