import NativeBridge.Proofs.Custody.Records
import NativeBridge.Proofs.Heap.Growth

/-! What rebuilding a record comes to.

    `Heap.Rebuilds` lists the outcomes with the conditions under which each comes about and the
    objects it leaves behind: a failure leaves none, and a record comes with a descriptor and bytes
    of its own. Each service is described once, and rebuilding is followed through them with the
    new objects in hand (`Heap.Grown`), so that every exit shows what it gives back. -/

namespace NativeBridge

namespace Heap

variable {h h' g g₁ : Heap} {s : Services} {start : Address} {length size : Nat} {r descr : Ref}
  {layout : Layout} {news : List (Ref × Object)}

/-! ### Regions -/

/-- The region begins with an item of this size. -/
structure Holds (h : Heap) (start : Address) (length size : Nat) : Prop where
  positive : 0 < size
  word : size < sizeLimit
  within : size ≤ length
  readable : size ≤ (h.memory start).length

theorem Holds.region? (holds : h.Holds start length size) :
    ∃ bytes, h.region? start length = some bytes ∧ size ≤ bytes.length ∧
      bytes.take size = h.read start size := by
  have some_ : length ≠ 0 := Nat.ne_of_gt (Nat.lt_of_lt_of_le holds.positive holds.within)
  have somewhere : start ≠ .null := by
    rintro rfl
    exact absurd holds.readable (Nat.not_le.mpr holds.positive)
  refine ⟨h.read start length, by rw [Heap.region?, if_neg some_, if_neg somewhere], ?_, ?_⟩
  · rw [read, List.length_take]
    exact Nat.le_min.mpr ⟨holds.within, holds.readable⟩
  · rw [read, read, List.take_take, Nat.min_eq_left holds.within]

theorem holds_of_region? {bytes : List UInt8} (region : h.region? start length = some bytes)
    (positive : 0 < size) (word : size < sizeLimit) (long : size ≤ bytes.length) :
    h.Holds start length size := by
  unfold Heap.region? at region
  split at region
  · cases region
    exact absurd long (Nat.not_le.mpr positive)
  · split at region
    · cases region
    · cases region
      rw [read, List.length_take] at long
      obtain ⟨within, readable⟩ := Nat.le_min.mp long
      exact ⟨positive, word, within, readable⟩

theorem Holds.length_read (holds : h.Holds start length size) :
    (h.read start size).length = size := by
  rw [read, List.length_take, Nat.min_eq_left holds.readable]

theorem Holds.congr (holds : h.Holds start length size)
    (same : h'.memory start = h.memory start) : h'.Holds start length size :=
  ⟨holds.positive, holds.word, holds.within, same ▸ holds.readable⟩

/-- A new descriptor is no memory. -/
theorem Grown.memory_of_descriptor {count : RefCount} {exports : Int} {isRecord : Bool}
    (grown : g.Grown [(descr, ⟨count, exports, .descriptor layout isRecord⟩)] g₁)
    (start : Address) : g₁.memory start = g.memory start := by
  refine memory_congr grown.blocks (fun r => ?_) start
  by_cases here : r = descr
  · subst here
    have found := grown.new _ List.mem_cons_self
    have absent : g.get? r = none := get?_of_length_le (grown.fresh _ List.mem_cons_self)
    simp [data?, body?, found, absent]
  · exact data?_congr (by rw [body?, body?, grown.old r (by simpa using here)])

/-! ### Items -/

theorem size?_eq_some_iff {n m : Nat} : size? n = some m ↔ n < sizeLimit ∧ m = n := by
  unfold size?
  split <;> simp_all [eq_comm]

/-- An item is given if its end can be a size at all and is inside. -/
theorem itemBytes?_eq_some_iff {bytes part : List UInt8} {index : Nat} :
    itemBytes? bytes index size = some part ↔
      index * size + size < sizeLimit ∧ index * size + size ≤ bytes.length ∧
        part = (bytes.drop (index * size)).take size := by
  constructor
  · intro given
    obtain ⟨first, sized, given⟩ := Option.bind_eq_some_iff.mp given
    obtain ⟨stop, stopped, given⟩ := Option.bind_eq_some_iff.mp given
    obtain ⟨_, rfl⟩ := size?_eq_some_iff.mp sized
    obtain ⟨word, rfl⟩ := size?_eq_some_iff.mp stopped
    split at given
    · rename_i within
      exact ⟨word, within, (Option.some.inj given).symm⟩
    · cases given
  · rintro ⟨word, within, rfl⟩
    have sized : size? (index * size) = some (index * size) :=
      size?_eq_some_iff.mpr ⟨(Nat.le_add_right ..).trans_lt word, rfl⟩
    have stopped := size?_eq_some_iff.mpr ⟨word, rfl⟩
    simp [itemBytes?, sized, stopped, within]

/-- Of the bytes of one item nothing but the whole can be taken. -/
theorem itemBytes?_of_one {bytes part : List UInt8} {index : Nat} (all : bytes.length = size)
    (positive : 0 < size) :
    itemBytes? bytes index size = some part ↔ index = 0 ∧ size < sizeLimit ∧ part = bytes := by
  rw [itemBytes?_eq_some_iff, all]
  constructor
  · rintro ⟨word, within, rfl⟩
    have first : index * size = 0 := by omega
    obtain rfl := (Nat.mul_eq_zero.mp first).resolve_right (Nat.ne_of_gt positive)
    refine ⟨rfl, by omega, ?_⟩
    rw [first, List.drop_zero, ← all, List.take_length]
  · rintro ⟨rfl, word, rfl⟩
    rw [Nat.zero_mul, Nat.zero_add, List.drop_zero, ← all, List.take_length]
    exact ⟨all ▸ word, Nat.le_refl _, rfl⟩

/-! ### Services -/

/-- The runtime combines this kind with this descriptor, which has these fields. -/
structure Combines (h : Heap) (s : Services) (kind : Ref) (dtype : Option Ref)
    (fields : List Field) (size : Nat) : Prop where
  works : s.combines = true
  kind : h.kind? kind = some .recordKind
  structured : dtype.bind h.layout? = some (.record fields size)

theorem Combines.congr {kind : Ref} {dtype : Option Ref} {fields : List Field}
    (combines : h.Combines s kind dtype fields size) (same : ∀ t, h'.body? t = h.body? t) :
    h'.Combines s kind dtype fields size := by
  have layout : h'.layout? = h.layout? := funext fun t => layout?_congr (same t)
  exact ⟨combines.works, by rw [kind?, same]; exact combines.kind, layout ▸ combines.structured⟩

theorem combine_eq {kind dtype : Ref} {fields : List Field}
    (combines : h.Combines s kind (some dtype) fields size) :
    s.combine h kind dtype =
      ((h.alloc (.descriptor (.record fields size) true)).1, some h.slots.length) := by
  have structured : h.layout? dtype = some (.record fields size) := combines.structured
  simp [Services.combine, combines.works, combines.kind, structured, Layout.isRecord]

theorem combine_eq_none {kind dtype : Ref}
    (refused : ∀ fields size, ¬h.Combines s kind (some dtype) fields size) :
    s.combine h kind dtype = (h, none) := by
  unfold Services.combine
  split
  · rename_i layout works described
    cases layout with
    | scalar type => rfl
    | record fields size =>
      simp only [Bool.and_eq_true, decide_eq_true_eq] at works
      exact absurd ⟨works.1, works.2, described⟩ (refused fields size)
  · rfl

theorem array_eq {bytes : List UInt8} (works : s.makesArrays = true)
    (described : h.layout? descr = some layout) (positive : 0 < layout.itemSize)
    (long : layout.itemSize ≤ bytes.length) :
    s.array h bytes descr =
      (((h.alloc (.bytes (bytes.take layout.itemSize))).1.alloc
        (.recordArray descr h.slots.length)).1, some (h.slots.length + 1)) := by
  have usable : ¬(layout.itemSize = 0 ∨ bytes.length < layout.itemSize) := by omega
  simp only [Services.array, works, described, if_neg usable, alloc_snd, length_alloc]

theorem array_eq_none {bytes : List UInt8} (refused : ∀ layout, h.layout? descr = some layout →
      ¬(s.makesArrays = true ∧ 0 < layout.itemSize ∧ layout.itemSize ≤ bytes.length)) :
    s.array h bytes descr = (h.release descr, none) := by
  unfold Services.array
  split
  · rename_i layout works described
    split
    · rfl
    · exact absurd ⟨works, by omega, by omega⟩ (refused layout described)
  · rfl

theorem item_eq {array storage : Ref} {bytes : List UInt8} (works : s.yieldsItems = true)
    (body : h.body? array = some (.recordArray descr storage))
    (described : h.layout? descr = some layout) (data : h.data? storage = some bytes)
    (word : layout.itemSize < sizeLimit) (all : bytes.length = layout.itemSize) :
    s.item h array 0 =
      ((((h.retain descr).alloc (.bytes bytes)).1.alloc (.record descr h.slots.length)).1,
        some (h.slots.length + 1)) := by
  have first : itemBytes? bytes 0 layout.itemSize = some bytes :=
    itemBytes?_eq_some_iff.mpr (by simp [← all] at word ⊢; exact word)
  simp only [Services.item, works, body, described, data, first, alloc_snd, length_alloc,
    length_retain]

theorem item_eq_none {array storage : Ref} {bytes : List UInt8} {index : Nat}
    (body : h.body? array = some (.recordArray descr storage))
    (described : h.layout? descr = some layout) (data : h.data? storage = some bytes)
    (refused : s.yieldsItems = true → itemBytes? bytes index layout.itemSize = none) :
    s.item h array index = (h, none) := by
  by_cases works : s.yieldsItems = true
  · simp only [Services.item, works, body, described, data, refused works]
  · simp [Services.item, works]

/-! ### From the combined descriptor on -/

/-- A descriptor that was just combined with the record kind. -/
def ownDescriptor (fields : List Field) (size : Nat) : Object :=
  ⟨.fresh, 0, .descriptor (.record fields size) true⟩

/-- A record, its bytes and its descriptor, each with the one reference that it was made with. -/
def recordObjects (record storage descr : Ref) (bytes : List UInt8) (fields : List Field)
    (size : Nat) : List (Ref × Object) :=
  [(record, ⟨.fresh, 0, .record descr storage⟩), (storage, ⟨.fresh, 0, .bytes bytes⟩),
    (descr, ownDescriptor fields size)]

section Region

variable {fields : List Field}

theorem layout?_ownDescriptor (found : h.get? descr = some (ownDescriptor fields size)) :
    h.layout? descr = some (.record fields size) := by
  simp [layout?, descriptor?, body?, found, ownDescriptor]

theorem grown_array_none {bytes : List UInt8}
    (made : g.Grown [(descr, ownDescriptor fields size)] g₁)
    (refused : ¬(s.makesArrays = true ∧ 0 < size ∧ size ≤ bytes.length)) :
    (s.array g₁ bytes descr).2 = none ∧ g.Grown [] (s.array g₁ bytes descr).1 := by
  have described := layout?_ownDescriptor (made.new _ List.mem_cons_self)
  rw [array_eq_none fun _ described' => Option.some.inj (described.symm.trans described') ▸ refused]
  exact ⟨rfl, made.release_leaf rfl rfl⟩

theorem grown_array {bytes : List UInt8}
    (made : g.Grown [(descr, ownDescriptor fields size)] g₁) (works : s.makesArrays = true)
    (positive : 0 < size) (long : size ≤ bytes.length) :
    ∃ array storage, (s.array g₁ bytes descr).2 = some array ∧
      g.Grown [(array, ⟨.fresh, 0, .recordArray descr storage⟩),
        (storage, ⟨.fresh, 0, .bytes (bytes.take size)⟩), (descr, ownDescriptor fields size)]
        (s.array g₁ bytes descr).1 := by
  have described := layout?_ownDescriptor (made.new _ List.mem_cons_self)
  rw [array_eq works described positive long]
  refine ⟨_, g₁.slots.length, rfl, ?_⟩
  simpa [Layout.itemSize] using (made.alloc (.bytes (bytes.take size))).alloc
    (.recordArray descr g₁.slots.length)

/-- The array falls after its item was taken: its bytes go with it, and the descriptor stays with
    the record. -/
theorem grown_item {array copied : Ref} {bytes : List UInt8}
    (made : g.Grown [(array, ⟨.fresh, 0, .recordArray descr copied⟩),
      (copied, ⟨.fresh, 0, .bytes bytes⟩), (descr, ownDescriptor fields size)] g₁)
    (works : s.yieldsItems = true) (word : size < sizeLimit) (all : bytes.length = size) :
    ∃ record storage, (s.item g₁ array 0).2 = some record ∧
      g.Grown (recordObjects record storage descr bytes fields size)
        ((s.item g₁ array 0).1.release array) := by
  have foundArray := made.new _ List.mem_cons_self
  have foundCopied := made.new (copied, ⟨.fresh, 0, .bytes bytes⟩) (by simp)
  have described := layout?_ownDescriptor (made.new (descr, ownDescriptor fields size) (by simp))
  have taken := item_eq works (by rw [body?, foundArray]; rfl) described
    (by rw [data?, body?, foundCopied]; rfl) word all
  have kept := made.modify [(array, _), (copied, _)] fun o => { o with count := o.count.retain }
  have stored := (kept.alloc (.bytes bytes)).alloc (.record descr g₁.slots.length)
  -- the array held its bytes and one of the two references to the descriptor
  have again : RefCount.fresh.retain.release = some .fresh := rfl
  obtain ⟨h₁, freed, noArray⟩ := stored.releaseAll_last [_, _] rfl []
  obtain ⟨h₂, lowered, oneDescr⟩ := noArray.releaseAll_more [_, _, _] again [copied]
  obtain ⟨h₃, dropped, noBytes⟩ := oneDescr.releaseAll_last [_, _] rfl []
  have fell : (s.item g₁ array 0).1.release array = h₃ := by
    rw [taken, release]
    exact freed.trans (lowered.trans (dropped.trans (releaseAll_nil h₃)))
  refine ⟨_, g₁.slots.length, by rw [taken], ?_⟩
  rw [fell]
  simpa [recordObjects, ownDescriptor] using noBytes

theorem grown_item_none {array copied : Ref} {bytes : List UInt8}
    (made : g.Grown [(array, ⟨.fresh, 0, .recordArray descr copied⟩),
      (copied, ⟨.fresh, 0, .bytes bytes⟩), (descr, ownDescriptor fields size)] g₁)
    (refused : ¬(s.yieldsItems = true ∧ size < sizeLimit)) :
    (s.item g₁ array 0).2 = none ∧ g.Grown [] ((s.item g₁ array 0).1.release array) := by
  have foundArray := made.new _ List.mem_cons_self
  have foundCopied := made.new (copied, ⟨.fresh, 0, .bytes bytes⟩) (by simp)
  have described := layout?_ownDescriptor (made.new (descr, ownDescriptor fields size) (by simp))
  have ungiven (works : s.yieldsItems = true) : itemBytes? bytes 0 size = none := by
    refine Option.eq_none_iff_forall_ne_some.mpr fun part given => refused ⟨works, ?_⟩
    simpa using (itemBytes?_eq_some_iff.mp given).1
  have untaken := item_eq_none (by rw [body?, foundArray]; rfl) described
    (by rw [data?, body?, foundCopied]; rfl) ungiven
  obtain ⟨h₁, freed, noArray⟩ := made.releaseAll_last [] rfl []
  obtain ⟨h₂, undescribed, noDescr⟩ := noArray.releaseAll_last [_] rfl [copied]
  obtain ⟨h₃, dropped, noBytes⟩ := noDescr.releaseAll_last [] rfl []
  have fell : g₁.release array = h₃ :=
    freed.trans (undescribed.trans (dropped.trans (releaseAll_nil h₃)))
  rw [untaken]
  exact ⟨rfl, fell ▸ noBytes⟩

/-- What rebuilding from a new combined descriptor needs: both services and an item. -/
def Yields (h : Heap) (s : Services) (start : Address) (length size : Nat) : Prop :=
  s.makesArrays = true ∧ s.yieldsItems = true ∧ h.Holds start length size

theorem Yields.congr (yields : h.Yields s start length size)
    (same : h'.memory start = h.memory start) : h'.Yields s start length size :=
  ⟨yields.1, yields.2.1, yields.2.2.congr same⟩

theorem grown_rebuildFromRegion (made : g.Grown [(descr, ownDescriptor fields size)] g₁)
    (yields : g₁.Yields s start length size) :
    ∃ record storage, (g₁.rebuildFromRegion s start length descr).2 = .ok record ∧
      g.Grown (recordObjects record storage descr (g₁.read start size) fields size)
        (g₁.rebuildFromRegion s start length descr).1 := by
  obtain ⟨makesArrays, yieldsItems, holds⟩ := yields
  obtain ⟨bytes, region, long, first⟩ := holds.region?
  obtain ⟨array, copied, answered, grown⟩ := grown_array made makesArrays holds.positive long
  obtain ⟨record, storage, taken, left⟩ :=
    grown_item grown yieldsItems holds.word (List.length_take_of_le long)
  refine ⟨record, storage, ?_⟩
  rcases ha : s.array g₁ bytes descr with ⟨h₁, answer⟩
  rw [ha] at answered left taken
  cases answered
  rcases hi : s.item h₁ array 0 with ⟨h₂, answer⟩
  rw [hi] at taken left
  cases taken
  simp only [rebuildFromRegion, region, ha, hi]
  exact ⟨trivial, first ▸ left⟩

theorem grown_rebuildFromRegion_error (made : g.Grown [(descr, ownDescriptor fields size)] g₁)
    (refused : ¬g₁.Yields s start length size) :
    (g₁.rebuildFromRegion s start length descr).2 = .error .copyFailed ∧
      g.Grown [] (g₁.rebuildFromRegion s start length descr).1 := by
  unfold rebuildFromRegion
  split
  · exact ⟨rfl, made.release_leaf rfl rfl⟩
  · rename_i bytes region
    by_cases usable : s.makesArrays = true ∧ 0 < size ∧ size ≤ bytes.length
    · obtain ⟨makesArrays, positive, long⟩ := usable
      obtain ⟨array, copied, answered, grown⟩ := grown_array made makesArrays positive long
      have unusable : ¬(s.yieldsItems = true ∧ size < sizeLimit) := fun ⟨yieldsItems, word⟩ =>
        refused ⟨makesArrays, yieldsItems, holds_of_region? region positive word long⟩
      obtain ⟨untaken, left⟩ := grown_item_none grown unusable
      rcases ha : s.array g₁ bytes descr with ⟨h₁, answer⟩
      rw [ha] at answered left untaken
      cases answered
      rcases hi : s.item h₁ array 0 with ⟨h₂, answer⟩
      rw [hi] at untaken left
      cases untaken
      simp only [hi]
      exact ⟨trivial, left⟩
    · obtain ⟨unanswered, left⟩ := grown_array_none made usable
      rcases ha : s.array g₁ bytes descr with ⟨h₁, answer⟩
      rw [ha] at unanswered left
      cases unanswered
      exact ⟨rfl, left⟩

end Region

/-! ### With the record kind in hand -/

/-- What rebuilding a record comes to, and the objects it leaves behind. -/
inductive Rebuilds (h : Heap) (s : Services) (start : Address) (length : Nat) (kind : Ref)
    (dtype : Option Ref) : Except ReconstructError Ref → List (Ref × Object) → Prop where
  | badDescriptor : (∀ fields size, ¬h.Combines s kind dtype fields size) →
    Rebuilds h s start length kind dtype (.error .badDescriptor) []
  | copyFailed {fields : List Field} {size : Nat} : h.Combines s kind dtype fields size →
    ¬h.Yields s start length size → Rebuilds h s start length kind dtype (.error .copyFailed) []
  | record {record storage descr : Ref} {fields : List Field} {size : Nat} :
    h.Combines s kind dtype fields size → h.Yields s start length size →
    Rebuilds h s start length kind dtype (.ok record)
      (recordObjects record storage descr (h.read start size) fields size)

section Inversion

variable {kind : Ref} {dtype : Option Ref} {result : Except ReconstructError Ref}
  {fields : List Field}

theorem Rebuilds.eq_badDescriptor (rebuilds : h.Rebuilds s start length kind dtype result news)
    (refused : ∀ fields size, ¬h.Combines s kind dtype fields size) :
    result = .error .badDescriptor := by
  cases rebuilds with
  | badDescriptor => rfl
  | copyFailed combines => exact absurd combines (refused _ _)
  | record combines => exact absurd combines (refused _ _)

theorem Rebuilds.eq_copyFailed (rebuilds : h.Rebuilds s start length kind dtype result news)
    (combines : h.Combines s kind dtype fields size) (refused : ¬h.Yields s start length size) :
    result = .error .copyFailed := by
  cases rebuilds with
  | badDescriptor none => exact absurd combines (none fields size)
  | copyFailed => rfl
  | record combines' yields =>
    cases combines.structured.symm.trans combines'.structured
    exact absurd yields refused

theorem Rebuilds.eq_record (rebuilds : h.Rebuilds s start length kind dtype result news)
    (combines : h.Combines s kind dtype fields size) (yields : h.Yields s start length size) :
    ∃ record storage descr, result = .ok record ∧
      news = recordObjects record storage descr (h.read start size) fields size := by
  cases rebuilds with
  | badDescriptor none => exact absurd combines (none fields size)
  | copyFailed combines' refused =>
    cases combines.structured.symm.trans combines'.structured
    exact absurd yields refused
  | record combines' =>
    cases combines.structured.symm.trans combines'.structured
    exact ⟨_, _, _, rfl, rfl⟩

end Inversion

theorem rebuilds_rebuildCombined (h : Heap) (s : Services) (start : Address) (length : Nat)
    (kind dtype : Ref) :
    ∃ news, h.Rebuilds s start length kind (some dtype)
        (h.rebuildCombined s start length kind dtype).2 news ∧
      h.Grown news (h.rebuildCombined s start length kind dtype).1 := by
  by_cases combines : ∃ fields size, h.Combines s kind (some dtype) fields size
  · obtain ⟨fields, size, combines⟩ := combines
    have made : h.Grown [(h.slots.length, ownDescriptor fields size)]
        (h.alloc (.descriptor (.record fields size) true)).1 := (Grown.refl h).alloc _
    have memory := made.memory_of_descriptor start
    rw [rebuildCombined, combine_eq combines]
    by_cases yields : h.Yields s start length size
    · obtain ⟨record, storage, answered, grown⟩ :=
        grown_rebuildFromRegion made (yields.congr memory)
      rw [read, memory] at grown
      refine ⟨_, ?_, grown⟩
      rw [answered]
      exact .record combines yields
    · obtain ⟨answered, grown⟩ := grown_rebuildFromRegion_error made
        fun all => yields (all.congr memory.symm)
      refine ⟨[], ?_, grown⟩
      rw [answered]
      exact .copyFailed combines yields
  · have refused : ∀ fields size, ¬h.Combines s kind (some dtype) fields size :=
      fun fields size all => combines ⟨fields, size, all⟩
    rw [rebuildCombined, combine_eq_none refused]
    exact ⟨[], .badDescriptor refused, .refl h⟩

/-- What is found and what stands in memory decide the outcome. -/
theorem Rebuilds.congr {kind : Ref} {dtype : Option Ref} {result : Except ReconstructError Ref}
    (rebuilds : h.Rebuilds s start length kind dtype result news)
    (same : ∀ t, h'.body? t = h.body? t) (blocks : h'.blocks = h.blocks) :
    h'.Rebuilds s start length kind dtype result news := by
  have memory : h'.memory start = h.memory start :=
    memory_congr blocks (fun t => data?_congr (same t)) start
  cases rebuilds with
  | badDescriptor refused =>
    exact .badDescriptor fun fields size all =>
      refused fields size (all.congr fun t => (same t).symm)
  | copyFailed combines refused =>
    exact .copyFailed (combines.congr same) fun yields => refused (yields.congr memory.symm)
  | @record record storage descr fields size combines yields =>
    have bytes : h'.read start size = h.read start size := by rw [read, read, memory]
    rw [← bytes]
    exact .record (combines.congr same) (yields.congr memory)

/-- The descriptor that was given is held in the meantime, and the rest is as it was. -/
theorem rebuilds_rebuildWithKind (hosted : h.Hosted) (s : Services) (start : Address)
    (length : Nat) (kind : Ref) {dtype : Option Ref} (live : ∀ t ∈ dtype, ∃ o, h.get? t = some o) :
    ∃ news, h.Rebuilds s start length kind dtype
        (h.rebuildWithKind s start length kind dtype).2 news ∧
      (h.lent dtype).Grown news (h.rebuildWithKind s start length kind dtype).1 := by
  cases dtype with
  | none =>
    have refused : ∀ fields size, ¬h.Combines s kind none fields size := fun _ _ all =>
      nomatch all.structured
    exact ⟨[], .badDescriptor refused, .refl h⟩
  | some dtype =>
    obtain ⟨o, found⟩ := live dtype rfl
    obtain ⟨rest, released⟩ := RefCount.release_retain (hosted.positive dtype o found)
    obtain ⟨news, rebuilds, grown⟩ :=
      rebuilds_rebuildCombined (h.retain dtype) s start length kind dtype
    exact ⟨news, rebuilds.congr (fun t => (body?_retain h dtype t).symm) rfl,
      grown.release_old (get?_retain_self found) released⟩

end Heap

end NativeBridge
