import NativeBridge.Proofs.Layout.Reading
import NativeBridge.Proofs.Record.Reconstruction

/-! The fields of a record.

    A record is made from a region in one go, or as an item of an array made of that region, and
    then stays what it is while it is there (`Heap.Built`). Either way it has the bytes of the one
    item at the start of the region (`Heap.Built.isItem`). So a field can be read exactly if it
    ends within the item, from those bytes of the region that are its own
    (`Heap.fields_of_built`). -/

namespace NativeBridge

namespace Heap

variable {h h' h₁ h₂ : Heap} {s : Services} {start : Address} {length index : Nat}
  {r array descr storage dtype : Ref} {layout : Layout} {fields : List Field}
  {bytes region part : List UInt8} {out : Multiset Ref} {runtime : Option Services}

/-! ### Records and arrays by their parts -/

/-- What the parts of a record or of an array say: this layout and these bytes. -/
structure Parts (h : Heap) (descr storage : Ref) (layout : Layout) (bytes : List UInt8) :
    Prop where
  layout : h.layout? descr = some layout
  data : h.data? storage = some bytes

/-- A record of this layout with these bytes. -/
def IsItem (h : Heap) (r : Ref) (layout : Layout) (bytes : List UInt8) : Prop :=
  ∃ descr storage, h.body? r = some (.record descr storage) ∧ h.Parts descr storage layout bytes

/-- An array of records of this layout with these bytes. -/
def IsArray (h : Heap) (r : Ref) (layout : Layout) (bytes : List UInt8) : Prop :=
  ∃ descr storage, h.body? r = some (.recordArray descr storage) ∧
    h.Parts descr storage layout bytes

/-- What is still there says what it said. -/
theorem Parts.of_keeps (parts : h.Parts descr storage layout bytes) (keeps : h.Keeps h')
    (live : ∀ t ∈ [descr, storage], ∃ o, h'.get? t = some o) :
    h'.Parts descr storage layout bytes := by
  obtain ⟨body, described⟩ := body?_of_layout? parts.layout
  have own := keeps.body?_of_live described (live descr (by simp))
  have data := keeps.body?_of_live (body?_of_data? parts.data) (live storage (by simp))
  exact ⟨(layout?_congr (own.trans described.symm)).trans parts.layout, by simp [data?, data]⟩

/-- Whoever holds the parts keeps them there. -/
theorem Parts.of_holder {body : Body} (parts : h.Parts descr storage layout bytes)
    (keeps : h.Keeps h') (acc : h'.Accounts out) (holds : body.refs = [descr, storage])
    (found : h'.body? r = some body) : h'.Parts descr storage layout bytes := by
  obtain ⟨o, live, rfl⟩ := body?_eq_some_iff.mp found
  exact parts.of_keeps keeps fun t mem => acc.stored live (holds ▸ mem)

theorem Parts.live (parts : h.Parts descr storage layout bytes) :
    ∀ t ∈ [descr, storage], ∃ o, h.get? t = some o := by
  intro t mem
  rcases List.mem_pair.mp mem with rfl | rfl
  · exact live_of_layout? parts.layout
  · exact (body?_eq_some_iff.mp (body?_of_data? parts.data)).imp fun _ p => p.1

theorem Parts.alloc (parts : h.Parts descr storage layout bytes) (body : Body) :
    (h.alloc body).1.Parts descr storage layout bytes := by
  refine parts.of_keeps (.alloc h body) fun t mem => ?_
  obtain ⟨o, found⟩ := parts.live t mem
  exact ⟨o, ((Grown.refl h).alloc body).get?_eq found⟩

/-- New bytes and a descriptor that was there. -/
theorem Parts.of_layout? (described : h.layout? descr = some layout) (bytes : List UInt8) :
    (h.alloc (.bytes bytes)).1.Parts descr h.slots.length layout bytes :=
  ⟨layout?_alloc described _, by rw [data?, body?_alloc_self]⟩

namespace IsItem

theorem of_keeps (item : h.IsItem r layout bytes) (keeps : h.Keeps h') (acc : h'.Accounts out)
    (live : ∃ o, h'.get? r = some o) : h'.IsItem r layout bytes := by
  obtain ⟨descr, storage, body, parts⟩ := item
  have after := keeps.body?_of_live body live
  exact ⟨descr, storage, after, parts.of_holder keeps acc rfl after⟩

theorem recordBytes?_eq (item : h.IsItem r layout bytes) : h.recordBytes? r = some bytes := by
  obtain ⟨descr, storage, body, parts⟩ := item
  rw [recordBytes?, body, ← parts.data]

/-- A field is read from its own bytes, all of which are there. -/
theorem recordField?_of_stop_le {name : String} {field : Field}
    (item : h.IsItem r layout bytes) (named : layout.field? name = some field)
    (within : field.stop ≤ bytes.length) :
    h.recordField? r name =
      some (field.scalar.cast ((bytes.drop field.offset).take field.scalar.size)) := by
  obtain ⟨descr, storage, body, parts⟩ := item
  rw [ScalarType.cast_take (Nat.le_refl _)]
  simp [recordField?, body, parts.layout, parts.data, named, within]

theorem isSome_recordField?_iff (item : h.IsItem r layout bytes) (name : String) :
    (h.recordField? r name).isSome ↔
      ∃ field, layout.field? name = some field ∧ field.stop ≤ bytes.length := by
  constructor
  · intro readable
    obtain ⟨descr, storage, body, parts⟩ := item
    rcases named : layout.field? name with _ | field
    · simp [recordField?, body, parts.layout, named] at readable
    · refine ⟨field, rfl, Nat.le_of_not_lt fun long => ?_⟩
      simp [recordField?, body, parts.layout, parts.data, named, long] at readable
  · rintro ⟨field, named, within⟩
    rw [item.recordField?_of_stop_le named within, Option.isSome_some]

end IsItem

/-! ### Making arrays and items -/

/-- An array is made of the first item of the bytes, and of nothing shorter. -/
theorem isArray_of_array (made : s.array h bytes descr = (h', some array)) :
    ∃ layout, h.layout? descr = some layout ∧ 0 < layout.itemSize ∧
      layout.itemSize ≤ bytes.length ∧ h'.IsArray array layout (bytes.take layout.itemSize) := by
  by_cases usable : ∃ layout, h.layout? descr = some layout ∧
      s.makesArrays = true ∧ 0 < layout.itemSize ∧ layout.itemSize ≤ bytes.length
  · obtain ⟨layout, described, works, positive, long⟩ := usable
    rw [array_eq works described positive long] at made
    cases made
    have stored := Parts.of_layout? described (bytes.take layout.itemSize)
    refine ⟨layout, described, positive, long, descr, h.slots.length, ?_, stored.alloc _⟩
    rw [← length_alloc h (.bytes (bytes.take layout.itemSize)), body?_alloc_self]
  · rw [array_eq_none fun layout described fits => usable ⟨layout, described, fits⟩] at made
    cases made

/-- An item is taken from an array, with bytes of its own. -/
theorem isItem_of_item (taken : s.item h array index = (h', some r)) :
    ∃ layout bytes part, h.IsArray array layout bytes ∧
      itemBytes? bytes index layout.itemSize = some part ∧ h'.IsItem r layout part := by
  unfold Services.item at taken
  split at taken
  · rename_i descr storage _ body
    split at taken
    · rename_i layout bytes described data
      split at taken
      · cases taken
      · rename_i part fits
        cases taken
        refine ⟨layout, bytes, part, ⟨descr, storage, body, described, data⟩, fits, ?_⟩
        have kept : (h.retain descr).layout? descr = some layout := by
          rw [layout?_congr (body?_retain h descr descr), described]
        exact ⟨descr, _, body?_alloc_self _ _, (Parts.of_layout? kept part).alloc _⟩
    · cases taken
  · cases taken

/-- An array is the same array wherever it is found. -/
theorem IsArray.unique {layout' : Layout} {bytes' : List UInt8}
    (before : h.IsArray r layout bytes) (keeps : h.Keeps h') (after : h'.IsArray r layout' bytes') :
    layout' = layout ∧ bytes' = bytes := by
  obtain ⟨descr, storage, body, parts⟩ := before
  obtain ⟨descr', storage', body', parts'⟩ := after
  have live : ∃ o, h'.get? r = some o := (body?_eq_some_iff.mp body').imp fun _ p => p.1
  cases body'.symm.trans (keeps.body?_of_live body live)
  have kept := parts.of_keeps keeps parts'.live
  exact ⟨Option.some.inj (parts'.layout.symm.trans kept.layout),
    Option.some.inj (parts'.data.symm.trans kept.data)⟩

/-! ### Records made from a region -/

/-- Only with a genuine record kind there is a record. -/
theorem genuine_of_reconstruct (hosted : h.Hosted) (live : ∃ o, h.get? dtype = some o)
    (built : h.reconstruct runtime start length (some dtype) = (h', .ok r)) :
    ∃ s, runtime = some s ∧ s.kind = .genuine := by
  cases runtime with
  | none => cases built
  | some s =>
    cases kind : s.kind with
    | genuine => exact ⟨s, rfl, kind⟩
    | missing =>
      rw [reconstruct_of_missing kind] at built
      cases built
    | fresh =>
      have other : (Body.int 0).kind ≠ .recordKind := by decide
      obtain ⟨answer, _⟩ :=
        rebuildWithNew_of_other hosted (live_some live) s start length other rfl
      rw [← reconstruct_of_fresh kind, built] at answer
      cases answer

theorem isItem_of_reconstruct (hosted : h.Hosted) (described : h.layout? dtype = some layout)
    (built : h.reconstruct runtime start length (some dtype) = (h', .ok r)) :
    h.Holds start length layout.itemSize ∧
      h'.IsItem r layout (h.read start layout.itemSize) := by
  have live := live_of_layout? described
  obtain ⟨s, rfl, genuine⟩ := genuine_of_reconstruct hosted live built
  obtain ⟨news, rebuilds, grown⟩ :=
    rebuilds_reconstruct hosted genuine start length (live_some live)
  rw [built] at rebuilds grown
  cases rebuilds with
  | @record _ storage descr fields size combines yields =>
    cases described.symm.trans combines.structured
    have holds := yields.2.2
    have intact := grown.isRecord holds fun _ _ => rfl
    refine ⟨holds, descr, storage, intact.body, ?_, by simp [data?, intact.data, Layout.itemSize]⟩
    have size := holds.length_read
    have own := intact.own
    rw [size] at own
    simp [layout?, descriptor?, own]

/-- A record of this layout that was made from a region with these bytes, and may have been kept
    since then. -/
inductive Built (layout : Layout) (region : List UInt8) (r : Ref) : Heap → Prop where
  | rebuilt {h h' : Heap} {runtime : Option Services} {start : Address} {length : Nat}
    {dtype : Ref} :
    h.Hosted → h.layout? dtype = some layout →
    h.reconstruct runtime start length (some dtype) = (h', .ok r) →
    h.read start length = region → Built layout region r h'
  | item {h h₁ h₂ h₃ : Heap} {s s' : Services} {descr array : Ref} {index : Nat} :
    h.layout? descr = some layout → s.array h region descr = (h₁, some array) → h₁.Keeps h₂ →
    s'.item h₂ array index = (h₃, some r) → Built layout region r h₃
  | kept {h h' : Heap} {out : Multiset Ref} :
    Built layout region r h → h.Keeps h' → h'.Accounts out → (∃ o, h'.get? r = some o) →
    Built layout region r h'

theorem Built.isItem (built : h.Built layout region r) :
    0 < layout.itemSize ∧ layout.itemSize ≤ region.length ∧
      h.IsItem r layout (region.take layout.itemSize) := by
  induction built with
  | rebuilt hosted described rebuilt shown =>
    obtain ⟨holds, item⟩ := isItem_of_reconstruct hosted described rebuilt
    subst shown
    refine ⟨holds.positive, ?_, ?_⟩
    · rw [read, List.length_take]
      exact Nat.le_min.mpr ⟨holds.within, holds.readable⟩
    · rwa [read, List.take_take, Nat.min_eq_left holds.within]
  | item described made keeps taken =>
    obtain ⟨layout', described', positive, long, before⟩ := isArray_of_array made
    cases described.symm.trans described'
    obtain ⟨_, _, part, after, fits, item⟩ := isItem_of_item taken
    obtain ⟨rfl, rfl⟩ := before.unique keeps after
    obtain ⟨_, _, rfl⟩ := (itemBytes?_of_one (List.length_take_of_le long) positive).mp fits
    exact ⟨positive, long, item⟩
  | kept _ keeps acc live ih =>
    obtain ⟨positive, long, item⟩ := ih
    exact ⟨positive, long, item.of_keeps keeps acc live⟩

/-- A field of a record can be read exactly if it is the first of its name and ends within the
    item; it is cast from its own bytes of the region, all of which the record has. A packed item is
    just long enough for its fields, so each of their names can be read, and without fields there
    is no record. -/
theorem fields_of_built :
    (∀ {fields size region r} {h : Heap}, h.Built (.record fields size) region r →
      h.recordBytes? r = some (region.take size) ∧ size ≤ region.length ∧ ∀ name,
        ((h.recordField? r name).isSome ↔
          ∃ field, Layout.IsFirst fields name field ∧ field.stop ≤ size) ∧
        ∀ field, Layout.IsFirst fields name field → field.stop ≤ size →
          let own := ((region.take size).drop field.offset).take field.scalar.size
          own = (region.drop field.offset).take field.scalar.size ∧
            own.length = field.scalar.size ∧
            h.recordField? r name = some (field.scalar.cast own)) ∧
    ∀ fields,
      IsLeast {n | ∀ field ∈ fields, field.stop ≤ n} (Layout.packed fields).itemSize ∧
      ∀ {region r} {h : Heap}, h.Built (.packed fields) region r →
        fields ≠ [] ∧ ∀ field ∈ fields, (h.recordField? r field.name).isSome := by
  constructor
  · intro fields size region r h built
    obtain ⟨_, long, item⟩ := built.isItem
    have long : size ≤ region.length := long
    have all : (region.take size).length = size := List.length_take_of_le long
    refine ⟨item.recordBytes?_eq, long, fun name => ⟨?_, fun field first within => ⟨?_, ?_, ?_⟩⟩⟩
    · have readable := item.isSome_recordField?_iff name
      simpa only [Layout.field?_eq_some_iff, Layout.itemSize, all] using readable
    · exact take_drop_take within region
    · have stop : field.offset + field.scalar.size ≤ size := within
      simp only [List.length_take, List.length_drop]
      omega
    · exact item.recordField?_of_stop_le (Layout.field?_eq_some_iff.mpr first)
        (within.trans_eq all.symm)
  · intro fields
    have least := Layout.isLeast_packed fields
    refine ⟨least, fun {region r h} built => ?_⟩
    obtain ⟨positive, long, item⟩ := built.isItem
    refine ⟨?_, fun field mem => ?_⟩
    · rintro rfl
      exact absurd positive (Nat.lt_irrefl 0)
    · obtain ⟨first, among, isFirst⟩ := Layout.exists_isFirst mem
      refine (item.isSome_recordField?_iff field.name).mpr
        ⟨first, Layout.field?_eq_some_iff.mpr isFirst, ?_⟩
      rw [List.length_take_of_le long]
      exact least.1 first among

/-- Fields that overlap, share a name and are in no order. -/
def overlapping : List Field :=
  [⟨"b", 3, .uint .two⟩, ⟨"a", 1, .int .one⟩, ⟨"a", 0, .float64⟩]

/-- The fields of a packed item. -/
def adjacent : List Field := [⟨"b", 2, .uint .one⟩, ⟨"a", 0, .int .two⟩]

/-- The field that reaches past the item cannot be read though the region goes on, and the one
    that comes second of its name is not read. A packed item has all its fields. -/
theorem fields_of_built_of_overlapping :
    let rebuilt := ((initial.newDescriptor (.record overlapping 4)).1.place
      [1, 254, 3, 4, 5]).1.reconstruct (some .reference) (.block 0 0) 5 (some 1)
    let array := Services.reference.array (initial.newDescriptor (.packed adjacent)).1
      [1, 254, 3, 4, 5] 1
    let taken := Services.reference.item array.1 3 0
    (rebuilt.2 = .ok 6 ∧ rebuilt.1.recordBytes? 6 = some [1, 254, 3, 4] ∧
      rebuilt.1.recordField? 6 "a" = some ⟨.ofInt (-2), .zero⟩ ∧
      rebuilt.1.recordField? 6 "b" = none ∧ rebuilt.1.recordField? 6 "c" = none) ∧
    array.2 = some 3 ∧ taken.2 = some 5 ∧
      ∀ field ∈ adjacent, (taken.1.recordField? 5 field.name).isSome := by
  intro rebuilt array taken
  have answer : rebuilt.2 = .ok 6 := by decide +kernel
  have built : rebuilt.1.Built (.record overlapping 4) [1, 254, 3, 4, 5] 6 :=
    .rebuilt (accounts_place_newDescriptor _ _).hosted rfl (Prod.ext rfl answer) rfl
  obtain ⟨bytes, _, named⟩ := fields_of_built.1 built
  have first : (Layout.record overlapping 4).field? "a" = some ⟨"a", 1, .int .one⟩ := by
    decide +kernel
  obtain ⟨_, _, read⟩ := (named "a").2 _ (Layout.field?_eq_some_iff.mp first) (by decide)
  have unread (name : String)
      (none : ∀ field ∈ (Layout.record overlapping 4).field? name, ¬field.stop ≤ 4) :
      rebuilt.1.recordField? 6 name = .none := by
    refine Option.not_isSome_iff_eq_none.mp fun readable => ?_
    obtain ⟨field, isFirst, within⟩ := (named name).1.mp readable
    exact none field (Layout.field?_eq_some_iff.mpr isFirst) within
  have made : array.2 = some 3 := by decide +kernel
  have got : taken.2 = some 5 := by decide +kernel
  have item : taken.1.Built (.packed adjacent) [1, 254, 3, 4, 5] 5 :=
    .item rfl (Prod.ext rfl made) (.refl _) (Prod.ext rfl got)
  obtain ⟨_, all⟩ := (fields_of_built.2 adjacent).2 item
  exact ⟨⟨answer, bytes, read.trans (by decide +kernel), unread "b" (by decide +kernel),
    unread "c" (by decide +kernel)⟩, made, got, all⟩

end Heap

end NativeBridge
