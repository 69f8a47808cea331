import NativeBridge.Proofs.Custody.Invariants
import NativeBridge.Proofs.Record.Outcome

/-! When a record is rebuilt, and what is left when it is not.

    The record kind is immortal, so holding it shows nowhere, and an object handed out in its place
    falls again. That leaves the outcomes of `Heap.Rebuilds`, which say when there is a record
    (`Heap.reconstruct_reference`), and the new objects that come with them, which say that nothing
    else is left behind (`Heap.reconstruct_restores`). -/

namespace NativeBridge

namespace Heap

variable {h h' : Heap} {s : Services} {start : Address} {length : Nat} {r : Ref} {o : Object}
  {dtype : Option Ref} {news : List (Ref × Object)}

/-! ### The record kind -/

theorem retain_of_pinned (found : h.get? r = some o) (pinned : o.count = .pinned) :
    h.retain r = h := by
  refine update_eq_self fun p hp => ?_
  cases hp.symm.trans found
  rw [pinned, RefCount.retain_pinned, ← pinned]

theorem release_of_pinned (found : h.get? r = some o) (pinned : o.count = .pinned) :
    h.release r = h := by
  have more : o.count.release = some o.count := by rw [pinned]; rfl
  rw [release, releaseAll_of_more found more, releaseAll_nil]
  refine update_eq_self fun p hp => ?_
  cases hp.symm.trans found
  rfl

/-- Borrowing leaves an immortal object as it is. -/
theorem get?_lent_of_pinned (hosted : h.Hosted) (live : ∀ t ∈ dtype, ∃ o, h.get? t = some o)
    (found : h.get? r = some o) (pinned : o.count = .pinned) :
    (h.lent dtype).get? r = some o := by
  cases dtype with
  | none => exact found
  | some t =>
    by_cases same : t = r
    · subst same
      rw [lent, retain_of_pinned found pinned, release_of_pinned found pinned, found]
    · obtain ⟨p, hp⟩ := live t rfl
      obtain ⟨rest, released⟩ := RefCount.release_retain (hosted.positive t p hp)
      rw [lent_some hp released, get?_update, if_neg same, get?_retain, if_neg same, found]

/-! ### Following a reconstruction -/

theorem reconstruct_of_missing (missing : s.kind = .missing) :
    h.reconstruct (some s) start length dtype = (h, .error .runtimeUnavailable) := by
  simp [reconstruct, Services.recordKind, missing]

theorem rebuilds_reconstruct (hosted : h.Hosted) (genuine : s.kind = .genuine) (start : Address)
    (length : Nat) (live : ∀ t ∈ dtype, ∃ o, h.get? t = some o) :
    ∃ news, h.Rebuilds s start length recordKind dtype
        (h.reconstruct (some s) start length dtype).2 news ∧
      (h.lent dtype).Grown news (h.reconstruct (some s) start length dtype).1 := by
  obtain ⟨k, found, pinned, _⟩ := hosted.kind
  obtain ⟨news, rebuilds, grown⟩ :=
    rebuilds_rebuildWithKind hosted s start length recordKind live
  have kept := grown.get?_eq (get?_lent_of_pinned hosted live found pinned)
  have whole : h.reconstruct (some s) start length dtype =
      h.rebuildWithKind s start length recordKind dtype := by
    simp only [reconstruct, Services.recordKind, genuine, retain_of_pinned found pinned]
    rw [release_of_pinned kept pinned]
  rw [whole]
  exact ⟨news, rebuilds, grown⟩

/-- Rebuilding where the runtime makes a new object and takes it for the record kind. -/
def rebuildWithNew (h : Heap) (s : Services) (body : Body) (start : Address) (length : Nat)
    (dtype : Option Ref) : Heap × Except ReconstructError Ref :=
  let (after, result) := (h.alloc body).1.rebuildWithKind s start length (h.alloc body).2 dtype
  (after.release (h.alloc body).2, result)

theorem reconstruct_of_fresh (fresh : s.kind = .fresh) :
    h.reconstruct (some s) start length dtype =
      h.rebuildWithNew s (.int 0) start length dtype := by
  simp only [reconstruct, Services.recordKind, fresh, rebuildWithNew]

theorem Hosted.alloc (hosted : h.Hosted) (body : Body) : (h.alloc body).1.Hosted := by
  obtain ⟨k, found, kind⟩ := hosted.kind
  refine ⟨⟨k, ((Grown.refl h).alloc body).get?_eq found, kind⟩, fun r o ho => ?_⟩
  rw [get?_alloc] at ho
  split at ho
  · cases ho
    exact (by decide : RefCount.fresh ≠ 0)
  · exact hosted.positive r o ho

/-- An object found before is borrowed on both sides. -/
theorem Grown.lent (grown : h.Grown news h') (hosted : h.Hosted)
    (live : ∀ t ∈ dtype, ∃ o, h.get? t = some o) : (h.lent dtype).Grown news (h'.lent dtype) := by
  cases dtype with
  | none => exact grown
  | some t =>
    obtain ⟨o, found⟩ := live t rfl
    obtain ⟨rest, released⟩ := RefCount.release_retain (hosted.positive t o found)
    exact (grown.update_old (lt_length_of_get? found) _).release_old (get?_retain_self found)
      released

/-- What is no record kind is of no use, and falls again. -/
theorem rebuildWithNew_of_other {body : Body} (hosted : h.Hosted)
    (live : ∀ t ∈ dtype, ∃ o, h.get? t = some o) (s : Services) (start : Address) (length : Nat)
    (other : body.kind ≠ .recordKind) (leaf : body.refs = []) :
    (h.rebuildWithNew s body start length dtype).2 = .error .badDescriptor ∧
      (h.lent dtype).Grown [] (h.rebuildWithNew s body start length dtype).1 := by
  have made : h.Grown [(h.slots.length, ⟨.fresh, 0, body⟩)] (h.alloc body).1 :=
    (Grown.refl h).alloc body
  obtain ⟨news, rebuilds, grown⟩ := rebuilds_rebuildWithKind (hosted.alloc body) s start length
    h.slots.length (fun t ht => (live t ht).imp fun _ found => made.get?_eq found)
  have refused : ∀ fields size, ¬(h.alloc body).1.Combines s h.slots.length dtype fields size := by
    intro fields size combines
    have kind := combines.kind
    rw [kind?, body?, get?_alloc, if_pos rfl] at kind
    exact other (Option.some.inj kind)
  have both := (made.lent hosted live).trans grown
  rw [rebuildWithNew, alloc_snd]
  rcases answer : (h.alloc body).1.rebuildWithKind s start length h.slots.length dtype with
    ⟨h₁, result⟩
  rw [answer] at rebuilds both
  cases rebuilds with
  | badDescriptor => exact ⟨rfl, both.release_leaf rfl leaf⟩
  | copyFailed combines => exact absurd combines (refused _ _)
  | record combines => exact absurd combines (refused _ _)

/-! ### What is left behind -/

/-- The counters follow the objects while a record is rebuilt. -/
theorem counts_reconstruct (h : Heap) (runtime : Option Services) (start : Address)
    (length : Nat) (dtype : Option Ref) :
    h.Counts (h.reconstruct runtime start length dtype).1 := by
  have moved : Custody.Moves ⟨h, dtype.toList, 0, 0⟩ _ :=
    Custody.moves_reconstruct runtime start length fun t ht => by simpa using ht
  exact Custody.counts_moves moved

theorem counts_rebuildWithNew (h : Heap) (s : Services) (body : Body) (start : Address)
    (length : Nat) (dtype : Option Ref) :
    h.Counts (h.rebuildWithNew s body start length dtype).1 := by
  have moved : Custody.Moves ⟨(h.alloc body).1, dtype.toList, 0, 0⟩ _ :=
    Custody.moves_rebuildWithKind s start length (h.alloc body).2 fun t ht => by simpa using ht
  exact (Counts.alloc h body).trans ((Custody.counts_moves moved).trans (.releaseAll _ _))

/-- With a new record goes all that came with it. -/
theorem Grown.release_record {record storage descr : Ref} {bytes : List UInt8}
    {fields : List Field} {size : Nat}
    (grown : h.Grown (recordObjects record storage descr bytes fields size) h') :
    h.Grown [] (h'.release record) := by
  obtain ⟨h₁, fell, noRecord⟩ := grown.releaseAll_last [] rfl []
  obtain ⟨h₂, undescribed, noDescr⟩ := noRecord.releaseAll_last [_] rfl [storage]
  obtain ⟨h₃, dropped, noBytes⟩ := noDescr.releaseAll_last [] rfl []
  have gone : h'.release record = h₃ :=
    fell.trans (undescribed.trans (dropped.trans (releaseAll_nil h₃)))
  exact gone ▸ noBytes

/-- Either nothing comes of it and nothing is new, or there is a record and what comes with it. -/
theorem grown_reconstruct (hosted : h.Hosted) (room : h.Room 16)
    (live : ∀ t ∈ dtype, ∃ o, h.get? t = some o) (runtime : Option Services) (start : Address)
    (length : Nat) :
    let call := h.reconstruct runtime start length dtype
    (∃ e, call.2 = .error e ∧ h.Grown [] call.1) ∨
      ∃ record storage descr fields size, call.2 = .ok record ∧
        dtype.bind h.layout? = some (.record fields size) ∧
        h.Grown (recordObjects record storage descr (h.read start size) fields size) call.1 := by
  intro call
  have borrowed : h.Grown [] (h.lent dtype) := grown_lent hosted (room.mono (by decide)) live
  cases runtime with
  | none => exact .inl ⟨_, rfl, .refl h⟩
  | some s =>
    cases kind : s.kind with
    | missing =>
      have failed : call = (h, .error .runtimeUnavailable) := reconstruct_of_missing kind
      rw [failed]
      exact .inl ⟨_, rfl, .refl h⟩
    | fresh =>
      have same : call = h.rebuildWithNew s (.int 0) start length dtype := reconstruct_of_fresh kind
      have other : (Body.int 0).kind ≠ .recordKind := by decide
      obtain ⟨answer, grown⟩ := rebuildWithNew_of_other hosted live s start length other rfl
      rw [same]
      exact .inl ⟨_, answer, borrowed.trans grown⟩
    | genuine =>
      obtain ⟨news, rebuilds, grown⟩ := rebuilds_reconstruct hosted kind start length live
      have whole := borrowed.trans grown
      rw [List.append_nil] at whole
      generalize (h.reconstruct (some s) start length dtype).2 = result at rebuilds ⊢
      cases rebuilds with
      | badDescriptor => exact .inl ⟨_, rfl, whole⟩
      | copyFailed => exact .inl ⟨_, rfl, whole⟩
      | record combines => exact .inr ⟨_, _, _, _, _, rfl, combines.structured, whole⟩

/-- A failure leaves the heap as it was, whatever the runtime does and wherever it fails. A record
    comes with two more objects, its descriptor and its bytes, and nothing else changes; dropping
    it restores the heap. A runtime that hands out some new object for the record kind gets no
    further. -/
theorem reconstruct_restores (hosted : h.Hosted) (room : h.Room 16)
    (live : ∀ t ∈ dtype, ∃ o, h.get? t = some o) (runtime : Option Services) (start : Address)
    (length : Nat) :
    let call := h.reconstruct runtime start length dtype
    (∀ e, call.2 = .error e → h.Same call.1) ∧
      (∀ record, call.2 = .ok record → ∃ storage descr fields size,
        dtype.bind h.layout? = some (.record fields size) ∧
        h.Grown (recordObjects record storage descr (h.read start size) fields size) call.1 ∧
        h.Same (call.1.release record)) ∧
      ∀ s body, body.kind ≠ .recordKind → body.refs = [] →
        (h.rebuildWithNew s body start length dtype).2 = .error .badDescriptor ∧
          h.Same (h.rebuildWithNew s body start length dtype).1 := by
  intro call
  have counts : h.Counts call.1 := counts_reconstruct h runtime start length dtype
  have borrowed : h.Grown [] (h.lent dtype) := grown_lent hosted (room.mono (by decide)) live
  have other : ∀ s body, body.kind ≠ .recordKind → body.refs = [] →
      (h.rebuildWithNew s body start length dtype).2 = .error .badDescriptor ∧
        h.Same (h.rebuildWithNew s body start length dtype).1 := by
    intro s body kind leaf
    obtain ⟨answer, grown⟩ := rebuildWithNew_of_other hosted live s start length kind leaf
    exact ⟨answer, (borrowed.trans grown).same (counts_rebuildWithNew ..)⟩
  have either := grown_reconstruct hosted room live runtime start length
  refine ⟨?_, ?_, other⟩
  · intro e failed
    rcases either with ⟨_, _, grown⟩ | ⟨_, _, _, _, _, answer, _⟩
    · exact grown.same counts
    · rw [failed] at answer
      cases answer
  · intro record built
    rcases either with ⟨_, answer, _⟩ | ⟨_, storage, descr, fields, size, answer, layout, grown⟩
    · rw [built] at answer
      cases answer
    · rw [built] at answer
      cases answer
      exact ⟨storage, descr, fields, size, layout, grown,
        grown.release_record.same (counts.trans (.releaseAll _ _))⟩

/-- A descriptor of two bytes, and three bytes to rebuild a record from. -/
def described : Heap :=
  ((initial.newDescriptor (.record [⟨"a", 0, .float64⟩] 2)).1.place [1, 2, 3]).1

/-- Beside a descriptor and a block of memory only the descriptor is owned. -/
theorem accounts_place_newDescriptor (layout : Layout) (bytes : List UInt8) :
    ((initial.newDescriptor layout).1.place bytes).1.Accounts {1} := by
  have made : (initial.newDescriptor layout).1.Accounts {1} :=
    ((Accounts.initial .initial).alloc : Accounts _ (1 ::ₘ 0))
  exact made.of_slots_eq rfl

theorem accounts_described : described.Accounts {1} := accounts_place_newDescriptor _ _

/-- The array that the runtime made falls again where it yields no item. -/
theorem reconstruct_restores_of_no_item :
    let call := fun s : Services => described.reconstruct (some s) (.block 0 0) 3 (some 1)
    let stuck : Services := ⟨.genuine, true, true, false⟩
    described.Hosted ∧ described.Room 16 ∧ (∃ o, described.get? 1 = some o) ∧
      (call .reference).2 = .ok 6 ∧ described.Same ((call .reference).1.release 6) ∧
      (call stuck).2 = .error .copyFailed ∧ described.Same (call stuck).1 := by
  intro call stuck
  have hosted : described.Hosted := accounts_described.hosted
  have found : ∃ o, described.get? 1 = some o := accounts_described.owned (by simp)
  have room : described.Room 16 := by decide
  have live := live_some found
  have built : (call .reference).2 = .ok 6 := by decide +kernel
  have failed : (call stuck).2 = .error .copyFailed := by decide +kernel
  obtain ⟨_, records, _⟩ := reconstruct_restores hosted room live (some .reference) (.block 0 0) 3
  obtain ⟨_, _, _, _, _, _, dropped⟩ := records 6 built
  obtain ⟨failures, _⟩ := reconstruct_restores hosted room live (some stuck) (.block 0 0) 3
  exact ⟨hosted, room, found, built, dropped, failed, failures _ failed⟩

/-! ### Records as they are built -/

/-- A record as it is built: its bytes are those of one item of its own descriptor's layout. -/
structure IsRecord (h : Heap) (record descr storage : Ref) (fields : List Field)
    (bytes : List UInt8) : Prop where
  body : h.body? record = some (.record descr storage)
  own : h.body? descr = some (.descriptor (.record fields bytes.length) true)
  data : h.body? storage = some (.bytes bytes)
  positive : 0 < bytes.length
  word : bytes.length < sizeLimit

theorem IsRecord.recordBytes?_eq {record descr storage : Ref} {fields : List Field}
    {bytes : List UInt8} (intact : h.IsRecord record descr storage fields bytes) :
    h.recordBytes? record = some bytes := by
  simp [recordBytes?, intact.body, data?, intact.data]

/-- The new record is one, as long as it and what came with it are there. -/
theorem Grown.isRecord {g : Heap} {record storage descr : Ref} {fields : List Field} {size : Nat}
    (grown : g.Grown (recordObjects record storage descr (h.read start size) fields size) h')
    (holds : h.Holds start length size) {later : Heap}
    (kept : ∀ r, g.slots.length ≤ r → later.get? r = h'.get? r) :
    later.IsRecord record descr storage fields (h.read start size) := by
  have found : ∀ entry ∈ recordObjects record storage descr (h.read start size) fields size,
      later.body? entry.1 = some entry.2.body := by
    intro entry mem
    rw [body?, kept _ (grown.fresh entry mem), grown.new entry mem]
    rfl
  have own : later.body? descr = some (.descriptor (.record fields size) true) :=
    found (descr, ownDescriptor fields size) (by simp [recordObjects])
  rw [← holds.length_read] at own
  exact ⟨found (record, _) List.mem_cons_self, own,
    found (storage, _) (List.mem_cons_of_mem _ List.mem_cons_self),
    holds.length_read.symm ▸ holds.positive, holds.length_read.symm ▸ holds.word⟩

/-! ### When there is a record -/

section Reference

variable {fields : List Field} {size : Nat} {record : Ref}

theorem combines_reference (hosted : h.Hosted) :
    h.Combines .reference recordKind dtype fields size ↔
      dtype.bind h.layout? = some (.record fields size) := by
  obtain ⟨k, found, _, body⟩ := hosted.kind
  refine ⟨fun combines => combines.structured, fun structured => ⟨rfl, ?_, structured⟩⟩
  rw [kind?, body?, found]
  exact congrArg (some ∘ Body.kind) body

/-- Of a region that is there, an item can be taken unless it is empty or reaches past the end. -/
theorem yields_reference (readable : start ≠ .null → length ≤ (h.memory start).length)
    (word : length < sizeLimit) :
    h.Yields .reference start length size ↔ 0 < size ∧ size ≤ length ∧ start ≠ .null := by
  constructor
  · rintro ⟨_, _, holds⟩
    refine ⟨holds.positive, holds.within, ?_⟩
    rintro rfl
    exact absurd holds.readable (Nat.not_le.mpr holds.positive)
  · rintro ⟨positive, within, somewhere⟩
    exact ⟨rfl, rfl, positive, Nat.lt_of_le_of_lt within word, within,
      Nat.le_trans within (readable somewhere)⟩

theorem rebuilds_reference (hosted : h.Hosted) (live : ∀ t ∈ dtype, ∃ o, h.get? t = some o) :
    let call := h.reconstruct (some .reference) start length dtype
    ∃ news, h.Rebuilds .reference start length recordKind dtype call.2 news ∧
      (h.lent dtype).Grown news call.1 :=
  rebuilds_reconstruct hosted rfl start length live

theorem exists_record_iff (hosted : h.Hosted) (live : ∀ t ∈ dtype, ∃ o, h.get? t = some o)
    (readable : start ≠ .null → length ≤ (h.memory start).length) (word : length < sizeLimit) :
    (∃ record, (h.reconstruct (some .reference) start length dtype).2 = .ok record) ↔
      ∃ fields size, dtype.bind h.layout? = some (.record fields size) ∧
        0 < size ∧ size ≤ length ∧ start ≠ .null := by
  obtain ⟨news, rebuilds, _⟩ := rebuilds_reference hosted live
  constructor
  · rintro ⟨record, built⟩
    rw [built] at rebuilds
    cases rebuilds with
    | record combines yields =>
      exact ⟨_, _, combines.structured, (yields_reference readable word).mp yields⟩
  · rintro ⟨fields, size, layout, good⟩
    obtain ⟨record, _, _, answer, _⟩ := rebuilds.eq_record
      ((combines_reference hosted).mpr layout) ((yields_reference readable word).mpr good)
    exact ⟨record, answer⟩

/-- What the new record is, whatever becomes of the memory and of the objects there were before. -/
theorem isRecord_of_built (hosted : h.Hosted) (live : ∀ t ∈ dtype, ∃ o, h.get? t = some o)
    (built : (h.reconstruct (some .reference) start length dtype).2 = .ok record)
    (layout : dtype.bind h.layout? = some (.record fields size)) :
    ∃ descr storage, h.slots.length ≤ descr ∧ (h.read start size).length = size ∧
      ∀ later : Heap, (∀ r, h.slots.length ≤ r →
          later.get? r = (h.reconstruct (some .reference) start length dtype).1.get? r) →
        later.IsRecord record descr storage fields (h.read start size) := by
  obtain ⟨news, rebuilds, grown⟩ := rebuilds_reference hosted live
  rw [built] at rebuilds
  cases rebuilds with
  | @record _ storage descr _ _ combines yields =>
    cases layout.symm.trans combines.structured
    have new : (h.lent dtype).slots.length ≤ descr :=
      grown.fresh (descr, ownDescriptor fields size) (by simp [recordObjects])
    rw [length_lent] at new
    refine ⟨descr, storage, new, yields.2.2.length_read, fun later kept => ?_⟩
    rw [← length_lent h dtype] at kept
    exact grown.isRecord yields.2.2 kept

/-- The descriptor that was given is as it was. -/
theorem descriptor?_reconstruct (hosted : h.Hosted)
    (live : ∀ t ∈ dtype, ∃ o, h.get? t = some o) (mem : r ∈ dtype) :
    (h.reconstruct (some .reference) start length dtype).1.descriptor? r = h.descriptor? r := by
  obtain ⟨news, _, grown⟩ := rebuilds_reference hosted live
  obtain ⟨o, found⟩ := live r mem
  have borrowed := body?_lent hosted live r
  obtain ⟨o', found', _⟩ :=
    body?_eq_some_iff.mp (borrowed.trans (body?_eq_some_iff.mpr ⟨o, found, rfl⟩))
  rw [descriptor?, descriptor?, grown.body?_eq found', borrowed]

theorem badDescriptor_of_unstructured (hosted : h.Hosted)
    (live : ∀ t ∈ dtype, ∃ o, h.get? t = some o)
    (unstructured : ∀ fields size, dtype.bind h.layout? ≠ some (.record fields size)) :
    (h.reconstruct (some .reference) start length dtype).2 = .error .badDescriptor := by
  obtain ⟨news, rebuilds, _⟩ := rebuilds_reference hosted live
  exact rebuilds.eq_badDescriptor fun fields size combines =>
    unstructured fields size combines.structured

theorem copyFailed_of_unusable (hosted : h.Hosted) (live : ∀ t ∈ dtype, ∃ o, h.get? t = some o)
    (readable : start ≠ .null → length ≤ (h.memory start).length) (word : length < sizeLimit)
    (layout : dtype.bind h.layout? = some (.record fields size))
    (unusable : start = .null ∧ length ≠ 0 ∨ length < size ∨ size = 0) :
    (h.reconstruct (some .reference) start length dtype).2 = .error .copyFailed := by
  obtain ⟨news, rebuilds, _⟩ := rebuilds_reference hosted live
  refine rebuilds.eq_copyFailed ((combines_reference hosted).mpr layout) fun yields => ?_
  obtain ⟨positive, within, somewhere⟩ := (yields_reference readable word).mp yields
  rcases unusable with ⟨null, _⟩ | short | zero
  · exact somewhere null
  · exact absurd within (Nat.not_le.mpr short)
  · exact absurd zero (Nat.ne_of_gt positive)

end Reference

/-- The reference runtime rebuilds a record exactly of a structured descriptor and a region that
    begins with an item of its size. The record shows the bytes that stood there, whatever becomes
    of the memory and of the objects there were before, and has a descriptor of its own. Otherwise
    the runtime is asked for first, then the descriptor, then the region. -/
theorem reconstruct_reference (hosted : h.Hosted)
    (live : ∀ t ∈ dtype, ∃ o, h.get? t = some o) {runtime : Option Services}
    (known : ∀ s ∈ runtime, s = .reference)
    (readable : start ≠ .null → length ≤ (h.memory start).length) (word : length < sizeLimit) :
    let call := h.reconstruct runtime start length dtype
    ((∃ record, call.2 = .ok record) ↔ runtime = some .reference ∧ ∃ fields size,
        dtype.bind h.layout? = some (.record fields size) ∧
          0 < size ∧ size ≤ length ∧ start ≠ .null) ∧
      (∀ record fields size, call.2 = .ok record →
        dtype.bind h.layout? = some (.record fields size) →
        (∀ later : Heap, (∀ r, h.slots.length ≤ r → later.get? r = call.1.get? r) →
          later.recordBytes? record = some (h.read start size)) ∧
        (∃ descr storage, call.1.body? record = some (.record descr storage) ∧
          h.slots.length ≤ descr ∧ call.1.descriptor? descr = some (.record fields size, true)) ∧
        ∀ t ∈ dtype, call.1.descriptor? t = h.descriptor? t) ∧
      (runtime = none → call.2 = .error .runtimeUnavailable) ∧
      (∀ s : Services, s.kind = .missing →
        (h.reconstruct (some s) start length dtype).2 = .error .runtimeUnavailable) ∧
      (runtime = some .reference →
        (∀ fields size, dtype.bind h.layout? ≠ some (.record fields size)) →
        call.2 = .error .badDescriptor) ∧
      (runtime = some .reference → ∀ fields size,
        dtype.bind h.layout? = some (.record fields size) →
        start = .null ∧ length ≠ 0 ∨ length < size ∨ size = 0 →
        call.2 = .error .copyFailed) := by
  intro call
  have missing : ∀ s : Services, s.kind = .missing →
      (h.reconstruct (some s) start length dtype).2 = .error .runtimeUnavailable := by
    intro s missing
    rw [reconstruct_of_missing missing]
  cases runtime with
  | none =>
    have answer : call.2 = .error .runtimeUnavailable := rfl
    refine ⟨by simp [answer], ?_, fun _ => rfl, missing, nofun, nofun⟩
    intro record fields size built
    cases built
  | some s =>
    obtain rfl := known s rfl
    refine ⟨?_, ?_, nofun, missing, fun _ => badDescriptor_of_unstructured hosted live,
      fun _ fields size => copyFailed_of_unusable hosted live readable word⟩
    · exact (exists_record_iff hosted live readable word).trans (by simp)
    · intro record fields size built layout
      obtain ⟨descr, storage, new, all, intact⟩ := isRecord_of_built hosted live built layout
      have first := intact call.1 fun _ _ => rfl
      have own : call.1.descriptor? descr = some (.record fields size, true) := by
        rw [descriptor?, first.own, all, Option.bind_some, Body.descriptor?_descriptor]
      exact ⟨fun later kept => (intact later kept).recordBytes?_eq,
        ⟨descr, storage, first.body, new, own⟩, fun t ht => descriptor?_reconstruct hosted live ht⟩

/-- A record keeps its bytes while the region is overwritten. Where both the descriptor and the
    region are missing, the descriptor is to blame. -/
theorem reconstruct_reference_of_overwritten :
    let call := described.reconstruct (some .reference) (.block 0 0) 3 (some 1)
    let later := call.1.overwrite 0 9
    described.Hosted ∧ (∃ o, described.get? 1 = some o) ∧
      3 ≤ (described.memory (.block 0 0)).length ∧ call.2 = .ok 6 ∧
      later.read (.block 0 0) 3 = [9, 9, 9] ∧ later.recordBytes? 6 = some [1, 2] ∧
      (described.reconstruct (some .reference) .null 3 none).2 = .error .badDescriptor := by
  intro call later
  have hosted : described.Hosted := accounts_described.hosted
  have found : ∃ o, described.get? 1 = some o := accounts_described.owned (by simp)
  have live := live_some found
  have known : ∀ s ∈ some Services.reference, s = .reference := by
    rintro s hs
    cases hs
    rfl
  have readable : 3 ≤ (described.memory (.block 0 0)).length := by decide
  have word : 3 < sizeLimit := by decide
  have built : call.2 = .ok 6 := by decide +kernel
  obtain ⟨_, records, _⟩ := reconstruct_reference hosted live known (fun _ => readable) word
  obtain ⟨bytes, _⟩ := records 6 [⟨"a", 0, .float64⟩] 2 built rfl
  have nothing : ∀ t ∈ (none : Option Ref), ∃ o, described.get? t = some o := nofun
  have nowhere : Address.null ≠ .null → 3 ≤ (described.memory .null).length := fun null =>
    absurd rfl null
  obtain ⟨_, _, _, _, missing, _⟩ := reconstruct_reference hosted nothing known nowhere word
  exact ⟨hosted, found, readable, built, by decide +kernel, bytes later fun _ _ => rfl,
    missing rfl nofun⟩

end Heap

end NativeBridge
