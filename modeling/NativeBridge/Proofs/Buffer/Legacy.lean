import NativeBridge.Proofs.Buffer.Strategies

/-! What a legacy buffer shows.

    A legacy buffer without a base is its own window; one with a base is a window into the first
    segment of that base. `Heap.Covers` lists both cases with all that they require, and a view is
    taken exactly in these (`Heap.windowRange_eq_some_iff`). The window lies inside the segment, and
    signed words of 64 bits compute its length without wrapping around (`Window.toInt_wordLength`).
    So it does not matter through which kind of base, or by which protocol, the same memory is
    reached (`Heap.acquireLegacy_of_window`). -/

namespace NativeBridge

/-! ### Words -/

/-- The integer is a signed word of 64 bits. -/
def IsWord (n : Int) : Prop := (Int64.ofInt n).toInt = n

theorem ofInt_le_iff {m n : Int} (hm : IsWord m) (hn : IsWord n) :
    Int64.ofInt m ≤ Int64.ofInt n ↔ m ≤ n := by
  rw [Int64.le_iff_toInt_le, hm, hn]

namespace Window

variable {ρ μ : Type} {w : Window ρ μ} {available : Int}

/-- Length of the window into a segment of `available` bytes. -/
def lengthWithin (w : Window ρ μ) (available : Int) : Int :=
  if w.size < 0 then available - w.offset else min w.size (available - w.offset)

/-- The same length as words compute it, which wrap around. -/
def wordLength (w : Window ρ μ) (available : Int) : Int64 :=
  let rest := Int64.ofInt available - Int64.ofInt w.offset
  if Int64.ofInt w.size < 0 then rest else min (Int64.ofInt w.size) rest

theorem lengthWithin_nonneg (inside : w.offset ≤ available) : 0 ≤ w.lengthWithin available := by
  rw [lengthWithin]
  split <;> omega

theorem offset_add_lengthWithin_le (w : Window ρ μ) (available : Int) :
    w.offset + w.lengthWithin available ≤ available := by
  rw [lengthWithin]
  split <;> omega

theorem toInt_wordLength (size : IsWord w.size) (offset : IsWord w.offset)
    (segment : IsWord available) (start : 0 ≤ w.offset) (inside : w.offset ≤ available) :
    (w.wordLength available).toInt = w.lengthWithin available := by
  have zero : IsWord 0 := rfl
  have rest : (Int64.ofInt available - Int64.ofInt w.offset).toInt = available - w.offset := by
    rw [Int64.toInt_sub_of_le _ _ ((ofInt_le_iff zero offset).mpr start)
      ((ofInt_le_iff offset segment).mpr inside), segment, offset]
  have negative : Int64.ofInt w.size < 0 ↔ w.size < 0 := by
    rw [Int64.lt_iff_toInt_lt, size]
    rfl
  simp only [wordLength, lengthWithin, negative]
  split
  · exact rest
  · have shorter : Int64.ofInt w.size ≤ Int64.ofInt available - Int64.ofInt w.offset ↔
        w.size ≤ available - w.offset := by
      rw [Int64.le_iff_toInt_le, size, rest]
    simp only [Std.min_eq_if, shorter]
    split
    · exact size
    · exact rest

end Window

namespace Heap

variable {h : Heap} {r base inner : Ref} {w : Window Ref Address} {start : Address}
  {length : Int} {data : List UInt8}

/-! ### Windows -/

/-- What a window covers: itself, or a part of the first segment of a base without a base. -/
inductive Covers (h : Heap) (w : Window Ref Address) : Address → Int → Prop where
  | whole : w.base = none → w.start ≠ .null → 0 ≤ w.size → Covers h w w.start w.size
  | part {base : Ref} {available : Int} {start : Address} :
    w.base = some base → (h.window? base).bind (·.base) = none →
    h.readSegment base 0 = some (available, start) → 0 < available → start ≠ .null →
    0 ≤ w.offset → w.offset ≤ available →
    Covers h w (start.advance w.offset.toNat) (w.lengthWithin available)

theorem windowRange_eq_some_iff :
    h.windowRange w = some (start, length) ↔ h.Covers w start length := by
  constructor
  · intro range
    unfold windowRange at range
    split at range
    · rename_i baseless
      split at range
      · cases range
      · rename_i usable
        cases range
        exact .whole baseless (not_or.mp usable).2 (Int.not_lt.mp (not_or.mp usable).1)
    · rename_i based
      split at range
      · cases range
      · rename_i flat
        split at range
        · cases range
        · rename_i segment
          split at range
          · cases range
          · rename_i usable
            cases range
            simp only [not_or, Int.not_le, Int.not_lt] at usable
            obtain ⟨positive, somewhere, offset, inside⟩ := usable
            exact .part based (by simpa using flat) segment positive somewhere offset inside
  · intro covers
    cases covers with
    | whole baseless somewhere size =>
      rw [windowRange, baseless]
      exact if_neg (not_or.mpr ⟨Int.not_lt.mpr size, somewhere⟩)
    | @part base available start based flat segment positive somewhere offset inside =>
      have usable : ¬(available ≤ 0 ∨ start = .null ∨ w.offset < 0 ∨ available < w.offset) := by
        simp only [not_or, Int.not_le, Int.not_lt]
        exact ⟨positive, somewhere, offset, inside⟩
      simp [windowRange, based, flat, segment, usable, Window.lengthWithin]

theorem Covers.nonneg (covers : h.Covers w start length) : 0 ≤ length := by
  cases covers with
  | whole _ _ size => exact size
  | part _ _ _ _ _ _ inside => exact Window.lengthWithin_nonneg inside

/-- A view of a legacy buffer. -/
def windowView (r : Ref) (start : Address) (length : Int) : View :=
  ⟨start, some r, length, 1, 1, 1, true⟩

theorem acquireLegacy_of_covers (found : h.window? r = some w)
    (covers : h.Covers w start length) :
    h.acquireLegacy r = (h.retain r, some (windowView r start length)) := by
  rw [acquireLegacy, found, Option.bind_some, windowRange_eq_some_iff.mpr covers]
  rfl

theorem acquireLegacy_of_uncovered (found : h.window? r = some w)
    (uncovered : ∀ start length, ¬h.Covers w start length) : h.acquireLegacy r = (h, none) := by
  have refused : h.windowRange w = none := Option.eq_none_iff_forall_ne_some.mpr
    fun ⟨start, length⟩ range => uncovered start length (windowRange_eq_some_iff.mp range)
  rw [acquireLegacy, found, Option.bind_some, refused]

/-! ### Bases -/

/-- The base has these bytes, from `start` on, as its first segment. -/
structure Offers (h : Heap) (base : Ref) (start : Address) (data : List UInt8) : Prop where
  flat : (h.window? base).bind (·.base) = none
  segment : h.readSegment base 0 = some ((data.length : Int), start)
  somewhere : start ≠ .null
  bytes : h.read start data.length = data

theorem offers_of_bytes (body : h.body? base = some (.bytes data)) :
    h.Offers base (.object base 0) data :=
  ⟨by simp [window?, body, Body.window?], by simp [readSegment, body], nofun,
    by simp [read, memory, data?, body]⟩

theorem offers_of_window {offset : Int}
    (body : h.body? inner = some (.window ⟨none, start, data.length, offset⟩))
    (somewhere : start ≠ .null) (bytes : h.read start data.length = data) :
    h.Offers inner start data :=
  ⟨by simp [window?, body, Body.window?], by simp [readSegment, body], somewhere, bytes⟩

/-- The window covers its part of what the base offers, unless that is nothing or does not reach up
    to its offset. -/
theorem covers_iff_of_offers (offers : h.Offers base start data) (based : w.base = some base)
    {first : Address} :
    h.Covers w first length ↔ (data ≠ [] ∧ 0 ≤ w.offset ∧ w.offset ≤ data.length) ∧
      first = start.advance w.offset.toNat ∧ length = w.lengthWithin data.length := by
  constructor
  · intro covers
    cases covers with
    | whole baseless _ _ => cases based.symm.trans baseless
    | part based' _ segment positive _ offset inside =>
      cases based.symm.trans based'
      cases offers.segment.symm.trans segment
      exact ⟨⟨by rintro rfl; simp at positive, offset, inside⟩, rfl, rfl⟩
  · rintro ⟨⟨full, offset, inside⟩, rfl, rfl⟩
    have positive : (0 : Int) < data.length :=
      Int.natCast_pos.mpr (List.length_pos_iff.mpr full)
    exact .part based offers.flat offers.segment positive offers.somewhere offset inside

theorem memory_advance (h : Heap) (start : Address) (n : Nat) :
    h.memory (start.advance n) = (h.memory start).drop n := by
  cases start <;> simp [Address.advance, memory]

/-- Reading further on is reading all and leaving out the beginning. -/
theorem read_advance {m n k : Nat} (within : k + n ≤ m) :
    h.read (start.advance k) n = ((h.read start m).drop k).take n := by
  rw [read, read, memory_advance, List.drop_take, List.take_take]
  congr 1
  omega

/-! ### Bytes -/

/-- The bytes that a view shows, if one was taken. -/
def shown (call : Heap × Option View) : Option (List UInt8) := call.2.map (·.bytes call.1)

theorem read_retain (h : Heap) (r : Ref) (start : Address) (n : Nat) :
    (h.retain r).read start n = h.read start n := by
  have blocks : (h.retain r).blocks = h.blocks := rfl
  have same : (h.retain r).memory start = h.memory start :=
    memory_congr blocks (fun t => data?_congr (body?_retain h r t)) start
  rw [read, read, same]

/-- Whatever kind of base it is, the window shows its part of what the base offers. -/
theorem shown_of_offers (found : h.window? r = some w) (based : w.base = some base)
    (offers : h.Offers base start data) :
    shown (h.acquireLegacy r) =
      if data ≠ [] ∧ 0 ≤ w.offset ∧ w.offset ≤ data.length then
        some ((data.drop w.offset.toNat).take (w.lengthWithin data.length).toNat)
      else none := by
  split
  · rename_i inside
    have covers := (covers_iff_of_offers offers based).mpr ⟨inside, rfl, rfl⟩
    have nonneg := covers.nonneg
    have within := w.offset_add_lengthWithin_le data.length
    rw [shown, acquireLegacy_of_covers found covers, Option.map_some, View.bytes]
    dsimp only [windowView]
    rw [read_retain, read_advance (m := data.length) (by omega), offers.bytes]
  · rename_i outside
    have uncovered : ∀ first length, ¬h.Covers w first length := fun first length covers =>
      outside ((covers_iff_of_offers offers based).mp covers).1
    rw [shown, acquireLegacy_of_uncovered found uncovered]
    rfl

/-- The exporter of a bytes object shows all its contents. -/
theorem shown_current (body : h.body? base = some (.bytes data)) :
    shown (h.acquireCurrent base) = some data := by
  have after : ((h.lock base).retain base).body? base = some (.bytes data) := by
    rw [body?_retain, body?_lock, body]
  have usable : ¬(data.length : Int) < 0 := by omega
  simp [shown, acquireCurrent, exporter?, body, usable, View.bytes, read, memory, data?, after]

/-- A legacy buffer is viewed exactly where its window covers something, and then the view shows
    that and holds the buffer; otherwise the attempt holds nothing and counts as a missing buffer
    protocol. A window into a base lies inside its segment, and words compute its length without
    wrapping around. Over a bytes object it shows a slice of the contents, all of them when it
    reaches from their start to their end, as the exporter does; and it shows the same through a
    legacy buffer of the same memory. -/
theorem acquireLegacy_of_window (found : h.window? r = some w) :
    (∀ start length, h.Covers w start length →
      h.acquireLegacy r = (h.retain r, some (windowView r start length)) ∧ 0 ≤ length) ∧
    ((∀ start length, ¬h.Covers w start length) → h.acquireLegacy r = (h, none)) ∧
    (∀ object, (h.getAttribute object dataAttribute).2 = some r →
      (h.extract object [.legacy]).2 = (h.acquireLegacy r).2.elim (.error .noBufferProtocol) .ok) ∧
    (∀ base available first start length, w.base = some base →
      h.readSegment base 0 = some (available, first) → h.Covers w start length →
        0 ≤ w.offset ∧ w.offset + length ≤ available ∧
        (IsWord w.size → IsWord w.offset → IsWord available →
          (w.wordLength available).toInt = length)) ∧
    ∀ base data, w.base = some base → h.body? base = some (.bytes data) →
      shown (h.acquireLegacy r) =
        (if data ≠ [] ∧ 0 ≤ w.offset ∧ w.offset ≤ data.length then
          some ((data.drop w.offset.toNat).take (w.lengthWithin data.length).toNat)
        else none) ∧
      (data ≠ [] → w.size < 0 → w.offset = 0 →
        shown (h.acquireLegacy r) = shown (h.acquireCurrent base)) ∧
      ∀ r' inner start offset, h.window? r' = some { w with base := some inner } →
        h.body? inner = some (.window ⟨none, start, data.length, offset⟩) → start ≠ .null →
        h.read start data.length = data →
          shown (h.acquireLegacy r') = shown (h.acquireLegacy r) := by
  refine ⟨fun start length covers => ⟨acquireLegacy_of_covers found covers, covers.nonneg⟩,
    acquireLegacy_of_uncovered found, fun object named => extract_snd_alone named .legacy, ?_, ?_⟩
  · intro base available first start length based segment covers
    cases covers with
    | whole baseless => cases based.symm.trans baseless
    | part based' _ segment' _ _ offset inside =>
      cases based.symm.trans based'
      cases segment.symm.trans segment'
      exact ⟨offset, w.offset_add_lengthWithin_le available, fun size word words =>
        Window.toInt_wordLength size word words offset inside⟩
  · intro base data based body
    have bytes := shown_of_offers found based (offers_of_bytes body)
    refine ⟨bytes, fun full all start => ?_, ?_⟩
    · have length : w.lengthWithin data.length = data.length := by
        rw [Window.lengthWithin, if_pos all, start, sub_zero]
      rw [bytes, shown_current body, length, start]
      simp [full]
    · intro r' inner start offset found' body' somewhere same
      rw [bytes, shown_of_offers found' rfl (offers_of_window body' somewhere same)]
      rfl

/-- The middle of six bytes, through the bytes object and through a legacy buffer of a copy. -/
def nested : Heap :=
  ⟨[some ⟨.pinned, 0, .recordKind⟩, some ⟨2, 0, .bytes [0, 1, 2, 3, 4, 5]⟩,
    some ⟨2, 0, .window ⟨none, .block 0 0, 6, 0⟩⟩,
    some ⟨1, 0, .window ⟨some 1, .null, 3, 2⟩⟩, some ⟨1, 0, .window ⟨some 2, .null, 3, 2⟩⟩],
    [[0, 1, 2, 3, 4, 5]], .initial⟩

theorem acquireLegacy_of_window_of_nested :
    let w : Window Ref Address := ⟨some 1, .null, 3, 2⟩
    nested.window? 3 = some w ∧
      nested.acquireLegacy 3 = (nested.retain 3, some (windowView 3 (.object 1 2) 3)) ∧
      (w.wordLength 6).toInt = 3 ∧ shown (nested.acquireLegacy 3) = some [2, 3, 4] ∧
      shown (nested.acquireLegacy 4) = some [2, 3, 4] := by
  intro w
  have found : nested.window? 3 = some w := rfl
  obtain ⟨taken, _, _, words, bytes⟩ := acquireLegacy_of_window found
  have covers : nested.Covers w (.object 1 2) 3 :=
    @Covers.part nested w 1 6 (.object 1 0) rfl rfl rfl (by decide) nofun (by decide) (by decide)
  obtain ⟨shows, _, again⟩ := bytes 1 _ rfl rfl
  have middle : shown (nested.acquireLegacy 3) = some [2, 3, 4] := shows
  exact ⟨found, (taken _ _ covers).1,
    (words 1 6 (.object 1 0) _ _ rfl rfl covers).2.2 rfl rfl rfl, middle,
    (again 4 2 (.block 0 0) 0 rfl rfl nofun rfl).trans middle⟩

end Heap

end NativeBridge
