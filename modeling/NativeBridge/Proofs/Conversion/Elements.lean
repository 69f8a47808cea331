import NativeBridge.Proofs.Conversion.Outcome
import NativeBridge.Proofs.Record.Fields

/-! One element, three ways to read it.

    A real array scalar is read through a float made of its element, one of the complex family
    through its descriptor, and a field of a record from the bytes of the record. Wherever the
    same bytes are held as the same type (`Heap.HoldsElement`, `Heap.HoldsField`), each of them
    finds the number that the type casts the bytes to (`Heap.readings_agree`). -/

namespace NativeBridge

/-! ### The bytes of two parts -/

/-- The bytes begin with these two numbers of `n` bytes each. -/
def Binary.Begin {f : Format} (n : Nat) (raw : List UInt8) (real imag : Binary f) : Prop :=
  raw.take (n + n) = toLittleEndian n real.toBits ++ toLittleEndian n imag.toBits

/-- The bytes of a complex element are those of its two parts. -/
theorem Binary.exists_begin {f : Format} {n : Nat} (width : f.width = 8 * n) {raw : List UInt8}
    (long : n + n ≤ raw.length) : ∃ real imag : Binary f, Begin n raw real imag := by
  have first : (raw.take n).length = n := List.length_take_of_le (by omega)
  have second : ((raw.drop n).take n).length = n :=
    List.length_take_of_le (by rw [List.length_drop]; omega)
  obtain ⟨real, atReal⟩ := exists_toLittleEndian width first
  obtain ⟨imag, atImag⟩ := exists_toLittleEndian width second
  exact ⟨real, imag, by rw [Begin, atReal, atImag, List.take_add]⟩

namespace Heap

variable {h : Heap} {r descr : Ref} {type : ScalarType} {layout : Layout} {body : Body}
  {raw : List UInt8} {name : String}

theorem size_le_storageSize (type : ScalarType) : type.size ≤ storageSize := by
  cases type with
  | int w | uint w => cases w <;> decide
  | _ => decide

/-- An array scalar stores its element whole, whether its storage is cut or filled up. -/
theorem take_storage (long : type.size ≤ raw.length) :
    (storage raw).take type.size = raw.take type.size := by
  rw [storage, List.take_take, Nat.min_eq_left (size_le_storageSize type),
    List.take_append_of_le_length long]

/-! ### Where an element is held -/

/-- An array scalar that holds the element at the start of these bytes: a real one of the
    reference host, or any of the complex family. -/
inductive HoldsElement (h : Heap) (type : ScalarType) (raw : List UInt8) (r : Ref) : Prop where
  | real {descr : Ref} {stored : List UInt8} :
    type.isComplex = false → h.body? r = some (.scalar ⟨false, some descr, some stored⟩) →
    h.layout? descr = some (.scalar type) → stored.take type.size = raw.take type.size →
    HoldsElement h type raw r
  | family {descr : Ref} {stored : List UInt8} :
    h.InFamily r ⟨true, some descr, some stored⟩ → h.layout? descr = some (.scalar type) →
    stored.take type.size = raw.take type.size → HoldsElement h type raw r

/-- A record that holds the element at the start of these bytes where the first field of this name
    is, at whatever offset. -/
inductive HoldsField (h : Heap) (type : ScalarType) (raw : List UInt8) (r : Ref) (name : String) :
    Prop where
  | field {fields : List Field} {size offset : Nat} {bytes : List UInt8} :
    h.IsItem r (.record fields size) bytes → Layout.IsFirst fields name ⟨name, offset, type⟩ →
    (bytes.drop offset).take type.size = raw.take type.size → HoldsField h type raw r name

theorem inFamily_of_body? {e : Element Ref} (found : h.body? r = some body)
    (other : body.kind ≠ .complex) (element : body.element? = some e)
    (complex : e.isComplex = true) : h.InFamily r e :=
  ⟨by simpa [kind?, found] using other, by simpa [element?, found] using element, complex⟩

/-- The float on the way loses nothing: a real element has nothing but its real part. -/
theorem HoldsElement.adapt_eq (holds : h.HoldsElement type raw r) :
    (h.adapt (some r)).2 = .ok (type.cast raw) := by
  cases holds with
  | @real descr stored isReal found described same =>
    have plain : h.Plain r := by
      refine ⟨by simp [kind?, found, Body.kind], fun e element => ?_⟩
      rw [element?, found] at element
      cases element
      rfl
    have slot : h.float? r = some (some (.float (type.cast stored).real)) := by
      simp [float?, found, floatOf, described]
    rw [(Converts.real plain slot rfl).adapt_eq, ← ScalarType.cast_of_real isReal,
      ScalarType.cast_congr same]
  | family family described same =>
    rw [(Converts.element family rfl described rfl).adapt_eq, ScalarType.cast_congr same]

theorem HoldsField.recordField?_eq (long : type.size ≤ raw.length)
    (holds : h.HoldsField type raw r name) : h.recordField? r name = some (type.cast raw) := by
  cases holds with
  | @field fields size offset bytes item first same =>
    have whole := congrArg List.length same
    have within : offset + type.size ≤ bytes.length := by
      have positive := type.size_pos
      rw [List.length_take, List.length_take, List.length_drop, Nat.min_eq_left long] at whole
      omega
    rw [item.recordField?_of_stop_le (Layout.field?_eq_some_iff.mpr first) within, same,
      ScalarType.cast_take (Nat.le_refl _)]

/-! ### Making array scalars -/

theorem newScalar_parts (h : Heap) (isComplex : Bool) (layout : Layout) (raw : List UInt8) :
    let made := h.newScalar isComplex layout raw
    ∃ descr, made.1.body? made.2 = some (.scalar ⟨isComplex, some descr, some (storage raw)⟩) ∧
      made.1.layout? descr = some layout := by
  intro made
  have described : (h.newDescriptor layout).1.layout? (h.newDescriptor layout).2 = some layout := by
    rw [layout?, descriptor?, newDescriptor, alloc_snd, body?_alloc_self]
    rfl
  exact ⟨_, body?_alloc_self _ _, layout?_alloc described _⟩

theorem holds_newRealScalar (real : type.isComplex = false) (long : type.size ≤ raw.length) :
    (h.newRealScalar type raw).1.HoldsElement type raw (h.newRealScalar type raw).2 := by
  obtain ⟨descr, found, described⟩ := newScalar_parts h false (.scalar type) raw
  exact .real real found described (take_storage long)

/-- A scalar that is made of just the bytes of the element holds it, too. -/
theorem holds_newScalar (long : type.size ≤ raw.length) :
    let made := h.newScalar true (.scalar type) (raw.take type.size)
    made.1.HoldsElement type raw made.2 := by
  intro made
  obtain ⟨descr, found, described⟩ :=
    newScalar_parts h true (.scalar type) (raw.take type.size)
  refine .family (inFamily_of_body? found nofun rfl rfl) described ?_
  rw [take_storage (List.length_take_of_le long).ge, List.take_take, Nat.min_self]

theorem newCustom_parts {c : Custom Ref (Option (List UInt8))} {e : Element Ref}
    (element : c.element = some e) (described : h.layout? descr = some layout) :
    let made := h.newCustom c
    (∃ c', made.1.body? made.2 = some (.custom c') ∧ c'.shape.kind = c.shape.kind ∧
      c'.element = some { e with storage := e.storage.map storage }) ∧
      made.1.layout? descr = some layout := by
  intro made
  have placed : ∀ {h : Heap} (bytes : Option (List UInt8)), h.layout? descr = some layout →
      (h.place? bytes).1.layout? descr = some layout := fun bytes described =>
    (layout?_congr (body?_place? _ bytes descr)).trans described
  have all := placed (c.segment.bind (·.start))
    (placed (c.exporter.bind (·.start)) (placed (c.shape.window?.bind (·.start)) described))
  exact ⟨⟨_, body?_alloc_self _ _, by simp, by simp [element]⟩,
    layout?_alloc ((layout?_congr (body?_retainAll _ _ descr)).trans all) _⟩

/-- A custom object of the complex family reads its storage as the descriptor it names says. -/
theorem holds_newCustom {c : Custom Ref (Option (List UInt8))} (other : c.shape.kind ≠ .complex)
    (element : c.element = some ⟨true, some descr, some raw⟩)
    (described : h.layout? descr = some (.scalar type)) (long : type.size ≤ raw.length) :
    (h.newCustom c).1.HoldsElement type raw (h.newCustom c).2 := by
  obtain ⟨⟨c', found, same, own⟩, kept⟩ := newCustom_parts element described
  have kind : (Body.custom c').kind ≠ .complex := by rwa [Body.kind, same]
  exact .family (inFamily_of_body? found kind own rfl) kept (take_storage long)

/-! ### One number for all -/

/-- The number that an object just made, or any other, is converted to. -/
def ReadsAs (made : Heap × Ref) (number : Complex) : Prop :=
  (made.1.adapt (some made.2)).2 = .ok number

/-- The same bytes read as the same type are the same number, to the bit: in an array scalar of the
    reference host, in a custom one that is not of kind complex, and in a field of a record. -/
theorem readings_agree (long : type.size ≤ raw.length) :
    (∀ h r, HoldsElement h type raw r → ReadsAs (h, r) (type.cast raw)) ∧
    (type.isComplex = false → ∀ h, ReadsAs (newRealScalar h type raw) (type.cast raw)) ∧
    (type = .complex64 → (∃ real imag : Single, Binary.Begin 4 raw real imag) ∧
      ∀ real imag : Single, Binary.Begin 4 raw real imag →
        ∀ h, ReadsAs (newComplex64 h real imag) (type.cast raw)) ∧
    (type = .complex128 → (∃ real imag : Double, Binary.Begin 8 raw real imag) ∧
      ∀ real imag : Double, Binary.Begin 8 raw real imag →
        ∀ h, ReadsAs (newComplex128 h real imag) (type.cast raw)) ∧
    (∀ h (c : Custom Ref (Option (List UInt8))) descr, c.shape.kind ≠ .complex →
      c.element = some ⟨true, some descr, some raw⟩ → layout? h descr = some (.scalar type) →
      ReadsAs (newCustom h c) (type.cast raw)) ∧
    ∀ h r name, HoldsField h type raw r name → recordField? h r name = some (type.cast raw) := by
  refine ⟨fun h r holds => holds.adapt_eq,
    fun real h => (holds_newRealScalar real long).adapt_eq, ?_, ?_,
    fun h c descr other element described =>
      (holds_newCustom other element described long).adapt_eq,
    fun h r name holds => holds.recordField?_eq long⟩
  · rintro rfl
    refine ⟨Binary.exists_begin rfl long, fun real imag begins h => ?_⟩
    have whole : raw.take ScalarType.complex64.size = _ := begins
    rw [ReadsAs, newComplex64, ← whole]
    exact (holds_newScalar long).adapt_eq
  · rintro rfl
    refine ⟨Binary.exists_begin rfl long, fun real imag begins h => ?_⟩
    have whole : raw.take ScalarType.complex128.size = _ := begins
    rw [ReadsAs, newComplex128, ← whole]
    exact (holds_newScalar long).adapt_eq

/-- The bytes of a negative zero in single precision, and one more. -/
def minusZero : List UInt8 := [0, 0, 0, 128, 7]

/-- The sign of a zero survives each way, with an imaginary part `+0` where the type has none. -/
theorem readings_agree_of_minusZero :
    let number : Complex := ⟨.ofCode true 0, .zero⟩
    let lone := (initial.newDescriptor (.scalar .float32)).1
    let custom : Custom Ref (Option (List UInt8)) :=
      ⟨.plain .arrayScalar, none, some ⟨true, some 1, some minusZero⟩, none, none, none⟩
    let rebuilt := ((initial.newDescriptor (.record [⟨"x", 1, .float32⟩] 6)).1.place
      (9 :: minusZero)).1.reconstruct (some .reference) (.block 0 0) 6 (some 1)
    ScalarType.float32.size ≤ minusZero.length ∧
      ReadsAs (initial.newRealScalar .float32 minusZero) number ∧
      ReadsAs (lone.newCustom custom) number ∧
      rebuilt.2 = .ok 6 ∧ rebuilt.1.recordField? 6 "x" = some number ∧
      ∃ real imag : Single, Binary.Begin 4 (minusZero.take 4 ++ minusZero) real imag ∧
        ReadsAs (initial.newComplex64 real imag) ⟨.ofCode true 0, .ofCode true 0⟩ := by
  intro number lone custom rebuilt
  have long : ScalarType.float32.size ≤ minusZero.length := by decide
  have cast : ScalarType.float32.cast minusZero = number := by decide +kernel
  obtain ⟨_, real, _, _, family, field⟩ := readings_agree long
  rw [cast] at real family field
  have answer : rebuilt.2 = .ok 6 := by decide +kernel
  have built : rebuilt.1.Built (.record [⟨"x", 1, .float32⟩] 6) (9 :: minusZero) 6 :=
    .rebuilt (accounts_place_newDescriptor _ _).hosted rfl (Prod.ext rfl answer) rfl
  have first : (Layout.record [⟨"x", 1, .float32⟩] 6).field? "x" = some ⟨"x", 1, .float32⟩ := by
    decide +kernel
  have holds : rebuilt.1.HoldsField .float32 minusZero 6 "x" :=
    .field built.isItem.2.2 (Layout.field?_eq_some_iff.mp first) (by decide)
  have wide : ScalarType.complex64.size ≤ (minusZero.take 4 ++ minusZero).length := by decide
  obtain ⟨_, _, both, _⟩ := readings_agree wide
  obtain ⟨⟨re, im, begins⟩, reads⟩ := both rfl
  have twice : ScalarType.complex64.cast (minusZero.take 4 ++ minusZero) =
      ⟨.ofCode true 0, .ofCode true 0⟩ := by decide +kernel
  refine ⟨long, real rfl initial, family lone custom 1 nofun rfl rfl, answer, field _ _ _ holds,
    re, im, begins, ?_⟩
  rw [← twice]
  exact reads re im begins initial

end Heap

end NativeBridge
