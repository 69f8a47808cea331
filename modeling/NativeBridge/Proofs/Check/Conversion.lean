import NativeBridge.Proofs.Check.Basic
import NativeBridge.Proofs.Conversion.Outcome

/-! The check of the conversion to complex numbers.

    Each of its numbers is one it made itself, so reading it borrows from a new object or makes one
    more that falls again (`Check.Reads`). The adaptor itself passes; whatever else stands under its
    name answers zero to the first number, and the check ends there with nothing pending. -/

namespace NativeBridge

namespace Heap

variable {h : Heap} {r descr : Ref}

/-! ### Conversions of known objects -/

theorem adapt_of_int {value : Int} (found : h.body? r = some (.int value)) :
    h.adapt (some r) = ((h.alloc (.float (.ofInt value))).1.release h.slots.length,
      .ok (.ofReal (.ofInt value))) := by
  simp [adapt, found, NumericKind.of, Body.kind, Body.element?, Body.hasFloat, adaptReal, coerce,
    body?_alloc_self]

theorem adapt_of_float {value : Double} (found : h.body? r = some (.float value))
    (lends : h.Lends r) : h.adapt (some r) = (h, .ok (.ofReal value)) := by
  simp [adapt, found, NumericKind.of, Body.kind, Body.element?, Body.hasFloat, adaptReal, coerce,
    handOut, body?_retain, lends.release_retain]

theorem adapt_of_complexScalar {type : ScalarType} {raw : List UInt8}
    (found : h.body? r = some (.scalar ⟨true, some descr, some raw⟩))
    (described : h.layout? descr = some (.scalar type)) (lends : h.Lends descr) :
    h.adapt (some r) = (h, .ok (type.cast raw)) := by
  have layout := layout?_congr (body?_retain h descr descr)
  simp [adapt, found, NumericKind.of, Body.kind, Body.element?, adaptElement, elementDescriptor,
    element?, handOut, body?_retain, layout, described, castElement, lends.release_retain]

theorem adapt_of_bytes {data : List UInt8} (found : h.body? r = some (.bytes data)) :
    h.adapt (some r) = (h, .error .notNumeric) := by
  simp [adapt, found, NumericKind.of, Body.kind, Body.element?, Body.hasFloat]

end Heap

namespace Check

variable {host : Host} {installed : Bool} {h g : Heap} {news : List (Ref × Object)}
  {table : ExportTable} {code : Code} {value : Ref} {want : Complex}

/-! ### One number -/

/-- Among these objects the value reads as this number, and reading it leaves them alone. -/
def Reads (h : Heap) (news : List (Ref × Object)) (value : Ref) (want : Complex) : Prop :=
  ∀ g, h.Grown news g → ∃ g', g.adapt (some value) = (g', .ok want) ∧ h.Grown news g'

theorem reads_complex {o : Object} (mem : (value, o) ∈ news) (body : o.body = .complex want) :
    Reads h news value want := fun g grown =>
  ⟨g, Heap.adapt_of_complex (by simp [grown.body?_new mem, body]), grown⟩

theorem reads_int {o : Object} {n : Int} (mem : (value, o) ∈ news) (body : o.body = .int n) :
    Reads h news value (.ofReal (.ofInt n)) := by
  intro g grown
  refine ⟨_, Heap.adapt_of_int ((grown.body?_new mem).trans (congrArg some body)), ?_⟩
  obtain ⟨g', fell, left⟩ := (grown.alloc (.float (.ofInt n))).releaseAll_last [] rfl []
  rw [Heap.release, fell]
  simpa [Body.refs] using left

theorem reads_float {o : Object} {number : Double} (mem : (value, o) ∈ news)
    (body : o.body = .float number) (fresh : o.count = .fresh) :
    Reads h news value (.ofReal number) := by
  intro g grown
  have lends : g.Lends value :=
    grown.lends mem (by rw [fresh]; decide) (by rw [fresh]; decide)
  exact ⟨g, Heap.adapt_of_float ((grown.body?_new mem).trans (congrArg some body)) lends, grown⟩

theorem reads_complexScalar {o p : Object} {descr : Ref} {type : ScalarType} {raw : List UInt8}
    (mem : (value, o) ∈ news) (body : o.body = .scalar ⟨true, some descr, some raw⟩)
    (mem' : (descr, p) ∈ news) (described : p.body = .descriptor (.scalar type) false)
    (fresh : p.count = .fresh) : Reads h news value (type.cast raw) := by
  intro g grown
  have lends : g.Lends descr :=
    grown.lends mem' (by rw [fresh]; decide) (by rw [fresh]; decide)
  have layout : g.layout? descr = some (.scalar type) := by
    simp [Heap.layout?, Heap.descriptor?, grown.body?_new mem', described]
  exact ⟨g, Heap.adapt_of_complexScalar ((grown.body?_new mem).trans (congrArg some body)) layout
    lends, grown⟩

/-! ### Several numbers -/

/-- The adaptor converts what reads as it should. -/
theorem convertAll_of_helper (host : Host) {pairs : List (Ref × Complex)}
    (reads : ∀ pair ∈ pairs, Reads h news pair.1 pair.2 ∧ pair.2.eq pair.2 = true)
    (grown : h.Grown news host.heap) :
    ∃ g, convertAll (.helper .complexAdaptor) host pairs = (host.withHeap g, .ok ()) ∧
      h.Grown news g := by
  induction pairs generalizing host with
  | nil => exact ⟨host.heap, rfl, grown⟩
  | cons pair rest ih =>
    obtain ⟨value, want⟩ := pair
    obtain ⟨read, self⟩ := reads (value, want) List.mem_cons_self
    obtain ⟨g, adapts, kept⟩ := read host.heap grown
    have one : convertOne (.helper .complexAdaptor) host value want =
        (host.withHeap g, .ok ()) := by
      have same : ofComplex.same want want = true := self
      simp [convertOne, Code.callAdaptor, Host.complexAdaptor, adapts, expect_of_same same]
    obtain ⟨g', others, left⟩ := ih (host.withHeap g)
      (fun pair mem => reads pair (List.mem_cons_of_mem _ mem)) kept
    refine ⟨g', ?_, left⟩
    rw [convertAll, one]
    exact others

/-- Other code fails at the first number. -/
theorem convertAll_of_other (host : Host) (other : code ≠ .helper .complexAdaptor)
    {pairs : List (Ref × Complex)} (nonempty : pairs ≠ []) :
    convertAll code host pairs = fail host "complex_adaptor" (.conversion .notNumeric) := by
  obtain ⟨⟨value, want⟩, rest, rfl⟩ := List.exists_cons_of_ne_nil nonempty
  rw [convertAll, convertOne, callAdaptor_of_other other]
  dsimp only
  rw [if_pos (by decide)]
  rfl

/-- The adaptor refuses what is no number, and the error is taken. -/
theorem refuseJunk_of_helper (host : Host) :
    ∃ g, refuseJunk (.helper .complexAdaptor) host =
        ((host.withHeap g).takeError.1, .ok ()) ∧ host.heap.Grown [] g := by
  have made := (Heap.Grown.refl host.heap).alloc (.bytes [97, 98, 99])
  have refused := Heap.adapt_of_bytes (Heap.body?_alloc_self host.heap (.bytes [97, 98, 99]))
  have status : ofInt.same (0 : Int) 0 = true := rfl
  have kept : ofComplex.same ⟨.ofInt 7, .ofInt 7⟩ ⟨.ofInt 7, .ofInt 7⟩ = true := by decide +kernel
  refine ⟨_, ?_, made.release_leaf rfl rfl⟩
  simp only [refuseJunk, Heap.alloc_snd, Code.callAdaptor, Host.complexAdaptor, Host.withHeap,
    refused, expect_of_same status, expect_of_same kept, andThen]
  rw [expectError_of_pending (Host.pending_setError ..), Host.takeError_setError]
  rfl

/-! ### The whole check -/

/-- What the check finds, by the code it looks up. -/
def complexVerdict (find : String → Option Code) : CheckResult :=
  match find "complex_adaptor" with
  | none => .error (.missing "complex_adaptor")
  | some code =>
    if code = .helper .complexAdaptor then .ok ()
    else .error (.failed "complex_adaptor" (.conversion .notNumeric))

/-- The numbers go, the descriptor of the array scalar with it. -/
theorem releaseAll_numbers {scalar descr float int complex : Ref} {a b c d : Body}
    {e : Element Ref} (named : e.descr = some descr) (leaves : a.refs = [] ∧ b.refs = [] ∧
      c.refs = [] ∧ d.refs = [])
    (grown : h.Grown [(scalar, ⟨.fresh, 0, .scalar e⟩), (descr, ⟨.fresh, 0, a⟩),
      (float, ⟨.fresh, 0, b⟩), (int, ⟨.fresh, 0, c⟩), (complex, ⟨.fresh, 0, d⟩)] g) :
    h.Grown [] (g.releaseAll [scalar, float, int, complex]) := by
  obtain ⟨noA, noB, noC, noD⟩ := leaves
  obtain ⟨g₁, fell₁, left₁⟩ := grown.releaseAll_last [] rfl [float, int, complex]
  obtain ⟨g₂, fell₂, left₂⟩ := left₁.releaseAll_last [] rfl [float, int, complex]
  obtain ⟨g₃, fell₃, left₃⟩ := left₂.releaseAll_last [] rfl [int, complex]
  obtain ⟨g₄, fell₄, left₄⟩ := left₃.releaseAll_last [] rfl [complex]
  have held : (Body.scalar e).refs = [descr] := by rw [Body.refs, named]; rfl
  rw [fell₁, held, List.singleton_append, fell₂, noA, List.nil_append, fell₃, noB, List.nil_append,
    fell₄, noC, List.nil_append]
  exact left₄.release_leaf rfl noD

/-- The objects of the check: four numbers, and the descriptor of the array scalar. -/
def numbers (n : Ref) : List (Ref × Object) :=
  let half : Single := .nearest false 3 (-1)
  let tenth : Single := .nearestQuotient true 1 10 0
  let raw := toLittleEndian 4 half.toBits ++ toLittleEndian 4 tenth.toBits
  [(n + 4, ⟨.fresh, 0, .scalar ⟨true, some (n + 3), some (Heap.storage raw)⟩⟩),
    (n + 3, ⟨.fresh, 0, .descriptor (.scalar .complex64) false⟩),
    (n + 2, ⟨.fresh, 0, .float (.nearest true 1 (-2))⟩), (n + 1, ⟨.fresh, 0, .int 5⟩),
    (n, ⟨.fresh, 0, .complex ⟨.ofInt 3, .ofInt (-4)⟩⟩)]

/-- What the numbers should be converted to. -/
def wanted : List Complex :=
  let half : Single := .nearest false 3 (-1)
  let tenth : Single := .nearestQuotient true 1 10 0
  [⟨.ofInt 3, .ofInt (-4)⟩, .ofReal (.ofInt 5), .ofReal (.nearest true 1 (-2)),
    ⟨half.convert, tenth.convert⟩]

/-- The numbers, each with what it should be converted to. -/
def conversions (n : Ref) : List (Ref × Complex) := [n, n + 1, n + 2, n + 4].zip wanted

theorem reads_conversions (n : Ref) :
    ∀ pair ∈ conversions n, Reads h (numbers n) pair.1 pair.2 ∧ pair.2.eq pair.2 = true := by
  intro pair mem
  have self : ∀ want ∈ wanted, want.eq want = true := by decide +kernel
  refine ⟨?_, self _ (List.of_mem_zip mem).2⟩
  simp only [conversions, wanted, List.zip_cons_cons, List.zip_nil_right, List.mem_cons,
    List.not_mem_nil, or_false] at mem
  obtain rfl | rfl | rfl | rfl := mem
  · exact reads_complex (o := ⟨.fresh, 0, .complex _⟩) (by simp [numbers]) rfl
  · exact reads_int (o := ⟨.fresh, 0, .int 5⟩) (by simp [numbers]) rfl
  · exact reads_float (o := ⟨.fresh, 0, .float _⟩) (by simp [numbers]) rfl rfl
  · have scalar : Reads h (numbers n) (n + 4) _ := reads_complexScalar List.mem_cons_self rfl
      (List.mem_cons_of_mem _ List.mem_cons_self) rfl rfl
    have parts : ScalarType.complex64.cast (Heap.storage
        (toLittleEndian 4 (Binary.toBits (.nearest false 3 (-1) : Single)) ++
          toLittleEndian 4 (Binary.toBits (.nearestQuotient true 1 10 0 : Single)))) =
        ⟨(.nearest false 3 (-1) : Single).convert,
          (.nearestQuotient true 1 10 0 : Single).convert⟩ := by decide +kernel
    exact parts ▸ scalar

/-- The check makes its objects, converts, and gives the objects back. -/
theorem complexAdaptor_of_found (found : table.get? "complex_adaptor" = some code) (host : Host) :
    let n := host.heap.slots.length
    ∃ g, host.heap.Grown (numbers n) g ∧
      complexAdaptor host table = releasing [n + 4, n + 2, n + 1, n]
        (andThen (convertAll code (host.withHeap g) (conversions n)) (refuseJunk code)) := by
  intro n
  have made := (((((Heap.Grown.refl host.heap).alloc (.complex ⟨.ofInt 3, .ofInt (-4)⟩)).alloc
    (.int 5)).alloc (.float (.nearest true 1 (-2)))).alloc
    (.descriptor (.scalar .complex64) false)).alloc
    (.scalar ⟨true, some (n + 3), some (Heap.storage (toLittleEndian 4
      (Binary.toBits (.nearest false 3 (-1) : Single)) ++ toLittleEndian 4
      (Binary.toBits (.nearestQuotient true 1 10 0 : Single))))⟩)
  simp only [Heap.length_alloc] at made
  refine ⟨_, made, ?_⟩
  simp only [complexAdaptor, lookup_of_some found, Heap.newComplex64, Heap.newScalar,
    Heap.newDescriptor, Heap.alloc_snd, Heap.length_alloc]
  rfl

theorem ends_complexAdaptor (host : Host) (table : ExportTable) :
    Ends host [] (complexVerdict table.get?) (complexAdaptor host table) := by
  rw [complexVerdict]
  cases found : table.get? "complex_adaptor" with
  | none =>
    rw [complexAdaptor, lookup_of_none found]
    exact .kept (.refl host.heap)
  | some code =>
    obtain ⟨g, made, whole⟩ := complexAdaptor_of_found found host
    rw [whole]
    by_cases own : code = .helper .complexAdaptor
    · subst own
      obtain ⟨g₁, converted, kept⟩ := convertAll_of_helper (host.withHeap g)
        (reads_conversions host.heap.slots.length) made
      obtain ⟨g₂, refused, left⟩ := refuseJunk_of_helper ((host.withHeap g).withHeap g₁)
      have all := kept.trans left
      rw [converted, andThen, refused]
      exact .emptied (releaseAll_numbers rfl ⟨rfl, rfl, rfl, rfl⟩ all)
    · have nonempty : conversions host.heap.slots.length ≠ [] := List.cons_ne_nil _ _
      rw [convertAll_of_other (host.withHeap g) own nonempty]
      exact .failed (releaseAll_numbers rfl ⟨rfl, rfl, rfl, rfl⟩ made) (if_neg own)

end Check

end NativeBridge
