import Mathlib.Control.Monad.Basic
import NativeBridge.Conversion
import NativeBridge.Heap.Create
import NativeBridge.Proofs.Heap.Lookup

/-! What a conversion comes to.

    `Heap.Converts` has one rule for each outcome. Its premises say what the value is and what the
    slots of its type hold out, and nothing about the order in which they are asked. Every value
    has exactly one outcome, and a conversion finds it (`Heap.adapt_eq_iff_converts`): the way a
    value is read is settled before the reading, so neither a failure nor what a slot hands out
    opens another way. The kind goes before the slots. -/

namespace NativeBridge

namespace Heap

variable {h h' : Heap} {r : Ref} {e : Element Ref} {body : Body}
  {result : Except ConversionError Complex}

/-! ### What is held out to a conversion -/

/-- What the float slot of a type holds out, by its contents: a float is its own, an integer has
    the nearest one, a real array scalar has the real part of its element, and a custom object
    names any object or none. There is no answer where the type has no such slot. -/
def floatOf (h : Heap) : Body → Option (Option Body)
  | .float value => some (some (.float value))
  | .int value => some (some (.float (.ofInt value)))
  | .scalar ⟨false, descr, storage⟩ =>
    match descr.bind h.layout?, storage with
    | some (.scalar type), some raw => some (some (.float (type.cast raw).real))
    | _, _ => some none
  | .custom c => c.float.map (·.bind h.body?)
  | _ => none

/-- What the float slot of an object's type holds out. -/
def float? (h : Heap) (r : Ref) : Option (Option Body) := (h.body? r).bind h.floatOf

/-- An array scalar of the complex family that is not of kind complex. -/
structure InFamily (h : Heap) (r : Ref) (e : Element Ref) : Prop where
  other : h.kind? r ≠ some .complex
  element : h.element? r = some e
  complex : e.isComplex = true

/-- Neither of kind complex nor an array scalar of the complex family. -/
structure Plain (h : Heap) (r : Ref) : Prop where
  other : h.kind? r ≠ some .complex
  real : ∀ e, h.element? r = some e → e.isComplex = false

/-- What a value comes to as a complex number. -/
inductive Converts (h : Heap) : Option Ref → Except ConversionError Complex → Prop where
  | null : Converts h none (.error .notNumeric)
  | complex {r : Ref} {value : Complex} :
    (h.body? r).bind (·.complex?) = some value → Converts h (some r) (.ok value)
  | undescribed {r : Ref} {e : Element Ref} :
    h.InFamily r e → (∀ descr ∈ e.descr, h.kind? descr ≠ some .descriptor) →
    Converts h (some r) (.error .descriptorUnavailable)
  | structured {r descr : Ref} {e : Element Ref} {fields : List Field} {size : Nat} :
    h.InFamily r e → e.descr = some descr → h.layout? descr = some (.record fields size) →
    Converts h (some r) (.error .castFailed)
  | unstored {r descr : Ref} {e : Element Ref} {type : ScalarType} :
    h.InFamily r e → e.descr = some descr → h.layout? descr = some (.scalar type) →
    e.storage = none → Converts h (some r) (.error .castFailed)
  | element {r descr : Ref} {e : Element Ref} {type : ScalarType} {raw : List UInt8} :
    h.InFamily r e → e.descr = some descr → h.layout? descr = some (.scalar type) →
    e.storage = some raw → Converts h (some r) (.ok (type.cast raw))
  | real {r : Ref} {given : Body} {value : Double} :
    h.Plain r → h.float? r = some (some given) → given.float? = some value →
    Converts h (some r) (.ok ⟨value, .zero⟩)
  | unreal {r : Ref} {given : Option Body} :
    h.Plain r → h.float? r = some given → (∀ body ∈ given, body.kind ≠ .float) →
    Converts h (some r) (.error .notNumeric)
  | neither {r : Ref} :
    h.Plain r → h.float? r = none → Converts h (some r) (.error .notNumeric)

/-! ### Kinds and contents -/

/-- Exactly the objects of kind complex have the contents of a complex number, exactly those of kind
    float the contents of a float, and exactly the descriptors those of a descriptor. -/
theorem isSome_contents (body : Body) :
    body.complex?.isSome = decide (body.kind = .complex) ∧
      body.float?.isSome = decide (body.kind = .float) ∧
      body.descriptor?.isSome = decide (body.kind = .descriptor) := by
  cases body with
  | custom c =>
    obtain ⟨shape⟩ := c
    cases shape with
    | plain kind => cases kind <;> exact ⟨rfl, rfl, rfl⟩
    | _ => exact ⟨rfl, rfl, rfl⟩
  | _ => exact ⟨rfl, rfl, rfl⟩

theorem kind_eq_complex_iff : body.kind = .complex ↔ ∃ value, body.complex? = some value := by
  rw [← Option.isSome_iff_exists, (isSome_contents body).1, decide_eq_true_iff]

/-- No value is read from what is not of kind float, nor from nothing. -/
theorem bind_float?_eq_none_iff {given : Option Body} :
    given.bind (·.float?) = none ↔ ∀ body ∈ given, body.kind ≠ .float := by
  rw [Option.bind_eq_none_iff]
  refine forall₂_congr fun body _ => ?_
  rw [← Option.not_isSome_iff_eq_none, (isSome_contents body).2.1, decide_eq_true_iff]

/-- What has a layout is a descriptor, and descriptors have one. -/
theorem layout?_eq_none_iff : h.layout? r = none ↔ h.kind? r ≠ some .descriptor := by
  rw [layout?, descriptor?, kind?, Option.map_eq_none_iff]
  rcases h.body? r with _ | body
  · simp
  · rw [Option.bind_some, Option.map_some, ne_eq, Option.some.injEq,
      ← Option.not_isSome_iff_eq_none, (isSome_contents body).2.2, decide_eq_true_iff]

/-! ### Slots -/

/-- A type has a float slot exactly if it coerces its objects to floats. -/
theorem isSome_floatOf (h : Heap) (body : Body) : (h.floatOf body).isSome = body.hasFloat := by
  cases body with
  | scalar e =>
    obtain ⟨isComplex, descr, storage⟩ := e
    cases isComplex with
    | true => rfl
    | false =>
      simp only [floatOf, Body.hasFloat]
      split <;> rfl
  | custom c => simp [floatOf, Body.hasFloat]
  | _ => rfl

/-- The float slot hands out what it holds out. -/
theorem coerce_eq_float? (h : Heap) (r : Ref) :
    (h.coerce r).map (fun out => out.2.bind out.1.body?) = h.float? r := by
  rw [coerce, float?]
  rcases found : h.body? r with _ | body
  · rfl
  · cases body with
    | float value => simp [floatOf, handOut, body?_retain, found]
    | int value => simp [floatOf, body?_alloc_self]
    | scalar e =>
      obtain ⟨isComplex, descr, storage⟩ := e
      cases isComplex with
      | true => rfl
      | false =>
        simp only [floatOf, Option.bind_some]
        split <;> simp [body?_alloc_self, *]
    | custom c =>
      rcases slot : c.float with _ | target
      · simp [floatOf, slot]
      · cases target <;> simp [floatOf, slot, handOut, body?_retain]
    | _ => rfl

/-! ### The way to read -/

/-- A value of kind complex is read as it is, whatever slots its type has. -/
theorem adapt_of_complex {value : Complex} (found : (h.body? r).bind (·.complex?) = some value) :
    h.adapt (some r) = (h, .ok value) := by
  obtain ⟨body, found, number⟩ := Option.bind_eq_some_iff.mp found
  have way : NumericKind.of body = .nativeComplex := by
    simp [NumericKind.of, kind_eq_complex_iff.mpr ⟨value, number⟩]
  simp [adapt, found, number, way]

theorem adapt_of_family (family : h.InFamily r e) : h.adapt (some r) = h.adaptElement r := by
  obtain ⟨body, found, element⟩ := Option.bind_eq_some_iff.mp family.element
  have other : body.kind ≠ .complex := fun same => family.other (by simp [kind?, found, same])
  have way : NumericKind.of body = .arrayScalar := by
    simp [NumericKind.of, other, element, family.complex]
  simp [adapt, found, way]

/-- A type without a float slot is asked for nothing. -/
theorem adapt_of_plain (plain : h.Plain r) : h.adapt (some r) = h.adaptReal r := by
  have slot := congrArg Option.isSome (coerce_eq_float? h r)
  rcases found : h.body? r with _ | body
  · have unslotted : h.coerce r = none := by simpa [float?, found] using slot
    simp [adapt, adaptReal, found, unslotted]
  · have other : body.kind ≠ .complex := fun same => plain.other (by simp [kind?, found, same])
    have real : body.element?.any (·.isComplex) = false := by
      rcases element : body.element? with _ | e
      · rfl
      · exact plain.real e (by simp [element?, found, element])
    cases coerces : body.hasFloat with
    | true =>
      have way : NumericKind.of body = .coercibleReal := by
        simp [NumericKind.of, other, real, coerces]
      simp [adapt, found, way]
    | false =>
      have way : NumericKind.of body = .notNumeric := by
        simp [NumericKind.of, other, real, coerces]
      have unslotted : h.coerce r = none := by
        simpa [float?, found, isSome_floatOf, coerces] using slot
      simp [adapt, adaptReal, found, way, unslotted]

/-- There is one way to read a value. -/
theorem complex_or_family_or_plain (h : Heap) (r : Ref) :
    (∃ value, (h.body? r).bind (·.complex?) = some value) ∨ (∃ e, h.InFamily r e) ∨
      h.Plain r := by
  by_cases kind : h.kind? r = some .complex
  · obtain ⟨body, found, same⟩ := Option.map_eq_some_iff.mp kind
    obtain ⟨value, number⟩ := kind_eq_complex_iff.mp same
    exact .inl ⟨value, by rw [found, Option.bind_some, number]⟩
  · by_cases family : ∃ e, h.element? r = some e ∧ e.isComplex = true
    · obtain ⟨e, element, complex⟩ := family
      exact .inr (.inl ⟨e, kind, element, complex⟩)
    · exact .inr (.inr ⟨kind, fun e element =>
        Bool.eq_false_iff.mpr fun complex => family ⟨e, element, complex⟩⟩)

/-! ### The reading -/

theorem adaptElement_snd (element : h.element? r = some e) :
    (h.adaptElement r).2 = castElement (e.descr.bind h.layout?) e.storage := by
  rw [adaptElement, elementDescriptor, element, Option.bind_some]
  rcases e.descr with _ | descr
  · rfl
  · have layout := layout?_congr (body?_retain h descr descr)
    have storage : (h.retain descr).element? r = some e := by
      rw [element?, body?_retain]
      exact element
    simp [handOut, layout, storage]

/-- Only the value of what the float slot holds out counts, if that is of kind float. -/
theorem adaptReal_snd (h : Heap) (r : Ref) :
    (h.adaptReal r).2 = match (h.float? r).bind (·.bind (·.float?)) with
      | some value => .ok ⟨value, .zero⟩
      | none => .error .notNumeric := by
  rw [← coerce_eq_float?, adaptReal]
  rcases h.coerce r with _ | ⟨h', _ | float⟩ <;> rfl

theorem converts_adaptElement (family : h.InFamily r e) :
    h.Converts (some r) (h.adaptElement r).2 := by
  rw [adaptElement_snd family.element]
  rcases layout : e.descr.bind h.layout? with _ | ⟨type⟩ | ⟨fields, size⟩
  · refine .undescribed family fun descr named => layout?_eq_none_iff.mp ?_
    rwa [named, Option.bind_some] at layout
  · obtain ⟨descr, named, described⟩ := Option.bind_eq_some_iff.mp layout
    rcases stored : e.storage with _ | raw
    · exact .unstored family named described stored
    · exact .element family named described stored
  · obtain ⟨descr, named, described⟩ := Option.bind_eq_some_iff.mp layout
    exact .structured family named described

theorem converts_adaptReal (plain : h.Plain r) : h.Converts (some r) (h.adaptReal r).2 := by
  rw [adaptReal_snd]
  rcases slot : h.float? r with _ | given
  · exact .neither plain slot
  · rcases value : given.bind (·.float?) with _ | value
    · rw [Option.bind_some, value]
      exact .unreal plain slot (bind_float?_eq_none_iff.mp value)
    · obtain ⟨body, rfl, float⟩ := Option.bind_eq_some_iff.mp value
      rw [Option.bind_some, value]
      exact .real plain slot float

theorem converts_adapt (h : Heap) (value : Option Ref) : h.Converts value (h.adapt value).2 := by
  cases value with
  | none => exact .null
  | some r =>
    rcases complex_or_family_or_plain h r with ⟨value, found⟩ | ⟨e, family⟩ | plain
    · rw [adapt_of_complex found]
      exact .complex found
    · rw [adapt_of_family family]
      exact converts_adaptElement family
    · rw [adapt_of_plain plain]
      exact converts_adaptReal plain

theorem Converts.adapt_eq {value : Option Ref} (converts : h.Converts value result) :
    (h.adapt value).2 = result := by
  cases converts with
  | null => rfl
  | complex found => rw [adapt_of_complex found]
  | @undescribed r e family undescribed =>
    have layout : e.descr.bind h.layout? = none := by
      rcases named : e.descr with _ | descr
      · rfl
      · exact layout?_eq_none_iff.mpr (undescribed descr named)
    rw [adapt_of_family family, adaptElement_snd family.element, layout]
    rfl
  | structured family named described =>
    rw [adapt_of_family family, adaptElement_snd family.element, named, Option.bind_some,
      described]
    rfl
  | unstored family named described stored =>
    rw [adapt_of_family family, adaptElement_snd family.element, named, Option.bind_some,
      described, stored]
    rfl
  | element family named described stored =>
    rw [adapt_of_family family, adaptElement_snd family.element, named, Option.bind_some,
      described, stored]
    rfl
  | real plain slot value =>
    rw [adapt_of_plain plain, adaptReal_snd, slot, Option.bind_some, Option.bind_some, value]
  | unreal plain slot unreal =>
    rw [adapt_of_plain plain, adaptReal_snd, slot, Option.bind_some,
      bind_float?_eq_none_iff.mpr unreal]
  | neither plain slot => rw [adapt_of_plain plain, adaptReal_snd, slot, Option.bind_none]

/-! ### The same contents -/

section Congr

variable {value : Option Ref}

theorem float?_congr (same : ∀ t, h'.body? t = h.body? t) : h'.float? r = h.float? r := by
  have layout : h'.layout? = h.layout? := funext fun t => layout?_congr (same t)
  have slot : h'.floatOf = h.floatOf := by
    funext body
    cases body <;> simp only [floatOf, layout, funext same]
  rw [float?, float?, same, slot]

/-- What a value comes to rests on contents alone. -/
theorem Converts.congr (converts : h.Converts value result)
    (same : ∀ t, h'.body? t = h.body? t) : h'.Converts value result := by
  have kind : ∀ t, h'.kind? t = h.kind? t := fun t => by rw [kind?, kind?, same]
  have element : ∀ t, h'.element? t = h.element? t := fun t => by rw [element?, element?, same]
  have layout : ∀ t, h'.layout? t = h.layout? t := fun t => layout?_congr (same t)
  have inFamily : ∀ {t e}, h.InFamily t e → h'.InFamily t e := fun {t} _ family =>
    ⟨kind t ▸ family.other, element t ▸ family.element, family.complex⟩
  have isPlain : ∀ {t}, h.Plain t → h'.Plain t := fun {t} plain =>
    ⟨kind t ▸ plain.other, element t ▸ plain.real⟩
  cases converts with
  | null => exact .null
  | complex found => exact .complex ((congrArg (·.bind (·.complex?)) (same _)).trans found)
  | undescribed family undescribed =>
    exact .undescribed (inFamily family) fun descr named =>
      kind descr ▸ undescribed descr named
  | structured family named described =>
    exact .structured (inFamily family) named ((layout _).trans described)
  | unstored family named described stored =>
    exact .unstored (inFamily family) named ((layout _).trans described) stored
  | element family named described stored =>
    exact .element (inFamily family) named ((layout _).trans described) stored
  | real plain slot value => exact .real (isPlain plain) ((float?_congr same).trans slot) value
  | unreal plain slot unreal =>
    exact .unreal (isPlain plain) ((float?_congr same).trans slot) unreal
  | neither plain slot => exact .neither (isPlain plain) ((float?_congr same).trans slot)

theorem adapt_snd_congr (same : ∀ t, h'.body? t = h.body? t) (value : Option Ref) :
    (h'.adapt value).2 = (h.adapt value).2 :=
  ((converts_adapt h value).congr same).adapt_eq

end Congr

/-! ### The outcome -/

/-- A conversion comes to what the value and the slots of its type say, and to nothing else. -/
theorem adapt_eq_iff_converts (h : Heap) (value : Option Ref)
    (result : Except ConversionError Complex) :
    (h.adapt value).2 = result ↔ h.Converts value result := by
  constructor
  · rintro rfl
    exact converts_adapt h value
  · exact Converts.adapt_eq

/-- A number of kind complex is read as it is, whatever slots its type has besides. -/
example :
    let (h, float) := initial.alloc (.float .one)
    let (h, r) := h.newCustom
      ⟨.complex ⟨.zero, .one⟩, some (some float), some ⟨true, none, none⟩, none, none, none⟩
    (h.adapt (some r)).2 = .ok ⟨.zero, .one⟩ := by
  decide +kernel

/-- A float, an integer, an array scalar of the complex family with an element descriptor, one with
    a structured descriptor, and three custom objects: an array scalar without a descriptor whose
    float slot hands out the float, one whose float slot hands out the integer, and one whose float
    slot hands out nothing. -/
def assorted : Heap :=
  let (h, float) := initial.alloc (.float .one)
  let (h, int) := h.alloc (.int 5)
  let (h, _) := h.newScalar true (.scalar (.int .one)) [251]
  let (h, _) := h.newScalarWithRecordDescriptor
  let (h, _) := h.newCustom
    ⟨.plain .arrayScalar, some (some float), some ⟨true, none, some []⟩, none, none, none⟩
  let (h, _) := h.newCustom ⟨.plain .other, some (some int), none, none, none, none⟩
  (h.newCustom ⟨.plain .other, some none, none, none, none, none⟩).1

/-- An array scalar without a descriptor is not read through its float slot, and what that slot
    hands out is not coerced once more. -/
example : (assorted.adapt (some 7)).2 = .error .descriptorUnavailable ∧
    (assorted.adapt (some 8)).2 = .error .notNumeric := by
  decide +kernel

end Heap

end NativeBridge
