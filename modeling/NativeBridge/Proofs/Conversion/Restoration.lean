import NativeBridge.Proofs.Conversion.Outcome
import NativeBridge.Proofs.Custody.Invariants
import NativeBridge.Proofs.Custody.Objects
import NativeBridge.Proofs.Heap.Lending
import NativeBridge.Proofs.Record.Outcome

/-! A conversion leaves no trace.

    It asks the type of a value for one thing at most, and is handed nothing, one more reference to
    some object, or a new float (`Heap.Hands`). What it was handed it gives back once, whatever it
    makes of it, and then the heap is as it was (`Heap.Hands.grown`). So any number of conversions
    leave the heap alone, and none bears on what another comes to
    (`Heap.conversions_leave_no_trace`). -/

namespace NativeBridge

namespace Heap

variable {h : Heap} {r : Ref} {out : Heap × Option Ref}

/-! ### What is handed out -/

/-- What a slot hands out: nothing, one more reference to an object, or a new float. -/
inductive Hands (h : Heap) : Heap × Option Ref → Prop where
  | nothing : Hands h (h, none)
  | shared (r : Ref) : Hands h (h.retain r, some r)
  | made (value : Double) : Hands h ((h.alloc (.float value)).1, some h.slots.length)

theorem hands_handOut (h : Heap) (target : Option Ref) : h.Hands (h.handOut target) := by
  cases target with
  | none => exact .nothing
  | some r => exact .shared r

theorem hands_coerce (coerced : h.coerce r = some out) : h.Hands out := by
  unfold coerce at coerced
  split at coerced
  · cases coerced
    exact .shared r
  · rename_i value _
    cases coerced
    exact .made (.ofInt value)
  · split at coerced
    · cases coerced
      exact .made _
    · cases coerced
      exact .nothing
  · obtain ⟨target, _, rfl⟩ := Option.map_eq_some_iff.mp coerced
    exact hands_handOut h target
  · cases coerced

/-- What was handed out is given back, and the heap is as it was: an object that was there has the
    count it had, and a new float is gone. -/
theorem Hands.grown (hands : h.Hands out) (owned : h.Owned) (room : h.Room 2) :
    h.Grown [] (out.1.release? out.2) := by
  cases hands with
  | nothing =>
    rw [release?, Option.toList_none, releaseAll_nil]
    exact .refl h
  | shared r =>
    have back : (h.retain r).release? (some r) = h := release_retain owned room r
    rw [back]
    exact .refl h
  | made value =>
    have new := (Grown.refl h).alloc (.float value)
    exact new.release_leaf rfl rfl

/-! ### One conversion -/

/-- What a conversion asks the type of a value for: the element descriptor of an array scalar of
    the complex family, else a float where the type has a float slot. -/
def asked (h : Heap) (r : Ref) : Heap × Option Ref :=
  match (h.body? r).map NumericKind.of with
  | some .arrayScalar => h.elementDescriptor r
  | some .coercibleReal => (h.coerce r).getD (h, none)
  | _ => (h, none)

theorem hands_asked (h : Heap) (r : Ref) : h.Hands (h.asked r) := by
  unfold asked
  split
  · exact hands_handOut h _
  · rcases coerced : h.coerce r with _ | out
    · exact .nothing
    · exact hands_coerce coerced
  · exact .nothing

theorem adaptElement_fst (h : Heap) (r : Ref) :
    (h.adaptElement r).1 = (h.elementDescriptor r).1.release? (h.elementDescriptor r).2 := by
  unfold adaptElement
  rcases h.elementDescriptor r with ⟨h', _ | descr⟩
  · simp [release?]
  · rfl

theorem adaptReal_fst (h : Heap) (r : Ref) :
    (h.adaptReal r).1 =
      ((h.coerce r).getD (h, none)).1.release? ((h.coerce r).getD (h, none)).2 := by
  unfold adaptReal
  rcases h.coerce r with _ | ⟨h', _ | float⟩
  · simp [release?]
  · simp [release?]
  · rfl

/-- What was asked for is given back once, on whichever way the conversion ends. -/
theorem adapt_fst (h : Heap) (r : Ref) :
    (h.adapt (some r)).1 = (h.asked r).1.release? (h.asked r).2 := by
  rcases found : h.body? r with _ | body
  · simp [adapt, asked, found, release?]
  · cases way : NumericKind.of body with
    | nativeComplex =>
      cases value : body.complex? <;> simp [adapt, asked, found, way, value, release?]
    | arrayScalar => simp [adapt, asked, found, way, adaptElement_fst]
    | coercibleReal => simp [adapt, asked, found, way, adaptReal_fst]
    | notNumeric => simp [adapt, asked, found, way, release?]

theorem counts_adapt (h : Heap) (value : Option Ref) : h.Counts (h.adapt value).1 := by
  have moved : Custody.Moves ⟨h, value.toList, 0, 0⟩ _ :=
    Custody.moves_adapt fun r hr => by simpa using hr
  exact Custody.counts_moves moved

theorem same_adapt (owned : h.Owned) (room : h.Room 2) (value : Option Ref) :
    h.Same (h.adapt value).1 := by
  cases value with
  | none => exact .refl h
  | some r =>
    have grown := (hands_asked h r).grown owned room
    rw [← adapt_fst] at grown
    exact grown.same (counts_adapt h (some r))

/-! ### Any number of conversions -/

/-- Converts one value after the other. -/
def adaptAll (h : Heap) : List (Option Ref) → Heap × List (Except ConversionError Complex)
  | [] => (h, [])
  | value :: rest =>
    let (h, result) := h.adapt value
    let (h, results) := h.adaptAll rest
    (h, result :: results)

theorem same_adaptAll (owned : h.Owned) (room : h.Room 2) (values : List (Option Ref)) :
    h.Same (h.adaptAll values).1 ∧
      (h.adaptAll values).2 = values.map fun value => (h.adapt value).2 := by
  induction values generalizing h with
  | nil => exact ⟨.refl h, rfl⟩
  | cons value rest ih =>
    have first := same_adapt owned room value
    obtain ⟨others, results⟩ := ih (first.owned owned) (first.room room)
    refine ⟨first.trans others, ?_⟩
    have alike : ∀ v, ((h.adapt value).1.adapt v).2 = (h.adapt v).2 :=
      adapt_snd_congr first.body?_eq
    simp only [adaptAll, results, alike, List.map_cons]

/-- A conversion is handed one reference at most and gives it back, a new float falls with it, and
    the heap is as it was, whether there is a number or which failure there is. So it is after any
    number of conversions, and each comes to what it would have come to at first. -/
theorem conversions_leave_no_trace (owned : h.Owned) (room : h.Room 16) :
    (∀ r, h.Hands (h.asked r) ∧
      (h.adapt (some r)).1 = (h.asked r).1.release? (h.asked r).2 ∧
      ∀ t ∈ (h.asked r).2, h.slots.length ≤ t → (h.adapt (some r)).1.get? t = none) ∧
      (∀ value, h.Same (h.adapt value).1) ∧
      ∀ values, h.Same (h.adaptAll values).1 ∧
        (h.adaptAll values).2 = values.map fun value => (h.adapt value).2 := by
  have roomy : h.Room 2 := room.mono (by decide)
  refine ⟨fun r => ⟨hands_asked h r, adapt_fst h r, fun t _ new => ?_⟩,
    same_adapt owned roomy, same_adaptAll owned roomy⟩
  rw [(same_adapt owned roomy (some r)).objects, get?_of_length_le new]

/-- Successes and all three failures, one after the other; the float made for the integer is gone
    after its conversion. -/
theorem conversions_leave_no_trace_of_assorted :
    let values := [some 4, some 2, some 6, some 7, some 8, some 9, none]
    let failed : ConversionError → Except ConversionError Complex := .error
    assorted.Owned ∧ assorted.Room 16 ∧
      (assorted.adaptAll values).2 =
        [.ok ⟨.ofInt (-5), .zero⟩, .ok ⟨.ofInt 5, .zero⟩, failed .castFailed,
          failed .descriptorUnavailable, failed .notNumeric, failed .notNumeric,
          failed .notNumeric] ∧
      assorted.Same (assorted.adaptAll values).1 ∧
      (assorted.asked 2).2 = some 10 ∧ (assorted.adapt (some 2)).1.get? 10 = none := by
  intro values failed
  have owned : assorted.Owned := by decide +kernel
  have room : assorted.Room 16 := by decide +kernel
  obtain ⟨each, _, all⟩ := conversions_leave_no_trace owned room
  obtain ⟨_, _, falls⟩ := each 2
  have given : (assorted.asked 2).2 = some 10 := by decide +kernel
  exact ⟨owned, room, by decide +kernel, (all values).1, given,
    falls 10 given (by decide +kernel)⟩

end Heap

end NativeBridge
