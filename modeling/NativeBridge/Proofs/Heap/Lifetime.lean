import NativeBridge.Proofs.Heap.Growth

/-! The life of one object under calls that take references to it and give them back.

    The balance of the calls is what a count without bounds would show. As long as it stays below
    the mark of an immortal object the count shows it; when it gets there the object has become
    immortal, and no call changes that (`Heap.Stands`). So the count never wraps, and an object
    falls at most once: with the call that brings the balance to nothing, unless the balance had
    reached the mark before (`Heap.falls_once_unless_immortal`). -/

namespace NativeBridge

/-- A call on one object: takes a reference to it, or gives one back. -/
inductive CountCall where
  | inc | dec
  deriving DecidableEq, Repr

namespace CountCall

variable {calls before : List CountCall} {call : CountCall}

/-- The references there are after the calls to an object that was new. -/
def balance (calls : List CountCall) : Int := 1 + calls.count .inc - calls.count .dec

/-- Before every call there is a reference to the object. -/
def Justified (calls : List CountCall) : Prop :=
  ∀ before call, before ++ [call] <+: calls → 0 < balance before

/-- At some moment there are as many references as the mark of an immortal object says. -/
def Overflows (calls : List CountCall) : Prop :=
  ∃ before, before <+: calls ∧ balance before = pow2 32 - 1

theorem balance_inc (calls : List CountCall) : balance (calls ++ [.inc]) = balance calls + 1 := by
  simp only [balance, List.count_append, List.count_singleton_self, Nat.cast_add, Nat.cast_one]
  have none : [CountCall.inc].count .dec = 0 := rfl
  omega

theorem balance_dec (calls : List CountCall) : balance (calls ++ [.dec]) = balance calls - 1 := by
  simp only [balance, List.count_append, List.count_singleton_self, Nat.cast_add, Nat.cast_one]
  have none : [CountCall.dec].count .inc = 0 := rfl
  omega

theorem Justified.of_prefix (justified : Justified calls) (first : before <+: calls) :
    Justified before := fun _ _ part => justified _ _ (part.trans first)

theorem overflows_concat :
    Overflows (calls ++ [call]) ↔ Overflows calls ∨ balance (calls ++ [call]) = pow2 32 - 1 := by
  simp only [Overflows, List.prefix_concat_iff]
  constructor
  · rintro ⟨before, rfl | first, top⟩
    · exact .inr top
    · exact .inl ⟨before, first, top⟩
  · rintro (⟨before, first, top⟩ | top)
    · exact ⟨before, .inr first, top⟩
    · exact ⟨_, .inl rfl, top⟩

theorem not_overflows_nil : ¬Overflows [] := by
  rintro ⟨before, first, top⟩
  obtain rfl := List.prefix_nil.mp first
  exact absurd top (by decide)

end CountCall

namespace Heap

open CountCall

variable {h : Heap} {r : Ref} {o : Object} {calls : List CountCall}

/-- Carries out one call on an object. -/
def perform (h : Heap) (r : Ref) : CountCall → Heap
  | .inc => h.retain r
  | .dec => h.release r

/-- Carries out one call after the other. -/
def performAll (h : Heap) (r : Ref) (calls : List CountCall) : Heap :=
  calls.foldl (fun h call => h.perform r call) h

/-- Whether the object falls with this call. -/
def Falls (h : Heap) (r : Ref) (call : CountCall) : Prop :=
  (h.get? r).isSome = true ∧ (h.perform r call).get? r = none

instance (h : Heap) (r : Ref) (call : CountCall) : Decidable (h.Falls r call) :=
  inferInstanceAs (Decidable (_ ∧ _))

/-- How often the object falls with one of these calls. -/
def falls (h : Heap) (r : Ref) : List CountCall → Nat
  | [] => 0
  | call :: rest => (if h.Falls r call then 1 else 0) + (h.perform r call).falls r rest

theorem performAll_concat (h : Heap) (r : Ref) (calls : List CountCall) (call : CountCall) :
    h.performAll r (calls ++ [call]) = (h.performAll r calls).perform r call := by
  simp [performAll]

theorem falls_concat (h : Heap) (r : Ref) (calls : List CountCall) (call : CountCall) :
    h.falls r (calls ++ [call]) =
      h.falls r calls + if (h.performAll r calls).Falls r call then 1 else 0 := by
  induction calls generalizing h with
  | nil => exact Nat.add_comm (if h.Falls r call then 1 else 0) 0
  | cons first rest ih =>
    rw [List.cons_append, falls, falls, ih, Nat.add_assoc]
    rfl

/-! ### One call -/

theorem not_falls_of_some {call : CountCall} {o' : Object}
    (stays : (h.perform r call).get? r = some o') : ¬h.Falls r call := by
  rintro ⟨_, gone⟩
  cases stays.symm.trans gone

/-- An immortal object stays immortal. -/
theorem get?_perform_of_pinned (found : h.get? r = some { o with count := .pinned })
    (call : CountCall) : (h.perform r call).get? r = some { o with count := .pinned } := by
  cases call with
  | inc => exact get?_retain_self found
  | dec =>
    have stays : RefCount.pinned.release = some .pinned := rfl
    rw [perform, release, releaseAll_of_more found stays, releaseAll_nil, get?_update, if_pos rfl,
      found]
    rfl

theorem get?_release_of_more {count : RefCount} (found : h.get? r = some o)
    (more : o.count.release = some count) :
    (h.release r).get? r = some { o with count } := by
  rw [release, releaseAll_of_more found more, releaseAll_nil, get?_update, if_pos rfl, found]
  rfl

/-- What falls does not come back with what it held. -/
theorem get?_release_of_last (found : h.get? r = some o) (last : o.count.release = none) :
    (h.release r).get? r = none := by
  rw [release, releaseAll_of_last found last]
  exact get?_releaseAll_of_missing (get?_free_self h r o.body.kind)

/-! ### Any number of calls -/

/-- Where an object stands that was new before the calls: its count is the balance, or it has
    become immortal, or it is gone. -/
inductive Stands (h : Heap) (r : Ref) (o : Object) (calls : List CountCall) : Prop where
  | counted (count : RefCount) : (h.performAll r calls).get? r = some { o with count } →
    count.toNat = balance calls → 0 < balance calls → ¬Overflows calls → h.falls r calls = 0 →
    Stands h r o calls
  | immortal : (h.performAll r calls).get? r = some { o with count := .pinned } →
    Overflows calls → h.falls r calls = 0 → Stands h r o calls
  | gone : (h.performAll r calls).get? r = none → balance calls = 0 → ¬Overflows calls →
    h.falls r calls = 1 → Stands h r o calls

theorem stands_inc {count : RefCount}
    (found : (h.performAll r calls).get? r = some { o with count })
    (counted : count.toNat = balance calls) (positive : 0 < balance calls)
    (below : ¬Overflows calls) (stood : h.falls r calls = 0) :
    h.Stands r o (calls ++ [.inc]) := by
  have mortal : count ≠ .pinned := by
    rintro rfl
    exact below ⟨calls, List.prefix_refl calls, counted.symm⟩
  have more := RefCount.toNat_retain mortal
  have after := balance_inc calls
  have held : (h.performAll r (calls ++ [.inc])).get? r =
      some { o with count := count.retain } := by
    rw [performAll_concat]
    exact get?_retain_self found
  have stays : h.falls r (calls ++ [.inc]) = 0 := by
    rw [performAll_concat] at held
    rw [falls_concat, stood, if_neg (not_falls_of_some held)]
  by_cases top : balance (calls ++ [.inc]) = pow2 32 - 1
  · have mark : count.retain = .pinned := by
      refine UInt32.toNat_inj.mp ?_
      have limit : RefCount.pinned.toNat = pow2 32 - 1 := rfl
      omega
    rw [mark] at held
    exact .immortal held (overflows_concat.mpr (.inr top)) stays
  · refine .counted _ held (by omega) (by omega) ?_ stays
    exact fun reached => (overflows_concat.mp reached).elim below top

theorem stands_dec {count : RefCount}
    (found : (h.performAll r calls).get? r = some { o with count })
    (counted : count.toNat = balance calls) (positive : 0 < balance calls)
    (below : ¬Overflows calls) (stood : h.falls r calls = 0) :
    h.Stands r o (calls ++ [.dec]) := by
  have mortal : count ≠ .pinned := by
    rintro rfl
    exact below ⟨calls, List.prefix_refl calls, counted.symm⟩
  have after := balance_dec calls
  have small : balance calls < pow2 32 := by
    have word := count.toNat_lt
    have limit : pow2 32 = 4294967296 := rfl
    omega
  have later : ¬Overflows (calls ++ [.dec]) := fun reached => by
    rcases overflows_concat.mp reached with reached | top
    · exact below reached
    · omega
  cases released : count.release with
  | none =>
    have one := congrArg UInt32.toNat (RefCount.release_eq_none_iff.mp released)
    have fallen := get?_release_of_last found released
    have lost : (h.performAll r calls).Falls r .dec := ⟨by rw [found]; rfl, fallen⟩
    refine .gone ?_ ?_ later ?_
    · rw [performAll_concat]
      exact fallen
    · have : (1 : UInt32).toNat = 1 := rfl
      omega
    · rw [falls_concat, stood, if_pos lost]
  | some rest =>
    have positive' : count ≠ 0 := by
      rintro rfl
      simp at counted
      omega
    obtain ⟨nonzero, stays, fewer⟩ := RefCount.release_eq_some positive' released
    have less := (fewer fun mark => mortal (stays mark)).2
    have left : rest.toNat ≠ 0 := fun zero => nonzero (UInt32.toNat_inj.mp zero)
    have held := get?_release_of_more found released
    refine .counted rest ?_ (by omega) (by omega) later ?_
    · rw [performAll_concat]
      exact held
    · rw [falls_concat, stood, if_neg (@not_falls_of_some _ _ .dec _ held)]

/-- Whatever call comes next, as long as there is a reference. -/
theorem stands_concat (stands : h.Stands r o calls) (positive : 0 < balance calls)
    (call : CountCall) : h.Stands r o (calls ++ [call]) := by
  cases stands with
  | counted count found counted _ below stood =>
    cases call with
    | inc => exact stands_inc found counted positive below stood
    | dec => exact stands_dec found counted positive below stood
  | immortal found reached stood =>
    have held := get?_perform_of_pinned found call
    refine .immortal ?_ (overflows_concat.mpr (.inl reached)) ?_
    · rw [performAll_concat]
      exact held
    · rw [falls_concat, stood, if_neg (not_falls_of_some held)]
  | gone _ zero => omega

theorem stands_of_justified (found : h.get? r = some o) (new : o.count = .fresh)
    (justified : Justified calls) : h.Stands r o calls := by
  induction calls using List.reverseRecOn with
  | nil =>
    refine .counted .fresh ?_ rfl (by decide) not_overflows_nil rfl
    rw [← new]
    exact found
  | append_singleton calls call ih =>
    exact stands_concat (ih (justified.of_prefix (List.prefix_append _ _)))
      (justified calls call (List.prefix_refl _)) call

namespace Stands

theorem falls_eq_one_iff (stands : h.Stands r o calls) :
    h.falls r calls = 1 ↔ balance calls = 0 ∧ ¬Overflows calls := by
  rcases stands with ⟨_, _, _, positive, _, stood⟩ | ⟨_, reached, stood⟩ | ⟨_, zero, below, lost⟩
  · simp [stood, positive.ne']
  · simp [stood, reached]
  · simp [lost, zero, below]

theorem falls_le_one (stands : h.Stands r o calls) : h.falls r calls ≤ 1 := by
  rcases stands with ⟨_, _, _, _, _, stood⟩ | ⟨_, _, stood⟩ | ⟨_, _, _, lost⟩
  · exact stood.le.trans zero_le_one
  · exact stood.le.trans zero_le_one
  · exact lost.le

theorem get?_of_overflows (stands : h.Stands r o calls) (reached : Overflows calls) :
    (h.performAll r calls).get? r = some { o with count := .pinned } := by
  rcases stands with ⟨_, _, _, _, below, _⟩ | ⟨held, _, _⟩ | ⟨_, _, below, _⟩
  · exact absurd reached below
  · exact held
  · exact absurd reached below

theorem get?_of_positive (stands : h.Stands r o calls) (below : ¬Overflows calls)
    (positive : 0 < balance calls) : ∃ count : RefCount,
      (h.performAll r calls).get? r = some { o with count } ∧ count.toNat = balance calls := by
  rcases stands with ⟨count, held, counted, _⟩ | ⟨_, reached, _⟩ | ⟨_, zero, _⟩
  · exact ⟨count, held, counted⟩
  · exact absurd reached below
  · exact absurd zero positive.ne'

theorem get?_eq_none_iff (stands : h.Stands r o calls) :
    (h.performAll r calls).get? r = none ↔ balance calls = 0 ∧ ¬Overflows calls := by
  rcases stands with ⟨_, held, _, positive, _⟩ | ⟨held, reached, _⟩ | ⟨gone, zero, below, _⟩
  · simp [held, positive.ne']
  · simp [held, reached]
  · simp [gone, zero, below]

end Stands

/-- The object falls with a call exactly where that call brings the balance to nothing and the
    balance never reached the mark, and so it falls at most once. At each moment it is immortal if
    the balance has reached the mark, else its count is the balance, and it is gone where that is
    nothing. -/
theorem falls_once_unless_immortal (found : h.get? r = some o) (new : o.count = .fresh)
    (justified : Justified calls) :
    (∀ before call, before ++ [call] <+: calls → ((h.performAll r before).Falls r call ↔
      balance (before ++ [call]) = 0 ∧ ¬Overflows (before ++ [call]))) ∧
    (h.falls r calls = 1 ↔ balance calls = 0 ∧ ¬Overflows calls) ∧ h.falls r calls ≤ 1 ∧
    ∀ before, before <+: calls →
      let moment := (h.performAll r before).get? r
      (Overflows before → moment = some { o with count := .pinned }) ∧
        (¬Overflows before → 0 < balance before → ∃ count : RefCount,
          moment = some { o with count } ∧ count.toNat = balance before) ∧
        (moment = none ↔ balance before = 0 ∧ ¬Overflows before) := by
  have stands : ∀ before, before <+: calls → h.Stands r o before := fun before first =>
    stands_of_justified found new (justified.of_prefix first)
  refine ⟨fun before call first => ?_, (stands calls (List.prefix_refl _)).falls_eq_one_iff,
    (stands calls (List.prefix_refl _)).falls_le_one, fun before first => ?_⟩
  · have earlier := stands before ((List.prefix_append _ _).trans first)
    have positive := justified before call first
    have stood : h.falls r before ≠ 1 := fun one => by
      have := (earlier.falls_eq_one_iff.mp one).1
      omega
    have none : h.falls r before = 0 := by
      have once := earlier.falls_le_one
      omega
    rw [← (stands _ first).falls_eq_one_iff, falls_concat, none, Nat.zero_add]
    by_cases falls : (h.performAll r before).Falls r call <;> simp [falls]
  · exact ⟨(stands before first).get?_of_overflows, (stands before first).get?_of_positive,
      (stands before first).get?_eq_none_iff⟩

/-! ### A count that climbs to the mark -/

theorem balance_climb (m n : Nat) :
    balance (List.replicate m .inc ++ List.replicate n .dec) = 1 + m - n := by
  simp [balance, List.count_replicate]

/-- As many references may be given back as there are. -/
theorem justified_climb {m n : Nat} (backed : n ≤ m + 1) :
    Justified (List.replicate m .inc ++ List.replicate n .dec) := by
  intro before call first
  have short := first.length_le
  have part := List.prefix_iff_eq_take.mp ((List.prefix_append before [call]).trans first)
  rw [List.take_append, List.take_replicate, List.take_replicate] at part
  simp only [List.length_append, List.length_replicate, List.length_singleton] at short part
  have left := balance_climb (min before.length m) (min (before.length - m) n)
  rw [← part] at left
  omega

/-- An object whose count climbs to the mark outlives all its references; one whose count does not
    falls with the last of them. -/
theorem falls_once_unless_immortal_of_climb :
    let h := (initial.alloc (.bytes [1])).1
    let climb := List.replicate 4294967294 CountCall.inc ++ List.replicate 4294967295 CountCall.dec
    let few := [CountCall.inc, .dec, .dec]
    h.get? 1 = some ⟨.fresh, 0, .bytes [1]⟩ ∧
      Justified climb ∧ balance climb = 0 ∧ h.falls 1 climb ≠ 1 ∧
      (h.performAll 1 climb).get? 1 = some ⟨.pinned, 0, .bytes [1]⟩ ∧
      Justified few ∧ h.falls 1 few = 1 ∧ (h.performAll 1 few).get? 1 = none := by
  intro h climb few
  have found : h.get? 1 = some ⟨.fresh, 0, .bytes [1]⟩ := rfl
  have justified : Justified climb := justified_climb (by decide)
  have reached : Overflows climb :=
    ⟨_, List.prefix_append _ _, by
      have top := balance_climb 4294967294 0
      rw [List.replicate_zero, List.append_nil] at top
      rw [top]
      decide⟩
  have zero : balance climb = 0 := balance_climb 4294967294 4294967295
  have justified' : Justified few := justified_climb (m := 1) (n := 2) (by decide)
  have below : ¬Overflows few := by
    rintro ⟨before, first, top⟩
    have short := first.length_le
    have some : balance before ≤ 1 + before.length := by
      have := List.count_le_length (a := CountCall.inc) (l := before)
      rw [balance]
      omega
    have three : few.length = 3 := rfl
    have limit : pow2 32 = 4294967296 := rfl
    omega
  have none : balance few = 0 := rfl
  obtain ⟨_, ends, _, moments⟩ := falls_once_unless_immortal found rfl justified
  obtain ⟨_, ends', _, moments'⟩ := falls_once_unless_immortal found rfl justified'
  exact ⟨found, justified, zero, fun one => (ends.mp one).2 reached,
    (moments climb (List.prefix_refl _)).1 reached, justified', ends'.mpr ⟨none, below⟩,
    (moments' few (List.prefix_refl _)).2.2.mpr ⟨none, below⟩⟩

end Heap

end NativeBridge
