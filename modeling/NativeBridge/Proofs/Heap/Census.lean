import Mathlib.Algebra.BigOperators.Group.List.Basic
import Mathlib.Algebra.Ring.Int.Defs
import NativeBridge.Proofs.Heap.Lookup

/-! What the counters of live objects count.

    While counting is on, every operation of the heap changes the counter of a kind by as much as it
    changes the number of allocated objects of that kind, and while it is off no counter changes
    (`Heap.Counts`). The total is a counter of its own and goes along with the sum of the others. -/

namespace NativeBridge

namespace Kind

theorem mem_all (kind : Kind) : kind ∈ all := by cases kind <;> decide

theorem nodup_all : all.Nodup := by decide

/-- The kinds share objects out. -/
theorem sum_countP (objects : List Object) :
    (all.map fun kind => (objects.countP (·.body.kind = kind) : Int)).sum = objects.length := by
  induction objects with
  | nil => rfl
  | cons o rest ih =>
    have one : (all.map fun kind => if o.body.kind = kind then (1 : Int) else 0).sum = 1 := by
      cases o.body.kind <;> rfl
    simp only [List.countP_cons, decide_eq_true_eq, List.length_cons, Nat.cast_add, Nat.cast_ite,
      Nat.cast_one, Nat.cast_zero]
    rw [List.sum_map_add, ih, one]

end Kind

namespace Census

variable {c : Census}

/-! ### One count -/

theorem lookup_adjust (counted : Kind) (delta : Int) (counts : List (Kind × Int)) (kind : Kind) :
    ((adjust counted delta counts).lookup kind).getD 0 =
      (counts.lookup kind).getD 0 + if counted = kind then delta else 0 := by
  induction counts with
  | nil =>
    by_cases hk : counted = kind
    · simp [adjust, hk]
    · have other : (kind == counted) = false := by simpa using Ne.symm hk
      simp [adjust, List.lookup_cons, other, hk]
  | cons entry rest ih =>
    obtain ⟨first, n⟩ := entry
    by_cases here : first = counted
    · subst here
      rw [adjust, if_pos rfl, List.lookup_cons, List.lookup_cons]
      by_cases hk : first = kind
      · simp [hk]
      · have other : (kind == first) = false := by simpa using Ne.symm hk
        simp [other, hk]
    · rw [adjust, if_neg here, List.lookup_cons, List.lookup_cons]
      by_cases hk : first = kind
      · subst hk
        simp [Ne.symm here]
      · have other : (kind == first) = false := by simpa using Ne.symm hk
        simpa [other] using ih

theorem live_count (c : Census) (counted : Kind) (delta : Int) (kind : Kind) :
    (c.count counted delta).live kind =
      c.live kind + if c.enabled ∧ counted = kind then delta else 0 := by
  unfold count
  split
  · rename_i on
    simpa [live, on] using lookup_adjust counted delta c.counts kind
  · rename_i off
    simp [off]

@[simp] theorem enabled_count (c : Census) (counted : Kind) (delta : Int) :
    (c.count counted delta).enabled = c.enabled := by
  unfold count
  split <;> rfl

theorem total_count (c : Census) (counted : Kind) (delta : Int) :
    (c.count counted delta).total = c.total + if c.enabled then delta else 0 := by
  unfold count
  split <;> simp

theorem count_of_off (off : c.enabled = false) (counted : Kind) (delta : Int) :
    c.count counted delta = c := by simp [count, off]

/-! ### All counts -/

/-- The counts of all kinds together. -/
def sum (c : Census) : Int := (Kind.all.map c.live).sum

theorem sum_count (c : Census) (counted : Kind) (delta : Int) :
    (c.count counted delta).sum = c.sum + if c.enabled then delta else 0 := by
  have one : (Kind.all.map fun kind => if c.enabled ∧ counted = kind then delta else 0).sum =
      if c.enabled then delta else 0 := by
    cases counted <;> by_cases on : c.enabled <;> simp [Kind.all, on]
  rw [sum, sum, funext (live_count c counted delta), List.sum_map_add, one]

theorem mem_report {entry : Kind × Int} :
    entry ∈ c.report ↔ entry.2 = c.live entry.1 ∧ entry.2 ≠ 0 := by
  obtain ⟨kind, n⟩ := entry
  simp only [report, List.mem_filter, List.mem_map, Prod.mk.injEq, decide_eq_true_eq]
  constructor
  · rintro ⟨⟨_, _, rfl, rfl⟩, nonzero⟩
    exact ⟨rfl, nonzero⟩
  · rintro ⟨rfl, nonzero⟩
    exact ⟨⟨kind, kind.mem_all, rfl, rfl⟩, nonzero⟩

/-- A report goes through the kinds in their order, so it names none twice. -/
theorem kinds_report (c : Census) : (c.report.map (·.1)).Sublist Kind.all := by
  have all : (Kind.all.map fun kind => (kind, c.live kind)).map (·.1) = Kind.all := by
    rw [List.map_map]
    exact List.map_id _
  have kept := (List.filter_sublist (p := (·.2 ≠ (0 : Int)))
    (l := Kind.all.map fun kind => (kind, c.live kind))).map (·.1)
  rwa [all] at kept

/-- A change that fits a word of 64 bits is reported as it is. -/
theorem since_eq {before : Int} (low : -(pow2 63 : Int) ≤ c.total - before)
    (high : c.total - before < pow2 63) : c.since before = c.total - before :=
  Int64.toInt_ofInt_of_le low high

end Census

namespace Heap

variable {h h' h₁ h₂ h₃ : Heap} {r : Ref} {o : Object}

/-! ### Allocated objects -/

/-- Number of allocated objects of a kind. Of the kind of the immortal record kind it counts that
    one too, which is there at any time. -/
def allocated (h : Heap) (kind : Kind) : Nat := h.slots.countP (·.any (·.body.kind = kind))

theorem allocated_update (h : Heap) (r : Ref) (change : Object → Object)
    (kept : ∀ o, (change o).body = o.body) (kind : Kind) :
    (h.update r change).allocated kind = h.allocated kind := by
  simp only [allocated, update]
  generalize h.slots = slots
  induction slots generalizing r with
  | nil => simp
  | cons slot rest ih =>
    cases r with
    | zero => cases slot <;> simp [List.countP_cons, kept]
    | succ r => simp [List.countP_cons, ih]

theorem allocated_alloc (h : Heap) (body : Body) (kind : Kind) :
    (h.alloc body).1.allocated kind = h.allocated kind + if body.kind = kind then 1 else 0 := by
  simp [allocated, alloc, List.countP_append, List.countP_cons]

theorem allocated_free (found : h.get? r = some o) (kind : Kind) :
    (h.free r o.body.kind).allocated kind + (if o.body.kind = kind then 1 else 0) =
      h.allocated kind := by
  rw [get?, Option.join_eq_some_iff] at found
  simp only [allocated, free]
  generalize h.slots = slots at *
  induction slots generalizing r with
  | nil => cases found
  | cons slot rest ih =>
    cases r with
    | zero =>
      cases found
      simp [List.countP_cons]
    | succ r =>
      have := ih found
      simp only [List.set_cons_succ, List.countP_cons]
      omega

/-! ### Counters and objects -/

/-- The counters follow the objects from one heap to another. -/
structure Counts (h h' : Heap) : Prop where
  enabled : h'.census.enabled = h.census.enabled
  off : h.census.enabled = false → h'.census = h.census
  live : h.census.enabled = true → ∀ kind,
    h'.census.live kind + h.allocated kind = h.census.live kind + h'.allocated kind
  total : h'.census.total + h.census.sum = h.census.total + h'.census.sum

namespace Counts

theorem refl (h : Heap) : h.Counts h := ⟨rfl, fun _ => rfl, fun _ _ => rfl, rfl⟩

theorem trans (first : h₁.Counts h₂) (second : h₂.Counts h₃) : h₁.Counts h₃ := by
  refine ⟨second.enabled.trans first.enabled, fun off => ?_, fun on kind => ?_, ?_⟩
  · rw [second.off (first.enabled.trans off), first.off off]
  · have := first.live on kind
    have := second.live (first.enabled.trans on) kind
    omega
  · have := first.total
    have := second.total
    omega

theorem symm (counts : h.Counts h') : h'.Counts h := by
  refine ⟨counts.enabled.symm, fun off => ?_, fun on kind => ?_, ?_⟩
  · exact (counts.off (counts.enabled.symm.trans off)).symm
  · have := counts.live (counts.enabled.symm.trans on) kind
    omega
  · have := counts.total
    omega

/-- Neither a change of counts nor of the memory outside makes or ends an object. -/
theorem of_same (census : h'.census = h.census)
    (same : ∀ kind, h'.allocated kind = h.allocated kind) : h.Counts h' := by
  refine ⟨by rw [census], fun _ => census, fun _ kind => ?_, by rw [census]⟩
  rw [census, same]

/-- A count goes with an object that comes or goes. -/
theorem of_count (kind : Kind) (delta : Int) (census : h'.census = h.census.count kind delta)
    (moved : ∀ k, (h'.allocated k : Int) = h.allocated k + if kind = k then delta else 0) :
    h.Counts h' := by
  refine ⟨by simp [census], fun off => by rw [census, Census.count_of_off off], fun on k => ?_, ?_⟩
  · rw [census, Census.live_count, moved]
    by_cases hk : kind = k <;> simp [on, hk]
    omega
  · rw [census, Census.total_count, Census.sum_count]
    omega

theorem update (h : Heap) (r : Ref) (change : Object → Object)
    (kept : ∀ o, (change o).body = o.body) : h.Counts (h.update r change) :=
  of_same rfl (allocated_update h r change kept)

theorem alloc (h : Heap) (body : Body) : h.Counts (h.alloc body).1 := by
  refine of_count body.kind 1 rfl fun k => ?_
  rw [allocated_alloc]
  split <;> simp

theorem retainAll (h : Heap) (rs : List Ref) : h.Counts (h.retainAll rs) := by
  induction rs generalizing h with
  | nil => exact .refl h
  | cons r rest ih =>
    exact (update h r (fun o => { o with count := o.count.retain }) fun _ => rfl).trans
      (ih (h.retain r))

theorem create (h : Heap) (body : Body) : h.Counts (h.create body).1 :=
  (retainAll h body.refs).trans (.alloc _ body)

theorem free (found : h.get? r = some o) : h.Counts (h.free r o.body.kind) := by
  refine of_count o.body.kind (-1) rfl fun k => ?_
  rw [← allocated_free found k]
  push_cast
  split <;> omega

/-- Whatever falls with the references that are given back is counted as it falls. -/
theorem releaseAll (h : Heap) (work : List Ref) : h.Counts (h.releaseAll work) := by
  fun_induction Heap.releaseAll h work with
  | case1 h => exact .refl h
  | case2 h r rest missing ih => exact ih
  | case3 h r rest o found count more ih =>
    exact (update h r (fun o => { o with count }) fun _ => rfl).trans ih
  | case4 h r rest o found last ih => exact (free found).trans ih

end Counts

end Heap

end NativeBridge
