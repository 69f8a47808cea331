import NativeBridge.Proofs.Session.Runs

/-! How many exports of an object are outstanding in a session.

    An exporter that takes its exports back has as many of them outstanding as there are views of it
    that were taken from it and are not released, whatever was taken, released, overwritten or
    forgotten in between. Legacy views and failed attempts hold none. -/

namespace NativeBridge

/-- The view holds an export of this object: it was taken from the exporter and is not released. -/
def View.exported (v : View) (r : Ref) : Bool := v.owner = some r && !v.isLegacy

theorem View.count_exports (v : View) (r : Ref) :
    v.exports.count r = if v.exported r then 1 else 0 := by
  rw [exports, exported]
  cases v.isLegacy with
  | true => simp
  | false =>
    cases v.owner with
    | none => simp
    | some owner => by_cases hr : owner = r <;> simp [hr]

theorem count_bind_exports (views : List View) (r : Ref) :
    ((views : Multiset View).bind fun v => (v.exports : Multiset Ref)).count r =
      views.countP (·.exported r) := by
  induction views with
  | nil => rfl
  | cons v rest ih =>
    rw [← Multiset.cons_coe, Multiset.cons_bind, Multiset.count_add, ih, Multiset.coe_count,
      View.count_exports, List.countP_cons, Nat.add_comm]

namespace Heap

variable {h h' : Heap} {out : Multiset Ref} {r : Ref} {o o' : Object}

/-- Of an object that is there before and after, the tallies say how its exports changed. -/
theorem Tallies.exports_eq {out' : Multiset Ref} (tallies : h'.Tallies out') (keeps : h.Keeps h')
    (before : h.get? r = some o) (releases : h.Releases r) (after : h'.get? r = some o') :
    o'.exports = out'.count r :=
  tallies.counted r o' after
    ((releases_congr (keeps.body?_eq (by simp [before]) (by simp [after]))).mpr releases)

/-- An extraction counts the export of the view it takes, and none if it takes no view. -/
theorem exports_extract (tallies : h.Tallies out) (before : h.get? r = some o)
    (releases : h.Releases r) (object : Option Ref) (strategies : List Strategy)
    (after : (h.extract object strategies).1.get? r = some o') :
    o'.exports =
      o.exports + (h.extract object strategies).2.toOption.toList.countP (·.exported r) := by
  have moves : Custody.Moves ⟨h, object.toList, out, 0⟩ _ :=
    Custody.moves_extract (fun t ht => Option.mem_toList.mpr ht) strategies
  have tallies' := Custody.tallies_moves moves (by simpa [Custody.allExports] using tallies)
  rw [tallies'.exports_eq (Custody.keeps_moves moves) before releases after,
    tallies.counted r o before releases, Custody.allExports, add_zero, Multiset.count_add,
    count_bind_exports]
  push_cast
  rfl

/-- A release counts back the export of its view, and none if that was released before. -/
theorem exports_releaseView {views : List View} {v : View} (mem : v ∈ views)
    (tallies : h.Tallies ((views : Multiset View).bind fun v => (v.exports : Multiset Ref)))
    (before : h.get? r = some o) (releases : h.Releases r)
    (after : (h.releaseView v).1.get? r = some o') :
    o'.exports = o.exports - if v.exported r then 1 else 0 := by
  obtain ⟨rest, same⟩ := Multiset.exists_cons_of_mem (Multiset.mem_coe.mpr mem)
  rw [same] at tallies
  have moves : Custody.Moves ⟨h, 0, 0, v ::ₘ rest⟩ _ := Custody.moves_discardView v
  have tallies' := Custody.tallies_moves moves (by simpa [Custody.allExports] using tallies)
  rw [tallies'.exports_eq (Custody.keeps_moves moves) before releases after,
    tallies.counted r o before releases, Custody.allExports, zero_add, Multiset.cons_bind,
    Multiset.count_add, Multiset.coe_count, View.count_exports]
  push_cast
  exact (add_sub_cancel_left _ _).symm

end Heap

namespace Session

/-- In every state of every run an exporter that takes exports back has as many outstanding as there
    are views that hold one. An extraction adds the export of its view, if it yields one, and a
    release takes away the one of its view, if that is not released yet. -/
theorem exports_eq_views (runtime : Option Services) (census : Census) (steps : List Step) :
    let s := ((opened runtime census).run steps).1
    ∀ r o, s.heap.get? r = some o → s.heap.Releases r →
      o.exports = s.held.countP (·.exported r) ∧
      (∀ object strategies o', (s.heap.extract object strategies).1.get? r = some o' →
        o'.exports = o.exports +
          (s.heap.extract object strategies).2.toOption.toList.countP (·.exported r)) ∧
      ∀ v ∈ s.held, ∀ o', (s.heap.releaseView v).1.get? r = some o' →
        o'.exports = o.exports - if v.exported r then 1 else 0 := by
  intro s r o found releases
  have tallies : s.heap.Tallies s.custody.allExports :=
    tallies_run (tidy_opened runtime census) (tallies_opened runtime census) steps
  rw [Custody.allExports, custody, zero_add] at tallies
  refine ⟨?_, ?_, ?_⟩
  · rw [tallies.counted r o found releases, count_bind_exports]
  · intro object strategies o' after
    exact Heap.exports_extract tallies found releases object strategies after
  · intro v mem o' after
    exact Heap.exports_releaseView mem tallies found releases after

/-- A raw view that was written over still holds its export; a released one does not. -/
theorem exports_eq_views_of_overwritten :
    let steps : List Step :=
      [.make (.bytes [1, 2, 3]) (some "b"), .make (.holder "b") (some "h"),
        .extract (some "h") Strategy.standard (some "v"), .enterExtract (some "h") "w",
        .enterExtract (some "h") "w", .releaseView (some "v"), .drop "h"]
    let s := ((opened none .initial).run steps).1
    s.heap.get? 1 = some ⟨3, 2, .bytes [1, 2, 3]⟩ ∧ s.heap.Releases 1 ∧
      s.held.countP (·.exported 1) = 2 := by
  intro steps s
  have found : s.heap.get? 1 = some ⟨3, 2, .bytes [1, 2, 3]⟩ := by decide +kernel
  have releases : s.heap.Releases 1 := by
    rw [Heap.Releases]
    decide +kernel
  have counted := (exports_eq_views none .initial steps 1 _ found releases).1
  exact ⟨found, releases, (Int.ofNat.inj counted).symm⟩

end Session

end NativeBridge
