import NativeBridge.Proofs.Host.EntryPoints
import NativeBridge.Proofs.Session.Frames

/-! Each step of a session, as moves.

    A step answers from a heap that came about by moves, and what it was handed goes to a name, to
    a view or back (`Session.follows_step`). The one thing asked of a step is that a reference is
    given back by hand only where one was taken by hand (`Session.Owed`). -/

namespace NativeBridge

/-- What a step does to the counters of live objects, if that is what it is for. -/
def Step.recount? : Step → Option (Census → Census)
  | .enableTracking => some Census.enable
  | .track kind delta => some (·.count kind delta)
  | .resetTracking => some Census.reset
  | _ => none

/-- The name whose object a reference is given back to by hand. -/
def Step.givenBack? : Step → Option String
  | .release object => object
  | _ => none

/-! ### Descriptions with names resolved -/

theorem found_of_resolve {ρ σ μ : Type} {find : ρ → Option σ} {w : Window ρ μ} {w' : Window σ μ}
    (resolved : w.resolve? find = some w') : ∀ r ∈ w'.base, ∃ name, find name = some r := by
  unfold Window.resolve? at resolved
  split at resolved
  · cases resolved
    simp
  · rename_i name _
    obtain ⟨base, found, rfl⟩ := Option.map_eq_some_iff.mp resolved
    rintro r hr
    cases hr
    exact ⟨name, found⟩

theorem found_of_resolveOption {ρ σ : Type} {find : ρ → Option σ} {target : Option ρ}
    {target' : Option σ} (resolved : resolveOption? find target = some target') :
    ∀ r ∈ target', ∃ name, find name = some r := by
  cases target with
  | none =>
    cases resolved
    simp
  | some name =>
    obtain ⟨r, found, rfl⟩ := Option.map_eq_some_iff.mp resolved
    rintro t ht
    cases ht
    exact ⟨name, found⟩

theorem found_of_mapM {ρ σ : Type} {find : ρ → Option σ} {list : List (String × ρ)}
    {list' : List (String × σ)}
    (resolved : list.mapM (fun entry => (find entry.2).map (entry.1, ·)) = some list') :
    ∀ r ∈ list'.map (·.2), ∃ name, find name = some r := by
  induction list generalizing list' with
  | nil =>
    cases resolved
    simp
  | cons entry rest ih =>
    rw [List.mapM_cons] at resolved
    obtain ⟨first, hf, resolved⟩ := Option.bind_eq_some_iff.mp resolved
    obtain ⟨others, ho, done⟩ := Option.bind_eq_some_iff.mp resolved
    cases done
    obtain ⟨t, found, rfl⟩ := Option.map_eq_some_iff.mp hf
    rintro r hr
    rcases List.mem_cons.mp hr with rfl | hr
    · exact ⟨entry.2, found⟩
    · exact ih ho r hr

/-- The parts of a custom object are resolved one after the other. -/
theorem resolve?_eq {ρ σ μ : Type} (find : ρ → Option σ) (c : Custom ρ μ) :
    c.resolve? find = (c.shape.resolve? find).bind fun shape =>
      (match c.float with
        | none => some none
        | some target => (resolveOption? find target).map some).bind fun float =>
      (match c.element with
        | none => some none
        | some e => (resolveOption? find e.descr).map fun descr =>
          some ⟨e.isComplex, descr, e.storage⟩ : Option (Option (Element σ))).bind fun element =>
      (match c.attributes with
        | none => some none
        | some list => (list.mapM fun entry : String × ρ => (find entry.2).map (entry.1, ·)).map
          some).bind fun attributes =>
      some ⟨shape, float, element, attributes, c.exporter, c.segment⟩ := by
  obtain ⟨shape, float, element, attributes, exporter, segment⟩ := c
  cases float <;> cases element <;> cases attributes <;> rfl

theorem found_of_resolveShape {ρ σ μ : Type} {find : ρ → Option σ} {shape : Shape ρ μ}
    {shape' : Shape σ μ} (resolved : shape.resolve? find = some shape') :
    ∀ r ∈ shape'.window?.bind (·.base), ∃ name, find name = some r := by
  cases shape with
  | window w =>
    obtain ⟨w', found, rfl⟩ := Option.map_eq_some_iff.mp resolved
    exact found_of_resolve found
  | _ =>
    cases resolved
    simp [Shape.window?]

/-- Every object that a custom one names was found under a name. -/
theorem found_of_resolveCustom {ρ σ μ : Type} {find : ρ → Option σ} {c : Custom ρ μ}
    {c' : Custom σ μ} (resolved : c.resolve? find = some c') :
    ∀ r ∈ c'.refs, ∃ name, find name = some r := by
  rw [resolve?_eq] at resolved
  obtain ⟨shape, hshape, resolved⟩ := Option.bind_eq_some_iff.mp resolved
  obtain ⟨float, hfloat, resolved⟩ := Option.bind_eq_some_iff.mp resolved
  obtain ⟨element, helement, resolved⟩ := Option.bind_eq_some_iff.mp resolved
  obtain ⟨attributes, hattributes, resolved⟩ := Option.bind_eq_some_iff.mp resolved
  cases resolved
  intro r hr
  simp only [Custom.refs, List.mem_append, Option.mem_toList, or_assoc] at hr
  rcases hr with hr | hr | hr | hr
  · exact found_of_resolveShape hshape r hr
  · split at hfloat
    · cases hfloat
      cases hr
    · obtain ⟨target, htarget, rfl⟩ := Option.map_eq_some_iff.mp hfloat
      exact found_of_resolveOption htarget r hr
  · split at helement
    · cases helement
      cases hr
    · obtain ⟨descr, hdescr, rfl⟩ := Option.map_eq_some_iff.mp helement
      exact found_of_resolveOption hdescr r hr
  · split at hattributes
    · cases hattributes
      simp at hr
    · obtain ⟨list, hlist, rfl⟩ := Option.map_eq_some_iff.mp hattributes
      exact found_of_mapM hlist r hr

namespace Session

open Custody

variable {s : Session} {r : Ref}

/-! ### Objects -/

/-- What an optional name is bound to is in the session's hands. -/
theorem mem_hands_of_bind {name : Option String} {object : Option Ref}
    (bound : object = name.bind (List.lookup · s.names)) :
    ∀ r ∈ object, r ∈ (s.hands : Multiset Ref) := by
  rintro r hr
  rw [bound] at hr
  obtain ⟨name, _, found⟩ := Option.bind_eq_some_iff.mp hr
  exact mem_hands found

/-- A new object takes references of its own to what its names are bound to. -/
theorem moves_create? {object : NewObject} {h : Heap} (made : s.create? object = some (h, r)) :
    Moves s.custody ⟨h, r ::ₘ s.hands, 0, s.held⟩ := by
  have leaf : ∀ body : Body, body.Outside → body.refs = [] →
      some (s.heap.alloc body) = some (h, r) → Moves s.custody ⟨h, r ::ₘ s.hands, 0, s.held⟩ := by
    intro body outside none same
    have moved : Moves s.custody ⟨(s.heap.alloc body).1, (s.heap.alloc body).2 ::ₘ s.hands, 0,
      s.held⟩ := moves_alloc_leaf outside none
    rwa [Option.some.inj same] at moved
  have scalar : ∀ isComplex layout raw, some (s.heap.newScalar isComplex layout raw) = some (h, r) →
      Moves s.custody ⟨h, r ::ₘ s.hands, 0, s.held⟩ := by
    intro isComplex layout raw same
    have moved : Moves s.custody ⟨(s.heap.newScalar isComplex layout raw).1,
      (s.heap.newScalar isComplex layout raw).2 ::ₘ s.hands, 0, s.held⟩ :=
      moves_newScalar isComplex layout raw
    rwa [Option.some.inj same] at moved
  cases object with
  | complex value => exact leaf (.complex value) trivial rfl made
  | complex128 value => exact scalar _ _ _ made
  | complex64 real imag => exact scalar _ _ _ made
  | float value => exact leaf (.float value) trivial rfl made
  | int value => exact leaf (.int value) trivial rfl made
  | realScalar type data => exact scalar _ _ _ made
  | scalarWithoutDescriptor => exact leaf (.scalar _) trivial rfl made
  | scalarWithRecordDescriptor => exact scalar _ _ _ made
  | bytes data => exact leaf (.bytes data) trivial rfl made
  | holder name =>
    obtain ⟨data, found, made⟩ := Option.map_eq_some_iff.mp made
    have moved : Moves s.custody ⟨(s.heap.newHolder data).1, (s.heap.newHolder data).2 ::ₘ s.hands,
      0, s.held⟩ := moves_create trivial fun t ht => List.mem_singleton.mp ht ▸ mem_hands found
    rwa [made] at moved
  | descriptor layout => exact leaf (.descriptor layout false) trivial rfl made
  | window w =>
    obtain ⟨w', resolved, made⟩ := Option.map_eq_some_iff.mp made
    rcases hp : s.heap.place? w'.start with ⟨h₁, start⟩
    rw [hp] at made
    dsimp only at made
    obtain ⟨placed, outside⟩ := moves_place? hp
    have moved : Moves ⟨h₁, s.hands, 0, s.held⟩
        ⟨(h₁.newWindow ⟨w'.base, start, w'.size, w'.offset⟩).1,
          (h₁.newWindow ⟨w'.base, start, w'.size, w'.offset⟩).2 ::ₘ s.hands, 0, s.held⟩ := by
      refine moves_create outside fun t ht => ?_
      obtain ⟨name, found⟩ := found_of_resolve resolved t (Option.mem_toList.mp ht)
      exact mem_hands found
    rw [made] at moved
    exact placed.trans moved
  | custom c =>
    obtain ⟨c', resolved, made⟩ := Option.map_eq_some_iff.mp made
    have moved : Moves s.custody ⟨(s.heap.newCustom c').1, (s.heap.newCustom c').2 ::ₘ s.hands, 0,
        s.held⟩ := by
      refine moves_newCustom c' fun t ht => ?_
      obtain ⟨name, found⟩ := found_of_resolveCustom resolved t ht
      exact mem_hands found
    rwa [made] at moved

theorem follows_make (tidy : s.Tidy) (object : NewObject) (as : Option String) :
    Follows s.custody (s.make object as).1 := by
  unfold make
  split
  · exact .refl tidy
  · rename_i made
    exact .after (moves_create? made) (follows_answerObject tidy (_, some _) as)

/-- What a step is handed is kept or given back. -/
theorem follows_answered (tidy : s.Tidy) {outcome : Heap × Option Ref} (as : Option String)
    (moves : Moves s.custody ⟨outcome.1, outcome.2.toList + s.hands, 0, s.held⟩) :
    Follows s.custody (s.answerObject outcome as).1 :=
  .after moves (follows_answerObject tidy outcome as)

/-- A step that holds nothing afterwards. -/
theorem follows_withHeap (tidy : s.Tidy) {h : Heap}
    (moves : Moves s.custody ⟨h, s.hands, 0, s.held⟩) : Follows s.custody (s.withHeap h) :=
  ⟨⟨tidy.names, tidy.views⟩, moves⟩

theorem follows_coerce (tidy : s.Tidy) (mem : r ∈ (s.hands : Multiset Ref)) (as : Option String) :
    Follows s.custody (s.coerce r as).1 := by
  unfold coerce
  split
  · exact .refl tidy
  · rename_i h hc
    have moved : Moves s.custody ⟨h, (none : Option Ref).toList + s.hands, 0, s.held⟩ :=
      moves_coerce mem hc
    rw [Option.toList_none, Multiset.coe_nil, zero_add] at moved
    exact follows_withHeap tidy moved
  · rename_i h float hc
    refine .after (moves_coerce mem hc) ?_
    exact follows_keep (s := s.withHeap h) ⟨tidy.names, tidy.views⟩ float as

/-! ### References taken by hand -/

/-- A reference is given back by hand only if one was taken by hand. -/
def Owed (s : Session) (step : Step) : Prop :=
  ∀ r ∈ step.givenBack?.bind (List.lookup · s.names), r ∈ s.byHand

instance (s : Session) (step : Step) : Decidable (s.Owed step) :=
  inferInstanceAs (Decidable (∀ r ∈ step.givenBack?.bind (List.lookup · s.names), r ∈ s.byHand))

theorem follows_retainByHand (tidy : s.Tidy) {object : Option Ref}
    (mem : ∀ r ∈ object, r ∈ (s.hands : Multiset Ref)) :
    Follows s.custody (s.retainByHand object).1 := by
  cases object with
  | none => exact .refl tidy
  | some r =>
    refine ⟨⟨tidy.names, tidy.views⟩, ?_⟩
    have more : ((s.retainByHand (some r)).1.hands : Multiset Ref) = r ::ₘ s.hands :=
      Multiset.coe_eq_coe.mpr List.perm_middle
    rw [custody, custody, more]
    exact moves_retain (.of_mem (mem r rfl))

theorem follows_releaseByHand (tidy : s.Tidy) {object : Option Ref}
    (owed : ∀ r ∈ object, r ∈ s.byHand) : Follows s.custody (s.releaseByHand object).1 := by
  cases object with
  | none => exact .refl tidy
  | some r =>
    refine ⟨⟨tidy.names, tidy.views⟩, ?_⟩
    have one : (s.hands : Multiset Ref) = r ::ₘ (s.releaseByHand (some r)).1.hands := by
      refine Multiset.coe_eq_coe.mpr ?_
      exact ((List.perm_cons_erase (owed r rfl)).append_left _).trans List.perm_middle
    rw [custody, one]
    exact moves_release s.heap r

/-! ### Views -/

theorem held_of_lookup (tidy : s.Tidy) {name : String} {old : Held}
    (found : s.views.lookup name = some old) :
    (s.held : Multiset View) = old.view ::ₘ (s.removeView name).held := by
  rw [held_removeView tidy name, found]
  rfl

/-- A view that was taken is stored as a guard, or released again. -/
theorem follows_taken (tidy : s.Tidy) {object : Option Ref} {strategies : List Strategy} {h : Heap}
    {view : View} (taken : s.heap.extract object strategies = (h, .ok view))
    (name : Option String) :
    Follows ⟨h, s.hands, 0, view ::ₘ s.held⟩ (s.extract object strategies name).1 := by
  have tidy' : (s.withHeap h).Tidy := ⟨tidy.names, tidy.views⟩
  unfold extract
  rw [taken]
  cases name with
  | none => exact follows_discard tidy' (some ⟨true, view⟩)
  | some name => exact follows_storeView tidy' name ⟨true, view⟩

theorem follows_extract (tidy : s.Tidy) {object : Option Ref}
    (mem : ∀ r ∈ object, r ∈ (s.hands : Multiset Ref)) (strategies : List Strategy)
    (name : Option String) : Follows s.custody (s.extract object strategies name).1 := by
  have moved : Moves s.custody _ := moves_extract mem strategies
  rcases taken : s.heap.extract object strategies with ⟨h, error | view⟩ <;> rw [taken] at moved
  · unfold extract
    rw [taken]
    refine follows_withHeap tidy ?_
    simpa [Except.toOption] using moved
  · exact .after moved (follows_taken tidy taken name)

theorem follows_dropGuard (tidy : s.Tidy) {name : String} {old : Held}
    (found : s.views.lookup name = some old) :
    Follows s.custody ((s.removeView name).discard (some old)) := by
  have gone := follows_discard (tidy_removeView tidy name) (some old)
  rw [custody, held_of_lookup tidy found]
  exact gone

theorem follows_unguard (tidy : s.Tidy) {name : String} {old : Held}
    (found : s.views.lookup name = some old) :
    Follows s.custody (s.setView name { old with guarded := false }) := by
  refine ⟨tidy_setView tidy name _, ?_⟩
  rw [custody, custody, held_of_lookup tidy found]
  exact .refl

theorem follows_releaseStored (tidy : s.Tidy) {name : String} {old : Held}
    (found : s.views.lookup name = some old) :
    Follows s.custody (s.releaseStored name old).1 := by
  show Follows s.custody ((s.withHeap (s.heap.releaseView old.view).1).setView name
    { old with view := (s.heap.releaseView old.view).2 })
  rw [releaseView_snd]
  refine ⟨⟨tidy.names, nodup_rebind tidy.views name _⟩, ?_⟩
  rw [custody, held_of_lookup tidy found]
  exact moves_releaseView old.view

/-- Through the entry point a view is released as it is without. -/
theorem enterRelease_eq (s : Session) (name : String) (old : Held) :
    s.enterRelease name old = s.releaseStored name old := rfl

theorem moves_cycle {h : Heap} {refs exports : Multiset Ref} {views : Multiset View}
    {object : Option Ref} (mem : ∀ r ∈ object, r ∈ refs) (times : Nat) (sum : Int) :
    Moves ⟨h, refs, exports, views⟩ ⟨(cycle h object times sum).1, refs, exports, views⟩ := by
  induction times generalizing h sum with
  | zero => exact .refl
  | succ times ih =>
    have taken : Moves ⟨h, refs, exports, views⟩ _ := moves_extract mem Strategy.standard
    unfold cycle
    rcases he : h.extract object Strategy.standard with ⟨h', error | view⟩ <;> rw [he] at taken
    · simpa [Except.toOption] using taken
    · exact (taken.trans (moves_discardView view)).trans (ih _)

theorem follows_cycles (tidy : s.Tidy) {object : Option Ref}
    (mem : ∀ r ∈ object, r ∈ (s.hands : Multiset Ref)) (times : Nat) :
    Follows s.custody (s.cycles object times).1 := by
  have moved : Moves s.custody _ := moves_cycle mem times 0
  unfold cycles
  rcases hc : cycle s.heap object times 0 with ⟨h, error | sum⟩ <;> rw [hc] at moved
  · exact follows_withHeap tidy moved
  · exact follows_withHeap tidy moved

/-! ### Entry points -/

/-- The session and the view that the entry point for buffers is to write into: the raw view of
    this name, or an empty one after a guard of this name is gone. -/
def vacate (s : Session) (name : String) : Session × View :=
  match s.views.lookup name with
  | some ⟨false, view⟩ => (s, view)
  | some ⟨true, view⟩ => ((s.removeView name).discard (some ⟨true, view⟩), .empty)
  | none => (s, .empty)

theorem held_removeView_self (s : Session) (name : String) :
    ((s.removeView name).removeView name).held = (s.removeView name).held := by
  simp [removeView, held, List.filter_filter]

/-- The view that is written over is still held, and nothing stands under the name besides. -/
theorem moves_vacate (tidy : s.Tidy) (name : String) :
    (s.vacate name).1.Tidy ∧ (s.vacate name).1.hands = s.hands ∧
      Moves s.custody ⟨(s.vacate name).1.heap, s.hands, 0,
        (s.vacate name).2 ::ₘ ((s.vacate name).1.removeView name).held⟩ := by
  have removed := held_removeView tidy name
  unfold vacate
  split
  · rename_i found
    rw [custody, held_of_lookup tidy found]
    exact ⟨tidy, rfl, .refl⟩
  · rename_i view found
    have gone := follows_dropGuard tidy found
    have same : (((s.removeView name).discard (some ⟨true, view⟩)).removeView name).held =
        (s.removeView name).held := held_removeView_self s name
    rw [same]
    exact ⟨gone.tidy, rfl, gone.moves.trans (moves_keep View.empty)⟩
  · rename_i none
    rw [none, Option.map_none, Option.toList_none, Multiset.coe_nil, zero_add] at removed
    rw [custody, removed]
    exact ⟨tidy, rfl, moves_keep View.empty⟩

theorem follows_enterAdaptor (tidy : s.Tidy) {object : Option Ref}
    (mem : ∀ r ∈ object, r ∈ (s.hands : Multiset Ref)) :
    Follows s.custody (s.enterAdaptor object).1 :=
  ⟨⟨tidy.names, tidy.views⟩, Host.moves_complexAdaptor outputBefore mem⟩

theorem enterExtract_eq (s : Session) (object : Option Ref) (name : String) :
    (s.enterExtract object name).1 =
      let out := (s.vacate name).2
      let result := (s.vacate name).1.host.extractRecordData object out
      let s := (s.vacate name).1.withHost result.1
      (if result.2.1 = .null then s else { s with stray := out :: s.stray }).setView name
        ⟨false, result.2.2⟩ := rfl

/-- A view that was taken through the entry point is stored as a raw one, and the view that was
    written over is forgotten. -/
theorem follows_entered (tidy : s.Tidy) {object : Option Ref} {name : String} {h : Heap}
    {view : View}
    (taken : (s.vacate name).1.heap.extract object Strategy.standard = (h, .ok view)) :
    Follows ⟨h, s.hands, 0, view ::ₘ (s.vacate name).2 ::ₘ ((s.vacate name).1.removeView name).held⟩
      (s.enterExtract object name).1 := by
  obtain ⟨tidy', hands, _⟩ := moves_vacate tidy name
  rw [enterExtract_eq]
  generalize (s.vacate name).1 = s' at *
  generalize (s.vacate name).2 = out at *
  dsimp only
  rw [Host.extractRecordData_of_ok taken, if_neg (start_ne_null_of_extract taken), ← hands]
  have both : (({ s' with stray := out :: s'.stray }.setView name ⟨false, view⟩).held :
      Multiset View) = view ::ₘ out ::ₘ (s'.removeView name).held := by
    rw [held_setView]
    exact congrArg (view ::ₘ ·) (Multiset.coe_eq_coe.mpr List.perm_middle)
  refine ⟨⟨tidy'.names, nodup_rebind tidy'.views name _⟩, ?_⟩
  rw [← both]
  exact .refl

theorem follows_enterExtract (tidy : s.Tidy) {object : Option Ref}
    (mem : ∀ r ∈ object, r ∈ (s.hands : Multiset Ref)) (name : String) :
    Follows s.custody (s.enterExtract object name).1 := by
  obtain ⟨tidy', hands, vacated⟩ := moves_vacate tidy name
  have moved := vacated.trans (moves_extract mem Strategy.standard)
  rcases taken : (s.vacate name).1.heap.extract object Strategy.standard with ⟨h, error | view⟩ <;>
    rw [taken] at moved
  · rw [enterExtract_eq]
    generalize (s.vacate name).1 = s' at *
    generalize (s.vacate name).2 = out at *
    have kept : Moves s.custody ⟨h, s'.hands, 0, out ::ₘ (s'.removeView name).held⟩ := by
      simpa [Except.toOption, hands] using moved
    dsimp only
    rw [Host.extractRecordData_of_error taken]
    exact ⟨⟨tidy'.names, nodup_rebind tidy'.views name _⟩, kept⟩
  · exact .after moved (follows_entered tidy taken)

/-! ### Records -/

theorem follows_rebuilt (tidy : s.Tidy) {h : Heap}
    (placed : Moves s.custody ⟨h, s.hands, 0, s.held⟩) (services : Option Services)
    (start : Address) (length index : Nat) {dtype : Option Ref}
    (mem : ∀ r ∈ dtype, r ∈ (s.hands : Multiset Ref)) (as : Option String) :
    Follows s.custody
      (match h.reconstruct services start length dtype with
        | (h, .error error) =>
          (s.withHeap (h.overwrite index overwriting), Answer.failure (.reconstruct error))
        | (h, .ok record) =>
          s.answerObject (h.overwrite index overwriting, some record) as).1 := by
  have built : Moves ⟨h, s.hands, 0, s.held⟩ _ := moves_reconstruct services start length mem
  rcases hr : h.reconstruct services start length dtype with ⟨h', error | record⟩ <;>
    rw [hr] at built
  · have same : Moves ⟨h, s.hands, 0, s.held⟩ ⟨h', s.hands, 0, s.held⟩ := by
      simpa [Except.toOption] using built
    exact follows_withHeap tidy ((placed.trans same).trans (moves_overwrite index overwriting))
  · have kept := (placed.trans built).trans (moves_overwrite index overwriting)
    have answered : Follows s.custody
      (s.answerObject (h'.overwrite index overwriting, some record) as).1 :=
      follows_answered tidy as kept
    exact answered

theorem follows_recreate (tidy : s.Tidy) (data : Contents) (length : Nat) {dtype : Option Ref}
    (mem : ∀ r ∈ dtype, r ∈ (s.hands : Multiset Ref)) (runtime : RuntimeChoice)
    (as : Option String) : Follows s.custody (s.recreate data length dtype runtime as).1 := by
  unfold recreate
  rcases hp : s.heap.place? data with ⟨h, start⟩
  have placed : Moves s.custody ⟨h, s.hands, 0, s.held⟩ := (moves_place? hp).1
  cases runtime <;> exact follows_rebuilt tidy placed _ start length _ mem as

theorem follows_enterRecreate (tidy : s.Tidy) (data : Contents) (size : Int) {dtype : Option Ref}
    (mem : ∀ r ∈ dtype, r ∈ (s.hands : Multiset Ref)) (as : Option String) :
    Follows s.custody (s.enterRecreate data size dtype as).1 := by
  rcases hp : s.heap.place? data with ⟨h, start⟩
  have placed : Moves s.custody ⟨h, s.hands, 0, s.held⟩ := (moves_place? hp).1
  have built : Moves ⟨(s.host.withHeap h).heap, s.hands, 0, s.held⟩ _ :=
    Host.moves_recreateRecord start size mem
  rcases hr : (s.host.withHeap h).recreateRecord start size dtype with ⟨host, record⟩
  rw [hr] at built
  have kept := (placed.trans built).trans (moves_overwrite s.heap.blocks.length overwriting)
  have tidy' : (s.withHost host).Tidy := ⟨tidy.names, tidy.views⟩
  simp only [enterRecreate, hp, hr]
  exact .after kept (follows_answerObject tidy' (_, record) as)

/-! ### Steps -/

/-- A step is a number of moves, or sets the counters of live objects. -/
theorem follows_step (tidy : s.Tidy) (step : Step) (owed : s.Owed step)
    (moving : step.recount? = none) : Follows s.custody (s.step step).1 := by
  cases step with
  | make object as => exact follows_make tidy object as
  | clone object as | unwrap object as =>
    refine of_withObject (.refl tidy) fun r found => follows_answered tidy as (moves_handOut ?_)
    rintro t ht
    cases ht
    exact .of_mem (mem_hands found)
  | borrow object as =>
    refine of_withObject? (.refl tidy) fun r bound =>
      follows_answered tidy as (moves_handOut ?_)
    exact fun t ht => .of_mem (mem_hands_of_bind bound t ht)
  | drop name => exact follows_dropName tidy name
  | retain object =>
    refine of_withObject? (.refl tidy) fun r bound => ?_
    exact follows_retainByHand tidy (mem_hands_of_bind bound)
  | release object =>
    refine of_withObject? (.refl tidy) fun r bound => follows_releaseByHand tidy ?_
    exact bound ▸ owed
  | «attribute» object name as =>
    exact of_withObject? (.refl tidy) fun r bound =>
      follows_answered tidy as (moves_getAttribute name (mem_hands_of_bind bound))
  | adapt object =>
    refine of_withObject? (.refl tidy) fun r bound => ?_
    have moved : Moves s.custody ⟨(s.heap.adapt r).1, s.hands, 0, s.held⟩ :=
      moves_adapt (mem_hands_of_bind bound)
    unfold adapt
    rcases ha : s.heap.adapt r with ⟨h, error | value⟩ <;> rw [ha] at moved <;>
      exact follows_withHeap tidy moved
  | enterAdaptor object =>
    refine of_withObject? (.refl tidy) fun r bound => ?_
    exact follows_enterAdaptor tidy (mem_hands_of_bind bound)
  | coerce object as =>
    exact of_withObject (.refl tidy) fun r found => follows_coerce tidy (mem_hands found) as
  | setError error => exact ⟨⟨tidy.names, tidy.views⟩, .refl⟩
  | takeError => exact ⟨⟨tidy.names, tidy.views⟩, .refl⟩
  | takeErrorElsewhere =>
    rw [step_takeErrorElsewhere]
    exact .refl tidy
  | extract object strategies view =>
    refine of_withObject? (.refl tidy) fun r bound => ?_
    exact follows_extract tidy (mem_hands_of_bind bound) strategies view
  | enterExtract object view =>
    refine of_withObject? (.refl tidy) fun r bound => ?_
    exact follows_enterExtract tidy (mem_hands_of_bind bound) view
  | unguard view => exact of_withView (.refl tidy) fun old found => follows_unguard tidy found
  | dropGuard view => exact of_withView (.refl tidy) fun old found => follows_dropGuard tidy found
  | releaseView view | enterRelease view =>
    cases view with
    | none => exact .refl tidy
    | some view =>
      exact of_withView (.refl tidy) fun old found => follows_releaseStored tidy found
  | cycle object times =>
    refine of_withObject? (.refl tidy) fun r bound => ?_
    exact follows_cycles tidy (mem_hands_of_bind bound) times
  | recreate data length dtype runtime as =>
    refine of_withObject? (.refl tidy) fun r bound => ?_
    exact follows_recreate tidy data length (mem_hands_of_bind bound) runtime as
  | enterRecreate data size dtype as =>
    refine of_withObject? (.refl tidy) fun r bound => ?_
    exact follows_enterRecreate tidy data size (mem_hands_of_bind bound) as
  | elementDescriptor object as =>
    exact of_withObject (.refl tidy) fun r found =>
      follows_answered tidy as (moves_elementDescriptor (mem_hands found))
  | recordKind as => exact follows_answered tidy as (moves_recordKind _)
  | combine kind dtype as =>
    exact of_withObject (.refl tidy) fun kind _ => of_withObject (.refl tidy) fun dtype _ =>
      follows_answered tidy as (moves_combine _ kind dtype)
  | array data descr as =>
    refine of_withObject (.refl tidy) fun descr found => follows_answered tidy as ?_
    exact (moves_retain (.of_mem (mem_hands found))).trans (moves_array _ data descr)
  | item object index as =>
    exact of_withObject (.refl tidy) fun r found =>
      follows_answered tidy as (moves_item _ index (mem_hands found))
  | install =>
    have same : s.host.install.1.heap = s.heap := by
      unfold Host.install
      split <;> rfl
    refine ⟨⟨tidy.names, tidy.views⟩, ?_⟩
    show Moves s.custody ⟨s.host.install.1.heap, s.hands, 0, s.held⟩
    rw [same]
    exact .refl
  | enableTracking | track | resetTracking => cases moving
  | references object | describe object | numericKind object | exports object | readSegment object
  | recordBytes object | recordField object | descriptor object =>
    exact of_withObject (.refl tidy) fun _ _ => .refl tidy
  | showView view => exact of_withView (.refl tidy) fun _ _ => .refl tidy
  | hasRuntime | isTracking | live | report => exact .refl tidy

end Session

end NativeBridge
