import NativeBridge.Proofs.Session.Runs

/-! Who owns what in a session.

    An object has an owner for each name bound to it, for each view of it that is not released,
    for each reference taken by hand, and for each reference that an object on the heap holds.
    Along any balanced run the counts are the numbers of owners, and what is allocated is what can
    be reached. -/

namespace NativeBridge.Session

open Custody

variable {s : Session} {r : Ref}

/-- What the session itself holds on to: bound names, views not yet released (stored, overwritten
    or forgotten), and references taken by hand. -/
def roots (s : Session) : List Ref :=
  s.names.map (·.2) ++ s.held.filterMap (·.owner) ++ s.byHand

/-- Number of owners of an object, in the session and on the heap. -/
def owners (s : Session) (r : Ref) : Nat := s.roots.count r + s.heap.fields.count r

theorem allRefs_custody (s : Session) : s.custody.allRefs = s.roots := by
  have views : (s.held : Multiset View).bind (fun v => (v.refs : Multiset Ref)) =
      (s.held.filterMap (·.owner) : List Ref) := by
    rw [Multiset.coe_bind, List.filterMap_eq_flatMap_toList]
    rfl
  have perm : (s.hands ++ s.held.filterMap (·.owner)).Perm s.roots := by
    rw [hands, roots, List.append_assoc, List.append_assoc]
    exact List.perm_append_comm.append_left _
  rw [allRefs, custody, views, Multiset.coe_add, Multiset.coe_eq_coe]
  exact perm

theorem owners_custody (s : Session) (r : Ref) : s.custody.owners r = s.owners r := by
  rw [Custody.owners, allRefs_custody, Multiset.count_add, Multiset.coe_count, Multiset.coe_count]
  rfl

/-- Of an object that is not allocated there is no owner, and of a mortal one that is there is. -/
theorem allocated_iff_owned (acc : s.heap.Accounts s.custody.allRefs) (mortal : ¬s.heap.Pinned r) :
    (∃ o, s.heap.get? r = some o) ↔ 0 < s.owners r := by
  rw [← owners_custody]
  constructor
  · rintro ⟨o, ho⟩
    have count : o.count.toNat = s.custody.owners r :=
      acc.counted r o ho fun hp => mortal ⟨o, ho, hp⟩
    rw [← count]
    exact Nat.pos_of_ne_zero fun h0 => acc.positive r o ho (UInt32.toNat_inj.mp h0)
  · exact fun owned => acc.live r (Multiset.count_pos.mp owned)

/-! ### Immortal objects

    Within a step references come and go, so an object can have more owners amid a step than before
    and after it. A state amid a step is one that moves lead to from where the step starts, and from
    which moves lead on to where it ends. -/

/-- The run goes through this state in one of its steps. -/
def Meets (s : Session) (steps : List Step) (c : Custody) : Prop :=
  ∃ before step after, steps = before ++ step :: after ∧
    Moves (s.run before).1.custody c ∧ Moves c (s.run (before ++ [step])).1.custody

variable {steps : List Step} {c : Custody}

theorem Meets.here {step : Step} {rest : List Step} (first : Moves s.custody c)
    (second : Moves c (s.step step).1.custody) : s.Meets (step :: rest) c :=
  ⟨[], step, rest, rfl, first, second⟩

theorem Meets.later {step : Step} (meets : (s.step step).1.Meets steps c) :
    s.Meets (step :: steps) c := by
  obtain ⟨before, next, after, rfl, first, second⟩ := meets
  exact ⟨step :: before, next, after, rfl, first, second⟩

theorem pinned_step (tidy : s.Tidy) (sound : s.custody.Sound) {step : Step} (owed : s.Owed step)
    (pinned : s.heap.Pinned r) : (s.step step).1.heap.Pinned r := by
  cases counts : step.recount? with
  | some change =>
    rw [step_of_recount counts]
    exact pinned
  | none => exact pinned_moves (follows_step tidy step owed counts).moves sound.accounts pinned

/-- An object that a step makes immortal has as many owners as the mark says amid that step. -/
theorem owners_of_pinned_step (tidy : s.Tidy) (sound : s.custody.Sound) {step : Step}
    (owed : s.Owed step) (mortal : ¬s.heap.Pinned r) (pinned : (s.step step).1.heap.Pinned r) :
    ∃ c, Moves s.custody c ∧ Moves c (s.step step).1.custody ∧ c.owners r = 2 ^ 32 - 1 := by
  cases counts : step.recount? with
  | some change =>
    rw [step_of_recount counts] at pinned
    exact absurd pinned mortal
  | none =>
    exact exists_owners_of_pinned_moves (follows_step tidy step owed counts).moves sound.accounts
      mortal pinned

theorem pinned_run (tidy : s.Tidy) (sound : s.custody.Sound) (balanced : s.Balanced steps)
    (pinned : s.heap.Pinned r) : (s.run steps).1.heap.Pinned r := by
  induction steps generalizing s with
  | nil => exact pinned
  | cons step rest ih =>
    obtain ⟨owed, later⟩ := balanced
    exact ih (tidy_step tidy step) (sound_step tidy sound owed) later
      (pinned_step tidy sound owed pinned)

/-- An object that is immortal in the end was so from the start, or had as many owners as the mark
    says in a state that the run goes through. -/
theorem owners_of_pinned_run (tidy : s.Tidy) (sound : s.custody.Sound)
    (balanced : s.Balanced steps) (pinned : (s.run steps).1.heap.Pinned r) :
    s.heap.Pinned r ∨ ∃ c, s.Meets steps c ∧ c.owners r = 2 ^ 32 - 1 := by
  induction steps generalizing s with
  | nil => exact .inl pinned
  | cons step rest ih =>
    obtain ⟨owed, later⟩ := balanced
    rcases ih (tidy_step tidy step) (sound_step tidy sound owed) later pinned with
      first | ⟨c, meets, owners⟩
    · by_cases mortal : s.heap.Pinned r
      · exact .inl mortal
      · obtain ⟨c, before, after, owners⟩ := owners_of_pinned_step tidy sound owed mortal first
        exact .inr ⟨c, .here before after, owners⟩
    · exact .inr ⟨c, meets.later, owners⟩

/-- Whatever has as many owners as the mark says on the way is immortal in the end. -/
theorem pinned_of_meets (tidy : s.Tidy) (sound : s.custody.Sound) (balanced : s.Balanced steps)
    (meets : s.Meets steps c) (owners : c.owners r = 2 ^ 32 - 1) :
    (s.run steps).1.heap.Pinned r := by
  obtain ⟨before, step, after, rfl, first, second⟩ := meets
  rw [← List.singleton_append, ← List.append_assoc] at balanced ⊢
  obtain ⟨start, rest⟩ := balanced_append balanced
  have acc := accounts_moves first (sound_run tidy sound (balanced_append start).1).accounts
  rw [run_append]
  exact pinned_run (tidy_run tidy _) (sound_run tidy sound start) rest
    (pinned_moves second acc (pinned_of_owners acc owners))

/-! ### From the start -/

theorem pinned_opened_iff (runtime : Option Services) (census : Census) :
    (opened runtime census).heap.Pinned r ↔ r = Heap.recordKind := by
  constructor
  · rintro ⟨o, found, _⟩
    cases r with
    | zero => rfl
    | succ r => simp [opened, heap, Heap.get?, Heap.initial] at found
  · rintro rfl
    exact ⟨_, rfl, rfl⟩

/-- Along a balanced run the count of a mortal object is the number of its owners, and it is
    allocated exactly while it has one; and what is allocated at all is what can be reached from the
    session or from immortal objects.

    Immortal are the record kind and whatever had `2 ^ 32 - 1` owners on the way. So if no other
    object ever has that many, each of them has as many references as owners, and it is allocated
    exactly while it has one, which is while the session reaches it. -/
theorem count_eq_owners (runtime : Option Services) (census : Census) {steps : List Step}
    (balanced : (opened runtime census).Balanced steps) :
    let s := ((opened runtime census).run steps).1
    (∀ r o, s.heap.get? r = some o → ¬s.heap.Pinned r → o.count.toNat = s.owners r) ∧
      (∀ r, ¬s.heap.Pinned r → ((∃ o, s.heap.get? r = some o) ↔ 0 < s.owners r)) ∧
      (∀ r, (∃ o, s.heap.get? r = some o) ↔
        s.heap.Reaches (fun t => t ∈ s.roots ∨ s.heap.Pinned t) r) ∧
      (∀ r, s.heap.Pinned r ↔ r = Heap.recordKind ∨
        ∃ c, (opened runtime census).Meets steps c ∧ c.owners r = 2 ^ 32 - 1) ∧
      ((∀ c r, (opened runtime census).Meets steps c → r ≠ Heap.recordKind →
        c.owners r ≠ 2 ^ 32 - 1) → ∀ r, r ≠ Heap.recordKind →
          (∀ o, s.heap.get? r = some o → o.count.toNat = s.owners r) ∧
          ((∃ o, s.heap.get? r = some o) ↔ 0 < s.owners r) ∧
          ((∃ o, s.heap.get? r = some o) ↔ s.heap.Reaches (· ∈ s.roots) r)) := by
  intro s
  have tidy := tidy_opened runtime census
  have sound := sound_opened runtime census
  have acc : s.heap.Accounts s.custody.allRefs := (sound_run tidy sound balanced).accounts
  have mem : ∀ t, t ∈ s.custody.allRefs ↔ t ∈ s.roots := fun t => by rw [allRefs_custody]; rfl
  have counted : ∀ r o, s.heap.get? r = some o → ¬s.heap.Pinned r →
      o.count.toNat = s.owners r := by
    intro r o ho mortal
    rw [← owners_custody]
    exact acc.counted r o ho fun hp => mortal ⟨o, ho, hp⟩
  have marked : ∀ r, s.heap.Pinned r ↔ r = Heap.recordKind ∨
      ∃ c, (opened runtime census).Meets steps c ∧ c.owners r = 2 ^ 32 - 1 := by
    intro r
    rw [← pinned_opened_iff runtime census]
    constructor
    · exact owners_of_pinned_run tidy sound balanced
    · rintro (pinned | ⟨c, meets, owners⟩)
      · exact pinned_run tidy sound balanced pinned
      · exact pinned_of_meets tidy sound balanced meets owners
  refine ⟨counted, fun r => allocated_iff_owned acc, ?_, marked, ?_⟩
  · intro r
    constructor
    · rintro ⟨o, ho⟩
      simpa only [mem] using acc.reaches ho
    · intro reached
      refine acc.allocated reached fun t ht => ?_
      rcases ht with ht | ⟨o, ho, _⟩
      · exact acc.owned ((mem t).mpr ht)
      · exact ⟨o, ho⟩
  · intro below r other
    have only : ∀ t, s.heap.Pinned t → t = Heap.recordKind := by
      intro t pinned
      by_contra different
      obtain ⟨c, meets, owners⟩ := ((marked t).mp pinned).resolve_left different
      exact below c t meets different owners
    have mortal : ¬s.heap.Pinned r := fun pinned => other (only r pinned)
    refine ⟨fun o ho => counted r o ho mortal, allocated_iff_owned acc mortal, ?_⟩
    constructor
    · rintro ⟨o, ho⟩
      simpa only [mem] using acc.reaches_of_mortal only ho other
    · intro reached
      exact acc.allocated reached fun t ht => acc.owned ((mem t).mpr ht)

/-- Three bytes that lost their name live on: a holder, a view and a hand each own them. -/
theorem count_eq_owners_of_shared_bytes :
    let steps : List Step :=
      [.make (.bytes [1, 2, 3]) (some "b"), .make (.holder "b") (some "h"),
        .extract (some "h") Strategy.standard (some "v"), .retain (some "b"), .retain (some "b"),
        .release (some "b"), .drop "b"]
    let s := ((opened none .initial).run steps).1
    (opened none .initial).Balanced steps ∧
      (∀ c r, (opened none .initial).Meets steps c → r ≠ Heap.recordKind →
        c.owners r ≠ 2 ^ 32 - 1) ∧
      s.heap.get? 1 = some ⟨3, 1, .bytes [1, 2, 3]⟩ ∧ s.owners 1 = 3 ∧
      s.heap.Reaches (· ∈ s.roots) 1 := by
  intro steps s
  have balanced : (opened none .initial).Balanced steps := by decide +kernel
  have slots : s.heap.slots = [some ⟨.pinned, 0, .recordKind⟩, some ⟨3, 1, .bytes [1, 2, 3]⟩,
      some ⟨1, 0, .holder 1⟩] := by decide +kernel
  have only : ∀ t, s.heap.Pinned t → t = Heap.recordKind := by
    rintro t ⟨o, ho, hp⟩
    rw [Heap.get?, slots] at ho
    rcases t with _ | _ | _ | t
    · rfl
    · cases ho
      exact absurd hp (by decide)
    · cases ho
      exact absurd hp (by decide)
    · cases ho
  have found : s.heap.get? 1 = some ⟨3, 1, .bytes [1, 2, 3]⟩ := by
    rw [Heap.get?, slots]
    rfl
  obtain ⟨_, _, _, marked, below⟩ := count_eq_owners none .initial balanced
  have few : ∀ c r, (opened none .initial).Meets steps c → r ≠ Heap.recordKind →
      c.owners r ≠ 2 ^ 32 - 1 := fun c r meets other owners =>
    other (only r ((marked r).mpr (.inr ⟨c, meets, owners⟩)))
  obtain ⟨count, _, reached⟩ := below few 1 (by decide)
  exact ⟨balanced, few, found, (count _ found).symm, reached.mp ⟨_, found⟩⟩

end NativeBridge.Session
