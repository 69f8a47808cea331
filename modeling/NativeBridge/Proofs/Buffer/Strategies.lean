import NativeBridge.Proofs.Custody.Basic
import NativeBridge.Proofs.Heap.Lending

/-! Strategies tried in order.

    What a strategy yields depends on the contents of objects only, so it yields the same whatever
    was tried before. A failing attempt leaves the heap as it was, but for an export that its
    exporter does not take back (`Heap.acquire_of_none`); a successful one leaves one reference and
    the export of its view (`Heap.acquire_of_some`). So an extraction comes to what the first
    strategy that succeeds would come to alone (`Heap.extract_tries_in_order`). -/

namespace NativeBridge

namespace Heap

variable {h h' : Heap} {r data : Ref} {s : Strategy} {v : View} {strategies : List Strategy}

/-- No export of the object is lost: it takes them back, if it has any. -/
def TakesBack (h : Heap) (r : Ref) : Prop := ∀ e ∈ h.exporter? r, e.releases = true

instance (h : Heap) (r : Ref) : Decidable (h.TakesBack r) :=
  inferInstanceAs (Decidable (∀ e ∈ h.exporter? r, e.releases = true))

theorem takesBack_congr (same : h'.body? r = h.body? r) : h'.TakesBack r ↔ h.TakesBack r := by
  rw [TakesBack, TakesBack, exporter?_congr same]

/-- The heap with the export that a view taken by this strategy has. -/
def exported (h : Heap) (r : Ref) : Strategy → Heap
  | .current => h.lock r
  | .legacy => h

/-! ### One attempt -/

/-- What a strategy yields is read off the contents of objects. -/
theorem acquire_snd_congr (same : ∀ t, h'.body? t = h.body? t) (r : Ref) (s : Strategy) :
    (h'.acquire r s).2 = (h.acquire r s).2 := by
  cases s with
  | current =>
    rw [acquire, acquire, acquireCurrent, acquireCurrent, exporter?_congr (same r)]
    cases h.exporter? r with
    | none => rfl
    | some e =>
      by_cases refused : e.status ≠ 0
      · simp only [if_pos refused]
      · by_cases unusable : e.length < 0 ∨ e.start = .null
        · simp only [if_neg refused, if_pos unusable]
        · simp only [if_neg refused, if_neg unusable]
  | legacy =>
    have ranges : h'.windowRange = h.windowRange :=
      funext fun w => windowRange_congr w fun base _ => same base
    rw [acquire, acquire, acquireLegacy, acquireLegacy, window?_congr (same r), ranges]
    cases (h.window? r).bind h.windowRange <;> rfl

theorem acquire_snd_retain (h : Heap) (r t : Ref) (s : Strategy) :
    ((h.retain t).acquire r s).2 = (h.acquire r s).2 :=
  acquire_snd_congr (body?_retain h t) r s

theorem acquire_snd_locked (h : Heap) (r t : Ref) (n : Nat) (s : Strategy) :
    ((h.locked t n).acquire r s).2 = (h.acquire r s).2 :=
  acquire_snd_congr (fun u => body?_locked h t u n) r s

/-- A failing attempt leaves nothing but an export that is not taken back. -/
theorem acquire_of_none (failed : (h.acquire r s).2 = none) :
    ∃ n : Nat, (h.TakesBack r → n = 0) ∧ h.acquire r s = (h.locked r n, none) := by
  suffices left : ∃ n : Nat, (h.TakesBack r → n = 0) ∧ (h.acquire r s).1 = h.locked r n from
    left.imp fun n p => ⟨p.1, Prod.ext p.2 failed⟩
  have nothing : ∃ n : Nat, (h.TakesBack r → n = 0) ∧ h = h.locked r n :=
    ⟨0, fun _ => rfl, (locked_zero h r).symm⟩
  cases s with
  | current =>
    rw [acquire, acquireCurrent] at failed ⊢
    split
    · exact nothing
    · rename_i e exporter
      split
      · exact nothing
      · dsimp only
        split
        · by_cases back : e.releases = true
          · rw [if_pos back, unlock_lock]
            exact nothing
          · rw [if_neg back]
            exact ⟨1, fun takes => absurd (takes e exporter) back, rfl⟩
        · rename_i refused unusable
          simp [exporter, refused, unusable] at failed
  | legacy =>
    rw [acquire, acquireLegacy] at failed ⊢
    split
    · exact nothing
    · rename_i range
      simp [range] at failed

/-- A successful attempt leaves one reference, and the export of its view. -/
theorem acquire_of_some (taken : (h.acquire r s).2 = some v) :
    h.acquire r s = ((h.exported r s).retain r, some v) ∧
      v.owner = some r ∧ (v.isLegacy = true ↔ s = .legacy) := by
  suffices left : (h.acquire r s).1 = (h.exported r s).retain r ∧
      v.owner = some r ∧ (v.isLegacy = true ↔ s = .legacy) from
    ⟨Prod.ext left.1 taken, left.2⟩
  cases s with
  | current =>
    rw [acquire, acquireCurrent] at taken ⊢
    split at taken
    · cases taken
    · split at taken
      · cases taken
      · dsimp only at taken
        split at taken
        · cases taken
        · rename_i refused unusable
          cases taken
          simp [refused, unusable, exported]
  | legacy =>
    rw [acquire, acquireLegacy] at taken ⊢
    split at taken
    · cases taken
    · cases taken
      simp [exported]

theorem exported_locked (h : Heap) (r : Ref) (n : Nat) (s : Strategy) :
    (h.locked r n).exported r s = (h.exported r s).locked r n := by
  cases s with
  | current => rw [exported, exported, lock_eq, lock_eq, locked_locked, locked_locked, add_comm]
  | legacy => rfl

theorem exported_retain (h : Heap) (r : Ref) (s : Strategy) :
    (h.retain r).exported r s = (h.exported r s).retain r := by
  cases s with
  | current => rw [exported, exported, lock_eq, lock_eq, retain_locked]
  | legacy => rfl

theorem Owned.exported (owned : h.Owned) (r : Ref) (s : Strategy) : (h.exported r s).Owned := by
  cases s with
  | current => exact owned.locked r 1
  | legacy => exact owned

theorem Room.exported {n : Nat} (room : h.Room n) (r : Ref) (s : Strategy) :
    (h.exported r s).Room n := by
  cases s with
  | current => exact room.locked r 1
  | legacy => exact room

/-! ### Attempts in order -/

theorem acquireFirst_of_none (failed : ∀ s ∈ strategies, (h.acquire r s).2 = none) :
    ∃ n : Nat, (h.TakesBack r → n = 0) ∧ h.acquireFirst r strategies = (h.locked r n, none) := by
  induction strategies generalizing h with
  | nil => exact ⟨0, fun _ => rfl, by rw [acquireFirst, locked_zero]⟩
  | cons s rest ih =>
    obtain ⟨m, first, left⟩ := acquire_of_none (failed s List.mem_cons_self)
    have later : ∀ s ∈ rest, ((h.locked r m).acquire r s).2 = none := fun s mem => by
      rw [acquire_snd_locked]
      exact failed s (List.mem_cons_of_mem _ mem)
    obtain ⟨n, others, last⟩ := ih later
    rw [takesBack_congr (body?_locked h r r m)] at others
    refine ⟨m + n, fun takes => ?_, ?_⟩
    · rw [first takes, others takes]
    · rw [acquireFirst, left]
      exact last.trans (by rw [locked_locked])

theorem acquireFirst_of_some
    (first : strategies.find? (fun s => (h.acquire r s).2.isSome) = some s) :
    ∃ (n : Nat) (v : View), (h.TakesBack r → n = 0) ∧ (h.acquire r s).2 = some v ∧
      h.acquireFirst r strategies = (((h.exported r s).retain r).locked r n, some v) := by
  induction strategies generalizing h with
  | nil => cases first
  | cons t rest ih =>
    rw [acquireFirst]
    cases attempt : (h.acquire r t).2 with
    | some v =>
      rw [List.find?_cons_of_pos (by rw [attempt]; rfl)] at first
      cases first
      obtain ⟨taken, _⟩ := acquire_of_some attempt
      exact ⟨0, v, fun _ => rfl, attempt, by rw [taken, locked_zero]⟩
    | none =>
      rw [List.find?_cons_of_neg (by rw [attempt]; exact Bool.false_ne_true)] at first
      obtain ⟨m, lost, left⟩ := acquire_of_none attempt
      have later : rest.find? (fun s => ((h.locked r m).acquire r s).2.isSome) = some s := by
        simpa only [acquire_snd_locked] using first
      obtain ⟨n, v, others, yields, last⟩ := ih later
      rw [takesBack_congr (body?_locked h r r m)] at others
      rw [acquire_snd_locked] at yields
      refine ⟨m + n, v, fun takes => by rw [lost takes, others takes], yields, ?_⟩
      rw [left]
      refine last.trans ?_
      rw [exported_locked, retain_locked, locked_locked]

/-! ### Extractions -/

theorem extract_of_unnamed {object : Option Ref}
    (unnamed : (h.getAttribute object dataAttribute).2 = none) (strategies : List Strategy) :
    h.extract object strategies = (h, .error .noDataAttribute) := by
  unfold getAttribute handOut at unnamed
  split at unnamed
  · rename_i missing
    simp [extract, getAttribute, handOut, missing]
  · cases unnamed

theorem getAttribute_of_some {object : Option Ref} {name : String}
    (named : (h.getAttribute object name).2 = some data) :
    h.getAttribute object name = (h.retain data, some data) := by
  unfold getAttribute handOut at named ⊢
  split at named
  · cases named
  · cases named
    rfl

/-- The reference that the attribute handed out goes back in the end, whatever was taken. -/
theorem extract_of_attempts {g : Heap} {object : Option Ref} {answer : Option View}
    (named : (h.getAttribute object dataAttribute).2 = some data)
    (tried : (h.retain data).acquireFirst data strategies = (g.retain data, answer))
    (owned : g.Owned) (room : g.Room 2) :
    h.extract object strategies = (g, answer.elim (.error .noBufferProtocol) .ok) := by
  rw [extract, getAttribute_of_some named]
  dsimp only
  rw [tried]
  cases answer <;> exact congrArg (·, _) (release_retain owned room data)

theorem extract_of_none (owned : h.Owned) (room : h.Room 2) {object : Option Ref}
    (named : (h.getAttribute object dataAttribute).2 = some data)
    (failed : ∀ s ∈ strategies, (h.acquire data s).2 = none) :
    ∃ n : Nat, (h.TakesBack data → n = 0) ∧
      h.extract object strategies = (h.locked data n, .error .noBufferProtocol) := by
  have later : ∀ s ∈ strategies, ((h.retain data).acquire data s).2 = none := fun s mem => by
    rw [acquire_snd_retain]
    exact failed s mem
  obtain ⟨n, lost, left⟩ := acquireFirst_of_none later
  rw [takesBack_congr (body?_retain h data data)] at lost
  rw [← retain_locked] at left
  exact ⟨n, lost, extract_of_attempts named left (owned.locked data n) (room.locked data n)⟩

theorem extract_of_some (owned : h.Owned) (room : h.Room 3) {object : Option Ref}
    (named : (h.getAttribute object dataAttribute).2 = some data)
    (first : strategies.find? (fun s => (h.acquire data s).2.isSome) = some s) :
    ∃ (n : Nat) (v : View), (h.TakesBack data → n = 0) ∧ (h.acquire data s).2 = some v ∧
      h.extract object strategies = (((h.exported data s).retain data).locked data n, .ok v) := by
  have later : strategies.find? (fun s => ((h.retain data).acquire data s).2.isSome) = some s := by
    simpa only [acquire_snd_retain] using first
  obtain ⟨n, v, lost, yields, taken⟩ := acquireFirst_of_some later
  rw [takesBack_congr (body?_retain h data data)] at lost
  rw [acquire_snd_retain] at yields
  rw [exported_retain, ← retain_locked] at taken
  exact ⟨n, v, lost, yields, extract_of_attempts named taken
    (((owned.exported data s).retain data).locked data n)
    (((room.exported data s).retain data).locked data n)⟩

theorem extract_alone (owned : h.Owned) (room : h.Room 3) {object : Option Ref}
    (named : (h.getAttribute object dataAttribute).2 = some data)
    (yields : (h.acquire data s).2 = some v) :
    h.extract object [s] = ((h.exported data s).retain data, .ok v) := by
  rw [← acquire_snd_retain h data data] at yields
  have taken : (h.retain data).acquireFirst data [s] =
      (((h.exported data s).retain data).retain data, some v) := by
    rw [acquireFirst, (acquire_of_some yields).1, exported_retain]
  exact extract_of_attempts named taken ((owned.exported data s).retain data)
    ((room.exported data s).retain data)

/-- Tried alone, a strategy decides what is answered. -/
theorem extract_snd_alone {object : Option Ref}
    (named : (h.getAttribute object dataAttribute).2 = some data) (s : Strategy) :
    (h.extract object [s]).2 = (h.acquire data s).2.elim (.error .noBufferProtocol) .ok := by
  rw [extract, getAttribute_of_some named, ← acquire_snd_retain h data data]
  dsimp only [acquireFirst]
  rcases (h.retain data).acquire data s with ⟨g, _ | v⟩ <;> rfl

/-- The object has one reference more, unless it is immortal, and the contents it had. -/
def Gains (h h' : Heap) (r : Ref) : Prop :=
  ∃ o o', h.get? r = some o ∧ h'.get? r = some o' ∧ o'.body = o.body ∧
    if o.count = .pinned then o'.count = .pinned else o'.count.toNat = o.count.toNat + 1

/-- A view is taken of an object that is there. -/
theorem live_of_acquire (yields : (h.acquire r s).2 = some v) : ∃ o, h.get? r = some o := by
  cases found : h.get? r with
  | some o => exact ⟨o, rfl⟩
  | none =>
    have missing : h.body? r = none := by rw [body?, found]; rfl
    cases s <;>
      simp [acquire, acquireCurrent, acquireLegacy, exporter?, window?, missing] at yields

theorem gains_taken (yields : (h.acquire r s).2 = some v) (n : Nat) :
    h.Gains (((h.exported r s).retain r).locked r n) r := by
  obtain ⟨o, found⟩ := live_of_acquire yields
  have there : ∃ p, (h.exported r s).get? r = some p ∧ p.body = o.body ∧ p.count = o.count := by
    cases s with
    | current =>
      rw [exported, lock, get?_update, if_pos rfl, found]
      exact ⟨_, rfl, rfl, rfl⟩
    | legacy => exact ⟨o, found, rfl, rfl⟩
  obtain ⟨p, present, body, count⟩ := there
  refine ⟨o, { p with count := p.count.retain, exports := p.exports + n }, found, ?_, body, ?_⟩
  · rw [locked, get?_update, if_pos rfl, get?_retain, if_pos rfl, present]
    rfl
  · rw [count]
    split
    · rename_i mark
      rw [mark, RefCount.retain_pinned]
    · rename_i mortal
      exact RefCount.toNat_retain mortal

/-- An extraction fails for want of the attribute exactly where there is none, whatever the
    strategies. Otherwise it comes to what the first strategy that succeeds alone comes to: the same
    view, one reference more to its owner, and the export of the view. What was tried before that,
    or in vain, is seen at most in exports that the object does not take back. -/
theorem extract_tries_in_order (owned : h.Owned) (room : h.Room 16) (object : Option Ref)
    (strategies : List Strategy) :
    let call := h.extract object strategies
    (call.2 = .error .noDataAttribute ↔ (h.getAttribute object dataAttribute).2 = none) ∧
      ((h.getAttribute object dataAttribute).2 = none → call.1 = h) ∧
      ∀ data, (h.getAttribute object dataAttribute).2 = some data →
        ∃ n : Nat, (h.TakesBack data → n = 0) ∧
          match strategies.find? fun s => (h.acquire data s).2.isSome with
          | none => call = (h.locked data n, .error .noBufferProtocol)
          | some s => ∃ v, (h.acquire data s).2 = some v ∧ v.owner = some data ∧
              h.extract object [s] = ((h.exported data s).retain data, .ok v) ∧
              call = (((h.exported data s).retain data).locked data n, .ok v) ∧
              h.Gains call.1 data := by
  intro call
  have none_of : (h.getAttribute object dataAttribute).2 = none →
      call = (h, .error .noDataAttribute) := fun unnamed => extract_of_unnamed unnamed strategies
  cases named : (h.getAttribute object dataAttribute).2 with
  | none => exact ⟨by simp [none_of named], fun _ => by rw [none_of named], nofun⟩
  | some data =>
    cases first : strategies.find? fun s => (h.acquire data s).2.isSome with
    | none =>
      have failed : ∀ s ∈ strategies, (h.acquire data s).2 = none := by
        simpa using List.find?_eq_none.mp first
      obtain ⟨n, lost, left⟩ := extract_of_none owned (room.mono (by decide)) named failed
      have answer : call = _ := left
      refine ⟨by simp [answer], nofun, ?_⟩
      rintro _ ⟨⟩
      rw [first]
      exact ⟨n, lost, answer⟩
    | some s =>
      have roomy : h.Room 3 := room.mono (by decide)
      obtain ⟨n, v, lost, yields, taken⟩ := extract_of_some owned roomy named first
      have answer : call = _ := taken
      refine ⟨by simp [answer], nofun, ?_⟩
      rintro _ ⟨⟩
      rw [first]
      exact ⟨n, lost, v, yields, (acquire_of_some yields).2.1,
        extract_alone owned roomy named yields, answer,
        answer ▸ gains_taken yields n⟩

/-- A legacy buffer whose exporter grants exports of nowhere, and never takes one back. -/
def grudging : Heap :=
  ⟨[some ⟨.pinned, 0, .recordKind⟩,
    some ⟨2, 0, .custom ⟨.window ⟨none, .block 0 0, 3, 0⟩, none, none, none,
      some ⟨0, .null, 8, 1, 0, 1, false⟩, none⟩⟩,
    some ⟨1, 0, .holder 1⟩], [[1, 2, 3]], .initial⟩

/-- Two exports are granted and lost before the buffer is taken the legacy way. -/
theorem extract_tries_in_order_of_grudging :
    let strategies : List Strategy := [.current, .current, .legacy]
    let v : View := ⟨.block 0 0, some 1, 3, 1, 1, 1, true⟩
    grudging.Owned ∧ grudging.Room 16 ∧ ¬grudging.TakesBack 1 ∧
      grudging.extract (some 2) [.legacy] = (grudging.retain 1, .ok v) ∧
      grudging.extract (some 2) strategies = ((grudging.retain 1).locked 1 2, .ok v) := by
  intro strategies v
  have owned : grudging.Owned := by decide
  have room : grudging.Room 16 := by decide
  obtain ⟨_, _, named⟩ := extract_tries_in_order owned room (some 2) strategies
  obtain ⟨n, _, first⟩ := named 1 rfl
  have found : strategies.find? (fun s => (grudging.acquire 1 s).2.isSome) = some .legacy := by
    decide
  rw [found] at first
  obtain ⟨u, yields, _, alone, call, _⟩ := first
  obtain rfl : u = v := Option.some.inj (yields.symm.trans (by decide))
  have lost : ((grudging.extract (some 2) strategies).1.get? 1).map (·.exports) = some 2 := by
    decide +kernel
  rw [call] at lost
  have count : (0 : Int) + n = 2 := Option.some.inj lost
  obtain rfl : n = 2 := by omega
  exact ⟨owned, room, by decide, alone, call⟩

end Heap

end NativeBridge
