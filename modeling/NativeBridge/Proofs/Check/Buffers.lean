import NativeBridge.Proofs.Buffer.Strategies
import NativeBridge.Proofs.Check.Basic

/-! The check of taking and releasing buffers.

    A view of the check's own bytes costs one reference and one export, and releasing it gives both
    back, so with both helpers the thousand cycles leave the host as it was
    (`Check.extractOften_of_helpers`). A release that does nothing leaves one of each for every
    cycle (`Check.extractOften_of_leak`): the check fails over the exports, and the bytes stay
    alive. Code that takes no buffer fails in the first cycle. -/

namespace NativeBridge

namespace RefCount

theorem retain_ofNat {n : Nat} (small : n < 4294967295) :
    retain (.ofNat n) = .ofNat (n + 1) := by
  have size : (UInt32.ofNat n).toNat = n := by
    rw [UInt32.toNat_ofNat']
    exact Nat.mod_eq_of_lt (by omega)
  have mortal : (UInt32.ofNat n : RefCount) ≠ pinned := by
    intro top
    have := congrArg UInt32.toNat top
    rw [size] at this
    exact absurd this small.ne
  rw [retain, if_neg mortal]
  exact (UInt32.ofNat_add n 1).symm

end RefCount

namespace Heap

variable {h : Heap} {r holder : Ref} {data : List UInt8} {w : Window Ref Address}

/-! ### Extractions from known objects -/

theorem getAttribute_of_holder (found : h.body? holder = some (.holder r)) :
    h.getAttribute (some holder) dataAttribute = (h.retain r, some r) := by
  simp [getAttribute, attribute?, found, Body.attributes?, handOut]

/-- A bytes object shows all it has, for one reference and one export. -/
theorem extract_of_bytes (named : h.body? holder = some (.holder r))
    (found : h.body? r = some (.bytes data)) (lends : ((h.lock r).retain r).Lends r) :
    h.extract (some holder) Strategy.standard =
      ((h.lock r).retain r, .ok ⟨.object r 0, some r, data.length, 1, 1, 1, false⟩) := by
  have body : (h.retain r).body? r = some (.bytes data) := (body?_retain h r r).trans found
  have exporter : (h.retain r).exporter? r =
      some ⟨0, .object r 0, data.length, 1, 1, 1, true⟩ := by simp [exporter?, body]
  have order : (h.retain r).lock r = (h.lock r).retain r := (retain_locked h r 1).symm
  have some_ : ¬(data.length : Int) < 0 := by omega
  have tried : (h.retain r).acquireFirst r Strategy.standard = (((h.lock r).retain r).retain r,
      some ⟨.object r 0, some r, data.length, 1, 1, 1, false⟩) := by
    simp [Strategy.standard, acquireFirst, acquire, acquireCurrent, exporter, order, some_]
  rw [extract, getAttribute_of_holder named]
  dsimp only
  rw [tried]
  exact congrArg (·, _) lends.release_retain

theorem releaseView_of_bytes (found : h.body? r = some (.bytes data)) (start : Address)
    (length : Int) :
    (h.releaseView ⟨start, some r, length, 1, 1, 1, false⟩).1 = (h.unlock r).release r := by
  simp [releaseView, exporter?, found]

/-- A legacy buffer shows its window, for one reference. -/
theorem extract_of_window {start : Address} {length : Int}
    (named : h.body? holder = some (.holder r)) (found : h.body? r = some (.window w))
    (range : h.windowRange w = some (start, length)) (lends : (h.retain r).Lends r) :
    h.extract (some holder) Strategy.standard =
      (h.retain r, .ok ⟨start, some r, length, 1, 1, 1, true⟩) := by
  have body : (h.retain r).body? r = some (.window w) := (body?_retain h r r).trans found
  have same : (h.retain r).windowRange w = some (start, length) :=
    (windowRange_congr w fun base _ => body?_retain h r base).trans range
  have tried : (h.retain r).acquireFirst r Strategy.standard = ((h.retain r).retain r,
      some ⟨start, some r, length, 1, 1, 1, true⟩) := by
    simp [Strategy.standard, acquireFirst, acquire, acquireCurrent, acquireLegacy, exporter?,
      window?, body, Body.window?, same]
  rw [extract, getAttribute_of_holder named]
  dsimp only
  rw [tried]
  exact congrArg (·, _) lends.release_retain

theorem releaseView_of_legacy (r : Ref) (start : Address) (length : Int) :
    (h.releaseView ⟨start, some r, length, 1, 1, 1, true⟩).1 = h.release r := by
  simp [releaseView]

end Heap

namespace Check

variable {host : Host} {h g : Heap} {r : Ref} {k m : Nat} {code release : Code}

/-! ### The cycles -/

/-- A holder and its bytes, after `k` views were taken and not released. -/
def held (r : Ref) (k : Nat) : List (Ref × Object) :=
  [(r + 1, ⟨.fresh, 0, .holder r⟩), (r, ⟨.ofNat (k + 2), k, .bytes source⟩)]

/-- The view that each cycle takes. -/
def cycleView (r : Ref) : View := ⟨.object r 0, some r, source.length, 1, 1, 1, false⟩

theorem count_held (small : k ≤ cycles) : (UInt32.ofNat (k + 2)).toNat = k + 2 := by
  have limit : cycles = 1000 := rfl
  rw [UInt32.toNat_ofNat']
  exact Nat.mod_eq_of_lt (by omega)

theorem lends_held (grown : h.Grown (held r k) g) (small : k ≤ cycles) : g.Lends r := by
  have limit : cycles = 1000 := rfl
  have size := count_held small
  have room : pow2 32 = 4294967296 := rfl
  refine grown.lends (List.mem_cons_of_mem _ List.mem_cons_self) (fun none => ?_) ?_
  · have zero : (UInt32.ofNat (k + 2)).toNat = 0 := congrArg UInt32.toNat none
    omega
  · show (UInt32.ofNat (k + 2)).toNat < _
    omega

/-- A cycle takes one view of the bytes. -/
theorem held_taken (grown : h.Grown (held r k) g) (few : k < cycles) :
    g.extract (some (r + 1)) Strategy.standard = ((g.lock r).retain r, .ok (cycleView r)) ∧
      h.Grown (held r (k + 1)) ((g.lock r).retain r) := by
  have limit : cycles = 1000 := rfl
  have locked := grown.modify [(r + 1, _)] fun o => { o with exports := o.exports + 1 }
  have taken := locked.modify [(r + 1, _)] fun o => { o with count := o.count.retain }
  rw [RefCount.retain_ofNat (by omega)] at taken
  have more : h.Grown (held r (k + 1)) ((g.lock r).retain r) := taken
  exact ⟨Heap.extract_of_bytes (grown.body?_new List.mem_cons_self)
    (grown.body?_new (List.mem_cons_of_mem _ List.mem_cons_self)) (lends_held more few), more⟩

/-- A cycle goes on with what the release leaves. -/
theorem extractOften_succ {g : Heap}
    (taken : host.heap.extract (some (r + 1)) Strategy.standard = (g, .ok (cycleView r))) :
    extractOften (.helper .extractRecordData) release (r + 1) r host (m + 1) =
      extractOften (.helper .extractRecordData) release (r + 1) r
        (release.callRelease (host.withHeap g) (cycleView r)) m := by
  have called : (Code.helper .extractRecordData).callExtract host (some (r + 1)) .empty =
      (host.withHeap g, .object r 0, cycleView r) := by
    simp only [Code.callExtract, Host.extractRecordData, taken]
    rfl
  have start : ofAddress.same (.object r 0) (.object r 0) = true := beq_self_eq_true _
  have length : ofInt.same (cycleView r).length source.length = true := beq_self_eq_true _
  rw [extractOften, called]
  dsimp only
  rw [if_neg nofun, expect_of_same start, andThen, expect_of_same length, andThen]

/-- A view that is released again leaves nothing. -/
theorem callRelease_of_helper (grown : h.Grown (held r 0) host.heap) :
    (Code.helper .releaseRecordBuffer).callRelease
      (host.withHeap ((host.heap.lock r).retain r)) (cycleView r) = host := by
  obtain ⟨_, more⟩ := held_taken grown (by decide)
  have bytes := more.body?_new (List.mem_cons_of_mem _ List.mem_cons_self)
  have back : (((host.heap.lock r).retain r).releaseView (cycleView r)).1 = host.heap := by
    rw [cycleView, Heap.releaseView_of_bytes bytes, Heap.unlock_retain_lock]
    exact (lends_held grown (Nat.zero_le _)).release_retain
  show (host.withHeap _).withHeap (((host.heap.lock r).retain r).releaseView (cycleView r)).1 = host
  rw [back]
  rfl

theorem extractOften_of_helpers (host : Host) (grown : h.Grown (held r 0) host.heap) (m : Nat) :
    extractOften (.helper .extractRecordData) (.helper .releaseRecordBuffer) (r + 1) r host m =
      (host, .ok ()) := by
  induction m with
  | zero => rfl
  | succ m ih =>
    obtain ⟨taken, _⟩ := held_taken grown (by decide)
    rw [extractOften_succ taken, callRelease_of_helper grown, ih]

/-- Each cycle without a release leaves one reference and one export. -/
theorem extractOften_of_leak (host : Host) (other : release ≠ .helper .releaseRecordBuffer)
    (grown : h.Grown (held r k) host.heap) (few : k + m ≤ cycles) :
    ∃ g, extractOften (.helper .extractRecordData) release (r + 1) r host m =
        (host.withHeap g, .ok ()) ∧ h.Grown (held r (k + m)) g := by
  induction m generalizing k host with
  | zero => exact ⟨host.heap, rfl, grown⟩
  | succ m ih =>
    obtain ⟨taken, more⟩ := held_taken grown (by omega)
    obtain ⟨g, others, all⟩ := ih (host.withHeap ((host.heap.lock r).retain r)) more (by omega)
    rw [extractOften_succ taken, callRelease_of_other other, others]
    exact ⟨g, rfl, by rwa [Nat.add_right_comm] at all⟩

/-- Code that takes no buffer fails in the first cycle. -/
theorem extractOften_of_other (host : Host) (other : code ≠ .helper .extractRecordData)
    (release : Code) (holder bytes : Ref) (m : Nat) :
    extractOften code release holder bytes host (m + 1) =
      fail host "extract_record_data" (.extract .noBufferProtocol) := by
  rw [extractOften, callExtract_of_other other]
  dsimp only
  rw [if_pos rfl]

/-! ### The thousand cycles -/

/-- The bytes that stay alive when none of their views is released. -/
def leaked (r : Ref) : Ref × Object := (r, ⟨1000, 1000, .bytes source⟩)

theorem releaseAll_held (grown : h.Grown (held r 0) g) :
    h.Grown [] (g.releaseAll [r + 1, r]) := by
  have again : RefCount.release (.ofNat (0 + 2)) = some .fresh := rfl
  obtain ⟨g₁, fell, left⟩ := grown.releaseAll_last [] rfl [r]
  obtain ⟨g₂, lowered, one⟩ := left.releaseAll_more [] again [r]
  rw [fell, Body.refs, List.singleton_append, lowered]
  exact one.release_leaf rfl rfl

theorem releaseAll_leaked (grown : h.Grown (held r cycles) g) :
    h.Grown [leaked r] (g.releaseAll [r + 1, r]) := by
  have again : RefCount.release (.ofNat (cycles + 2)) = some 1001 := rfl
  have once_more : RefCount.release 1001 = some 1000 := rfl
  obtain ⟨g₁, fell, left⟩ := grown.releaseAll_last [] rfl [r]
  obtain ⟨g₂, lowered, most⟩ := left.releaseAll_more [] again [r]
  obtain ⟨g₃, dropped, all⟩ := most.releaseAll_more [] once_more []
  rw [fell, Body.refs, List.singleton_append, lowered, dropped, Heap.releaseAll_nil]
  exact all

/-- The references to an object. -/
def references (host : Host) (r : Ref) : Int :=
  ((host.heap.get? r).map fun o => (o.count.toNat : Int)).getD 0

/-- The exports of an object. -/
def exports (host : Host) (r : Ref) : Int := ((host.heap.get? r).map (·.exports)).getD 0

theorem references_held (host : Host) (grown : h.Grown (held r k) host.heap)
    (small : k ≤ cycles) : references host r = (k + 2 : Nat) := by
  rw [references, grown.new _ (List.mem_cons_of_mem _ List.mem_cons_self), Option.map_some,
    Option.getD_some, count_held small]

theorem exports_held (host : Host) (grown : h.Grown (held r k) host.heap) :
    exports host r = k := by
  rw [exports, grown.new _ (List.mem_cons_of_mem _ List.mem_cons_self)]
  rfl

/-- The check makes a holder of new bytes and goes through the cycles. -/
theorem extractCurrent_made (extract release : Code) (host : Host) :
    let r := host.heap.slots.length
    ∃ g, host.heap.Grown (held r 0) g ∧
      extractCurrent extract release host = releasing [r + 1, r]
        (andThen (extractOften extract release (r + 1) r (host.withHeap g) cycles) fun host =>
          andThen (host, expect ofInt "extract_record_data" (exports host r) 0) fun host =>
            (host, expect ofInt "extract_record_data" (references host r) 2)) := by
  intro r
  have bytes := (Heap.Grown.refl host.heap).alloc (.bytes source)
  have made := (bytes.modify [] fun o => { o with count := o.count.retain }).alloc (.holder r)
  simp only [Heap.length_alloc, Heap.length_update] at made
  have all : host.heap.Grown (held r 0)
      (((host.heap.alloc (.bytes source)).1.retain r).alloc (.holder r)).1 := made
  refine ⟨_, all, ?_⟩
  have before : references (host.withHeap
      (((host.heap.alloc (.bytes source)).1.retain r).alloc (.holder r)).1) r = 2 :=
    references_held _ all (Nat.zero_le _)
  rw [← before]
  simp only [extractCurrent, Heap.newHolder, Heap.create, Body.refs, Heap.retainAll, List.foldl,
    Heap.alloc_snd, Heap.length_retain, Heap.length_alloc]
  rfl

theorem extractCurrent_of_helpers (host : Host) :
    ∃ g, extractCurrent (.helper .extractRecordData) (.helper .releaseRecordBuffer) host =
        (host.withHeap g, .ok ()) ∧ host.heap.Grown [] g := by
  obtain ⟨g, made, whole⟩ := extractCurrent_made (.helper .extractRecordData)
    (.helper .releaseRecordBuffer) host
  have unexported : ofInt.same ((0 : Nat) : Int) 0 = true := rfl
  rw [whole, extractOften_of_helpers (host.withHeap g) made, andThen,
    exports_held (host.withHeap g) made, expect_of_same unexported, andThen,
    references_held (host.withHeap g) made (Nat.zero_le _)]
  exact ⟨_, rfl, releaseAll_held made⟩

/-- Without a release the check finds a thousand exports. -/
theorem extractCurrent_of_leak (other : release ≠ .helper .releaseRecordBuffer) (host : Host) :
    ∃ g, extractCurrent (.helper .extractRecordData) release host =
        (host.withHeap g, .error (.mismatch "extract_record_data" "1000" "0")) ∧
      host.heap.Grown [leaked host.heap.slots.length] g := by
  obtain ⟨g, made, whole⟩ := extractCurrent_made (.helper .extractRecordData) release host
  obtain ⟨g₁, often, all⟩ := extractOften_of_leak (host.withHeap g) other made
    (Nat.zero_add cycles).le
  rw [Nat.zero_add] at all
  rw [whole, often, andThen, exports_held ((host.withHeap g).withHeap g₁) all]
  exact ⟨_, rfl, releaseAll_leaked all⟩

theorem extractCurrent_of_other (other : code ≠ .helper .extractRecordData) (release : Code)
    (host : Host) :
    ∃ g, extractCurrent code release host =
        fail (host.withHeap g) "extract_record_data" (.extract .noBufferProtocol) ∧
      host.heap.Grown [] g := by
  obtain ⟨g, made, whole⟩ := extractCurrent_made code release host
  have failed := extractOften_of_other (host.withHeap g) other release
    (host.heap.slots.length + 1) host.heap.slots.length 999
  have often : cycles = 999 + 1 := rfl
  rw [whole, often, failed]
  exact ⟨_, rfl, releaseAll_held made⟩

/-! ### The window -/

/-- A holder of a window into bytes. -/
def windowed (r : Ref) : List (Ref × Object) :=
  let shared := RefCount.fresh.retain
  [(r + 2, ⟨.fresh, 0, .holder (r + 1)⟩), (r + 1, ⟨shared, 0, .window ⟨some r, .null, 8, 4⟩⟩),
    (r, ⟨shared, 0, .bytes source⟩)]

theorem releaseAll_windowed (grown : h.Grown (windowed r) g) :
    h.Grown [] (g.releaseAll [r + 2, r + 1, r]) := by
  have again : RefCount.fresh.retain.release = some .fresh := rfl
  obtain ⟨g₁, fell₁, left₁⟩ := grown.releaseAll_last [] rfl [r + 1, r]
  obtain ⟨g₂, lowered₂, left₂⟩ := left₁.releaseAll_more [] again [r + 1, r]
  obtain ⟨g₃, fell₃, left₃⟩ := left₂.releaseAll_last [] rfl [r]
  obtain ⟨g₄, lowered₄, left₄⟩ := left₃.releaseAll_more [] again [r]
  rw [fell₁, Body.refs, List.singleton_append, lowered₂, fell₃, Body.refs, Option.toList_some,
    List.singleton_append, lowered₄]
  exact left₄.release_leaf rfl rfl

/-- The window is shown from its offset on, for one more reference to it. -/
theorem windowed_taken (grown : h.Grown (windowed r) g) :
    g.Lends (r + 1) ∧ g.extract (some (r + 2)) Strategy.standard =
      (g.retain (r + 1), .ok ⟨.object r 4, some (r + 1), 8, 1, 1, 1, true⟩) := by
  have window := grown.body?_new (List.mem_cons_of_mem _ List.mem_cons_self)
  have base := grown.body?_new (List.mem_cons_of_mem _ (List.mem_cons_of_mem _ List.mem_cons_self))
  have range : g.windowRange ⟨some r, .null, 8, 4⟩ = some (.object r 4, 8) := by
    have length : source.length = 32 := by decide
    simp [Heap.windowRange, Heap.window?, Heap.readSegment, base, Body.window?, length,
      Address.advance]
  have taken := grown.modify [(r + 2, _)] fun o => { o with count := o.count.retain }
  have lends : (g.retain (r + 1)).Lends (r + 1) :=
    taken.lends (List.mem_cons_of_mem _ List.mem_cons_self)
      (by decide : RefCount.fresh.retain.retain ≠ 0)
      (by decide : RefCount.fresh.retain.retain.toNat < pow2 32 - 2)
  refine ⟨?_, Heap.extract_of_window (grown.body?_new List.mem_cons_self) window range lends⟩
  exact grown.lends (List.mem_cons_of_mem _ List.mem_cons_self)
    (by decide : RefCount.fresh.retain ≠ 0)
    (by decide : RefCount.fresh.retain.toNat < pow2 32 - 2)

/-- The check makes a holder of a window into new bytes. -/
theorem extractWindow_made (extract release : Code) (host : Host) :
    let r := host.heap.slots.length
    ∃ g, host.heap.Grown (windowed r) g ∧
      extractWindow extract release host =
        let (host, start, view) := extract.callExtract (host.withHeap g) (some (r + 2)) .empty
        releasing [r + 2, r + 1, r] <|
          andThen (host, expect ofAddress "extract_record_data" start (.object r 4)) fun host =>
            andThen (host, expect ofInt "extract_record_data" view.length 8) fun host =>
              (release.callRelease host view, .ok ()) := by
  intro r
  have base := (Heap.Grown.refl host.heap).alloc (.bytes source)
  have window := (base.modify [] fun o => { o with count := o.count.retain }).alloc
    (.window ⟨some r, .null, 8, 4⟩)
  have made := (window.modify [] fun o => { o with count := o.count.retain }).alloc
    (.holder (r + 1))
  simp only [Heap.length_alloc, Heap.length_update] at made
  refine ⟨_, made, ?_⟩
  simp only [extractWindow, Heap.newHolder, Heap.newWindow, Heap.create, Body.refs, Heap.retainAll,
    Option.toList_some, List.foldl, Heap.alloc_snd, Heap.length_retain, Heap.length_alloc]
  rfl

theorem extractWindow_of_helpers (host : Host) :
    ∃ g, extractWindow (.helper .extractRecordData) (.helper .releaseRecordBuffer) host =
        (host.withHeap g, .ok ()) ∧ host.heap.Grown [] g := by
  obtain ⟨g, made, whole⟩ := extractWindow_made (.helper .extractRecordData)
    (.helper .releaseRecordBuffer) host
  obtain ⟨lends, taken⟩ := windowed_taken made
  have start : ofAddress.same (.object host.heap.slots.length 4)
    (.object host.heap.slots.length 4) = true := beq_self_eq_true _
  have length : ofInt.same 8 8 = true := rfl
  have back := lends.release_retain
  rw [whole]
  simp only [Code.callExtract, Host.extractRecordData, Host.withHeap, taken, expect_of_same start,
    expect_of_same length, andThen, Code.callRelease, Host.releaseRecordBuffer]
  refine ⟨_, rfl, ?_⟩
  dsimp only
  rw [Heap.releaseView_of_legacy, back]
  exact releaseAll_windowed made

/-! ### Nothing to take -/

theorem extractNothing_of_helper (host : Host) :
    ∃ g, extractNothing (.helper .extractRecordData) host =
        ((host.withHeap g).takeError.1, .ok ()) ∧ host.heap.Grown [] g := by
  have made := (Heap.Grown.refl host.heap).alloc (.int 1)
  have int := Heap.body?_alloc_self host.heap (.int 1)
  have refused : (host.heap.alloc (.int 1)).1.extract (some host.heap.slots.length)
      Strategy.standard = ((host.heap.alloc (.int 1)).1, .error .noDataAttribute) := by
    refine Heap.extract_of_unnamed ?_ _
    simp [Heap.getAttribute, Heap.attribute?, int, Body.attributes?, Heap.handOut]
  have null : ofAddress.same .null .null = true := rfl
  refine ⟨_, ?_, made.release_leaf rfl rfl⟩
  simp only [extractNothing, Heap.alloc_snd, Code.callExtract, Host.extractRecordData,
    Host.withHeap, refused, expect_of_same null, andThen]
  rw [expectError_of_pending (Host.pending_setError ..), Host.takeError_setError]
  rfl

/-! ### The whole check -/

/-- What the check finds, by the codes it looks up. -/
def extractVerdict (find : String → Option Code) : CheckResult :=
  match find "extract_record_data", find "release_record_buffer" with
  | none, _ => .error (.missing "extract_record_data")
  | some _, none => .error (.missing "release_record_buffer")
  | some extract, some release =>
    if extract ≠ .helper .extractRecordData then
      .error (.failed "extract_record_data" (.extract .noBufferProtocol))
    else if release ≠ .helper .releaseRecordBuffer then
      .error (.mismatch "extract_record_data" "1000" "0")
    else .ok ()

/-- Buffers are taken, and the code that should release them does nothing. Only the helper itself
    takes views, so other code of this signature is a stand-in. -/
def Unreleased (find : String → Option Code) : Prop :=
  find "extract_record_data" = some (.helper .extractRecordData) ∧
    ∃ release ∈ find "release_record_buffer", release ≠ .helper .releaseRecordBuffer

instance (find : String → Option Code) : Decidable (Unreleased find) :=
  inferInstanceAs (Decidable (_ ∧ _))

/-- What the check leaves behind: the bytes of the cycles, where their views are not released. -/
def extractLeftover (find : String → Option Code) (r : Ref) : List (Ref × Object) :=
  if Unreleased find then [leaked r] else []

theorem ends_extractRecordData (host : Host) (table : ExportTable) :
    Ends host (extractLeftover table.get? host.heap.slots.length) (extractVerdict table.get?)
      (extractRecordData host table) := by
  rw [extractVerdict, extractLeftover]
  cases found : table.get? "extract_record_data" with
  | none =>
    rw [extractRecordData, lookup_of_none found, if_neg (by simp [Unreleased, found])]
    exact .kept (.refl host.heap)
  | some extract =>
    cases found' : table.get? "release_record_buffer" with
    | none =>
      rw [extractRecordData, lookup_of_some found, lookup_of_none found',
        if_neg (by simp [Unreleased, found'])]
      exact .kept (.refl host.heap)
    | some release =>
      have unreleased : Unreleased table.get? ↔
          extract = .helper .extractRecordData ∧ release ≠ .helper .releaseRecordBuffer := by
        simp [Unreleased, found, found']
      rw [extractRecordData, lookup_of_some found, lookup_of_some found',
        if_congr unreleased rfl rfl]
      dsimp only
      by_cases takes : extract = .helper .extractRecordData
      · subst takes
        by_cases gives : release = .helper .releaseRecordBuffer
        · subst gives
          obtain ⟨g₁, current, left₁⟩ := extractCurrent_of_helpers host
          obtain ⟨g₂, window, left₂⟩ := extractWindow_of_helpers (host.withHeap g₁)
          obtain ⟨g₃, nothing, left₃⟩ :=
            extractNothing_of_helper ((host.withHeap g₁).withHeap g₂)
          have all : host.heap.Grown [] g₃ := (left₁.trans left₂).trans left₃
          rw [current, andThen, window, andThen, nothing, if_neg fun both => both.2 rfl,
            if_neg (not_not_intro rfl), if_neg (not_not_intro rfl)]
          exact .emptied all
        · obtain ⟨g, current, left⟩ := extractCurrent_of_leak gives host
          rw [current, andThen, if_pos ⟨rfl, gives⟩, if_neg (not_not_intro rfl), if_pos gives]
          exact .kept left
      · obtain ⟨g, current, left⟩ := extractCurrent_of_other takes release host
        rw [current, if_neg fun both => takes both.1]
        exact .failed left (if_pos takes)

end Check

end NativeBridge
