import NativeBridge.Proofs.Session.Runs

/-! What the views of a session show.

    A view that is not released keeps its owner alive, and with it the memory it shows. Where that
    is the contents of a bytes object, either the owner itself or the base of a legacy buffer, the
    window lies inside them and reads the same bytes as when the view was taken. -/

namespace NativeBridge

/-! ### Views of bytes objects -/

/-- The memory of the view is that of `b`: its owner, or the base of the legacy buffer it is of. -/
def View.Over (v : View) (h : Heap) (b : Ref) : Prop :=
  ∃ owner, v.owner = some owner ∧
    if v.isLegacy then ∃ w, h.window? owner = some w ∧ w.base = some b else owner = b

/-- The view shows a window inside the contents of the bytes object `b`, and reads it there. -/
def View.Shows (v : View) (h : Heap) (b : Ref) (data : List UInt8) : Prop :=
  h.data? b = some data ∧ ∃ offset : Nat, v.start = .object b offset ∧
    offset + v.length ≤ data.length ∧ v.bytes h = (data.drop offset).take v.length.toNat

namespace Heap

variable {h h' : Heap} {r b : Ref} {v : View} {data : List UInt8}

theorem outside_of_body? (outside : h.Outside) {body : Body} (found : h.body? r = some body) :
    body.Outside := by
  obtain ⟨o, ho, rfl⟩ := body?_eq_some_iff.mp found
  exact outside r o ho

theorem bytes_eq {offset : Nat} (bytes : h.data? b = some data)
    (start : v.start = .object b offset) :
    v.bytes h = (data.drop offset).take v.length.toNat := by
  rw [View.bytes, read, start, memory, bytes, Option.getD_some]

/-- A window over a bytes object starts at its offset and is cut at the end. -/
theorem range_of_base {w : Window Ref Address} {start : Address} {length : Int}
    (base : w.base = some b) (bytes : h.body? b = some (.bytes data))
    (range : h.windowRange w = some (start, length)) :
    start = .object b w.offset.toNat ∧ w.offset.toNat + length ≤ data.length := by
  unfold windowRange at range
  rw [base] at range
  simp only [readSegment, bytes, ne_eq, not_true_eq_false, if_false] at range
  split at range
  · cases range
  · split at range
    · cases range
    · rename_i usable
      simp only [not_or] at usable
      cases range
      refine ⟨by rw [Address.advance, Nat.zero_add], ?_⟩
      split <;> omega

/-- A view whose memory is that of a bytes object shows a window inside it. -/
theorem shows_of_over (reads : v.Reads h) (upon : v.Over h b) (bytes : h.data? b = some data) :
    v.Shows h b data := by
  obtain ⟨owner, howner, source⟩ := upon
  have body := body?_of_data? bytes
  have answered := reads owner howner
  split at source
  · rename_i legacy
    obtain ⟨w, hw, base⟩ := source
    rw [if_pos legacy, hw, Option.bind_some] at answered
    obtain ⟨start, inside⟩ := range_of_base base body answered
    exact ⟨bytes, _, start, inside, bytes_eq bytes start⟩
  · rename_i current
    subst source
    rw [if_neg current] at answered
    obtain ⟨e, he, start, length, _⟩ := answered
    rw [exporter?, body] at he
    cases he
    refine ⟨bytes, 0, start.symm, ?_, bytes_eq bytes start.symm⟩
    rw [← length]
    simp

/-- A segment is inside an object only if it is all of a bytes object. -/
theorem bytes_of_readSegment (outside : h.Outside) {size : Int} {offset : Nat} {segment : Int}
    (answered : h.readSegment r segment = some (size, .object b offset)) :
    r = b ∧ ∃ data, h.data? b = some data := by
  unfold readSegment at answered
  split at answered
  · rename_i data body
    split at answered
    · cases answered
    · cases answered
      exact ⟨rfl, data, by rw [data?, body]⟩
  · rename_i w body
    split at answered
    · cases answered
    · have start := congrArg Prod.snd (Option.some.inj answered)
      exact absurd start (outside_of_body? outside body b offset)
  · rename_i c body
    obtain ⟨s, hs, same⟩ := Option.map_eq_some_iff.mp answered
    have start := congrArg Prod.snd same
    exact absurd start ((outside_of_body? outside body).2.2 s hs b offset)
  · cases answered

theorem outside_of_window? (outside : h.Outside) {w : Window Ref Address}
    (found : h.window? r = some w) : w.start.Outside := by
  obtain ⟨body, hbody, hw⟩ := Option.bind_eq_some_iff.mp found
  have clean := outside_of_body? outside hbody
  cases body with
  | window w' =>
    cases hw
    exact clean
  | custom c => exact clean.1 w hw
  | _ => cases hw

theorem over_of_exporter? (outside : h.Outside) {e : Exporter Address} {offset : Nat}
    (found : h.exporter? r = some e) (start : e.start = .object b offset) :
    r = b ∧ ∃ data, h.data? b = some data := by
  unfold exporter? at found
  split at found
  · rename_i data body
    cases found
    cases start
    exact ⟨rfl, data, by rw [data?, body]⟩
  · rename_i c body
    exact absurd start ((outside_of_body? outside body).2.1 e found b offset)
  · cases found

theorem over_of_windowRange (outside : h.Outside) {w : Window Ref Address} {offset : Nat}
    {length : Int} (found : h.window? r = some w)
    (range : h.windowRange w = some (.object b offset, length)) :
    w.base = some b ∧ ∃ data, h.data? b = some data := by
  unfold windowRange at range
  split at range
  · split at range
    · cases range
    · have start := congrArg Prod.fst (Option.some.inj range)
      exact absurd start (outside_of_window? outside found b offset)
  · rename_i base hbase
    split at range
    · cases range
    · split at range
      · cases range
      · rename_i available start segment
        split at range
        · cases range
        · have moved := congrArg Prod.fst (Option.some.inj range)
          cases start with
          | null => cases moved
          | object owner first =>
            cases moved
            obtain ⟨rfl, bytes⟩ := bytes_of_readSegment outside segment
            exact ⟨hbase, bytes⟩
          | block index first => cases moved

/-- Memory inside an object is shown only by views over a bytes object. -/
theorem over_of_start (outside : h.Outside) (reads : v.Reads h) {owner : Ref} {offset : Nat}
    (held : v.owner = some owner) (start : v.start = .object b offset) :
    v.Over h b ∧ ∃ data, h.data? b = some data := by
  have answered := reads owner held
  split at answered
  · rename_i legacy
    obtain ⟨w, hw, range⟩ := Option.bind_eq_some_iff.mp answered
    rw [start] at range
    obtain ⟨base, bytes⟩ := over_of_windowRange outside hw range
    exact ⟨⟨owner, held, by rw [if_pos legacy]; exact ⟨w, hw, base⟩⟩, bytes⟩
  · rename_i current
    obtain ⟨e, he, same, _⟩ := answered
    obtain ⟨rfl, bytes⟩ := over_of_exporter? outside he (same.trans start)
    exact ⟨⟨owner, held, by rw [if_neg current]⟩, bytes⟩

/-- What a view of a bytes object shows, it goes on showing while the object is there. -/
theorem Shows.mono (shows : v.Shows h b data) (keeps : h.Keeps h') (after : (h'.get? b).isSome) :
    v.Shows h' b data := by
  obtain ⟨bytes, offset, start, inside, _⟩ := shows
  have before : (h.get? b).isSome := by
    obtain ⟨o, ho, _⟩ := body?_eq_some_iff.mp (body?_of_data? bytes)
    rw [ho]
    rfl
  have bytes' : h'.data? b = some data := by rw [data?_congr (keeps.body?_eq before after), bytes]
  exact ⟨bytes', offset, start, inside, bytes_eq bytes' start⟩

end Heap

namespace Session

open Custody

variable {s : Session} {h : Heap} {v : View}

/-! ### Taking views -/

/-- The step takes this view, and so comes to this heap. -/
inductive Takes (s : Session) : Step → Heap → View → Prop where
  | extract {object : Option String} {strategies : List Strategy} {name : Option String} {h : Heap}
    {v : View} : s.heap.extract (object.bind (List.lookup · s.names)) strategies = (h, .ok v) →
    Takes s (.extract object strategies name) h v
  | enterExtract {object : Option String} {name : String} {h : Heap} {v : View} :
    (s.vacate name).1.heap.extract (object.bind (List.lookup · s.names)) Strategy.standard =
      (h, .ok v) → Takes s (.enterExtract object name) h v

theorem withObject?_of_bound {object : Option String} {next : Option Ref → Session × Answer}
    (bound : (object.bind (List.lookup · s.names)).isSome) :
    s.withObject? object next = next (object.bind (List.lookup · s.names)) := by
  obtain ⟨r, found⟩ := Option.isSome_iff_exists.mp bound
  obtain ⟨name, rfl, hr⟩ := Option.bind_eq_some_iff.mp found
  rw [found, withObject?, withObject, hr]

/-- Of nothing no view is taken. -/
theorem isSome_of_extract {object : Option Ref} {strategies : List Strategy}
    (taken : s.heap.extract object strategies = (h, .ok v)) : object.isSome := by
  cases object with
  | none => cases taken
  | some r => rfl

/-- On the way of a step that takes a view, the view is held on the heap it was taken on. -/
theorem moves_of_takes (tidy : s.Tidy) {step : Step} (takes : s.Takes step h v) :
    ∃ c : Custody, c.heap = h ∧ v ∈ c.views ∧ Moves s.custody c ∧
      Moves c (s.step step).1.custody := by
  cases takes with
  | @extract object strategies name _ _ taken =>
    have mem := mem_hands_of_bind (rfl : object.bind (List.lookup · s.names) = _)
    have moved : Moves s.custody _ := moves_extract mem strategies
    rw [taken] at moved
    have rest := (follows_taken tidy taken name).moves
    rw [step, withObject?_of_bound (isSome_of_extract taken)]
    have here : v ∈ v ::ₘ (s.held : Multiset View) := Multiset.mem_cons_self v _
    exact ⟨⟨h, s.hands, 0, v ::ₘ s.held⟩, rfl, here, moved, rest⟩
  | @enterExtract object name _ _ taken =>
    have mem := mem_hands_of_bind (rfl : object.bind (List.lookup · s.names) = _)
    have moved := (moves_vacate tidy name).2.2.trans (moves_extract mem Strategy.standard)
    rw [taken] at moved
    have rest := (follows_entered tidy taken).moves
    rw [step, withObject?_of_bound (isSome_of_extract taken)]
    set others : Multiset View := (s.vacate name).2 ::ₘ ((s.vacate name).1.removeView name).held
    have here : v ∈ v ::ₘ others := Multiset.mem_cons_self v _
    exact ⟨⟨h, s.hands, 0, v ::ₘ others⟩, rfl, here, moved, rest⟩

/-! ### Where views come from -/

/-- Whatever the session holds after the step it held before, or it is released, or the step took
    it. -/
def Supplied (s : Session) (step : Step) (s' : Session) : Prop :=
  ∀ v ∈ s'.held, v.owner ≠ none → v ∈ s.held ∨ ∃ h, s.Takes step h v

theorem supplied_of_eq {step : Step} {s' : Session} (same : s'.held = s.held) :
    s.Supplied step s' := by
  intro v hv _
  exact .inl (same ▸ hv)

theorem mem_held_discard {old : Option Held} (hv : v ∈ (s.discard old).held) :
    v ∈ (old.map (·.view)).toList ∨ v ∈ s.held := by
  rcases old with _ | ⟨_ | _, u⟩
  · exact .inr hv
  · rcases List.mem_append.mp hv with hv | hv
    · exact .inr (List.mem_append_left _ hv)
    · rcases List.mem_cons.mp hv with rfl | hv
      · exact .inl (List.mem_singleton.mpr rfl)
      · exact .inr (List.mem_append_right _ hv)
  · exact .inr hv

theorem mem_held_removeView {name : String} (hv : v ∈ (s.removeView name).held) : v ∈ s.held := by
  rcases List.mem_append.mp hv with hv | hv
  · exact List.mem_append_left _ ((List.filter_sublist.map _).subset hv)
  · exact List.mem_append_right _ hv

theorem mem_held_setView {name : String} {new : Held} (hv : v ∈ (s.setView name new).held) :
    v = new.view ∨ v ∈ s.held := by
  rcases List.mem_cons.mp hv with hv | hv
  · exact .inl hv
  · exact .inr (mem_held_removeView hv)

theorem mem_held_of_lookup {name : String} {old : Held} (found : s.views.lookup name = some old) :
    old.view ∈ s.held :=
  List.mem_append_left _ (List.mem_map.mpr ⟨_, Heap.mem_of_lookup found, rfl⟩)

theorem mem_held_storeView {name : String} {new : Held} (hv : v ∈ (s.storeView name new).held) :
    v = new.view ∨ v ∈ s.held := by
  rcases mem_held_discard hv with hv | hv
  · obtain ⟨old, found, rfl⟩ := Option.map_eq_some_iff.mp (Option.mem_toList.mp hv)
    exact .inr (mem_held_of_lookup found)
  · exact mem_held_setView hv

theorem supplied_extract {object : Option String} {strategies : List Strategy}
    {name : Option String} :
    s.Supplied (.extract object strategies name)
      (s.extract (object.bind (List.lookup · s.names)) strategies name).1 := by
  rcases taken : s.heap.extract (object.bind (List.lookup · s.names)) strategies with
    ⟨h, error | view⟩ <;> unfold extract <;> rw [taken]
  · exact supplied_of_eq rfl
  · cases name with
    | none => exact supplied_of_eq rfl
    | some name =>
      intro v hv _
      rcases mem_held_storeView hv with rfl | hv
      · exact .inr ⟨h, .extract taken⟩
      · exact .inl hv

theorem mem_held_vacate (s : Session) (name : String) :
    (∀ v ∈ (s.vacate name).1.held, v ∈ s.held) ∧
      ((s.vacate name).2.owner ≠ none → (s.vacate name).2 ∈ s.held) := by
  unfold vacate
  split
  · rename_i found
    exact ⟨fun v hv => hv, fun _ => mem_held_of_lookup found⟩
  · exact ⟨fun v hv => mem_held_removeView hv, fun owned => absurd rfl owned⟩
  · exact ⟨fun v hv => hv, fun owned => absurd rfl owned⟩

theorem supplied_enterExtract {object : Option String} {name : String} :
    s.Supplied (.enterExtract object name)
      (s.enterExtract (object.bind (List.lookup · s.names)) name).1 := by
  obtain ⟨kept, out⟩ := mem_held_vacate s name
  intro v hv owned
  rw [enterExtract_eq] at hv
  dsimp only at hv
  rcases taken : (s.vacate name).1.heap.extract (object.bind (List.lookup · s.names))
    Strategy.standard with ⟨h, error | view⟩
  · rw [Host.extractRecordData_of_error taken] at hv
    rcases mem_held_setView hv with rfl | hv
    · exact .inl (out owned)
    · exact .inl (kept v hv)
  · rw [Host.extractRecordData_of_ok taken, if_neg (start_ne_null_of_extract taken)] at hv
    rcases mem_held_setView hv with rfl | hv
    · exact .inr ⟨h, .enterExtract taken⟩
    · rcases List.mem_append.mp hv with hv | hv
      · exact .inl (kept v (List.mem_append_left _ hv))
      · rcases List.mem_cons.mp hv with rfl | hv
        · exact .inl (out owned)
        · exact .inl (kept v (List.mem_append_right _ hv))

/-- Every view that a session holds after a step it held before, or the step took it. -/
theorem supplied_step (s : Session) (step : Step) : s.Supplied step (s.step step).1 := by
  have same : s.Supplied step s := supplied_of_eq rfl
  cases step with
  | extract => exact of_withObject? same fun r bound => bound ▸ supplied_extract
  | enterExtract => exact of_withObject? same fun r bound => bound ▸ supplied_enterExtract
  | unguard view =>
    refine of_withView same fun old found v hv _ => ?_
    have stored := mem_held_of_lookup found
    rcases mem_held_setView hv with rfl | hv
    · exact .inl stored
    · exact .inl hv
  | dropGuard view =>
    refine of_withView same fun old found v hv _ => ?_
    rcases mem_held_discard hv with hv | hv
    · rw [List.mem_singleton.mp hv]
      exact .inl (mem_held_of_lookup found)
    · exact .inl (mem_held_removeView hv)
  | releaseView view | enterRelease view =>
    cases view with
    | none => exact supplied_of_eq rfl
    | some view =>
      refine of_withView same fun old found v hv owned => ?_
      rcases mem_held_setView hv with rfl | hv
      · exact absurd (congrArg View.owner (releaseView_snd s.heap old.view)) owned
      · exact .inl hv
  | enterAdaptor => exact of_withObject? same fun _ _ => supplied_of_eq rfl
  | enterRecreate =>
    exact of_withObject? same fun dtype _ =>
      supplied_of_eq (frames_answerObject (s.withHost _) _ _).held
  | setError | takeError => exact supplied_of_eq rfl
  | _ => exact supplied_of_eq (s.frames_step rfl).held

/-! ### Runs -/

/-- A view that a run leaves behind unreleased was there before, or a step of the run took it. -/
theorem taken_of_held {steps : List Step} (hv : v ∈ (s.run steps).1.held) (owned : v.owner ≠ none) :
    v ∈ s.held ∨ ∃ before step after h, steps = before ++ step :: after ∧
      (s.run before).1.Takes step h v := by
  induction steps generalizing s with
  | nil => exact .inl hv
  | cons step rest ih =>
    rcases ih hv with hv | ⟨before, later, after, h, rfl, takes⟩
    · rcases supplied_step s step v hv owned with hv | ⟨h, takes⟩
      · exact .inl hv
      · exact .inr ⟨[], step, rest, h, rfl, takes⟩
    · exact .inr ⟨step :: before, later, after, h, rfl, takes⟩

/-- What a view shows on the heap it was taken on, it shows at the end of the run. -/
theorem shows_of_takes {b : Ref} {data : List UInt8} {step : Step} {after : List Step}
    (tidy : s.Tidy) (sound : s.custody.Sound) (balanced : s.Balanced (step :: after))
    (takes : s.Takes step h v) (hv : v ∈ (s.run (step :: after)).1.held)
    (owned : v.owner ≠ none) (upon : v.Over h b) (bytes : h.data? b = some data) :
    v.Shows h b data ∧ v.Shows (s.run (step :: after)).1.heap b data := by
  obtain ⟨owner, howner⟩ := Option.ne_none_iff_exists'.mp owned
  obtain ⟨c, rfl, hc, first, second⟩ := moves_of_takes tidy takes
  have shows := Heap.shows_of_over ((sound.moves first).reads v hc) upon bytes
  refine ⟨shows, Heap.Shows.mono shows ?_ ?_⟩
  · exact (keeps_moves second).trans (keeps_run (tidy_step tidy step) after)
  · have final := sound_run tidy sound balanced
    obtain ⟨_, offset, start, _, _⟩ := shows
    obtain ⟨_, data', bytes'⟩ := Heap.over_of_start final.outside (final.reads v hv) howner start
    obtain ⟨o, ho, _⟩ := Heap.body?_eq_some_iff.mp (Heap.body?_of_data? bytes')
    exact Option.isSome_iff_exists.mpr ⟨o, ho⟩

/-- Along a balanced run every view that is not released was taken by a step of the run, starts
    somewhere, is not of negative length, and its owner is allocated. Where its memory was that of a
    bytes object when it was taken, that object is still allocated with the same contents, the
    window lies inside them, and it reads there what it read then. Memory inside an object is not
    shown in any other way. -/
theorem views_stay_valid (runtime : Option Services) (census : Census) {steps : List Step}
    (balanced : (opened runtime census).Balanced steps) :
    let s := ((opened runtime census).run steps).1
    ∀ v ∈ s.held, ∀ owner, v.owner = some owner →
      v.start ≠ .null ∧ 0 ≤ v.length ∧ (∃ o, s.heap.get? owner = some o) ∧
      (∃ before step after h, steps = before ++ step :: after ∧
        ((opened runtime census).run before).1.Takes step h v) ∧
      (∀ before step after h, steps = before ++ step :: after →
        ((opened runtime census).run before).1.Takes step h v →
        ∀ b data, h.data? b = some data → v.Over h b →
          v.Shows h b data ∧ v.Shows s.heap b data) ∧
      ∀ b offset, v.start = .object b offset → v.Over s.heap b ∧ ∃ data, v.Shows s.heap b data := by
  intro s v hv owner howner
  have owned : v.owner ≠ none := by simp [howner]
  have start := tidy_opened runtime census
  have sound := sound_opened runtime census
  have final : s.custody.Sound := sound_run start sound balanced
  have reads : v.Reads s.heap := final.reads v hv
  obtain ⟨somewhere, nonnegative⟩ := usable_of_reads reads howner
  refine ⟨somewhere, nonnegative, ?_, ?_, ?_, ?_⟩
  · exact final.accounts.owned (refs_subset_allRefs hv owner (by simp [View.refs, howner]))
  · rcases taken_of_held hv owned with none | taken
    · simp [opened, held] at none
    · exact taken
  · rintro before step after h rfl takes b data bytes upon
    obtain ⟨first, rest⟩ := balanced_append balanced
    have shown := run_append (opened runtime census) before (step :: after)
    rw [show s = _ from shown] at hv ⊢
    exact shows_of_takes (tidy_run start before) (sound_run start sound first) rest takes hv owned
      upon bytes
  · intro b offset hstart
    obtain ⟨upon, data, bytes⟩ := Heap.over_of_start final.outside reads howner hstart
    exact ⟨upon, data, Heap.shows_of_over reads upon bytes⟩

/-- A legacy view into bytes that nothing names any more still reads them. -/
theorem views_stay_valid_of_dropped_base :
    let steps : List Step :=
      [.make (.bytes [1, 2, 3]) (some "b"), .make (.window ⟨some "b", none, -1, 1⟩) (some "w"),
        .make (.holder "w") (some "h"), .extract (some "h") Strategy.standard (some "v"),
        .drop "b", .drop "w", .drop "h"]
    let s := ((opened none .initial).run steps).1
    let v : View := ⟨.object 1 1, some 2, 2, 1, 1, 1, true⟩
    (opened none .initial).Balanced steps ∧ v ∈ s.held ∧ v.Shows s.heap 1 [1, 2, 3] := by
  intro steps s v
  have balanced : (opened none .initial).Balanced steps := by decide +kernel
  have stored : v ∈ s.held := by decide +kernel
  obtain ⟨_, _, _, _, _, shown⟩ := views_stay_valid none .initial balanced v stored 2 rfl
  obtain ⟨_, data, shows⟩ := shown 1 1 rfl
  have bytes : s.heap.data? 1 = some [1, 2, 3] := by decide +kernel
  obtain rfl : data = [1, 2, 3] := Option.some.inj (shows.1.symm.trans bytes)
  exact ⟨balanced, stored, shows⟩

end Session

end NativeBridge
