import NativeBridge.CommandLine.Program
import NativeBridge.Proofs.Export.Registration

/-! Which helpers a filter lists.

    The search goes on at every place of a name, so it finds a text exactly where the text stands in
    the name without gaps (`AddressTable.occursIn_iff`). What a filter lists is the sorted entries
    less those it does not find, so they keep their order, and a longer text lists fewer
    (`AddressTable.matching_sublist_matching`). -/

namespace NativeBridge

variable {α : Type}

/-- The text stands in the name without gaps. -/
def Contains (name text : String) : Prop := ∃ before after, name = before ++ text ++ after

theorem contains_iff {name text : String} : Contains name text ↔ text.toList <:+: name.toList := by
  constructor
  · rintro ⟨before, after, rfl⟩
    rw [String.toList_append, String.toList_append]
    exact List.infix_append ..
  · rintro ⟨before, after, whole⟩
    refine ⟨.ofList before, .ofList after, String.toList_inj.mp ?_⟩
    rw [String.toList_append, String.toList_append, String.toList_ofList, String.toList_ofList,
      whole]

theorem Contains.trans {name text part : String} (within : Contains text part)
    (inside : Contains name text) : Contains name part :=
  contains_iff.mpr ((contains_iff.mp within).trans (contains_iff.mp inside))

theorem contains_empty (name : String) : Contains name "" := ⟨"", name, by simp⟩

namespace AddressTable

open NamedAddress

variable {symbols others : List (NamedAddress α)} {table other : AddressTable α}
  {filter : Option String} {name text : String} {address : α} {entry : String × α}

/-! ### Listed entries -/

theorem occursIn_iff {part whole : List Char} : occursIn part whole = true ↔ part <:+: whole := by
  induction whole with
  | nil => simp [occursIn]
  | cons c rest ih => simp [occursIn, ih, List.infix_cons_iff]

/-- The text of a filter, if there is one, stands in the name. -/
def Passes (filter : Option String) (name : String) : Prop := ∀ text ∈ filter, Contains name text

theorem all_occursIn_iff :
    (filter.all fun text => occursIn text.toList name.toList) = true ↔ Passes filter name := by
  cases filter with
  | none => simp [Passes]
  | some text => simp [Passes, contains_iff, occursIn_iff]

theorem mem_matching : entry ∈ table.matching filter ↔
    entry ∈ table.entries ∧ Passes filter entry.1 := by
  rw [matching, List.mem_filter, all_occursIn_iff, table.sorted_perm.mem_iff]

/-- A filter that lets every name pass lists them all. -/
theorem matching_of_passes (all : ∀ name, Passes filter name) :
    table.matching filter = table.sorted :=
  List.filter_eq_self.mpr fun entry _ => all_occursIn_iff.mpr (all entry.1)

/-- What passes one filter and hence another is listed by both, in the same order. -/
theorem matching_sublist_matching {finer : Option String}
    (finer_passes : ∀ name, Passes finer name → Passes filter name) (table : AddressTable α) :
    (table.matching finer).Sublist (table.matching filter) :=
  List.monotone_filter_right _ fun entry passes =>
    all_occursIn_iff.mpr (finer_passes entry.1 (all_occursIn_iff.mp passes))

end AddressTable

namespace CommandLine

open AddressTable

/-! ### The subcommand -/

/-- The helpers have addresses, and names of their own. -/
theorem registrable_all : NamedAddress.Registrable Symbol.all where
  addressed symbol mem := by
    obtain ⟨helper, _, rfl⟩ := List.mem_map.mp mem
    exact Option.some_ne_none _
  distinct := by decide +kernel

/-- The subcommand lists the table of the helpers; there is no failure to make it. -/
theorem listSymbols_eq (image : Image) :
    ∃ table, ofSymbols Symbol.all = .ok table ∧
      ∀ filter, listSymbols image filter = .success (symbolLines image table filter) := by
  obtain ⟨table, made, _⟩ := ofSymbols_of_registrable registrable_all
  -- `rw` would make equations of these definitions, and evaluate the table of all helpers for it
  have real : ExportTable.real = .ok table := by
    delta ExportTable.real ExportTable.ofSymbols
    exact made
  refine ⟨table, made, fun filter => ?_⟩
  delta listSymbols
  rw [real]

end CommandLine

namespace AddressTable

open NamedAddress CommandLine

/-- A table lists, for a filter, the entries whose name the text stands in, each with its address
    and in the order of their names; without a text, or with the empty one, all of them, as many as
    the table has. So a filter only leaves entries out, a text that contains the other leaves out
    more, and it makes no difference in which order the symbols were registered. The subcommand
    prints one line for each entry of the helpers' table that is listed, and how many of all they
    are. -/
theorem matching_by_substring (symbols : List (NamedAddress α)) (image : Image) :
    (∀ table, ofSymbols symbols = .ok table →
      (∀ filter name address, (name, address) ∈ table.matching filter ↔
        table.get? name = some address ∧ ∀ text ∈ filter, Contains name text) ∧
      (∀ filter, (table.matching filter).Pairwise fun a b => Precedes a.1 b.1) ∧
      (table.matching none = table.sorted ∧ table.matching (some "") = table.sorted) ∧
      table.size = (table.matching none).length ∧
      (∀ filter, (table.matching filter).Sublist (table.matching none)) ∧
      (∀ text longer, Contains longer text →
        (table.matching (some longer)).Sublist (table.matching (some text))) ∧
      ∀ others, others.Perm symbols → ∃ other, ofSymbols others = .ok other ∧
        ∀ filter, other.matching filter = table.matching filter) ∧
    ∃ table, ofSymbols Symbol.all = .ok table ∧ ∀ filter,
      let listed := table.matching filter
      listSymbols image filter = .success
        (listed.map (fun entry => padRight 24 entry.1 ++ " " ++ image.address entry.2) ++
          [toString listed.length ++ " of " ++ toString table.size ++ " helpers"]) := by
  refine ⟨fun table made => ?_, listSymbols_eq image⟩
  obtain ⟨registrable, rfl⟩ := ofSymbols_eq_ok_iff.mp made
  have distinct := names_listing table.entries ▸ registrable.distinct
  have all : ∀ name, Passes none name := by simp [Passes]
  have empty : ∀ name, Passes (some "") name := by simp [Passes, contains_empty]
  refine ⟨fun filter name address => ?_, fun filter => ?_,
    ⟨matching_of_passes all, matching_of_passes empty⟩, ?_,
    fun filter => matching_sublist_matching (fun name _ => all name) table,
    fun text longer within => matching_sublist_matching (fun name passes => ?_) table,
    fun others order => ?_⟩
  · rw [mem_matching, get?_eq_some_iff distinct]
    rfl
  · exact (precedes_sorted distinct).filter _
  · rw [matching_of_passes all, size, table.sorted_perm.length_eq]
  · intro part same
    cases same
    exact within.trans (passes longer rfl)
  · obtain ⟨other, made', listed⟩ := ofSymbols_of_registrable (registrable.perm order.symm)
    rw [← listed, listing_perm_iff] at order
    refine ⟨other, made', fun filter => ?_⟩
    rw [matching, matching, sorted_eq_of_perm distinct order]

end AddressTable

end NativeBridge
