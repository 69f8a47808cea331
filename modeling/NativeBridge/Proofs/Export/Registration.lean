import Mathlib.Data.List.Induction
import Mathlib.Data.List.Nodup
import NativeBridge.Export.Table

/-! What a list of symbols makes.

    A list is registered when every name has an address and no name is listed twice
    (`NamedAddress.Registrable`); any other list has a first position where that breaks, and this
    position alone decides the error (`NamedAddress.Breaks`). A table that is made lists the symbols
    in their order (`AddressTable.listing`), and from there on it only matters which symbols they
    are: a name has the address it is listed with, and whatever order the entries are enumerated in
    and however they are sorted, they come out in the one order of their names
    (`AddressTable.ofSymbols_decided_by_symbols`). -/

namespace NativeBridge

variable {α : Type}

namespace NamedAddress

/-- Every name has an address and no name is listed twice. -/
structure Registrable (symbols : List (NamedAddress α)) : Prop where
  addressed : ∀ symbol ∈ symbols, symbol.address ≠ none
  distinct : (symbols.map (·.name)).Nodup

/-- Up to some position the list can be registered, and there it breaks: the address is null, which
    is an error of its own also where the name is a repetition, or the name was listed before. -/
inductive Breaks : List (NamedAddress α) → InitError → Prop where
  | null {before after : List (NamedAddress α)} {name : String} : Registrable before →
    Breaks (before ++ ⟨name, none⟩ :: after) (.nullAddress name)
  | repeated {before after : List (NamedAddress α)} {name : String} {address : α} :
    Registrable before → name ∈ before.map (·.name) →
    Breaks (before ++ ⟨name, some address⟩ :: after) (.duplicateSymbol name)

variable {symbols others : List (NamedAddress α)} {symbol : NamedAddress α} {error : InitError}

theorem registrable_concat :
    Registrable (symbols ++ [symbol]) ↔
      Registrable symbols ∧ symbol.address ≠ none ∧ symbol.name ∉ symbols.map (·.name) := by
  constructor
  · intro ⟨addressed, distinct⟩
    rw [List.map_append, List.nodup_append] at distinct
    refine ⟨⟨fun s mem => addressed s (by simp [mem]), distinct.1⟩, addressed symbol (by simp), ?_⟩
    exact fun mem => distinct.2.2 _ mem _ (List.mem_singleton_self _) rfl
  · rintro ⟨⟨addressed, distinct⟩, some, new⟩
    refine ⟨fun s mem => ?_, ?_⟩
    · rcases List.mem_append.mp mem with mem | mem
      · exact addressed s mem
      · rwa [List.mem_singleton.mp mem]
    · rw [List.map_append, List.map_singleton, ← List.concat_eq_append]
      exact distinct.concat new

theorem Registrable.perm (registrable : Registrable symbols) (order : symbols.Perm others) :
    Registrable others :=
  ⟨fun symbol mem => registrable.addressed symbol (order.mem_iff.mpr mem),
    (order.map (·.name)).nodup_iff.mp registrable.distinct⟩

theorem Breaks.concat (breaks : Breaks symbols error) (symbol : NamedAddress α) :
    Breaks (symbols ++ [symbol]) error := by
  cases breaks with
  | null registrable =>
    rw [List.append_assoc, List.cons_append]
    exact .null registrable
  | repeated registrable mem =>
    rw [List.append_assoc, List.cons_append]
    exact .repeated registrable mem

/-- Where the list cannot be registered there is a first position that is to blame. -/
theorem registrable_or_breaks (symbols : List (NamedAddress α)) :
    Registrable symbols ∨ ∃ error, Breaks symbols error := by
  induction symbols using List.reverseRecOn with
  | nil => exact .inl ⟨by simp, List.nodup_nil⟩
  | append_singleton symbols symbol ih =>
    rcases ih with registrable | ⟨error, breaks⟩
    · obtain ⟨name, _ | address⟩ := symbol
      · exact .inr ⟨_, .null registrable⟩
      · by_cases mem : name ∈ symbols.map (·.name)
        · exact .inr ⟨_, .repeated registrable mem⟩
        · exact .inl (registrable_concat.mpr ⟨registrable, by simp, mem⟩)
    · exact .inr ⟨error, breaks.concat symbol⟩

end NamedAddress

namespace AddressTable

open NamedAddress

variable {symbols : List (NamedAddress α)} {symbol : NamedAddress α} {error : InitError}
  {table other : AddressTable α} {name : String} {address : α}

/-- The entries of a table as the symbols that make it. -/
def listing (entries : List (String × α)) : List (NamedAddress α) :=
  entries.map fun entry => ⟨entry.1, some entry.2⟩

theorem listing_injective : Function.Injective (listing (α := α)) :=
  List.map_injective_iff.mpr fun a b same => by
    cases a
    cases b
    cases same
    rfl

theorem mem_listing {entries : List (String × α)} :
    ⟨name, some address⟩ ∈ listing entries ↔ (name, address) ∈ entries := by
  simp [listing]

theorem names_listing (entries : List (String × α)) :
    (listing entries).map (·.name) = entries.map (·.1) := by
  simp [listing, Function.comp_def]

theorem get?_eq_none_iff : table.get? name = none ↔ name ∉ table.entries.map (·.1) := by
  rw [get?, List.lookup_eq_none_iff]
  constructor
  · intro others mem
    obtain ⟨entry, there, named⟩ := List.mem_map.mp mem
    exact bne_iff_ne.mp (others entry there) named.symm
  · intro absent entry there
    exact bne_iff_ne.mpr fun named => absent (List.mem_map.mpr ⟨entry, there, named.symm⟩)

/-! ### Registration -/

theorem insertAll_append (table : AddressTable α) (before after : List (NamedAddress α)) :
    table.insertAll (before ++ after) = (table.insertAll before).bind (·.insertAll after) := by
  induction before generalizing table with
  | nil => rfl
  | cons symbol rest ih =>
    rw [List.cons_append, insertAll, insertAll]
    cases table.insert symbol with
    | error error => rfl
    | ok table => exact ih table

theorem insertAll_cons_of_error (failed : table.insert symbol = .error error)
    (rest : List (NamedAddress α)) : table.insertAll (symbol :: rest) = .error error := by
  rw [insertAll, failed]

/-- A list that can be registered is registered, in its order. -/
theorem ofSymbols_of_registrable (registrable : Registrable symbols) :
    ∃ table, ofSymbols symbols = .ok table ∧ listing table.entries = symbols := by
  induction symbols using List.reverseRecOn with
  | nil => exact ⟨empty, rfl, rfl⟩
  | append_singleton symbols symbol ih =>
    obtain ⟨earlier, some, new⟩ := registrable_concat.mp registrable
    obtain ⟨table, made, listed⟩ := ih earlier
    obtain ⟨name, address⟩ := symbol
    obtain ⟨address, rfl⟩ := Option.ne_none_iff_exists'.mp some
    have free : table.get? name = none := by
      rw [get?_eq_none_iff, ← names_listing, listed]
      exact new
    refine ⟨⟨table.entries ++ [(name, address)]⟩, ?_, ?_⟩
    · rw [ofSymbols] at made ⊢
      rw [insertAll_append, made]
      simp [Except.bind, insertAll, insert, free]
    · rw [listing, List.map_append]
      exact congrArg (· ++ _) listed

/-- What comes after the first position that breaks the list makes no difference. -/
theorem ofSymbols_of_breaks (breaks : Breaks symbols error) : ofSymbols symbols = .error error := by
  cases breaks with
  | @null before after name registrable =>
    obtain ⟨table, made, _⟩ := ofSymbols_of_registrable registrable
    have refused : table.insert ⟨name, none⟩ = .error (.nullAddress name) := rfl
    rw [ofSymbols] at made ⊢
    rw [insertAll_append, made]
    exact insertAll_cons_of_error refused after
  | @repeated before after name address registrable mem =>
    obtain ⟨table, made, listed⟩ := ofSymbols_of_registrable registrable
    have taken : (table.get? name).isSome = true := by
      rw [Option.isSome_iff_ne_none, Ne, get?_eq_none_iff, ← names_listing, listed]
      exact not_not_intro mem
    have refused : table.insert ⟨name, some address⟩ = .error (.duplicateSymbol name) :=
      if_pos taken
    rw [ofSymbols] at made ⊢
    rw [insertAll_append, made]
    exact insertAll_cons_of_error refused after

theorem ofSymbols_eq_error_iff : ofSymbols symbols = .error error ↔ Breaks symbols error := by
  refine ⟨fun failed => ?_, ofSymbols_of_breaks⟩
  rcases registrable_or_breaks symbols with registrable | ⟨other, breaks⟩
  · obtain ⟨table, made, _⟩ := ofSymbols_of_registrable registrable
    cases made.symm.trans failed
  · cases (ofSymbols_of_breaks breaks).symm.trans failed
    exact breaks

theorem ofSymbols_eq_ok_iff :
    ofSymbols symbols = .ok table ↔ Registrable symbols ∧ listing table.entries = symbols := by
  constructor
  · intro made
    rcases registrable_or_breaks symbols with registrable | ⟨error, breaks⟩
    · obtain ⟨other, same, listed⟩ := ofSymbols_of_registrable registrable
      cases same.symm.trans made
      exact ⟨registrable, listed⟩
    · cases (ofSymbols_of_breaks breaks).symm.trans made
  · rintro ⟨registrable, listed⟩
    obtain ⟨other, made, listed'⟩ := ofSymbols_of_registrable registrable
    obtain ⟨entries⟩ := table
    obtain ⟨entries'⟩ := other
    obtain rfl : entries' = entries := listing_injective (listed'.trans listed.symm)
    exact made

/-! ### Names and addresses -/

theorem get?_eq_some_iff (distinct : (table.entries.map (·.1)).Nodup) :
    table.get? name = some address ↔ (name, address) ∈ table.entries := by
  rw [get?, List.lookup_eq_some_iff]
  constructor
  · rintro ⟨before, after, same, _⟩
    rw [same]
    simp
  · intro mem
    obtain ⟨before, after, same⟩ := List.append_of_mem mem
    refine ⟨before, after, same, fun entry earlier => bne_iff_ne.mpr fun named => ?_⟩
    rw [same, List.map_append, List.map_cons, List.nodup_append] at distinct
    exact distinct.2.2 entry.1 (List.mem_map_of_mem earlier) name List.mem_cons_self named.symm

/-- The one name stands before the other in the order of code points: at the first place where
    they differ it has the smaller one, or it ends there. -/
def Precedes (a b : String) : Prop :=
  List.Lex (fun c d : Char => c.toNat < d.toNat) a.toList b.toList

theorem lt_iff_precedes {a b : String} : a < b ↔ Precedes a b := String.lt_iff

/-- Entries in the order of their names, if no name occurs twice, stand in one order only. -/
theorem eq_of_ordered {one two : List (String × α)} (order : one.Perm two)
    (distinct : (one.map (·.1)).Nodup) (ordered : one.Pairwise fun a b => a.1 ≤ b.1)
    (ordered' : two.Pairwise fun a b => a.1 ≤ b.1) : one = two := by
  refine List.Perm.eq_of_pairwise (fun a b first second below above => ?_) ordered ordered' order
  have named : a.1 = b.1 := String.le_antisymm below above
  exact List.inj_on_of_nodup_map distinct first (order.mem_iff.mpr second) named

theorem sorted_perm (table : AddressTable α) : table.sorted.Perm table.entries :=
  List.mergeSort_perm ..

theorem pairwise_sorted (table : AddressTable α) :
    table.sorted.Pairwise fun a b => a.1 ≤ b.1 := by
  have ordered := @List.pairwise_mergeSort _ (fun a b : String × α => a.1 ≤ b.1)
    (fun a b c first second => by
      simp only [decide_eq_true_eq] at first second ⊢
      exact String.le_trans first second)
    (fun a b => by simpa using String.le_total a.1 b.1) table.entries
  simpa [sorted] using ordered

theorem precedes_sorted (distinct : (table.entries.map (·.1)).Nodup) :
    table.sorted.Pairwise fun a b => Precedes a.1 b.1 := by
  have names : (table.sorted.map (·.1)).Nodup :=
    (table.sorted_perm.map (·.1)).nodup_iff.mpr distinct
  have apart : table.sorted.Pairwise fun a b => a.1 ≠ b.1 := List.pairwise_map.mp names
  refine (table.pairwise_sorted.and apart).imp fun both => ?_
  exact lt_iff_precedes.mp (Std.lt_of_le_of_ne both.1 both.2)

theorem sorted_eq_of_perm (distinct : (table.entries.map (·.1)).Nodup)
    (order : other.entries.Perm table.entries) : other.sorted = table.sorted := by
  have arranged := other.sorted_perm.trans (order.trans table.sorted_perm.symm)
  have distinct' := ((other.sorted_perm.trans order).map (·.1)).nodup_iff.mpr distinct
  exact eq_of_ordered arranged distinct' other.pairwise_sorted table.pairwise_sorted

theorem listing_perm_iff {one two : List (String × α)} :
    (listing one).Perm (listing two) ↔ one.Perm two := by
  refine ⟨fun order => ?_, fun order => order.map _⟩
  have back : ∀ entries : List (String × α), (listing entries).filterMap
      (fun symbol => symbol.address.map (symbol.name, ·)) = entries := fun entries => by
    simp [listing, List.filterMap_map]
  have images := order.filterMap fun symbol => symbol.address.map (symbol.name, ·)
  rwa [back, back] at images

/-! ### The table -/

/-- A list of symbols makes a table exactly when every name has an address and none is listed
    twice, and otherwise the first position that breaks this decides the error. The table has as
    many entries as there are symbols and answers each name with the address it is listed with.
    Sorted, it is the symbols in the order of code points of their names, whatever the order in
    which the entries were enumerated and whatever an ordering by names does with equal ones. So
    neither success nor the sorted entries depend on the order of the list. -/
theorem ofSymbols_decided_by_symbols (symbols : List (NamedAddress α)) :
    ((∃ table, ofSymbols symbols = .ok table) ↔ Registrable symbols) ∧
    (∀ error, ofSymbols symbols = .error error ↔ Breaks symbols error) ∧
    (∀ table, ofSymbols symbols = .ok table →
      table.size = symbols.length ∧
      (∀ name address, table.get? name = some address ↔ ⟨name, some address⟩ ∈ symbols) ∧
      (∀ name, table.get? name = none ↔ name ∉ symbols.map (·.name)) ∧
      (listing table.sorted).Perm symbols ∧
      table.sorted.Pairwise (fun a b => Precedes a.1 b.1) ∧
      ∀ arranged : List (String × α), arranged.Perm table.entries →
        arranged.Pairwise (fun a b => a.1 ≤ b.1) → arranged = table.sorted) ∧
    ∀ others, others.Perm symbols →
      (ofSymbols others).toOption.map sorted = (ofSymbols symbols).toOption.map sorted := by
  refine ⟨⟨?_, ?_⟩, fun error => ofSymbols_eq_error_iff, ?_, fun others order => ?_⟩
  · rintro ⟨table, made⟩
    exact (ofSymbols_eq_ok_iff.mp made).1
  · intro registrable
    obtain ⟨table, made, _⟩ := ofSymbols_of_registrable registrable
    exact ⟨table, made⟩
  · intro table made
    obtain ⟨registrable, rfl⟩ := ofSymbols_eq_ok_iff.mp made
    have distinct := names_listing table.entries ▸ registrable.distinct
    refine ⟨by simp [size, listing], fun name address => ?_, fun name => ?_,
      listing_perm_iff.mpr table.sorted_perm, precedes_sorted distinct, fun arranged order up => ?_⟩
    · rw [get?_eq_some_iff distinct, mem_listing]
    · rw [get?_eq_none_iff, names_listing]
    · have both := order.trans table.sorted_perm.symm
      exact eq_of_ordered both ((order.map (·.1)).nodup_iff.mpr distinct) up table.pairwise_sorted
  · by_cases registrable : Registrable symbols
    · obtain ⟨table, made, listed⟩ := ofSymbols_of_registrable registrable
      obtain ⟨other, made', listed'⟩ := ofSymbols_of_registrable (registrable.perm order.symm)
      rw [← listed, ← listed', listing_perm_iff] at order
      have distinct := names_listing table.entries ▸ listed ▸ registrable.distinct
      rw [made, made']
      exact congrArg some (sorted_eq_of_perm distinct order)
    · obtain ⟨error, breaks⟩ := (registrable_or_breaks symbols).resolve_left registrable
      obtain ⟨error', breaks'⟩ := (registrable_or_breaks others).resolve_left fun other =>
        registrable (other.perm order)
      rw [ofSymbols_of_breaks breaks, ofSymbols_of_breaks breaks']
      rfl

/-- A repetition without an address is a null address, and a null address behind a repetition is
    not reached. -/
example :
    ofSymbols [⟨"b", some 1⟩, ⟨"b", none⟩] = .error (.nullAddress "b") ∧
      ofSymbols [⟨"b", some 1⟩, ⟨"a", some 2⟩, ⟨"b", some 3⟩, ⟨"c", none⟩] =
        .error (.duplicateSymbol "b") := by
  decide

end AddressTable

end NativeBridge
