import NativeBridge.Export.Helper
import NativeBridge.Error

/-! The export table: names and the addresses they stand for.

    A table is built from a list of symbols or not at all. The first symbol without an address
    or with a name already taken decides the failure. What an address is makes no difference to a
    table of addresses; those of the export table lead to code. -/

namespace NativeBridge

/-- A name to export and the address for it; `none` is the null address. -/
structure NamedAddress (α : Type) where
  name : String
  address : Option α
  deriving DecidableEq, Repr

/-- A name to export and what its address leads to. -/
abbrev Symbol := NamedAddress Code

/-- Every helper under its own name. -/
def Symbol.all : List Symbol := Helper.all.map fun helper => ⟨helper.name, some (.helper helper)⟩

/-- A table of addresses by name, in the order of registration. -/
structure AddressTable (α : Type) where
  entries : List (String × α)
  deriving DecidableEq, Repr

namespace AddressTable

variable {α : Type}

/-- The empty table. -/
def empty : AddressTable α := ⟨[]⟩

/-- The address listed with a name. -/
def get? (table : AddressTable α) (name : String) : Option α := table.entries.lookup name

/-- Enters one symbol. -/
def insert (table : AddressTable α) (symbol : NamedAddress α) :
    Except InitError (AddressTable α) :=
  match symbol.address with
  | none => .error (.nullAddress symbol.name)
  | some address =>
    if (table.get? symbol.name).isSome then .error (.duplicateSymbol symbol.name)
    else .ok ⟨table.entries ++ [(symbol.name, address)]⟩

/-- Enters symbols one after the other, up to the first that cannot be entered. -/
def insertAll (table : AddressTable α) : List (NamedAddress α) → Except InitError (AddressTable α)
  | [] => .ok table
  | symbol :: rest =>
    match table.insert symbol with
    | .error error => .error error
    | .ok table => table.insertAll rest

/-- The table of these symbols. -/
def ofSymbols (symbols : List (NamedAddress α)) : Except InitError (AddressTable α) :=
  empty.insertAll symbols

/-- Number of entries. -/
def size (table : AddressTable α) : Nat := table.entries.length

/-- The entries by name, in the order of code points. -/
def sorted (table : AddressTable α) : List (String × α) :=
  table.entries.mergeSort fun a b => a.1 ≤ b.1

/-- Whether `part` occurs in the text without gaps. -/
def occursIn (part : List Char) : List Char → Bool
  | [] => part.isEmpty
  | c :: rest => part.isPrefixOf (c :: rest) || occursIn part rest

/-- The sorted entries whose name contains the filter text, all of them without a filter. -/
def matching (table : AddressTable α) (filter : Option String) : List (String × α) :=
  table.sorted.filter fun entry =>
    filter.all fun text => occursIn text.toList entry.1.toList

end AddressTable

/-- An export table: its addresses lead to code. -/
abbrev ExportTable := AddressTable Code

namespace ExportTable

/-- The export table of these symbols. -/
abbrev ofSymbols (symbols : List Symbol) : Except InitError ExportTable :=
  AddressTable.ofSymbols symbols

/-- The table of all helpers. -/
def real : Except InitError ExportTable := ofSymbols Symbol.all

end ExportTable

end NativeBridge
