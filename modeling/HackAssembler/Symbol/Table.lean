import HackAssembler.Symbol.Predefined
import HackAssembler.Yaml.Key
import Std.Data.TreeMap

/-! # Symbol tables

Which address a name stands for. Bindings keep the order in which they were made, a name is
bound once, and unknown operands are given the memory words from sixteen upward. The table is
looked up through an index; `get?_eq` says that this finds what a walk through the bindings
would find. Labels and variables are exported in that order, each with its kind and its address. -/
namespace HackAssembler

inductive SymbolKind
  | predefined
  | label
  | variable
  deriving DecidableEq

structure Binding where
  name : String
  kind : SymbolKind
  address : Nat
  deriving DecidableEq

structure SymbolTable where
  bindings : Array Binding
  index : Std.TreeMap String Binding
  /-- Where the next variable goes. -/
  nextVariable : Nat
  index_eq : ∀ name : String, index[name]? = bindings.find? (·.name == name)

/-- Why a label cannot be declared. -/
inductive LabelError
  | shadowsPredefined (name : String)
  | redefined (name : String)
  deriving DecidableEq

def LabelError.message : LabelError → String
  | shadowsPredefined name => s!"Label `{name}` shadows a built-in symbol"
  | redefined name => s!"Re-defined label: `{name}`"

namespace SymbolTable

/-- The memory words below this one are the sixteen virtual registers. -/
def firstVariable : Nat := 16

def empty : SymbolTable where
  bindings := #[]
  index := ∅
  nextVariable := firstVariable
  index_eq name := by simp

def get? (table : SymbolTable) (name : String) : Option Binding :=
  table.index[name]?

theorem get?_eq (table : SymbolTable) (name : String) :
    table.get? name = table.bindings.find? (·.name == name) :=
  table.index_eq name

def address? (table : SymbolTable) (name : String) : Option Nat :=
  (table.get? name).map (·.address)

def isPredefined (table : SymbolTable) (name : String) : Bool :=
  (table.get? name).any (·.kind = .predefined)

/-- Appends the binding of a name that is not bound yet. -/
def push (table : SymbolTable) (binding : Binding) (unbound : table.get? binding.name = none) :
    SymbolTable where
  bindings := table.bindings.push binding
  index := table.index.insert binding.name binding
  nextVariable := table.nextVariable
  index_eq name := by
    rw [Std.TreeMap.getElem?_insert, Array.find?_push, ← table.index_eq]
    by_cases h : binding.name = name
    · subst h
      have : table.index[binding.name]? = none := unbound
      simp [this]
    · simp [h]

/-- A name that is bound already keeps its binding. -/
def insertNew (table : SymbolTable) (binding : Binding) : SymbolTable :=
  match h : table.get? binding.name with
  | some _ => table
  | none => table.push binding h

/-- The table that every program starts from. -/
def initial : SymbolTable :=
  Predefined.all.foldl
    (fun table symbol => table.insertNew ⟨symbol.name, .predefined, symbol.address⟩) empty

def declareLabel (table : SymbolTable) (name : String) (address : Nat) :
    Except LabelError SymbolTable :=
  match h : table.get? name with
  | some binding =>
    .error (if binding.kind = .predefined then .shadowsPredefined name else .redefined name)
  | none => .ok (table.push ⟨name, .label, address⟩ h)

/-- The address of an operand. A name without a binding becomes a variable. -/
def resolve (table : SymbolTable) (name : String) : Nat × SymbolTable :=
  match h : table.get? name with
  | some binding => (binding.address, table)
  | none =>
    let address := table.nextVariable
    (address, { table.push ⟨name, .variable, address⟩ h with nextVariable := address + 1 })

/-- Variables are numbered from the start again; the bindings stay. -/
def restartVariables (table : SymbolTable) : SymbolTable :=
  { table with nextVariable := firstVariable }

/-- The labels and variables, in binding order. -/
def user (table : SymbolTable) : List Binding :=
  table.bindings.toList.filter (·.kind ≠ .predefined)

end SymbolTable

/-! ### Exports -/

def SymbolKind.word : SymbolKind → String
  | .predefined => "builtin"
  | .label => "label"
  | .variable => "variable"

/-- The entry of one symbol. -/
def Binding.entry (binding : Binding) : String :=
  Yaml.keyLines binding.name ++ "kind: " ++ binding.kind.word ++ "\n  addr: " ++
    toString binding.address ++ "\n"

/-- A table without labels and variables is written as an empty mapping. -/
def SymbolTable.toYaml (table : SymbolTable) : String :=
  match table.user with
  | [] => "\x7b\x7d\n"
  | symbols => symbols.foldl (fun text binding => text ++ binding.entry) ""

end HackAssembler
