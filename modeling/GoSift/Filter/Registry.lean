import Std.Data.HashMap
import GoSift.Filter.Type
import GoSift.Filter.Value

/-!
The functions that filter code can call: compiled functions, and natives that the host provides. Each
kind has a table in which a function has a number, by which code calls it, and a key of a qualifier and
a name, by which it is found.
-/
namespace GoSift.Filter

/-- A compiled function. -/
structure Func where
  name : String
  code : Array UInt8
  constants : Array Value
  numParams : Nat
  numLocals : Nat
  sig : Signature
deriving Repr

/-- A function of the host. It takes `arity` values off the stack, a receiver among them, and puts its
results on it. -/
structure Native where
  name : String
  sig : Signature
  arity : Nat
  run : Stack → Stack

/-- What a function is found by: a package or the type of a receiver, and a name. -/
structure Key where
  qualifier : String
  name : String
deriving DecidableEq, Hashable, Repr

/-- Functions with numbers and keys. -/
structure Table (α : Type) where
  entries : Array α := #[]
  ids : Std.HashMap Key Nat := ∅

namespace Table

/-- A table holds at most so many functions, as many as two bytes can number. -/
def capacity : Nat := 65536

variable {α : Type}

/-- The number and the function of a key. -/
def lookup? (t : Table α) (key : Key) : Option (Nat × α) :=
  t.ids[key]?.bind fun id => t.entries[id]?.map fun a => (id, a)

def get? (t : Table α) (id : Nat) : Option α :=
  t.entries[id]?

def size (t : Table α) : Nat :=
  t.entries.size

/-- Adds a function, or puts it in the place of an earlier one with the same key. Gives its number; a
full table stays as it is and gives none. -/
def add (t : Table α) (key : Key) (a : α) : Table α × Option Nat :=
  match t.ids[key]? with
  | some id => ({ t with entries := t.entries.setIfInBounds id a }, some id)
  | none =>
    if t.entries.size < capacity then
      ({ entries := t.entries.push a, ids := t.ids.insert key t.entries.size },
        some t.entries.size)
    else (t, none)

end Table

/-- All functions that filter code can call. -/
structure Registry where
  natives : Table Native := {}
  funcs : Table Func := {}

namespace Registry

def empty : Registry := {}

def lookupNative? (r : Registry) (qualifier name : String) : Option (Nat × Native) :=
  r.natives.lookup? ⟨qualifier, name⟩

def lookupFunc? (r : Registry) (qualifier name : String) : Option (Nat × Func) :=
  r.funcs.lookup? ⟨qualifier, name⟩

def addFunc (r : Registry) (qualifier : String) (f : Func) : Registry × Option Nat :=
  let (funcs, id) := r.funcs.add ⟨qualifier, f.name⟩ f
  ({ r with funcs }, id)

/-- Adds a function of the host under a package. -/
def addNative (r : Registry) (qualifier name : String) (sig : Signature) (run : Stack → Stack) :
    Registry × Option Nat :=
  let native : Native := ⟨qualifier ++ "." ++ name, sig, sig.params.length, run⟩
  let (natives, id) := r.natives.add ⟨qualifier, name⟩ native
  ({ r with natives }, id)

/-- Adds a method of a type. Its receiver is not part of the signature. -/
def addMethod (r : Registry) (type name : String) (sig : Signature) (run : Stack → Stack) :
    Registry × Option Nat :=
  let native : Native := ⟨"(" ++ type ++ ")." ++ name, sig, sig.params.length + 1, run⟩
  let (natives, id) := r.natives.add ⟨type, name⟩ native
  ({ r with natives }, id)

end Registry

end GoSift.Filter
