import Std.Data.TreeMap

/-!
# Caches

A cache keeps what a reader made of a text, so that a text in frequent use is read once.
A full cache is emptied before the next entry is added.  Texts that the reader refuses are
not kept.
-/

namespace LuaRuntime

open Std (TreeMap)

/-- What a reader made of some texts. -/
structure Cache (α : Type) where
  /-- The texts with what they read as. -/
  entries : TreeMap String α := {}

namespace Cache

/-- The most entries a cache holds. -/
def capacity : Nat := 256

/-- The cache with one more entry. -/
def insert {α : Type} (cache : Cache α) (text : String) (a : α) : Cache α :=
  let entries := if capacity ≤ cache.entries.size then {} else cache.entries
  ⟨entries.insert text a⟩

/-- What a text reads as, from the cache if it is there, and the cache afterwards. -/
def read {α ε : Type} (reader : String → Except ε α) (text : String) (cache : Cache α) :
    Except ε α × Cache α :=
  match cache.entries[text]? with
  | some a => (.ok a, cache)
  | none =>
      match reader text with
      | .ok a => (.ok a, cache.insert text a)
      | .error e => (.error e, cache)

end Cache

end LuaRuntime
