/-!
# Catalogs

Values by key, kept in increasing order of the keys.
-/

namespace BlitzDoc

/-- Values by key, in increasing order of the keys. -/
abbrev Catalog (α : Type) := List (String × α)

namespace Catalog

variable {α : Type}

/-- The value under a key. -/
def find? (c : Catalog α) (key : String) : Option α :=
  c.lookup key

/-- Puts a value under a key, in the place of an older one if there is any. -/
def insert (key : String) (value : α) : Catalog α → Catalog α
  | [] => [(key, value)]
  | (k, v) :: rest =>
    if key < k then (key, value) :: (k, v) :: rest
    else if key = k then (key, value) :: rest
    else (k, v) :: insert key value rest

/-- Removes a key. -/
def erase (c : Catalog α) (key : String) : Catalog α :=
  c.filter fun e => e.1 != key

/-- The catalog of some entries; of repeated keys the last one counts. -/
def ofList (entries : List (String × α)) : Catalog α :=
  entries.foldl (fun c e => insert e.1 e.2 c) []

/-- The values in the order of their keys. -/
def values (c : Catalog α) : List α :=
  c.map (·.2)

end Catalog

end BlitzDoc
