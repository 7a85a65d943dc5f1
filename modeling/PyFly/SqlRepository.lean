import PyFly.QueryMethodCompiler
import Mathlib.Data.List.Nodup

/-!
# The SQLAlchemy repository

The session of a repository reads its own writes, so that one table stands
for the session and the database behind it.  The order in which a database
returns rows is its own, except for the sort keys.
-/

namespace PyFly.Data

open Library List

/-- An entity as it is stored. -/
structure Record (ι V : Type) where
  id : ι
  columns : Row V

structure Table (ι V : Type) where
  rows : List (Record ι V)
  distinct : (rows.map (·.id)).Nodup

variable {ι V : Type} [DecidableEq ι] [Scalar V]

structure RowOrder (ι V : Type) where
  orderBy : List (String × SortOrder) → List (Record ι V) → List (Record ι V)
  orderBy_perm : ∀ keys rows, (orderBy keys rows).Perm rows

namespace Table

def get (table : Table ι V) (id : ι) : Option (Record ι V) :=
  table.rows.find? (·.id = id)

def select (table : Table ι V) (statement : Select (Comparison V)) : List (Record ι V) :=
  table.rows.filter fun row =>
    statement.selects (Comparison.truth row.columns)

/-- The table without the rows of a `DELETE`. -/
def remove (table : Table ι V) (removed : Record ι V → Bool) : Table ι V where
  rows := table.rows.filter (!removed ·)
  distinct := table.distinct.sublist (filter_sublist.map _)

def update (table : Table ι V) (updated : Record ι V → Bool)
    (columns : Row V → Row V) : Table ι V where
  rows := table.rows.map fun row =>
    if updated row then { row with columns := columns row.columns } else row
  distinct := by
    have hids : (table.rows.map fun row =>
        if updated row then { row with columns := columns row.columns }
        else row).map (·.id) = table.rows.map (·.id) := by
      rw [map_map]
      apply map_congr_left
      intro row _
      simp only [Function.comp_apply]
      split <;> rfl
    rw [hids]
    exact table.distinct

def put (table : Table ι V) (entity : Record ι V) : Table ι V :=
  if hmem : entity.id ∈ table.rows.map (·.id) then
    table.update (·.id = entity.id) (fun _ => entity.columns)
  else
    { rows := table.rows ++ [entity]
      distinct := by
        rw [map_append, map_cons, map_nil]
        exact table.distinct.append (nodup_singleton _)
          (by simpa using hmem) }

end Table

structure Pageable where
  page : ℤ := 1
  size : ℤ := 20
  sort : List (String × SortOrder) := []

def Pageable.offset (pageable : Pageable) : ℤ :=
  (pageable.page - 1) * pageable.size

structure Page (α : Type) where
  items : List α
  total : ℕ
  page : ℤ
  size : ℤ

def offsetLimit {α : Type} (offset limit : ℤ) (rows : List α) : List α :=
  (rows.drop offset.toNat).take limit.toNat

abbrev Filters (V : Type) := List (String × Option V)

/-- The loop which adds a `where` for each filter. -/
def applyFilters (statement : Select (Comparison V)) :
    Filters V → Except QueryError (Select (Comparison V))
  | [] => .ok statement
  | (key, value) :: filters => do
      let clause ← Column.eq key value
      applyFilters (statement.where_ clause) filters

/-! ## `Repository`

The `self.find_by_id` of a method is a parameter of it.
-/

namespace Repository

def findById (id : ι) (table : Table ι V) : Option (Record ι V) :=
  table.get id

def findAll (filters : Filters V) (table : Table ι V) :
    Except QueryError (List (Record ι V)) := do
  let statement ← applyFilters ⟨none⟩ filters
  return table.select statement

def save (entity : Record ι V) (table : Table ι V) : Table ι V :=
  table.put entity

def saveAll (entities : List (Record ι V)) (table : Table ι V) : Table ι V :=
  entities.foldl (fun table entity => table.put entity) table

def delete (findById : ι → Table ι V → Option (Record ι V)) (id : ι)
    (table : Table ι V) : Table ι V :=
  match findById id table with
  | some entity => table.remove (·.id = entity.id)
  | none => table

def findPaginated (database : RowOrder ι V) (page size : ℤ)
    (pageable : Option Pageable) (table : Table ι V) :
    Page (Record ι V) :=
  let page := (pageable.map (·.page)).getD page
  let size := (pageable.map (·.size)).getD size
  let total := table.rows.length
  let offset := (page - 1) * size
  let keys := (pageable.map (·.sort)).getD []
  { items := offsetLimit offset size (database.orderBy keys table.rows)
    total := total
    page := page
    size := size }

def findAllBySpec (spec : Specification (Comparison V))
    (table : Table ι V) : Except QueryError (List (Record ι V)) := do
  let statement ← spec.toPredicate ⟨none⟩
  return table.select statement

def findAllBySpecPaged (database : RowOrder ι V)
    (spec : Specification (Comparison V)) (pageable : Pageable)
    (table : Table ι V) : Except QueryError (Page (Record ι V)) := do
  let filtered ← spec.toPredicate ⟨none⟩
  return {
    items := offsetLimit pageable.offset pageable.size
      (database.orderBy pageable.sort (table.select filtered))
    total := (table.select filtered).length
    page := pageable.page
    size := pageable.size }

def count (table : Table ι V) : ℕ :=
  table.rows.length

def exists_ (findById : ι → Table ι V → Option (Record ι V)) (id : ι)
    (table : Table ι V) : Bool :=
  (findById id table).isSome

def findAllByIds (ids : List ι) (table : Table ι V) : List (Record ι V) :=
  if ids = [] then [] else table.rows.filter (·.id ∈ ids)

/-- `delete_all_entities`, on the keys of loaded entities. -/
def deleteAllEntities (ids : List ι) (table : Table ι V) : ℕ × Table ι V :=
  (ids.length, table.remove (·.id ∈ ids))

end Repository

namespace QueryMethodCompiler

def compileFind (database : RowOrder ι V) (parsed : ParsedQuery)
    (args : List (Argument V)) (table : Table ι V) :
    Except QueryError (List (Record ι V)) := do
  let statement ← applyWhere ⟨none⟩ parsed args
  return database.orderBy (applyOrder parsed) (table.select statement)

def compileCount (parsed : ParsedQuery) (args : List (Argument V))
    (table : Table ι V) : Except QueryError ℕ := do
  let statement ← applyWhere ⟨none⟩ parsed args
  return (table.select statement).length

def compileExists (parsed : ParsedQuery) (args : List (Argument V))
    (table : Table ι V) : Except QueryError Bool := do
  let statement ← applyWhere ⟨none⟩ parsed args
  return decide (0 < (table.select statement).length)

def compileDelete (parsed : ParsedQuery) (args : List (Argument V))
    (table : Table ι V) : Except QueryError (ℕ × Table ι V) := do
  let statement ← applyWhere ⟨none⟩ parsed args
  return ((table.select statement).length,
    table.remove fun row => statement.selects (Comparison.truth row.columns))

end QueryMethodCompiler

end PyFly.Data
