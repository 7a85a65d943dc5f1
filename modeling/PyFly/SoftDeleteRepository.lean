import PyFly.SqlRepository

/-!
# The soft-deleting repository

The operations of a `SoftDeleteRepository`: those which the class overrides,
those which it inherits, and the derived queries compiled for it.
-/

namespace PyFly.Data

open Library

variable {ι V : Type} [DecidableEq ι] [Scalar V]

/-- `deleted_at` is not set. -/
def Record.visible (row : Record ι V) : Bool :=
  (row.columns "deleted_at").isNone

def Row.withDeletedAt (columns : Row V) (deletedAt : Option V) : Row V :=
  fun column => if column = "deleted_at" then deletedAt else columns column

namespace SoftDeleteRepository

/-- `delete`, at the instant `now`. -/
def delete (now : V) (id : ι) (table : Table ι V) : Table ι V :=
  match table.get id with
  | some entity =>
    table.update (·.id = entity.id) (·.withDeletedAt (some now))
  | none => table

def findById (id : ι) (table : Table ι V) : Option (Record ι V) :=
  match table.get id with
  | some entity => if entity.visible then some entity else none
  | none => none

def findAll (filters : Filters V) (table : Table ι V) :
    Except QueryError (List (Record ι V)) := do
  let undeleted ← Column.eq "deleted_at" none
  let statement ← applyFilters (Select.where_ undeleted ⟨none⟩) filters
  return table.select statement

def findAllIncludingDeleted (filters : Filters V) (table : Table ι V) :
    Except QueryError (List (Record ι V)) :=
  Repository.findAll filters table

def restore (id : ι) (table : Table ι V) : Option (Record ι V) × Table ι V :=
  match table.get id with
  | some entity =>
    let restored := table.update (·.id = entity.id) (·.withDeletedAt none)
    (restored.get id, restored)
  | none => (none, table)

/-- `hard_delete`: the inherited `delete`, which calls the overridden
`find_by_id`. -/
def hardDelete (id : ι) (table : Table ι V) : Table ι V :=
  Repository.delete findById id table

/-- `delete_all`, at the instant `now`. -/
def deleteAll (now : V) (ids : List ι) (table : Table ι V) : ℕ × Table ι V :=
  if ids = [] then (0, table)
  else
    ((table.rows.filter (·.id ∈ ids)).length,
      table.update (·.id ∈ ids) (·.withDeletedAt (some now)))

def count (table : Table ι V) : Except QueryError ℕ := do
  let undeleted ← Column.eq "deleted_at" none
  return (table.select (Select.where_ undeleted ⟨none⟩)).length

end SoftDeleteRepository

/-! ## Operations -/

inductive RepositoryOperation (ι V : Type)
  | save (entity : Record ι V)
  | saveAll (entities : List (Record ι V))
  | findById (id : ι)
  | findAll (filters : Filters V)
  | findAllIncludingDeleted (filters : Filters V)
  | findPaginated (page size : ℤ) (pageable : Option Pageable)
  | findAllBySpec (spec : Specification (Comparison V))
  | findAllBySpecPaged (spec : Specification (Comparison V)) (pageable : Pageable)
  | findAllByIds (ids : List ι)
  | count
  | exists_ (id : ι)
  | delete (id : ι)
  | deleteAll (ids : List ι)
  | deleteAllEntities (ids : List ι)
  | hardDelete (id : ι)
  | restore (id : ι)
  | derived (parsed : ParsedQuery) (args : List (Argument V))

inductive Answer (ι V : Type)
  | done
  | entity (found : Option (Record ι V))
  | entities (found : List (Record ι V))
  | number (count : ℕ)
  | flag (found : Bool)
  | page (page : Page (Record ι V))

def executeDerived (database : RowOrder ι V) (parsed : ParsedQuery)
    (args : List (Argument V)) (table : Table ι V) :
    Except QueryError (Answer ι V × Table ι V) :=
  match parsed.queryPrefix with
  | .findBy => do
      return (.entities (← QueryMethodCompiler.compileFind database parsed args table), table)
  | .countBy => do
      return (.number (← QueryMethodCompiler.compileCount parsed args table), table)
  | .existsBy => do
      return (.flag (← QueryMethodCompiler.compileExists parsed args table), table)
  | .deleteBy => do
      let (count, after) ←
        QueryMethodCompiler.compileDelete parsed args table
      return (.number count, after)
  | .unknown name => throw (.valueError ("Unknown prefix: " ++ name))

def RepositoryOperation.execute (database : RowOrder ι V) (now : V) (table : Table ι V) :
    RepositoryOperation ι V → Except QueryError (Answer ι V × Table ι V)
  | save entity =>
    let after := Repository.save entity table
    .ok (.entity (after.get entity.id), after)
  | saveAll entities => .ok (.entities entities, Repository.saveAll entities table)
  | findById id => .ok (.entity (SoftDeleteRepository.findById id table), table)
  | findAll filters => do
      return (.entities (← SoftDeleteRepository.findAll filters table), table)
  | findAllIncludingDeleted filters => do
      return (.entities (← SoftDeleteRepository.findAllIncludingDeleted filters table), table)
  | findPaginated page size pageable =>
    .ok (.page (Repository.findPaginated database page size pageable table), table)
  | findAllBySpec spec => do
      return (.entities (← Repository.findAllBySpec spec table), table)
  | findAllBySpecPaged spec pageable => do
      return (.page (← Repository.findAllBySpecPaged database spec pageable table), table)
  | findAllByIds ids =>
    .ok (.entities (Repository.findAllByIds ids table), table)
  | count => do return (.number (← SoftDeleteRepository.count table), table)
  | exists_ id =>
    .ok (.flag (Repository.exists_ SoftDeleteRepository.findById id table), table)
  | delete id => .ok (.done, SoftDeleteRepository.delete now id table)
  | deleteAll ids =>
    let (marked, after) := SoftDeleteRepository.deleteAll now ids table
    .ok (.number marked, after)
  | deleteAllEntities ids =>
    let (removed, after) := Repository.deleteAllEntities ids table
    .ok (.number removed, after)
  | hardDelete id => .ok (.done, SoftDeleteRepository.hardDelete id table)
  | restore id =>
    let (found, after) := SoftDeleteRepository.restore id table
    .ok (.entity found, after)
  | derived parsed args => executeDerived database parsed args table

def RepositoryOperation.after (database : RowOrder ι V) (now : V)
    (table : Table ι V) (operation : RepositoryOperation ι V) : Table ι V :=
  match operation.execute database now table with
  | .ok (_, after) => after
  | .error _ => table

structure Visit (ι V : Type) where
  table : Table ι V
  operation : RepositoryOperation ι V
  now : V

def visits (database : RowOrder ι V) (table : Table ι V) :
    List (RepositoryOperation ι V × V) → List (Visit ι V)
  | [] => []
  | (operation, now) :: operations =>
    ⟨table, operation, now⟩ :: visits database (operation.after database now table) operations

end PyFly.Data
