import PyFly.SoftDeleteRepository

/-!
# Visibility of soft-deleted rows

The overridden methods filter `deleted_at`; the inherited ones and the
compiled queries do not.  An operation behaves in a state exactly when the
rows which it selects there do not need the filter.
-/

namespace PyFly.Data

open Library List

variable {ι V : Type} [DecidableEq ι] [Scalar V]

namespace RepositoryOperation

/-- The rows which a finder, a counter or an existence check asks for, deleted
or not; `none` for the other operations. -/
def criterion (table : Table ι V) : RepositoryOperation ι V → Option (List (Record ι V))
  | findById id => some (table.rows.filter (·.id = id))
  | findAll filters =>
    some (((applyFilters ⟨none⟩ filters).map table.select).toOption.getD [])
  | findPaginated _ _ _ => some table.rows
  | findAllBySpec spec =>
    some (((spec.toPredicate ⟨none⟩).map table.select).toOption.getD [])
  | findAllBySpecPaged spec _ =>
    some (((spec.toPredicate ⟨none⟩).map table.select).toOption.getD [])
  | findAllByIds ids => some (table.rows.filter (·.id ∈ ids))
  | count => some table.rows
  | exists_ id => some (table.rows.filter (·.id = id))
  | derived parsed args =>
    if parsed.queryPrefix = .deleteBy then none
    else some (((QueryMethodCompiler.applyWhere ⟨none⟩ parsed args).map
      table.select).toOption.getD [])
  | _ => none

end RepositoryOperation

def Answer.Shows (rows : List (Record ι V)) : Answer ι V → Prop
  | .done => True
  | .entity found => ∀ row, found = some row → row ∈ rows
  | .entities found => ∀ row ∈ found, row ∈ rows
  | .number count => count = rows.length
  | .flag found => found = true ↔ rows ≠ []
  | .page paged =>
    (∀ row ∈ paged.items, row ∈ rows) ∧ paged.total = rows.length

structure Visit.Behaves (database : RowOrder ι V) (visit : Visit ι V) :
    Prop where
  shows : ∀ rows, visit.operation.criterion visit.table = some rows →
    ∀ answer after, visit.operation.execute database visit.now visit.table =
        .ok (answer, after) →
      answer.Shows (rows.filter (·.visible))
  keeps : (∀ id, visit.operation ≠ .hardDelete id) → ∀ row ∈ visit.table.rows,
      ∃ kept ∈ (visit.operation.after database visit.now visit.table).rows, kept.id = row.id
  removes : ∀ id, visit.operation = .hardDelete id →
    ∀ row ∈ (visit.operation.after database visit.now visit.table).rows, row.id ≠ id

def Visit.Careful (visit : Visit ι V) : Prop :=
  match visit.operation with
  | .findPaginated _ _ _ | .findAllBySpec _ | .findAllBySpecPaged _ _
  | .findAllByIds _ =>
    ∀ rows, visit.operation.criterion visit.table = some rows → ∀ row ∈ rows, row.visible = true
  | .derived parsed args =>
    ∀ statement, QueryMethodCompiler.applyWhere ⟨none⟩ parsed args = .ok statement →
      match parsed.queryPrefix with
      | .findBy | .countBy =>
        ∀ row ∈ visit.table.select statement, row.visible = true
      | .existsBy =>
        visit.table.select statement ≠ [] →
          ∃ row ∈ visit.table.select statement, row.visible = true
      | .deleteBy => visit.table.select statement = []
      | .unknown _ => True
  | .deleteAllEntities ids => ∀ row ∈ visit.table.rows, row.id ∉ ids
  | .hardDelete id =>
    ∀ row ∈ visit.table.rows, row.id = id → row.visible = true
  | _ => True

section Tables

omit [Scalar V]

variable {id : ι} {row : Record ι V}

theorem Table.mem_of_get {table : Table ι V} (hget : table.get id = some row) :
    row ∈ table.rows ∧ row.id = id := by
  have hid := List.find?_some hget
  exact ⟨mem_of_find?_eq_some hget, by simpa using hid⟩

theorem Table.get_of_mem {table : Table ι V} (hmem : row ∈ table.rows) :
    table.get row.id = some row := by
  cases hget : table.get row.id with
  | none =>
    have hnone := List.find?_eq_none.mp hget row hmem
    simp at hnone
  | some found =>
    obtain ⟨hfound, hid⟩ := Table.mem_of_get hget
    rw [inj_on_of_nodup_map table.distinct hfound hmem hid]

omit [DecidableEq ι] in
theorem Table.update_keeps (table : Table ι V) (updated : Record ι V → Bool)
    (columns : Row V → Row V) :
    ∀ row ∈ table.rows, ∃ kept ∈ (table.update updated columns).rows, kept.id = row.id := by
  intro row hmem
  refine ⟨_, mem_map_of_mem hmem, ?_⟩
  split <;> rfl

theorem Table.put_keeps (table : Table ι V) (entity : Record ι V) :
    ∀ row ∈ table.rows, ∃ kept ∈ (table.put entity).rows, kept.id = row.id := by
  intro row hmem
  unfold Table.put
  split
  · exact table.update_keeps _ _ row hmem
  · exact ⟨row, mem_append_left _ hmem, rfl⟩

theorem saveAll_keeps (entities : List (Record ι V)) (table : Table ι V) :
    ∀ row ∈ table.rows, ∃ kept ∈ (Repository.saveAll entities table).rows,
      kept.id = row.id := by
  induction entities generalizing table with
  | nil => exact fun row hmem => ⟨row, hmem, rfl⟩
  | cons entity entities ih =>
    intro row hmem
    obtain ⟨kept, hkept, hid⟩ := table.put_keeps entity row hmem
    obtain ⟨last, hlast, hlastId⟩ := ih (table.put entity) kept hkept
    exact ⟨last, hlast, hlastId.trans hid⟩

theorem findById_eq_some {table : Table ι V} :
    SoftDeleteRepository.findById id table = some row ↔
      row ∈ table.rows ∧ row.id = id ∧ row.visible = true := by
  unfold SoftDeleteRepository.findById
  constructor
  · intro hfound
    cases hget : table.get id with
    | none => simp [hget] at hfound
    | some entity =>
      obtain ⟨hmem, hid⟩ := Table.mem_of_get hget
      simp only [hget] at hfound
      split at hfound
      · cases hfound
        exact ⟨hmem, hid, ‹_›⟩
      · cases hfound
  · rintro ⟨hmem, rfl, hvisible⟩
    rw [Table.get_of_mem hmem]
    simp [hvisible]

theorem findById_eq_none {table : Table ι V} : SoftDeleteRepository.findById id table = none ↔
      ∀ row ∈ table.rows, row.id = id → row.visible = false := by
  rw [Option.eq_none_iff_forall_ne_some]
  constructor
  · intro hnone row hmem hid
    rw [Bool.eq_false_iff]
    intro hvisible
    exact hnone row (findById_eq_some.mpr ⟨hmem, hid, hvisible⟩)
  · intro hdeleted row hfound
    obtain ⟨hmem, hid, hvisible⟩ := findById_eq_some.mp hfound
    rw [hdeleted row hmem hid] at hvisible
    cases hvisible

end Tables

/-! ## Statements -/

def filterHolds (columns : Row V) (filter : String × Option V) : Bool :=
  match filter.2 with
  | none => (columns filter.1).isNone
  | some value =>
    (Comparison.compareNullable .eq (columns filter.1) (some value)).holds

theorem where_selects {A : Type} (row : A → Truth) (clause : ColumnElement A)
    (query : Select A) :
    (query.where_ clause).selects row = (query.selects row && (clause.truth row).holds) := by
  obtain ⟨_ | existing⟩ := query
  · simp [Select.where_, Select.selects]
  · simp [Select.where_, Select.selects]

theorem applyFilters_selects (filters : Filters V) (query : Select (Comparison V)) :
    ∃ statement, applyFilters query filters = .ok statement ∧
      ∀ columns, statement.selects (Comparison.truth columns) =
        (query.selects (Comparison.truth columns) && filters.all (filterHolds columns)) := by
  induction filters generalizing query with
  | nil => exact ⟨query, rfl, by simp⟩
  | cons filter filters ih =>
    obtain ⟨key, value⟩ := filter
    cases value with
    | none =>
      obtain ⟨statement, hstatement, hselects⟩ :=
        ih (query.where_ (.comparison (.isNull key)))
      refine ⟨statement, hstatement, fun columns => ?_⟩
      rw [hselects, where_selects, all_cons, Bool.and_assoc]
      simp [filterHolds]
    | some value =>
      obtain ⟨statement, hstatement, hselects⟩ :=
        ih (query.where_ (.comparison (.compare key .eq value)))
      refine ⟨statement, hstatement, fun columns => ?_⟩
      rw [hselects, where_selects, all_cons, Bool.and_assoc]
      simp [filterHolds]

theorem undeleted_selects (columns : Row V) :
    (Select.where_ (.comparison (.isNull "deleted_at")) ⟨none⟩).selects
        (Comparison.truth columns) =
      (columns "deleted_at").isNone := by
  simp [Select.where_, Select.selects]

omit [DecidableEq ι] in
theorem findAll_eq (filters : Filters V) (table : Table ι V) :
    SoftDeleteRepository.findAll filters table = .ok ((table.rows.filter fun row =>
        filters.all (filterHolds row.columns)).filter (·.visible)) := by
  obtain ⟨statement, hstatement, hselects⟩ := applyFilters_selects filters
    (Select.where_ (.comparison (.isNull "deleted_at")) ⟨none⟩)
  have hfilters : SoftDeleteRepository.findAll filters table =
      (applyFilters (Select.where_ (.comparison (.isNull "deleted_at"))
        ⟨none⟩) filters).map table.select := rfl
  rw [hfilters, hstatement, Except.map, Table.select, filter_filter]
  congr 1
  apply filter_congr
  intro row _
  rw [hselects, undeleted_selects]
  rfl

omit [DecidableEq ι] in
theorem count_eq (table : Table ι V) : SoftDeleteRepository.count table =
      .ok (table.rows.filter (·.visible)).length := by
  have hcount : SoftDeleteRepository.count table =
      .ok (table.select (Select.where_ (.comparison (.isNull "deleted_at"))
        ⟨none⟩)).length := rfl
  rw [hcount, Table.select]
  congr 2
  apply filter_congr
  intro row _
  exact undeleted_selects row.columns

/-! ## Operations -/

variable {database : RowOrder ι V}

section Operations

variable {operation : RepositoryOperation ι V} {now : V} {table : Table ι V}
  (hnot : ∀ id, operation ≠ .hardDelete id)
include hnot

theorem behaves_iff_of_answer {rows : List (Record ι V)} {answer : Answer ι V}
    (hcriterion : operation.criterion table = some rows)
    (hexecute : operation.execute database now table = .ok (answer, table)) :
    Visit.Behaves database ⟨table, operation, now⟩ ↔
      answer.Shows (rows.filter (·.visible)) := by
  constructor
  · intro hbehaves
    exact hbehaves.shows rows hcriterion answer table hexecute
  · intro hshows
    refine ⟨?_, ?_, fun id hid => absurd hid (hnot id)⟩
    · intro asked hasked given after hgiven
      simp only at hasked hgiven
      rw [hcriterion] at hasked
      rw [hexecute] at hgiven
      cases hasked
      cases hgiven
      exact hshows
    · intro _ row hmem
      refine ⟨row, ?_, rfl⟩
      simpa [RepositoryOperation.after, hexecute] using hmem

theorem behaves_of_error {error : QueryError}
    (hexecute : operation.execute database now table = .error error) :
    Visit.Behaves database ⟨table, operation, now⟩ := by
  refine ⟨?_, ?_, fun id hid => absurd hid (hnot id)⟩
  · intro rows _ answer after hanswer
    simp only at hanswer
    rw [hexecute] at hanswer
    cases hanswer
  · intro _ row hmem
    refine ⟨row, ?_, rfl⟩
    simpa [RepositoryOperation.after, hexecute] using hmem

theorem behaves_iff_keeps (hcriterion : operation.criterion table = none) :
    Visit.Behaves database ⟨table, operation, now⟩ ↔ ∀ row ∈ table.rows,
        ∃ kept ∈ (operation.after database now table).rows, kept.id = row.id := by
  constructor
  · intro hbehaves
    exact hbehaves.keeps hnot
  · intro hkeeps
    refine ⟨?_, fun _ => hkeeps, fun id hid => absurd hid (hnot id)⟩
    intro rows hrows
    simp only at hrows
    rw [hcriterion] at hrows
    cases hrows

end Operations

variable {rows : List (Record ι V)}

omit [DecidableEq ι] [Scalar V] in
theorem all_visible_iff : (∀ row ∈ rows, row ∈ rows.filter (·.visible)) ↔
      ∀ row ∈ rows, row.visible = true := by
  constructor
  · intro hmem row hrow
    exact (mem_filter.mp (hmem row hrow)).2
  · intro hvisible row hrow
    exact mem_filter.mpr ⟨hrow, hvisible row hrow⟩

omit [DecidableEq ι] [Scalar V] in
theorem shows_page_iff {items : List (Record ι V)} {page size : ℤ}
    (hitems : ∀ row ∈ items, row ∈ rows) :
    (Answer.page ⟨items, rows.length, page, size⟩).Shows (rows.filter (·.visible)) ↔
      ∀ row ∈ rows, row.visible = true := by
  constructor
  · rintro ⟨-, htotal⟩
    exact length_filter_eq_length_iff.mp htotal.symm
  · intro hvisible
    refine ⟨fun row hrow => ?_, ?_⟩
    · exact mem_filter.mpr ⟨hitems row hrow, hvisible row (hitems row hrow)⟩
    · exact (length_filter_eq_length_iff.mpr hvisible).symm

omit [DecidableEq ι] [Scalar V] in
theorem shows_number_iff : (Answer.number rows.length).Shows (rows.filter (·.visible)) ↔
      ∀ row ∈ rows, row.visible = true := by
  rw [Answer.Shows, eq_comm, length_filter_eq_length_iff]

omit [DecidableEq ι] [Scalar V] in
theorem mem_of_mem_offsetLimit {α : Type} {offset limit : ℤ}
    {rows : List α} {row : α} (hmem : row ∈ offsetLimit offset limit rows) :
    row ∈ rows :=
  mem_of_mem_drop (mem_of_mem_take hmem)

theorem behaves_findAllBySpec (spec : Specification (Comparison V))
    (table : Table ι V) (now : V) :
    Visit.Behaves database ⟨table, .findAllBySpec spec, now⟩ ↔
      Visit.Careful ⟨table, .findAllBySpec spec, now⟩ := by
  simp only [Visit.Careful]
  cases hspec : spec.toPredicate ⟨none⟩ with
  | error error =>
    have hrows : RepositoryOperation.criterion table (.findAllBySpec spec) = some [] := by
      simp [RepositoryOperation.criterion, hspec, Except.map, Except.toOption]
    have hexecute : RepositoryOperation.execute database now table
        (.findAllBySpec spec) = .error error := by
      simp only [RepositoryOperation.execute, Repository.findAllBySpec, hspec]
      rfl
    constructor
    · intro _ rows hcriterion
      rw [hrows] at hcriterion
      cases hcriterion
      simp
    · intro _
      exact behaves_of_error (by simp) hexecute
  | ok statement =>
    have hrows : RepositoryOperation.criterion table
        (.findAllBySpec spec) = some (table.select statement) := by
      simp [RepositoryOperation.criterion, hspec, Except.map, Except.toOption]
    have hexecute : RepositoryOperation.execute database now table (.findAllBySpec spec) =
          .ok (.entities (table.select statement), table) := by
      simp only [RepositoryOperation.execute, Repository.findAllBySpec, hspec]
      rfl
    rw [behaves_iff_of_answer (by simp) hrows hexecute]
    simp only [Answer.Shows, all_visible_iff, hrows, Option.some.injEq, forall_eq']

theorem behaves_findAllBySpecPaged (spec : Specification (Comparison V))
    (pageable : Pageable) (table : Table ι V) (now : V) :
    Visit.Behaves database ⟨table, .findAllBySpecPaged spec pageable, now⟩ ↔
      Visit.Careful ⟨table, .findAllBySpecPaged spec pageable, now⟩ := by
  simp only [Visit.Careful]
  cases hspec : spec.toPredicate ⟨none⟩ with
  | error error =>
    have hrows : RepositoryOperation.criterion table
        (.findAllBySpecPaged spec pageable) = some [] := by
      simp [RepositoryOperation.criterion, hspec, Except.map, Except.toOption]
    have hexecute : RepositoryOperation.execute database now table
        (.findAllBySpecPaged spec pageable) = .error error := by
      simp only [RepositoryOperation.execute, Repository.findAllBySpecPaged, hspec]
      rfl
    constructor
    · intro _ rows hcriterion
      rw [hrows] at hcriterion
      cases hcriterion
      simp
    · intro _
      exact behaves_of_error (by simp) hexecute
  | ok statement =>
    have hrows : RepositoryOperation.criterion table (.findAllBySpecPaged spec pageable) =
          some (table.select statement) := by
      simp [RepositoryOperation.criterion, hspec, Except.map, Except.toOption]
    have hexecute : RepositoryOperation.execute database now table
        (.findAllBySpecPaged spec pageable) = .ok (.page
            { items := offsetLimit pageable.offset pageable.size
                (database.orderBy pageable.sort (table.select statement))
              total := (table.select statement).length
              page := pageable.page
              size := pageable.size }, table) := by
      simp only [RepositoryOperation.execute, Repository.findAllBySpecPaged, hspec]
      rfl
    have hitems : ∀ row ∈ offsetLimit pageable.offset pageable.size
        (database.orderBy pageable.sort (table.select statement)),
        row ∈ table.select statement := fun row hrow =>
      (database.orderBy_perm _ _).mem_iff.mp (mem_of_mem_offsetLimit hrow)
    rw [behaves_iff_of_answer (by simp) hrows hexecute,
      shows_page_iff hitems]
    simp only [hrows, Option.some.injEq, forall_eq']

theorem behaves_findPaginated (page size : ℤ) (pageable : Option Pageable)
    (table : Table ι V) (now : V) :
    Visit.Behaves database ⟨table, .findPaginated page size pageable, now⟩ ↔
      Visit.Careful ⟨table, .findPaginated page size pageable, now⟩ := by
  have hrows : RepositoryOperation.criterion table
      (.findPaginated page size pageable) = some table.rows := rfl
  have hitems : ∀ row ∈ (Repository.findPaginated database page size
      pageable table).items, row ∈ table.rows := fun row hrow =>
    (database.orderBy_perm _ _).mem_iff.mp (mem_of_mem_offsetLimit hrow)
  rw [behaves_iff_of_answer (by simp) hrows rfl]
  simp only [Visit.Careful, hrows, Option.some.injEq, forall_eq']
  exact shows_page_iff hitems

theorem behaves_findAllByIds (ids : List ι) (table : Table ι V) (now : V) :
    Visit.Behaves database ⟨table, .findAllByIds ids, now⟩ ↔
      Visit.Careful ⟨table, .findAllByIds ids, now⟩ := by
  have hrows : RepositoryOperation.criterion table (.findAllByIds ids) =
      some (table.rows.filter (·.id ∈ ids)) := rfl
  have hfound : Repository.findAllByIds ids table = table.rows.filter (·.id ∈ ids) := by
    unfold Repository.findAllByIds
    split
    · rename_i hempty
      simp [hempty]
    · rfl
  rw [behaves_iff_of_answer (by simp) hrows rfl, hfound]
  simp only [Answer.Shows, all_visible_iff, Visit.Careful, hrows, Option.some.injEq, forall_eq']

theorem behaves_findById (id : ι) (table : Table ι V) (now : V) :
    Visit.Behaves database ⟨table, .findById id, now⟩ := by
  have hrows : RepositoryOperation.criterion table (.findById id) =
      some (table.rows.filter (·.id = id)) := rfl
  rw [behaves_iff_of_answer (by simp) hrows rfl]
  intro row hfound
  obtain ⟨hmem, hid, hvisible⟩ := findById_eq_some.mp hfound
  simp [hmem, hid, hvisible]

theorem behaves_exists (id : ι) (table : Table ι V) (now : V) :
    Visit.Behaves database ⟨table, .exists_ id, now⟩ := by
  have hrows : RepositoryOperation.criterion table (.exists_ id) =
      some (table.rows.filter (·.id = id)) := rfl
  rw [behaves_iff_of_answer (by simp) hrows rfl]
  simp only [Answer.Shows, Repository.exists_, Option.isSome_iff_exists]
  constructor
  · rintro ⟨row, hfound⟩
    obtain ⟨hmem, hid, hvisible⟩ := findById_eq_some.mp hfound
    apply ne_nil_of_mem
    exact mem_filter.mpr ⟨mem_filter.mpr ⟨hmem, by simpa using hid⟩, hvisible⟩
  · intro hne
    obtain ⟨row, hmem⟩ := exists_mem_of_ne_nil _ hne
    rw [mem_filter, mem_filter, decide_eq_true_eq] at hmem
    exact ⟨row, findById_eq_some.mpr ⟨hmem.1.1, hmem.1.2, hmem.2⟩⟩

theorem behaves_findAll (filters : Filters V) (table : Table ι V) (now : V) :
    Visit.Behaves database ⟨table, .findAll filters, now⟩ := by
  have hrows : RepositoryOperation.criterion table (.findAll filters) =
      some (table.rows.filter fun row =>
        filters.all (filterHolds row.columns)) := by
    obtain ⟨statement, hstatement, hselects⟩ :=
      applyFilters_selects filters ⟨none⟩
    have hall : ∀ columns, statement.selects (Comparison.truth columns) =
        filters.all (filterHolds columns) := hselects
    rw [RepositoryOperation.criterion, hstatement]
    simp [Except.map, Except.toOption, Table.select, hall]
  have hexecute : RepositoryOperation.execute database now table
      (.findAll filters) = .ok (.entities ((table.rows.filter fun row =>
        filters.all (filterHolds row.columns)).filter (·.visible)), table) := by
    simp only [RepositoryOperation.execute, findAll_eq]
    rfl
  rw [behaves_iff_of_answer (by simp) hrows hexecute]
  exact fun row hmem => hmem

theorem behaves_count (table : Table ι V) (now : V) :
    Visit.Behaves database ⟨table, .count, now⟩ := by
  have hrows : RepositoryOperation.criterion table
      (.count : RepositoryOperation ι V) = some table.rows := rfl
  have hexecute : RepositoryOperation.execute database now table .count =
      .ok (.number (table.rows.filter (·.visible)).length, table) := by
    simp only [RepositoryOperation.execute, count_eq]
    rfl
  rw [behaves_iff_of_answer (by simp) hrows hexecute]
  rfl

/-- The inherited `delete` looks for the row by the overridden
`find_by_id`. -/
theorem behaves_hardDelete (id : ι) (table : Table ι V) (now : V) :
    Visit.Behaves database ⟨table, .hardDelete id, now⟩ ↔
      Visit.Careful ⟨table, .hardDelete id, now⟩ := by
  have hafter : RepositoryOperation.after database now table
      (.hardDelete id) = SoftDeleteRepository.hardDelete id table := rfl
  constructor
  · intro hbehaves row hmem hid
    have hremoves := hbehaves.removes id rfl
    simp only [hafter] at hremoves
    by_contra hdeleted
    rw [Bool.not_eq_true] at hdeleted
    have hnone : SoftDeleteRepository.findById id table = none := by
      rw [findById_eq_none]
      intro other hother hotherId
      rw [inj_on_of_nodup_map table.distinct hother hmem (hotherId.trans hid.symm)]
      exact hdeleted
    apply hremoves row _ hid
    simpa [SoftDeleteRepository.hardDelete, Repository.delete, hnone] using hmem
  · intro hcareful
    refine ⟨?_, fun hnot => absurd rfl (hnot id), ?_⟩
    · intro rows hrows
      cases hrows
    · intro other hother row hmem
      cases hother
      rw [hafter, SoftDeleteRepository.hardDelete, Repository.delete] at hmem
      cases hfound : SoftDeleteRepository.findById id table with
      | none =>
        rw [hfound] at hmem
        intro hid
        have hdeleted := findById_eq_none.mp hfound row hmem hid
        rw [hcareful row hmem hid] at hdeleted
        cases hdeleted
      | some entity =>
        obtain ⟨-, hid, -⟩ := findById_eq_some.mp hfound
        rw [hfound] at hmem
        have hkept := (mem_filter.mp hmem).2
        simpa [hid] using hkept

theorem behaves_deleteAllEntities (ids : List ι) (table : Table ι V) (now : V) :
    Visit.Behaves database ⟨table, .deleteAllEntities ids, now⟩ ↔
      Visit.Careful ⟨table, .deleteAllEntities ids, now⟩ := by
  have hafter : RepositoryOperation.after database now table
      (.deleteAllEntities ids) = table.remove (·.id ∈ ids) := rfl
  rw [behaves_iff_keeps (by simp) rfl, hafter]
  constructor
  · intro hkeeps row hmem
    obtain ⟨kept, hkept, hid⟩ := hkeeps row hmem
    have hnot := (mem_filter.mp hkept).2
    simpa [hid] using hnot
  · intro hcareful row hmem
    refine ⟨row, mem_filter.mpr ⟨hmem, ?_⟩, rfl⟩
    simpa using hcareful row hmem

theorem behaves_derived_of_error {parsed : ParsedQuery}
    {args : List (Argument V)} {error : QueryError}
    (hwhere : QueryMethodCompiler.applyWhere ⟨none⟩ parsed args =
      .error error) (table : Table ι V) (now : V) :
    Visit.Behaves database ⟨table, .derived parsed args, now⟩ := by
  obtain ⟨kind, predicates, connectors, orders⟩ := parsed
  have hexecute : ∃ raised, RepositoryOperation.execute database now table
      (.derived ⟨kind, predicates, connectors, orders⟩ args) = .error raised := by
    cases kind with
    | findBy => exact ⟨error, by
        simp only [RepositoryOperation.execute, executeDerived,
          QueryMethodCompiler.compileFind, hwhere]
        rfl⟩
    | countBy => exact ⟨error, by
        simp only [RepositoryOperation.execute, executeDerived,
          QueryMethodCompiler.compileCount, hwhere]
        rfl⟩
    | existsBy => exact ⟨error, by
        simp only [RepositoryOperation.execute, executeDerived,
          QueryMethodCompiler.compileExists, hwhere]
        rfl⟩
    | deleteBy => exact ⟨error, by
        simp only [RepositoryOperation.execute, executeDerived,
          QueryMethodCompiler.compileDelete, hwhere]
        rfl⟩
    | unknown name => exact ⟨_, rfl⟩
  obtain ⟨raised, hraised⟩ := hexecute
  exact behaves_of_error (by simp) hraised

theorem behaves_derived (parsed : ParsedQuery) (args : List (Argument V))
    (table : Table ι V) (now : V) :
    Visit.Behaves database ⟨table, .derived parsed args, now⟩ ↔
      Visit.Careful ⟨table, .derived parsed args, now⟩ := by
  cases hwhere : QueryMethodCompiler.applyWhere ⟨none⟩ parsed args with
  | error error =>
    constructor
    · intro _ statement hstatement
      rw [hwhere] at hstatement
      cases hstatement
    · intro _
      exact behaves_derived_of_error hwhere table now
  | ok statement =>
    obtain ⟨kind, predicates, connectors, orders⟩ := parsed
    have hrows : kind ≠ .deleteBy → RepositoryOperation.criterion table
        (.derived ⟨kind, predicates, connectors, orders⟩ args) =
          some (table.select statement) := by
      intro hkind
      simp [RepositoryOperation.criterion, hwhere, hkind, Except.map, Except.toOption]
    cases kind with
    | findBy =>
      have hexecute : RepositoryOperation.execute database now table
          (.derived ⟨.findBy, predicates, connectors, orders⟩ args) =
            .ok (.entities (database.orderBy (QueryMethodCompiler.applyOrder
                ⟨.findBy, predicates, connectors, orders⟩)
              (table.select statement)), table) := by
        simp only [RepositoryOperation.execute, executeDerived,
          QueryMethodCompiler.compileFind, hwhere]
        rfl
      rw [behaves_iff_of_answer (by simp) (hrows (by decide)) hexecute]
      simp only [Answer.Shows, (database.orderBy_perm _ _).mem_iff,
        all_visible_iff, Visit.Careful, hwhere, Except.ok.injEq,
        forall_eq']
    | countBy =>
      have hexecute : RepositoryOperation.execute database now table
          (.derived ⟨.countBy, predicates, connectors, orders⟩ args) =
            .ok (.number (table.select statement).length, table) := by
        simp only [RepositoryOperation.execute, executeDerived,
          QueryMethodCompiler.compileCount, hwhere]
        rfl
      rw [behaves_iff_of_answer (by simp) (hrows (by decide)) hexecute,
        shows_number_iff]
      simp only [Visit.Careful, hwhere, Except.ok.injEq, forall_eq']
    | existsBy =>
      have hexecute : RepositoryOperation.execute database now table
          (.derived ⟨.existsBy, predicates, connectors, orders⟩ args) =
            .ok (.flag (decide (0 < (table.select statement).length)), table) := by
        simp only [RepositoryOperation.execute, executeDerived,
          QueryMethodCompiler.compileExists, hwhere]
        rfl
      rw [behaves_iff_of_answer (by simp) (hrows (by decide)) hexecute]
      simp only [Answer.Shows, Visit.Careful, hwhere, Except.ok.injEq,
        forall_eq', decide_eq_true_eq, length_pos_iff]
      constructor
      · intro hiff hne
        obtain ⟨row, hmem⟩ := exists_mem_of_ne_nil _ (hiff.mp hne)
        exact ⟨row, mem_filter.mp hmem⟩
      · intro hcareful
        constructor
        · intro hne
          obtain ⟨row, hmem, hvisible⟩ := hcareful hne
          exact ne_nil_of_mem (mem_filter.mpr ⟨hmem, hvisible⟩)
        · intro hne hempty
          rw [hempty] at hne
          exact hne rfl
    | deleteBy =>
      have hafter : RepositoryOperation.after database now table
          (.derived ⟨.deleteBy, predicates, connectors, orders⟩ args) = table.remove fun row =>
              statement.selects (Comparison.truth row.columns) := by
        simp only [RepositoryOperation.after, RepositoryOperation.execute, executeDerived,
          QueryMethodCompiler.compileDelete, hwhere]
        rfl
      rw [behaves_iff_keeps (by simp) rfl, hafter]
      simp only [Visit.Careful, hwhere, Except.ok.injEq, forall_eq']
      constructor
      · intro hkeeps
        rw [Table.select, filter_eq_nil_iff]
        intro row hmem hselects
        obtain ⟨kept, hkept, hid⟩ := hkeeps row hmem
        obtain ⟨hkeptMem, hnot⟩ := mem_filter.mp hkept
        rw [inj_on_of_nodup_map table.distinct hkeptMem hmem hid]
          at hnot
        simp [hselects] at hnot
      · intro hempty row hmem
        rw [Table.select, filter_eq_nil_iff] at hempty
        refine ⟨row, mem_filter.mpr ⟨hmem, ?_⟩, rfl⟩
        simpa using hempty row hmem
    | unknown name =>
      constructor
      · intro _ _ _
        trivial
      · intro _
        exact behaves_of_error (by simp) rfl

theorem behaves_iff_careful (visit : Visit ι V) : visit.Behaves database ↔ visit.Careful := by
  obtain ⟨table, operation, now⟩ := visit
  cases operation with
  | save entity =>
    rw [behaves_iff_keeps (by simp) rfl]
    exact iff_of_true (table.put_keeps entity) trivial
  | saveAll entities =>
    rw [behaves_iff_keeps (by simp) rfl]
    exact iff_of_true (saveAll_keeps entities table) trivial
  | findById id => exact iff_of_true (behaves_findById id table now) trivial
  | findAll filters =>
    exact iff_of_true (behaves_findAll filters table now) trivial
  | findAllIncludingDeleted filters =>
    rw [behaves_iff_keeps (by simp) rfl]
    refine iff_of_true (fun row hmem => ⟨row, ?_, rfl⟩) trivial
    obtain ⟨statement, hstatement, -⟩ := applyFilters_selects filters ⟨none⟩
    simpa [RepositoryOperation.after, RepositoryOperation.execute,
      SoftDeleteRepository.findAllIncludingDeleted, Repository.findAll,
      hstatement, bind, Except.bind, pure, Except.pure] using hmem
  | findPaginated page size pageable =>
    exact behaves_findPaginated page size pageable table now
  | findAllBySpec spec => exact behaves_findAllBySpec spec table now
  | findAllBySpecPaged spec pageable =>
    exact behaves_findAllBySpecPaged spec pageable table now
  | findAllByIds ids => exact behaves_findAllByIds ids table now
  | count => exact iff_of_true (behaves_count table now) trivial
  | exists_ id => exact iff_of_true (behaves_exists id table now) trivial
  | delete id =>
    rw [behaves_iff_keeps (by simp) rfl]
    refine iff_of_true ?_ trivial
    intro row hmem
    simp only [RepositoryOperation.after, RepositoryOperation.execute,
      SoftDeleteRepository.delete]
    split
    · exact table.update_keeps _ _ row hmem
    · exact ⟨row, hmem, rfl⟩
  | deleteAll ids =>
    rw [behaves_iff_keeps (by simp) rfl]
    refine iff_of_true ?_ trivial
    intro row hmem
    simp only [RepositoryOperation.after, RepositoryOperation.execute,
      SoftDeleteRepository.deleteAll]
    split
    · exact ⟨row, hmem, rfl⟩
    · exact table.update_keeps _ _ row hmem
  | deleteAllEntities ids => exact behaves_deleteAllEntities ids table now
  | hardDelete id => exact behaves_hardDelete id table now
  | restore id =>
    rw [behaves_iff_keeps (by simp) rfl]
    refine iff_of_true ?_ trivial
    intro row hmem
    simp only [RepositoryOperation.after, RepositoryOperation.execute,
      SoftDeleteRepository.restore]
    split
    · exact table.update_keeps _ _ row hmem
    · exact ⟨row, hmem, rfl⟩
  | derived parsed args => exact behaves_derived parsed args table now

/-- A run behaves exactly when each of its operations is careful in the table
it finds. -/
theorem run_behaves_iff (database : RowOrder ι V) (table : Table ι V)
    (operations : List (RepositoryOperation ι V × V)) :
    (∀ visit ∈ visits database table operations, visit.Behaves database) ↔
      ∀ visit ∈ visits database table operations, visit.Careful := by
  constructor
  · intro hbehaves visit hmem
    exact (behaves_iff_careful visit).mp (hbehaves visit hmem)
  · intro hcareful visit hmem
    exact (behaves_iff_careful visit).mpr (hcareful visit hmem)

/-- `hard_delete` does not find a row which `delete` has marked. -/
theorem not_run_behaves_hardDelete : ¬ ∀ (database : RowOrder ℕ ℤ) (table : Table ℕ ℤ)
      (operations : List (RepositoryOperation ℕ ℤ × ℤ)),
      ∀ visit ∈ visits database table operations, visit.Behaves database := by
  intro hclaim
  let table : Table ℕ ℤ :=
    ⟨[⟨1, fun _ => none⟩], nodup_singleton _⟩
  let database : RowOrder ℕ ℤ := ⟨fun _ rows => rows, fun _ rows => .refl rows⟩
  have hbehaves := hclaim database table [(.delete 1, 10), (.hardDelete 1, 20)]
    ⟨SoftDeleteRepository.delete 10 1 table, .hardDelete 1, 20⟩
    (mem_cons_of_mem _ mem_cons_self)
  let marked : Record ℕ ℤ := ⟨1, Row.withDeletedAt (fun _ => none) (some 10)⟩
  exact hbehaves.removes 1 rfl marked (show marked ∈ [marked] from mem_singleton_self _) rfl

end PyFly.Data
