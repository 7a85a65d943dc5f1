import PyFly.ColumnAgreement
import PyFly.MongoQueryMethodCompiler

/-!
# Agreement of the query method compilers

Both compilers build their clauses in one loop each, which moves over the
arguments alike.  One of them joins the clauses from the left, the other
flattens connectors of one kind.
-/

namespace PyFly.Data

open Library List

variable {V : Type} [Scalar V] {fold : Char → Char} {row : Row V}

/-- The arguments of a query, each of the kind its operator takes: an order
comparison takes a value other than `True` and `False`. -/
inductive Fits : List FieldPredicate → List (Argument V) → Prop
  | nil : Fits [] []
  | equality {field op predicates args} (value : Option V)
      (hop : op = .eq ∨ op = .not) (hrest : Fits predicates args) :
      Fits (⟨field, op⟩ :: predicates) (.value value :: args)
  | order {field op predicates args} (value : V)
      (hop : op = .gt ∨ op = .gte ∨ op = .lt ∨ op = .lte)
      (hvalue : Scalar.isBool value = false)
      (hrest : Fits predicates args) :
      Fits (⟨field, op⟩ :: predicates) (.value (some value) :: args)
  | in_ {field predicates args} (values : List (Option V)) (hrest : Fits predicates args) :
      Fits (⟨field, .in_⟩ :: predicates) (.list values :: args)
  | between {field predicates args} (low high : Option V) (hrest : Fits predicates args) :
      Fits (⟨field, .between⟩ :: predicates) (.value low :: .value high :: args)
  | nullTest {field op predicates args}
      (hop : op = .isNull ∨ op = .isNotNull) (hrest : Fits predicates args) :
      Fits (⟨field, op⟩ :: predicates) args

/-! ## The clauses -/

structure ClausesAgree (fold : Char → Char) (row : Row V)
    (predicates : List FieldPredicate) (args : List (Argument V))
    (argIdx : ℕ) : Prop where
  starts : ∃ starts,
    startsFrom (QueryMethodCompiler.buildClause · args ·) predicates argIdx = .ok starts ∧
    startsFrom (MongoQueryMethodCompiler.buildClause · args ·) predicates argIdx = .ok starts
  built : ∃ clauses documents last,
    collectFrom (QueryMethodCompiler.buildClause · args ·) predicates
      argIdx = .ok (clauses, last) ∧
    collectFrom (MongoQueryMethodCompiler.buildClause · args ·) predicates
      argIdx = .ok (documents, last) ∧
    clauses.length = predicates.length ∧
    clauses.map (fun clause =>
      (clause.truth (Comparison.truth row)).holds) = documents.map (·.accepts fold row)

theorem ClausesAgree.cons {predicate : FieldPredicate}
    {predicates : List FieldPredicate} {args : List (Argument V)}
    {argIdx next : ℕ} {built : Clause V} {document : MongoDocument V}
    (hsql : QueryMethodCompiler.buildClause predicate args argIdx = do return (← built, next))
    (hmongo : MongoQueryMethodCompiler.buildClause predicate args argIdx = .ok (document, next))
    (hagrees : Agrees fold row built document)
    (hrest : ClausesAgree fold row predicates args next) :
    ClausesAgree fold row (predicate :: predicates) args argIdx := by
  obtain ⟨clause, rfl, hholds⟩ := hagrees
  constructor
  · obtain ⟨starts, hstarts, hstartsMongo⟩ := hrest.starts
    refine ⟨argIdx :: starts, ?_, ?_⟩
    · simp [startsFrom, hsql, hstarts, bind, Except.bind, pure, Except.pure]
    · simp [startsFrom, hmongo, hstartsMongo, bind, Except.bind, pure, Except.pure]
  · obtain ⟨clauses, documents, last, hclauses, hdocuments, hlength, hmap⟩ :=
      hrest.built
    refine ⟨clause :: clauses, document :: documents, last, ?_, ?_,
      by simp [hlength], by simp [hholds, hmap]⟩
    · simp [collectFrom, hsql, hclauses, bind, Except.bind, pure, Except.pure]
    · simp [collectFrom, hmongo, hdocuments, bind, Except.bind, pure, Except.pure]

omit [Scalar V] in
theorem argument_of_drop {args rest : List (Argument V)} {argIdx : ℕ}
    {value : Option V} (hdrop : args.drop argIdx = .value value :: rest) :
    argument args argIdx = .ok value ∧ args.drop (argIdx + 1) = rest := by
  have hget : args[argIdx]? = some (.value value) := by
    rw [← List.head?_drop, hdrop, List.head?_cons]
  constructor
  · simp [argument, hget]
  · rw [← tail_drop, hdrop, tail_cons]

omit [Scalar V] in
theorem listArgument_of_drop {args rest : List (Argument V)} {argIdx : ℕ}
    {values : List (Option V)}
    (hdrop : args.drop argIdx = .list values :: rest) :
    listArgument args argIdx = .ok values ∧ args.drop (argIdx + 1) = rest := by
  have hget : args[argIdx]? = some (.list values) := by
    rw [← List.head?_drop, hdrop, List.head?_cons]
  constructor
  · simp [listArgument, hget]
  · rw [← tail_drop, hdrop, tail_cons]

theorem clausesAgree {predicates : List FieldPredicate}
    {rest : List (Argument V)} (hfits : Fits predicates rest)
    (hstored : ∀ predicate ∈ predicates, row predicate.fieldName ≠ none)
    (args : List (Argument V)) (argIdx : ℕ) (hdrop : args.drop argIdx = rest) :
    ClausesAgree fold row predicates args argIdx := by
  induction hfits generalizing argIdx with
  | nil =>
    exact ⟨⟨[], rfl, rfl⟩, [], [], argIdx, rfl, rfl, rfl, rfl⟩
  | equality value hop hfits ih =>
    obtain ⟨hargument, hnext⟩ := argument_of_drop hdrop
    obtain ⟨x, hx⟩ := Option.ne_none_iff_exists'.mp (hstored _ mem_cons_self)
    have hrest := ih (fun predicate hmem =>
      hstored predicate (mem_cons_of_mem _ hmem)) (argIdx + 1) hnext
    rcases hop with rfl | rfl
    · refine ClausesAgree.cons ?_ ?_ (eq_settled hx value).agrees hrest
      · simp only [QueryMethodCompiler.buildClause, hargument]
        rfl
      · simp only [MongoQueryMethodCompiler.buildClause, hargument]
        rfl
    · refine ClausesAgree.cons ?_ ?_ (ne_settled hx value).agrees hrest
      · simp only [QueryMethodCompiler.buildClause, hargument]
        rfl
      · simp only [MongoQueryMethodCompiler.buildClause, hargument]
        rfl
  | order value hop hvalue hfits ih =>
    obtain ⟨hargument, hnext⟩ := argument_of_drop hdrop
    obtain ⟨x, hx⟩ := Option.ne_none_iff_exists'.mp (hstored _ mem_cons_self)
    have hrest := ih (fun predicate hmem =>
      hstored predicate (mem_cons_of_mem _ hmem)) (argIdx + 1) hnext
    have horder := fun op =>
      (@order_settled V _ fold row _ x hx op _ ⟨value, rfl, hvalue⟩).agrees
    rcases hop with rfl | rfl | rfl | rfl
    · refine ClausesAgree.cons ?_ ?_ (horder .gt) hrest
      · simp only [QueryMethodCompiler.buildClause, hargument]
        rfl
      · simp only [MongoQueryMethodCompiler.buildClause, hargument]
        rfl
    · refine ClausesAgree.cons ?_ ?_ (horder .ge) hrest
      · simp only [QueryMethodCompiler.buildClause, hargument]
        rfl
      · simp only [MongoQueryMethodCompiler.buildClause, hargument]
        rfl
    · refine ClausesAgree.cons ?_ ?_ (horder .lt) hrest
      · simp only [QueryMethodCompiler.buildClause, hargument]
        rfl
      · simp only [MongoQueryMethodCompiler.buildClause, hargument]
        rfl
    · refine ClausesAgree.cons ?_ ?_ (horder .le) hrest
      · simp only [QueryMethodCompiler.buildClause, hargument]
        rfl
      · simp only [MongoQueryMethodCompiler.buildClause, hargument]
        rfl
  | in_ values hfits ih =>
    obtain ⟨hargument, hnext⟩ := listArgument_of_drop hdrop
    obtain ⟨x, hx⟩ := Option.ne_none_iff_exists'.mp (hstored _ mem_cons_self)
    have hrest := ih (fun predicate hmem =>
      hstored predicate (mem_cons_of_mem _ hmem)) (argIdx + 1) hnext
    refine ClausesAgree.cons ?_ ?_ (in_agrees hx values) hrest
    · simp only [QueryMethodCompiler.buildClause, hargument]
      rfl
    · simp only [MongoQueryMethodCompiler.buildClause, hargument]
      rfl
  | between low high hfits ih =>
    obtain ⟨hlow, hdropHigh⟩ := argument_of_drop hdrop
    obtain ⟨hhigh, hnext⟩ := argument_of_drop hdropHigh
    obtain ⟨x, hx⟩ := Option.ne_none_iff_exists'.mp (hstored _ mem_cons_self)
    have hrest := ih (fun predicate hmem =>
      hstored predicate (mem_cons_of_mem _ hmem)) (argIdx + 2) hnext
    refine ClausesAgree.cons ?_ ?_ (between_agrees hx low high) hrest
    · simp only [QueryMethodCompiler.buildClause, hlow, hhigh]
      rfl
    · simp only [MongoQueryMethodCompiler.buildClause, hlow, hhigh]
      rfl
  | nullTest hop hfits ih =>
    obtain ⟨x, hx⟩ := Option.ne_none_iff_exists'.mp (hstored _ mem_cons_self)
    have hrest := ih (fun predicate hmem =>
      hstored predicate (mem_cons_of_mem _ hmem)) argIdx hdrop
    rcases hop with rfl | rfl
    · exact ClausesAgree.cons rfl rfl (isNull_settled hx).agrees hrest
    · exact ClausesAgree.cons rfl rfl (isNotNull_settled hx).agrees hrest

/-! ## The connectors -/

theorem joinFrom_eq {C : Type} (join : Connector → C → C → C)
    (clauses : List C) (connectors : List Connector) (combined : C) (i : ℕ)
    (hlength : i + 1 + connectors.length ≤ clauses.length) :
    joinFrom join clauses combined i connectors =
      .ok ((connectors.zip (clauses.drop (i + 1))).foldl
        (fun combined pair => join pair.1 combined pair.2) combined) := by
  induction connectors generalizing combined i with
  | nil => rfl
  | cons connector connectors ih =>
    rw [length_cons] at hlength
    have hlt : i + 1 < clauses.length := by omega
    simp only [joinFrom, List.getElem?_eq_getElem hlt]
    rw [ih _ _ (by omega), drop_eq_getElem_cons hlt,
      zip_cons_cons, foldl_cons]

def joinTruth (first : Bool) (connectors : List Connector) (rest : List Bool) : Bool :=
  (connectors.zip rest).foldl
    (fun combined pair =>
      if pair.1 = .and then combined && pair.2 else combined || pair.2)
    first

theorem joinTruth_cons (first next : Bool) (connector : Connector)
    (connectors : List Connector) (rest : List Bool) :
    joinTruth first (connector :: connectors) (next :: rest) = joinTruth
        (if connector = .and then first && next else first || next)
        connectors rest :=
  rfl

theorem joinTruth_all_and (first : Bool) (connectors : List Connector)
    (rest : List Bool) (hlength : connectors.length = rest.length)
    (hand : ∀ connector ∈ connectors, connector = .and) :
    joinTruth first connectors rest = (first && rest.all id) := by
  induction rest generalizing first connectors with
  | nil => simp [joinTruth]
  | cons next rest ih =>
    cases connectors with
    | nil => simp at hlength
    | cons connector connectors =>
      rw [forall_mem_cons] at hand
      rw [joinTruth_cons, if_pos hand.1, ih _ _ (by simpa using hlength) hand.2, Bool.and_assoc]
      rfl

theorem joinTruth_all_or (first : Bool) (connectors : List Connector)
    (rest : List Bool) (hlength : connectors.length = rest.length)
    (hor : ∀ connector ∈ connectors, connector = .or) :
    joinTruth first connectors rest = (first || rest.any id) := by
  induction rest generalizing first connectors with
  | nil => simp [joinTruth]
  | cons next rest ih =>
    cases connectors with
    | nil => simp at hlength
    | cons connector connectors =>
      rw [forall_mem_cons] at hor
      rw [joinTruth_cons, if_neg (by rw [hor.1]; decide),
        ih _ _ (by simpa using hlength) hor.2, Bool.or_assoc]
      rfl

theorem holds_joinClauses (connectors : List Connector) (first : ColumnElement (Comparison V))
    (rest : List (ColumnElement (Comparison V))) :
    (((connectors.zip rest).foldl
        (fun combined pair =>
          QueryMethodCompiler.joinClauses pair.1 combined pair.2)
        first).truth (Comparison.truth row)).holds =
      joinTruth (first.truth (Comparison.truth row)).holds connectors (rest.map fun clause =>
          (clause.truth (Comparison.truth row)).holds) := by
  induction connectors generalizing first rest with
  | nil => rfl
  | cons connector connectors ih =>
    cases rest with
    | nil => rfl
    | cons clause rest =>
      rw [zip_cons_cons, foldl_cons, ih, map_cons,
        joinTruth_cons, QueryMethodCompiler.joinClauses]
      split <;> simp

theorem accepts_joinClauses (connectors : List Connector)
    (first : MongoDocument V) (rest : List (MongoDocument V)) :
    ((connectors.zip rest).foldl
        (fun result pair =>
          MongoQueryMethodCompiler.joinClauses pair.1 result pair.2)
        first).accepts fold row =
      joinTruth (first.accepts fold row) connectors (rest.map (·.accepts fold row)) := by
  induction connectors generalizing first rest with
  | nil => rfl
  | cons connector connectors ih =>
    cases rest with
    | nil => rfl
    | cons clause rest =>
      rw [zip_cons_cons, foldl_cons, ih, map_cons,
        joinTruth_cons, MongoQueryMethodCompiler.joinClauses]
      split <;> simp

theorem holds_combineClauses {connectors : List Connector}
    {first : ColumnElement (Comparison V)}
    {rest : List (ColumnElement (Comparison V))}
    (hlength : connectors.length = rest.length) :
    ∃ combined, QueryMethodCompiler.combineClauses connectors (first :: rest) = .ok combined ∧
      (combined.truth (Comparison.truth row)).holds =
        joinTruth (first.truth (Comparison.truth row)).holds connectors (rest.map fun clause =>
            (clause.truth (Comparison.truth row)).holds) := by
  have hbound : 0 + 1 + connectors.length ≤ (first :: rest).length := by
    rw [length_cons]
    omega
  refine ⟨_, joinFrom_eq _ _ _ _ _ hbound, ?_⟩
  exact holds_joinClauses connectors first rest

theorem accepts_combineClauses {connectors : List Connector}
    {first : MongoDocument V} {rest : List (MongoDocument V)}
    (hlength : connectors.length = rest.length) :
    ∃ document, MongoQueryMethodCompiler.combineClauses connectors (first :: rest) =
        .ok document ∧
      document.accepts fold row = joinTruth (first.accepts fold row) connectors
          (rest.map (·.accepts fold row)) := by
  cases rest with
  | nil =>
    rw [length_nil, length_eq_zero_iff] at hlength
    subst hlength
    exact ⟨first, rfl, rfl⟩
  | cons second rest =>
    have hbound : 0 + 1 + connectors.length ≤ (first :: second :: rest).length := by
      rw [length_cons, hlength]
      omega
    have hlengthMap : connectors.length =
        ((second :: rest).map (·.accepts fold row)).length := by
      rw [length_map, hlength]
    have hne : connectors ≠ [] := by
      rintro rfl
      simp at hlength
    simp only [MongoQueryMethodCompiler.combineClauses, if_neg hne]
    by_cases hand : connectors.all (· = .and) = true
    · rw [if_pos hand]
      refine ⟨_, rfl, ?_⟩
      rw [joinTruth_all_and _ _ _ hlengthMap (by simpa using hand)]
      simp
    · rw [if_neg hand]
      by_cases hor : connectors.all (· = .or) = true
      · rw [if_pos hor]
        refine ⟨_, rfl, ?_⟩
        rw [joinTruth_all_or _ _ _ hlengthMap (by simpa using hor)]
        simp
      · rw [if_neg hor]
        refine ⟨_, joinFrom_eq _ _ _ _ _ hbound, ?_⟩
        exact accepts_joinClauses connectors first (second :: rest)

/-- The compilers build statements and documents which accept the same rows,
take the same arguments, and order by the same keys. -/
theorem compilers_agree (parsed : ParsedQuery) (args : List (Argument V))
    (hfits : Fits parsed.predicates args)
    (hconnectors : parsed.connectors.length = parsed.predicates.length - 1)
    (hdirections : ∀ order ∈ parsed.orderClauses,
      order.direction = .asc ∨ order.direction = .desc)
    (hstored : ∀ predicate ∈ parsed.predicates, row predicate.fieldName ≠ none) :
    (∃ statement document, QueryMethodCompiler.applyWhere ⟨none⟩ parsed args = .ok statement ∧
      MongoQueryMethodCompiler.buildFilter parsed args = .ok document ∧
      statement.selects (Comparison.truth row) = document.accepts fold row) ∧
    (∃ starts, startsFrom (QueryMethodCompiler.buildClause · args ·)
        parsed.predicates 0 = .ok starts ∧
      startsFrom (MongoQueryMethodCompiler.buildClause · args ·)
        parsed.predicates 0 = .ok starts) ∧
    QueryMethodCompiler.applyOrder parsed = MongoQueryMethodCompiler.buildSort parsed := by
  have hagree : ClausesAgree fold row parsed.predicates args 0 :=
    clausesAgree hfits hstored args 0 rfl
  refine ⟨?_, hagree.starts, ?_⟩
  · by_cases hempty : parsed.predicates = []
    · refine ⟨⟨none⟩, .empty, ?_, ?_, ?_⟩
      · simp [QueryMethodCompiler.applyWhere, hempty, pure, Except.pure]
      · simp [MongoQueryMethodCompiler.buildFilter, hempty, pure, Except.pure]
      · simp [Select.selects]
    · obtain ⟨clauses, documents, last, hclauses, hdocuments, hlength, hmap⟩ := hagree.built
      have hpositive : 0 < parsed.predicates.length :=
        length_pos_iff.mpr hempty
      obtain ⟨first, rest, rfl⟩ : ∃ first rest, clauses = first :: rest :=
        exists_cons_of_length_pos (by omega)
      obtain ⟨document, documents, rfl⟩ :
          ∃ document others, documents = document :: others := by
        cases documents with
        | nil => simp at hmap
        | cons document others => exact ⟨document, others, rfl⟩
      rw [map_cons, map_cons, List.cons.injEq] at hmap
      have hrest : parsed.connectors.length = rest.length := by
        rw [length_cons] at hlength
        omega
      have hrestMongo : parsed.connectors.length = documents.length := by
        have hlengthMap := congrArg List.length hmap.2
        rw [length_map, length_map] at hlengthMap
        omega
      obtain ⟨combined, hcombined, hholds⟩ :=
        @holds_combineClauses V _ row _ first rest hrest
      obtain ⟨joined, hjoined, haccepts⟩ :=
        @accepts_combineClauses V _ fold row _ document documents hrestMongo
      refine ⟨⟨some combined⟩, joined, ?_, ?_, ?_⟩
      · simp [QueryMethodCompiler.applyWhere, hempty,
          QueryMethodCompiler.collectClauses, hclauses, hcombined,
          Select.where_, bind, Except.bind, pure, Except.pure]
      · simp [MongoQueryMethodCompiler.buildFilter, hempty,
          MongoQueryMethodCompiler.collectClauses, hdocuments, hjoined,
          bind, Except.bind]
      · rw [haccepts, ← hmap.1, ← hmap.2, ← hholds]
        rfl
  · rw [QueryMethodCompiler.applyOrder, MongoQueryMethodCompiler.buildSort]
    apply map_congr_left
    intro order hmem
    rcases hdirections order hmem with hdirection | hdirection <;> simp [hdirection]

/-- `find_by_age_greater_than(None)` raises over SQLAlchemy and finds nothing
in MongoDB. -/
theorem not_compilers_agree_order_none : ¬ ∃ statement document,
      QueryMethodCompiler.applyWhere (V := ℤ) ⟨none⟩
        ⟨.findBy, [⟨"age", .gt⟩], [], []⟩ [.value none] = .ok statement ∧
      MongoQueryMethodCompiler.buildFilter
        ⟨.findBy, [⟨"age", .gt⟩], [], []⟩ [.value none] = .ok document ∧
      statement.selects (Comparison.truth fun _ => some (5 : ℤ)) =
        document.accepts id fun _ => some (5 : ℤ) := by
  rintro ⟨statement, document, hsql, -, -⟩
  have hraises : QueryMethodCompiler.applyWhere (V := ℤ) ⟨none⟩
      ⟨.findBy, [⟨"age", .gt⟩], [], []⟩ [.value none] = .error Column.order.refused := rfl
  rw [hraises] at hsql
  cases hsql

theorem compilers_agree_mixed : let parsed : ParsedQuery :=
      ⟨.findBy, [⟨"age", .between⟩, ⟨"role", .in_⟩, ⟨"email", .isNotNull⟩],
        [.and, .or], [⟨"age", .desc⟩]⟩
    let args : List (Argument ℤ) :=
      [.value (some 18), .value (some 65), .list [some 1, none]]
    let row : Row ℤ := fun _ => some 20
    (∃ statement document, QueryMethodCompiler.applyWhere ⟨none⟩ parsed args = .ok statement ∧
      MongoQueryMethodCompiler.buildFilter parsed args = .ok document ∧
      statement.selects (Comparison.truth row) = document.accepts id row) ∧
    (∃ starts, startsFrom (QueryMethodCompiler.buildClause · args ·)
        parsed.predicates 0 = .ok starts ∧
      startsFrom (MongoQueryMethodCompiler.buildClause · args ·)
        parsed.predicates 0 = .ok starts) ∧
    QueryMethodCompiler.applyOrder parsed = MongoQueryMethodCompiler.buildSort parsed :=
  compilers_agree _ _ (.between _ _ (.in_ _ (.nullTest (.inr rfl) .nil)))
    rfl (by simp) (fun _ _ => Option.some_ne_none _)

end PyFly.Data
