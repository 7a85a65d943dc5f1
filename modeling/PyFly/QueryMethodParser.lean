import Mathlib.Data.List.Chain
import Mathlib.Data.List.TakeWhile
import PyFly.Library.Segments
import PyFly.QueryMethodCompiler

/-!
# The parser of query methods

A method name is read in four ways: its first word, the leftmost order clause,
the connectors between predicates and the operator at the end of each
predicate.  A query whose field names have no word of the grammar among their
segments is what the parser makes of its name.
-/

namespace PyFly.Data

open Library List

/-! ## The parser -/

def operators : List (List Char × QueryOperator) :=
  [("_greater_than_equal".toList, .gte), ("_less_than_equal".toList, .lte),
    ("_greater_than".toList, .gt),
    ("_less_than".toList, .lt),
    ("_is_not_null".toList, .isNotNull),
    ("_is_null".toList, .isNull),
    ("_containing".toList, .containing),
    ("_between".toList, .between),
    ("_not".toList, .not),
    ("_like".toList, .like),
    ("_in".toList, .in_)]

/-- `PREFIXES`, with their names without the last underscore. -/
def firstWords : List (List Char × QueryPrefix) :=
  [("find_by_".toList, .findBy), ("count_by_".toList, .countBy),
    ("exists_by_".toList, .existsBy),
    ("delete_by_".toList, .deleteBy)]

def andWord : List Char :=
  "_and_".toList

def orWord : List Char :=
  "_or_".toList

def orderWord : List Char :=
  "_order_by_".toList

def parseSinglePredicate (segment : List Char) : FieldPredicate :=
  match operators.find? fun entry => entry.1 <:+ segment with
  | some (suffix, op) =>
    ⟨String.ofList (segment.take (segment.length - suffix.length)), op⟩
  | none => ⟨String.ofList segment, .eq⟩

/-- `re.split(r"(_and_|_or_)", body)` from a part on, after `skip` letters which
belong to the last connector. -/
def splitFrom : ℕ → List Char → List Char → List (List Char)
  | _, part, [] => [part]
  | skip + 1, part, _ :: rest => splitFrom skip part rest
  | 0, part, c :: rest =>
    if andWord <+: c :: rest then
      part :: andWord :: splitFrom (andWord.length - 1) [] rest
    else if orWord <+: c :: rest then
      part :: orWord :: splitFrom (orWord.length - 1) [] rest
    else splitFrom 0 (part ++ [c]) rest

def collectParts : List (List Char) → List FieldPredicate × List Connector
  | [] => ([], [])
  | part :: parts =>
    let (predicates, connectors) := collectParts parts
    if part = andWord then (predicates, .and :: connectors)
    else if part = orWord then (predicates, .or :: connectors)
    else (parseSinglePredicate part :: predicates, connectors)

def parsePredicates (body : List Char) : List FieldPredicate × List Connector :=
  if body.isEmpty then ([], []) else collectParts (splitFrom 0 [] body)

def direction? (part : List Char) : Option OrderDirection :=
  if part = "asc".toList then some .asc
  else if part = "desc".toList then some .desc
  else none

def orderClause (fieldParts : List (List Char)) (direction : OrderDirection) :
    List OrderClause :=
  let fieldName := ['_'].intercalate fieldParts
  if fieldName.isEmpty then [] else [⟨String.ofList fieldName, direction⟩]

/-- The loops of `_parse_order`. -/
def orderLoop (fieldParts : List (List Char)) : List (List Char) → List OrderClause
  | [] => orderClause fieldParts .asc
  | part :: parts =>
    match direction? part with
    | some direction =>
      orderClause fieldParts direction ++ orderLoop [] parts
    | none => orderLoop (fieldParts ++ [part]) parts

def parseOrder (orderBody : List Char) : List OrderClause :=
  orderLoop [] (orderBody.splitOn '_')

/-- The group of `_order_by_(.+)$` at the start of a text: one line, which may
be ended. -/
def orderGroup (text : List Char) : Option (List Char) :=
  if orderWord <+: text then
    let behind := text.drop orderWord.length
    let line := behind.takeWhile fun c => c ≠ '\n'
    let left := behind.drop line.length
    if line ≠ [] ∧ (left = [] ∨ left = ['\n']) then some line else none
  else none

/-- `re.search(r"_order_by_(.+)$", body)`: what is before the match, and its
group. -/
def searchOrderBy : List Char → Option (List Char × List Char)
  | [] => none
  | c :: rest =>
    match orderGroup (c :: rest) with
    | some group => some ([], group)
    | none =>
      (searchOrderBy rest).map fun found => (c :: found.1, found.2)

def unknownMethod (methodName : List Char) : QueryError :=
  .valueError ("Method name must start with one of ('find_by_', " ++
    "'count_by_', 'exists_by_', 'delete_by_'): " ++ String.ofList methodName)

def parse (methodName : List Char) : Except QueryError ParsedQuery :=
  match firstWords.find? fun entry => entry.1 <+: methodName with
  | none => .error (unknownMethod methodName)
  | some (word, queryPrefix) =>
    let rest := methodName.drop word.length
    let (body, orderClauses) :=
      match searchOrderBy rest with
      | some (body, orderBody) => (body, parseOrder orderBody)
      | none => (rest, [])
    let (predicates, connectors) := parsePredicates body
    .ok ⟨queryPrefix, predicates, connectors, orderClauses⟩

/-! ## The grammar -/

def operatorText : QueryOperator → List Char
  | .eq => []
  | .gte => "_greater_than_equal".toList
  | .lte => "_less_than_equal".toList
  | .gt => "_greater_than".toList
  | .lt => "_less_than".toList
  | .isNotNull => "_is_not_null".toList
  | .isNull => "_is_null".toList
  | .containing => "_containing".toList
  | .between => "_between".toList
  | .not => "_not".toList
  | .like => "_like".toList
  | .in_ => "_in".toList
  | .unknown name => '_' :: name.toList

def connectorText : Connector → List Char
  | .and => andWord
  | .or => orWord
  | .other text => '_' :: text.toList ++ ['_']

def directionText : OrderDirection → List Char
  | .asc => "asc".toList
  | .desc => "desc".toList
  | .other text => text.toList

def firstWord : QueryPrefix → List Char
  | .findBy => "find_by".toList
  | .countBy => "count_by".toList
  | .existsBy => "exists_by".toList
  | .deleteBy => "delete_by".toList
  | .unknown name => name.toList

def predicateText (predicate : FieldPredicate) : List Char :=
  predicate.fieldName.toList ++ operatorText predicate.operator

def predicatesText : List FieldPredicate → List Connector → List Char
  | [], _ => []
  | [predicate], _ => predicateText predicate
  | predicate :: predicates, connectors =>
    predicateText predicate ++ ((connectors.head?.map connectorText).getD [] ++
        predicatesText predicates connectors.tail)

/-- `{field}_{asc|desc}` -/
def clauseText (clause : OrderClause) : List Char :=
  clause.fieldName.toList ++ '_' :: directionText clause.direction

def orderText : List OrderClause → List Char
  | [] => []
  | clauses => orderWord ++ ['_'].intercalate (clauses.map clauseText)

def render (query : ParsedQuery) : List Char :=
  firstWord query.queryPrefix ++ '_' ::
    (predicatesText query.predicates query.connectors ++ orderText query.orderClauses)

structure ReadablePredicate (predicate : FieldPredicate) : Prop where
  known : ∀ name, predicate.operator ≠ .unknown name
  filled : predicate.fieldName.toList ≠ []
  andWord : "and".toList ∉ predicate.fieldName.toList.splitOn '_'
  orWord : "or".toList ∉ predicate.fieldName.toList.splitOn '_'
  orderWord : ¬ ["order".toList, "by".toList] <:+: predicate.fieldName.toList.splitOn '_'
  operator : predicate.operator = .eq → ∀ entry ∈ operators,
    ¬ entry.1 <:+ predicate.fieldName.toList

structure ReadableClause (clause : OrderClause) : Prop where
  known : ∀ text, clause.direction ≠ .other text
  filled : clause.fieldName.toList ≠ []
  ascWord : "asc".toList ∉ clause.fieldName.toList.splitOn '_'
  descWord : "desc".toList ∉ clause.fieldName.toList.splitOn '_'

structure Readable (query : ParsedQuery) : Prop where
  known : ∀ name, query.queryPrefix ≠ .unknown name
  joined : query.connectors.length = query.predicates.length - 1
  connectors : ∀ connector ∈ query.connectors, ∀ text, connector ≠ .other text
  predicates : ∀ predicate ∈ query.predicates, ReadablePredicate predicate
  clauses : ∀ clause ∈ query.orderClauses, ReadableClause clause

/-! ## One predicate -/

theorem operators_eq_of_suffix : ∀ entry ∈ operators, ∀ other ∈ operators,
      entry.1 <:+ other.1 → entry = other := by
  decide +kernel

theorem operatorText_eq : operatorText .eq = [] :=
  rfl

theorem mem_operators {op : QueryOperator}
    (hknown : ∀ name, op ≠ .unknown name) (heq : op ≠ .eq) :
    (operatorText op, op) ∈ operators := by
  cases op with
  | eq => exact absurd rfl heq
  | unknown name => exact absurd rfl (hknown name)
  | not => decide
  | gt => decide
  | gte => decide
  | lt => decide
  | lte => decide
  | like => decide
  | containing => decide
  | in_ => decide
  | between => decide
  | isNull => decide
  | isNotNull => decide

theorem find?_eq_some_of_forall {α : Type} {p : α → Bool} {entries : List α}
    {entry : α} (hmem : entry ∈ entries) (hentry : p entry)
    (honly : ∀ other ∈ entries, p other → other = entry) :
    entries.find? p = some entry := by
  cases hfind : entries.find? p with
  | none => exact absurd hentry (List.find?_eq_none.mp hfind entry hmem)
  | some other =>
    rw [honly other (mem_of_find?_eq_some hfind) (List.find?_some hfind)]

variable {predicate : FieldPredicate}

/-- No operator ends in another one, so the order in which they are tried does
not matter. -/
theorem parseSinglePredicate_predicateText (h : ReadablePredicate predicate) :
    parseSinglePredicate (predicateText predicate) = predicate := by
  obtain ⟨fieldName, op⟩ := predicate
  unfold parseSinglePredicate predicateText
  by_cases heq : op = .eq
  · subst heq
    have hnone : operators.find? (fun entry =>
        entry.1 <:+ fieldName.toList ++ operatorText .eq) = none := by
      rw [List.find?_eq_none]
      intro entry hentry
      rw [operatorText_eq, append_nil, decide_eq_true_eq]
      exact h.operator rfl entry hentry
    dsimp only
    rw [hnone]
    simp [operatorText_eq]
  · have hmem := mem_operators h.known heq
    have hsuffix : operatorText op <:+ fieldName.toList ++ operatorText op :=
      suffix_append _ _
    have hfind : operators.find? (fun entry =>
        entry.1 <:+ fieldName.toList ++ operatorText op) = some (operatorText op, op) := by
      refine find?_eq_some_of_forall hmem (decide_eq_true hsuffix) ?_
      intro entry hentry hends
      rw [decide_eq_true_eq] at hends
      rcases suffix_or_suffix_of_suffix hends hsuffix with hin | hin
      · exact operators_eq_of_suffix _ hentry _ hmem hin
      · exact (operators_eq_of_suffix _ hmem _ hentry hin).symm
    dsimp only
    rw [hfind]
    simp

/-! ## The connectors -/

def andSegment : List Char :=
  "and".toList

def orSegment : List Char :=
  "or".toList

theorem andWord_eq : andWord = '_' :: (andSegment ++ ['_']) :=
  rfl

theorem orWord_eq : orWord = '_' :: (orSegment ++ ['_']) :=
  rfl

theorem splitFrom_skip (skipped part rest : List Char) :
    splitFrom skipped.length part (skipped ++ rest) = splitFrom 0 part rest := by
  induction skipped with
  | nil => rfl
  | cons c skipped ih => exact ih

theorem splitFrom_andWord (part rest : List Char) :
    splitFrom 0 part (andWord ++ rest) = part :: andWord :: splitFrom 0 [] rest := by
  rw [andWord_eq, cons_append, splitFrom, ← cons_append,
    ← andWord_eq, if_pos (prefix_append _ _)]
  exact congrArg (fun parts => part :: andWord :: parts)
    (splitFrom_skip (andSegment ++ ['_']) [] rest)

theorem splitFrom_orWord (part rest : List Char) :
    splitFrom 0 part (orWord ++ rest) = part :: orWord :: splitFrom 0 [] rest := by
  have hand : ¬ andWord <+: orWord ++ rest := by
    intro h
    obtain ⟨more, hmore⟩ := h
    have hletter : 'a' = 'o' :=
      Option.some.inj (congrArg (fun text => text[1]?) hmore)
    exact absurd hletter (by decide)
  rw [orWord_eq, cons_append, splitFrom, ← cons_append,
    ← orWord_eq, if_neg hand, if_pos (prefix_append _ _)]
  exact congrArg (fun parts => part :: orWord :: parts)
    (splitFrom_skip (orSegment ++ ['_']) [] rest)

def Plain (text : List Char) : Prop :=
  andSegment ∉ text.splitOn '_' ∧ orSegment ∉ text.splitOn '_'

variable {text behind : List Char}

theorem mem_splitOn_of_starts {word front more : List Char}
    (hbehind : ∀ c ∈ behind.head?, c = '_') (hword : '_' ∉ word)
    (htext : text = front ++ more) (hmore : more ≠ [])
    (hstarts : '_' :: (word ++ ['_']) <+: more ++ behind) :
    word ∈ text.splitOn '_' := by
  obtain ⟨rest, hrest⟩ := hstarts
  have hsplit : front ++ '_' :: (word ++ '_' :: rest) = text ++ behind := by
    rw [htext, append_assoc, ← hrest]
    simp
  have hlt : front.length < text.length := by
    rw [htext, length_append]
    exact Nat.lt_add_of_pos_right (length_pos_iff.mpr hmore)
  obtain ⟨segments, hsegments, -⟩ :=
    splitOn_of_occurrence hbehind hword hsplit hlt
  rw [hsegments]
  exact mem_append_right _ mem_cons_self

theorem splitFrom_append (hplain : Plain text) (hbehind : ∀ c ∈ behind.head?, c = '_') :
    ∀ more front part : List Char, text = front ++ more →
      splitFrom 0 part (more ++ behind) = splitFrom 0 (part ++ more) behind := by
  intro more
  induction more with
  | nil =>
    intro front part _
    rw [nil_append, append_nil]
  | cons c more ih =>
    intro front part htext
    have hand : ¬ andWord <+: c :: (more ++ behind) := fun h =>
      hplain.1 (mem_splitOn_of_starts hbehind (by decide) htext
        (cons_ne_nil _ _) h)
    have hor : ¬ orWord <+: c :: (more ++ behind) := fun h =>
      hplain.2 (mem_splitOn_of_starts hbehind (by decide) htext
        (cons_ne_nil _ _) h)
    rw [cons_append, splitFrom, if_neg hand, if_neg hor,
      ih (front ++ [c]) (part ++ [c]) (by rw [htext]; simp),
      append_assoc, singleton_append]

theorem operatorText_head (op : QueryOperator) : ∀ c ∈ (operatorText op).head?, c = '_' := by
  cases op <;> intro c hc <;> cases hc <;> rfl

theorem splitOn_predicateText (predicate : FieldPredicate) :
    (predicateText predicate).splitOn '_' = predicate.fieldName.toList.splitOn '_' ++
        segmentsBehind '_' (operatorText predicate.operator) :=
  splitOn_append_behind (operatorText_head predicate.operator)

def orderSegment : List Char :=
  "order".toList

def bySegment : List Char :=
  "by".toList

theorem notMem_segmentsBehind_operatorText {op : QueryOperator}
    (hknown : ∀ name, op ≠ .unknown name) :
    ∀ word ∈ [andSegment, orSegment, orderSegment, bySegment],
      word ∉ segmentsBehind '_' (operatorText op) := by
  cases op with
  | eq => decide
  | unknown name => exact absurd rfl (hknown name)
  | not => decide
  | gt => decide
  | gte => decide
  | lt => decide
  | lte => decide
  | like => decide
  | containing => decide
  | in_ => decide
  | between => decide
  | isNull => decide
  | isNotNull => decide

theorem plain_predicateText (h : ReadablePredicate predicate) :
    Plain (predicateText predicate) := by
  have hop := notMem_segmentsBehind_operatorText h.known
  unfold Plain
  rw [splitOn_predicateText]
  constructor
  · intro hmem
    rcases mem_append.mp hmem with hmem | hmem
    · exact h.andWord hmem
    · exact hop andSegment (by simp) hmem
  · intro hmem
    rcases mem_append.mp hmem with hmem | hmem
    · exact h.orWord hmem
    · exact hop orSegment (by simp) hmem

theorem predicateText_ne_nil (h : ReadablePredicate predicate) : predicateText predicate ≠ [] :=
  append_ne_nil_of_left_ne_nil h.filled _

theorem Plain.ne_andWord (h : Plain text) : text ≠ andWord := by
  intro hsame
  exact absurd (show andSegment ∈ andWord.splitOn '_' by decide)
    (hsame ▸ h.1)

theorem Plain.ne_orWord (h : Plain text) : text ≠ orWord := by
  intro hsame
  exact absurd (show orSegment ∈ orWord.splitOn '_' by decide)
    (hsame ▸ h.2)

theorem collectParts_plain {part : List Char} (h : Plain part) (parts : List (List Char)) :
    collectParts (part :: parts) = (parseSinglePredicate part :: (collectParts parts).1,
        (collectParts parts).2) := by
  rw [collectParts]
  dsimp only
  rw [if_neg h.ne_andWord, if_neg h.ne_orWord]

theorem collectParts_andWord (parts : List (List Char)) : collectParts (andWord :: parts) =
      ((collectParts parts).1, .and :: (collectParts parts).2) := by
  rw [collectParts]
  dsimp only
  rw [if_pos rfl]

theorem collectParts_orWord (parts : List (List Char)) : collectParts (orWord :: parts) =
      ((collectParts parts).1, .or :: (collectParts parts).2) := by
  rw [collectParts]
  dsimp only
  rw [if_neg (by decide), if_pos rfl]

theorem connectorText_append_head (connector : Connector) (text : List Char) :
    ∀ c ∈ (connectorText connector ++ text).head?, c = '_' := by
  cases connector <;> intro c hc <;> cases hc <;> rfl

theorem predicatesText_cons_cons (predicate second : FieldPredicate)
    (predicates : List FieldPredicate) (connector : Connector)
    (connectors : List Connector) :
    predicatesText (predicate :: second :: predicates) (connector :: connectors) =
      predicateText predicate ++ (connectorText connector ++
        predicatesText (second :: predicates) connectors) :=
  rfl

theorem collectParts_splitFrom {predicates : List FieldPredicate} {connectors : List Connector}
    (hreadable : ∀ p ∈ predicate :: predicates, ReadablePredicate p)
    (hjoined : connectors.length = predicates.length)
    (hconnectors : ∀ connector ∈ connectors, ∀ text, connector ≠ .other text) :
    collectParts (splitFrom 0 [] (predicatesText (predicate :: predicates) connectors)) =
      (predicate :: predicates, connectors) := by
  induction predicates generalizing predicate connectors with
  | nil =>
    have hfirst := hreadable predicate mem_cons_self
    have hplain := plain_predicateText hfirst
    have hsplit : splitFrom 0 [] (predicateText predicate ++ []) =
        splitFrom 0 ([] ++ predicateText predicate) [] :=
      splitFrom_append hplain (by simp) (predicateText predicate) [] [] rfl
    rw [append_nil, nil_append] at hsplit
    obtain rfl := length_eq_zero_iff.mp hjoined
    rw [predicatesText, hsplit, splitFrom, collectParts_plain hplain,
      parseSinglePredicate_predicateText hfirst]
    rfl
  | cons second predicates ih =>
    have hfirst := hreadable predicate mem_cons_self
    have hplain := plain_predicateText hfirst
    cases connectors with
    | nil => exact absurd hjoined.symm (Nat.succ_ne_zero _)
    | cons connector connectors =>
      have hrest : collectParts (splitFrom 0 []
          (predicatesText (second :: predicates) connectors)) =
            (second :: predicates, connectors) := ih
        (fun p hp => hreadable p (mem_cons_of_mem _ hp))
        (Nat.succ.inj hjoined)
        (fun other hother =>
          hconnectors other (mem_cons_of_mem _ hother))
      have hsplit := splitFrom_append hplain (connectorText_append_head connector
          (predicatesText (second :: predicates) connectors))
        (predicateText predicate) [] [] rfl
      rw [predicatesText_cons_cons, hsplit, nil_append]
      cases connector with
      | and =>
        rw [connectorText, splitFrom_andWord,
          collectParts_plain hplain, collectParts_andWord, hrest,
          parseSinglePredicate_predicateText hfirst]
      | or =>
        rw [connectorText, splitFrom_orWord,
          collectParts_plain hplain, collectParts_orWord, hrest,
          parseSinglePredicate_predicateText hfirst]
      | other text =>
        exact absurd rfl (hconnectors (.other text) mem_cons_self text)

theorem parsePredicates_predicatesText {query : ParsedQuery} (h : Readable query) :
    parsePredicates (predicatesText query.predicates query.connectors) =
      (query.predicates, query.connectors) := by
  obtain ⟨queryPrefix, predicates, connectors, orderClauses⟩ := query
  cases predicates with
  | nil =>
    obtain rfl : connectors = [] := length_eq_zero_iff.mp h.joined
    rfl
  | cons predicate predicates =>
    have hsplit := collectParts_splitFrom h.predicates h.joined h.connectors
    dsimp only at hsplit ⊢
    rw [parsePredicates, if_neg, hsplit]
    have hfilled := predicateText_ne_nil (h.predicates predicate mem_cons_self)
    rw [List.isEmpty_iff]
    cases predicates with
    | nil => exact hfilled
    | cons second predicates =>
      exact append_ne_nil_of_left_ne_nil hfilled _

/-! ## The order clauses -/

theorem orderLoop_append {segments : List (List Char)}
    (hsegments : ∀ segment ∈ segments, direction? segment = none)
    (fieldParts parts : List (List Char)) :
    orderLoop fieldParts (segments ++ parts) = orderLoop (fieldParts ++ segments) parts := by
  induction segments generalizing fieldParts with
  | nil => rw [nil_append, append_nil]
  | cons segment segments ih =>
    rw [cons_append, orderLoop, hsegments segment mem_cons_self]
    dsimp only
    rw [ih (fun other hother =>
      hsegments other (mem_cons_of_mem _ hother)), append_assoc,
      singleton_append]

theorem direction?_directionText {direction : OrderDirection}
    (hknown : ∀ text, direction ≠ .other text) :
    direction? (directionText direction) = some direction := by
  cases direction with
  | asc => decide
  | desc => decide
  | other text => exact absurd rfl (hknown text)

theorem underscore_notMem_directionText {direction : OrderDirection}
    (hknown : ∀ text, direction ≠ .other text) :
    '_' ∉ directionText direction := by
  cases direction with
  | asc => decide
  | desc => decide
  | other text => exact absurd rfl (hknown text)

variable {clause : OrderClause}

theorem splitOn_clauseText (h : ReadableClause clause) :
    (clauseText clause).splitOn '_' = clause.fieldName.toList.splitOn '_' ++
        [directionText clause.direction] := by
  rw [clauseText, splitOn_append_cons_self,
    splitOn_eq_singleton (underscore_notMem_directionText h.known)]

theorem direction?_eq_none (h : ReadableClause clause) {segment : List Char}
    (hsegment : segment ∈ clause.fieldName.toList.splitOn '_') :
    direction? segment = none := by
  rw [direction?, if_neg, if_neg]
  · rintro rfl
    exact h.descWord hsegment
  · rintro rfl
    exact h.ascWord hsegment

theorem orderClause_splitOn (h : ReadableClause clause) :
    orderClause (clause.fieldName.toList.splitOn '_') clause.direction = [clause] := by
  rw [orderClause, intercalate_splitOn, if_neg (by simpa using h.filled),
    String.ofList_toList]

variable {clauses : List OrderClause}

theorem orderLoop_clauses (h : ∀ clause ∈ clauses, ReadableClause clause) :
    orderLoop [] ((clauses.map fun clause => (clauseText clause).splitOn '_').flatten) =
      clauses := by
  induction clauses with
  | nil => rfl
  | cons clause clauses ih =>
    have hclause := h clause mem_cons_self
    rw [map_cons, flatten_cons, splitOn_clauseText hclause, append_assoc,
      orderLoop_append (fun segment => direction?_eq_none hclause),
      nil_append, singleton_append, orderLoop,
      direction?_directionText hclause.known]
    dsimp only
    rw [orderClause_splitOn hclause,
      ih (fun other hother => h other (mem_cons_of_mem _ hother)),
      singleton_append]

theorem parseOrder_clauses (hne : clauses ≠ [])
    (h : ∀ clause ∈ clauses, ReadableClause clause) :
    parseOrder (['_'].intercalate (clauses.map clauseText)) = clauses := by
  have hmap : clauses.map clauseText ≠ [] := by
    rwa [Ne, map_eq_nil_iff]
  have hloop := orderLoop_clauses h
  rw [parseOrder, splitOn_intercalate_flatten hmap, map_map]
  exact hloop

/-! ## The leftmost order clause -/

theorem orderWord_eq : orderWord = '_' :: (orderSegment ++ '_' :: (bySegment ++ ['_'])) :=
  rfl

def Unordered (text : List Char) : Prop :=
  (text.splitOn '_').IsChain fun segment next =>
    ¬ (segment = orderSegment ∧ next = bySegment)

theorem orderGroup_eq_none {front more : List Char}
    (hunordered : Unordered text) (hbehind : ∀ c ∈ behind.head?, c = '_')
    (hby : (segmentsBehind '_' behind).head? ≠ some bySegment)
    (htext : text = front ++ more) (hmore : more ≠ []) :
    orderGroup (more ++ behind) = none := by
  rw [orderGroup, if_neg]
  rintro ⟨rest, hrest⟩
  have hsplit : front ++ '_' :: (orderSegment ++
      '_' :: (bySegment ++ '_' :: rest)) = text ++ behind := by
    rw [htext, append_assoc, ← hrest, orderWord_eq]
    simp
  have hlt : front.length < text.length := by
    rw [htext, length_append]
    exact Nat.lt_add_of_pos_right (length_pos_iff.mpr hmore)
  obtain ⟨segments, hsegments, hrest⟩ :=
    splitOn_of_occurrence hbehind (by decide) hsplit hlt
  rw [splitOn_append_cons_self_of_not_mem (by decide)] at hrest
  cases segments with
  | nil =>
    rw [nil_append] at hrest
    exact hby (by rw [hrest, List.head?_cons])
  | cons next segments =>
    rw [cons_append, List.cons.injEq] at hrest
    exact isChain_iff_forall_rel_of_append_cons_cons.mp hunordered hsegments ⟨rfl, hrest.1⟩

theorem searchOrderBy_append (hunordered : Unordered text)
    (hbehind : ∀ c ∈ behind.head?, c = '_')
    (hby : (segmentsBehind '_' behind).head? ≠ some bySegment) :
    ∀ more front : List Char, text = front ++ more →
      searchOrderBy (more ++ behind) = (searchOrderBy behind).map fun found =>
          (more ++ found.1, found.2) := by
  intro more
  induction more with
  | nil =>
    intro front _
    rw [nil_append]
    cases searchOrderBy behind <;> rfl
  | cons c more ih =>
    intro front htext
    have hnone := orderGroup_eq_none hunordered hbehind hby htext (cons_ne_nil _ _)
    rw [cons_append] at hnone ⊢
    rw [searchOrderBy, hnone]
    dsimp only
    rw [ih (front ++ [c]) (by rw [htext]; simp), Option.map_map]
    rfl

theorem Unordered.append (htext : Unordered text) (hbehind : ∀ c ∈ behind.head?, c = '_')
    (hsegments : (segmentsBehind '_' behind).IsChain fun segment next =>
      ¬ (segment = orderSegment ∧ next = bySegment))
    (hby : (segmentsBehind '_' behind).head? ≠ some bySegment) :
    Unordered (text ++ behind) := by
  unfold Unordered
  rw [splitOn_append_behind hbehind, isChain_append]
  refine ⟨htext, hsegments, ?_⟩
  rintro segment - next hnext ⟨-, rfl⟩
  exact hby hnext

theorem unordered_predicateText (h : ReadablePredicate predicate) :
    Unordered (predicateText predicate) := by
  have hop := notMem_segmentsBehind_operatorText h.known
  apply Unordered.append _ (operatorText_head predicate.operator)
  · rw [isChain_iff_forall_rel_of_append_cons_cons]
    rintro segment next front rest hsegments ⟨rfl, -⟩
    apply hop orderSegment (by simp)
    rw [hsegments]
    exact mem_append_right _ mem_cons_self
  · intro hhead
    exact hop bySegment (by simp) (mem_of_head? hhead)
  · unfold Unordered
    rw [isChain_iff_forall_rel_of_append_cons_cons]
    rintro segment next front rest hsegments ⟨rfl, rfl⟩
    apply h.orderWord
    rw [hsegments]
    exact ⟨front, rest, by simp [orderSegment, bySegment]⟩

theorem segmentsBehind_connectorText {connector : Connector}
    (hknown : ∀ text, connector ≠ .other text) :
    ∃ word, word ≠ orderSegment ∧ word ≠ bySegment ∧ ∀ text,
      segmentsBehind '_' (connectorText connector ++ text) = word :: text.splitOn '_' := by
  cases connector with
  | and =>
    refine ⟨andSegment, by decide, by decide, fun text => ?_⟩
    rw [connectorText, andWord_eq, cons_append, segmentsBehind, append_assoc, singleton_append,
      splitOn_append_cons_self_of_not_mem (by decide)]
  | or =>
    refine ⟨orSegment, by decide, by decide, fun text => ?_⟩
    rw [connectorText, orWord_eq, cons_append, segmentsBehind, append_assoc, singleton_append,
      splitOn_append_cons_self_of_not_mem (by decide)]
  | other text => exact absurd rfl (hknown text)

theorem unordered_predicatesText {predicates : List FieldPredicate}
    {connectors : List Connector}
    (hreadable : ∀ p ∈ predicates, ReadablePredicate p)
    (hjoined : connectors.length = predicates.length - 1)
    (hconnectors : ∀ connector ∈ connectors, ∀ text, connector ≠ .other text) :
    Unordered (predicatesText predicates connectors) := by
  induction predicates generalizing connectors with
  | nil => exact isChain_singleton _
  | cons predicate predicates ih =>
    have hfirst :=
      unordered_predicateText (hreadable predicate mem_cons_self)
    cases predicates with
    | nil => exact hfirst
    | cons second predicates =>
      cases connectors with
      | nil => exact absurd hjoined.symm (Nat.succ_ne_zero _)
      | cons connector connectors =>
        have hrest : Unordered (predicatesText (second :: predicates) connectors) := ih
          (fun p hp => hreadable p (mem_cons_of_mem _ hp))
          (Nat.succ.inj hjoined)
          (fun other hother =>
            hconnectors other (mem_cons_of_mem _ hother))
        obtain ⟨word, horder, hby, hsegments⟩ :=
          segmentsBehind_connectorText (hconnectors connector mem_cons_self)
        rw [predicatesText_cons_cons]
        apply hfirst.append (connectorText_append_head _ _)
        · rw [hsegments, isChain_cons]
          exact ⟨fun next _ h => horder h.1, hrest⟩
        · rw [hsegments, List.head?_cons]
          exact fun h => hby (Option.some.inj h)

theorem orderText_eq (hne : clauses ≠ []) : orderText clauses =
      orderWord ++ ['_'].intercalate (clauses.map clauseText) := by
  cases clauses with
  | nil => exact absurd rfl hne
  | cons clause clauses => rfl

theorem orderText_head (clauses : List OrderClause) :
    ∀ c ∈ (orderText clauses).head?, c = '_' := by
  cases clauses <;> intro c hc <;> cases hc
  rfl

theorem segmentsBehind_orderText (clauses : List OrderClause) :
    (segmentsBehind '_' (orderText clauses)).head? ≠ some bySegment := by
  cases clauses with
  | nil => exact (Option.some_ne_none _).symm
  | cons clause clauses =>
    rw [orderText_eq (cons_ne_nil _ _), orderWord_eq, cons_append, segmentsBehind, append_assoc,
      cons_append,
      splitOn_append_cons_self_of_not_mem (by decide),
      List.head?_cons]
    decide

theorem orderGroup_line {line : List Char} (hne : line ≠ [])
    (hline : '\n' ∉ line) : orderGroup (orderWord ++ line) = some line := by
  have htake : line.takeWhile (fun c => c ≠ '\n') = line := by
    rw [takeWhile_eq_self_iff]
    intro c hc
    exact decide_eq_true fun hsame => hline (hsame ▸ hc)
  rw [orderGroup, if_pos (prefix_append _ _), drop_left]
  dsimp only
  rw [htake, drop_length, if_pos ⟨hne, .inl rfl⟩]

theorem searchOrderBy_orderText (hne : clauses ≠ [])
    (hline : '\n' ∉ ['_'].intercalate (clauses.map clauseText)) :
    searchOrderBy (orderText clauses) =
      some ([], ['_'].intercalate (clauses.map clauseText)) := by
  have hfilled : ['_'].intercalate (clauses.map clauseText) ≠ [] := by
    cases clauses with
    | nil => exact absurd rfl hne
    | cons clause clauses =>
      cases clauses with
      | nil => simp [clauseText]
      | cons other clauses =>
        rw [map_cons, map_cons, intercalate_cons_cons]
        simp
  have hgroup := orderGroup_line hfilled hline
  rw [orderText_eq hne]
  rw [orderWord_eq, cons_append] at hgroup ⊢
  rw [searchOrderBy, hgroup]

theorem newline_notMem_clauseText (h : ReadableClause clause)
    (hline : '\n' ∉ clause.fieldName.toList) :
    '\n' ∉ clauseText clause := by
  have hdirection : '\n' ∉ directionText clause.direction := by
    cases hcase : clause.direction with
    | asc => decide
    | desc => decide
    | other text => exact absurd hcase (h.known text)
  rw [clauseText, mem_append, mem_cons, not_or, not_or]
  exact ⟨hline, by decide, hdirection⟩

theorem newline_notMem_intercalate (h : ∀ clause ∈ clauses, ReadableClause clause)
    (hline : ∀ clause ∈ clauses, '\n' ∉ clause.fieldName.toList) :
    '\n' ∉ ['_'].intercalate (clauses.map clauseText) := by
  induction clauses with
  | nil => exact not_mem_nil
  | cons clause clauses ih =>
    have hrest := ih
      (fun other hother => h other (mem_cons_of_mem _ hother))
      (fun other hother => hline other (mem_cons_of_mem _ hother))
    have hfirst := newline_notMem_clauseText (h clause mem_cons_self)
      (hline clause mem_cons_self)
    cases clauses with
    | nil => simpa using hfirst
    | cons second clauses =>
      rw [map_cons] at hrest ⊢
      rw [map_cons, intercalate_cons_cons, mem_append, mem_append, not_or, not_or]
      exact ⟨⟨hfirst, by decide⟩, hrest⟩

theorem firstWords_eq_of_starts : ∀ entry ∈ firstWords, ∀ other ∈ firstWords,
      entry.1 <+: other.1 → entry = other := by
  decide +kernel

theorem mem_firstWords {queryPrefix : QueryPrefix}
    (hknown : ∀ name, queryPrefix ≠ .unknown name) :
    (firstWord queryPrefix ++ ['_'], queryPrefix) ∈ firstWords := by
  cases queryPrefix with
  | findBy => decide
  | countBy => decide
  | existsBy => decide
  | deleteBy => decide
  | unknown name => exact absurd rfl (hknown name)

theorem find?_firstWords {queryPrefix : QueryPrefix}
    (hknown : ∀ name, queryPrefix ≠ .unknown name) (rest : List Char) :
    firstWords.find? (fun entry =>
        entry.1 <+: firstWord queryPrefix ++ '_' :: rest) =
      some (firstWord queryPrefix ++ ['_'], queryPrefix) := by
  have hmem := mem_firstWords hknown
  have hstarts : firstWord queryPrefix ++ ['_'] <+:
      firstWord queryPrefix ++ '_' :: rest := ⟨rest, by simp⟩
  refine find?_eq_some_of_forall hmem (decide_eq_true hstarts) ?_
  intro entry hentry hbegins
  rw [decide_eq_true_eq] at hbegins
  rcases prefix_or_prefix_of_prefix hbegins hstarts with hin | hin
  · exact firstWords_eq_of_starts _ hentry _ hmem hin
  · exact (firstWords_eq_of_starts _ hmem _ hentry hin).symm

/-! ## The whole name -/

theorem parse_render {query : ParsedQuery} (h : Readable query)
    (hline : ∀ clause ∈ query.orderClauses, '\n' ∉ clause.fieldName.toList) :
    parse (render query) = .ok query := by
  have hpredicates := parsePredicates_predicatesText h
  have hsearch := searchOrderBy_append
    (unordered_predicatesText h.predicates h.joined h.connectors)
    (orderText_head query.orderClauses)
    (segmentsBehind_orderText query.orderClauses)
    (predicatesText query.predicates query.connectors) [] rfl
  have hrender : render query = firstWord query.queryPrefix ++ ['_'] ++
      (predicatesText query.predicates query.connectors ++
        orderText query.orderClauses) := append_cons _ _ _
  have hdrop : (render query).drop (firstWord query.queryPrefix ++
      ['_']).length = predicatesText query.predicates query.connectors ++
        orderText query.orderClauses := by
    rw [hrender, drop_left]
  rw [parse, render, find?_firstWords h.known, ← render]
  dsimp only
  rw [hdrop, hsearch]
  by_cases hclauses : query.orderClauses = []
  · rw [hclauses]
    dsimp only [orderText, searchOrderBy, Option.map_none]
    rw [append_nil, hpredicates, ← hclauses]
  · rw [searchOrderBy_orderText hclauses (newline_notMem_intercalate h.clauses hline)]
    dsimp only [Option.map_some]
    rw [append_nil, hpredicates, parseOrder_clauses hclauses h.clauses]

def agedQuery : ParsedQuery where
  queryPrefix := .findBy
  predicates := [⟨"status", .eq⟩, ⟨"age", .gte⟩]
  connectors := [.and]
  orderClauses := [⟨"created_at", .desc⟩]

theorem readable_agedQuery : Readable agedQuery where
  known := fun _ => QueryPrefix.noConfusion
  joined := rfl
  connectors := by
    intro connector hconnector text
    rw [mem_singleton.mp hconnector]
    exact Connector.noConfusion
  predicates := by
    intro predicate hpredicate
    rcases mem_pair.mp hpredicate with rfl | rfl
    · exact ⟨fun _ => QueryOperator.noConfusion, by decide, by decide,
        by decide, by decide, by decide⟩
    · exact ⟨fun _ => QueryOperator.noConfusion, by decide, by decide,
        by decide, by decide, by decide⟩
  clauses := by
    intro clause hclause
    rw [mem_singleton.mp hclause]
    exact ⟨fun _ => OrderDirection.noConfusion, by decide, by decide,
      by decide⟩

theorem parse_render_agedQuery : parse (render agedQuery) = .ok agedQuery :=
  parse_render readable_agedQuery (by decide)

def brokenQuery : ParsedQuery where
  queryPrefix := .findBy
  predicates := [⟨"email", .eq⟩]
  orderClauses := [⟨"created\nat", .asc⟩]

theorem readable_brokenQuery : Readable brokenQuery where
  known := fun _ => QueryPrefix.noConfusion
  joined := rfl
  connectors := fun _ h => absurd h not_mem_nil
  predicates := by
    intro predicate hpredicate
    rw [mem_singleton.mp hpredicate]
    exact ⟨fun _ => QueryOperator.noConfusion, by decide, by decide,
      by decide, by decide, by decide⟩
  clauses := by
    intro clause hclause
    rw [mem_singleton.mp hclause]
    exact ⟨fun _ => OrderDirection.noConfusion, by decide, by decide,
      by decide⟩

/-- The group of the order clause stops at the line break, so there is no
match and the clause becomes a part of the field name. -/
theorem parse_brokenQuery : parse (render brokenQuery) =
      .ok ⟨.findBy, [⟨"email_order_by_created\nat_asc", .eq⟩], [], []⟩ := by
  decide +kernel

theorem not_forall_parse_render : ¬ ∀ query : ParsedQuery, Readable query →
      parse (render query) = .ok query := by
  intro h
  have hsame := parse_brokenQuery.symm.trans (h brokenQuery readable_brokenQuery)
  exact cons_ne_nil _ _ (congrArg ParsedQuery.orderClauses (Except.ok.inj hsame)).symm

end PyFly.Data
