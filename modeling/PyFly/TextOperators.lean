import PyFly.MongoQueryMethodCompiler

/-!
# The text operators of derived queries

What `like` and `containing` accept in both adapters.  `re.escape` does not
escape `%` and `_`, so that the replacements which should turn them into
wildcards find only those which follow a backslash, itself escaped.
-/

namespace PyFly.Data

open Library List

/-! ## The regular expression of `like` -/

variable {first second c : Char} {new rest : List Char}

theorem replacePair_cons (hc : c ≠ first) : replacePair first second new (c :: rest) =
      c :: replacePair first second new rest := by
  cases rest with
  | nil => rfl
  | cons d rest => simp [replacePair, hc]

theorem replacePair_cons_cons {d : Char} (hd : d ≠ second) :
    replacePair first second new (first :: d :: rest) =
      first :: replacePair first second new (d :: rest) := by
  simp [replacePair, hd]

theorem replacePair_hit : replacePair first second new (first :: second :: rest) =
      new ++ replacePair first second new rest := by
  simp [replacePair]

theorem replacePair_reEscapeChar (hc : c ≠ '\\') (hsecond : second ∉ reSpecial) :
    replacePair '\\' second new (reEscapeChar c ++ rest) =
      reEscapeChar c ++ replacePair '\\' second new rest := by
  rw [reEscapeChar]
  split
  · rename_i hspecial
    have hne : c ≠ second := by
      rintro rfl
      exact hsecond hspecial
    rw [cons_append, singleton_append, replacePair_cons_cons hne,
      replacePair_cons hc, cons_append, singleton_append]
  · rw [singleton_append, replacePair_cons hc, singleton_append]

theorem reEscapeChar_backslash : reEscapeChar '\\' = ['\\', '\\'] := by
  decide

theorem percent_not_special : '%' ∉ reSpecial := by
  decide

theorem underscore_not_special : '_' ∉ reSpecial := by
  decide

/-- No escaped character other than `c` itself starts with an ordinary `c`. -/
theorem reEscapeChar_append_ne {d : Char} (hc : c ∉ reSpecial) (hd : d ≠ c) (tail : List Char) :
    reEscapeChar d ++ rest ≠ c :: tail := by
  rw [reEscapeChar]
  split
  · intro heq
    rw [cons_append, List.cons.injEq] at heq
    exact hc (heq.1 ▸ by decide)
  · intro heq
    rw [singleton_append, List.cons.injEq] at heq
    exact hd heq.1

theorem replacePair_backslash (hrest : ∀ tail, rest ≠ second :: tail) :
    replacePair '\\' second new ('\\' :: rest) = '\\' :: replacePair '\\' second new rest := by
  cases rest with
  | nil => rfl
  | cons d rest =>
    apply replacePair_cons_cons
    rintro rfl
    exact hrest rest rfl

def percentPattern : List Char → List Char
  | '\\' :: '%' :: rest => ['\\', '.', '*'] ++ percentPattern rest
  | c :: rest => reEscapeChar c ++ percentPattern rest
  | [] => []

def likePattern : List Char → List Char
  | '\\' :: '%' :: rest => ['\\', '.', '*'] ++ likePattern rest
  | '\\' :: '_' :: rest => ['\\', '.'] ++ likePattern rest
  | c :: rest => reEscapeChar c ++ likePattern rest
  | [] => []

variable {arg : List Char}

theorem reEscape_ne_percent (harg : ∀ rest, arg ≠ '%' :: rest) (tail : List Char) :
    reEscape arg ≠ '%' :: tail := by
  cases arg with
  | nil => simp [reEscape]
  | cons c arg =>
    rw [reEscape, flatMap_cons]
    apply reEscapeChar_append_ne percent_not_special
    rintro rfl
    exact harg arg rfl

theorem replacePair_percent (arg : List Char) :
    replacePair '\\' '%' ['.', '*'] (reEscape arg) = percentPattern arg := by
  fun_induction percentPattern arg with
  | case1 rest ih =>
    have hpercent : reEscapeChar '%' = ['%'] := by decide
    rw [reEscape, flatMap_cons, flatMap_cons, ← reEscape, reEscapeChar_backslash, hpercent]
    simp only [cons_append, nil_append]
    rw [replacePair_cons_cons (by decide), replacePair_hit, ih]
    rfl
  | case2 c rest hnot ih =>
    rw [reEscape, flatMap_cons, ← reEscape]
    by_cases hc : c = '\\'
    · subst hc
      have hrest : ∀ tail, rest ≠ '%' :: tail :=
        fun tail htail => hnot tail rfl htail
      rw [reEscapeChar_backslash]
      simp only [cons_append, nil_append]
      rw [replacePair_cons_cons (by decide),
        replacePair_backslash (reEscape_ne_percent hrest), ih]
    · rw [replacePair_reEscapeChar hc percent_not_special, ih]
  | case3 => rfl

theorem percentPattern_ne_underscore (harg : ∀ rest, arg ≠ '_' :: rest) (tail : List Char) :
    percentPattern arg ≠ '_' :: tail := by
  fun_cases percentPattern arg with
  | case1 rest => simp
  | case2 c rest =>
    apply reEscapeChar_append_ne underscore_not_special
    rintro rfl
    exact harg rest rfl
  | case3 => simp

theorem replacePair_underscore (arg : List Char) :
    replacePair '\\' '_' ['.'] (percentPattern arg) = likePattern arg := by
  fun_induction likePattern arg with
  | case1 rest ih =>
    rw [percentPattern]
    simp only [cons_append, nil_append]
    rw [replacePair_cons_cons (by decide), replacePair_cons (by decide),
      replacePair_cons (by decide), ih]
  | case2 rest ih =>
    have hmiddle : percentPattern ('\\' :: '_' :: rest) =
        '\\' :: '\\' :: '_' :: percentPattern rest := by
      have hunderscore : reEscapeChar '_' = ['_'] := by decide
      rw [percentPattern, percentPattern, reEscapeChar_backslash, hunderscore]
      · rfl
      · simp
      · simp
    rw [hmiddle, replacePair_cons_cons (by decide), replacePair_hit, ih]
    rfl
  | case3 c rest hpercent hunderscore ih =>
    rw [percentPattern]
    · by_cases hc : c = '\\'
      · subst hc
        have hrest : ∀ tail, rest ≠ '_' :: tail :=
          fun tail htail => hunderscore tail rfl htail
        rw [reEscapeChar_backslash]
        simp only [cons_append, nil_append]
        rw [replacePair_cons_cons (by decide),
          replacePair_backslash (percentPattern_ne_underscore hrest), ih]
      · rw [replacePair_reEscapeChar hc underscore_not_special, ih]
    · exact hpercent
  | case4 => rfl

theorem likeRegex_eq (arg : List Char) : likeRegex arg = likePattern arg := by
  rw [likeRegex, replacePair_percent, replacePair_underscore]

def likeTokens : List Char → List RegexToken
  | '\\' :: '%' :: rest => [.literal '.', .repeated] ++ likeTokens rest
  | '\\' :: '_' :: rest => .literal '.' :: likeTokens rest
  | c :: rest => .literal c :: likeTokens rest
  | [] => []

theorem regexTokens_likePattern (arg : List Char) :
    regexTokens (likePattern arg) = some (likeTokens arg) := by
  fun_induction likePattern arg with
  | case1 rest ih =>
    have hdot : '.'.isAlphanum = false := by decide
    simp [likeTokens, regexTokens, hdot, ih]
  | case2 rest ih =>
    have hdot : '.'.isAlphanum = false := by decide
    simp [likeTokens, regexTokens, hdot, ih]
  | case3 c rest hpercent hunderscore ih =>
    rw [regexTokens_reEscapeChar, ih, likeTokens]
    · rfl
    · exact hpercent
    · exact hunderscore
  | case4 => rfl

def likePieces (same : Char → Char → Bool) : List Char → List Piece
  | '\\' :: '%' :: rest => .run (same '.') :: likePieces same rest
  | '\\' :: '_' :: rest => .one (same '.') :: likePieces same rest
  | c :: rest => .one (same c) :: likePieces same rest
  | [] => []

theorem regexPieces_likeTokens (same : Char → Char → Bool) (arg : List Char) :
    regexPieces same (likeTokens arg) = some (false, likePieces same arg) := by
  fun_induction likeTokens arg with
  | case1 rest ih =>
    simp [regexPieces, ih, likePieces, RegexToken.test]
  | case2 rest ih =>
    simp [regexPieces, ih, likePieces, RegexToken.test]
  | case3 c rest hpercent hunderscore ih =>
    rw [likePieces]
    · simp [regexPieces, ih, RegexToken.test]
    · exact hpercent
    · exact hunderscore
  | case4 => rfl

theorem regexSearch_likeRegex (same : Char → Char → Bool) (arg value : List Char) :
    regexSearch same (likeRegex arg) value =
      some (Piece.search (likePieces same arg) value) := by
  rw [likeRegex_eq]
  exact regexSearch_of_pieces (regexTokens_likePattern arg) (regexPieces_likeTokens same arg)

/-! ## The regular expression of `containing` -/

theorem regexTokens_reEscape (arg rest : List Char) : regexTokens (reEscape arg ++ rest) =
      (regexTokens rest).map (arg.map RegexToken.literal ++ ·) := by
  induction arg with
  | nil => simp [reEscape]
  | cons c arg ih =>
    rw [reEscape, flatMap_cons, append_assoc,
      regexTokens_reEscapeChar, ← reEscape, ih, Option.map_map]
    rfl

theorem regexPieces_literals {same : Char → Char → Bool}
    {rest : List RegexToken} {pieces : List Piece}
    (hrest : regexPieces same rest = some (false, pieces)) :
    regexPieces same (arg.map RegexToken.literal ++ rest) =
      some (false, Piece.spell same arg ++ pieces) := by
  induction arg with
  | nil => simpa [Piece.spell] using hrest
  | cons c arg ih =>
    rw [map_cons, cons_append]
    simp [regexPieces, ih, RegexToken.test, Piece.spell]

def anyRun : Piece :=
  .run (· != '\n')

theorem regexSearch_containingRegex (same : Char → Char → Bool) (arg value : List Char) :
    regexSearch same (containingRegex arg) value = some (Piece.search
        (anyRun :: (Piece.spell same arg ++ [anyRun])) value) := by
  have htokens : regexTokens (containingRegex arg) = some ([.any, .repeated] ++
        (arg.map RegexToken.literal ++ [.any, .repeated])) := by
    have hlast : regexTokens ['.', '*'] = some [.any, .repeated] := by decide
    rw [containingRegex, append_assoc]
    simp [regexTokens, regexTokens_reEscape, hlast]
  have hlast : regexPieces same [.any, .repeated] = some (false, [anyRun]) := rfl
  apply regexSearch_of_pieces htokens
  simp [regexPieces, regexPieces_literals hlast, RegexToken.test, anyRun]

theorem search_spell_iff {same : Char → Char → Bool} {value : List Char} :
    Piece.search (anyRun :: (Piece.spell same arg ++ [anyRun])) value = true ↔
      ∃ front part back, value = front ++ (part ++ back) ∧
        List.Forall₂ (fun c d => same c d = true) arg part := by
  rw [Piece.search_iff]
  constructor
  · rintro ⟨front, middle, back, rfl, hmiddle⟩
    obtain ⟨first, rest, rfl, -, hrest⟩ := Piece.accepts_run_cons.mp hmiddle
    obtain ⟨part, last, rfl, hpart, -⟩ := Piece.accepts_append.mp hrest
    exact ⟨front ++ first, part, last ++ back, by simp,
      Piece.accepts_spell.mp hpart⟩
  · rintro ⟨front, part, back, rfl, hpart⟩
    refine ⟨front, part, back, rfl, ?_⟩
    refine Piece.accepts_run_cons.mpr ⟨[], part, rfl, by simp, ?_⟩
    refine Piece.accepts_append.mpr ⟨part, [], by simp, ?_, ?_⟩
    · exact Piece.accepts_spell.mpr hpart
    · exact Piece.accepts_run_cons.mpr ⟨[], [], rfl, by simp, by simp⟩

/-! ## What the operators accept -/

inductive TextOperator
  | like
  | containing
  deriving DecidableEq, Repr

namespace TextOperator

def operator : TextOperator → QueryOperator
  | like => .like
  | containing => .containing

/-- What an operator is for: the whole value matches the `LIKE` pattern, or
the argument is a part of the value. -/
def Means (arg value : String) : TextOperator → Prop
  | like => Library.like arg.toList value.toList = true
  | containing => arg.toList <:+: value.toList

def SqlAccepts (field arg value : String) (op : TextOperator) : Prop :=
  ∃ clause, QueryMethodCompiler.buildClause ⟨field, op.operator⟩
      [.value (some arg)] 0 = .ok (clause, 1) ∧
    (clause.truth (Comparison.truth fun _ => some value)).holds = true

def MongoAccepts (fold : Char → Char) (field arg value : String) (op : TextOperator) : Prop :=
  ∃ document, MongoQueryMethodCompiler.buildClause ⟨field, op.operator⟩
      [.value (some arg)] 0 = .ok (document, 1) ∧
    document.accepts fold (fun _ => some value) = true

def Faithful (fold : Char → Char) (arg : String) (op : TextOperator) : Prop :=
  ∀ field value, (op.SqlAccepts field arg value ↔ op.Means arg value) ∧
    (op.MongoAccepts fold field arg value ↔ op.Means arg value)

theorem sqlAccepts_containing (field arg value : String) :
    containing.SqlAccepts field arg value ↔
      Piece.search (arg.toList.map likePiece) value.toList = true := by
  have hpattern : ("%" ++ arg ++ "%").toList = '%' :: (arg.toList ++ ['%']) := by
    simp
  have hpieces : Library.like ("%" ++ arg ++ "%").toList value.toList =
      Piece.search (arg.toList.map likePiece) value.toList := by
    rw [hpattern, Library.like, map_cons, map_append]
    rfl
  rw [← hpieces]
  constructor
  · rintro ⟨clause, hbuilt, hholds⟩
    cases hbuilt
    simpa [Comparison.truth, Scalar.text, Scalar.str, pyStr] using hholds
  · intro hlike
    refine ⟨_, rfl, ?_⟩
    simpa [Comparison.truth, Scalar.text, Scalar.str, pyStr] using hlike

theorem mongoAccepts_like (fold : Char → Char) (field arg value : String) :
    like.MongoAccepts fold field arg value ↔
      Piece.search (likePieces (· == ·) arg.toList) value.toList = true := by
  constructor
  · rintro ⟨document, hbuilt, haccepts⟩
    cases hbuilt
    simpa [MongoOperator.accepts, Scalar.text,
      Scalar.str, pyStr, regexSearch_likeRegex] using haccepts
  · intro hsearch
    refine ⟨_, rfl, ?_⟩
    simpa [MongoOperator.accepts, Scalar.text,
      Scalar.str, pyStr, regexSearch_likeRegex] using hsearch

theorem mongoAccepts_containing (fold : Char → Char) (field arg value : String) :
    containing.MongoAccepts fold field arg value ↔
      ∃ front part back, value.toList = front ++ (part ++ back) ∧
        List.Forall₂ (fun c d => (fold c == fold d) = true) arg.toList
          part := by
  rw [← search_spell_iff]
  constructor
  · rintro ⟨document, hbuilt, haccepts⟩
    cases hbuilt
    simpa [MongoOperator.accepts, Scalar.text,
      Scalar.str, pyStr, regexSearch_containingRegex] using haccepts
  · intro hsearch
    refine ⟨_, rfl, ?_⟩
    simpa [MongoOperator.accepts, Scalar.text,
      Scalar.str, pyStr, regexSearch_containingRegex] using hsearch

/-! ## Arguments with wildcards -/

theorem likePiece_of_ne {c : Char} (hpercent : c ≠ '%')
    (hunderscore : c ≠ '_') : likePiece c = .one (c == ·) := by
  unfold likePiece
  split
  · exact absurd rfl hpercent
  · exact absurd rfl hunderscore
  · rfl

/-- The wildcards of a pattern replaced by one ordinary letter. -/
def plain (c : Char) : Char :=
  if c = '%' ∨ c = '_' then 'x' else c

theorem plain_ne_wildcard (c : Char) : plain c ≠ '%' ∧ plain c ≠ '_' := by
  unfold plain
  split
  · decide
  · rename_i hwildcard
    exact not_or.mp hwildcard

theorem accepts_plain (arg : List Char) :
    Piece.accepts (arg.map likePiece) (arg.map plain) = true := by
  induction arg with
  | nil => rfl
  | cons c arg ih =>
    rw [map_cons, map_cons]
    by_cases hpercent : c = '%'
    · subst hpercent
      exact Piece.accepts_run_cons.mpr ⟨['x'], _, rfl, by simp, ih⟩
    · by_cases hunderscore : c = '_'
      · subst hunderscore
        exact Piece.accepts_one_cons.mpr ⟨_, _, rfl, rfl, ih⟩
      · rw [likePiece_of_ne hpercent hunderscore]
        have hplain : plain c = c := by
          simp [plain, hpercent, hunderscore]
        exact Piece.accepts_one_cons.mpr ⟨_, _, rfl, by simp [hplain], ih⟩

variable {value : List Char}

theorem search_one_mem {test : Char → Bool} {pieces : List Piece}
    (hsearch : Piece.search (.one test :: pieces) value = true) :
    ∃ c ∈ value, test c = true := by
  obtain ⟨front, middle, back, rfl, hmiddle⟩ := Piece.search_iff.mp hsearch
  obtain ⟨c, rest, rfl, htest, -⟩ := Piece.accepts_one_cons.mp hmiddle
  exact ⟨c, by simp, htest⟩

theorem search_cons {pieces : List Piece} (c : Char)
    (hsearch : Piece.search pieces value = true) :
    Piece.search pieces (c :: value) = true := by
  obtain ⟨front, middle, back, rfl, hmiddle⟩ := Piece.search_iff.mp hsearch
  exact Piece.search_iff.mpr ⟨c :: front, middle, back, rfl, hmiddle⟩

/-- Every expression built for `like` is found somewhere. -/
theorem exists_accepts_likePieces (arg : List Char) :
    ∃ value, Piece.accepts (likePieces (· == ·) arg) value = true := by
  fun_induction likePieces (· == ·) arg with
  | case1 rest ih =>
    obtain ⟨value, hvalue⟩ := ih
    exact ⟨value, Piece.accepts_run_cons.mpr ⟨[], value, rfl, by simp, hvalue⟩⟩
  | case2 rest ih =>
    obtain ⟨value, hvalue⟩ := ih
    exact ⟨'.' :: value, Piece.accepts_one_cons.mpr ⟨'.', value, rfl, rfl, hvalue⟩⟩
  | case3 c rest hpercent hunderscore ih =>
    obtain ⟨value, hvalue⟩ := ih
    exact ⟨c :: value, Piece.accepts_one_cons.mpr ⟨c, value, rfl, by simp, hvalue⟩⟩
  | case4 => exact ⟨[], rfl⟩

theorem likePieces_wildcard {c : Char} {rest : List Char} (hc : c = '%' ∨ c = '_') :
    likePieces (· == ·) (c :: rest) = .one (c == ·) :: likePieces (· == ·) rest := by
  rcases hc with rfl | rfl
  · rw [likePieces]
    · simp
    · simp
  · rw [likePieces]
    · simp
    · simp

/-- For every argument some text is accepted by one of `LIKE` and the
expression built for it, and not by the other. -/
theorem exists_like_ne (arg : List Char) : ∃ value : List Char,
      ¬ (Piece.search (likePieces (· == ·) arg) value = true ↔
        Library.like arg value = true) := by
  cases arg with
  | nil =>
    refine ⟨['x'], ?_⟩
    have hlike : Library.like [] ['x'] = false := rfl
    have hsearch : Piece.search (likePieces (· == ·) []) ['x'] = true := by
      simp [likePieces, Piece.search, Piece.accepts, Piece.afterRun]
    simp [hlike, hsearch]
  | cons c rest =>
    by_cases hc : c = '%' ∨ c = '_'
    · -- the expression wants the wildcard itself
      refine ⟨(c :: rest).map plain, ?_⟩
      intro hiff
      have hsearch := hiff.mpr (accepts_plain (c :: rest))
      rw [likePieces_wildcard hc] at hsearch
      obtain ⟨d, hmem, hd⟩ := search_one_mem hsearch
      obtain ⟨e, -, rfl⟩ := mem_map.mp hmem
      have hplain := plain_ne_wildcard e
      rw [beq_iff_eq] at hd
      rcases hc with rfl | rfl
      · exact hplain.1 hd.symm
      · exact hplain.2 hd.symm
    · -- the expression is also found behind another letter
      rw [not_or] at hc
      obtain ⟨value, hvalue⟩ := exists_accepts_likePieces (c :: rest)
      obtain ⟨d, hd⟩ : ∃ d : Char, c ≠ d := by
        by_cases hx : c = 'x'
        · exact ⟨'y', by rw [hx]; decide⟩
        · exact ⟨'x', hx⟩
      refine ⟨d :: value, ?_⟩
      intro hiff
      have hsearch : Piece.search (likePieces (· == ·) (c :: rest)) value =
          true :=
        Piece.search_iff.mpr ⟨[], value, [], by simp, hvalue⟩
      have hlike := hiff.mp (search_cons d hsearch)
      rw [Library.like, map_cons, likePiece_of_ne hc.1 hc.2] at hlike
      obtain ⟨e, tail, hcons, he, -⟩ := Piece.accepts_one_cons.mp hlike
      rw [List.cons.injEq] at hcons
      rw [beq_iff_eq] at he
      exact hd (he.trans hcons.1.symm)

/-- The letters of an argument which `containing` takes as they are: no
wildcard of `LIKE`, and no other letter equal without regard to case. -/
def Literal (fold : Char → Char) (c : Char) : Prop :=
  c ≠ '%' ∧ c ≠ '_' ∧ ∀ d, fold d = fold c → d = c

variable {arg : List Char}

theorem search_spell_eq_iff :
    Piece.search (Piece.spell (· == ·) arg) value = true ↔ arg <:+: value := by
  have hequal : ∀ part, List.Forall₂ (fun c d : Char => (c == d) = true) arg
      part ↔ arg = part := by
    intro part
    simp only [beq_iff_eq, forall₂_eq_eq_eq]
  rw [Piece.search_iff]
  constructor
  · rintro ⟨front, part, back, rfl, hpart⟩
    rw [Piece.accepts_spell, hequal] at hpart
    exact ⟨front, back, by rw [hpart, append_assoc]⟩
  · rintro ⟨front, back, rfl⟩
    refine ⟨front, arg, back, by rw [append_assoc], ?_⟩
    rw [Piece.accepts_spell, hequal]

theorem map_likePiece (harg : ∀ c ∈ arg, c ≠ '%' ∧ c ≠ '_') :
    arg.map likePiece = Piece.spell (· == ·) arg := by
  apply map_congr_left
  intro c hmem
  obtain ⟨hpercent, hunderscore⟩ := harg c hmem
  exact likePiece_of_ne hpercent hunderscore

variable {fold : Char → Char}

theorem eq_of_forall₂_literal {part : List Char} (harg : ∀ c ∈ arg, Literal fold c)
    (hpart : List.Forall₂ (fun c d => (fold c == fold d) = true) arg part) :
    arg = part := by
  induction hpart with
  | nil => rfl
  | cons hsame _ ih =>
    rw [forall_mem_cons] at harg
    rw [beq_iff_eq] at hsame
    rw [harg.1.2.2 _ hsame.symm, ih harg.2]

theorem containing_faithful_of_literal {arg : String}
    (harg : ∀ c ∈ arg.toList, Literal fold c) :
    containing.Faithful fold arg := by
  intro field value
  constructor
  · rw [sqlAccepts_containing, map_likePiece fun c hmem => ⟨(harg c hmem).1, (harg c hmem).2.1⟩,
      search_spell_eq_iff]
    rfl
  · rw [mongoAccepts_containing]
    constructor
    · rintro ⟨front, part, back, hsplit, hpart⟩
      refine ⟨front, back, ?_⟩
      rw [hsplit, eq_of_forall₂_literal harg hpart, append_assoc]
    · rintro ⟨front, back, hsplit⟩
      refine ⟨front, arg.toList, back, ?_, ?_⟩
      · rw [← hsplit, append_assoc]
      · exact forall₂_same.mpr fun c _ => by simp

/-- A wildcard stands for another letter in SQL, and a letter for its other
case in MongoDB. -/
theorem literal_of_containing_faithful {arg : String}
    (hfaithful : containing.Faithful fold arg) :
    ∀ c ∈ arg.toList, Literal fold c := by
  intro c hmem
  have hwildcard : ¬ (c = '%' ∨ c = '_') := by
    intro hc
    have hsearch : Piece.search (arg.toList.map likePiece) (arg.toList.map plain) = true :=
      Piece.search_iff.mpr ⟨[], arg.toList.map plain, [], by simp,
        accepts_plain arg.toList⟩
    have hmeans : arg.toList <:+: arg.toList.map plain := by
      have hvalue := hfaithful "" (String.ofList (arg.toList.map plain))
      rw [sqlAccepts_containing, String.toList_ofList] at hvalue
      simpa [Means] using hvalue.1.mp hsearch
    obtain ⟨e, -, he⟩ := mem_map.mp (hmeans.subset hmem)
    have hplain := plain_ne_wildcard e
    rw [he] at hplain
    rcases hc with hc | hc
    · exact hplain.1 hc
    · exact hplain.2 hc
  rw [not_or] at hwildcard
  refine ⟨hwildcard.1, hwildcard.2, ?_⟩
  intro d hfold
  by_contra hne
  -- the argument with `d` for `c` is accepted without regard to case
  let other : Char → Char := fun e => if e = c then d else e
  have hforall : List.Forall₂ (fun c d => (fold c == fold d) = true)
      arg.toList (arg.toList.map other) := by
    rw [forall₂_map_right_iff, forall₂_same]
    intro e _
    by_cases he : e = c
    · simp [other, he, hfold]
    · simp [other, he]
  have hmeans : arg.toList <:+: arg.toList.map other := by
    have hvalue := hfaithful "" (String.ofList (arg.toList.map other))
    rw [mongoAccepts_containing, String.toList_ofList] at hvalue
    have haccepts := hvalue.2.mp ⟨[], _, [], by simp, hforall⟩
    simpa [Means] using haccepts
  obtain ⟨e, -, he⟩ := mem_map.mp (hmeans.subset hmem)
  simp only [other] at he
  split at he
  · exact hne he
  · rename_i hec
    exact hec he

/-- Both adapters accept what a text operator means for `containing` with
literal letters only, and never for `like`. -/
theorem faithful_iff (fold : Char → Char) (arg : String) (op : TextOperator) :
    op.Faithful fold arg ↔ op = .containing ∧ ∀ c ∈ arg.toList, Literal fold c := by
  cases op with
  | like =>
    constructor
    · intro hfaithful
      obtain ⟨value, hvalue⟩ := exists_like_ne arg.toList
      have hmongo := (hfaithful "" (String.ofList value)).2
      rw [mongoAccepts_like, String.toList_ofList] at hmongo
      have hlike : like.Means arg (String.ofList value) ↔
          Library.like arg.toList value = true := by
        simp [Means]
      exact absurd (hmongo.trans hlike) hvalue
    · rintro ⟨hop, -⟩
      cases hop
  | containing =>
    constructor
    · intro hfaithful
      exact ⟨rfl, literal_of_containing_faithful hfaithful⟩
    · rintro ⟨-, harg⟩
      exact containing_faithful_of_literal harg

/-- `find_by_name_like("%Al%")` does not find Alice in MongoDB. -/
theorem not_faithful_like : ¬ like.Faithful id "%Al%" := by
  intro hfaithful
  have hvalue := hfaithful "name" "Alice"
  rw [mongoAccepts_like] at hvalue
  have hmeans : like.Means "%Al%" "Alice" := by
    simp [Means, Library.like, likePiece, Piece.accepts, Piece.afterRun]
  have hsearch := hvalue.2.mpr hmeans
  simp [likePieces, Piece.search, Piece.accepts, Piece.afterRun] at hsearch

end TextOperator

end PyFly.Data
