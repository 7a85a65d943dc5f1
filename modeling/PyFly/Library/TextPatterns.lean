import Mathlib.Data.List.Forall2

/-!
# Text patterns

Patterns are sequences of pieces, each for one character or for a run of
them.  SQL `LIKE` patterns are such sequences, and so are the regular
expressions without groups, classes, anchors and alternatives.
-/

namespace PyFly.Library

open List

inductive Piece
  | one (test : Char → Bool)
  | run (test : Char → Bool)

namespace Piece

/-- Some characters which pass the test, then what `rest` accepts. -/
def afterRun (test : Char → Bool) (rest : List Char → Bool) : List Char → Bool
  | [] => rest []
  | c :: value => rest (c :: value) || (test c && afterRun test rest value)

def accepts : List Piece → List Char → Bool
  | [], value => value.isEmpty
  | .one _ :: _, [] => false
  | .one test :: pieces, c :: value => test c && accepts pieces value
  | .run test :: pieces, value => afterRun test (accepts pieces) value

def search (pieces : List Piece) (value : List Char) : Bool :=
  accepts (.run (fun _ => true) :: (pieces ++ [.run fun _ => true])) value

@[simp] theorem accepts_nil (value : List Char) :
    accepts [] value = true ↔ value = [] := by
  simp [accepts]

variable {pieces : List Piece} {value : List Char}

theorem accepts_one_cons {test : Char → Bool} : accepts (.one test :: pieces) value = true ↔
      ∃ c rest, value = c :: rest ∧ test c = true ∧ accepts pieces rest = true := by
  cases value with
  | nil => simp [accepts]
  | cons c rest => simp [accepts]

theorem afterRun_iff {test : Char → Bool} {rest : List Char → Bool} :
    afterRun test rest value = true ↔ ∃ front back, value = front ++ back ∧
        (∀ c ∈ front, test c = true) ∧ rest back = true := by
  induction value with
  | nil =>
    constructor
    · intro hrest
      exact ⟨[], [], rfl, by simp, hrest⟩
    · rintro ⟨front, back, hsplit, -, hrest⟩
      obtain ⟨rfl, rfl⟩ := append_eq_nil_iff.mp hsplit.symm
      exact hrest
  | cons c value ih =>
    simp only [afterRun, Bool.or_eq_true, Bool.and_eq_true, ih]
    constructor
    · rintro (hrest | ⟨htest, front, back, rfl, hfront, hrest⟩)
      · exact ⟨[], c :: value, rfl, by simp, hrest⟩
      · exact ⟨c :: front, back, rfl, by simpa [htest] using hfront, hrest⟩
    · rintro ⟨front, back, hsplit, hfront, hrest⟩
      cases front with
      | nil =>
        rw [nil_append] at hsplit
        exact Or.inl (by rw [hsplit]; exact hrest)
      | cons d front =>
        rw [cons_append, List.cons.injEq] at hsplit
        obtain ⟨rfl, rfl⟩ := hsplit
        refine Or.inr ⟨hfront c (by simp), front, back, rfl, ?_, hrest⟩
        exact fun d hd => hfront d (by simp [hd])

theorem accepts_run_cons {test : Char → Bool} :
    accepts (.run test :: pieces) value = true ↔ ∃ front back, value = front ++ back ∧
        (∀ c ∈ front, test c = true) ∧ accepts pieces back = true :=
  afterRun_iff

theorem accepts_append {first second : List Piece} :
    accepts (first ++ second) value = true ↔ ∃ front back, value = front ++ back ∧
        accepts first front = true ∧ accepts second back = true := by
  induction first generalizing value with
  | nil => simp
  | cons piece first ih =>
    cases piece with
    | one test =>
      rw [cons_append, accepts_one_cons]
      constructor
      · rintro ⟨c, rest, rfl, htest, hrest⟩
        obtain ⟨front, back, rfl, hfront, hback⟩ := ih.mp hrest
        refine ⟨c :: front, back, rfl, ?_, hback⟩
        exact accepts_one_cons.mpr ⟨c, front, rfl, htest, hfront⟩
      · rintro ⟨front, back, rfl, hfront, hback⟩
        obtain ⟨c, rest, rfl, htest, hrest⟩ := accepts_one_cons.mp hfront
        refine ⟨c, rest ++ back, rfl, htest, ?_⟩
        exact ih.mpr ⟨rest, back, rfl, hrest, hback⟩
    | run test =>
      rw [cons_append, accepts_run_cons]
      constructor
      · rintro ⟨passed, rest, rfl, hpassed, hrest⟩
        obtain ⟨front, back, rfl, hfront, hback⟩ := ih.mp hrest
        refine ⟨passed ++ front, back, by simp, ?_, hback⟩
        exact accepts_run_cons.mpr ⟨passed, front, rfl, hpassed, hfront⟩
      · rintro ⟨front, back, rfl, hfront, hback⟩
        obtain ⟨passed, rest, rfl, hpassed, hrest⟩ :=
          accepts_run_cons.mp hfront
        refine ⟨passed, rest ++ back, by simp, hpassed, ?_⟩
        exact ih.mpr ⟨rest, back, rfl, hrest, hback⟩

theorem search_iff : search pieces value = true ↔
      ∃ front middle back, value = front ++ (middle ++ back) ∧
        accepts pieces middle = true := by
  rw [search, accepts_run_cons]
  constructor
  · rintro ⟨front, rest, rfl, -, hrest⟩
    obtain ⟨middle, back, rfl, hmiddle, -⟩ := accepts_append.mp hrest
    exact ⟨front, middle, back, rfl, hmiddle⟩
  · rintro ⟨front, middle, back, rfl, hmiddle⟩
    refine ⟨front, middle ++ back, rfl, by simp, ?_⟩
    refine accepts_append.mpr ⟨middle, back, rfl, hmiddle, ?_⟩
    exact accepts_run_cons.mpr ⟨back, [], by simp, by simp, by simp⟩

def spell (same : Char → Char → Bool) (text : List Char) : List Piece :=
  text.map fun c => .one (same c)

theorem accepts_spell {same : Char → Char → Bool} {text : List Char} :
    accepts (spell same text) value = true ↔
      List.Forall₂ (fun c d => same c d = true) text value := by
  induction text generalizing value with
  | nil => simp [spell]
  | cons c text ih =>
    rw [spell, map_cons, accepts_one_cons, ← spell]
    constructor
    · rintro ⟨d, rest, rfl, hsame, hrest⟩
      exact List.Forall₂.cons hsame (ih.mp hrest)
    · intro hforall
      obtain ⟨d, rest, hsame, hrest, rfl⟩ :=
        forall₂_cons_left_iff.mp hforall
      exact ⟨d, rest, rfl, hsame, ih.mpr hrest⟩

end Piece

def likePiece : Char → Piece
  | '%' => .run fun _ => true
  | '_' => .one fun _ => true
  | c => .one (c == ·)

/-- `LIKE`, without an escape character. -/
def like (pattern value : List Char) : Bool :=
  Piece.accepts (pattern.map likePiece) value

inductive RegexToken
  | literal (c : Char)
  | any
  | repeated
  deriving DecidableEq, Repr

def regexSpecial : List Char :=
  "\\^$|?+()[]\x7b\x7d".toList

/-- The tokens of a regular expression; `none` outside the fragment. -/
def regexTokens : List Char → Option (List RegexToken)
  | [] => some []
  | '\\' :: c :: rest =>
    if c.isAlphanum then none else (regexTokens rest).map (.literal c :: ·)
  | '.' :: rest => (regexTokens rest).map (.any :: ·)
  | '*' :: rest => (regexTokens rest).map (.repeated :: ·)
  | c :: rest =>
    if c ∈ regexSpecial then none
    else (regexTokens rest).map (.literal c :: ·)

/-- What the token of one character matches; `.` does not match the end of a
line. -/
def RegexToken.test (same : Char → Char → Bool) : RegexToken → Char → Bool
  | literal c => same c
  | any => (· != '\n')
  | repeated => fun _ => false

/-- The pieces of the tokens, and whether a `*` comes first, whose piece
stands before them. -/
def regexPieces (same : Char → Char → Bool) : List RegexToken → Option (Bool × List Piece)
  | [] => some (false, [])
  | .repeated :: rest =>
    match regexPieces same rest with
    | some (false, pieces) => some (true, pieces)
    | _ => none
  | token :: rest =>
    match regexPieces same rest with
    | some (true, pieces) => some (false, .run (token.test same) :: pieces)
    | some (false, pieces) => some (false, .one (token.test same) :: pieces)
    | none => none

/-- Whether a regular expression is found in a value; `none` outside the
fragment. -/
def regexSearch (same : Char → Char → Bool) (pattern value : List Char) : Option Bool := do
  let tokens ← regexTokens pattern
  match regexPieces same tokens with
  | some (false, pieces) => some (Piece.search pieces value)
  | _ => none

theorem regexSearch_of_pieces {same : Char → Char → Bool}
    {pattern value : List Char} {tokens : List RegexToken}
    {pieces : List Piece} (htokens : regexTokens pattern = some tokens)
    (hpieces : regexPieces same tokens = some (false, pieces)) :
    regexSearch same pattern value = some (Piece.search pieces value) := by
  simp [regexSearch, htokens, hpieces]

/-- The characters which `re.escape` escapes. -/
def reSpecial : List Char :=
  "()[]\x7b\x7d?*+-|^$\\.&~# \t\n\r\x0b\x0c".toList

/-- `re.escape` of one character. -/
def reEscapeChar (c : Char) : List Char :=
  if c ∈ reSpecial then ['\\', c] else [c]

def reEscape (text : List Char) : List Char :=
  text.flatMap reEscapeChar

theorem isAlphanum_of_mem_reSpecial {c : Char} (h : c ∈ reSpecial) : c.isAlphanum = false := by
  have hall : reSpecial.all (fun d => !d.isAlphanum) = true := by
    decide
  simpa using all_eq_true.mp hall c h

theorem regexSpecial_subset : regexSpecial ⊆ reSpecial := by
  have hall : regexSpecial.all (fun d => decide (d ∈ reSpecial)) = true := by
    decide
  exact fun c hc => of_decide_eq_true (all_eq_true.mp hall c hc)

theorem regexTokens_reEscapeChar (c : Char) (rest : List Char) :
    regexTokens (reEscapeChar c ++ rest) = (regexTokens rest).map (.literal c :: ·) := by
  by_cases hspecial : c ∈ reSpecial
  · have hletter := isAlphanum_of_mem_reSpecial hspecial
    simp [reEscapeChar, hspecial, regexTokens, hletter]
  · have hregex : c ∉ regexSpecial := fun hc =>
      hspecial (regexSpecial_subset hc)
    have hbackslash : c ≠ '\\' := by
      rintro rfl
      exact hspecial (by decide)
    have hdot : c ≠ '.' := by
      rintro rfl
      exact hspecial (by decide)
    have hstar : c ≠ '*' := by
      rintro rfl
      exact hspecial (by decide)
    rw [reEscapeChar, if_neg hspecial, singleton_append, regexTokens]
    · rw [if_neg hregex]
    · exact fun _ _ h => absurd h hbackslash
    · exact hdot
    · exact hstar

/-- `str.replace` of a text of two characters. -/
def replacePair (first second : Char) (new : List Char) : List Char → List Char
  | [] => []
  | [c] => [c]
  | c :: d :: rest =>
    if c = first ∧ d = second then new ++ replacePair first second new rest
    else c :: replacePair first second new (d :: rest)

end PyFly.Library
