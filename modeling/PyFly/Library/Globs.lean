import PyFly.Library.TextPatterns

/-!
# Glob patterns

`fnmatch` where names keep their case: `*` matches any text, `?` and a set in
brackets match one character, and an open bracket without a closing one stands
for itself.
-/

namespace PyFly.Library

open List

def setText (pattern : List Char) : Option (List Char) :=
  let (bang, pattern) :=
    match pattern with
    | '!' :: rest => (['!'], rest)
    | _ => ([], pattern)
  let (bracket, pattern) :=
    match pattern with
    | ']' :: rest => ([']'], rest)
    | _ => ([], pattern)
  if ']' ∈ pattern then
    some (bang ++ bracket ++ pattern.takeWhile (· ≠ ']'))
  else none

/-- The text of a set cut at the hyphens of its ranges, of which the next is not
among the first `skip` characters; a hyphen at the end is a character. -/
def rangeChunks (skip : ℕ) (chunk : List Char) : List Char → List (List Char)
  | [] => [chunk]
  | c :: rest =>
    if skip = 0 ∧ c = '-' then
      if rest.isEmpty then [chunk ++ ['-']]
      else chunk :: rangeChunks 2 [] rest
    else rangeChunks (skip - 1) (chunk ++ [c]) rest

def dropEmptyRanges : List (List Char) → List (List Char)
  | [] => []
  | chunk :: chunks =>
    match chunk.getLast?, dropEmptyRanges chunks with
    | some low, (high :: next) :: others =>
      if high < low then (chunk.dropLast ++ next) :: others
      else chunk :: (high :: next) :: others
    | _, others => chunk :: others

def inChunks (c : Char) : List (List Char) → Bool
  | [] => false
  | chunk :: chunks =>
    c ∈ chunk || (match chunk.getLast?, chunks with
        | some low, (high :: _) :: _ => low ≤ c && c ≤ high
        | _, _ => false) ||
      inChunks c chunks

/-- The characters of a set, or those which are not in it after `!`. -/
def inSet (text : List Char) (c : Char) : Bool :=
  let chunks :=
    if '-' ∈ text then
      dropEmptyRanges (rangeChunks (if text.head? = some '!' then 2 else 1) [] text)
    else [text]
  match chunks with
  | ('!' :: chunk) :: chunks => !inChunks c (chunk :: chunks)
  | chunks => inChunks c chunks

/-- The pieces of a pattern after its first `skip` characters. -/
def globPieces : ℕ → List Char → List Piece
  | _, [] => []
  | skip + 1, _ :: pattern => globPieces skip pattern
  | 0, '*' :: pattern => .run (fun _ => true) :: globPieces 0 pattern
  | 0, '?' :: pattern => .one (fun _ => true) :: globPieces 0 pattern
  | 0, '[' :: pattern =>
    match setText pattern with
    | some text => .one (inSet text) :: globPieces (text.length + 1) pattern
    | none => .one (· == '[') :: globPieces 0 pattern
  | 0, c :: pattern => .one (· == c) :: globPieces 0 pattern

def fnmatch (name pattern : List Char) : Bool :=
  Piece.accepts (globPieces 0 pattern) name

example : fnmatch "/api/v1".toList "/api/*".toList = true := by decide
example : fnmatch "b".toList "[!a-ce]".toList = false := by decide
example : fnmatch "-".toList "[a-]".toList = true := by decide
example : fnmatch "x".toList "[!b-a]".toList = true := by decide

/-! ## Escaped texts -/

/-- `glob.escape` of one character. -/
def globEscapeChar (c : Char) : List Char :=
  if c ∈ ['*', '?', '['] then ['[', c, ']'] else [c]

def globEscape (text : List Char) : List Char :=
  text.flatMap globEscapeChar

theorem globPieces_escapeChar (c : Char) (pattern : List Char) :
    ∃ test : Char → Bool, (∀ d, test d = true ↔ d = c) ∧
      globPieces 0 (globEscapeChar c ++ pattern) = .one test :: globPieces 0 pattern := by
  by_cases hspecial : c ∈ ['*', '?', '[']
  · refine ⟨inSet [c], ?_, ?_⟩
    · intro d
      simp only [mem_cons, not_mem_nil, or_false] at hspecial
      rcases hspecial with rfl | rfl | rfl <;> simp [inSet, inChunks]
    · simp only [mem_cons, not_mem_nil, or_false] at hspecial
      rcases hspecial with rfl | rfl | rfl <;> simp [globEscapeChar, globPieces, setText]
  · refine ⟨(· == c), by simp, ?_⟩
    simp only [mem_cons, not_mem_nil, or_false, not_or] at hspecial
    obtain ⟨hstar, hmark, hopen⟩ := hspecial
    simp [globEscapeChar, hstar, hmark, hopen, globPieces]

theorem fnmatch_globEscape (name text : List Char) :
    fnmatch name (globEscape text) = true ↔ name = text := by
  unfold fnmatch globEscape
  induction text generalizing name with
  | nil => simp [globPieces]
  | cons c text ih =>
    obtain ⟨test, htest, hpieces⟩ :=
      globPieces_escapeChar c (text.flatMap globEscapeChar)
    rw [flatMap_cons, hpieces, Piece.accepts_one_cons]
    constructor
    · rintro ⟨d, rest, rfl, hd, hrest⟩
      rw [(htest d).mp hd, (ih rest).mp hrest]
    · rintro rfl
      exact ⟨c, text, rfl, (htest c).mpr rfl, (ih text).mpr rfl⟩

end PyFly.Library
