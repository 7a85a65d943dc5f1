import PyFly.Library.Regex

/-!
# The text of a regular expression

What is read of the syntax of `re`: characters, escaped where they have to be,
the class of all characters but one, groups, and the repetitions `*` and `+`.
A text outside the fragment is not read.
-/

open scoped Computability

namespace PyFly.Library

open List

inductive RegexSymbol
  | literal (c : Char)
  | other (c : Char)
  | opening
  | closing
  | star
  | plus
  deriving DecidableEq, Repr

/-- The symbols of a text; `none` outside the fragment. -/
def regexSymbols : List Char → Option (List RegexSymbol)
  | [] => some []
  | '\\' :: c :: rest =>
    if c.isAlphanum then none else (regexSymbols rest).map (.literal c :: ·)
  | '[' :: '^' :: c :: ']' :: rest =>
    if c = '\\' ∨ c = ']' then none
    else (regexSymbols rest).map (.other c :: ·)
  | '(' :: '?' :: ':' :: rest => (regexSymbols rest).map (.opening :: ·)
  | ')' :: rest => (regexSymbols rest).map (.closing :: ·)
  | '*' :: rest => (regexSymbols rest).map (.star :: ·)
  | '+' :: rest => (regexSymbols rest).map (.plus :: ·)
  | c :: rest =>
    if c = '.' ∨ regexSpecial.contains c then none
    else (regexSymbols rest).map (.literal c :: ·)

/-- The expressions which are read and the open groups, the last one first, and
whether the last expression may be repeated. -/
structure RegexFrame where
  outer : List (List (Regex Char))
  items : List (Regex Char)
  repeatable : Bool

namespace RegexFrame

def start : RegexFrame :=
  ⟨[], [], false⟩

def push (frame : RegexFrame) (regex : Regex Char) : RegexFrame :=
  ⟨frame.outer, regex :: frame.items, true⟩

def repeatLast (frame : RegexFrame) (build : Regex Char → Regex Char) : Option RegexFrame :=
  match frame.repeatable, frame.items with
  | true, regex :: items => some ⟨frame.outer, build regex :: items, false⟩
  | _, _ => none

def read (frame : RegexFrame) : RegexSymbol → Option RegexFrame
  | .literal c => some (frame.push (.one (· == c)))
  | .other c => some (frame.push (.one (· != c)))
  | .opening => some ⟨frame.items :: frame.outer, [], false⟩
  | .closing =>
    match frame.outer with
    | [] => none
    | items :: outer =>
      some ⟨outer, .concat frame.items.reverse :: items, true⟩
  | .star => frame.repeatLast .star
  | .plus => frame.repeatLast .plus

def finish (frame : RegexFrame) : Option (Regex Char) :=
  if frame.outer.isEmpty then some (.concat frame.items.reverse) else none

end RegexFrame

namespace Regex

/-- `re.compile` -/
def compile (text : List Char) : Option (Regex Char) := do
  let symbols ← regexSymbols text
  let frame ← symbols.foldlM RegexFrame.read .start
  frame.finish

/-! ## Texts which are read -/

def Spells (text : List Char) (symbols : List RegexSymbol) : Prop :=
  ∀ rest, regexSymbols (text ++ rest) = (regexSymbols rest).map (symbols ++ ·)

theorem Spells.append {front back : List Char}
    {symbols others : List RegexSymbol} (hfront : Spells front symbols)
    (hback : Spells back others) :
    Spells (front ++ back) (symbols ++ others) := by
  intro rest
  rw [append_assoc, hfront, hback, Option.map_map]
  congr 1
  funext tail
  exact (append_assoc _ _ _).symm

def IsAtom (text : List Char) (regex : Regex Char) : Prop :=
  ∃ symbols, Spells text symbols ∧
    ∀ frame, symbols.foldlM RegexFrame.read frame = some (frame.push regex)

def Denotes (text : List Char) (language : Language Char) : Prop :=
  ∃ (symbols : List RegexSymbol) (regexes : List (Regex Char)), Spells text symbols ∧
    (∀ frame : RegexFrame, ∃ repeatable, symbols.foldlM RegexFrame.read frame =
        some ⟨frame.outer, regexes.reverse ++ frame.items, repeatable⟩) ∧
    (regexes.map Regex.language).prod = language

theorem Denotes.nil : Denotes [] 1 := by
  refine ⟨[], [], ?_, fun frame => ⟨frame.repeatable, rfl⟩, rfl⟩
  intro rest
  simp

theorem Denotes.append {front back : List Char} {first second : Language Char}
    (hfront : Denotes front first) (hback : Denotes back second) :
    Denotes (front ++ back) (first * second) := by
  obtain ⟨symbols, regexes, hspells, hread, hfirst⟩ := hfront
  obtain ⟨others, more, hspells', hread', hsecond⟩ := hback
  refine ⟨symbols ++ others, regexes ++ more, hspells.append hspells', ?_, ?_⟩
  · intro frame
    obtain ⟨flag, hframe⟩ := hread frame
    obtain ⟨flag', hframe'⟩ :=
      hread' ⟨frame.outer, regexes.reverse ++ frame.items, flag⟩
    refine ⟨flag', ?_⟩
    rw [foldlM_append, hframe, reverse_append, append_assoc]
    exact hframe'
  · rw [map_append, prod_append, hfirst, hsecond]

variable {text : List Char} {regex : Regex Char}

theorem IsAtom.denotes (h : IsAtom text regex) : Denotes text regex.language := by
  obtain ⟨symbols, hspells, hread⟩ := h
  refine ⟨symbols, [regex], hspells, ?_, ?_⟩
  · intro frame
    exact ⟨true, hread frame⟩
  · rw [map_singleton, prod_singleton]

theorem spells_star : Spells ['*'] [.star] := by
  intro rest
  rfl

theorem spells_plus : Spells ['+'] [.plus] := by
  intro rest
  rfl

theorem IsAtom.repeated (h : IsAtom text regex) {c : Char}
    {symbol : RegexSymbol} {build : Regex Char → Regex Char}
    (hspells : Spells [c] [symbol]) (hread : ∀ frame : RegexFrame,
      frame.read symbol = frame.repeatLast build) :
    Denotes (text ++ [c]) (build regex).language := by
  obtain ⟨symbols, hspells', hread'⟩ := h
  refine ⟨symbols ++ [symbol], [build regex], hspells'.append hspells, ?_, ?_⟩
  · intro frame
    refine ⟨false, ?_⟩
    rw [foldlM_append, hread']
    simp [hread, RegexFrame.repeatLast, RegexFrame.push]
  · rw [map_singleton, prod_singleton]

theorem IsAtom.star (h : IsAtom text regex) :
    Denotes (text ++ ['*']) (Regex.star regex).language :=
  h.repeated spells_star fun _ => rfl

theorem IsAtom.plus (h : IsAtom text regex) :
    Denotes (text ++ ['+']) (Regex.plus regex).language :=
  h.repeated spells_plus fun _ => rfl

theorem isAtom_reEscapeChar (c : Char) : IsAtom (reEscapeChar c) (.one (· == c)) := by
  refine ⟨[.literal c], ?_, fun frame => rfl⟩
  intro rest
  by_cases hspecial : c ∈ reSpecial
  · have hletter := isAlphanum_of_mem_reSpecial hspecial
    simp [reEscapeChar, hspecial, regexSymbols, hletter]
  · have hne : ∀ d ∈ reSpecial, c ≠ d := by
      intro d hd hsame
      exact hspecial (hsame ▸ hd)
    have hplain : c ∉ regexSpecial := fun hc =>
      hspecial (regexSpecial_subset hc)
    have hread : ¬ (c = '.' ∨ regexSpecial.contains c = true) := by
      rw [contains_iff_mem, not_or]
      exact ⟨hne '.' (by decide), hplain⟩
    rw [reEscapeChar, if_neg hspecial, singleton_append, regexSymbols, if_neg hread]
    · rfl
    · exact fun _ _ h => absurd h (hne _ (by decide))
    · exact fun _ _ h => absurd h (hne _ (by decide))
    · exact fun _ h => absurd h (hne _ (by decide))
    · exact hne _ (by decide)
    · exact hne _ (by decide)
    · exact hne _ (by decide)

theorem isAtom_other {c : Char} (hplain : ¬ (c = '\\' ∨ c = ']')) :
    IsAtom ['[', '^', c, ']'] (.one (· != c)) := by
  refine ⟨[.other c], ?_, fun frame => rfl⟩
  intro rest
  simp only [cons_append, nil_append, regexSymbols]
  rw [if_neg hplain]

theorem Denotes.group {language : Language Char} (h : Denotes text language) :
    ∃ regex, IsAtom (['(', '?', ':'] ++ text ++ [')']) regex ∧ regex.language = language := by
  obtain ⟨symbols, regexes, hspells, hread, hlanguage⟩ := h
  refine ⟨.concat regexes, ⟨[.opening] ++ symbols ++ [.closing], ?_, ?_⟩, ?_⟩
  · have hopening : Spells ['(', '?', ':'] [.opening] := by
      intro rest
      rfl
    have hclosing : Spells [')'] [.closing] := by
      intro rest
      rfl
    exact (hopening.append hspells).append hclosing
  · intro frame
    obtain ⟨flag, hframe⟩ := hread ⟨frame.items :: frame.outer, [], false⟩
    have hopen : [RegexSymbol.opening].foldlM RegexFrame.read frame =
        some ⟨frame.items :: frame.outer, [], false⟩ := rfl
    rw [foldlM_append, foldlM_append, hopen, Option.bind_eq_bind, Option.bind_some, hframe]
    simp [RegexFrame.read, RegexFrame.push]
  · rw [language_concat, hlanguage]

theorem Denotes.compile {language : Language Char} (h : Denotes text language) :
    ∃ regex, Regex.compile text = some regex ∧ regex.language = language := by
  obtain ⟨symbols, regexes, hspells, hread, hlanguage⟩ := h
  have hsymbols : regexSymbols text = some symbols := by
    have hwhole := hspells []
    rw [append_nil] at hwhole
    rw [hwhole]
    simp [regexSymbols]
  obtain ⟨flag, hframe⟩ := hread .start
  refine ⟨.concat regexes, ?_, by rw [language_concat, hlanguage]⟩
  rw [Regex.compile, hsymbols, Option.bind_eq_bind, Option.bind_some, hframe]
  simp [RegexFrame.finish, RegexFrame.start]

end Regex

end PyFly.Library
