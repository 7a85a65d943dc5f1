import PyFly.AspectWeaving
import PyFly.Library.RegexText
import PyFly.Library.Segments

/-!
# Pointcuts as regular expressions

A pointcut is matched by a regular expression, which is put together segment by
segment.  What it matches is said of the segments: those of the name are cut
into blocks, and each segment of the pattern takes one block.
-/

open scoped Computability

namespace PyFly.Aop

open Library Regex List

/-! ## Compilation -/

def globToRegex (ch : Char) : List Char :=
  if ch = '*' then "[^.]*".toList
  else if ch = '?' then "[^.]".toList
  else reEscapeChar ch

def segmentToRegex (seg : List Char) : List Char :=
  if seg = ['*', '*'] then "(?:[^.]+\\.)*[^.]+".toList
  else if seg = ['*'] then "[^.]+".toList
  else seg.flatMap globToRegex

/-- The text which `_pattern_to_regex` compiles. -/
def patternToRegex (pattern : List Char) : List Char :=
  "\\.".toList.intercalate ((pattern.splitOn '.').map segmentToRegex)

/-- `matches_pointcut`, where its regular expression can be read. -/
def fullmatchPointcut (pattern qualifiedName : List Char) : Option Bool :=
  (compile (patternToRegex pattern)).map fun regex =>
    regex.fullmatch qualifiedName

/-! ## Blocks of segments -/

inductive GlobMatches : List Char → List Char → Prop
  | nil : GlobMatches [] []
  | run {glob back : List Char} (front : List Char) (h : GlobMatches glob back) :
      GlobMatches ('*' :: glob) (front ++ back)
  | any {glob text : List Char} (c : Char) (h : GlobMatches glob text) :
      GlobMatches ('?' :: glob) (c :: text)
  | literal {glob text : List Char} {c : Char} (hstar : c ≠ '*')
      (hmark : c ≠ '?') (h : GlobMatches glob text) :
      GlobMatches (c :: glob) (c :: text)

inductive Takes : List Char → List (List Char) → Prop
  | many {block : List (List Char)} (hne : block ≠ []) : Takes ['*', '*'] block
  | single (part : List Char) : Takes ['*'] [part]
  | glob {seg part : List Char} (hmany : seg ≠ ['*', '*'])
      (hsingle : seg ≠ ['*']) (h : GlobMatches seg part) : Takes seg [part]

def Cuts (pattern qualifiedName : List Char) : Prop :=
  ∃ blocks : List (List (List Char)), blocks.flatten = qualifiedName.splitOn '.' ∧
      List.Forall₂ Takes (pattern.splitOn '.') blocks

def Filled (seg : List Char) (block : List (List Char)) : Prop :=
  seg = ['*', '*'] ∨ seg = ['*'] → ∀ part ∈ block, part ≠ []

/-! ## What a segment matches -/

def segmentLanguage (seg : List Char) : Language Char :=
  {text | Takes seg (text.splitOn '.') ∧ Filled seg (text.splitOn '.')}

def notDot : Regex Char :=
  .one (· != '.')

theorem mem_notDot {text : List Char} : text ∈ notDot.language ↔ ∃ c, c ≠ '.' ∧ text = [c] := by
  simp [notDot, mem_language_one]

theorem mem_star_notDot {text : List Char} :
    text ∈ (Regex.star notDot).language ↔ '.' ∉ text := by
  rw [notDot, mem_language_star_one]
  constructor
  · intro h hdot
    exact absurd (h '.' hdot) (by decide)
  · intro h c hc
    exact bne_iff_ne.mpr fun hsame => h (hsame ▸ hc)

theorem mem_plus_notDot {text : List Char} :
    text ∈ (Regex.plus notDot).language ↔ text ≠ [] ∧ '.' ∉ text := by
  rw [← mem_star_notDot, notDot, mem_language_plus_one, mem_language_star_one]

theorem isAtom_notDot : IsAtom "[^.]".toList notDot :=
  isAtom_other (by decide)

theorem denotes_dot : Denotes "\\.".toList {['.']} := by
  have h := (isAtom_reEscapeChar '.').denotes
  have hdot : (Regex.one (· == '.')).language = {['.']} := by
    ext text
    rw [mem_language_one]
    simp only [beq_iff_eq, exists_eq_left]
    rfl
  rwa [hdot] at h

theorem mem_many {text : List Char} :
    text ∈ ((Regex.plus notDot).language * {['.']})∗ * (Regex.plus notDot).language ↔
      ∀ part ∈ text.splitOn '.', part ≠ [] := by
  rw [Language.mem_mul]
  constructor
  · intro h
    obtain ⟨front, hfront, back, hback, rfl⟩ := h
    obtain ⟨hne, hplain⟩ := mem_plus_notDot.mp hback
    obtain ⟨parts, rfl, hparts⟩ := Language.mem_kstar.mp hfront
    clear hfront
    induction parts with
    | nil =>
      intro part hpart
      rw [flatten_nil, nil_append, splitOn_eq_singleton hplain, mem_singleton] at hpart
      rwa [hpart]
    | cons first parts ih =>
      obtain ⟨word, hword, dot, hdot, rfl⟩ :=
        Language.mem_mul.mp (hparts first mem_cons_self)
      obtain ⟨hfilled, hfree⟩ := mem_plus_notDot.mp hword
      have hsame : dot = ['.'] := hdot
      intro part hpart
      rw [hsame, flatten_cons, append_assoc, append_assoc, singleton_append,
        splitOn_append_cons_self_of_not_mem hfree] at hpart
      rcases mem_cons.mp hpart with rfl | hpart
      · exact hfilled
      · exact ih (fun other hother =>
          hparts other (mem_cons_of_mem _ hother)) part hpart
  · intro h
    have hfree : ∀ part ∈ text.splitOn '.', '.' ∉ part :=
      fun part => notMem_of_mem_splitOn
    have hne := splitOn_ne_nil '.' text
    obtain ⟨parts, hparts⟩ : ∃ parts, parts = text.splitOn '.' := ⟨_, rfl⟩
    obtain rfl : text = ['.'].intercalate parts :=
      (hparts ▸ intercalate_splitOn '.').symm
    rw [← hparts] at h hfree hne
    clear hparts
    induction parts with
    | nil => exact absurd rfl hne
    | cons part parts ih =>
      have hpart := mem_plus_notDot.mpr ⟨h part mem_cons_self, hfree part mem_cons_self⟩
      cases parts with
      | nil => exact ⟨[], Language.nil_mem_kstar _, part, hpart, by simp⟩
      | cons other parts =>
        obtain ⟨front, hfront, back, hback, hjoin⟩ := ih
          (fun part hmem => h part (mem_cons_of_mem _ hmem))
          (fun part hmem => hfree part (mem_cons_of_mem _ hmem))
          (cons_ne_nil _ _)
        obtain ⟨words, rfl, hwords⟩ := Language.mem_kstar.mp hfront
        refine ⟨((part ++ ['.']) :: words).flatten, ?_, back, hback, ?_⟩
        · apply Language.join_mem_kstar
          intro word hword
          rcases mem_cons.mp hword with rfl | hword
          · exact Language.mem_mul.mpr ⟨part, hpart, ['.'], rfl, rfl⟩
          · exact hwords word hword
        · rw [intercalate_cons_cons, ← hjoin]
          simp

theorem denotes_many : Denotes "(?:[^.]+\\.)*[^.]+".toList
    (((Regex.plus notDot).language * {['.']})∗ * (Regex.plus notDot).language) := by
  have hplus := isAtom_notDot.plus
  obtain ⟨regex, hgroup, hlanguage⟩ := (hplus.append denotes_dot).group
  have hstar := hgroup.star
  rw [Regex.language, hlanguage] at hstar
  exact hstar.append hplus

def globLanguage (glob : List Char) : Language Char :=
  {text | '.' ∉ text ∧ GlobMatches glob text}

theorem globLanguage_nil : globLanguage [] = 1 := by
  ext text
  rw [Language.mem_one]
  constructor
  · intro h
    cases h.2
    rfl
  · intro h
    rw [h]
    exact ⟨not_mem_nil, .nil⟩

theorem globLanguage_star (glob : List Char) : globLanguage ('*' :: glob) =
      (Regex.star notDot).language * globLanguage glob := by
  ext text
  rw [Language.mem_mul]
  constructor
  · intro h
    obtain ⟨hplain, hmatch⟩ := h
    cases hmatch with
    | run front hback =>
      rw [mem_append, not_or] at hplain
      exact ⟨front, mem_star_notDot.mpr hplain.1, _, ⟨hplain.2, hback⟩, rfl⟩
    | literal hne => exact absurd rfl hne
  · intro h
    obtain ⟨front, hfront, back, hback, rfl⟩ := h
    refine ⟨?_, .run front hback.2⟩
    rw [mem_append, not_or]
    exact ⟨mem_star_notDot.mp hfront, hback.1⟩

theorem globLanguage_mark (glob : List Char) :
    globLanguage ('?' :: glob) = notDot.language * globLanguage glob := by
  ext text
  rw [Language.mem_mul]
  constructor
  · intro h
    obtain ⟨hplain, hmatch⟩ := h
    cases hmatch with
    | any d hback =>
      rw [mem_cons, not_or] at hplain
      exact ⟨[d], mem_notDot.mpr ⟨d, Ne.symm hplain.1, rfl⟩, _, ⟨hplain.2, hback⟩, rfl⟩
    | literal _ hne => exact absurd rfl hne
  · intro h
    obtain ⟨front, hfront, back, hback, rfl⟩ := h
    obtain ⟨d, hd, rfl⟩ := mem_notDot.mp hfront
    refine ⟨?_, .any d hback.2⟩
    rw [singleton_append, mem_cons, not_or]
    exact ⟨Ne.symm hd, hback.1⟩

theorem globLanguage_literal {c : Char} (hstar : c ≠ '*') (hmark : c ≠ '?')
    (hdot : c ≠ '.') (glob : List Char) :
    globLanguage (c :: glob) = (Regex.one (· == c)).language * globLanguage glob := by
  ext text
  rw [Language.mem_mul]
  constructor
  · intro h
    obtain ⟨hplain, hmatch⟩ := h
    cases hmatch with
    | run => exact absurd rfl hstar
    | any => exact absurd rfl hmark
    | literal _ _ hback =>
      rw [mem_cons, not_or] at hplain
      exact ⟨[c], ⟨c, beq_self_eq_true c, rfl⟩, _, ⟨hplain.2, hback⟩, rfl⟩
  · intro h
    obtain ⟨front, hfront, back, hback, rfl⟩ := h
    obtain ⟨d, hd, rfl⟩ := mem_language_one.mp hfront
    rw [beq_iff_eq.mp hd]
    refine ⟨?_, .literal hstar hmark hback.2⟩
    rw [singleton_append, mem_cons, not_or]
    exact ⟨Ne.symm hdot, hback.1⟩

theorem denotes_glob {glob : List Char} (h : '.' ∉ glob) :
    Denotes (glob.flatMap globToRegex) (globLanguage glob) := by
  induction glob with
  | nil =>
    rw [globLanguage_nil]
    exact .nil
  | cons c glob ih =>
    rw [mem_cons, not_or] at h
    have hrest := ih h.2
    rw [flatMap_cons]
    by_cases hstar : c = '*'
    · rw [hstar, globLanguage_star]
      exact isAtom_notDot.star.append hrest
    · by_cases hmark : c = '?'
      · rw [hmark, globLanguage_mark]
        exact isAtom_notDot.denotes.append hrest
      · rw [globLanguage_literal hstar hmark (Ne.symm h.1), globToRegex,
          if_neg hstar, if_neg hmark]
        exact (isAtom_reEscapeChar c).denotes.append hrest

theorem segmentLanguage_many :
    segmentLanguage ['*', '*'] = ((Regex.plus notDot).language * {['.']})∗ *
      (Regex.plus notDot).language := by
  ext text
  rw [mem_many]
  constructor
  · intro h
    exact h.2 (Or.inl rfl)
  · intro h
    exact ⟨.many (splitOn_ne_nil _ _), fun _ => h⟩

theorem segmentLanguage_single : segmentLanguage ['*'] = (Regex.plus notDot).language := by
  ext text
  rw [mem_plus_notDot]
  constructor
  · intro h
    obtain ⟨htakes, hfilled⟩ := h
    generalize hparts : text.splitOn '.' = parts at htakes hfilled
    cases htakes with
    | single part =>
      obtain ⟨hplain, rfl⟩ := splitOn_eq_singleton_iff.mp hparts
      exact ⟨hfilled (Or.inr rfl) text (mem_singleton_self text), hplain⟩
    | glob _ hsingle => exact absurd rfl hsingle
  · intro h
    have hparts : text.splitOn '.' = [text] := splitOn_eq_singleton h.2
    show Takes _ (text.splitOn '.') ∧ Filled _ (text.splitOn '.')
    rw [hparts]
    refine ⟨.single text, ?_⟩
    intro _ part hpart
    rw [mem_singleton.mp hpart]
    exact h.1

theorem segmentLanguage_glob {seg : List Char} (hmany : seg ≠ ['*', '*'])
    (hsingle : seg ≠ ['*']) : segmentLanguage seg = globLanguage seg := by
  ext text
  constructor
  · intro h
    obtain ⟨htakes, -⟩ := h
    generalize hparts : text.splitOn '.' = parts at htakes
    cases htakes with
    | many => exact absurd rfl hmany
    | single => exact absurd rfl hsingle
    | glob _ _ hmatch =>
      obtain ⟨hplain, rfl⟩ := splitOn_eq_singleton_iff.mp hparts
      exact ⟨hplain, hmatch⟩
  · intro h
    have hparts : text.splitOn '.' = [text] := splitOn_eq_singleton h.1
    show Takes _ (text.splitOn '.') ∧ Filled _ (text.splitOn '.')
    rw [hparts]
    refine ⟨.glob hmany hsingle h.2, ?_⟩
    intro hwild
    rcases hwild with hwild | hwild
    · exact absurd hwild hmany
    · exact absurd hwild hsingle

theorem denotes_segmentToRegex {seg : List Char} (h : '.' ∉ seg) :
    Denotes (segmentToRegex seg) (segmentLanguage seg) := by
  unfold segmentToRegex
  split
  · next hmany =>
      rw [hmany, segmentLanguage_many]
      exact denotes_many
  · next hmany =>
      split
      · next hsingle =>
          rw [hsingle, segmentLanguage_single]
          exact isAtom_notDot.plus
      · next hsingle =>
          rw [segmentLanguage_glob hmany hsingle]
          exact denotes_glob h

/-! ## What a pattern matches -/

def joinedLanguage : List (List Char) → Language Char
  | [] => 1
  | [seg] => segmentLanguage seg
  | seg :: segs => segmentLanguage seg * ({['.']} * joinedLanguage segs)

theorem denotes_joined {segs : List (List Char)} (h : ∀ seg ∈ segs, '.' ∉ seg) :
    Denotes ("\\.".toList.intercalate (segs.map segmentToRegex)) (joinedLanguage segs) := by
  induction segs with
  | nil => exact .nil
  | cons seg segs ih =>
    have hseg := denotes_segmentToRegex (h seg mem_cons_self)
    have hrest := ih fun other hmem => h other (mem_cons_of_mem _ hmem)
    cases segs with
    | nil =>
      rw [map_singleton, intercalate_singleton]
      exact hseg
    | cons other segs =>
      rw [map_cons, map_cons, intercalate_cons_cons, append_assoc]
      exact hseg.append (denotes_dot.append hrest)

theorem mem_joinedLanguage {segs : List (List Char)} (hne : segs ≠ []) {text : List Char} :
    text ∈ joinedLanguage segs ↔ ∃ words,
      List.Forall₂ (fun seg word => word ∈ segmentLanguage seg) segs words ∧
        ['.'].intercalate words = text := by
  induction segs generalizing text with
  | nil => exact absurd rfl hne
  | cons seg segs ih =>
    cases segs with
    | nil =>
      constructor
      · intro h
        exact ⟨[text], .cons h .nil, intercalate_singleton⟩
      · intro h
        obtain ⟨words, hwords, rfl⟩ := h
        obtain ⟨word, rest, hword, hrest, rfl⟩ :=
          forall₂_cons_left_iff.mp hwords
        cases hrest
        rw [intercalate_singleton]
        exact hword
    | cons other segs =>
      have hrest := @ih (cons_ne_nil _ _)
      rw [joinedLanguage, Language.mem_mul]
      · constructor
        · intro h
          obtain ⟨word, hword, back, hback, rfl⟩ := h
          obtain ⟨dot, hdot, tail, htail, rfl⟩ := Language.mem_mul.mp hback
          have hsame : dot = ['.'] := hdot
          obtain ⟨words, hwords, rfl⟩ := hrest.mp htail
          refine ⟨word :: words, .cons hword hwords, ?_⟩
          cases hwords with
          | cons =>
            rw [intercalate_cons_cons, hsame, append_assoc]
        · intro h
          obtain ⟨words, hwords, rfl⟩ := h
          obtain ⟨word, rest, hword, htail, rfl⟩ :=
            forall₂_cons_left_iff.mp hwords
          have hmem := hrest.mpr ⟨rest, htail, rfl⟩
          obtain ⟨next, others, -, -, rfl⟩ :=
            forall₂_cons_left_iff.mp htail
          refine ⟨word, hword, _, Language.mem_mul.mpr ⟨['.'], rfl, _, hmem, rfl⟩, ?_⟩
          rw [intercalate_cons_cons, append_assoc]
      · simp

theorem Takes.ne_nil {seg : List Char} {block : List (List Char)}
    (h : Takes seg block) : block ≠ [] := by
  cases h with
  | many hne => exact hne
  | single => exact cons_ne_nil _ _
  | glob => exact cons_ne_nil _ _

theorem exists_words {segs : List (List Char)} {blocks : List (List (List Char))}
    (h : List.Forall₂ (fun seg block => Takes seg block ∧ Filled seg block) segs blocks)
    (hplain : ∀ part ∈ blocks.flatten, '.' ∉ part) :
    ∃ words : List (List Char),
      List.Forall₂ (fun seg word => word ∈ segmentLanguage seg) segs words ∧
        (words.map fun word => word.splitOn '.') = blocks := by
  induction h with
  | nil => exact ⟨[], .nil, rfl⟩
  | @cons seg block segs blocks hblock hrest ih =>
    simp only [flatten_cons, mem_append] at hplain
    obtain ⟨words, hwords, hmap⟩ := ih fun part hpart =>
      hplain part (Or.inr hpart)
    have hword : (['.'].intercalate block).splitOn '.' = block :=
      splitOn_intercalate '.'
        (fun part hpart => hplain part (Or.inl hpart)) hblock.1.ne_nil
    refine ⟨['.'].intercalate block :: words, .cons ?_ hwords, ?_⟩
    · show Takes seg ((['.'].intercalate block).splitOn '.') ∧
        Filled seg ((['.'].intercalate block).splitOn '.')
      rwa [hword]
    · rw [map_cons, hword, hmap]

theorem mem_joinedLanguage_iff_blocks {segs : List (List Char)}
    (hne : segs ≠ []) {text : List Char} :
    text ∈ joinedLanguage segs ↔ ∃ blocks : List (List (List Char)),
      blocks.flatten = text.splitOn '.' ∧
        List.Forall₂ (fun seg block => Takes seg block ∧ Filled seg block) segs blocks := by
  have hwords_ne : ∀ words : List (List Char),
      List.Forall₂ (fun seg word => word ∈ segmentLanguage seg) segs words → words ≠ [] := by
    rintro words hwords rfl
    exact hne (forall₂_nil_right_iff.mp hwords)
  rw [mem_joinedLanguage hne]
  constructor
  · intro h
    obtain ⟨words, hwords, rfl⟩ := h
    refine ⟨words.map fun word => word.splitOn '.', ?_, ?_⟩
    · exact (splitOn_intercalate_flatten (hwords_ne words hwords)).symm
    · exact forall₂_map_right_iff.mpr hwords
  · intro h
    obtain ⟨blocks, hflatten, hblocks⟩ := h
    obtain ⟨words, hwords, hmap⟩ := exists_words hblocks (by
      rw [hflatten]
      exact fun part => notMem_of_mem_splitOn)
    refine ⟨words, hwords, ?_⟩
    apply splitOn_injective '.'
    dsimp only
    rw [splitOn_intercalate_flatten (hwords_ne words hwords), hmap, hflatten]

theorem fullmatchPointcut_iff_blocks (pattern qualifiedName : List Char) :
    ∃ found, fullmatchPointcut pattern qualifiedName = some found ∧
      (found = true ↔ ∃ blocks : List (List (List Char)),
        blocks.flatten = qualifiedName.splitOn '.' ∧
          List.Forall₂ (fun seg block => Takes seg block ∧ Filled seg block)
            (pattern.splitOn '.') blocks) := by
  have hplain : ∀ seg ∈ pattern.splitOn '.', '.' ∉ seg :=
    fun _ => notMem_of_mem_splitOn
  obtain ⟨regex, hcompile, hlanguage⟩ := (denotes_joined hplain).compile
  refine ⟨regex.fullmatch qualifiedName, ?_, ?_⟩
  · rw [fullmatchPointcut, patternToRegex, hcompile, Option.map_some]
  · rw [fullmatch_iff, hlanguage]
    exact mem_joinedLanguage_iff_blocks (splitOn_ne_nil _ _)

/-- A pointcut matches a name without empty segments when the segments can be
cut into blocks for those of the pattern. -/
theorem fullmatchPointcut_iff {qualifiedName : List Char}
    (hfilled : ∀ part ∈ qualifiedName.splitOn '.', part ≠ [])
    (pattern : List Char) :
    ∃ found, fullmatchPointcut pattern qualifiedName = some found ∧
      (found = true ↔ Cuts pattern qualifiedName) := by
  obtain ⟨found, hfound, hiff⟩ :=
    fullmatchPointcut_iff_blocks pattern qualifiedName
  refine ⟨found, hfound, hiff.trans ?_⟩
  constructor
  · intro h
    obtain ⟨blocks, hflatten, hblocks⟩ := h
    exact ⟨blocks, hflatten, hblocks.imp fun _ _ htakes => htakes.1⟩
  · intro h
    obtain ⟨blocks, hflatten, hblocks⟩ := h
    refine ⟨blocks, hflatten, ?_⟩
    rw [← hflatten] at hfilled
    clear hflatten hiff
    generalize pattern.splitOn '.' = segs at hblocks ⊢
    induction hblocks with
    | nil => exact .nil
    | cons htakes _ ih =>
      simp only [flatten_cons, mem_append] at hfilled
      exact .cons ⟨htakes, fun _ part hpart => hfilled part (Or.inl hpart)⟩
        (ih fun part hpart => hfilled part (Or.inr hpart))

/-- `**.*Service.*` on a method of a service. -/
theorem fullmatchPointcut_service : ∃ found, fullmatchPointcut "**.*Service.*".toList
        "a.b.OrderService.create".toList = some found ∧
      (found = true ↔ Cuts "**.*Service.*".toList "a.b.OrderService.create".toList) :=
  fullmatchPointcut_iff (by decide) _

end PyFly.Aop
