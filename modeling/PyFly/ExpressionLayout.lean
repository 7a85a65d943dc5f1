import PyFly.ExpressionGrammar
import Mathlib.Data.List.Chain

/-!
# Texts of security expressions

A text is a sequence of blanks and words.  After the substitutions the texts
which are evaluated are exactly the formulas over `True` and `False`, with
blanks between adjacent words.
-/

namespace PyFly.Security

open List

section Items

variable {Atom : Type}

inductive Item (Atom : Type)
  | blank (c : Char)
  | word (token : Token Atom)

def Token.text (spell : Atom → List Char) : Token Atom → List Char
  | .open => "(".toList
  | .close => ")".toList
  | .and => "and".toList
  | .or => "or".toList
  | .not => "not".toList
  | .atom value => spell value

def Token.Solid : Token Atom → Prop
  | .open | .close => False
  | _ => True

def Item.text (spell : Atom → List Char) : Item Atom → List Char
  | .blank c => [c]
  | .word token => token.text spell

def Item.Solid : Item Atom → Prop
  | .blank _ => False
  | .word token => token.Solid

def Item.token? : Item Atom → Option (Token Atom)
  | .blank _ => none
  | .word token => some token

def textOf (spell : Atom → List Char) (items : List (Item Atom)) : List Char :=
  items.flatMap (Item.text spell)

def tokensOf (items : List (Item Atom)) : List (Token Atom) :=
  items.filterMap Item.token?

@[simp] theorem textOf_nil (spell : Atom → List Char) :
    textOf spell ([] : List (Item Atom)) = [] := rfl

@[simp] theorem textOf_cons (spell : Atom → List Char) (item : Item Atom)
    (items : List (Item Atom)) :
    textOf spell (item :: items) = item.text spell ++ textOf spell items := rfl

@[simp] theorem tokensOf_nil : tokensOf ([] : List (Item Atom)) = [] := rfl

@[simp] theorem tokensOf_blank (c : Char) (items : List (Item Atom)) :
    tokensOf (.blank c :: items) = tokensOf items := rfl

@[simp] theorem tokensOf_word (token : Token Atom)
    (items : List (Item Atom)) :
    tokensOf (.word token :: items) = token :: tokensOf items := rfl

structure Spaced (items : List (Item Atom)) : Prop where
  blanks : ∀ c, .blank c ∈ items → isSpace c
  separated : items.IsChain fun item next => ¬ (item.Solid ∧ next.Solid)

theorem Spaced.nil : Spaced ([] : List (Item Atom)) :=
  ⟨nofun, isChain_nil⟩

theorem spaced_cons {item : Item Atom} {items : List (Item Atom)} :
    Spaced (item :: items) ↔ (∀ c, item = .blank c → isSpace c) ∧
      (∀ next ∈ items.head?, ¬ (item.Solid ∧ next.Solid)) ∧ Spaced items := by
  constructor
  · rintro ⟨hblanks, hseparated⟩
    rw [isChain_cons] at hseparated
    refine ⟨fun c hc => hblanks c (hc ▸ mem_cons_self), hseparated.1,
      fun c hc => hblanks c (mem_cons_of_mem _ hc), hseparated.2⟩
  · rintro ⟨hitem, hnext, hblanks, hseparated⟩
    refine ⟨fun c hc => ?_, isChain_cons.mpr ⟨hnext, hseparated⟩⟩
    rcases mem_cons.mp hc with hc | hc
    · exact hitem c hc.symm
    · exact hblanks c hc

structure Written (formula : Formula Atom .disjunction)
    (items : List (Item Atom)) : Prop where
  tokens : tokensOf items = formula.tokens
  spaced : Spaced items

end Items

/-! ## Words of a text -/

@[simp] theorem wordsOf_nil : wordsOf [] = [] := rfl

variable {c : Char}

theorem wordsOf_append_space (front : List Char) (hc : isSpace c) (text : List Char) :
    wordsOf (front ++ c :: text) = wordsOf front ++ wordsOf text := by
  rw [wordsOf, splitOnP_append_cons front text hc, filter_append]
  rfl

theorem wordsOf_space (hc : isSpace c) (text : List Char) :
    wordsOf (c :: text) = wordsOf text :=
  wordsOf_append_space [] hc text

variable {word : List Char}

theorem wordsOf_single (hne : word ≠ []) (hword : ∀ c ∈ word, isSpace c = false) :
    wordsOf word = [word] := by
  rw [wordsOf, splitOnP_eq_singleton hword, filter_cons_of_pos]
  · rfl
  · simpa using hne

def StartsBlank (text : List Char) : Prop :=
  ∀ c ∈ text.head?, isSpace c

theorem wordsOf_word {text : List Char} (hne : word ≠ [])
    (hword : ∀ c ∈ word, isSpace c = false) (htext : StartsBlank text) :
    wordsOf (word ++ text) = word :: wordsOf text := by
  cases text with
  | nil => rw [append_nil, wordsOf_single hne hword]; rfl
  | cons c text =>
    have hc : isSpace c := htext c rfl
    rw [wordsOf_append_space word hc, wordsOf_single hne hword, wordsOf_space hc]
    rfl

theorem wordsOf_spaces_append {spaces : List Char}
    (hspaces : ∀ c ∈ spaces, isSpace c) (text : List Char) :
    wordsOf (spaces ++ text) = wordsOf text := by
  induction spaces with
  | nil => rfl
  | cons c spaces ih =>
    rw [cons_append, wordsOf_space (hspaces c mem_cons_self),
      ih fun d hd => hspaces d (mem_cons_of_mem c hd)]

theorem wordsOf_append_spaces (text : List Char) {spaces : List Char}
    (hspaces : ∀ c ∈ spaces, isSpace c) :
    wordsOf (text ++ spaces) = wordsOf text := by
  cases spaces with
  | nil => rw [append_nil]
  | cons c spaces =>
    have hothers := wordsOf_spaces_append
      (fun d hd => hspaces d (mem_cons_of_mem c hd)) []
    rw [append_nil] at hothers
    rw [wordsOf_append_space text (hspaces c mem_cons_self), hothers, wordsOf_nil, append_nil]

theorem strip_spec (text : List Char) : ∃ front back, text = front ++ (strip text ++ back) ∧
      (∀ c ∈ front, isSpace c) ∧ ∀ c ∈ back, isSpace c := by
  refine ⟨text.takeWhile isSpace,
    ((text.dropWhile isSpace).reverse.takeWhile isSpace).reverse, ?_,
    fun c hc => mem_takeWhile_imp hc,
    fun c hc => mem_takeWhile_imp (mem_reverse.mp hc)⟩
  rw [strip, ← reverse_append, takeWhile_append_dropWhile,
    reverse_reverse, takeWhile_append_dropWhile]

theorem wordsOf_strip (text : List Char) : wordsOf (strip text) = wordsOf text := by
  obtain ⟨front, back, htext, hfront, hback⟩ := strip_spec text
  calc wordsOf (strip text)
      = wordsOf (strip text ++ back) := (wordsOf_append_spaces _ hback).symm
    _ = wordsOf (front ++ (strip text ++ back)) :=
        (wordsOf_spaces_append hfront _).symm
    _ = wordsOf text := by rw [← htext]

/-! ## Words of items -/

def isLetter (c : Char) : Bool :=
  !isSpace c && c ≠ '(' && c ≠ ')'

theorem pad_append (front back : List Char) : pad (front ++ back) = pad front ++ pad back :=
  flatMap_append

theorem pad_word (h : ∀ c ∈ word, isLetter c) : pad word = word := by
  induction word with
  | nil => rfl
  | cons c word ih =>
    have hc := h c mem_cons_self
    simp only [isLetter, Bool.and_eq_true, decide_eq_true_eq] at hc
    show (if c = '(' ∨ c = ')' then [' ', c, ' '] else [c]) ++ pad word = _
    rw [if_neg (by simp [hc]), ih fun d hd => h d (mem_cons_of_mem c hd)]
    rfl

theorem pad_space (hc : isSpace c) (text : List Char) : pad (c :: text) = c :: pad text := by
  show (if c = '(' ∨ c = ')' then [' ', c, ' '] else [c]) ++ pad text = _
  rw [if_neg]
  · rfl
  · rintro (rfl | rfl) <;> exact absurd hc (by decide)

theorem pad_paren (hc : c = '(' ∨ c = ')') (text : List Char) :
    pad (c :: text) = ' ' :: c :: ' ' :: pad text := by
  show (if c = '(' ∨ c = ')' then [' ', c, ' '] else [c]) ++ pad text = _
  rw [if_pos hc]
  rfl

theorem wordsOf_pad_paren (hc : c = '(' ∨ c = ')') (text : List Char) :
    wordsOf (pad (c :: text)) = [c] :: wordsOf (pad text) := by
  have hword : ∀ d ∈ [c], isSpace d = false := by
    rcases hc with rfl | rfl <;> decide
  have hblank : StartsBlank (' ' :: pad text) := by
    rintro _ ⟨⟩
    decide
  rw [pad_paren hc, wordsOf_space (by decide)]
  show wordsOf ([c] ++ ' ' :: pad text) = _
  rw [wordsOf_word (cons_ne_nil c []) hword hblank, wordsOf_space (by decide)]

variable {token : Token Bool}

theorem Token.isLetter_text (h : token.Solid) :
    token.text str ≠ [] ∧ ∀ c ∈ token.text str, isLetter c := by
  cases token with
  | «open» => exact h.elim
  | close => exact h.elim
  | and => exact ⟨by decide, by decide⟩
  | or => exact ⟨by decide, by decide⟩
  | not => exact ⟨by decide, by decide⟩
  | atom value => cases value <;> exact ⟨by decide, by decide⟩

theorem isSpace_of_isLetter (h : isLetter c) : isSpace c = false := by
  simp only [isLetter, Bool.and_eq_true, Bool.not_eq_true'] at h
  exact h.1.1

variable {items : List (Item Bool)}

theorem startsBlank_pad (hspaced : Spaced items) (hhead : ∀ item ∈ items.head?, ¬ item.Solid) :
    StartsBlank (pad (textOf str items)) := by
  cases items with
  | nil => exact nofun
  | cons item items =>
    cases item with
    | blank c =>
      have hc := (spaced_cons.mp hspaced).1 c rfl
      show StartsBlank (pad (c :: textOf str items))
      rw [pad_space hc]
      rintro _ ⟨⟩
      exact hc
    | word token =>
      have hparen : ∀ c : Char, c = '(' ∨ c = ')' →
          StartsBlank (pad (c :: textOf str items)) := by
        intro c hc
        rw [pad_paren hc]
        rintro _ ⟨⟩
        decide
      cases token with
      | «open» => exact hparen '(' (.inl rfl)
      | close => exact hparen ')' (.inr rfl)
      | and => exact absurd trivial (hhead _ rfl)
      | or => exact absurd trivial (hhead _ rfl)
      | not => exact absurd trivial (hhead _ rfl)
      | atom value => exact absurd trivial (hhead _ rfl)

theorem wordsOf_solid (htoken : token.Solid) {text : List Char}
    (htext : StartsBlank (pad text)) :
    wordsOf (pad (token.text str ++ text)) = token.text str :: wordsOf (pad text) := by
  obtain ⟨hne, hletters⟩ := Token.isLetter_text htoken
  rw [pad_append, pad_word hletters, wordsOf_word hne
    (fun c hc => isSpace_of_isLetter (hletters c hc)) htext]

theorem wordsOf_pad_textOf (h : Spaced items) :
    wordsOf (pad (textOf str items)) = (tokensOf items).map (Token.text str) := by
  induction items with
  | nil => rfl
  | cons item items ih =>
    obtain ⟨hitem, hnext, hitems⟩ := spaced_cons.mp h
    specialize ih hitems
    cases item with
    | blank c =>
      show wordsOf (pad (c :: textOf str items)) = _
      rw [pad_space (hitem c rfl), wordsOf_space (hitem c rfl), ih]
      rfl
    | word token =>
      have hsolid (htoken : token.Solid) : wordsOf (pad (token.text str ++ textOf str items)) =
            token.text str :: (tokensOf items).map (Token.text str) := by
        rw [wordsOf_solid htoken (startsBlank_pad hitems
          fun next hmem hsolid => hnext next hmem ⟨htoken, hsolid⟩), ih]
      have hparen {c : Char} (hc : c = '(' ∨ c = ')') : wordsOf (pad (c :: textOf str items)) =
            [c] :: (tokensOf items).map (Token.text str) := by
        rw [wordsOf_pad_paren hc, ih]
      cases token with
      | «open» => exact hparen (.inl rfl)
      | close => exact hparen (.inr rfl)
      | and => exact hsolid trivial
      | or => exact hsolid trivial
      | not => exact hsolid trivial
      | atom value => exact hsolid trivial

/-! ## Items of a text -/

@[simp] theorem readToken_text (token : Token Bool) :
    readToken (token.text str) = some token := by
  cases token with
  | «open» => rfl
  | close => rfl
  | and => rfl
  | or => rfl
  | not => rfl
  | atom value => cases value <;> rfl

theorem text_of_readToken (h : readToken word = some token) : token.text str = word := by
  unfold readToken at h
  split_ifs at h with h₁ h₂ h₃ h₄ h₅ h₆ h₇ <;> cases h
  · exact h₁.symm
  · exact h₂.symm
  · exact h₃.symm
  · exact h₄.symm
  · exact h₅.symm
  · exact h₆.symm
  · exact h₇.symm

theorem mapM_readToken (tokens : List (Token Bool)) :
    (tokens.map (Token.text str)).mapM readToken = some tokens := by
  induction tokens with
  | nil => rfl
  | cons token tokens ih => simp [ih]

theorem not_solid_of_head (h : ∀ c ∈ (textOf str items).head?, isLetter c = false) :
    ∀ item ∈ items.head?, ¬ item.Solid := by
  rintro item hitem hsolid
  cases items with
  | nil => cases hitem
  | cons first items =>
    obtain rfl : first = item := by simpa using hitem
    cases first with
    | blank c => exact hsolid
    | word token =>
      obtain ⟨hne, hletters⟩ := Token.isLetter_text hsolid
      obtain ⟨c, word, hword⟩ := exists_cons_of_ne_nil hne
      have hhead : (textOf str (.word token :: items)).head? = some c := by
        show (token.text str ++ textOf str items).head? = some c
        rw [hword]
        rfl
      have hc := hletters c (by rw [hword]; exact mem_cons_self)
      rw [h c hhead] at hc
      cases hc

theorem exists_word (hc : isLetter c) (text : List Char) :
    ∃ word rest, c :: text = word ++ rest ∧ word ≠ [] ∧
      (∀ d ∈ word, isLetter d) ∧ ∀ d ∈ rest.head?, isLetter d = false := by
  refine ⟨(c :: text).takeWhile isLetter, (c :: text).dropWhile isLetter,
    takeWhile_append_dropWhile.symm, ?_,
    fun d hd => mem_takeWhile_imp hd, ?_⟩
  · rw [takeWhile_cons_of_pos hc]
    exact cons_ne_nil _ _
  · intro d hd
    have hfirst := List.head?_dropWhile_not isLetter (c :: text)
    rw [Option.mem_def.mp hd] at hfirst
    simpa using hfirst

theorem startsBlank_pad_of_head {text : List Char}
    (h : ∀ c ∈ text.head?, isLetter c = false) : StartsBlank (pad text) := by
  cases text with
  | nil => exact nofun
  | cons c text =>
    have hc : isLetter c = false := h c rfl
    by_cases hspace : isSpace c
    · rw [pad_space hspace]
      rintro _ ⟨⟩
      exact hspace
    · have hparen : c = '(' ∨ c = ')' := by
        by_contra hnot
        rw [not_or] at hnot
        simp [isLetter, hspace, hnot] at hc
      rw [pad_paren hparen]
      rintro _ ⟨⟩
      decide

theorem exists_items {text : List Char}
    (h : ∀ word ∈ wordsOf (pad text), (readToken word).isSome) :
    ∃ items : List (Item Bool), text = textOf str items ∧ Spaced items := by
  induction hlength : text.length using Nat.strong_induction_on generalizing text with
  | _ length ih =>
    cases text with
    | nil => exact ⟨[], rfl, .nil⟩
    | cons c text =>
      by_cases hspace : isSpace c
      · rw [pad_space hspace, wordsOf_space hspace] at h
        obtain ⟨items, rfl, hitems⟩ :=
          ih text.length (by simp [← hlength]) h rfl
        refine ⟨.blank c :: items, rfl, spaced_cons.mpr ⟨?_, ?_, hitems⟩⟩
        · rintro _ ⟨⟩
          exact hspace
        · exact fun _ _ hsolid => hsolid.1
      by_cases hparen : c = '(' ∨ c = ')'
      · rw [wordsOf_pad_paren hparen] at h
        obtain ⟨items, rfl, hitems⟩ := ih text.length (by simp [← hlength])
          (fun word hword => h word (mem_cons_of_mem _ hword)) rfl
        rcases hparen with rfl | rfl
        · exact ⟨.word .open :: items, rfl, spaced_cons.mpr
            ⟨nofun, fun _ _ hsolid => hsolid.1, hitems⟩⟩
        · exact ⟨.word .close :: items, rfl, spaced_cons.mpr
            ⟨nofun, fun _ _ hsolid => hsolid.1, hitems⟩⟩
      · have hc : isLetter c := by
          rw [not_or] at hparen
          simp [isLetter, hspace, hparen]
        obtain ⟨word, rest, htext, hne, hword, hrest⟩ :=
          exists_word hc text
        have hblank := startsBlank_pad_of_head hrest
        rw [htext, pad_append, pad_word hword, wordsOf_word hne
          (fun d hd => isSpace_of_isLetter (hword d hd)) hblank] at h
        obtain ⟨token, htoken⟩ :=
          Option.isSome_iff_exists.mp (h word mem_cons_self)
        have hshorter : rest.length < length := by
          have hpositive := length_pos_iff.mpr hne
          rw [← hlength, htext, length_append]
          omega
        obtain ⟨items, rfl, hitems⟩ := ih rest.length hshorter
          (fun word hword => h word (mem_cons_of_mem _ hword)) rfl
        have hspell := text_of_readToken htoken
        refine ⟨.word token :: items, ?_, spaced_cons.mpr
          ⟨nofun, fun next hnext hsolid => ?_, hitems⟩⟩
        · rw [htext, ← hspell]
          rfl
        · exact not_solid_of_head hrest next hnext hsolid.2

/-! ## Evaluation of items -/

def TokenizerAccepts (text : List Char) : Prop :=
  blanksAllowed 0 (strip (pad text))

theorem wordsOf_cleaned {formula : Formula Bool .disjunction} (h : Written formula items) :
    wordsOf (pad (textOf str items)) = formula.tokens.map (Token.text str) := by
  rw [wordsOf_pad_textOf h.spaced, h.tokens]

theorem evaluateExpression_of_written {expr : List Char} {ctx : SecurityContext}
    {formula : Formula Bool .disjunction} (h : Written formula items)
    (hreduce : reduce (holds ctx) expr = textOf str items)
    (hblanks : TokenizerAccepts (textOf str items)) :
    evaluateExpression expr ctx = .ok (formula.meaning id) := by
  have hwords := wordsOf_cleaned h
  have hsafe : (wordsOf (pad (textOf str items))).all
      (fun word => (readToken word).isSome) = true := by
    rw [hwords, all_eq_true]
    intro word hword
    obtain ⟨token, _, rfl⟩ := mem_map.mp hword
    rw [readToken_text]
    rfl
  obtain ⟨node, hparse, hnode, heval⟩ := parseLevel_tokens formula
  have hast : astParse (strip (pad (textOf str items))) = some node := by
    rw [TokenizerAccepts] at hblanks
    rw [astParse, if_pos hblanks, wordsOf_strip, hwords, mapM_readToken]
    dsimp only
    rw [hparse]
  rw [evaluateExpression, hreduce, if_pos hsafe, safeBoolEval, hast]
  dsimp only
  rw [if_pos hnode, heval]

theorem written_of_evaluateExpression {expr : List Char}
    {ctx : SecurityContext} {outcome : Bool}
    (h : evaluateExpression expr ctx = .ok outcome) :
    ∃ (formula : Formula Bool .disjunction) (items : List (Item Bool)),
      Written formula items ∧ reduce (holds ctx) expr = textOf str items ∧
        TokenizerAccepts (textOf str items) := by
  rw [evaluateExpression] at h
  split at h
  · next hsafe =>
      rw [all_eq_true] at hsafe
      obtain ⟨items, hitems, hspaced⟩ := exists_items hsafe
      rw [hitems, safeBoolEval] at h
      split at h
      · cases h
      · next node hast =>
          split at h
          · next hnode =>
              rw [astParse] at hast
              split at hast
              · next hblanks =>
                  rw [wordsOf_strip, wordsOf_pad_textOf hspaced, mapM_readToken] at hast
                  dsimp only at hast
                  split at hast
                  · next found hparse =>
                      obtain rfl := Option.some.inj hast
                      obtain ⟨formula, hformula⟩ :=
                        (formula_of_parse _).1 _ _ _ _ hparse hnode
                      rw [append_nil] at hformula
                      exact ⟨formula, items, ⟨hformula, hspaced⟩, hitems, hblanks⟩
                  · cases hast
              · cases hast
          · cases h
  · cases h

end PyFly.Security
