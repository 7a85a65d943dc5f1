import Mathlib.Data.List.Infix
import Mathlib.Data.List.TakeWhile
import Mathlib.Tactic.Common

/-!
# Substitution of patterns in a text

The regular expressions considered here are a fixed word and a head, a
nonempty body without a stop letter, the stop letter and a fixed end.  Their
leftmost matches do not overlap and are replaced from left to right.  Texts
which differ in marks only, words in which no letter can belong to the fixed
part of a match, are matched at the same places.
-/

namespace PyFly.Library

open List

variable {α : Type}

/-- What holds of all letters of a text is decided letter by letter, not over
all characters. -/
instance decidableForallLetter (p : Char → Prop) [DecidablePred p]
    (text : List Char) : Decidable (∀ c ∈ text, p c) :=
  List.decidableBAll p text

inductive Pattern (α : Type)
  | literal (word : List α)
  | enclosed (head : List α) (stop : α) (after : List α)

namespace Pattern

def head : Pattern α → List α
  | .literal word => word
  | .enclosed head _ _ => head

def closing : Pattern α → List α
  | .literal _ => []
  | .enclosed _ stop after => stop :: after

def Accepts : Pattern α → List α → Prop
  | .literal _, body => body = []
  | .enclosed _ stop _, body => body ≠ [] ∧ stop ∉ body

def occurrence (pattern : Pattern α) (body : List α) : List α :=
  pattern.head ++ (body ++ pattern.closing)

section Matching

variable [DecidableEq α]

def matchAt : Pattern α → List α → Option (List α × List α)
  | .literal word, text =>
    if word <+: text then some ([], text.drop word.length) else none
  | .enclosed head stop after, text =>
    if head <+: text then
      let inside := text.drop head.length
      let body := inside.takeWhile fun c => c ≠ stop
      let rest := inside.drop body.length
      if body ≠ [] ∧ stop :: after <+: rest then
        some (body, rest.drop (after.length + 1))
      else none
    else none

/-- The substitution in what is left of a text, after `skip` letters which
belong to the last match. -/
def subFrom (pattern : Pattern α) (f : List α → List α) : ℕ → List α → List α
  | _, [] => []
  | skip + 1, _ :: text => subFrom pattern f skip text
  | 0, c :: text =>
    match pattern.matchAt (c :: text) with
    | some (body, rest) =>
      f body ++ subFrom pattern f (text.length - rest.length) text
    | none => c :: subFrom pattern f 0 text

def sub (pattern : Pattern α) (f : List α → List α) (text : List α) : List α :=
  pattern.subFrom f 0 text

def findFrom (pattern : Pattern α) : ℕ → List α → List (List α)
  | _, [] => []
  | skip + 1, _ :: text => findFrom pattern skip text
  | 0, c :: text =>
    match pattern.matchAt (c :: text) with
    | some (body, rest) =>
      body :: findFrom pattern (text.length - rest.length) text
    | none => findFrom pattern 0 text

/-- `re.findall` -/
def findAll (pattern : Pattern α) (text : List α) : List (List α) :=
  pattern.findFrom 0 text

/-! ## Matches -/

variable {text : List α}

theorem head_prefix_of_matchAt {pattern : Pattern α}
    (h : pattern.matchAt text ≠ none) : pattern.head <+: text := by
  by_contra hhead
  refine h ?_
  cases pattern with
  | literal word => exact if_neg hhead
  | enclosed head stop after => exact if_neg hhead

theorem matchAt_eq_none {pattern : Pattern α} (h : ¬ pattern.head <+: text) :
    pattern.matchAt text = none :=
  Classical.byContradiction fun hmatch => h (head_prefix_of_matchAt hmatch)

theorem takeWhile_append_stop {stop : α} {body : List α} (hbody : stop ∉ body) (rest : List α) :
    (body ++ stop :: rest).takeWhile (fun c => c ≠ stop) = body := by
  induction body with
  | nil => simp
  | cons c body ih =>
    have hc : c ≠ stop := fun hc => hbody (hc ▸ mem_cons_self)
    rw [cons_append, takeWhile_cons_of_pos (by simpa using hc),
      ih fun hmem => hbody (mem_cons_of_mem c hmem)]

theorem matchAt_occurrence {pattern : Pattern α} {body : List α}
    (hbody : pattern.Accepts body) (rest : List α) :
    pattern.matchAt (pattern.occurrence body ++ rest) = some (body, rest) := by
  cases pattern with
  | literal word =>
    obtain rfl : body = [] := hbody
    have htext : (literal word).occurrence [] ++ rest = word ++ rest := by
      simp [occurrence, head, closing]
    rw [htext, matchAt, if_pos (prefix_append word rest)]
    simp
  | enclosed head stop after =>
    obtain ⟨hne, hstop⟩ : body ≠ [] ∧ stop ∉ body := hbody
    have htext : (enclosed head stop after).occurrence body ++ rest =
        head ++ (body ++ stop :: (after ++ rest)) := by
      simp [occurrence, Pattern.head, closing]
    have htail : stop :: after <+: stop :: (after ++ rest) :=
      prefix_append (stop :: after) rest
    rw [htext, matchAt, if_pos (prefix_append _ _), drop_left]
    dsimp only
    rw [takeWhile_append_stop hstop, drop_left, if_pos ⟨hne, htail⟩]
    simp

theorem eq_occurrence_of_matchAt {pattern : Pattern α}
    {body rest : List α} (h : pattern.matchAt text = some (body, rest)) :
    pattern.Accepts body ∧ text = pattern.occurrence body ++ rest := by
  have hhead : pattern.head <+: text :=
    head_prefix_of_matchAt (by rw [h]; exact Option.some_ne_none _)
  obtain ⟨inside, rfl⟩ := hhead
  cases pattern with
  | literal word =>
    rw [matchAt, head, if_pos (prefix_append _ _), drop_left]
      at h
    obtain ⟨rfl, rfl⟩ : [] = body ∧ inside = rest := by
      simpa using h
    exact ⟨rfl, by simp [occurrence, head, closing]⟩
  | enclosed head stop after =>
    rw [matchAt, Pattern.head, if_pos (prefix_append _ _), drop_left] at h
    dsimp only at h
    have htake : inside.takeWhile (fun c => c ≠ stop) <+: inside :=
      takeWhile_prefix _
    generalize hword : inside.takeWhile (fun c => c ≠ stop) = word at h htake
    have hstop : stop ∉ word := by
      intro hmem
      rw [← hword] at hmem
      simpa using mem_takeWhile_imp hmem
    obtain ⟨tail, rfl⟩ := htake
    rw [drop_left] at h
    split at h
    · next hend =>
        obtain ⟨hne, back, rfl⟩ := hend
        obtain ⟨rfl, rfl⟩ : word = body ∧ back = rest := by
          simpa using h
        exact ⟨⟨hne, hstop⟩, by simp [occurrence, Pattern.head, closing]⟩
    · cases h

section Substitution

variable (pattern : Pattern α) (f : List α → List α)

theorem subFrom_eq_drop (skip : ℕ) (text : List α) :
    pattern.subFrom f skip text = pattern.sub f (text.drop skip) := by
  induction text generalizing skip with
  | nil => cases skip <;> rfl
  | cons c text ih =>
    cases skip with
    | zero => rfl
    | succ skip => exact ih skip

theorem findFrom_eq_drop (skip : ℕ) (text : List α) :
    pattern.findFrom skip text = pattern.findAll (text.drop skip) := by
  induction text generalizing skip with
  | nil => cases skip <;> rfl
  | cons c text ih =>
    cases skip with
    | zero => rfl
    | succ skip => exact ih skip

@[simp] theorem sub_nil : pattern.sub f [] = [] := rfl

@[simp] theorem findAll_nil : pattern.findAll [] = [] := rfl

variable {pattern}

variable {c : α} {text : List α}

theorem sub_cons_skip (h : pattern.matchAt (c :: text) = none) :
    pattern.sub f (c :: text) = c :: pattern.sub f text := by
  show pattern.subFrom f 0 (c :: text) = _
  rw [subFrom, h]
  rfl

theorem findAll_cons_skip (h : pattern.matchAt (c :: text) = none) :
    pattern.findAll (c :: text) = pattern.findAll text := by
  show pattern.findFrom 0 (c :: text) = _
  rw [findFrom, h]
  rfl

variable {front : List α}

omit [DecidableEq α] in
theorem drop_occurrence {rest : List α} (h : front ++ rest = c :: text) (hfront : front ≠ []) :
    text.drop (text.length - rest.length) = rest := by
  obtain ⟨first, front, rfl⟩ := exists_cons_of_ne_nil hfront
  obtain ⟨rfl, rfl⟩ : first = c ∧ front ++ rest = text := by simpa using h
  simp

omit [DecidableEq α] in
theorem occurrence_ne_nil (hhead : pattern.head ≠ []) (body : List α) :
    pattern.occurrence body ≠ [] :=
  append_ne_nil_of_left_ne_nil hhead _

theorem sub_occurrence (hhead : pattern.head ≠ []) {body : List α}
    (hbody : pattern.Accepts body) (rest : List α) :
    pattern.sub f (pattern.occurrence body ++ rest) = f body ++ pattern.sub f rest := by
  have hne := occurrence_ne_nil hhead body
  have hmatch := matchAt_occurrence hbody rest
  obtain ⟨c, text, htext⟩ :=
    exists_cons_of_ne_nil (append_ne_nil_of_left_ne_nil hne rest)
  rw [htext] at hmatch ⊢
  show pattern.subFrom f 0 (c :: text) = _
  rw [subFrom, hmatch]
  show f body ++ pattern.subFrom f (text.length - rest.length) text = _
  rw [subFrom_eq_drop, drop_occurrence htext hne]

theorem findAll_occurrence (hhead : pattern.head ≠ []) {body : List α}
    (hbody : pattern.Accepts body) (rest : List α) :
    pattern.findAll (pattern.occurrence body ++ rest) = body :: pattern.findAll rest := by
  have hne := occurrence_ne_nil hhead body
  have hmatch := matchAt_occurrence hbody rest
  obtain ⟨c, text, htext⟩ :=
    exists_cons_of_ne_nil (append_ne_nil_of_left_ne_nil hne rest)
  rw [htext] at hmatch ⊢
  show pattern.findFrom 0 (c :: text) = _
  rw [findFrom, hmatch]
  show body :: pattern.findFrom (text.length - rest.length) text = _
  rw [findFrom_eq_drop, drop_occurrence htext hne]

def Inert (pattern : Pattern α) (word : List α) : Prop :=
  ∀ back, back ≠ [] → back <:+ word → ∀ text, ¬ pattern.head <+: back ++ text

variable {word : List α}

omit [DecidableEq α] in
theorem Inert.tail (h : pattern.Inert (c :: word)) : pattern.Inert word :=
  fun back hne hback => h back hne (hback.trans (suffix_cons c word))

theorem sub_inert (h : pattern.Inert word) (text : List α) :
    pattern.sub f (word ++ text) = word ++ pattern.sub f text := by
  induction word with
  | nil => rfl
  | cons c word ih =>
    have hnone : pattern.matchAt (c :: (word ++ text)) = none :=
      matchAt_eq_none (h (c :: word) (cons_ne_nil c word) (suffix_refl _) text)
    rw [cons_append, sub_cons_skip f hnone, ih h.tail, cons_append]

theorem findAll_inert (h : pattern.Inert word) (text : List α) :
    pattern.findAll (word ++ text) = pattern.findAll text := by
  induction word with
  | nil => rfl
  | cons c word ih =>
    have hnone : pattern.matchAt (c :: (word ++ text)) = none :=
      matchAt_eq_none (h (c :: word) (cons_ne_nil c word) (suffix_refl _) text)
    rw [cons_append, findAll_cons_skip hnone, ih h.tail]

variable {f} in
theorem subFrom_congr {g : List α → List α} {skip : ℕ}
    (h : ∀ body ∈ pattern.findFrom skip text, f body = g body) :
    pattern.subFrom f skip text = pattern.subFrom g skip text := by
  induction text generalizing skip with
  | nil => cases skip <;> rfl
  | cons c text ih =>
    cases skip with
    | succ skip => exact ih h
    | zero =>
      rw [findFrom] at h
      rw [subFrom, subFrom]
      cases hmatch : pattern.matchAt (c :: text) with
      | none =>
        rw [hmatch] at h
        dsimp only at h ⊢
        rw [ih h]
      | some found =>
        obtain ⟨body, rest⟩ := found
        rw [hmatch] at h
        dsimp only at h ⊢
        rw [h body mem_cons_self, ih fun other hother => h other (mem_cons_of_mem _ hother)]

omit [DecidableEq α] in
theorem inert_of_opening {opening : α} {others : List α}
    (hhead : pattern.head = opening :: others) (hword : opening ∉ word) :
    pattern.Inert word := by
  intro back hne hback text hstart
  obtain ⟨first, back, rfl⟩ := exists_cons_of_ne_nil hne
  rw [hhead, cons_append, cons_prefix_cons] at hstart
  refine hword (hstart.1 ▸ ?_)
  exact hback.subset mem_cons_self

omit [DecidableEq α] in
theorem suffix_append_cases {tail back : List α} (h : tail <:+ front ++ back) :
    tail <:+ back ∨ ∃ most, most <:+ front ∧ tail = most ++ back := by
  rcases suffix_or_suffix_of_suffix h (suffix_append front back) with hinside | ⟨most, rfl⟩
  · exact .inl hinside
  · obtain ⟨lead, hlead⟩ := h
    rw [← append_assoc] at hlead
    exact .inr ⟨most, ⟨lead, append_cancel_right hlead⟩, rfl⟩

omit [DecidableEq α] in
/-- No match starts in the first of two words if its ends disagree with the
head of the pattern. -/
theorem Inert.append {back : List α} (hfront : ∀ tail, tail ≠ [] → tail <:+ front →
      ¬ pattern.head <+: tail ∧ ¬ tail <+: pattern.head)
    (hback : pattern.Inert back) : pattern.Inert (front ++ back) := by
  intro tail hne htail text hstart
  rcases suffix_append_cases htail with hinside | ⟨most, hmost, rfl⟩
  · exact hback tail hne hinside text hstart
  · by_cases hempty : most = []
    · subst hempty
      exact hback back hne (suffix_refl back) text hstart
    · obtain ⟨hhead, hmostHead⟩ := hfront most hempty hmost
      rw [append_assoc] at hstart
      rcases prefix_or_prefix_of_prefix hstart (prefix_append most _) with h | h
      · exact hhead h
      · exact hmostHead h

omit [DecidableEq α] in
/-- A head with a letter which a word lacks does not start in the word, if the
letter behind the word is not one of those before it. -/
theorem inert_of_absent {stem others : List α} {inner closer : α}
    (hhead : pattern.head = stem ++ inner :: others) {rest : List α}
    (hword : inner ∉ word) (hcloser : closer ∉ stem) (hne : inner ≠ closer)
    (hrest : pattern.Inert (closer :: rest)) :
    pattern.Inert (word ++ closer :: rest) := by
  intro tail hnonempty htail text hstart
  rcases suffix_append_cases htail with hinside | ⟨most, hmost, rfl⟩
  · exact hrest tail hnonempty hinside text hstart
  · have hmost : inner ∉ most := fun hmem => hword (hmost.subset hmem)
    obtain ⟨more, hmore⟩ := hstart
    rw [hhead, append_assoc, append_assoc] at hmore
    rcases append_eq_append_iff.mp hmore with
      ⟨gap, hgap, heq⟩ | ⟨gap, hgap, heq⟩
    · cases gap with
      | nil => exact hne (List.cons.inj heq).1
      | cons c gap =>
        obtain rfl : inner = c := (List.cons.inj heq).1
        exact hmost (hgap ▸ by simp)
    · cases gap with
      | nil => exact hne (List.cons.inj heq).1.symm
      | cons c gap =>
        obtain rfl : closer = c := (List.cons.inj heq).1
        exact hcloser (hgap ▸ by simp)

end Substitution

end Matching

/-! ## Marks -/

inductive Interchanged (Mark : List α → Prop) : List α → List α → Prop
  | nil : Interchanged Mark [] []
  | letter (c : α) {text text' : List α} (h : Interchanged Mark text text') :
      Interchanged Mark (c :: text) (c :: text')
  | mark {word word' text text' : List α} (hword : Mark word)
      (hword' : Mark word') (h : Interchanged Mark text text') :
      Interchanged Mark (word ++ text) (word' ++ text')

structure Foreign (pattern : Pattern α) (Mark : List α → Prop) : Prop where
  starts : ∀ word, Mark word → ∃ first rest, word = first :: rest ∧
    first ∉ pattern.head ∧ first ∉ pattern.closing
  opening : ∀ word, Mark word → ∀ first ∈ pattern.head.head?, first ∉ word
  stop : ∀ word, Mark word → ∀ first ∈ pattern.closing.head?, first ∉ word

theorem Foreign.inert {pattern : Pattern α} {Mark : List α → Prop}
    (hforeign : pattern.Foreign Mark) (hhead : pattern.head ≠ [])
    {mark : List α} (hmark : Mark mark) :
    pattern.Inert mark := by
  obtain ⟨opening, others, hopening⟩ := exists_cons_of_ne_nil hhead
  exact inert_of_opening hopening (hforeign.opening mark hmark opening (by rw [hopening]; rfl))

namespace Interchanged

variable {Mark : List α → Prop}

theorem refl (text : List α) : Interchanged Mark text text := by
  induction text with
  | nil => exact .nil
  | cons c text ih => exact .letter c ih

variable {text text' : List α}

theorem symm (h : Interchanged Mark text text') : Interchanged Mark text' text := by
  induction h with
  | nil => exact .nil
  | letter c h ih => exact .letter c ih
  | mark hword hword' h ih => exact .mark hword' hword ih

theorem append {front front' back back' : List α} (hfront : Interchanged Mark front front')
    (hback : Interchanged Mark back back') :
    Interchanged Mark (front ++ back) (front' ++ back') := by
  induction hfront with
  | nil => exact hback
  | letter c h ih => exact .letter c ih
  | mark hword hword' h ih =>
    rw [append_assoc, append_assoc]
    exact .mark hword hword' ih

theorem reverse (h : Interchanged Mark text text') :
    Interchanged (fun word => Mark word.reverse) text.reverse text'.reverse := by
  induction h with
  | nil => exact .nil
  | letter c h ih =>
    rw [reverse_cons, reverse_cons]
    exact ih.append (.letter c .nil)
  | @mark word word' text text' hword hword' h ih =>
    rw [reverse_append, reverse_append]
    have hlast : Interchanged (fun word => Mark word.reverse)
        (word.reverse ++ []) (word'.reverse ++ []) :=
      .mark (by rwa [reverse_reverse]) (by rwa [reverse_reverse])
        .nil
    rw [append_nil, append_nil] at hlast
    exact ih.append hlast

theorem dropWhile {p : α → Bool}
    (hmarks : ∀ word, Mark word → ∃ first rest, word = first :: rest ∧
      p first = false) (h : Interchanged Mark text text') :
    Interchanged Mark (text.dropWhile p) (text'.dropWhile p) := by
  induction h with
  | nil => exact .nil
  | letter c h ih =>
    by_cases hc : p c
    · rw [dropWhile_cons_of_pos hc, dropWhile_cons_of_pos hc]
      exact ih
    · rw [dropWhile_cons_of_neg hc, dropWhile_cons_of_neg hc]
      exact .letter c h
  | mark hword hword' h _ =>
    obtain ⟨first, rest, rfl, hfirst⟩ := hmarks _ hword
    obtain ⟨first', rest', rfl, hfirst'⟩ := hmarks _ hword'
    rw [cons_append, cons_append, dropWhile_cons_of_neg (by simp [hfirst]),
      dropWhile_cons_of_neg (by simp [hfirst'])]
    exact .mark hword hword' h

theorem fixed {word : List α}
    (hstarts : ∀ mark, Mark mark → ∃ first rest, mark = first :: rest ∧
      first ∉ word) (h : Interchanged Mark (word ++ text) text') :
    ∃ rest, text' = word ++ rest ∧ Interchanged Mark text rest := by
  induction word generalizing text' with
  | nil => exact ⟨text', rfl, h⟩
  | cons c word ih =>
    have hothers : ∀ mark, Mark mark → ∃ first rest, mark = first :: rest ∧ first ∉ word := by
      intro mark hmark
      obtain ⟨first, rest, hfirst, habsent⟩ := hstarts mark hmark
      exact ⟨first, rest, hfirst, fun hmem => habsent (mem_cons_of_mem c hmem)⟩
    generalize hfull : c :: word ++ text = full at h
    cases h with
    | nil => cases hfull
    | letter d h =>
      obtain ⟨rfl, rfl⟩ : c = d ∧ word ++ text = _ := by
        simpa using hfull
      obtain ⟨rest, rfl, hrest⟩ := ih hothers h
      exact ⟨rest, rfl, hrest⟩
    | mark hmark hmark' h =>
      obtain ⟨first, rest, rfl, habsent⟩ := hstarts _ hmark
      obtain ⟨rfl, _⟩ : c = first ∧ word ++ text = _ := by
        simpa using hfull
      exact absurd mem_cons_self habsent

theorem body {stop : α} (hmarks : ∀ mark, Mark mark → mark ≠ [] ∧ stop ∉ mark)
    {word : List α} (hword : stop ∉ word)
    (h : Interchanged Mark (word ++ stop :: text) text') :
    ∃ word' rest, text' = word' ++ stop :: rest ∧ stop ∉ word' ∧
      (word' = [] → word = []) ∧ Interchanged Mark text rest := by
  generalize hfull : word ++ stop :: text = full at h
  induction h generalizing word with
  | nil => simp at hfull
  | @letter c front back h ih =>
    cases word with
    | nil =>
      obtain ⟨rfl, rfl⟩ : stop = c ∧ text = front := by simpa using hfull
      exact ⟨[], back, rfl, not_mem_nil, fun _ => rfl, h⟩
    | cons d word =>
      obtain ⟨rfl, hfront⟩ : d = c ∧ word ++ stop :: text = front := by
        simpa using hfull
      rw [mem_cons, not_or] at hword
      obtain ⟨word', rest, rfl, hstop, _, hrest⟩ := ih hword.2 hfront
      refine ⟨d :: word', rest, rfl, ?_, nofun, hrest⟩
      simpa using ⟨hword.1, hstop⟩
  | @mark mark mark' front back hmark hmark' h ih =>
    obtain ⟨more, rfl, hfront⟩ :
        ∃ more, word = mark ++ more ∧ more ++ stop :: text = front := by
      rcases append_eq_append_iff.mp hfull with
        ⟨more, hmore, htext⟩ | ⟨more, hmore, htext⟩
      · cases more with
        | nil => exact ⟨[], by simpa using hmore.symm, by simpa using htext⟩
        | cons d more =>
          obtain ⟨rfl, _⟩ : stop = d ∧ text = more ++ front := by
            simpa using htext
          exact absurd (hmore ▸ by simp) (hmarks mark hmark).2
      · exact ⟨more, hmore, htext.symm⟩
    have hmore : stop ∉ more := fun hmem => hword (by simp [hmem])
    obtain ⟨word', rest, rfl, hstop, hempty, hrest⟩ := ih hmore hfront
    refine ⟨mark' ++ word', rest, by simp, ?_, ?_, hrest⟩
    · simpa using ⟨(hmarks mark' hmark').2, hstop⟩
    · intro hnil
      exact absurd (append_eq_nil_iff.mp hnil).1 (hmarks mark' hmark').1

theorem occurrence {pattern : Pattern α} (hforeign : pattern.Foreign Mark)
    {body : List α} (hbody : pattern.Accepts body)
    (h : Interchanged Mark (pattern.occurrence body ++ text) text') :
    ∃ body' rest, pattern.Accepts body' ∧ text' = pattern.occurrence body' ++ rest ∧
      Interchanged Mark text rest := by
  have hhead : ∀ mark, Mark mark → ∃ first rest, mark = first :: rest ∧
      first ∉ pattern.head := by
    intro mark hmark
    obtain ⟨first, rest, hfirst, habsent, _⟩ := hforeign.starts mark hmark
    exact ⟨first, rest, hfirst, habsent⟩
  have hclosing : ∀ mark, Mark mark → ∃ first rest, mark = first :: rest ∧
      first ∉ pattern.closing := by
    intro mark hmark
    obtain ⟨first, rest, hfirst, _, habsent⟩ := hforeign.starts mark hmark
    exact ⟨first, rest, hfirst, habsent⟩
  rw [Pattern.occurrence, append_assoc] at h
  obtain ⟨inside, rfl, hinside⟩ := h.fixed hhead
  cases pattern with
  | literal word =>
    obtain rfl : body = [] := hbody
    exact ⟨[], inside, rfl, by simp [Pattern.occurrence, closing],
      by simpa [closing] using hinside⟩
  | enclosed head stop after =>
    obtain ⟨hne, hstop⟩ : body ≠ [] ∧ stop ∉ body := hbody
    have hmarks : ∀ mark, Mark mark → mark ≠ [] ∧ stop ∉ mark := by
      intro mark hmark
      refine ⟨?_, hforeign.stop mark hmark stop rfl⟩
      obtain ⟨first, rest, rfl, _⟩ := hclosing mark hmark
      exact cons_ne_nil first rest
    have hafter : ∀ mark, Mark mark → ∃ first rest, mark = first :: rest ∧ first ∉ after := by
      intro mark hmark
      obtain ⟨first, rest, hfirst, habsent⟩ := hclosing mark hmark
      exact ⟨first, rest, hfirst, fun hmem => habsent (mem_cons_of_mem stop hmem)⟩
    rw [closing, append_assoc, cons_append] at hinside
    obtain ⟨body', back, rfl, hstop', hempty, hback⟩ :=
      hinside.body hmarks hstop
    obtain ⟨rest, rfl, hrest⟩ := hback.fixed hafter
    exact ⟨body', rest, ⟨fun hnil => hne (hempty hnil), hstop'⟩,
      by simp [Pattern.occurrence, closing], hrest⟩

variable [DecidableEq α] {pattern : Pattern α}

theorem matchAt_eq_none (hforeign : pattern.Foreign Mark)
    (h : Interchanged Mark text text') (hnone : pattern.matchAt text = none) :
    pattern.matchAt text' = none := by
  by_contra hmatch
  obtain ⟨⟨body, rest⟩, hsome⟩ := Option.ne_none_iff_exists'.mp hmatch
  obtain ⟨hbody, rfl⟩ := eq_occurrence_of_matchAt hsome
  obtain ⟨body', rest', hbody', rfl, _⟩ := h.symm.occurrence hforeign hbody
  rw [matchAt_occurrence hbody'] at hnone
  cases hnone

theorem sub (hhead : pattern.head ≠ []) (hforeign : pattern.Foreign Mark)
    {f g : List α → List α} (hf : ∀ body, Mark (f body))
    (hg : ∀ body, Mark (g body)) (h : Interchanged Mark text text') :
    Interchanged Mark (pattern.sub f text) (pattern.sub g text') := by
  induction hlength : text.length using Nat.strong_induction_on generalizing text text' with
  | _ length ih =>
    cases hmatch : pattern.matchAt text with
    | some found =>
      obtain ⟨body, rest⟩ := found
      obtain ⟨hbody, rfl⟩ := eq_occurrence_of_matchAt hmatch
      obtain ⟨body', rest', hbody', rfl, hrest⟩ :=
        h.occurrence hforeign hbody
      have hshorter : rest.length < length := by
        have hpositive :=
          length_pos_iff.mpr (occurrence_ne_nil hhead body)
        rw [length_append] at hlength
        omega
      rw [sub_occurrence f hhead hbody, sub_occurrence g hhead hbody']
      exact .mark (hf body) (hg body') (ih rest.length hshorter hrest rfl)
    | none =>
      have hmatch' := h.matchAt_eq_none hforeign hmatch
      cases h with
      | nil => exact .nil
      | @letter c front back h =>
        rw [sub_cons_skip f hmatch, sub_cons_skip g hmatch']
        exact .letter c (ih front.length (by simp [← hlength]) h rfl)
      | @mark mark mark' front back hmark hmark' h =>
        have hpositive : 0 < mark.length := by
          obtain ⟨first, rest, rfl, _⟩ := hforeign.starts mark hmark
          exact Nat.succ_pos _
        rw [sub_inert f (hforeign.inert hhead hmark), sub_inert g (hforeign.inert hhead hmark')]
        rw [length_append] at hlength
        exact .mark hmark hmark' (ih front.length (by omega) h rfl)

end Interchanged

end Pattern

end PyFly.Library
