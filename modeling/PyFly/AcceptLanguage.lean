import Mathlib.Algebra.Order.Field.Rat
import Mathlib.Data.List.MinMax
import Mathlib.Tactic.Ring
import PyFly.AuthorizationServer
import PyFly.Library.TrimmedText

/-!
# The Accept-Language header

`_parse_accept_language` takes the first range with the greatest weight.  It
looks for the text `;q=`, while the grammar of the header allows blanks behind
the semicolon; such a weight is not seen and counts as one.
-/

namespace PyFly.I18n

open Library Security List

/-! ## The resolver -/

/-- `float` and `str.lower` where they are not described below. -/
structure Builtins where
  float : List Char → Option (WithTop ℚ)
  lower : List Char → List Char

def digitsValue (digits : List Char) : ℕ :=
  digits.foldl (fun value d => value * 10 + (d.toNat - '0'.toNat)) 0

def plainDecimal (text : List Char) : Option ℚ :=
  match text.splitOn '.' with
  | [whole] =>
    if whole ≠ [] ∧ whole.length ≤ 15 ∧ whole.all Char.isDigit then
      some (digitsValue whole)
    else none
  | [whole, decimals] =>
    if whole ++ decimals ≠ [] ∧ (whole ++ decimals).length ≤ 15 ∧
        (whole ++ decimals).all Char.isDigit then
      some (digitsValue (whole ++ decimals) / 10 ^ decimals.length)
    else none
  | _ => none

variable (builtins : Builtins)

/-- `float`, without a value where it raises.  Values below zero and `nan`,
which are never greater than another weight, count as no value too. -/
def float (text : List Char) : Option (WithTop ℚ) :=
  match plainDecimal text with
  | some value => some value
  | none => builtins.float text

def lower (text : List Char) : List Char :=
  if text.all (·.toNat < 128) then text.map Char.toLower
  else builtins.lower text

def strip (text : List Char) : List Char :=
  trim isSpace text

def readPart (part : List Char) : Option (List Char × WithTop ℚ) :=
  match partition [';', 'q', '='] part with
  | some (tag, qStr) =>
    (float builtins (strip qStr)).map fun quality => (tag, quality)
  | none =>
    match partition [';', 'Q', '='] part with
    | some (tag, qStr) =>
      (float builtins (strip qStr)).map fun quality => (tag, quality)
    | none => some (part, 1)

/-- One turn of the loop; the state is `best_locale` and `best_quality`. -/
def considerPart (best : List Char × WithTop ℚ) (part : List Char) : List Char × WithTop ℚ :=
  let part := strip part
  if part = [] then best
  else
    match readPart builtins part with
    | none => best
    | some (tag, quality) =>
      if best.2 < quality then
        (lower builtins (((strip tag).splitOn '-').headD []), quality)
      else best

def parseAcceptLanguage (header default : List Char) : List Char :=
  ((header.splitOn ',').foldl (considerPart builtins) (default, 0)).1

/-! ## The grammar -/

/-- `OWS` -/
def Blanks (text : List Char) : Prop :=
  ∀ c ∈ text, c = ' ' ∨ c = '\t'

structure LanguageRange where
  primary : List Char
  subtags : List (List Char)
  primary_length : primary.length ∈ Set.Icc 1 8
  primary_letters : ∀ c ∈ primary, c.isAlpha
  subtags_length : ∀ subtag ∈ subtags, subtag.length ∈ Set.Icc 1 8
  subtags_alphanum : ∀ subtag ∈ subtags, ∀ c ∈ subtag, c.isAlphanum

def LanguageRange.text (range : LanguageRange) : List Char :=
  range.primary ++ range.subtags.flatMap fun subtag => '-' :: subtag

/-- A `qvalue`: zero with up to three decimals, or one with up to three
zeros. -/
structure QValue where
  one : Bool
  decimals : Option (List Char)
  decimals_length : ∀ digits ∈ decimals, digits.length ≤ 3
  decimals_digits : ∀ digits ∈ decimals, ∀ d ∈ digits, d.isDigit ∧ (one = true → d = '0')

namespace QValue

variable (qvalue : QValue)

def unit : Char :=
  if qvalue.one then '1' else '0'

def text : List Char :=
  qvalue.unit :: qvalue.decimals.elim [] fun digits => '.' :: digits

def value : ℚ :=
  (if qvalue.one then 1 else 0) +
    qvalue.decimals.elim (0 : ℚ) fun digits =>
      digitsValue digits / 10 ^ digits.length

end QValue

/-- A `weight`; the letter may be a capital one. -/
structure Weight where
  before : List Char
  after : List Char
  capital : Bool
  qvalue : QValue
  before_blanks : Blanks before
  after_blanks : Blanks after

def Weight.letter (weight : Weight) : Char :=
  if weight.capital then 'Q' else 'q'

def Weight.text (weight : Weight) : List Char :=
  weight.before ++ ';' :: (weight.after ++ weight.letter :: '=' :: weight.qvalue.text)

structure WeightedRange where
  range : LanguageRange
  weight : Option Weight

namespace WeightedRange

variable (item : WeightedRange)

def text : List Char :=
  item.range.text ++ item.weight.elim [] Weight.text

def quality : ℚ :=
  item.weight.elim 1 fun weight => weight.qvalue.value

def detached : Bool :=
  item.weight.any fun weight => weight.after ≠ []

def counted : ℚ :=
  if item.detached then 1 else item.quality

end WeightedRange

structure ListElement where
  before : List Char
  item : Option WeightedRange
  after : List Char
  before_blanks : Blanks before
  after_blanks : Blanks after

def ListElement.text (element : ListElement) : List Char :=
  element.before ++ element.item.elim [] WeightedRange.text ++ element.after

/-- A header value which conforms to the grammar. -/
abbrev AcceptLanguage := List ListElement

namespace AcceptLanguage

variable (header : AcceptLanguage)

def text : List Char :=
  [','].intercalate (header.map ListElement.text)

def ranges : List WeightedRange :=
  header.filterMap ListElement.item

end AcceptLanguage

def firstGreatest (quality : WeightedRange → ℚ) (ranges : List WeightedRange) :
    Option WeightedRange :=
  (ranges.filter fun item => 0 < quality item).argmax quality

def WeightedRange.tag (item : WeightedRange) : List Char :=
  if item.detached then item.text else item.range.text

def WeightedRange.written (item : WeightedRange) : List Char :=
  (item.tag.takeWhile (· ≠ '-')).map Char.toLower

def primaryTag (item : WeightedRange) : List Char :=
  item.range.primary.map Char.toLower

def AcceptLanguage.preferred (header : AcceptLanguage) (default : List Char) : List Char :=
  (firstGreatest WeightedRange.quality header.ranges).elim default primaryTag

/-! ## Letters -/

variable {c : Char}

theorem forall_ascii {P : Char → Prop} (h : ∀ n < 128, P (Char.ofNat n))
    (hc : c.toNat < 128) : P c := by
  have hP := h c.toNat hc
  rwa [Char.ofNat_toNat] at hP

theorem toNat_of_isAlphanum (h : c.isAlphanum) : c.toNat < 128 := by
  delta Char.isAlphanum Char.isAlpha Char.isUpper Char.isLower Char.isDigit at h
  simp only [Bool.or_eq_true, Bool.and_eq_true, decide_eq_true_eq,
    UInt32.le_iff_toNat_le, ge_iff_le] at h
  change (((65 ≤ c.toNat ∧ c.toNat ≤ 90) ∨ (97 ≤ c.toNat ∧ c.toNat ≤ 122)) ∨
    (48 ≤ c.toNat ∧ c.toNat ≤ 57)) at h
  omega

def TagChar (c : Char) : Prop :=
  c.isAlphanum = true ∨ c = '-'

theorem TagChar.ascii (h : TagChar c) : c.toNat < 128 := by
  rcases h with h | rfl
  · exact toNat_of_isAlphanum h
  · decide

theorem TagChar.plain (h : TagChar c) : isSpace c = false ∧ c ≠ ',' ∧ c ≠ ';' := by
  refine forall_ascii (P := fun c => TagChar c →
    isSpace c = false ∧ c ≠ ',' ∧ c ≠ ';') ?_ h.ascii h
  unfold TagChar
  decide +kernel

theorem digit_ascii (h : c.isDigit = true) : c.toNat < 128 :=
  toNat_of_isAlphanum (by simp [Char.isAlphanum, h])

theorem digit_plain (h : c.isDigit = true) :
    isSpace c = false ∧ c ≠ ',' ∧ c ≠ ';' ∧ c ≠ '.' ∧ c ≠ '-' := by
  have hascii := digit_ascii h
  refine forall_ascii (P := fun c => c.isDigit = true →
    isSpace c = false ∧ c ≠ ',' ∧ c ≠ ';' ∧ c ≠ '.' ∧ c ≠ '-') ?_ hascii h
  decide +kernel

theorem letter_plain (h : c.isAlpha = true) : TagChar c ∧ c ≠ '-' ∧ c.toLower ≠ ';' := by
  have hascii : c.toNat < 128 :=
    toNat_of_isAlphanum (by simp [Char.isAlphanum, h])
  refine forall_ascii (P := fun c => c.isAlpha = true →
    TagChar c ∧ c ≠ '-' ∧ c.toLower ≠ ';') ?_ hascii h
  unfold TagChar
  decide +kernel

theorem Blanks.plain {text : List Char} (h : Blanks text) (hc : c ∈ text) :
    isSpace c = true ∧ c.toNat < 128 ∧ c ≠ ',' ∧ c ≠ ';' ∧ c ≠ '-' := by
  rcases h c hc with rfl | rfl
  · decide
  · decide

/-! ## Weights as decimals -/

theorem digitsValue_cons (d : Char) (digits : List Char) : digitsValue (d :: digits) =
      (d.toNat - '0'.toNat) * 10 ^ digits.length + digitsValue digits := by
  have hfold (value : ℕ) :
      digits.foldl (fun value d => value * 10 + (d.toNat - '0'.toNat)) value =
        value * 10 ^ digits.length + digitsValue digits := by
    unfold digitsValue
    induction digits generalizing value with
    | nil => simp
    | cons d digits ih =>
      rw [foldl_cons, foldl_cons, ih (value * 10 + _), ih (0 * 10 + _), length_cons]
      ring
  rw [digitsValue, foldl_cons, hfold, Nat.zero_mul, Nat.zero_add]

namespace QValue

variable (qvalue : QValue)

theorem isDigit_unit : qvalue.unit.isDigit = true := by
  unfold unit
  split
  · decide
  · decide

theorem value_unit : ((qvalue.unit.toNat - '0'.toNat : ℕ) : ℚ) =
      if qvalue.one then 1 else 0 := by
  unfold unit
  split
  · exact Nat.cast_one
  · exact Nat.cast_zero

theorem unit_ne_point : '.' ∉ [qvalue.unit] := by
  intro h
  exact (digit_plain qvalue.isDigit_unit).2.2.2.1 (mem_singleton.mp h).symm

theorem plainDecimal_text : plainDecimal qvalue.text = some qvalue.value := by
  have hunit := qvalue.isDigit_unit
  unfold plainDecimal text value
  cases hdecimals : qvalue.decimals with
  | none =>
    have hvalue : (digitsValue [qvalue.unit] : ℚ) = if qvalue.one then 1 else 0 := by
      rw [digitsValue_cons, length_nil, pow_zero, Nat.mul_one]
      exact qvalue.value_unit
    simp only [Option.elim_none, splitOn_eq_singleton qvalue.unit_ne_point]
    rw [if_pos (by simpa using hunit), hvalue, add_zero]
  | some digits =>
    have hdigits := qvalue.decimals_digits digits hdecimals
    have hlength := qvalue.decimals_length digits hdecimals
    have hpoint : '.' ∉ digits := fun h =>
      (digit_plain (hdigits _ h).1).2.2.2.1 rfl
    have hsplit : (qvalue.unit :: '.' :: digits).splitOn '.' = [[qvalue.unit], digits] := by
      have happend :=
        splitOn_append_cons_self (a := '.') [qvalue.unit] digits
      rwa [splitOn_eq_singleton qvalue.unit_ne_point, splitOn_eq_singleton hpoint] at happend
    have hall : ∀ d ∈ [qvalue.unit] ++ digits, d.isDigit = true := by
      intro d hd
      rcases mem_cons.mp hd with rfl | hd
      · exact hunit
      · exact (hdigits d hd).1
    simp only [Option.elim_some, hsplit]
    rw [if_pos ⟨by simp, by simp; omega, all_eq_true.mpr hall⟩]
    have hpow : (10 : ℚ) ^ digits.length ≠ 0 := pow_ne_zero _ (by norm_num)
    rw [singleton_append, digitsValue_cons, Nat.cast_add, Nat.cast_mul,
      qvalue.value_unit, add_div, Nat.cast_pow, Nat.cast_ofNat,
      mul_div_cancel_right₀ _ hpow]

theorem chars_text {c : Char} (hc : c ∈ qvalue.text) : c.isDigit = true ∨ c = '.' := by
  rcases mem_cons.mp hc with rfl | hc
  · exact Or.inl qvalue.isDigit_unit
  · cases hdecimals : qvalue.decimals with
    | none => simp [hdecimals] at hc
    | some digits =>
      rw [hdecimals, Option.elim_some] at hc
      rcases mem_cons.mp hc with rfl | hc
      · exact Or.inr rfl
      · exact Or.inl (qvalue.decimals_digits digits hdecimals c hc).1

theorem plain_text {c : Char} (hc : c ∈ qvalue.text) :
    isSpace c = false ∧ c.toNat < 128 ∧ c ≠ ',' ∧ c ≠ ';' ∧ c ≠ '-' := by
  rcases qvalue.chars_text hc with h | rfl
  · obtain ⟨hspace, hcomma, hsemicolon, -, hhyphen⟩ := digit_plain h
    exact ⟨hspace, digit_ascii h, hcomma, hsemicolon, hhyphen⟩
  · decide

theorem float_text : float builtins (strip qvalue.text) = some (qvalue.value : WithTop ℚ) := by
  have hstrip : strip qvalue.text = qvalue.text :=
    trim_of_trimmed (trimmed_of_forall fun c hc => (qvalue.plain_text hc).1)
  rw [hstrip, float, qvalue.plainDecimal_text]

end QValue

/-! ## The elements of the list -/

theorem readPart_plain {part : List Char} (h : ';' ∉ part) :
    readPart builtins part = some (part, 1) := by
  rw [readPart, partition_of_notMem h, partition_of_notMem h]

variable {front back : List Char}

/-- Behind the semicolon stands neither `q=` nor a further semicolon. -/
theorem readPart_loose (hfront : ';' ∉ front) (hback : ';' ∉ back)
    (hlower : ¬ ['q', '='] <+: back) (hcapital : ¬ ['Q', '='] <+: back) :
    readPart builtins (front ++ ';' :: back) = some (front ++ ';' :: back, 1) := by
  rw [readPart, partition_append hfront, partition_eq_none hback hlower,
    Option.map_none, partition_append hfront, partition_eq_none hback hcapital,
    Option.map_none]

theorem readPart_lower (hfront : ';' ∉ front) :
    readPart builtins (front ++ [';', 'q', '='] ++ back) =
      (float builtins (strip back)).map fun quality => (front, quality) := by
  rw [readPart, append_assoc, partition_append hfront,
    partition_self_append, Option.map_some, append_nil]

theorem readPart_capital (hfront : ';' ∉ front) (hback : ';' ∉ back) :
    readPart builtins (front ++ [';', 'Q', '='] ++ back) =
      (float builtins (strip back)).map fun quality => (front, quality) := by
  have hlower : partition [';', 'q', '='] ([';', 'Q', '='] ++ back) = none := by
    apply partition_eq_none
    · simpa using hback
    · simp
  rw [readPart, append_assoc, partition_append hfront, hlower,
    Option.map_none, partition_append hfront, partition_self_append,
    Option.map_some, append_nil]

theorem LanguageRange.tagChar_text (range : LanguageRange) (hc : c ∈ range.text) :
    TagChar c := by
  rcases mem_append.mp hc with hc | hc
  · exact (letter_plain (range.primary_letters c hc)).1
  · obtain ⟨subtag, hsubtag, hc⟩ := mem_flatMap.mp hc
    rcases mem_cons.mp hc with rfl | hc
    · exact Or.inr rfl
    · exact Or.inl (range.subtags_alphanum subtag hsubtag c hc)

theorem LanguageRange.text_ne_nil (range : LanguageRange) : range.text ≠ [] := by
  have hlength := range.primary_length.1
  intro h
  have hprimary := (append_eq_nil_iff.mp h).1
  rw [hprimary] at hlength
  exact absurd hlength (by decide)

theorem LanguageRange.takeWhile_text (range : LanguageRange)
    (h : back = [] ∨ range.subtags ≠ []) :
    (range.text ++ back).takeWhile (· ≠ '-') = range.primary := by
  have hprimary : ∀ c ∈ range.primary, decide (c ≠ '-') = true := fun c hc =>
    decide_eq_true (letter_plain (range.primary_letters c hc)).2.1
  rw [LanguageRange.text, append_assoc, takeWhile_append_of_pos hprimary]
  cases hsubtags : range.subtags with
  | nil => simp [h.resolve_right (not_not.mpr hsubtags)]
  | cons subtag subtags => simp

namespace Weight

variable (weight : Weight)

theorem chars_text {c : Char} (hc : c ∈ weight.text) : c.toNat < 128 ∧ c ≠ ',' ∧ c ≠ '-' := by
  have hblanks {text : List Char} (h : Blanks text) (hc : c ∈ text) :
      c.toNat < 128 ∧ c ≠ ',' ∧ c ≠ '-' :=
    ⟨(h.plain hc).2.1, (h.plain hc).2.2.1, (h.plain hc).2.2.2.2⟩
  rcases mem_append.mp hc with hc | hc
  · exact hblanks weight.before_blanks hc
  rcases mem_cons.mp hc with rfl | hc
  · decide
  rcases mem_append.mp hc with hc | hc
  · exact hblanks weight.after_blanks hc
  rcases mem_cons.mp hc with rfl | hc
  · unfold letter
    split
    · decide
    · decide
  rcases mem_cons.mp hc with rfl | hc
  · decide
  · obtain ⟨-, hascii, hcomma, -, hhyphen⟩ := weight.qvalue.plain_text hc
    exact ⟨hascii, hcomma, hhyphen⟩

theorem semicolon_notMem_qvalue : ';' ∉ weight.qvalue.text := fun h =>
  (weight.qvalue.plain_text h).2.2.2.1 rfl

theorem readPart_attached {front : List Char} (hfront : ';' ∉ front) : readPart builtins
        (front ++ ';' :: ([] ++ weight.letter :: '=' :: weight.qvalue.text)) =
      some (front, (weight.qvalue.value : WithTop ℚ)) := by
  have hfloat := weight.qvalue.float_text builtins
  unfold letter
  cases weight.capital with
  | false =>
    have h : readPart builtins (front ++ [';', 'q', '='] ++ weight.qvalue.text) = _ :=
      readPart_lower builtins hfront
    rw [hfloat, append_assoc] at h
    exact h
  | true =>
    have h := readPart_capital builtins hfront weight.semicolon_notMem_qvalue
    rw [hfloat, append_assoc] at h
    exact h

theorem readPart_detached {front : List Char} (hfront : ';' ∉ front)
    (hafter : weight.after ≠ []) :
    readPart builtins (front ++
        ';' :: (weight.after ++ weight.letter :: '=' :: weight.qvalue.text)) =
      some (front ++ ';' ::
        (weight.after ++ weight.letter :: '=' :: weight.qvalue.text), 1) := by
  obtain ⟨blank, blanks, hblank⟩ := exists_cons_of_ne_nil hafter
  have hfirst := weight.after_blanks blank (hblank ▸ mem_cons_self)
  have hother (letter : Char) (hletter : letter ≠ ' ' ∧ letter ≠ '\t') :
      ¬ [letter, '='] <+: weight.after ++ weight.letter :: '=' :: weight.qvalue.text := by
    intro h
    rw [hblank] at h
    have hsame := (cons_prefix_cons.mp h).1
    rcases hfirst with hfirst | hfirst
    · exact hletter.1 (hsame.trans hfirst)
    · exact hletter.2 (hsame.trans hfirst)
  refine readPart_loose builtins hfront ?_ (hother 'q' (by decide))
    (hother 'Q' (by decide))
  intro h
  rcases mem_append.mp h with h | h
  · exact (weight.after_blanks.plain h).2.2.2.1 rfl
  rcases mem_cons.mp h with h | h
  · unfold letter at h
    split at h
    · exact absurd h (by decide)
    · exact absurd h (by decide)
  · exact weight.semicolon_notMem_qvalue (mem_of_ne_of_mem (by decide) h)

end Weight

namespace WeightedRange

variable (item : WeightedRange)

theorem chars_text {c : Char} (hc : c ∈ item.text) : c.toNat < 128 ∧ c ≠ ',' := by
  rcases mem_append.mp hc with hc | hc
  · have htag := item.range.tagChar_text hc
    exact ⟨htag.ascii, htag.plain.2.1⟩
  · cases hweight : item.weight with
    | none => simp [hweight] at hc
    | some weight =>
      rw [hweight, Option.elim_some] at hc
      have hplain := weight.chars_text hc
      exact ⟨hplain.1, hplain.2.1⟩

theorem text_ne_nil : item.text ≠ [] :=
  append_ne_nil_of_left_ne_nil item.range.text_ne_nil _

theorem trimmed_text : Trimmed isSpace item.text := by
  have hrange : ∀ c ∈ item.range.text, isSpace c = false := fun c hc =>
    (item.range.tagChar_text hc).plain.1
  unfold WeightedRange.text
  cases item.weight with
  | none =>
    rw [Option.elim_none, append_nil]
    exact trimmed_of_forall hrange
  | some weight =>
    have hqvalue : ∀ c ∈ weight.qvalue.text, isSpace c = false := fun c hc =>
      (weight.qvalue.plain_text hc).1
    have hne : weight.qvalue.text ≠ [] := cons_ne_nil _ _
    have happend : Trimmed isSpace (item.range.text ++
        (weight.before ++ ';' :: (weight.after ++ [weight.letter, '='])) ++
          weight.qvalue.text) :=
      trimmed_append item.range.text_ne_nil hne hrange hqvalue
    simpa [Weight.text] using happend

theorem semicolon_notMem_range : ';' ∉ item.range.text := fun h =>
  (item.range.tagChar_text h).plain.2.2 rfl

theorem trimmed_range : Trimmed isSpace item.range.text :=
  trimmed_of_forall fun _ hc => (item.range.tagChar_text hc).plain.1

theorem readPart_text : ∃ tag,
      readPart builtins item.text = some (tag, (item.counted : WithTop ℚ)) ∧
        strip tag = item.tag := by
  cases hweight : item.weight with
  | none =>
    have htext : item.text = item.range.text := by
      rw [WeightedRange.text, hweight, Option.elim_none, append_nil]
    have hdetached : item.detached = false := by
      rw [detached, hweight, Option.any_none]
    have hcounted : item.counted = 1 := by
      rw [counted, hdetached, quality, hweight]
      rfl
    refine ⟨item.range.text, ?_, ?_⟩
    · rw [htext, hcounted]
      exact readPart_plain builtins item.semicolon_notMem_range
    · rw [WeightedRange.tag, hdetached]
      exact trim_of_trimmed item.trimmed_range
  | some weight =>
    have htext : item.text = (item.range.text ++ weight.before) ++ ';' ::
          (weight.after ++ weight.letter :: '=' :: weight.qvalue.text) := by
      rw [WeightedRange.text, hweight, Option.elim_some, Weight.text, append_assoc]
    have hfront : ';' ∉ item.range.text ++ weight.before := by
      intro h
      rcases mem_append.mp h with h | h
      · exact item.semicolon_notMem_range h
      · exact (weight.before_blanks.plain h).2.2.2.1 rfl
    have hdetached : item.detached = decide (weight.after ≠ []) := by
      rw [detached, hweight, Option.any_some]
    by_cases hafter : weight.after = []
    · have hattached : item.detached = false := by
        rw [hdetached, hafter]
        rfl
      have hcounted : item.counted = weight.qvalue.value := by
        rw [counted, hattached, quality, hweight]
        rfl
      have hbefore : trim isSpace ([] ++ item.range.text ++ weight.before) = item.range.text :=
        trim_append (by simp) (fun _ hc => (weight.before_blanks.plain hc).1)
          item.trimmed_range
      refine ⟨item.range.text ++ weight.before, ?_, ?_⟩
      · rw [htext, hafter, hcounted]
        exact weight.readPart_attached builtins hfront
      · rw [WeightedRange.tag, hattached]
        exact hbefore
    · have hloose : item.detached = true := by
        rw [hdetached]
        exact decide_eq_true hafter
      have hcounted : item.counted = 1 := if_pos hloose
      refine ⟨item.text, ?_, ?_⟩
      · rw [htext, hcounted]
        exact weight.readPart_detached builtins hfront hafter
      · rw [WeightedRange.tag, hloose]
        exact trim_of_trimmed item.trimmed_text

theorem lower_tag : lower builtins (item.tag.takeWhile (· ≠ '-')) = item.written := by
  refine if_pos (all_eq_true.mpr fun c hc => decide_eq_true ?_)
  have hc := ( takeWhile_prefix _).subset hc
  unfold WeightedRange.tag at hc
  split at hc
  · exact (item.chars_text hc).1
  · exact (item.range.tagChar_text hc).ascii

theorem written_eq_primaryTag (h : item.detached = false ∨ item.range.subtags ≠ []) :
    item.written = primaryTag item := by
  have htag : item.tag.takeWhile (· ≠ '-') = item.range.primary := by
    unfold WeightedRange.tag
    cases hdetached : item.detached with
    | true =>
      have hsubtags := h.resolve_left (by simp [hdetached])
      exact item.range.takeWhile_text (Or.inr hsubtags)
    | false =>
      have hplain := item.range.takeWhile_text (Or.inl rfl)
      rwa [append_nil] at hplain
  rw [written, htag, primaryTag]

end WeightedRange

/-! ## The loop -/

theorem headD_splitOn (c : Char) (text : List Char) :
    (text.splitOn c).headD [] = text.takeWhile (· ≠ c) := by
  induction text with
  | nil => simp
  | cons d text ih =>
    rw [splitOn_cons_eq_if_modifyHead]
    by_cases hd : d = c
    · simp [hd]
    · rw [if_neg (by simpa using hd),
        takeWhile_cons_of_pos (by simpa using hd), ← ih]
      cases hsegments : text.splitOn c with
      | nil => exact absurd hsegments (splitOn_ne_nil _ _)
      | cons first segments => rfl

theorem ListElement.strip_text (element : ListElement) :
    strip element.text = element.item.elim [] WeightedRange.text := by
  refine trim_append (fun c hc => (element.before_blanks.plain hc).1)
    (fun c hc => (element.after_blanks.plain hc).1) ?_
  cases element.item with
  | none => exact trimmed_of_forall (by simp)
  | some item => exact item.trimmed_text

theorem considerPart_text (best : List Char × WithTop ℚ) (element : ListElement) :
    considerPart builtins best element.text = element.item.elim best fun item =>
        if best.2 < (item.counted : WithTop ℚ) then
          (item.written, ↑item.counted)
        else best := by
  unfold considerPart
  rw [element.strip_text]
  cases element.item with
  | none => exact if_pos rfl
  | some item =>
    obtain ⟨tag, hread, htag⟩ := item.readPart_text builtins
    simp only [Option.elim_some, if_neg item.text_ne_nil, hread, htag,
      headD_splitOn, item.lower_tag]

def stateBehind (ranges : List WeightedRange) (default : List Char) : List Char × WithTop ℚ :=
  (firstGreatest WeightedRange.counted ranges).elim (default, 0) fun item =>
    (item.written, (item.counted : WithTop ℚ))

theorem pos_of_firstGreatest {quality : WeightedRange → ℚ}
    {ranges : List WeightedRange} {item : WeightedRange}
    (h : firstGreatest quality ranges = some item) : 0 < quality item := by
  have hmem := argmax_mem (Option.mem_def.mpr h)
  simpa using (mem_filter.mp hmem).2

theorem firstGreatest_eq_none {quality : WeightedRange → ℚ} {ranges : List WeightedRange} :
    firstGreatest quality ranges = none ↔ ∀ item ∈ ranges, ¬ 0 < quality item := by
  rw [firstGreatest, argmax_eq_none, filter_eq_nil_iff]
  simp

theorem stateBehind_concat (ranges : List WeightedRange) (default : List Char)
    (item : WeightedRange) :
    stateBehind (ranges ++ [item]) default =
      if (stateBehind ranges default).2 < (item.counted : WithTop ℚ) then
        (item.written, ↑item.counted)
      else stateBehind ranges default := by
  by_cases hpos : 0 < item.counted
  · have hfilter : (ranges ++ [item]).filter (fun item => 0 < item.counted) =
        ranges.filter (fun item => 0 < item.counted) ++ [item] := by
      simp [hpos]
    unfold stateBehind firstGreatest
    rw [hfilter, argmax_concat]
    cases (ranges.filter fun item => 0 < item.counted).argmax WeightedRange.counted with
    | none => exact (if_pos (WithTop.coe_lt_coe.mpr hpos)).symm
    | some best =>
      simp only [Option.elim_some, WithTop.coe_lt_coe]
      split
      · rfl
      · rfl
  · have hsame : firstGreatest WeightedRange.counted (ranges ++ [item]) =
        firstGreatest WeightedRange.counted ranges := by
      simp [firstGreatest, hpos]
    have hstate : stateBehind (ranges ++ [item]) default = stateBehind ranges default := by
      rw [stateBehind, hsame, stateBehind]
    rw [hstate, if_neg]
    unfold stateBehind
    cases hbest : firstGreatest WeightedRange.counted ranges with
    | none => exact fun h => hpos (WithTop.coe_lt_coe.mp h)
    | some best =>
      intro h
      have hless := WithTop.coe_lt_coe.mp h
      exact hpos ((pos_of_firstGreatest hbest).trans hless)

theorem foldl_considerPart (header : AcceptLanguage) (default : List Char) :
    (header.map ListElement.text).foldl (considerPart builtins) (default, 0) =
      stateBehind header.ranges default := by
  induction header using List.reverseRecOn with
  | nil => rfl
  | append_singleton header element ih =>
    rw [map_append, foldl_append, ih, map_singleton, foldl_cons, foldl_nil, considerPart_text]
    unfold AcceptLanguage.ranges
    rw [filterMap_append]
    cases hitem : element.item with
    | none => simp [hitem]
    | some item =>
      rw [filterMap_cons_some hitem, filterMap_nil, stateBehind_concat]
      rfl

theorem splitOn_text {header : AcceptLanguage} (h : header ≠ []) :
    header.text.splitOn ',' = header.map ListElement.text := by
  refine splitOn_intercalate ',' ?_ (by simpa using h)
  intro text htext hcomma
  obtain ⟨element, -, rfl⟩ := mem_map.mp htext
  rcases mem_append.mp hcomma with hcomma | hcomma
  · rcases mem_append.mp hcomma with hcomma | hcomma
    · exact (element.before_blanks.plain hcomma).2.2.1 rfl
    · cases hitem : element.item with
      | none => simp [hitem] at hcomma
      | some item =>
        rw [hitem, Option.elim_some] at hcomma
        exact (item.chars_text hcomma).2 rfl
  · exact (element.after_blanks.plain hcomma).2.2.1 rfl

theorem parseAcceptLanguage_text (header : AcceptLanguage) (default : List Char) :
    parseAcceptLanguage builtins header.text default =
      (firstGreatest WeightedRange.counted header.ranges).elim default
        WeightedRange.written := by
  have hstate : parseAcceptLanguage builtins header.text default =
      (stateBehind header.ranges default).1 := by
    cases header with
    | nil => rfl
    | cons element header =>
      rw [parseAcceptLanguage, splitOn_text (cons_ne_nil _ _), foldl_considerPart]
  rw [hstate, stateBehind]
  cases firstGreatest WeightedRange.counted header.ranges with
  | none => rfl
  | some item => rfl

/-! ## Weights which are not seen -/

/-- Where the range which the loop prefers, with each weight behind blanks
counted as one, is as good as the preferred one. -/
def AcceptLanguage.Unharmed (header : AcceptLanguage) (default : List Char) :
    Prop :=
  match firstGreatest WeightedRange.counted header.ranges,
      firstGreatest WeightedRange.quality header.ranges with
  | none, _ => True
  | some item, none => default = item.written
  | some item, some best =>
    primaryTag item = primaryTag best ∧ (item.detached = false ∨ item.range.subtags ≠ [])

theorem counted_pos {item : WeightedRange} (h : 0 < item.quality) : 0 < item.counted := by
  unfold WeightedRange.counted
  split
  · exact one_pos
  · exact h

theorem semicolon_mem_written {item : WeightedRange} (h : item.detached = true)
    (hsubtags : item.range.subtags = []) : ';' ∈ item.written := by
  have htext : item.text = item.range.primary ++ item.weight.elim [] Weight.text := by
    simp [WeightedRange.text, LanguageRange.text, hsubtags]
  cases hweight : item.weight with
  | none => simp [WeightedRange.detached, hweight] at h
  | some weight =>
    rw [hweight, Option.elim_some] at htext
    have hhyphen : ∀ c ∈ item.text, decide (c ≠ '-') = true := by
      intro c hc
      rw [htext] at hc
      rcases mem_append.mp hc with hc | hc
      · have hletter := letter_plain (item.range.primary_letters c hc)
        exact decide_eq_true hletter.2.1
      · exact decide_eq_true (weight.chars_text hc).2.2
    have hwritten : item.written = item.text.map Char.toLower := by
      rw [WeightedRange.written, WeightedRange.tag, h, if_pos rfl,
        takeWhile_eq_self_iff.mpr hhyphen]
    have hmem : ';' ∈ item.text := by
      rw [htext, Weight.text]
      simp
    rw [hwritten]
    exact mem_map.mpr ⟨';', hmem, rfl⟩

theorem semicolon_notMem_primaryTag (item : WeightedRange) : ';' ∉ primaryTag item := by
  intro h
  obtain ⟨c, hc, hlower⟩ := mem_map.mp h
  exact (letter_plain (item.range.primary_letters c hc)).2.2 hlower

/-- The code takes the preferred range exactly where no weight behind blanks
misleads it. -/
theorem parseAcceptLanguage_eq_preferred_iff (header : AcceptLanguage) (default : List Char) :
    parseAcceptLanguage builtins header.text default = header.preferred default ↔
      header.Unharmed default := by
  rw [parseAcceptLanguage_text, AcceptLanguage.preferred, AcceptLanguage.Unharmed]
  cases hitem : firstGreatest WeightedRange.counted header.ranges with
  | none =>
    have hnone : firstGreatest WeightedRange.quality header.ranges = none :=
      firstGreatest_eq_none.mpr fun item hmem hpos =>
        firstGreatest_eq_none.mp hitem item hmem (counted_pos hpos)
    rw [hnone]
    exact ⟨fun _ => trivial, fun _ => rfl⟩
  | some item =>
    cases hbest : firstGreatest WeightedRange.quality header.ranges with
    | none => exact eq_comm
    | some best =>
      simp only [Option.elim_some]
      constructor
      · intro h
        have hplain : item.detached = false ∨ item.range.subtags ≠ [] := by
          by_contra hnot
          obtain ⟨hdetached, hsubtags⟩ := not_or.mp hnot
          have hmem := semicolon_mem_written
            (Bool.not_eq_false _ ▸ hdetached) (not_not.mp hsubtags)
          exact semicolon_notMem_primaryTag best (h ▸ hmem)
        exact ⟨(item.written_eq_primaryTag hplain).symm.trans h, hplain⟩
      · intro h
        exact (item.written_eq_primaryTag h.2).trans h.1

/-- The value `en; q=0.5`. -/
def looseHeader : AcceptLanguage :=
  [{ before := []
     after := []
     before_blanks := by simp [Blanks]
     after_blanks := by simp [Blanks]
     item := some
      { range :=
          { primary := ['e', 'n']
            subtags := []
            primary_length := by simp
            primary_letters := by decide
            subtags_length := by simp
            subtags_alphanum := by simp }
        weight := some
          { before := []
            after := [' ']
            capital := false
            qvalue :=
              { one := false
                decimals := some ['5']
                decimals_length := by simp
                decimals_digits := by decide }
            before_blanks := by simp [Blanks]
            after_blanks := by simp [Blanks] } } }]

theorem parseAcceptLanguage_looseHeader :
    ¬ ∀ (builtins : Builtins) (header : AcceptLanguage) (default : List Char),
      parseAcceptLanguage builtins header.text default = header.preferred default := by
  intro h
  have hresult := h ⟨fun _ => none, id⟩ looseHeader ['e', 'n']
  revert hresult
  decide +kernel

end PyFly.I18n
