import PyFly.ExpressionMeaning

/-!
# Malformed security expressions

Whether an expression is evaluated does not depend on the caller: it is
evaluated if its skeleton, in which every match of the regular expressions is
replaced by `True`, is a formula.  Matches are not always constructs of the
grammar, since `hasAnyRole` takes any text up to the next parenthesis for its
arguments.
-/

namespace PyFly.Security

open Library List

/-! ## Marks -/

def IsMark (word : List Char) : Prop :=
  ∃ value, word = str value

theorem Construct.foreign (construct : Construct) : construct.pattern.Foreign IsMark where
  starts := by
    rintro _ ⟨value, rfl⟩
    cases construct <;> cases value <;> exact ⟨_, _, rfl, by decide, by decide⟩
  opening := by
    rintro _ ⟨value, rfl⟩ first hfirst
    cases construct <;> cases value <;> cases hfirst <;> decide
  stop := by
    rintro _ ⟨value, rfl⟩ first hfirst
    cases construct <;> cases value <;> cases hfirst <;> decide

variable {text text' : List Char}

theorem interchanged_substitute (value value' : Construct → List Char → Bool)
    (construct : Construct) (h : Pattern.Interchanged IsMark text text') :
    Pattern.Interchanged IsMark (substitute value construct text)
      (substitute value' construct text') :=
  h.sub construct.head_ne_nil construct.foreign (fun _ => ⟨_, rfl⟩)
    (fun _ => ⟨_, rfl⟩)

theorem interchanged_reduce (value value' : Construct → List Char → Bool) (expr : List Char) :
    Pattern.Interchanged IsMark (reduce value expr) (reduce value' expr) :=
  interchanged_substitute value value' .authenticated
    (interchanged_substitute value value' .permission
      (interchanged_substitute value value' .role
        (interchanged_substitute value value' .anyRole (.refl expr))))

theorem IsMark.isLetter {word : List Char} (h : IsMark word) : ∀ c ∈ word, isLetter c := by
  obtain ⟨value, rfl⟩ := h
  have hsolid : (Token.atom value).Solid := trivial
  exact (Token.isLetter_text hsolid).2

theorem interchanged_pad (h : Pattern.Interchanged IsMark text text') :
    Pattern.Interchanged IsMark (pad text) (pad text') := by
  induction h with
  | nil => exact .nil
  | letter c h ih => exact Pattern.Interchanged.append (.refl _) ih
  | mark hword hword' h ih =>
    rw [pad_append, pad_append, pad_word hword.isLetter, pad_word hword'.isLetter]
    exact .mark hword hword' ih

theorem interchanged_strip (h : Pattern.Interchanged IsMark text text') :
    Pattern.Interchanged (fun word => IsMark word.reverse.reverse)
      (strip text) (strip text') := by
  have hstarts : ∀ word, IsMark word → ∃ first rest, word = first :: rest ∧
      isSpace first = false := by
    rintro _ ⟨value, rfl⟩
    cases value <;> exact ⟨_, _, rfl, by decide⟩
  have hends : ∀ word, IsMark word.reverse → ∃ first rest,
      word = first :: rest ∧ isSpace first = false := by
    rintro word ⟨value, hword⟩
    rw [reverse_eq_iff] at hword
    subst hword
    cases value <;> exact ⟨_, _, rfl, by decide⟩
  exact ((h.dropWhile hstarts).reverse.dropWhile hends).reverse

theorem blanksAllowed_word {word : List Char} (hword : ∀ c ∈ word, isLetter c)
    (depth : ℕ) (text : List Char) :
    blanksAllowed depth (word ++ text) = blanksAllowed depth text := by
  induction word with
  | nil => rfl
  | cons c word ih =>
    have hc := hword c mem_cons_self
    simp only [isLetter, Bool.and_eq_true, Bool.not_eq_true', decide_eq_true_eq] at hc
    rw [cons_append, blanksAllowed, if_neg hc.1.2, if_neg hc.2, hc.1.1,
      ih fun d hd => hword d (mem_cons_of_mem c hd)]
    rfl

theorem blanksAllowed_interchanged {Mark : List Char → Prop}
    (hmarks : ∀ word, Mark word → ∀ c ∈ word, isLetter c)
    (h : Pattern.Interchanged Mark text text') (depth : ℕ) :
    blanksAllowed depth text = blanksAllowed depth text' := by
  induction h generalizing depth with
  | nil => rfl
  | letter c h ih => rw [blanksAllowed, blanksAllowed, ih, ih, ih]
  | mark hword hword' h ih =>
    rw [blanksAllowed_word (hmarks _ hword), blanksAllowed_word (hmarks _ hword'), ih]

theorem tokenizerAccepts_interchanged (h : Pattern.Interchanged IsMark text text')
    (haccepts : TokenizerAccepts text) : TokenizerAccepts text' := by
  have hstrip := interchanged_strip (interchanged_pad h)
  have hmarks : ∀ word : List Char, IsMark word.reverse.reverse → ∀ c ∈ word, isLetter c := by
    intro word hword
    rw [reverse_reverse] at hword
    exact hword.isLetter
  exact (blanksAllowed_interchanged hmarks hstrip 0).symm.trans haccepts

section Lift

variable {A B Mark : Type}

theorem Formula.exists_of_map {f : A → B} {level : Level}
    (formula : Formula B level) {tokens : List (Token A)}
    (h : tokens.map (Token.map f) = formula.tokens) :
    ∃ lifted : Formula A level, lifted.tokens = tokens := by
  induction formula generalizing tokens with
  | or left right ihleft ihright =>
    obtain ⟨front, back, rfl, hfront, hback⟩ := map_eq_append_iff.mp h
    obtain ⟨token, back, rfl, htoken, hback⟩ := map_eq_cons_iff.mp hback
    obtain ⟨left, rfl⟩ := ihleft hfront
    obtain ⟨right, rfl⟩ := ihright hback
    cases token <;> cases htoken
    exact ⟨.or left right, rfl⟩
  | conjunction operand ih =>
    obtain ⟨operand, rfl⟩ := ih h
    exact ⟨.conjunction operand, rfl⟩
  | and left right ihleft ihright =>
    obtain ⟨front, back, rfl, hfront, hback⟩ := map_eq_append_iff.mp h
    obtain ⟨token, back, rfl, htoken, hback⟩ := map_eq_cons_iff.mp hback
    obtain ⟨left, rfl⟩ := ihleft hfront
    obtain ⟨right, rfl⟩ := ihright hback
    cases token <;> cases htoken
    exact ⟨.and left right, rfl⟩
  | inversion operand ih =>
    obtain ⟨operand, rfl⟩ := ih h
    exact ⟨.inversion operand, rfl⟩
  | not operand ih =>
    obtain ⟨token, back, rfl, htoken, hback⟩ := map_eq_cons_iff.mp h
    obtain ⟨operand, rfl⟩ := ih hback
    cases token <;> cases htoken
    exact ⟨.not operand, rfl⟩
  | primary operand ih =>
    obtain ⟨operand, rfl⟩ := ih h
    exact ⟨.primary operand, rfl⟩
  | group inner ih =>
    obtain ⟨token, back, rfl, htoken, hback⟩ := map_eq_cons_iff.mp h
    obtain ⟨front, back, rfl, hfront, hback⟩ :=
      map_eq_append_iff.mp hback
    obtain ⟨last, back, rfl, hlast, hback⟩ := map_eq_cons_iff.mp hback
    obtain rfl := map_eq_nil_iff.mp hback
    obtain ⟨inner, rfl⟩ := ih hfront
    cases token <;> cases htoken
    cases last <;> cases hlast
    exact ⟨.group inner, rfl⟩
  | atom value =>
    obtain ⟨token, back, rfl, htoken, hback⟩ := map_eq_cons_iff.mp h
    obtain rfl := map_eq_nil_iff.mp hback
    cases token with
    | atom value => exact ⟨.atom value, rfl⟩
    | _ => cases htoken

variable {value : Mark → Bool} {pieces : List (Char ⊕ Mark)}

theorem exists_render_word {word text : List Char} (hword : ∀ c ∈ word, c ≠ 'T' ∧ c ≠ 'F')
    (h : word ++ text = render (str ∘ value) pieces) :
    ∃ rest, pieces = word.map .inl ++ rest ∧ text = render (str ∘ value) rest := by
  induction word generalizing pieces with
  | nil => exact ⟨pieces, rfl, h⟩
  | cons c word ih =>
    cases pieces with
    | nil => cases h
    | cons piece pieces =>
      cases piece with
      | inl d =>
        obtain ⟨rfl, hrest⟩ := List.cons.inj h
        obtain ⟨rest, rfl, htext⟩ :=
          ih (fun d hd => hword d (mem_cons_of_mem c hd)) hrest
        exact ⟨rest, rfl, htext⟩
      | inr mark =>
        obtain ⟨first, rest, hfirst, hmark⟩ := str_eq_cons (value mark)
        rw [render_inr, Function.comp_apply, hfirst] at h
        obtain ⟨rfl, _⟩ := List.cons.inj h
        have hc := hword c mem_cons_self
        rcases hmark with hmark | hmark
        · exact absurd hmark hc.1
        · exact absurd hmark hc.2

theorem exists_render_str {outcome : Bool} {text : List Char}
    (h : str outcome ++ text = render (str ∘ value) pieces) :
    ∃ (atom : Bool ⊕ Mark) (rest : List (Char ⊕ Mark)), Sum.elim id value atom = outcome ∧
      pieces = (Item.word (.atom atom)).pieces ++ rest ∧
      text = render (str ∘ value) rest := by
  cases pieces with
  | nil => cases outcome <;> cases h
  | cons piece pieces =>
    cases piece with
    | inl c =>
      obtain ⟨first, word, hstr, hword⟩ : ∃ first word,
          str outcome = first :: word ∧ ∀ d ∈ word, d ≠ 'T' ∧ d ≠ 'F' := by
        cases outcome <;> exact ⟨_, _, rfl, by decide⟩
      rw [hstr] at h
      obtain ⟨rfl, hrest⟩ := List.cons.inj h
      obtain ⟨rest, rfl, htext⟩ := exists_render_word hword hrest
      refine ⟨.inl outcome, rest, rfl, ?_, htext⟩
      show _ = (str outcome).map .inl ++ rest
      rw [hstr]
      rfl
    | inr mark =>
      have hvalue : value mark = outcome := by
        rw [render_inr, Function.comp_apply] at h
        cases hmark : value mark <;> cases outcome <;>
          first | rfl | exact absurd (hmark ▸ h) nofun
      subst hvalue
      exact ⟨.inr mark, pieces, rfl, rfl, append_cancel_left h⟩

theorem exists_pieces {items : List (Item Bool)} (hspaced : Spaced items)
    (h : textOf str items = render (str ∘ value) pieces) :
    ∃ lifted : List (Item (Bool ⊕ Mark)), pieces = piecesOf lifted ∧
      lifted.map (Item.map (Sum.elim id value)) = items := by
  induction items generalizing pieces with
  | nil =>
    cases pieces with
    | nil => exact ⟨[], rfl, rfl⟩
    | cons piece pieces =>
      cases piece with
      | inl c => cases h
      | inr mark =>
        obtain ⟨first, rest, hfirst, _⟩ := str_eq_cons (value mark)
        rw [render_inr, Function.comp_apply, hfirst] at h
        cases h
  | cons item items ih =>
    obtain ⟨hitem, _, hitems⟩ := spaced_cons.mp hspaced
    have hfixed (word : List Char) (lifted : Item (Bool ⊕ Mark))
        (hword : ∀ c ∈ word, c ≠ 'T' ∧ c ≠ 'F')
        (hpieces : lifted.pieces = word.map .inl)
        (hlifted : lifted.map (Sum.elim id value) = item)
        (htext : word ++ textOf str items = render (str ∘ value) pieces) :
        ∃ lifted : List (Item (Bool ⊕ Mark)), pieces = piecesOf lifted ∧
          lifted.map (Item.map (Sum.elim id value)) = item :: items := by
      obtain ⟨rest, rfl, hrest⟩ := exists_render_word hword htext
      obtain ⟨others, rfl, rfl⟩ := ih hitems hrest
      exact ⟨lifted :: others, by rw [piecesOf_cons, hpieces],
        congrArg (· :: _) hlifted⟩
    cases item with
    | blank c =>
      have hc := hitem c rfl
      refine hfixed [c] (.blank c) (fun d hd => ?_) rfl rfl h
      obtain rfl := mem_singleton.mp hd
      constructor
      · rintro rfl
        exact absurd hc (by decide)
      · rintro rfl
        exact absurd hc (by decide)
    | word token =>
      cases token with
      | «open» => exact hfixed "(".toList (.word .open) (by decide) rfl rfl h
      | close => exact hfixed ")".toList (.word .close) (by decide) rfl rfl h
      | and => exact hfixed "and".toList (.word .and) (by decide) rfl rfl h
      | or => exact hfixed "or".toList (.word .or) (by decide) rfl rfl h
      | not => exact hfixed "not".toList (.word .not) (by decide) rfl rfl h
      | atom outcome =>
        obtain ⟨atom, rest, rfl, rfl, hrest⟩ := exists_render_str h
        obtain ⟨others, rfl, rfl⟩ := ih hitems hrest
        exact ⟨.word (.atom atom) :: others, rfl, rfl⟩

theorem exists_written {formula : Formula Bool .disjunction}
    {items : List (Item Bool)} (hwritten : Written formula items)
    (h : textOf str items = render (str ∘ value) pieces) :
    ∃ (lifted : Formula (Bool ⊕ Mark) .disjunction) (places : List (Item (Bool ⊕ Mark))),
      Written lifted places ∧ pieces = piecesOf places := by
  obtain ⟨places, hpieces, rfl⟩ := exists_pieces hwritten.spaced h
  have htokens := hwritten.tokens
  rw [tokensOf_map] at htokens
  obtain ⟨lifted, hlifted⟩ := formula.exists_of_map htokens
  exact ⟨lifted, places, ⟨hlifted.symm, spaced_map.mp hwritten.spaced⟩, hpieces⟩

end Lift

/-! ## Skeletons -/

/-- The expression with `True` for every match of the regular expressions. -/
def skeleton (expr : List Char) : List Char :=
  reduce (fun _ _ => true) expr

/-- A formula over `True` and `False`, with blanks which Python accepts. -/
def IsFormula (text : List Char) : Prop :=
  ∃ (formula : Formula Bool .disjunction) (items : List (Item Bool)),
    Written formula items ∧ text = textOf str items ∧ TokenizerAccepts text

theorem exists_marks (h : Pattern.Interchanged IsMark text text') :
    ∃ pieces : List (Char ⊕ Bool × Bool), text = render (str ∘ Prod.fst) pieces ∧
      text' = render (str ∘ Prod.snd) pieces := by
  induction h with
  | nil => exact ⟨[], rfl, rfl⟩
  | letter c h ih =>
    obtain ⟨pieces, rfl, rfl⟩ := ih
    exact ⟨.inl c :: pieces, rfl, rfl⟩
  | mark hword hword' h ih =>
    obtain ⟨value, rfl⟩ := hword
    obtain ⟨value', rfl⟩ := hword'
    obtain ⟨pieces, rfl, rfl⟩ := ih
    exact ⟨.inr (value, value') :: pieces, rfl, rfl⟩

theorem IsFormula.interchanged (h : IsFormula text)
    (hmarks : Pattern.Interchanged IsMark text text') :
    IsFormula text' := by
  obtain ⟨formula, items, hwritten, hitems, haccepts⟩ := h
  obtain ⟨pieces, htext, htext'⟩ := exists_marks hmarks
  obtain ⟨lifted, places, hplaces, rfl⟩ :=
    exists_written hwritten (hitems.symm.trans htext)
  refine ⟨lifted.map (Sum.elim id Prod.snd),
    places.map (Item.map (Sum.elim id Prod.snd)), hplaces.map, ?_,
    tokenizerAccepts_interchanged hmarks haccepts⟩
  have hspell : str ∘ Sum.elim id (Prod.snd : Bool × Bool → Bool) =
      Sum.elim str (str ∘ Prod.snd) := by
    funext atom
    cases atom <;> rfl
  rw [htext', render_piecesOf, textOf_map, hspell]

theorem evaluateExpression_ok_iff (expr : List Char) (ctx : SecurityContext) :
    (∃ outcome, evaluateExpression expr ctx = .ok outcome) ↔ IsFormula (skeleton expr) := by
  constructor
  · rintro ⟨outcome, h⟩
    obtain ⟨formula, items, hwritten, hreduce, haccepts⟩ :=
      written_of_evaluateExpression h
    have hformula : IsFormula (reduce (holds ctx) expr) :=
      ⟨formula, items, hwritten, hreduce, hreduce ▸ haccepts⟩
    exact hformula.interchanged (interchanged_reduce _ _ expr)
  · intro h
    obtain ⟨formula, items, hwritten, hreduce, haccepts⟩ :=
      h.interchanged (interchanged_reduce _ (holds ctx) expr)
    exact ⟨_, evaluateExpression_of_written hwritten hreduce (hreduce ▸ haccepts)⟩

/-! ## Well-formed calls -/

/-- A sentence of the documented grammar, up to blanks. -/
def IsSentence (expr : List Char) : Prop :=
  ∃ (formula : Formula Atom .disjunction) (items : List (Item Atom)),
    Written formula items ∧ expr = textOf Atom.text items

def CallsWellFormed (expr : List Char) : Prop :=
  ∀ tail, tail <:+ expr → ∀ construct : Construct, construct.pattern.head <+: tail →
    ∃ call : Call, call.construct = construct ∧ call.text <+: tail

variable {expr : List Char}

theorem CallsWellFormed.suffix {tail : List Char}
    (h : CallsWellFormed expr) (htail : tail <:+ expr) :
    CallsWellFormed tail :=
  fun more hmore => h more (hmore.trans htail)

theorem Call.text_ne_nil (call : Call) : call.text ≠ [] :=
  Pattern.occurrence_ne_nil call.construct.head_ne_nil call.body

theorem CallsWellFormed.exists_settled (h : CallsWellFormed expr) :
    ∃ pieces, Settled pieces ∧ expr = render Call.text pieces := by
  induction hlength : expr.length using Nat.strong_induction_on generalizing expr with
  | _ length ih =>
    by_cases hstart : ∃ construct : Construct, construct.pattern.head <+: expr
    · obtain ⟨construct, hhead⟩ := hstart
      obtain ⟨call, _, rest, rfl⟩ :=
        h expr (suffix_refl expr) construct hhead
      have hshorter : rest.length < length := by
        have hpositive := length_pos_iff.mpr call.text_ne_nil
        rw [length_append] at hlength
        omega
      obtain ⟨pieces, hpieces, rfl⟩ := ih rest.length hshorter
        (h.suffix (suffix_append _ _)) rfl
      exact ⟨.inr call :: pieces, hpieces, rfl⟩
    · rw [not_exists] at hstart
      cases expr with
      | nil => exact ⟨[], trivial, rfl⟩
      | cons c expr =>
        obtain ⟨pieces, hpieces, rfl⟩ := ih expr.length
          (by simp [← hlength]) (h.suffix (suffix_cons c expr)) rfl
        exact ⟨.inl c :: pieces, ⟨hstart, hpieces⟩, rfl⟩

theorem isSentence_of_isFormula (hformula : IsFormula (skeleton expr))
    (hcalls : CallsWellFormed expr) :
    IsSentence expr := by
  obtain ⟨pieces, hsettled, rfl⟩ := hcalls.exists_settled
  obtain ⟨formula, items, hwritten, hitems, _⟩ := hformula
  have htext : textOf str items = render (str ∘ fun _ => true) pieces :=
    hitems.symm.trans (reduce_render _ hsettled)
  obtain ⟨lifted, places, hplaces, rfl⟩ := exists_written hwritten htext
  exact ⟨lifted, places, hplaces, render_piecesOf Call.text places⟩

theorem callsWellFormed_render {pieces : List (Char ⊕ Call)}
    (h : Settled pieces) : CallsWellFormed (render Call.text pieces) := by
  induction pieces with
  | nil =>
    intro tail htail construct hhead
    obtain rfl := suffix_nil.mp htail
    exact absurd (prefix_nil.mp hhead) construct.head_ne_nil
  | cons piece pieces ih =>
    intro tail htail construct hhead
    cases piece with
    | inl c =>
      rcases suffix_cons_iff.mp htail with rfl | hrest
      · exact absurd hhead (h.1 construct)
      · exact ih h.2 tail hrest construct hhead
    | inr call =>
      rw [render_inr] at htail
      by_cases hauthenticated : construct = .authenticated
      · subst hauthenticated
        exact ⟨.authenticated, rfl, hhead⟩
      obtain ⟨first, inside, htext, hinert⟩ := call.exists_inert_rest
      specialize hinert construct hauthenticated
      rw [htext, cons_append, suffix_cons_iff] at htail
      rcases htail with rfl | htail
      · rw [← cons_append, ← htext] at hhead ⊢
        by_cases hown : construct = call.construct
        · exact ⟨call, hown.symm, prefix_append _ _⟩
        · exact absurd hhead (call.inert_text hauthenticated hown call.text
            call.text_ne_nil (suffix_refl _) _)
      · rcases Pattern.suffix_append_cases htail with
          hrest | ⟨most, hmost, rfl⟩
        · exact ih h tail hrest construct hhead
        · by_cases hempty : most = []
          · subst hempty
            exact ih h _ (suffix_refl _) construct hhead
          · exact absurd hhead (hinert most hempty hmost _)

theorem callsWellFormed_of_isSentence (h : IsSentence expr) : CallsWellFormed expr := by
  obtain ⟨formula, items, hwritten, rfl⟩ := h
  rw [Atom.text, ← render_piecesOf]
  exact callsWellFormed_render (settled_piecesOf hwritten.spaced)

/-! ## Rejection -/

mutual

theorem evalNode_ok : (node : PyNode) → node.safe → ∃ outcome, evalNode node = .ok outcome
  | .constant value, _ => ⟨value, rfl⟩
  | .boolOp .and values, h => evalAll_ok values h
  | .boolOp .or values, h => evalAny_ok values h
  | .notOp operand, h => by
      obtain ⟨outcome, houtcome⟩ := evalNode_ok operand h
      exact ⟨!outcome, by rw [evalNode, houtcome]; rfl⟩
  | .call _ _, h => by cases h
  | .tuple, h => by cases h

theorem evalAll_ok : (values : List PyNode) → PyNode.safeAll values →
    ∃ outcome, evalAll values = .ok outcome
  | [], _ => ⟨true, rfl⟩
  | value :: values, h => by
      rw [PyNode.safeAll, Bool.and_eq_true] at h
      obtain ⟨outcome, houtcome⟩ := evalNode_ok value h.1
      rw [evalAll, houtcome]
      cases outcome with
      | true => exact evalAll_ok values h.2
      | false => exact ⟨false, rfl⟩

theorem evalAny_ok : (values : List PyNode) → PyNode.safeAll values →
    ∃ outcome, evalAny values = .ok outcome
  | [], _ => ⟨false, rfl⟩
  | value :: values, h => by
      rw [PyNode.safeAll, Bool.and_eq_true] at h
      obtain ⟨outcome, houtcome⟩ := evalNode_ok value h.1
      rw [evalAny, houtcome]
      cases outcome with
      | true => exact ⟨true, rfl⟩
      | false => exact evalAny_ok values h.2

end

/-- Every error of the evaluation has the code `INVALID_EXPRESSION`. -/
theorem invalid_of_evaluateExpression {ctx : SecurityContext}
    {error : SecurityError} (h : evaluateExpression expr ctx = .error error) :
    error.invalid := by
  rw [evaluateExpression] at h
  split at h
  · rw [safeBoolEval] at h
    split at h
    · obtain rfl := Except.error.inj h
      rfl
    · next node _ =>
        split at h
        · next hsafe =>
            obtain ⟨outcome, houtcome⟩ := evalNode_ok node hsafe
            rw [houtcome] at h
            cases h
        · obtain rfl := Except.error.inj h
          rfl
  · obtain rfl := Except.error.inj h
    rfl

structure Rejects (expr : List Char) : Prop where
  raises : ∀ ctx, ∃ error, evaluateExpression expr ctx = .error error ∧ error.invalid
  preAuthorize : ∀ (α : Type) context (method : Except SecurityError α) result,
    preAuthorize expr context method ≠ .ok result
  postAuthorize : ∀ (α : Type) context (method : Except SecurityError α)
    result, postAuthorize expr context method ≠ .ok result
  secure : ∀ (α : Type) (rule : SecureRule) context
    (method : Except SecurityError α) result, rule.expression = expr →
    expr ≠ [] → secure rule context method ≠ .ok result

theorem checkExpression_error (h : ∀ ctx, ∃ error, evaluateExpression expr ctx = .error error)
    (context : Option SecurityContext) :
    ∃ error, checkExpression expr context = .error error := by
  cases context with
  | none => exact ⟨_, rfl⟩
  | some ctx =>
    obtain ⟨error, herror⟩ := h ctx
    exact ⟨error, by rw [checkExpression, herror]⟩

theorem rejects_of_error (h : ∀ ctx, ∃ error, evaluateExpression expr ctx = .error error) :
    Rejects expr where
  raises ctx := by
    obtain ⟨error, herror⟩ := h ctx
    exact ⟨error, herror, invalid_of_evaluateExpression herror⟩
  preAuthorize α context method result := by
    obtain ⟨error, herror⟩ := checkExpression_error h context
    rw [Security.preAuthorize, herror]
    exact nofun
  postAuthorize α context method result := by
    obtain ⟨error, herror⟩ := checkExpression_error h context
    cases method with
    | error => exact nofun
    | ok value =>
      rw [Security.postAuthorize, herror]
      exact nofun
  secure α rule context method result hrule hne := by
    subst hrule
    obtain ⟨error, herror⟩ := checkExpression_error h context
    cases context with
    | none => exact nofun
    | some ctx =>
      rw [Security.secure]
      dsimp only
      split
      · exact nofun
      · split
        · exact nofun
        · split
          · exact nofun
          · rw [herror]
            exact nofun

/-- A malformed expression is rejected exactly when it has no malformed call
whose replacement leaves a formula. -/
theorem rejects_iff_callsWellFormed (expr : List Char) : (¬ IsSentence expr → Rejects expr) ↔
      (IsFormula (skeleton expr) → CallsWellFormed expr) := by
  constructor
  · intro h hformula
    by_contra hcalls
    have hsentence : ¬ IsSentence expr :=
      fun hsentence => hcalls (callsWellFormed_of_isSentence hsentence)
    obtain ⟨error, herror, _⟩ := (h hsentence).raises {}
    obtain ⟨outcome, houtcome⟩ :=
      (evaluateExpression_ok_iff expr {}).mpr hformula
    rw [houtcome] at herror
    cases herror
  · intro h hsentence
    refine rejects_of_error fun ctx => ?_
    cases hevaluate : evaluateExpression expr ctx with
    | error error => exact ⟨error, rfl⟩
    | ok outcome =>
      have hformula :=
        (evaluateExpression_ok_iff expr ctx).mp ⟨outcome, hevaluate⟩
      exact absurd (isSentence_of_isFormula hformula (h hformula)) hsentence

theorem Call.quote_mem {call : Call} (h : call.construct = .anyRole) : '\'' ∈ call.text := by
  cases call with
  | anyRole first others =>
    simp [text, Pattern.occurrence, body, argumentsText, Argument.text]
  | role name => cases h
  | permission name => cases h
  | authenticated => cases h

/-- A name without quotes is an argument list for the regular expression, and
no role is then asked for. -/
theorem not_rejects_unquoted : ¬ ∀ expr, ¬ IsSentence expr → Rejects expr := by
  intro h
  have hformula : ∃ outcome,
      evaluateExpression "not hasAnyRole(ADMIN)".toList {} = .ok outcome :=
    ⟨true, rfl⟩
  have hcalls : ¬ CallsWellFormed "not hasAnyRole(ADMIN)".toList := by
    intro hcalls
    obtain ⟨call, hconstruct, hstart⟩ := hcalls "hasAnyRole(ADMIN)".toList
      (by decide) .anyRole (by decide)
    exact absurd (hstart.subset (Call.quote_mem hconstruct)) (by decide)
  refine hcalls ((rejects_iff_callsWellFormed _).mp (h _) ?_)
  exact (evaluateExpression_ok_iff _ _).mp hformula

end PyFly.Security
