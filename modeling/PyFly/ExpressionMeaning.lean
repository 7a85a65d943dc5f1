import PyFly.ExpressionConstructs

/-!
# The meaning of security expressions

The text of a formula of the documented grammar is settled, so that the
substitutions leave the same formula over `True` and `False`.
-/

namespace PyFly.Security

open Library List

/-- The atoms of the documented grammar: `True`, `False` and the constructs. -/
abbrev Atom := Bool ⊕ Call

def Atom.text : Atom → List Char :=
  Sum.elim str Call.text

def Atom.meaning (ctx : SecurityContext) : Atom → Bool :=
  Sum.elim id (Call.meaning ctx)

section Map

variable {A B : Type}

def Token.map (f : A → B) : Token A → Token B
  | .open => .open
  | .close => .close
  | .and => .and
  | .or => .or
  | .not => .not
  | .atom value => .atom (f value)

def Item.map (f : A → B) : Item A → Item B
  | .blank c => .blank c
  | .word token => .word (token.map f)

def Formula.map (f : A → B) {level : Level} : Formula A level → Formula B level
  | .or left right => .or (left.map f) (right.map f)
  | .conjunction operand => .conjunction (operand.map f)
  | .and left right => .and (left.map f) (right.map f)
  | .inversion operand => .inversion (operand.map f)
  | .not operand => .not (operand.map f)
  | .primary operand => .primary (operand.map f)
  | .group inner => .group (inner.map f)
  | .atom value => .atom (f value)

variable (f : A → B)

theorem Formula.tokens_map {level : Level} (formula : Formula A level) :
    (formula.map f).tokens = formula.tokens.map (Token.map f) := by
  induction formula with
  | or left right ihleft ihright =>
    simp [Formula.map, tokens, ihleft, ihright, Token.map]
  | conjunction operand ih => exact ih
  | and left right ihleft ihright =>
    simp [Formula.map, tokens, ihleft, ihright, Token.map]
  | inversion operand ih => exact ih
  | not operand ih => simp [Formula.map, tokens, ih, Token.map]
  | primary operand ih => exact ih
  | group inner ih => simp [Formula.map, tokens, ih, Token.map]
  | atom value => rfl

theorem Formula.meaning_map (value : B → Bool) {level : Level} (formula : Formula A level) :
    (formula.map f).meaning value = formula.meaning (value ∘ f) := by
  induction formula with
  | or left right ihleft ihright =>
    simp only [Formula.map, meaning, ihleft, ihright]
  | conjunction operand ih => exact ih
  | and left right ihleft ihright =>
    simp only [Formula.map, meaning, ihleft, ihright]
  | inversion operand ih => exact ih
  | not operand ih => simp only [Formula.map, meaning, ih]
  | primary operand ih => exact ih
  | group inner ih => exact ih
  | atom value => rfl

variable {f}

theorem Token.solid_map {token : Token A} : (token.map f).Solid ↔ token.Solid := by
  cases token <;> exact Iff.rfl

theorem Item.solid_map {item : Item A} : (item.map f).Solid ↔ item.Solid := by
  cases item with
  | blank c => exact Iff.rfl
  | word token => exact Token.solid_map

theorem tokensOf_map (items : List (Item A)) :
    tokensOf (items.map (Item.map f)) = (tokensOf items).map (Token.map f) := by
  induction items with
  | nil => rfl
  | cons item items ih =>
    cases item with
    | blank c => exact ih
    | word token => exact congrArg _ ih

theorem spaced_map {items : List (Item A)} :
    Spaced (items.map (Item.map f)) ↔ Spaced items := by
  induction items with
  | nil => exact ⟨fun _ => .nil, fun _ => .nil⟩
  | cons item items ih =>
    have hblank : ∀ c, item.map f = .blank c ↔ item = .blank c := by
      intro c
      cases item with
      | blank d => simp [Item.map]
      | word token => simp [Item.map]
    rw [map_cons, spaced_cons, spaced_cons, ih]
    simp [hblank, Item.solid_map, List.head?_map]

theorem textOf_map (spell : B → List Char) (items : List (Item A)) :
    textOf spell (items.map (Item.map f)) = textOf (spell ∘ f) items := by
  induction items with
  | nil => rfl
  | cons item items ih =>
    have hitem : (item.map f).text spell = item.text (spell ∘ f) := by
      cases item with
      | blank c => rfl
      | word token => cases token <;> rfl
    rw [map_cons, textOf_cons, textOf_cons, ih, hitem]

theorem Written.map {formula : Formula A .disjunction} {items : List (Item A)}
    (h : Written formula items) :
    Written (formula.map f) (items.map (Item.map f)) where
  tokens := by rw [tokensOf_map, h.tokens, Formula.tokens_map]
  spaced := spaced_map.mpr h.spaced

end Map

section Pieces

variable {Mark : Type}

def Item.pieces : Item (Bool ⊕ Mark) → List (Char ⊕ Mark)
  | .blank c => [.inl c]
  | .word (.atom (.inr mark)) => [.inr mark]
  | .word token => (token.text (Sum.elim str fun _ => [])).map .inl

def piecesOf (items : List (Item (Bool ⊕ Mark))) : List (Char ⊕ Mark) :=
  items.flatMap Item.pieces

@[simp] theorem piecesOf_cons (item : Item (Bool ⊕ Mark))
    (items : List (Item (Bool ⊕ Mark))) :
    piecesOf (item :: items) = item.pieces ++ piecesOf items := rfl

theorem render_piecesOf (spell : Mark → List Char) (items : List (Item (Bool ⊕ Mark))) :
    render spell (piecesOf items) = textOf (Sum.elim str spell) items := by
  induction items with
  | nil => rfl
  | cons item items ih =>
    have hitem : render spell item.pieces = item.text (Sum.elim str spell) := by
      cases item with
      | blank c => rfl
      | word token =>
        cases token with
        | atom atom =>
          cases atom with
          | inl value => exact render_map_inl spell (str value)
          | inr mark => exact append_nil _
        | «open» => rfl
        | close => rfl
        | and => rfl
        | or => rfl
        | not => rfl
    rw [piecesOf_cons, render_append, textOf_cons, ih, hitem]

end Pieces

theorem settled_append (word : List Char) {pieces : List (Char ⊕ Call)}
    (hword : ∀ c ∈ word, c ≠ 'h' ∧ c ≠ 'i') (h : Settled pieces) :
    Settled (word.map .inl ++ pieces) := by
  induction word with
  | nil => exact h
  | cons c word ih =>
    exact ⟨fun construct =>
        construct.not_head (hword c mem_cons_self) _,
      ih fun d hd => hword d (mem_cons_of_mem c hd)⟩

theorem settled_piecesOf {items : List (Item Atom)} (h : Spaced items) :
    Settled (piecesOf items) := by
  induction items with
  | nil => trivial
  | cons item items ih =>
    obtain ⟨hitem, _, hitems⟩ := spaced_cons.mp h
    specialize ih hitems
    rw [piecesOf_cons]
    cases item with
    | blank c =>
      have hc := hitem c rfl
      refine settled_append [c] (fun d hd => ?_) ih
      obtain rfl := mem_singleton.mp hd
      constructor
      · rintro rfl
        exact absurd hc (by decide)
      · rintro rfl
        exact absurd hc (by decide)
    | word token =>
      cases token with
      | atom atom =>
        cases atom with
        | inl value =>
          refine settled_append (str value) ?_ ih
          cases value <;> decide
        | inr call => exact ih
      | «open» => exact settled_append ("(".toList) (by decide) ih
      | close => exact settled_append (")".toList) (by decide) ih
      | and => exact settled_append ("and".toList) (by decide) ih
      | or => exact settled_append ("or".toList) (by decide) ih
      | not => exact settled_append ("not".toList) (by decide) ih

theorem reduce_textOf (value : Construct → List Char → Bool)
    {items : List (Item Atom)} (h : Spaced items) :
    reduce value (textOf Atom.text items) =
      textOf str (items.map (Item.map (Sum.elim id fun call =>
        value call.construct call.body))) := by
  have hspell : str ∘ Sum.elim id (fun call : Call =>
        value call.construct call.body) =
      Sum.elim str fun call => str (value call.construct call.body) := by
    funext atom
    cases atom <;> rfl
  rw [Atom.text, ← render_piecesOf, reduce_render value (settled_piecesOf h),
    render_piecesOf, textOf_map, hspell]

section Separate

variable {A : Type}

def separate : List (Token A) → List (Item A)
  | [] => []
  | [token] => [.word token]
  | token :: next :: tokens =>
    .word token :: .blank ' ' :: separate (next :: tokens)

theorem tokensOf_separate (tokens : List (Token A)) : tokensOf (separate tokens) = tokens := by
  induction tokens with
  | nil => rfl
  | cons token tokens ih =>
    cases tokens with
    | nil => rfl
    | cons next tokens => exact congrArg _ ih

theorem blanks_separate (tokens : List (Token A)) :
    ∀ c, .blank c ∈ separate tokens → c = ' ' := by
  intro c
  induction tokens with
  | nil => exact nofun
  | cons token tokens ih =>
    cases tokens with
    | nil => simp [separate]
    | cons next tokens =>
      simp only [separate, mem_cons, reduceCtorEq, Item.blank.injEq, false_or]
      rintro (rfl | hc)
      · rfl
      · exact ih hc

theorem spaced_separate (tokens : List (Token A)) : Spaced (separate tokens) := by
  induction tokens with
  | nil => exact .nil
  | cons token tokens ih =>
    cases tokens with
    | nil => exact spaced_cons.mpr ⟨nofun, nofun, .nil⟩
    | cons next tokens =>
      have hspace : Spaced (.blank ' ' :: separate (next :: tokens)) := by
        refine spaced_cons.mpr ⟨?_, fun _ _ hsolid => hsolid.1, ih⟩
        rintro _ ⟨⟩
        decide
      refine spaced_cons.mpr ⟨nofun, ?_, hspace⟩
      rintro _ ⟨⟩ hsolid
      exact hsolid.2

theorem written_separate (formula : Formula A .disjunction) :
    Written formula (separate formula.tokens) :=
  ⟨tokensOf_separate _, spaced_separate _⟩

end Separate

/-! ## Evaluation -/

theorem blanksAllowed_of_spaces {text : List Char}
    (h : ∀ c ∈ text, isSpace c → c = ' ') (depth : ℕ) :
    blanksAllowed depth text := by
  induction text generalizing depth with
  | nil => rfl
  | cons c text ih =>
    have hothers : ∀ d ∈ text, isSpace d → d = ' ' :=
      fun d hd => h d (mem_cons_of_mem c hd)
    rw [blanksAllowed]
    split
    · exact ih hothers _
    · split
      · exact ih hothers _
      · rw [ih hothers, Bool.and_true]
        by_cases hspace : isSpace c
        · obtain rfl := h c mem_cons_self hspace
          rfl
        · simp [hspace]

variable {c : Char}

theorem mem_of_mem_strip {text : List Char} (h : c ∈ strip text) : c ∈ text := by
  obtain ⟨front, back, htext, _, _⟩ := strip_spec text
  rw [htext]
  exact mem_append_right _ (mem_append_left _ h)

theorem mem_of_mem_pad {text : List Char} (h : c ∈ pad text) : c = ' ' ∨ c ∈ text := by
  obtain ⟨d, hd, hc⟩ := mem_flatMap.mp h
  split at hc
  · simp only [mem_cons, not_mem_nil, or_false] at hc
    rcases hc with rfl | rfl | rfl
    · exact .inl rfl
    · exact .inr hd
    · exact .inl rfl
  · obtain rfl := mem_singleton.mp hc
    exact .inr hd

theorem Token.not_space {token : Token Bool} (h : c ∈ token.text str) : isSpace c = false := by
  have hsolid (htoken : token.Solid) : isSpace c = false :=
    isSpace_of_isLetter ((isLetter_text htoken).2 c h)
  cases token with
  | «open» => exact (mem_singleton.mp h) ▸ rfl
  | close => exact (mem_singleton.mp h) ▸ rfl
  | and => exact hsolid trivial
  | or => exact hsolid trivial
  | not => exact hsolid trivial
  | atom value => exact hsolid trivial

theorem tokenizerAccepts_of_spaces {items : List (Item Bool)}
    (h : ∀ c, .blank c ∈ items → c = ' ') :
    TokenizerAccepts (textOf str items) := by
  refine blanksAllowed_of_spaces (fun c hc hspace => ?_) 0
  rcases mem_of_mem_pad (mem_of_mem_strip hc) with rfl | hc
  · rfl
  · obtain ⟨item, hitem, hc⟩ := mem_flatMap.mp hc
    cases item with
    | blank d =>
      obtain rfl := mem_singleton.mp hc
      exact h c hitem
    | word token =>
      rw [Token.not_space hc] at hspace
      cases hspace

/-- Every security expression evaluates to the meaning of its syntax tree. -/
theorem evaluateExpression_textOf {formula : Formula Atom .disjunction}
    {items : List (Item Atom)} (hwritten : Written formula items)
    (hspaces : ∀ c, .blank c ∈ items → c = ' ') (ctx : SecurityContext) :
    evaluateExpression (textOf Atom.text items) ctx =
      .ok (formula.meaning (Atom.meaning ctx)) := by
  have hvalue : (fun call : Call => holds ctx call.construct call.body) =
      Call.meaning ctx := funext (holds_body ctx)
  have hreduce : reduce (holds ctx) (textOf Atom.text items) =
      textOf str (items.map (Item.map (Atom.meaning ctx))) := by
    rw [reduce_textOf (holds ctx) hwritten.spaced, hvalue]
    rfl
  have hblanks : ∀ c, .blank c ∈ items.map (Item.map (Atom.meaning ctx)) → c = ' ' := by
    intro c hc
    obtain ⟨item, hitem, heq⟩ := mem_map.mp hc
    cases item with
    | blank d =>
      obtain rfl : d = c := by simpa [Item.map] using heq
      exact hspaces d hitem
    | word token => simp [Item.map] at heq
  rw [evaluateExpression_of_written hwritten.map hreduce
    (tokenizerAccepts_of_spaces hblanks), Formula.meaning_map]
  rfl

def adminName : Name := ⟨"ADMIN".toList, by decide, by decide⟩

def guestFormula : Formula Atom .disjunction :=
  .or (.inversion (.not (.primary (.atom (.inr (.role adminName))))))
    (.conjunction (.and (.primary (.atom (.inr .authenticated)))
      (.inversion (.primary (.atom (.inl true))))))

theorem evaluateExpression_textOf_guest : evaluateExpression
        "not hasRole('ADMIN') or isAuthenticated and True".toList {} =
      .ok true :=
  evaluateExpression_textOf (written_separate guestFormula)
    (blanks_separate guestFormula.tokens) {}

end PyFly.Security
