import PyFly.ExpressionLayout

/-!
# Constructs of security expressions

The calls of the documented grammar and `isAuthenticated`.  A text is settled
if its constructs are known and no other place of it starts one.  In settled
texts every substitution replaces the constructs of its own kind by marks, and
it touches nothing else.
-/

namespace PyFly.Security

open Library List

/-! ## Constructs of the grammar -/

/-- A name is not empty and has neither quotes nor parentheses. -/
structure Name where
  text : List Char
  nonempty : text ≠ []
  plain : ∀ c ∈ text, c ≠ '\'' ∧ c ≠ '(' ∧ c ≠ ')'

structure Argument where
  before : List Char
  name : Name
  after : List Char
  before_space : ∀ c ∈ before, isSpace c
  after_space : ∀ c ∈ after, isSpace c

inductive Call
  | anyRole (first : Argument) (others : List Argument)
  | role (name : Name)
  | permission (name : Name)
  | authenticated

def Argument.text (argument : Argument) : List Char :=
  argument.before ++ '\'' :: (argument.name.text ++ '\'' :: argument.after)

def argumentsText (first : Argument) (others : List Argument) : List Char :=
  first.text ++ others.flatMap fun argument => ',' :: argument.text

namespace Call

def construct : Call → Construct
  | anyRole _ _ => .anyRole
  | role _ => .role
  | permission _ => .permission
  | authenticated => .authenticated

def body : Call → List Char
  | anyRole first others => argumentsText first others
  | role name => name.text
  | permission name => name.text
  | authenticated => []

def text (call : Call) : List Char :=
  call.construct.pattern.occurrence call.body

def meaning (ctx : SecurityContext) : Call → Bool
  | anyRole first others =>
    ctx.hasAnyRole ((first :: others).map fun argument =>
      String.ofList argument.name.text)
  | role name => ctx.hasRole (String.ofList name.text)
  | permission name => ctx.hasPermission (String.ofList name.text)
  | authenticated => ctx.isAuthenticated

end Call

/-! ## Arguments -/

theorem inert_argument_spaces {spaces : List Char} (hspaces : ∀ c ∈ spaces, isSpace c) :
    argumentPattern.Inert spaces := by
  have hhead : argumentPattern.head = ['\''] := rfl
  refine Pattern.inert_of_opening hhead fun hmem => ?_
  exact absurd (hspaces '\'' hmem) (by decide)

theorem findAll_argument (argument : Argument) (text : List Char) :
    argumentPattern.findAll (argument.text ++ text) =
      argument.name.text :: argumentPattern.findAll text := by
  have haccepts : argumentPattern.Accepts argument.name.text :=
    ⟨argument.name.nonempty, fun hmem => (argument.name.plain _ hmem).1 rfl⟩
  have hhead : argumentPattern.head ≠ [] := cons_ne_nil _ _
  have htext : argument.text ++ text = argument.before ++
      (argumentPattern.occurrence argument.name.text ++ (argument.after ++ text)) := by
    simp [Argument.text, Pattern.occurrence, argumentPattern, Pattern.head, Pattern.closing]
  rw [htext, Pattern.findAll_inert (inert_argument_spaces argument.before_space),
    Pattern.findAll_occurrence hhead haccepts,
    Pattern.findAll_inert (inert_argument_spaces argument.after_space)]

theorem findAll_arguments (arguments : List Argument) : argumentPattern.findAll
        (arguments.flatMap fun argument => ',' :: argument.text) =
      arguments.map fun argument => argument.name.text := by
  induction arguments with
  | nil => rfl
  | cons argument arguments ih =>
    have hhead : argumentPattern.head = ['\''] := rfl
    have hcomma : argumentPattern.Inert [','] :=
      Pattern.inert_of_opening hhead (by decide)
    rw [flatMap_cons, cons_append]
    show argumentPattern.findAll ([','] ++ (argument.text ++ _)) = _
    rw [Pattern.findAll_inert hcomma, findAll_argument, ih]
    rfl

theorem holds_body (ctx : SecurityContext) (call : Call) :
    holds ctx call.construct call.body = call.meaning ctx := by
  cases call with
  | anyRole first others =>
    show ctx.hasAnyRole (parseStringArgs (argumentsText first others)) = _
    rw [parseStringArgs, argumentsText, findAll_argument, findAll_arguments, map_cons, map_map]
    rfl
  | role name => rfl
  | permission name => rfl
  | authenticated => rfl

variable {c : Char}

theorem mem_argument {argument : Argument} (h : c ∈ argument.text) :
    isSpace c ∨ c = '\'' ∨ c ∈ argument.name.text := by
  rw [Argument.text, mem_append, mem_cons, mem_append, mem_cons] at h
  rcases h with h | h | h | h | h
  · exact .inl (argument.before_space c h)
  · exact .inr (.inl h)
  · exact .inr (.inr h)
  · exact .inr (.inl h)
  · exact .inl (argument.after_space c h)

theorem argument_plain {argument : Argument} (h : c ∈ argument.text) : c ≠ '(' ∧ c ≠ ')' := by
  rcases mem_argument h with h | rfl | h
  · constructor
    · rintro rfl
      exact absurd h (by decide)
    · rintro rfl
      exact absurd h (by decide)
  · decide
  · exact (argument.name.plain c h).2

theorem Call.body_plain (call : Call) (h : c ∈ call.body) : c ≠ '(' ∧ c ≠ ')' := by
  cases call with
  | anyRole first others =>
    rw [body, argumentsText, mem_append, mem_flatMap] at h
    rcases h with h | ⟨argument, _, h⟩
    · exact argument_plain h
    · rcases mem_cons.mp h with rfl | h
      · decide
      · exact argument_plain h
  | role name => exact (name.plain c h).2
  | permission name => exact (name.plain c h).2
  | authenticated => cases h

theorem Call.accepts (call : Call) : call.construct.pattern.Accepts call.body := by
  cases call with
  | anyRole first others =>
    refine ⟨?_, fun hmem => (body_plain (.anyRole first others) hmem).2 rfl⟩
    refine append_ne_nil_of_left_ne_nil ?_ _
    exact append_ne_nil_of_right_ne_nil _ (cons_ne_nil _ _)
  | role name => exact ⟨name.nonempty, fun h => (name.plain _ h).1 rfl⟩
  | permission name => exact ⟨name.nonempty, fun h => (name.plain _ h).1 rfl⟩
  | authenticated => rfl

/-! ## Places where no construct starts -/

theorem Construct.head_ne_nil (construct : Construct) : construct.pattern.head ≠ [] := by
  cases construct <;> exact cons_ne_nil _ _

/-- The calls start with `h`, and `isAuthenticated` with `i`. -/
theorem Construct.opening (construct : Construct) :
    ∃ opening others, construct.pattern.head = opening :: others ∧
      (opening = 'h' ∨ opening = 'i') := by
  cases construct with
  | anyRole => exact ⟨'h', _, rfl, .inl rfl⟩
  | role => exact ⟨'h', _, rfl, .inl rfl⟩
  | permission => exact ⟨'h', _, rfl, .inl rfl⟩
  | authenticated => exact ⟨'i', _, rfl, .inr rfl⟩

theorem Construct.not_head {construct : Construct} (hc : c ≠ 'h' ∧ c ≠ 'i') (text : List Char) :
    ¬ construct.pattern.head <+: c :: text := by
  obtain ⟨opening, others, hhead, hopening⟩ := construct.opening
  rw [hhead, cons_prefix_cons]
  rintro ⟨rfl, _⟩
  rcases hopening with h | h
  · exact hc.1 h
  · exact hc.2 h

theorem Construct.inert_of_plain {construct : Construct} {word : List Char}
    (h : ∀ c ∈ word, c ≠ 'h' ∧ c ≠ 'i') : construct.pattern.Inert word := by
  intro tail hne htail text hstart
  obtain ⟨c, tail, rfl⟩ := exists_cons_of_ne_nil hne
  exact construct.not_head (h c (htail.subset mem_cons_self)) _ hstart

theorem Call.inert_inside (call : Call) {construct : Construct}
    (hconstruct : construct ≠ .authenticated) :
    construct.pattern.Inert (call.body ++ call.construct.pattern.closing) := by
  obtain ⟨stem, others, hhead, hquote, hparen⟩ :
      ∃ stem others, construct.pattern.head = stem ++ '(' :: others ∧
        '\'' ∉ stem ∧ ')' ∉ stem := by
    cases construct with
    | anyRole => exact ⟨"hasAnyRole".toList, [], rfl, by decide, by decide⟩
    | role => exact ⟨"hasRole".toList, ['\''], rfl, by decide, by decide⟩
    | permission =>
      exact ⟨"hasPermission".toList, ['\''], rfl, by decide, by decide⟩
    | authenticated => exact absurd rfl hconstruct
  have habsent : '(' ∉ call.body := fun hmem => (call.body_plain hmem).1 rfl
  cases call with
  | anyRole first others =>
    exact Pattern.inert_of_absent hhead habsent hparen (by decide)
      (Construct.inert_of_plain (by decide))
  | role name =>
    exact Pattern.inert_of_absent hhead habsent hquote (by decide)
      (Construct.inert_of_plain (by decide))
  | permission name =>
    exact Pattern.inert_of_absent hhead habsent hquote (by decide)
      (Construct.inert_of_plain (by decide))
  | authenticated =>
    exact Construct.inert_of_plain (by decide)

/-- A head disagrees with every end of another head, and with every end but
the whole of its own. -/
theorem Construct.heads_disagree {construct other : Construct}
    {tail : List Char} (htail : tail ≠ []) (h : tail <:+ other.pattern.head)
    (hne : construct = other → tail ≠ other.pattern.head) :
    ¬ construct.pattern.head <+: tail ∧ ¬ tail <+: construct.pattern.head := by
  have hall : ∀ tail ∈ other.pattern.head.tails, tail ≠ [] →
      (construct = other → tail ≠ other.pattern.head) →
      ¬ construct.pattern.head <+: tail ∧ ¬ tail <+: construct.pattern.head := by
    cases construct <;> cases other <;> decide
  exact hall tail ((mem_tails tail _).mpr h) htail hne

theorem Call.inert_text (call : Call) {construct : Construct}
    (hconstruct : construct ≠ .authenticated)
    (hne : construct ≠ call.construct) :
    construct.pattern.Inert call.text :=
  Pattern.Inert.append
    (fun _ hnonempty htail => Construct.heads_disagree hnonempty htail
      fun heq => absurd heq hne)
    (call.inert_inside hconstruct)

theorem Call.exists_inert_rest (call : Call) : ∃ first rest, call.text = first :: rest ∧
      ∀ construct : Construct, construct ≠ .authenticated → construct.pattern.Inert rest := by
  obtain ⟨opening, others, hhead, _⟩ := call.construct.opening
  refine ⟨opening, others ++ (call.body ++ call.construct.pattern.closing),
    by rw [text, Pattern.occurrence, hhead]; rfl, fun construct hconstruct => ?_⟩
  refine Pattern.Inert.append (fun tail hnonempty htail => ?_) (call.inert_inside hconstruct)
  have hsuffix : tail <:+ call.construct.pattern.head :=
    hhead ▸ htail.trans (suffix_cons opening others)
  refine Construct.heads_disagree hnonempty hsuffix fun _ hwhole => ?_
  have hlength := htail.length_le
  rw [hwhole, hhead, length_cons] at hlength
  omega

section Render

variable {Mark : Type}

/-- A text in which some places are given by marks. -/
def render (spell : Mark → List Char) (pieces : List (Char ⊕ Mark)) : List Char :=
  pieces.flatMap (Sum.elim (fun c => [c]) spell)

@[simp] theorem render_nil (spell : Mark → List Char) :
    render spell [] = [] := rfl

@[simp] theorem render_inl (spell : Mark → List Char) (c : Char)
    (pieces : List (Char ⊕ Mark)) :
    render spell (.inl c :: pieces) = c :: render spell pieces := rfl

@[simp] theorem render_inr (spell : Mark → List Char) (mark : Mark)
    (pieces : List (Char ⊕ Mark)) :
    render spell (.inr mark :: pieces) = spell mark ++ render spell pieces :=
  rfl

@[simp] theorem render_append (spell : Mark → List Char)
    (front back : List (Char ⊕ Mark)) :
    render spell (front ++ back) = render spell front ++ render spell back :=
  flatMap_append

@[simp] theorem render_map_inl (spell : Mark → List Char)
    (word : List Char) : render spell (word.map .inl) = word := by
  induction word with
  | nil => rfl
  | cons c word ih => rw [map_cons, render_inl, ih]

end Render

/-- No construct starts at a place which is not known to be one. -/
def Settled : List (Char ⊕ Call) → Prop
  | [] => True
  | .inl c :: pieces =>
    (∀ construct : Construct, ¬ construct.pattern.head <+: c :: render Call.text pieces) ∧
    Settled pieces
  | .inr _ :: pieces => Settled pieces

/-- The calls of the constructs in `done` are replaced by their values. -/
def spellWith (value : Construct → List Char → Bool) (done : List Construct)
    (call : Call) : List Char :=
  if call.construct ∈ done then str (value call.construct call.body)
  else call.text

theorem str_eq_cons (value : Bool) :
    ∃ first rest, str value = first :: rest ∧ (first = 'T' ∨ first = 'F') := by
  cases value with
  | true => exact ⟨'T', _, rfl, .inl rfl⟩
  | false => exact ⟨'F', _, rfl, .inr rfl⟩

/-- A word without the first letters of the marks does not reach into a
mark. -/
theorem prefix_render {value : Construct → List Char → Bool}
    {done : List Construct} {word : List Char} (pieces : List (Char ⊕ Call))
    (hword : ∀ c ∈ word, c ≠ 'T' ∧ c ≠ 'F')
    (h : word <+: render (spellWith value done) pieces) :
    word <+: render Call.text pieces := by
  induction pieces generalizing word with
  | nil => exact h
  | cons piece pieces ih =>
    cases word with
    | nil => exact nil_prefix
    | cons c word =>
      cases piece with
      | inl d =>
        rw [render_inl, cons_prefix_cons] at h ⊢
        exact ⟨h.1, ih
          (fun d hd => hword d (mem_cons_of_mem c hd)) h.2⟩
      | inr call =>
        rw [render_inr, spellWith] at h
        rw [render_inr]
        split at h
        · obtain ⟨first, rest, hfirst, hmark⟩ :=
            str_eq_cons (value call.construct call.body)
          rw [hfirst, cons_append, cons_prefix_cons] at h
          obtain ⟨rfl, _⟩ := h
          have hc := hword c mem_cons_self
          rcases hmark with hmark | hmark
          · exact absurd hmark hc.1
          · exact absurd hmark hc.2
        · obtain hshort | ⟨rest, hrest⟩ :=
            prefix_or_prefix_of_prefix h (prefix_append call.text _)
          · exact hshort.trans (prefix_append _ _)
          · rw [← hrest] at h hword ⊢
            rw [prefix_append_right_inj] at h ⊢
            exact ih (fun d hd =>
              hword d (mem_append_right _ hd)) h

theorem Construct.head_unmarked (construct : Construct) :
    ∀ c ∈ construct.pattern.head, c ≠ 'T' ∧ c ≠ 'F' := by
  cases construct <;> decide

theorem Construct.inert_str (construct : Construct) (value : Bool) :
    construct.pattern.Inert (str value) := by
  refine construct.inert_of_plain ?_
  cases value <;> decide

theorem substitute_render (value : Construct → List Char → Bool)
    (construct : Construct) {done : List Construct}
    (hnew : construct ∉ done)
    (hlast : construct = .authenticated → ∀ other ≠ .authenticated, other ∈ done)
    {pieces : List (Char ⊕ Call)} (h : Settled pieces) :
    substitute value construct (render (spellWith value done) pieces) =
      render (spellWith value (construct :: done)) pieces := by
  induction pieces with
  | nil => rfl
  | cons piece pieces ih =>
    cases piece with
    | inl c =>
      obtain ⟨hc, hpieces⟩ := h
      have hhead : ¬ construct.pattern.head <+: c :: render (spellWith value done) pieces := by
        intro hstart
        exact hc construct (prefix_render (.inl c :: pieces) construct.head_unmarked hstart)
      rw [render_inl, render_inl, substitute,
        Pattern.sub_cons_skip _ (Pattern.matchAt_eq_none hhead)]
      exact congrArg _ (ih hpieces)
    | inr call =>
      specialize ih h
      rw [substitute] at ih ⊢
      rw [render_inr, render_inr]
      by_cases hown : call.construct = construct
      · subst hown
        have hspell : spellWith value done call = call.text := if_neg hnew
        have hmark : spellWith value (call.construct :: done) call =
            str (value call.construct call.body) :=
          if_pos mem_cons_self
        rw [hspell, hmark, Call.text,
          Pattern.sub_occurrence _ call.construct.head_ne_nil call.accepts,
          ih]
      · have hsame : spellWith value (construct :: done) call = spellWith value done call := by
          simp only [spellWith, mem_cons, hown, false_or]
        have hinert : construct.pattern.Inert (spellWith value done call) := by
          rw [spellWith]
          split
          · exact construct.inert_str _
          · next hmissing =>
              refine call.inert_text ?_ (Ne.symm hown)
              rintro rfl
              exact hmissing (hlast rfl _ hown)
        rw [hsame, Pattern.sub_inert _ hinert, ih]

theorem reduce_render (value : Construct → List Char → Bool)
    {pieces : List (Char ⊕ Call)} (h : Settled pieces) :
    reduce value (render Call.text pieces) =
      render (fun call => str (value call.construct call.body)) pieces := by
  have hstart : render Call.text pieces = render (spellWith value []) pieces := rfl
  have hlast : ∀ other ≠ Construct.authenticated,
      other ∈ [Construct.permission, .role, .anyRole] := by
    intro other hother
    cases other with
    | anyRole => decide
    | role => decide
    | permission => decide
    | authenticated => exact absurd rfl hother
  rw [reduce, hstart, substitute_render value .anyRole (by decide) nofun h,
    substitute_render value .role (by decide) nofun h,
    substitute_render value .permission (by decide) nofun h,
    substitute_render value .authenticated (by decide) (fun _ => hlast) h]
  congr 1
  funext call
  refine if_pos ?_
  cases call <;> simp [Call.construct]

end PyFly.Security
