import PyFly.SecurityExpressions

/-!
# The grammar of security expressions

The formulas over a type of atoms are the derivations of the documented
grammar: `not` binds tighter than `and`, and `and` tighter than `or`.  The
parser accepts exactly the words of these formulas, and the tree which it
builds has the meaning of the formula.
-/

namespace PyFly.Security

open List

inductive Formula (Atom : Type) : Level → Type
  | or (left : Formula Atom .conjunction) (right : Formula Atom .disjunction) :
      Formula Atom .disjunction
  | conjunction (operand : Formula Atom .conjunction) : Formula Atom .disjunction
  | and (left : Formula Atom .inversion) (right : Formula Atom .conjunction) :
      Formula Atom .conjunction
  | inversion (operand : Formula Atom .inversion) : Formula Atom .conjunction
  | not (operand : Formula Atom .inversion) : Formula Atom .inversion
  | primary (operand : Formula Atom .primary) : Formula Atom .inversion
  | group (inner : Formula Atom .disjunction) : Formula Atom .primary
  | atom (value : Atom) : Formula Atom .primary

namespace Formula

variable {Atom : Type}

def tokens {level : Level} : Formula Atom level → List (Token Atom)
  | or left right => left.tokens ++ .or :: right.tokens
  | conjunction operand => operand.tokens
  | and left right => left.tokens ++ .and :: right.tokens
  | inversion operand => operand.tokens
  | not operand => .not :: operand.tokens
  | primary operand => operand.tokens
  | group inner => .open :: (inner.tokens ++ [.close])
  | atom value => [.atom value]

def meaning (value : Atom → Bool) {level : Level} : Formula Atom level → Bool
  | or left right => left.meaning value || right.meaning value
  | conjunction operand => operand.meaning value
  | and left right => left.meaning value && right.meaning value
  | inversion operand => operand.meaning value
  | not operand => !operand.meaning value
  | primary operand => operand.meaning value
  | group inner => inner.meaning value
  | atom a => value a

end Formula

/-! ## Completeness of the parser -/

def Level.continuing : Level → List (Token Bool)
  | .disjunction => [.open, .and, .or]
  | .conjunction => [.open, .and]
  | .inversion | .primary => [.open]

def Level.Ends (level : Level) (rest : List (Token Bool)) : Prop :=
  ∀ token ∈ rest.head?, token ∉ level.continuing

variable {rest : List (Token Bool)}

theorem Level.Ends.mono {level level' : Level} (h : level.Ends rest)
    (hsub : level'.continuing ⊆ level.continuing) :
    level'.Ends rest :=
  fun token htoken hmem => h token htoken (hsub hmem)

theorem parseTrailers_ends {fuel : ℕ} (hfuel : 0 < fuel) (node : PyNode)
    (h : Level.primary.Ends rest) :
    parseTrailers fuel node rest = some (node, rest) := by
  obtain ⟨fuel, rfl⟩ := Nat.exists_eq_succ_of_ne_zero hfuel.ne'
  cases rest with
  | nil => simp [parseTrailers]
  | cons token rest =>
    cases token with
    | «open» => exact absurd mem_cons_self (h .open rfl)
    | close => simp [parseTrailers]
    | and => simp [parseTrailers]
    | or => simp [parseTrailers]
    | not => simp [parseTrailers]
    | atom value => simp [parseTrailers]

variable {values : List PyNode}

theorem safe_joinValues (op : BoolOp) :
    (joinValues op values).safe = PyNode.safeAll values := by
  cases values with
  | nil => rfl
  | cons value values =>
    cases values with
    | nil => simp [joinValues, PyNode.safeAll]
    | cons next values => rfl

theorem eval_joinValues_or (h : values ≠ []) :
    evalNode (joinValues .or values) = evalAny values := by
  obtain ⟨value, values, rfl⟩ := exists_cons_of_ne_nil h
  cases values with
  | nil =>
    rw [joinValues, evalAny]
    cases evalNode value with
    | error error => rfl
    | ok value => cases value <;> rfl
  | cons next values => rfl

theorem eval_joinValues_and (h : values ≠ []) :
    evalNode (joinValues .and values) = evalAll values := by
  obtain ⟨value, values, rfl⟩ := exists_cons_of_ne_nil h
  cases values with
  | nil =>
    rw [joinValues, evalAll]
    cases evalNode value with
    | error error => rfl
    | ok value => cases value <;> rfl
  | cons next values => rfl

structure Operands (op : BoolOp) (outcome : Bool) (values : List PyNode) :
    Prop where
  nonempty : values ≠ []
  safe : PyNode.safeAll values
  eval : evalNode (joinValues op values) = .ok outcome

structure Reads (outcome : Bool) (node : PyNode) : Prop where
  safe : node.safe
  eval : evalNode node = .ok outcome

variable {op : BoolOp} {outcome : Bool}

theorem Operands.reads (h : Operands op outcome values) :
    Reads outcome (joinValues op values) :=
  ⟨(safe_joinValues op).trans h.safe, h.eval⟩

variable {node : PyNode}

theorem Operands.single (h : Reads outcome node) : Operands op outcome [node] :=
  ⟨cons_ne_nil node [], by simp [PyNode.safeAll, h.safe], h.eval⟩

theorem Operands.or {left right : Bool} (hnode : Reads left node)
    (hvalues : Operands .or right values) :
    Operands .or (left || right) (node :: values) where
  nonempty := cons_ne_nil node values
  safe := by simp [PyNode.safeAll, hnode.safe, hvalues.safe]
  eval := by
    have hright := hvalues.eval
    rw [eval_joinValues_or hvalues.nonempty] at hright
    rw [eval_joinValues_or (cons_ne_nil node values), evalAny, hnode.eval]
    cases left with
    | true => rfl
    | false => exact hright

theorem Operands.and {left right : Bool} (hnode : Reads left node)
    (hvalues : Operands .and right values) :
    Operands .and (left && right) (node :: values) where
  nonempty := cons_ne_nil node values
  safe := by simp [PyNode.safeAll, hnode.safe, hvalues.safe]
  eval := by
    have hright := hvalues.eval
    rw [eval_joinValues_and hvalues.nonempty] at hright
    rw [eval_joinValues_and (cons_ne_nil node values), evalAll, hnode.eval]
    cases left with
    | true => exact hright
    | false => rfl

def Formula.fuel {level : Level} : Formula Bool level → ℕ
  | .or left right => left.fuel + right.fuel + 2
  | .conjunction operand => operand.fuel + 2
  | .and left right => left.fuel + right.fuel + 1
  | .inversion operand => operand.fuel + 1
  | .not operand => operand.fuel + 1
  | .primary operand => operand.fuel + 1
  | .group inner => inner.fuel + 3
  | .atom _ => 2

def Parsed (fuel : ℕ) (rest : List (Token Bool)) : {level : Level} → Formula Bool level → Prop
  | .disjunction, formula => ∃ values,
      parseOperands fuel .or (formula.tokens ++ rest) = some (values, rest) ∧
        Operands .or (formula.meaning id) values
  | .conjunction, formula => ∃ values,
      parseOperands fuel .and (formula.tokens ++ rest) = some (values, rest) ∧
        Operands .and (formula.meaning id) values
  | .inversion, formula => ∃ node, parseLevel fuel .inversion (formula.tokens ++ rest) =
        some (node, rest) ∧ Reads (formula.meaning id) node
  | .primary, formula => ∃ node,
      parseLevel fuel .primary (formula.tokens ++ rest) = some (node, rest) ∧
        Reads (formula.meaning id) node

theorem Operands.parseLevel_or {fuel : ℕ} {tokens : List (Token Bool)}
    (hparse : parseOperands fuel .or tokens = some (values, rest))
    (hvalues : Operands .or outcome values) :
    ∃ node, parseLevel (fuel + 1) .disjunction tokens = some (node, rest) ∧
      Reads outcome node :=
  ⟨joinValues .or values, by rw [parseLevel, hparse]; rfl, hvalues.reads⟩

theorem Operands.parseLevel_and {fuel : ℕ} {tokens : List (Token Bool)}
    (hparse : parseOperands fuel .and tokens = some (values, rest))
    (hvalues : Operands .and outcome values) :
    ∃ node, parseLevel (fuel + 1) .conjunction tokens = some (node, rest) ∧
      Reads outcome node :=
  ⟨joinValues .and values, by rw [parseLevel, hparse]; rfl, hvalues.reads⟩

theorem parseOperands_last {fuel : ℕ} {tokens : List (Token Bool)}
    (hparse : parseLevel fuel op.operand tokens = some (node, rest))
    (hrest : ∀ token ∈ rest.head?, token ≠ op.token) :
    parseOperands (fuel + 1) op tokens = some ([node], rest) := by
  rw [parseOperands, hparse]
  cases rest with
  | nil => rfl
  | cons token rest => exact if_neg (hrest token rfl)

theorem parseOperands_more {fuel : ℕ} {tokens back : List (Token Bool)}
    (hparse : parseLevel fuel op.operand tokens = some (node, op.token :: back))
    (hback : parseOperands fuel op back = some (values, rest)) :
    parseOperands (fuel + 1) op tokens = some (node :: values, rest) := by
  rw [parseOperands, hparse]
  simp [hback]

theorem Formula.tokens_eq_cons {level : Level} (formula : Formula Bool level) :
    ∃ token tokens, formula.tokens = token :: tokens ∧ token ≠ .close := by
  induction formula with
  | or left right ih _ =>
    obtain ⟨token, tokens, htokens, hne⟩ := ih
    exact ⟨token, _, by rw [Formula.tokens, htokens]; rfl, hne⟩
  | conjunction operand ih => exact ih
  | and left right ih _ =>
    obtain ⟨token, tokens, htokens, hne⟩ := ih
    exact ⟨token, _, by rw [Formula.tokens, htokens]; rfl, hne⟩
  | inversion operand ih => exact ih
  | not operand _ => exact ⟨.not, _, rfl, nofun⟩
  | primary operand ih => exact ih
  | group inner _ => exact ⟨.open, _, rfl, nofun⟩
  | atom value => exact ⟨.atom value, _, rfl, nofun⟩

theorem parseLevel_group {fuel : ℕ} {token : Token Bool}
    {tokens : List (Token Bool)} (htoken : token ≠ .close)
    (hparse : parseLevel fuel .disjunction (token :: tokens) = some (node, .close :: rest)) :
    parseLevel (fuel + 1) .primary (.open :: token :: tokens) =
      parseTrailers fuel node rest := by
  rw [parseLevel, hparse]
  intro back hback
  exact htoken (List.cons.inj hback).1

theorem Parsed.of_formula {level : Level} (formula : Formula Bool level)
    (fuel : ℕ) (hfuel : formula.fuel ≤ fuel) (rest : List (Token Bool))
    (hends : level.Ends rest) : Parsed fuel rest formula := by
  induction formula generalizing fuel rest with
  | or left right ihleft ihright =>
    rw [Formula.fuel] at hfuel
    obtain ⟨fuel, rfl⟩ : ∃ less, fuel = less + 2 := ⟨fuel - 2, by omega⟩
    obtain ⟨leftValues, hparse, hleft⟩ :=
      ihleft fuel (by omega) (.or :: (right.tokens ++ rest))
        (by simp [Level.Ends, Level.continuing])
    obtain ⟨values, hback, hright⟩ :=
      ihright (fuel + 1) (by omega) rest hends
    obtain ⟨node, hnode, hreads⟩ := hleft.parseLevel_and hparse
    refine ⟨node :: values, ?_, Operands.or hreads hright⟩
    rw [Formula.tokens, append_assoc, cons_append]
    exact parseOperands_more hnode hback
  | conjunction operand ih =>
    rw [Formula.fuel] at hfuel
    obtain ⟨fuel, rfl⟩ : ∃ less, fuel = less + 2 := ⟨fuel - 2, by omega⟩
    obtain ⟨values, hparse, hvalues⟩ :=
      ih fuel (by omega) rest
        (hends.mono (by simp [Level.continuing]))
    obtain ⟨node, hnode, hreads⟩ := hvalues.parseLevel_and hparse
    refine ⟨[node], ?_, .single hreads⟩
    refine parseOperands_last hnode fun token htoken heq => ?_
    exact hends token htoken (by simp [heq, BoolOp.token, Level.continuing])
  | and left right ihleft ihright =>
    rw [Formula.fuel] at hfuel
    obtain ⟨fuel, rfl⟩ : ∃ less, fuel = less + 1 := ⟨fuel - 1, by omega⟩
    obtain ⟨node, hparse, hleft⟩ :=
      ihleft fuel (by omega) (.and :: (right.tokens ++ rest))
        (by simp [Level.Ends, Level.continuing])
    obtain ⟨values, hback, hright⟩ :=
      ihright fuel (by omega) rest hends
    refine ⟨node :: values, ?_, Operands.and hleft hright⟩
    rw [Formula.tokens, append_assoc, cons_append]
    exact parseOperands_more hparse hback
  | inversion operand ih =>
    rw [Formula.fuel] at hfuel
    obtain ⟨fuel, rfl⟩ : ∃ less, fuel = less + 1 := ⟨fuel - 1, by omega⟩
    obtain ⟨node, hparse, hreads⟩ :=
      ih fuel (by omega) rest
        (hends.mono (by simp [Level.continuing]))
    refine ⟨[node], ?_, .single hreads⟩
    refine parseOperands_last hparse fun token htoken heq => ?_
    exact hends token htoken (by simp [heq, BoolOp.token, Level.continuing])
  | not operand ih =>
    rw [Formula.fuel] at hfuel
    obtain ⟨fuel, rfl⟩ : ∃ less, fuel = less + 1 := ⟨fuel - 1, by omega⟩
    obtain ⟨node, hparse, hsafe, heval⟩ :=
      ih fuel (by omega) rest hends
    refine ⟨.notOp node, ?_, hsafe, ?_⟩
    · rw [Formula.tokens, cons_append, parseLevel, hparse]
      rfl
    · rw [evalNode, heval]
      rfl
  | primary operand ih =>
    rw [Formula.fuel] at hfuel
    obtain ⟨fuel, rfl⟩ : ∃ less, fuel = less + 1 := ⟨fuel - 1, by omega⟩
    obtain ⟨node, hparse, hreads⟩ :=
      ih fuel (by omega) rest hends
    refine ⟨node, ?_, hreads⟩
    rw [Formula.tokens, parseLevel, hparse]
    cases operand with
    | group inner => exact nofun
    | atom value => exact nofun
  | group inner ih =>
    rw [Formula.fuel] at hfuel
    obtain ⟨fuel, rfl⟩ : ∃ less, fuel = less + 2 := ⟨fuel - 2, by omega⟩
    obtain ⟨values, hparse, hvalues⟩ :=
      ih fuel (by omega) (.close :: rest)
        (by simp [Level.Ends, Level.continuing])
    obtain ⟨node, hnode, hreads⟩ := hvalues.parseLevel_or hparse
    refine ⟨node, ?_, hreads⟩
    obtain ⟨token, tokens, htokens, hne⟩ := inner.tokens_eq_cons
    rw [htokens, cons_append] at hnode
    rw [Formula.tokens, cons_append, append_assoc, htokens]
    show parseLevel _ _ (.open :: token :: (tokens ++ .close :: rest)) = _
    rw [parseLevel_group hne hnode, parseTrailers_ends (Nat.succ_pos fuel) node hends]
  | atom value =>
    rw [Formula.fuel] at hfuel
    obtain ⟨fuel, rfl⟩ : ∃ less, fuel = less + 2 := ⟨fuel - 2, by omega⟩
    refine ⟨.constant value, ?_, rfl, rfl⟩
    show parseLevel _ _ (.atom value :: rest) = _
    rw [parseLevel, parseTrailers_ends (Nat.succ_pos fuel) _ hends]

/-! ## Soundness of the parser -/

theorem eq_of_parseTrailers {fuel : ℕ} {function : PyNode} {tokens : List (Token Bool)}
    (h : parseTrailers fuel function tokens = some (node, rest))
    (hsafe : node.safe) : node = function ∧ rest = tokens := by
  induction fuel generalizing function tokens with
  | zero => cases h
  | succ fuel ih =>
    rw [parseTrailers.eq_def] at h
    split at h
    · cases h
    · next heq =>
        obtain rfl := Nat.succ.inj heq
        obtain ⟨rfl, _⟩ := ih h
        cases hsafe
    · next heq =>
        obtain rfl := Nat.succ.inj heq
        split at h
        · obtain ⟨rfl, _⟩ := ih h
          cases hsafe
        · cases h
    · obtain ⟨hnode, hrest⟩ := Prod.mk.inj (Option.some.inj h)
      exact ⟨hnode.symm, hrest.symm⟩

def BoolOp.level : BoolOp → Level
  | .and => .conjunction
  | .or => .disjunction

theorem formula_of_operand {tokens : List (Token Bool)}
    (h : ∃ formula : Formula Bool op.operand, tokens = formula.tokens ++ rest) :
    ∃ formula : Formula Bool op.level, tokens = formula.tokens ++ rest := by
  obtain ⟨formula, rfl⟩ := h
  cases op with
  | and => exact ⟨.inversion formula, rfl⟩
  | or => exact ⟨.conjunction formula, rfl⟩

theorem formula_of_operands {tokens : List (Token Bool)}
    (left : Formula Bool op.operand) (right : Formula Bool op.level)
    (h : tokens = left.tokens ++ op.token :: (right.tokens ++ rest)) :
    ∃ formula : Formula Bool op.level, tokens = formula.tokens ++ rest := by
  obtain rfl := h
  cases op with
  | and =>
    exact ⟨.and left right, (append_assoc _ (.and :: right.tokens) _).symm⟩
  | or =>
    exact ⟨.or left right, (append_assoc _ (.or :: right.tokens) _).symm⟩

theorem formula_of_parse (fuel : ℕ) : (∀ level tokens node rest,
      parseLevel fuel level tokens = some (node, rest) → node.safe →
      ∃ formula : Formula Bool level, tokens = formula.tokens ++ rest) ∧
    ∀ (op : BoolOp) tokens values rest, parseOperands fuel op tokens = some (values, rest) →
      PyNode.safeAll values →
      ∃ formula : Formula Bool op.level, tokens = formula.tokens ++ rest := by
  induction fuel with
  | zero => exact ⟨nofun, nofun⟩
  | succ fuel ih =>
    obtain ⟨ihlevel, ihoperands⟩ := ih
    constructor
    · intro level tokens node rest h hsafe
      cases level with
      | disjunction =>
        rw [parseLevel, Option.map_eq_some_iff] at h
        obtain ⟨⟨values, back⟩, hparse, heq⟩ := h
        obtain ⟨rfl, rfl⟩ := Prod.mk.inj heq
        exact ihoperands .or tokens values back hparse ((safe_joinValues .or).symm.trans hsafe)
      | conjunction =>
        rw [parseLevel, Option.map_eq_some_iff] at h
        obtain ⟨⟨values, back⟩, hparse, heq⟩ := h
        obtain ⟨rfl, rfl⟩ := Prod.mk.inj heq
        exact ihoperands .and tokens values back hparse
          ((safe_joinValues .and).symm.trans hsafe)
      | inversion =>
        by_cases hnot : ∃ back, tokens = .not :: back
        · obtain ⟨back, rfl⟩ := hnot
          rw [parseLevel, Option.map_eq_some_iff] at h
          obtain ⟨⟨operand, back⟩, hparse, heq⟩ := h
          obtain ⟨rfl, rfl⟩ := Prod.mk.inj heq
          obtain ⟨formula, rfl⟩ :=
            ihlevel .inversion _ operand back hparse hsafe
          exact ⟨.not formula, rfl⟩
        · rw [parseLevel] at h
          · obtain ⟨formula, rfl⟩ :=
              ihlevel .primary tokens node rest h hsafe
            exact ⟨.primary formula, rfl⟩
          · exact fun back heq => hnot ⟨back, heq⟩
      | primary =>
        rw [parseLevel.eq_def] at h
        split at h
        case h_6 value back heq _ =>
          obtain rfl := Nat.succ.inj heq
          obtain ⟨_, rfl⟩ := eq_of_parseTrailers h hsafe
          exact ⟨.atom value, rfl⟩
        case h_7 back heq _ =>
          obtain ⟨rfl, _⟩ := eq_of_parseTrailers h hsafe
          cases hsafe
        case h_8 back _ heq _ =>
          obtain rfl := Nat.succ.inj heq
          split at h
          · next inner back hparse =>
              obtain ⟨rfl, rfl⟩ := eq_of_parseTrailers h hsafe
              obtain ⟨formula, rfl⟩ :=
                ihlevel .disjunction _ node _ hparse hsafe
              refine ⟨.group formula, ?_⟩
              simp [Formula.tokens]
          · cases h
        all_goals contradiction
    · intro op tokens values rest h hsafe
      rw [parseOperands] at h
      split at h
      · cases h
      · next node hparse =>
          obtain ⟨rfl, rfl⟩ := Prod.mk.inj (Option.some.inj h)
          exact formula_of_operand (ihlevel _ _ _ _ hparse (by
            simpa [PyNode.safeAll] using hsafe))
      · next node token back hparse =>
          split at h
          · next htoken =>
              obtain ⟨⟨others, last⟩, hback, heq⟩ :=
                Option.map_eq_some_iff.mp h
              obtain ⟨rfl, rfl⟩ := Prod.mk.inj heq
              obtain ⟨hnode, hothers⟩ : node.safe ∧ PyNode.safeAll others :=
                by simpa [PyNode.safeAll] using hsafe
              obtain ⟨left, hleft⟩ := ihlevel _ _ _ _ hparse hnode
              obtain ⟨right, rfl⟩ := ihoperands _ _ _ _ hback hothers
              rw [htoken] at hleft
              exact formula_of_operands left right hleft
          · obtain ⟨rfl, rfl⟩ := Prod.mk.inj (Option.some.inj h)
            exact formula_of_operand (ihlevel _ _ _ _ hparse (by
              simpa [PyNode.safeAll] using hsafe))

def Level.spare : Level → ℕ
  | .disjunction => 2
  | .conjunction => 4
  | .inversion => 5
  | .primary => 6

theorem Formula.fuel_le {level : Level} (formula : Formula Bool level) :
    formula.fuel + level.spare ≤ 8 * formula.tokens.length := by
  induction formula with
  | or left right ihleft ihright =>
    simp only [fuel, tokens, Level.spare, length_append, length_cons] at *
    omega
  | conjunction operand ih =>
    simp only [fuel, tokens, Level.spare] at *
    omega
  | and left right ihleft ihright =>
    simp only [fuel, tokens, Level.spare, length_append, length_cons] at *
    omega
  | inversion operand ih =>
    simp only [fuel, tokens, Level.spare] at *
    omega
  | not operand ih =>
    simp only [fuel, tokens, Level.spare, length_cons] at *
    omega
  | primary operand ih =>
    simp only [fuel, tokens, Level.spare] at *
    omega
  | group inner ih =>
    simp only [fuel, tokens, Level.spare, length_append, length_cons, length_nil] at *
    omega
  | atom value => exact le_refl 8

theorem parseLevel_tokens (formula : Formula Bool .disjunction) :
    ∃ node, parseLevel (parseFuel formula.tokens) .disjunction
      formula.tokens = some (node, []) ∧ Reads (formula.meaning id) node := by
  obtain ⟨values, hparse, hvalues⟩ :=
    Parsed.of_formula formula (8 * formula.tokens.length)
      (Nat.le_of_add_right_le formula.fuel_le) [] nofun
  rw [append_nil] at hparse
  exact hvalues.parseLevel_or hparse

end PyFly.Security
