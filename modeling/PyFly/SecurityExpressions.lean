import PyFly.AuthorizationServer
import PyFly.SecurityContext
import PyFly.Library.PatternSubstitution

/-!
# Security expressions

An expression such as `hasRole('ADMIN') and not isAuthenticated` is evaluated
by four substitutions, which replace every construct by its truth value, a
check of the remaining words, and the evaluation of the syntax tree of what is
left.  Texts are lists of characters.
-/

namespace PyFly.Security

open Library

/-- The errors of the security checks.  The last three have the code
`INVALID_EXPRESSION`. -/
inductive SecurityError
  | authenticationRequired
  | insufficientRoles (roles : List String)
  | insufficientPermissions (missing : List String)
  | accessDenied (expression : List Char)
  | invalidExpression (expression : List Char)
  | invalidSyntax
  | unsafeNode
  deriving DecidableEq, Repr

def SecurityError.invalid : SecurityError → Bool
  | .invalidExpression _ | .invalidSyntax | .unsafeNode => true
  | _ => false

/-! ## Substitution of the constructs -/

inductive Construct
  | anyRole
  | role
  | permission
  | authenticated
  deriving DecidableEq, Repr

def Construct.pattern : Construct → Pattern Char
  | .anyRole => .enclosed "hasAnyRole(".toList ')' []
  | .role => .enclosed "hasRole('".toList '\'' [')']
  | .permission => .enclosed "hasPermission('".toList '\'' [')']
  | .authenticated => .literal "isAuthenticated".toList

/-- The regular expression `'([^']+)'`. -/
def argumentPattern : Pattern Char :=
  .enclosed ['\''] '\'' []

def parseStringArgs (args : List Char) : List String :=
  (argumentPattern.findAll args).map String.ofList

/-- `str` of a truth value. -/
def str : Bool → List Char
  | true => "True".toList
  | false => "False".toList

def holds (ctx : SecurityContext) : Construct → List Char → Bool
  | .anyRole, args => ctx.hasAnyRole (parseStringArgs args)
  | .role, name => ctx.hasRole (String.ofList name)
  | .permission, name => ctx.hasPermission (String.ofList name)
  | .authenticated, _ => ctx.isAuthenticated

def substitute (value : Construct → List Char → Bool) (construct : Construct)
    (text : List Char) : List Char :=
  construct.pattern.sub (fun body => str (value construct body)) text

def reduce (value : Construct → List Char → Bool) (expr : List Char) : List Char :=
  substitute value .authenticated (substitute value .permission
      (substitute value .role (substitute value .anyRole expr)))

/-! ## Words -/

inductive Token (Atom : Type)
  | open
  | close
  | and
  | or
  | not
  | atom (value : Atom)
  deriving DecidableEq, Repr

/-- `text.replace("(", " ( ").replace(")", " ) ")` -/
def pad (text : List Char) : List Char :=
  text.flatMap fun c => if c = '(' ∨ c = ')' then [' ', c, ' '] else [c]

def wordsOf (text : List Char) : List (List Char) :=
  (text.splitOnP isSpace).filter fun word => word ≠ []

def strip (text : List Char) : List Char :=
  ((text.dropWhile isSpace).reverse.dropWhile isSpace).reverse

/-- The tokens of `safe_tokens`. -/
def readToken (word : List Char) : Option (Token Bool) :=
  if word = "True".toList then some (.atom true)
  else if word = "False".toList then some (.atom false)
  else if word = "and".toList then some .and
  else if word = "or".toList then some .or
  else if word = "not".toList then some .not
  else if word = "(".toList then some .open
  else if word = ")".toList then some .close
  else none

/-! ## Syntax trees of Python -/

inductive BoolOp
  | and
  | or
  deriving DecidableEq, Repr

inductive PyNode
  | constant (value : Bool)
  | boolOp (op : BoolOp) (values : List PyNode)
  | notOp (operand : PyNode)
  | call (function : PyNode) (arguments : List PyNode)
  | tuple

def blankAllowed (depth : ℕ) (c : Char) : Bool :=
  c = ' ' || c = '\t' || c = '\x0c' || (depth ≠ 0 && (c = '\n' || c = '\r'))

def blanksAllowed : ℕ → List Char → Bool
  | _, [] => true
  | depth, c :: text =>
    if c = '(' then blanksAllowed (depth + 1) text
    else if c = ')' then blanksAllowed (depth - 1) text
    else (!isSpace c || blankAllowed depth c) && blanksAllowed depth text

inductive Level
  | disjunction
  | conjunction
  | inversion
  | primary
  deriving DecidableEq, Repr

def BoolOp.token : BoolOp → Token Bool
  | .and => .and
  | .or => .or

def BoolOp.operand : BoolOp → Level
  | .and => .inversion
  | .or => .conjunction

def joinValues (op : BoolOp) : List PyNode → PyNode
  | [value] => value
  | values => .boolOp op values

mutual

/-- The recursive descent of Python's grammar.  The parser stops with `none`
at a syntax error. -/
def parseLevel : ℕ → Level → List (Token Bool) → Option (PyNode × List (Token Bool))
  | 0, _, _ => none
  | fuel + 1, .disjunction, tokens =>
    (parseOperands fuel .or tokens).map fun (values, rest) =>
      (joinValues .or values, rest)
  | fuel + 1, .conjunction, tokens =>
    (parseOperands fuel .and tokens).map fun (values, rest) =>
      (joinValues .and values, rest)
  | fuel + 1, .inversion, .not :: tokens =>
    (parseLevel fuel .inversion tokens).map fun (operand, rest) =>
      (.notOp operand, rest)
  | fuel + 1, .inversion, tokens => parseLevel fuel .primary tokens
  | fuel + 1, .primary, .atom value :: tokens =>
    parseTrailers fuel (.constant value) tokens
  | fuel + 1, .primary, .open :: .close :: tokens =>
    parseTrailers fuel .tuple tokens
  | fuel + 1, .primary, .open :: tokens =>
    match parseLevel fuel .disjunction tokens with
    | some (inner, .close :: rest) => parseTrailers fuel inner rest
    | _ => none
  | _ + 1, .primary, _ => none

def parseOperands : ℕ → BoolOp → List (Token Bool) → Option (List PyNode × List (Token Bool))
  | 0, _, _ => none
  | fuel + 1, op, tokens =>
    match parseLevel fuel op.operand tokens with
    | none => none
    | some (value, []) => some ([value], [])
    | some (value, token :: rest) =>
      if token = op.token then
        (parseOperands fuel op rest).map fun (values, rest) =>
          (value :: values, rest)
      else some ([value], token :: rest)

def parseTrailers : ℕ → PyNode → List (Token Bool) → Option (PyNode × List (Token Bool))
  | 0, _, _ => none
  | fuel + 1, function, .open :: .close :: tokens =>
    parseTrailers fuel (.call function []) tokens
  | fuel + 1, function, .open :: tokens =>
    match parseLevel fuel .disjunction tokens with
    | some (argument, .close :: rest) =>
      parseTrailers fuel (.call function [argument]) rest
    | _ => none
  | _ + 1, function, tokens => some (function, tokens)

end

def parseFuel (tokens : List (Token Bool)) : ℕ :=
  8 * tokens.length + 1

/-- `ast.parse(text, mode="eval")`, for a text whose parentheses stand
between blanks. -/
def astParse (text : List Char) : Option PyNode :=
  if blanksAllowed 0 text then
    match (wordsOf text).mapM readToken with
    | none => none
    | some tokens =>
      match parseLevel (parseFuel tokens) .disjunction tokens with
      | some (node, []) => some node
      | _ => none
  else none

mutual

/-- All nodes which `ast.walk` yields are of the permitted types. -/
def PyNode.safe : PyNode → Bool
  | .constant _ => true
  | .boolOp _ values => safeAll values
  | .notOp operand => operand.safe
  | .call _ _ => false
  | .tuple => false

def PyNode.safeAll : List PyNode → Bool
  | [] => true
  | value :: values => value.safe && safeAll values

end

mutual

def evalNode : PyNode → Except SecurityError Bool
  | .constant value => .ok value
  | .boolOp .and values => evalAll values
  | .boolOp .or values => evalAny values
  | .notOp operand => (evalNode operand).map fun value => !value
  | .call _ _ => .error .unsafeNode
  | .tuple => .error .unsafeNode

/-- `all(_eval_node(v) for v in values)` -/
def evalAll : List PyNode → Except SecurityError Bool
  | [] => .ok true
  | value :: values =>
    match evalNode value with
    | .error error => .error error
    | .ok true => evalAll values
    | .ok false => .ok false

/-- `any(_eval_node(v) for v in values)` -/
def evalAny : List PyNode → Except SecurityError Bool
  | [] => .ok false
  | value :: values =>
    match evalNode value with
    | .error error => .error error
    | .ok true => .ok true
    | .ok false => evalAny values

end

def safeBoolEval (expr : List Char) : Except SecurityError Bool :=
  match astParse (strip expr) with
  | none => .error .invalidSyntax
  | some node => if node.safe then evalNode node else .error .unsafeNode

def evaluateExpression (expr : List Char) (ctx : SecurityContext) : Except SecurityError Bool :=
  let cleaned := pad (reduce (holds ctx) expr)
  if (wordsOf cleaned).all fun word => (readToken word).isSome then
    safeBoolEval cleaned
  else .error (.invalidExpression expr)

/-! ## Decorators -/

/-- The arguments of `secure`, with empty lists for absent ones. -/
structure SecureRule where
  roles : List String := []
  permissions : List String := []
  expression : List Char := []

def checkExpression (expression : List Char)
    (context : Option SecurityContext) : Except SecurityError Unit :=
  match context with
  | none => .error .authenticationRequired
  | some ctx =>
    match evaluateExpression expression ctx with
    | .error error => .error error
    | .ok true => .ok ()
    | .ok false => .error (.accessDenied expression)

variable {α : Type}

/-- `secure`, around a method with the given outcome. -/
def secure (rule : SecureRule) (context : Option SecurityContext)
    (method : Except SecurityError α) : Except SecurityError α :=
  match context with
  | none => .error .authenticationRequired
  | some ctx =>
    if !ctx.isAuthenticated then .error .authenticationRequired
    else if rule.roles ≠ [] ∧ !ctx.hasAnyRole rule.roles then
      .error (.insufficientRoles rule.roles)
    else
      let missing := rule.permissions.filter fun p => !ctx.hasPermission p
      if missing ≠ [] then .error (.insufficientPermissions missing)
      else if rule.expression ≠ [] then
        match checkExpression rule.expression context with
        | .error error => .error error
        | .ok () => method
      else method

def preAuthorize (expression : List Char) (context : Option SecurityContext)
    (method : Except SecurityError α) : Except SecurityError α :=
  match checkExpression expression context with
  | .error error => .error error
  | .ok () => method

def postAuthorize (expression : List Char) (context : Option SecurityContext)
    (method : Except SecurityError α) : Except SecurityError α :=
  match method with
  | .error error => .error error
  | .ok result =>
    match checkExpression expression context with
    | .error error => .error error
    | .ok () => .ok result

end PyFly.Security
