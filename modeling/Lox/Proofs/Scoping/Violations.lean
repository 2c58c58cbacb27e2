import Lox.Proofs.Scoping.Distance

/-!
# Violations of the rules of scoping

Whether a place of a program breaks a rule can be told from the constructs around it: the scopes,
with the names that they declare before the place, the functions, the classes, and the variable
whose initializer it is in.  Resolution, which carries all of this along while it walks over a
program, notes exactly the places that break a rule, in their order, each at its own token.
-/

namespace Lox

/-! ## Places and what is around them -/

/-- A construct that a place of a program is in. -/
inductive Surrounding where
  /-- A scope, with the names that it declares before the place. -/
  | scope (names : List String)
  | function (role : Role)
  | classBody (hasSuperclass : Bool)
  /-- The value that a variable is initialised with. -/
  | initializer (name : String)
  deriving DecidableEq, Repr

/-- The constructs around a place, innermost first. -/
abbrev Surroundings := List Surrounding

namespace Surroundings

def scopes (around : Surroundings) : List (List String) :=
  around.filterMap fun
    | .scope names => some names
    | _ => none

/-- The role of the innermost function. -/
def role? (around : Surroundings) : Option Role :=
  around.findSome? fun
    | .function role => some role
    | _ => none

/-- Whether the innermost class has a superclass. -/
def hasSuperclass? (around : Surroundings) : Option Bool :=
  around.findSome? fun
    | .classBody hasSuperclass => some hasSuperclass
    | _ => none

/-- The variable whose initializer the place is in. -/
def initialising? : Surroundings → Option String
  | .initializer name :: _ => some name
  | _ => none

@[simp]
def declaring (names : List String) : Surroundings → Surroundings
  | [] => []
  | .scope before :: around => .scope (names ++ before) :: around
  | construct :: around => construct :: declaring names around

end Surroundings

/-- What stands at a place that a rule is about. -/
inductive Subject where
  | declaration (name : Token)
  | read (name : Token)
  | ret (keyword : Token) (hasValue : Bool)
  | self (keyword : Token)
  | super (keyword : Token)
  | superclass (className base : Token)

/-- The token that a violation is noted at. -/
def Subject.token : Subject → Token
  | .declaration name => name
  | .read name => name
  | .ret keyword _ => keyword
  | .self keyword => keyword
  | .super keyword => keyword
  | .superclass _ base => base

/-- A place in a part of a program. -/
structure Site where
  subject : Subject
  /-- The constructs of the part that are around the place. -/
  around : Surroundings := []
  /-- The names that the part declares before the place in the scope that the part stands in. -/
  here : List String := []

namespace Site

/-- The place after the declaration of names. -/
def after (names : List String) (s : Site) : Site :=
  { s with here := s.here ++ names }

/-- The place in a part that is a scope of its own, which declares names from the start. -/
def within (names : List String) (s : Site) : Site :=
  { s with around := s.around ++ [.scope (s.here ++ names)], here := [] }

/-- The place in a construct that is no scope. -/
def inside (construct : Surrounding) (s : Site) : Site :=
  { s with around := s.around ++ [construct] }

/-- The rule that the place breaks, if it breaks one. -/
def problem? (s : Site) : Option Problem :=
  match s.subject with
  | .declaration name =>
    match s.around.scopes with
    | [] => none
    | names :: _ => if name.lexeme ∈ names then some .redeclared else none
  | .read name =>
    match s.around.scopes with
    | [] => none
    | _ :: _ =>
      if s.around.initialising? = some name.lexeme then some .ownInitializer else none
  | .ret _ hasValue =>
    match s.around.role? with
    | none => some .returnOutsideFunction
    | some role => if role = .initializer ∧ hasValue then some .valueFromInitializer else none
  | .self _ => if s.around.hasSuperclass? = none then some .thisOutsideClass else none
  | .super _ =>
    match s.around.hasSuperclass? with
    | none => some .superOutsideClass
    | some hasSuperclass => if hasSuperclass then none else some .superWithoutSuperclass
  | .superclass className base =>
    if base.lexeme = className.lexeme then some .inheritsItself else none

def diagnostic? (s : Site) : Option Diagnostic :=
  s.problem?.map (.atToken s.subject.token)

end Site

/-- The names that a statement declares in the scope that it stands in. -/
def Stmt.declared : Stmt → List Token
  | .var name _ => [name]
  | .function decl => [decl.name]
  | .classDecl name _ _ => [name]
  | .cond _ yes none => yes.declared
  | .cond _ yes (some no) => yes.declared ++ no.declared
  | .loop _ body => body.declared
  | _ => []

def Stmt.declaredNames (s : Stmt) : List String :=
  s.declared.map Token.lexeme

mutual

/-- The places of an expression. -/
def Expr.sites : Expr → List Site
  | .literal _ _ => []
  | .grouping _ inner => inner.sites
  | .unary _ _ right => right.sites
  | .binary _ left _ right => left.sites ++ right.sites
  | .logical _ left _ right => left.sites ++ right.sites
  | .read _ name => [⟨.read name, [], []⟩]
  | .assign _ _ value => value.sites
  | .call _ callee _ arguments => callee.sites ++ argumentSites arguments
  | .get _ object _ => object.sites
  | .set _ object _ value => value.sites ++ object.sites
  | .self _ keyword => [⟨.self keyword, [], []⟩]
  | .super _ keyword _ => [⟨.super keyword, [], []⟩]
  | .missing => []
  | .misplaced _ => []

def argumentSites : List Expr → List Site
  | [] => []
  | argument :: arguments => argument.sites ++ argumentSites arguments

end

/-- The places of parameters, each after the ones before it. -/
def paramSites : List Token → List Site
  | [] => []
  | param :: params =>
    ⟨.declaration param, [], []⟩ :: (paramSites params).map (.after [param.lexeme])

mutual

/-- The places of a statement.  A variable is declared before its initializer, a function before its
body, and a class before its superclass and its methods. -/
def Stmt.sites : Stmt → List Site
  | .expression value => value.sites
  | .print value => value.sites
  | .var name none => [⟨.declaration name, [], []⟩]
  | .var name (some value) =>
      ⟨.declaration name, [], []⟩ ::
        (value.sites.map (.inside (.initializer name.lexeme))).map (.after [name.lexeme])
  | .block body => (bodySites body).map (.within [])
  | .cond condition yes none => condition.sites ++ yes.sites
  | .cond condition yes (some no) =>
      condition.sites ++ yes.sites ++ no.sites.map (.after yes.declaredNames)
  | .loop condition body => condition.sites ++ body.sites
  | .function decl =>
      ⟨.declaration decl.name, [], []⟩ :: (decl.sites .function).map (.after [decl.name.lexeme])
  | .ret keyword none => [⟨.ret keyword false, [], []⟩]
  | .ret keyword (some value) => ⟨.ret keyword true, [], []⟩ :: value.sites
  | .classDecl name none methods =>
      ⟨.declaration name, [], []⟩ ::
        (((methodSites methods).map (.within ["this"])).map (.inside (.classBody false))).map
          (.after [name.lexeme])
  | .classDecl name (some (_, base)) methods =>
      let inMethods :=
        ((methodSites methods).map (Site.within ["this"])).map (Site.within ["super"])
      [⟨.declaration name, [], []⟩, ⟨.superclass name base, [], []⟩] ++
        (⟨.read base, [], []⟩ :: inMethods.map (Site.inside (.classBody true))).map
          (Site.after [name.lexeme])
  | .missing => []
  | .misplaced _ => []

/-- The places of statements, each after the names that the statements before it declare. -/
def bodySites : List Stmt → List Site
  | [] => []
  | stmt :: body => stmt.sites ++ (bodySites body).map (.after stmt.declaredNames)

/-- The parameters and the body of a function are one scope. -/
def FunDecl.sites (role : Role) : FunDecl → List Site
  | .mk _ params body =>
      let inScope :=
        paramSites params ++ (bodySites body).map (Site.after (params.map Token.lexeme))
      (inScope.map (Site.within [])).map (Site.inside (.function role))

def methodSites : List FunDecl → List Site
  | [] => []
  | method :: methods => method.sites (.ofMethod method) ++ methodSites methods

end

/-! ## Places of a part in their surroundings -/

namespace Surroundings

variable (names names' : List String) (around : Surroundings)

@[simp] theorem declaring_nil : around.declaring [] = around := by
  induction around with
  | nil => rfl
  | cons construct around ih => cases construct <;> simp [ih]

theorem declaring_append :
    around.declaring (names ++ names') = (around.declaring names').declaring names := by
  induction around with
  | nil => rfl
  | cons construct around ih => cases construct <;> simp [ih]

theorem scopes_declaring : (around.declaring names).scopes = addNames names around.scopes := by
  induction around with
  | nil => rfl
  | cons construct around ih => cases construct <;> simp_all [scopes, addNames]

@[simp] theorem role?_declaring : (around.declaring names).role? = around.role? := by
  induction around with
  | nil => rfl
  | cons construct around ih => cases construct <;> simp_all [role?]

@[simp] theorem hasSuperclass?_declaring :
    (around.declaring names).hasSuperclass? = around.hasSuperclass? := by
  induction around with
  | nil => rfl
  | cons construct around ih => cases construct <;> simp_all [hasSuperclass?]

@[simp] theorem initialising?_declaring :
    (around.declaring names).initialising? = around.initialising? := by
  rcases around with _ | ⟨construct, around⟩
  · rfl
  · cases construct <;> rfl

end Surroundings

namespace Site

/-- The place in the whole program, if the part stands in these surroundings. -/
def placed (around : Surroundings) (s : Site) : Site :=
  ⟨s.subject, s.around ++ around.declaring s.here, []⟩

def diagnosticIn (around : Surroundings) (s : Site) : Option Diagnostic :=
  (s.placed around).diagnostic?

variable (around : Surroundings) (names : List String)

theorem filterMap_after (sites : List Site) :
    (sites.map (Site.after names)).filterMap (diagnosticIn around) =
      sites.filterMap (diagnosticIn (around.declaring names)) := by
  rw [List.filterMap_map]
  refine List.filterMap_congr fun s _ => ?_
  simp only [Function.comp_apply, diagnosticIn, placed, after, Surroundings.declaring_append]

theorem filterMap_within (sites : List Site) :
    (sites.map (Site.within names)).filterMap (diagnosticIn around) =
      sites.filterMap (diagnosticIn (.scope names :: around)) := by
  rw [List.filterMap_map]
  refine List.filterMap_congr fun s _ => ?_
  simp only [Function.comp_apply, diagnosticIn, placed, within, Surroundings.declaring_nil,
    Surroundings.declaring, List.append_assoc, List.singleton_append]

theorem filterMap_inside (construct : Surrounding) (hconstruct : ∀ names, construct ≠ .scope names)
    (sites : List Site) :
    (sites.map (Site.inside construct)).filterMap (diagnosticIn around) =
      sites.filterMap (diagnosticIn (construct :: around)) := by
  rw [List.filterMap_map]
  refine List.filterMap_congr fun s _ => ?_
  cases construct with
  | scope names => exact absurd rfl (hconstruct names)
  | _ =>
      simp only [Function.comp_apply, diagnosticIn, placed, inside, Surroundings.declaring,
        List.append_assoc, List.singleton_append]

theorem filterMap_bare (subject : Subject) (sites : List Site) :
    (Site.mk subject [] [] :: sites).filterMap (diagnosticIn around) =
      (Site.mk subject around []).diagnostic?.toList ++ sites.filterMap (diagnosticIn around) := by
  have hplaced :
      diagnosticIn around ⟨subject, [], []⟩ = (Site.mk subject around []).diagnostic? := by
    simp only [diagnosticIn, placed, Surroundings.declaring_nil, List.nil_append]
  rw [List.filterMap_cons, hplaced]
  cases (Site.mk subject around []).diagnostic? <;> rfl

end Site

/-! ## Resolution knows the surroundings -/

def Scopes.Initialises (σ : Scopes) (name : String) : Prop :=
  ∃ scope outer, σ = scope :: outer ∧ scope.find? name = some false

/-- Resolution has these scopes open and is in this context. -/
structure Surrounded (c : Context) (σ : Scopes) (around : Surroundings) : Prop where
  lists : σ.Lists around.scopes
  initialises : ∀ name, σ.Initialises name ↔ σ ≠ [] ∧ around.initialising? = some name
  role : c.inFunction = around.role?
  inClass : c.inClass = match around.hasSuperclass? with
    | none => .outside
    | some false => .plain
    | some true => .subclass

/-- As the statements of a program are situated: nothing is being initialised. -/
structure Calm (c : Context) (σ : Scopes) (around : Surroundings) : Prop
    extends Surrounded c σ around where
  calm : around.initialising? = none

theorem Scopes.not_initialises_settle {σ : Scopes} (h : ∀ name, ¬ σ.Initialises name) (t : Token)
    (name : String) : ¬ (σ.settle t).Initialises name := by
  rintro ⟨scope, outer, heq, hname⟩
  cases σ with
  | nil => cases heq
  | cons first σ =>
      obtain rfl := (List.cons.inj heq).1
      simp only [Bindings.find?_set] at hname
      split at hname
      · cases hname
      · exact h name ⟨first, σ, rfl, hname⟩

theorem resolveParams_snd (σ : Scopes) (params : List Token) :
    (resolveParams σ params).2 = params.foldl Scopes.settle σ := by
  induction params generalizing σ with
  | nil => rfl
  | cons param params ih =>
      unfold resolveParams
      exact ih _

section

variable {c : Context} {σ : Scopes} {around : Surroundings}

namespace Calm

theorem not_initialises (h : Calm c σ around) (name : String) : ¬ σ.Initialises name := by
  rw [h.initialises, h.calm]
  exact fun hname => nomatch hname.2

theorem mk' (lists : σ.Lists around.scopes) (calm : around.initialising? = none)
    (settled : ∀ name, ¬ σ.Initialises name) (role : c.inFunction = around.role?)
    (inClass : c.inClass = match around.hasSuperclass? with
      | none => .outside
      | some false => .plain
      | some true => .subclass) : Calm c σ around where
  lists := lists
  initialises name := ⟨fun h => absurd h (settled name), fun h => by rw [calm] at h; cases h.2⟩
  role := role
  inClass := inClass
  calm := calm

theorem settle (h : Calm c σ around) (tokens : List Token) :
    Calm c (tokens.foldl Scopes.settle σ) (around.declaring (tokens.map Token.lexeme)) := by
  refine .mk' ?_ ?_ ?_ ?_ ?_
  · rw [Surroundings.scopes_declaring, ← resolveParams_snd]
    exact h.lists.params tokens
  · rw [Surroundings.initialising?_declaring, h.calm]
  · have hsettled := h.not_initialises
    clear h
    induction tokens generalizing σ with
    | nil => exact hsettled
    | cons t tokens ih => exact ih (Scopes.not_initialises_settle hsettled t)
  · rw [Surroundings.role?_declaring, h.role]
  · rw [Surroundings.hasSuperclass?_declaring, h.inClass]

theorem initializer (h : Calm c σ around) (name : Token) :
    Surrounded c (σ.declare name)
      (.initializer name.lexeme :: around.declaring [name.lexeme]) where
  lists := by
    have hscopes := Surroundings.scopes_declaring [name.lexeme] around
    simp only [Surroundings.scopes, List.filterMap_cons] at hscopes ⊢
    rw [hscopes]
    exact h.lists.declare name
  initialises other := by
    cases σ with
    | nil => simp [Scopes.Initialises, Scopes.declare]
    | cons scope outer =>
        have hother : scope.find? other ≠ some false :=
          fun hfalse => h.not_initialises other ⟨scope, outer, rfl, hfalse⟩
        by_cases hname : name.lexeme = other
        · simp [Scopes.Initialises, Scopes.declare, Surroundings.initialising?, hname]
        · simp [Scopes.Initialises, Scopes.declare, Bindings.find?_set, Surroundings.initialising?,
            hname, hother]
  role := by
    rw [h.role, ← Surroundings.role?_declaring [name.lexeme]]
    rfl
  inClass := by
    rw [h.inClass, ← Surroundings.hasSuperclass?_declaring [name.lexeme]]
    rfl

theorem scope (h : Calm c σ around) {scope : Scope} {names : List String}
    (hnames : ∀ x, scope.binds x = true ↔ x ∈ names)
    (hscope : ∀ name, scope.find? name ≠ some false) :
    Calm c (scope :: σ) (.scope names :: around) := by
  refine .mk' (.cons hnames h.lists) rfl ?_ h.role h.inClass
  rintro name ⟨_, _, heq, hname⟩
  obtain ⟨rfl, rfl⟩ := List.cons.inj heq
  exact hscope name hname

theorem block (h : Calm c σ around) : Calm c ([] :: σ) (.scope [] :: around) :=
  h.scope (fun x => by simp) nofun

theorem function (h : Calm c σ around) (role : Role) :
    Calm { c with inFunction := some role } σ (.function role :: around) :=
  .mk' h.lists rfl h.not_initialises rfl h.inClass

theorem fixture (h : Calm c σ around) (name : String) :
    Calm c ([(name, true)] :: σ) (.scope [name] :: around) := by
  refine h.scope (Scopes.Lists.single name) fun x hx => ?_
  simp only [Bindings.find?] at hx
  split at hx <;> cases hx

theorem methods (h : Calm c σ around) :
    Calm { c with inClass := .plain } (thisScope :: σ)
      (.scope ["this"] :: .classBody false :: around) :=
  have hbody : Calm { c with inClass := .plain } σ (.classBody false :: around) :=
    .mk' h.lists rfl h.not_initialises h.role rfl
  hbody.fixture "this"

theorem submethods (h : Calm c σ around) :
    Calm { c with inClass := .subclass } (thisScope :: superScope :: σ)
      (.scope ["this"] :: .scope ["super"] :: .classBody true :: around) :=
  have hbody : Calm { c with inClass := .subclass } σ (.classBody true :: around) :=
    .mk' h.lists rfl h.not_initialises h.role rfl
  (hbody.fixture "super").fixture "this"

end Calm

/-! ## Single places -/

namespace Surrounded

theorem redeclaration_eq (h : Surrounded c σ around) (name : Token) :
    σ.redeclaration name = (Site.mk (.declaration name) around []).diagnostic?.toList := by
  have hlists := h.lists
  simp only [Site.diagnostic?, Site.problem?]
  generalize around.scopes = ns at hlists
  cases hlists with
  | nil => rfl
  | cons hscope _ =>
      simp only [Scopes.redeclaration, hscope name.lexeme]
      split <;> rfl

theorem prematureRead_eq (h : Surrounded c σ around) (name : Token) :
    σ.prematureRead name = (Site.mk (.read name) around []).diagnostic?.toList := by
  have hlists := h.lists
  have hinitialises := h.initialises name.lexeme
  simp only [Site.diagnostic?, Site.problem?]
  generalize around.scopes = ns at hlists
  cases hlists with
  | nil => rfl
  | cons _ _ =>
      simp only [Scopes.Initialises, List.cons.injEq, ne_eq, reduceCtorEq, not_false_eq_true,
        true_and, existsAndEq] at hinitialises
      simp only [Scopes.prematureRead, hinitialises]
      split <;> rfl

theorem returnProblems_eq (h : Surrounded c σ around) (keyword : Token) (hasValue : Bool) :
    returnProblems keyword hasValue c.inFunction =
      (Site.mk (.ret keyword hasValue) around []).diagnostic?.toList := by
  simp only [h.role, Site.diagnostic?, Site.problem?]
  cases around.role? with
  | none => rfl
  | some role => cases role <;> cases hasValue <;> rfl

theorem superProblems_eq (h : Surrounded c σ around) (keyword : Token) :
    superProblems keyword c.inClass =
      (Site.mk (.super keyword) around []).diagnostic?.toList := by
  simp only [h.inClass, Site.diagnostic?, Site.problem?]
  rcases around.hasSuperclass? with _ | _ | _ <;> rfl

theorem outside_iff (h : Surrounded c σ around) :
    c.inClass = .outside ↔ around.hasSuperclass? = none := by
  rw [h.inClass]
  rcases around.hasSuperclass? with _ | _ | _ <;> simp

end Surrounded

theorem superclassProblems_eq (around : Surroundings) (name base : Token) :
    superclassProblems name base =
      (Site.mk (.superclass name base) around []).diagnostic?.toList := by
  simp only [superclassProblems, Site.diagnostic?, Site.problem?]
  split <;> rfl

/-! ## All places -/

mutual

theorem Expr.problems_eq : ∀ (e : Expr), Surrounded c σ around →
    (e.resolve c σ).problems = e.sites.filterMap (Site.diagnosticIn around)
  | .literal _ _, _ => rfl
  | .grouping _ inner, h => inner.problems_eq h
  | .unary _ _ right, h => right.problems_eq h
  | .binary _ left _ right, h => by
      simp only [Expr.resolve, Expr.sites, Findings.problems_append, List.filterMap_append,
        left.problems_eq h, right.problems_eq h]
  | .logical _ left _ right, h => by
      simp only [Expr.resolve, Expr.sites, Findings.problems_append, List.filterMap_append,
        left.problems_eq h, right.problems_eq h]
  | .read id name, h => by
      simp only [Expr.resolve, resolveRead, Expr.sites, Findings.problems_append,
        Findings.problems_ofProblems, Findings.problems_refer, Site.filterMap_bare,
        List.filterMap_nil, h.prematureRead_eq]
  | .assign _ _ value, h => by
      simp only [Expr.resolve, Expr.sites, Findings.problems_append, Findings.problems_refer,
        List.append_nil, value.problems_eq h]
  | .call _ callee _ arguments, h => by
      simp only [Expr.resolve, Expr.sites, Findings.problems_append, List.filterMap_append,
        callee.problems_eq h, problems_arguments arguments h]
  | .get _ object _, h => object.problems_eq h
  | .set _ object _ value, h => by
      simp only [Expr.resolve, Expr.sites, Findings.problems_append, List.filterMap_append,
        object.problems_eq h, value.problems_eq h]
  | .self _ keyword, h => by
      simp only [Expr.resolve, Expr.sites, Site.filterMap_bare, List.filterMap_nil, List.append_nil,
        h.outside_iff, Site.diagnostic?, Site.problem?]
      split
      · rfl
      · exact Findings.problems_refer _ _ _ _
  | .super _ keyword _, h => by
      simp only [Expr.resolve, Expr.sites, Findings.problems_append, Findings.problems_ofProblems,
        Findings.problems_refer, Site.filterMap_bare, List.filterMap_nil, h.superProblems_eq]
  | .missing, _ => rfl
  | .misplaced _, _ => rfl

theorem problems_arguments : ∀ (es : List Expr), Surrounded c σ around →
    (resolveArguments c σ es).problems = (argumentSites es).filterMap (Site.diagnosticIn around)
  | [], _ => rfl
  | e :: es, h => by
      simp only [resolveArguments, argumentSites, Findings.problems_append, List.filterMap_append,
        e.problems_eq h, problems_arguments es h]

end

theorem problems_params (h : Calm c σ around) (params : List Token) :
    (resolveParams σ params).1.problems =
      (paramSites params).filterMap (Site.diagnosticIn around) := by
  induction params generalizing σ around with
  | nil => rfl
  | cons param params ih =>
      have hmore := ih (h.settle [param])
      simp only [resolveParams, paramSites, Findings.problems_append, Findings.problems_ofProblems,
        Site.filterMap_bare, Site.filterMap_after, h.redeclaration_eq]
      exact congrArg _ hmore

/-- What a statement leaves behind: the names that it declares, and nothing else. -/
theorem Stmt.resolve_after (c : Context) : ∀ (s : Stmt) (σ : Scopes),
    (s.resolve c σ).2 = s.declared.foldl Scopes.settle σ
  | .expression _, _ | .print _, _ | .block _, _ | .missing, _ | .misplaced _, _ => rfl
  | .var _ none, _ | .var _ (some _), _ | .ret _ none, _ | .ret _ (some _), _ => rfl
  | .function _, _ | .classDecl _ none _, _ | .classDecl _ (some (_, _)) _, _ => rfl
  | .cond _ yes none, σ => yes.resolve_after c σ
  | .cond _ yes (some no), σ => by
      simp only [Stmt.resolve, Stmt.declared, List.foldl_append, yes.resolve_after c σ]
      exact no.resolve_after c _
  | .loop _ body, σ => body.resolve_after c σ

theorem Calm.stmt (h : Calm c σ around) (s : Stmt) :
    Calm c (s.resolve c σ).2 (around.declaring s.declaredNames) :=
  s.resolve_after c σ ▸ h.settle s.declared

mutual

theorem Stmt.problems_eq {c : Context} {σ : Scopes} {around : Surroundings} :
    ∀ (s : Stmt), Calm c σ around →
      (s.resolve c σ).1.problems = s.sites.filterMap (Site.diagnosticIn around)
  | .expression value, h => value.problems_eq h.toSurrounded
  | .print value, h => value.problems_eq h.toSurrounded
  | .var name none, h => by
      simp only [Stmt.resolve, Stmt.sites, Findings.problems_ofProblems, Site.filterMap_bare,
        List.filterMap_nil, List.append_nil, h.redeclaration_eq]
  | .var name (some value), h => by
      have hvalue := value.problems_eq (h.initializer name)
      simp only [Stmt.resolve, Stmt.sites, Findings.problems_append, Findings.problems_ofProblems,
        Site.filterMap_bare, Site.filterMap_after, h.redeclaration_eq, hvalue]
      rw [Site.filterMap_inside _ (.initializer name.lexeme) (fun _ => nofun)]
  | .block body, h => by
      simp only [Stmt.resolve, Stmt.sites, Site.filterMap_within, problems_body body h.block]
  | .cond condition yes none, h => by
      simp only [Stmt.resolve, Stmt.sites, Findings.problems_append, List.filterMap_append,
        condition.problems_eq h.toSurrounded, yes.problems_eq h]
  | .cond condition yes (some no), h => by
      simp only [Stmt.resolve, Stmt.sites, Findings.problems_append, List.filterMap_append,
        Site.filterMap_after, condition.problems_eq h.toSurrounded, yes.problems_eq h,
        no.problems_eq (h.stmt yes)]
  | .loop condition body, h => by
      simp only [Stmt.resolve, Stmt.sites, Findings.problems_append, List.filterMap_append,
        condition.problems_eq h.toSurrounded, body.problems_eq h]
  | .function decl, h => by
      have hbody := decl.problems_eq .function (h.settle [decl.name])
      simp only [Stmt.resolve, Stmt.sites, Findings.problems_append, Findings.problems_ofProblems,
        Site.filterMap_bare, Site.filterMap_after, h.redeclaration_eq]
      exact congrArg _ hbody
  | .ret keyword none, h => by
      simp only [Stmt.resolve, Stmt.sites, Findings.problems_ofProblems, Site.filterMap_bare,
        List.filterMap_nil, List.append_nil, h.returnProblems_eq]
  | .ret keyword (some value), h => by
      simp only [Stmt.resolve, Stmt.sites, Findings.problems_append, Findings.problems_ofProblems,
        Site.filterMap_bare, h.returnProblems_eq, value.problems_eq h.toSurrounded]
  | .classDecl name none methods, h => by
      have hmethods := problems_methods methods (h.settle [name]).methods
      simp only [Stmt.resolve, Stmt.sites, Findings.problems_append, Findings.problems_ofProblems,
        Site.filterMap_bare, Site.filterMap_after, h.redeclaration_eq]
      rw [Site.filterMap_inside _ (.classBody false) (fun _ => nofun), Site.filterMap_within]
      exact congrArg _ hmethods
  | .classDecl name (some (id, base)) methods, h => by
      have hdeclared := h.settle [name]
      have hmethods := problems_methods methods hdeclared.submethods
      have hbase := hdeclared.prematureRead_eq base
      simp only [Stmt.resolve, resolveRead, Stmt.sites, Findings.problems_append,
        Findings.problems_ofProblems, Findings.problems_refer, List.cons_append, List.nil_append,
        List.append_nil, List.append_assoc, Site.filterMap_bare, Site.filterMap_after,
        h.redeclaration_eq, superclassProblems_eq around]
      rw [Site.filterMap_inside _ (.classBody true) (fun _ => nofun), Site.filterMap_within,
        Site.filterMap_within]
      exact congrArg₂ (fun read inside => _ ++ (_ ++ (read ++ inside))) hbase hmethods
  | .missing, _ => rfl
  | .misplaced _, _ => rfl

theorem problems_body {c : Context} {σ : Scopes} {around : Surroundings} :
    ∀ (ss : List Stmt), Calm c σ around →
      (resolveBody c σ ss).1.problems = (bodySites ss).filterMap (Site.diagnosticIn around)
  | [], _ => rfl
  | s :: ss, h => by
      simp only [resolveBody, bodySites, Findings.problems_append, List.filterMap_append,
        Site.filterMap_after, s.problems_eq h, problems_body ss (h.stmt s)]

theorem FunDecl.problems_eq {c : Context} {σ : Scopes} {around : Surroundings} :
    ∀ (decl : FunDecl) (role : Role), Calm c σ around →
      (decl.resolve { c with inFunction := some role } σ).problems =
        (decl.sites role).filterMap (Site.diagnosticIn around)
  | .mk _ params body, role, h => by
      have hscope := (h.function role).block
      have hbody := problems_body body (hscope.settle params)
      simp only [FunDecl.resolve, FunDecl.sites, Findings.problems_append, resolveParams_snd, hbody,
        problems_params hscope]
      rw [Site.filterMap_inside _ (.function role) (fun _ => nofun), Site.filterMap_within,
        List.filterMap_append, Site.filterMap_after]

theorem problems_methods {c : Context} {σ : Scopes} {around : Surroundings} :
    ∀ (decls : List FunDecl), Calm c σ around →
      (resolveMethods c σ decls).problems =
        (methodSites decls).filterMap (Site.diagnosticIn around)
  | [], _ => rfl
  | decl :: decls, h => by
      simp only [resolveMethods, methodSites, Findings.problems_append, List.filterMap_append,
        decl.problems_eq (.ofMethod decl) h, problems_methods decls h]

end

end

/-! ## Whole programs -/

/-- Resolution notes exactly the places that break a rule, and after a statement it knows nothing of
what is inside but the names that it declares. -/
theorem resolveProgram_problems (program : List Stmt) :
    let problems := (resolveProgram program).problems
    problems = (bodySites program).filterMap Site.diagnostic? ∧
      (problems = [] ↔ ∀ site ∈ bodySites program, site.problem? = none) ∧
        ∀ c σ s ss, (resolveBody c σ (s :: ss)).1.problems =
          (s.resolve c σ).1.problems ++
            (resolveBody c (s.declared.foldl Scopes.settle σ) ss).1.problems := by
  intro problems
  have hglobals : Calm {} [] [] := .mk' .nil rfl nofun rfl rfl
  have hproblems : problems = (bodySites program).filterMap Site.diagnostic? := by
    refine (problems_body program hglobals).trans (List.filterMap_congr fun site _ => ?_)
    simp only [Site.diagnosticIn, Site.placed, Surroundings.declaring, List.append_nil]
    rfl
  refine ⟨hproblems, ?_, fun c σ s ss => ?_⟩
  · rw [hproblems, List.filterMap_eq_nil_iff]
    refine forall₂_congr fun site _ => ?_
    rw [Site.diagnostic?, Option.map_eq_none_iff]
  · rw [← s.resolve_after c σ]
    rfl

end Lox
