import Lox.Proofs.Scoping.Acceptance
import Lox.Proofs.Simulation.Run

/-!
# Lexical distance

Where a name is declared can be told from the text alone.  A reference stands in a row of scopes, and
each of them declares some names before the reference.  Its distance is the number of scopes inside the
innermost one that declares its name.  Resolution, which keeps a stack of open scopes while it walks
over a program, finds exactly these distances.
-/

namespace Lox

/-! ## References and the scopes around them -/

/-- A reference in a part of a program. -/
structure Occurrence where
  id : NodeId
  kind : ReferenceKind
  name : Token
  /-- The scopes of the part that are around the reference, innermost first.  Of each, the names that it
  declares before the reference. -/
  scopes : List (List String) := []
  /-- The names that the part declares before the reference in the scope that the part stands in. -/
  here : List String := []

namespace Occurrence

/-- The reference after the declaration of names. -/
def after (names : List String) (o : Occurrence) : Occurrence :=
  { o with here := o.here ++ names }

/-- The reference in a part that is a scope of its own, which declares names from the start. -/
def within (names : List String) (o : Occurrence) : Occurrence :=
  { o with scopes := o.scopes ++ [o.here ++ names], here := [] }

/-- The number of scopes strictly inside the innermost one that declares the name. -/
def distance? (o : Occurrence) : Option Nat :=
  o.scopes.findIdx? fun names => decide (o.name.lexeme ∈ names)

/-- The reference with its distance, if it has one. -/
def reference? (o : Occurrence) : Option Reference :=
  o.distance?.map fun hops => ⟨o.id, o.kind, o.name, hops⟩

end Occurrence

/-- The names that a statement declares in the scope that it stands in. -/
def Stmt.names : Stmt → List String
  | .var name _ => [name.lexeme]
  | .function decl => [decl.name.lexeme]
  | .classDecl name _ _ => [name.lexeme]
  | _ => []

mutual

/-- The references of an expression.  A value is looked at before what it is assigned to. -/
def Expr.occurrences : Expr → List Occurrence
  | .literal _ _ => []
  | .grouping _ inner => inner.occurrences
  | .unary _ _ right => right.occurrences
  | .binary _ left _ right => left.occurrences ++ right.occurrences
  | .logical _ left _ right => left.occurrences ++ right.occurrences
  | .read id name => [⟨id, .read, name, [], []⟩]
  | .assign id name value => value.occurrences ++ [⟨id, .assign, name, [], []⟩]
  | .call _ callee _ arguments => callee.occurrences ++ argumentOccurrences arguments
  | .get _ object _ => object.occurrences
  | .set _ object _ value => value.occurrences ++ object.occurrences
  | .self id keyword => [⟨id, .self, keyword, [], []⟩]
  | .super id keyword _ => [⟨id, .super, keyword, [], []⟩]
  | .missing => []
  | .misplaced _ => []

def argumentOccurrences : List Expr → List Occurrence
  | [] => []
  | argument :: arguments => argument.occurrences ++ argumentOccurrences arguments

end

mutual

/-- The references of a statement.  A variable is declared before its initializer, a function before its
body, and a class before its superclass and its methods. -/
def Stmt.occurrences : Stmt → List Occurrence
  | .expression value => value.occurrences
  | .print value => value.occurrences
  | .var _ none => []
  | .var name (some value) => value.occurrences.map (.after [name.lexeme])
  | .block body => (bodyOccurrences body).map (.within [])
  | .cond condition yes none => condition.occurrences ++ yes.occurrences
  | .cond condition yes (some no) => condition.occurrences ++ yes.occurrences ++ no.occurrences
  | .loop condition body => condition.occurrences ++ body.occurrences
  | .function decl => decl.occurrences.map (.after [decl.name.lexeme])
  | .ret _ none => []
  | .ret _ (some value) => value.occurrences
  | .classDecl name none methods =>
      ((methodOccurrences methods).map (.within ["this"])).map (.after [name.lexeme])
  | .classDecl name (some (id, superclass)) methods =>
      let inMethods := (methodOccurrences methods).map (Occurrence.within ["this"])
      ([Occurrence.mk id .read superclass [] []] ++
        inMethods.map (Occurrence.within ["super"])).map (.after [name.lexeme])
  | .missing => []
  | .misplaced _ => []

/-- The references of statements, each after the names that the statements before it declare. -/
def bodyOccurrences : List Stmt → List Occurrence
  | [] => []
  | stmt :: body => stmt.occurrences ++ (bodyOccurrences body).map (.after stmt.names)

/-- The parameters and the body of a function are one scope. -/
def FunDecl.occurrences : FunDecl → List Occurrence
  | .mk _ params body =>
      (bodyOccurrences body).map (.within (params.map Token.lexeme))

def methodOccurrences : List FunDecl → List Occurrence
  | [] => []
  | method :: methods => method.occurrences ++ methodOccurrences methods

end

/-! ## Scopes that are open -/

/-- The names that open scopes declare. -/
def Scopes.Lists (σ : Scopes) (ns : List (List String)) : Prop :=
  List.Forall₂ (fun (scope : Scope) names => ∀ x, scope.binds x = true ↔ x ∈ names) σ ns

def addNames (names : List String) : List (List String) → List (List String)
  | [] => []
  | scope :: outer => (names ++ scope) :: outer

namespace Scopes.Lists

variable {σ : Scopes} {ns : List (List String)}

theorem hops?_eq (h : σ.Lists ns) (x : String) :
    σ.hops? x = ns.findIdx? fun names => decide (x ∈ names) := by
  induction h with
  | nil => rfl
  | @cons scope names σ ns hscope _ ih =>
      rw [Scopes.hops?_cons, List.findIdx?_cons, ih]
      simp only [hscope x, decide_eq_true_eq]

theorem set {scope : Scope} {names : List String} (h : ∀ x, scope.binds x = true ↔ x ∈ names)
    (name : String) (b : Bool) (x : String) :
    (scope.set name b).binds x = true ↔ x ∈ name :: names := by
  rw [Bindings.binds_set, Bool.or_eq_true, decide_eq_true_eq, h x, List.mem_cons]
  exact or_congr_left eq_comm

theorem single (name x : String) : Bindings.binds [(name, true)] x = true ↔ x ∈ [name] :=
  have hnone : ∀ y, Bindings.binds ([] : Scope) y = true ↔ y ∈ ([] : List String) := by simp
  set hnone name true x

theorem declare (h : σ.Lists ns) (name : Token) :
    (σ.declare name).Lists (addNames [name.lexeme] ns) := by
  cases h with
  | nil => exact .nil
  | cons hscope houter => exact .cons (set hscope name.lexeme false) houter

theorem settle (h : σ.Lists ns) (name : Token) :
    (σ.settle name).Lists (addNames [name.lexeme] ns) := by
  cases h with
  | nil => exact .nil
  | cons hscope houter =>
      refine .cons (fun x => ?_) houter
      rw [set (set hscope name.lexeme false) name.lexeme true]
      simp

theorem params (h : σ.Lists ns) (names : List Token) :
    (resolveParams σ names).2.Lists (addNames (names.map Token.lexeme) ns) := by
  induction names generalizing σ ns with
  | nil =>
      cases h with
      | nil => exact .nil
      | cons hscope houter => exact .cons hscope houter
  | cons name names ih =>
      have hrest := ih (h.settle name)
      unfold resolveParams
      change (resolveParams (σ.settle name) names).2.Lists _
      cases h with
      | nil => exact hrest
      | cons _ _ =>
          generalize (resolveParams _ names).2 = σ' at hrest ⊢
          cases hrest with
          | cons hscope houter =>
              refine .cons (fun x => (hscope x).trans ?_) houter
              simp [or_left_comm]

end Scopes.Lists

/-! ## Resolution -/

namespace Occurrence

/-- The distance of a reference in a part that stands in scopes with these names. -/
def distanceIn (ns : List (List String)) (o : Occurrence) : Option Nat :=
  match ns with
  | [] => o.distance?
  | scope :: outer =>
      (o.scopes ++ (o.here ++ scope) :: outer).findIdx? fun names => decide (o.name.lexeme ∈ names)

def referenceIn (ns : List (List String)) (o : Occurrence) : Option Reference :=
  (o.distanceIn ns).map fun hops => ⟨o.id, o.kind, o.name, hops⟩

variable (ns : List (List String)) (names : List String)

theorem referenceIn_after (o : Occurrence) :
    (o.after names).referenceIn ns = o.referenceIn (addNames names ns) := by
  cases ns with
  | nil => rfl
  | cons scope outer =>
      simp only [referenceIn, distanceIn, after, addNames, List.append_assoc]
      rfl

theorem referenceIn_within (o : Occurrence) :
    (o.within names).referenceIn ns = o.referenceIn (names :: ns) := by
  cases ns with
  | nil => rfl
  | cons scope outer =>
      simp only [referenceIn, distanceIn, within, List.append_assoc, List.nil_append,
        List.cons_append]
      rfl

theorem filterMap_after (os : List Occurrence) :
    (os.map (Occurrence.after names)).filterMap (Occurrence.referenceIn ns) =
      os.filterMap (Occurrence.referenceIn (addNames names ns)) := by
  rw [List.filterMap_map]
  exact List.filterMap_congr fun o _ => o.referenceIn_after ns names

theorem filterMap_within (os : List Occurrence) :
    (os.map (Occurrence.within names)).filterMap (Occurrence.referenceIn ns) =
      os.filterMap (Occurrence.referenceIn (names :: ns)) := by
  rw [List.filterMap_map]
  exact List.filterMap_congr fun o _ => o.referenceIn_within ns names

end Occurrence

/-- The scopes that are open in a context.  Only classes declare `this`. -/
structure Listed (c : Context) (σ : Scopes) (ns : List (List String)) : Prop where
  lists : σ.Lists ns
  this : c.inClass = .outside → ∀ names ∈ ns, "this" ∉ names

section

variable {c : Context} {σ : Scopes} {ns : List (List String)}

theorem not_mem_addNames {names : List String} {x : String} (hnames : x ∉ names)
    (h : ∀ scope ∈ ns, x ∉ scope) : ∀ scope ∈ addNames names ns, x ∉ scope := by
  cases ns with
  | nil => exact nofun
  | cons scope outer =>
      refine List.forall_mem_cons.mpr ⟨fun hx => ?_, fun s hs => h s (List.mem_cons_of_mem _ hs)⟩
      exact (List.mem_append.mp hx).elim hnames (h scope List.mem_cons_self)

namespace Listed

theorem declare (h : Listed c σ ns) {name : Token} (hname : name.Plain) :
    Listed c (σ.declare name) (addNames [name.lexeme] ns) :=
  ⟨h.lists.declare name, fun hc => not_mem_addNames (by simpa using hname.1.symm) (h.this hc)⟩

theorem settle (h : Listed c σ ns) {name : Token} (hname : name.Plain) :
    Listed c (σ.settle name) (addNames [name.lexeme] ns) :=
  ⟨h.lists.settle name, fun hc => not_mem_addNames (by simpa using hname.1.symm) (h.this hc)⟩

theorem block (h : Listed c σ ns) : Listed c ([] :: σ) ([] :: ns) :=
  ⟨.cons (fun x => by simp) h.lists, fun hc => List.forall_mem_cons.mpr ⟨nofun, h.this hc⟩⟩

theorem params (h : Listed c σ ns) {params : List Token} (hparams : ∀ p ∈ params, p.Plain) :
    Listed c (resolveParams ([] :: σ) params).2 (params.map Token.lexeme :: ns) := by
  have hlists := h.block.lists.params params
  simp only [addNames, List.append_nil] at hlists
  refine ⟨hlists, fun hc => List.forall_mem_cons.mpr ⟨fun hmem => ?_, h.this hc⟩⟩
  obtain ⟨p, hp, hlexeme⟩ := List.mem_map.mp hmem
  exact (hparams p hp).1 hlexeme

theorem inFunction (h : Listed c σ ns) (role : Option Role) :
    Listed { c with inFunction := role } σ ns :=
  ⟨h.lists, h.this⟩

theorem methods (h : Listed c σ ns) :
    Listed { c with inClass := .plain } (thisScope :: σ) (["this"] :: ns) :=
  ⟨.cons (Scopes.Lists.single "this") h.lists, nofun⟩

theorem submethods (h : Listed c σ ns) :
    Listed { c with inClass := .subclass } (thisScope :: superScope :: σ)
      (["this"] :: ["super"] :: ns) :=
  ⟨.cons (Scopes.Lists.single "this") (.cons (Scopes.Lists.single "super") h.lists), nofun⟩

end Listed

theorem references_refer (h : σ.Lists ns) (id : NodeId) (kind : ReferenceKind) (name : Token) :
    (Findings.refer σ id kind name).references =
      [Occurrence.mk id kind name [] []].filterMap (Occurrence.referenceIn ns) := by
  have hdistance : (Occurrence.mk id kind name [] []).distanceIn ns = σ.hops? name.lexeme := by
    rw [h.hops?_eq]
    cases ns <;> rfl
  unfold Findings.refer
  simp only [List.filterMap_cons, List.filterMap_nil, Occurrence.referenceIn, hdistance]
  cases σ.hops? name.lexeme <;> rfl

mutual

theorem Expr.references_eq : ∀ {e : Expr}, e.Formed → Listed c σ ns →
    (e.resolve c σ).references = e.occurrences.filterMap (Occurrence.referenceIn ns)
  | .literal _ _, _, _ => rfl
  | .grouping _ inner, he, h => inner.references_eq he h
  | .unary _ _ right, he, h => right.references_eq he.2 h
  | .binary _ left _ right, he, h => by
      simp only [Expr.resolve, Expr.occurrences, Findings.references_append, List.filterMap_append,
        left.references_eq he.2.1 h, right.references_eq he.2.2 h]
  | .logical _ left _ right, he, h => by
      simp only [Expr.resolve, Expr.occurrences, Findings.references_append, List.filterMap_append,
        left.references_eq he.1 h, right.references_eq he.2 h]
  | .read id name, _, h => by
      simp only [Expr.resolve, resolveRead, Expr.occurrences, Findings.references_append,
        Findings.references_ofProblems, List.nil_append, references_refer h.lists]
  | .assign id name value, he, h => by
      simp only [Expr.resolve, Expr.occurrences, Findings.references_append, List.filterMap_append,
        value.references_eq he.2 h, references_refer h.lists]
  | .call _ callee _ arguments, he, h => by
      simp only [Expr.resolve, Expr.occurrences, Findings.references_append, List.filterMap_append,
        callee.references_eq he.1 h, references_arguments he.2 h]
  | .get _ object _, he, h => object.references_eq he h
  | .set _ object _ value, he, h => by
      simp only [Expr.resolve, Expr.occurrences, Findings.references_append, List.filterMap_append,
        object.references_eq he.1 h, value.references_eq he.2 h]
  | .self id keyword, he, h => by
      simp only [Expr.resolve, Expr.occurrences]
      split
      · next houtside =>
          have hglobal : σ.hops? keyword.lexeme = none := by
            rw [h.lists.hops?_eq, List.findIdx?_eq_none_iff]
            intro names hnames
            have hkeyword : keyword.lexeme = "this" := he
            exact decide_eq_false (hkeyword ▸ h.this houtside names hnames)
          rw [← references_refer h.lists, Findings.references_ofProblems]
          unfold Findings.refer
          rw [hglobal]
      · exact references_refer h.lists id .self keyword
  | .super id keyword _, _, h => by
      simp only [Expr.resolve, Expr.occurrences, Findings.references_append,
        Findings.references_ofProblems, List.nil_append, references_refer h.lists]
  | .missing, he, _ => he.elim
  | .misplaced _, he, _ => he.elim

theorem references_arguments : ∀ {es : List Expr}, argumentsFormed es → Listed c σ ns →
    (resolveArguments c σ es).references = (argumentOccurrences es).filterMap (Occurrence.referenceIn ns)
  | [], _, _ => rfl
  | e :: es, he, h => by
      simp only [resolveArguments, argumentOccurrences, Findings.references_append,
        List.filterMap_append, e.references_eq he.1 h, references_arguments he.2 h]

end

theorem Stmt.lists_snd {s : Stmt} (hs : s.Formed) (h : σ.Lists ns) :
    (s.resolve c σ).2.Lists (addNames s.names ns) := by
  by_cases hdeclares : s.declares = false
  · have hnone : addNames s.names ns = ns := by
      have hnames : s.names = [] := by
        cases s <;> first | rfl | cases hdeclares
      rw [hnames]
      cases ns <;> rfl
    rw [s.resolve_snd hs hdeclares, hnone]
    exact h
  · cases s with
    | var name initial =>
        cases initial with
        | none => exact h.settle name
        | some value => exact h.settle name
    | function decl => exact h.settle decl.name
    | classDecl name base methods =>
        cases base with
        | none => exact h.settle name
        | some base => exact h.settle name
    | _ => exact absurd rfl hdeclares

theorem Stmt.this_not_mem_names {s : Stmt} (hs : s.Formed) : "this" ∉ s.names := by
  have hplain : ∀ {name : Token}, name.Plain → "this" ∉ [name.lexeme] := by
    intro name hname
    simpa using hname.1.symm
  cases s with
  | var name initial =>
      cases initial with
      | none => exact hplain hs
      | some value => exact hplain hs.1
  | function decl => exact hplain hs.1
  | classDecl name base methods =>
      cases base with
      | none => exact hplain hs.1
      | some base => exact hplain hs.1
  | _ => exact List.not_mem_nil

theorem Stmt.listed_snd {s : Stmt} (hs : s.Formed) (h : Listed c σ ns) :
    Listed c (s.resolve c σ).2 (addNames s.names ns) :=
  ⟨s.lists_snd hs h.lists, fun hc => not_mem_addNames (s.this_not_mem_names hs) (h.this hc)⟩

mutual

theorem Stmt.references_eq {c : Context} {σ : Scopes} {ns : List (List String)} :
    ∀ {s : Stmt}, s.Formed → Listed c σ ns →
      (s.resolve c σ).1.references = s.occurrences.filterMap (Occurrence.referenceIn ns)
  | .expression value, hs, h => value.references_eq hs h
  | .print value, hs, h => value.references_eq hs h
  | .var name none, _, _ => rfl
  | .var name (some value), hs, h => by
      simp only [Stmt.resolve, Stmt.occurrences, Findings.references_append,
        Findings.references_ofProblems, List.nil_append, Occurrence.filterMap_after,
        value.references_eq hs.2 (h.declare hs.1)]
  | .block body, hs, h => by
      simp only [Stmt.resolve, Stmt.occurrences, Occurrence.filterMap_within,
        references_body hs h.block]
  | .cond condition yes none, hs, h => by
      simp only [Stmt.resolve, Stmt.occurrences, Findings.references_append, List.filterMap_append,
        condition.references_eq hs.1 h, yes.references_eq hs.2.1 h]
  | .cond condition yes (some no), hs, h => by
      simp only [Stmt.resolve, Stmt.occurrences, Findings.references_append, List.filterMap_append,
        condition.references_eq hs.1 h, yes.references_eq hs.2.1.1 h,
        yes.resolve_snd hs.2.1.1 hs.2.1.2, no.references_eq hs.2.2.1 h]
  | .loop condition body, hs, h => by
      simp only [Stmt.resolve, Stmt.occurrences, Findings.references_append, List.filterMap_append,
        condition.references_eq hs.1 h, body.references_eq hs.2.1 h]
  | .function decl, hs, h => by
      have hbody := decl.references_eq hs.2 ((h.settle hs.1).inFunction (some .function))
      simp only [Stmt.resolve, Stmt.occurrences, Findings.references_append,
        Findings.references_ofProblems, List.nil_append, Occurrence.filterMap_after]
      exact hbody
  | .ret _ none, _, _ => rfl
  | .ret _ (some value), hs, h => by
      simp only [Stmt.resolve, Stmt.occurrences, Findings.references_append,
        Findings.references_ofProblems, List.nil_append, value.references_eq hs h]
  | .classDecl name none methods, hs, h => by
      have hmethods := references_methods hs.2 (h.settle hs.1).methods
      simp only [Stmt.resolve, Stmt.occurrences, Findings.references_append,
        Findings.references_ofProblems, List.nil_append, Occurrence.filterMap_after,
        Occurrence.filterMap_within]
      exact hmethods
  | .classDecl name (some (id, superclass)) methods, hs, h => by
      have hmethods := references_methods hs.2.2 (h.settle hs.1).submethods
      have hbase := references_refer (h.settle hs.1).lists id .read superclass
      simp only [Stmt.resolve, resolveRead, Stmt.occurrences, Findings.references_append,
        Findings.references_ofProblems, List.nil_append, Occurrence.filterMap_after,
        List.filterMap_append, Occurrence.filterMap_within, ← hbase, ← hmethods]
      rfl
  | .missing, hs, _ => hs.elim
  | .misplaced _, hs, _ => hs.elim

theorem references_body {c : Context} {σ : Scopes} {ns : List (List String)} :
    ∀ {ss : List Stmt}, bodyFormed ss → Listed c σ ns →
      (resolveBody c σ ss).1.references =
        (bodyOccurrences ss).filterMap (Occurrence.referenceIn ns)
  | [], _, _ => rfl
  | s :: ss, hs, h => by
      simp only [resolveBody, bodyOccurrences, Findings.references_append, List.filterMap_append,
        Occurrence.filterMap_after, s.references_eq hs.1 h,
        references_body hs.2 (s.listed_snd hs.1 h)]

theorem FunDecl.references_eq {c : Context} {σ : Scopes} {ns : List (List String)} :
    ∀ {decl : FunDecl}, decl.Formed → Listed c σ ns →
      (decl.resolve c σ).references = decl.occurrences.filterMap (Occurrence.referenceIn ns)
  | .mk _ params body, hdecl, h => by
      simp only [FunDecl.resolve, FunDecl.occurrences, Findings.references_append,
        references_resolveParams, List.nil_append, Occurrence.filterMap_within,
        references_body hdecl.2 (h.params hdecl.1)]

theorem references_methods {c : Context} {σ : Scopes} {ns : List (List String)} :
    ∀ {decls : List FunDecl}, methodsFormed decls → Listed c σ ns →
      (resolveMethods c σ decls).references =
        (methodOccurrences decls).filterMap (Occurrence.referenceIn ns)
  | [], _, _ => rfl
  | decl :: decls, hdecls, h => by
      simp only [resolveMethods, methodOccurrences, Findings.references_append,
        List.filterMap_append, decl.references_eq hdecls.1 (h.inFunction _),
        references_methods hdecls.2 h]

end

end

/-! ## Numbers -/

theorem Occurrence.map_id_after (names : List String) (os : List Occurrence) :
    (os.map (Occurrence.after names)).map Occurrence.id = os.map Occurrence.id :=
  List.map_map

theorem Occurrence.map_id_within (names : List String) (os : List Occurrence) :
    (os.map (Occurrence.within names)).map Occurrence.id = os.map Occurrence.id :=
  List.map_map

mutual

theorem Expr.occurrences_perm : ∀ e : Expr, (e.occurrences.map Occurrence.id).Perm e.ids
  | .literal _ _ => .nil
  | .grouping _ inner => inner.occurrences_perm
  | .unary _ _ right => right.occurrences_perm
  | .binary _ left _ right => by
      simp only [Expr.occurrences, Expr.ids, List.map_append]
      exact left.occurrences_perm.append right.occurrences_perm
  | .logical _ left _ right => by
      simp only [Expr.occurrences, Expr.ids, List.map_append]
      exact left.occurrences_perm.append right.occurrences_perm
  | .read _ _ => .refl _
  | .assign _ _ value => by
      simp only [Expr.occurrences, Expr.ids, List.map_append]
      exact value.occurrences_perm.append (.refl _)
  | .call _ callee _ arguments => by
      simp only [Expr.occurrences, Expr.ids, List.map_append]
      exact callee.occurrences_perm.append (argumentOccurrences_perm arguments)
  | .get _ object _ => object.occurrences_perm
  | .set _ object _ value => by
      simp only [Expr.occurrences, Expr.ids, List.map_append]
      exact (value.occurrences_perm.append object.occurrences_perm).trans List.perm_append_comm
  | .self _ _ => .refl _
  | .super _ _ _ => .refl _
  | .missing => .nil
  | .misplaced _ => .nil

theorem argumentOccurrences_perm : ∀ es : List Expr,
    ((argumentOccurrences es).map Occurrence.id).Perm (argumentIds es)
  | [] => .nil
  | e :: es => by
      simp only [argumentOccurrences, argumentIds, List.map_append]
      exact e.occurrences_perm.append (argumentOccurrences_perm es)

end

mutual

theorem Stmt.occurrences_perm : ∀ s : Stmt, (s.occurrences.map Occurrence.id).Perm s.ids
  | .expression value => value.occurrences_perm
  | .print value => value.occurrences_perm
  | .var _ none => .nil
  | .var _ (some value) => by
      simp only [Stmt.occurrences, Stmt.ids, Occurrence.map_id_after]
      exact value.occurrences_perm
  | .block body => by
      simp only [Stmt.occurrences, Stmt.ids, Occurrence.map_id_within]
      exact bodyOccurrences_perm body
  | .cond condition yes none => by
      simp only [Stmt.occurrences, Stmt.ids, List.map_append]
      exact condition.occurrences_perm.append yes.occurrences_perm
  | .cond condition yes (some no) => by
      simp only [Stmt.occurrences, Stmt.ids, List.map_append]
      exact (condition.occurrences_perm.append yes.occurrences_perm).append no.occurrences_perm
  | .loop condition body => by
      simp only [Stmt.occurrences, Stmt.ids, List.map_append]
      exact condition.occurrences_perm.append body.occurrences_perm
  | .function decl => by
      simp only [Stmt.occurrences, Stmt.ids, Occurrence.map_id_after]
      exact decl.occurrences_perm
  | .ret _ none => .nil
  | .ret _ (some value) => value.occurrences_perm
  | .classDecl _ none methods => by
      simp only [Stmt.occurrences, Stmt.ids, Occurrence.map_id_after, Occurrence.map_id_within]
      exact methodOccurrences_perm methods
  | .classDecl _ (some (id, _)) methods => by
      simp only [Stmt.occurrences, Stmt.ids, Occurrence.map_id_after, Occurrence.map_id_within,
        List.map_append]
      exact (methodOccurrences_perm methods).cons id
  | .missing => .nil
  | .misplaced _ => .nil

theorem bodyOccurrences_perm : ∀ ss : List Stmt,
    ((bodyOccurrences ss).map Occurrence.id).Perm (bodyIds ss)
  | [] => .nil
  | s :: ss => by
      simp only [bodyOccurrences, bodyIds, List.map_append, Occurrence.map_id_after]
      exact s.occurrences_perm.append (bodyOccurrences_perm ss)

theorem FunDecl.occurrences_perm : ∀ decl : FunDecl,
    (decl.occurrences.map Occurrence.id).Perm decl.ids
  | .mk _ _ body => by
      simp only [FunDecl.occurrences, FunDecl.ids, Occurrence.map_id_within]
      exact bodyOccurrences_perm body

theorem methodOccurrences_perm : ∀ decls : List FunDecl,
    ((methodOccurrences decls).map Occurrence.id).Perm (methodIds decls)
  | [] => .nil
  | decl :: decls => by
      simp only [methodOccurrences, methodIds, List.map_append]
      exact decl.occurrences_perm.append (methodOccurrences_perm decls)

end

/-! ## Whole programs -/

theorem hopsOf_filterMap_cons (o : Occurrence) (os : List Occurrence) (id : NodeId) :
    hopsOf ((o :: os).filterMap Occurrence.reference?) id =
      (hopsOf (os.filterMap Occurrence.reference?) id).or
        (if o.id = id then o.distance? else none) := by
  rw [List.filterMap_cons]
  unfold Occurrence.reference?
  cases o.distance? with
  | none => simp
  | some hops => rfl

/-- References with numbers of their own are found under their numbers. -/
theorem hopsOf_occurrences {os : List Occurrence} (hdistinct : (os.map Occurrence.id).Nodup) :
    (∀ o ∈ os, hopsOf (os.filterMap Occurrence.reference?) o.id = o.distance?) ∧
      ∀ id, id ∉ os.map Occurrence.id → hopsOf (os.filterMap Occurrence.reference?) id = none := by
  induction os with
  | nil => exact ⟨fun o ho => absurd ho List.not_mem_nil, fun _ _ => rfl⟩
  | cons first os ih =>
      obtain ⟨hfirst, hrest⟩ := List.nodup_cons.mp hdistinct
      obtain ⟨hlater, hother⟩ := ih hrest
      refine ⟨fun o ho => ?_, fun id hid => ?_⟩
      · rw [hopsOf_filterMap_cons]
        rcases List.mem_cons.mp ho with rfl | ho
        · rw [hother o.id hfirst, if_pos rfl, Option.none_or]
        · have hne : first.id ≠ o.id := fun heq => hfirst (heq ▸ List.mem_map_of_mem ho)
          rw [hlater o ho, if_neg hne, Option.or_none]
      · rw [List.map_cons, List.mem_cons, not_or] at hid
        rw [hopsOf_filterMap_cons, hother id hid.2, if_neg (Ne.symm hid.1), Option.none_or]

theorem references_program {program : List Stmt} (h : bodyFormed program) :
    (resolveProgram program).references =
      (bodyOccurrences program).filterMap Occurrence.reference? := by
  have hglobals : Listed {} [] [] := ⟨.nil, fun _ _ hmem => absurd hmem List.not_mem_nil⟩
  exact references_body h hglobals

/-- Resolution finds the distances of whatever was read from a source, whether or not it finds
problems. -/
theorem resolveProgram_distances (source : String) (i : NodeId) :
    let tree := ((Scan.ofSource source).readProgram i).tree
    let found := (resolveProgram tree).references
    found = (bodyOccurrences tree).filterMap Occurrence.reference? ∧
      (∀ o ∈ bodyOccurrences tree, (Hops.empty.merge found).find? o.id = o.distance?) ∧
        ∀ id, id ∉ (bodyOccurrences tree).map Occurrence.id →
          (Hops.empty.merge found).find? id = none := by
  intro tree found
  have hfound : found = (bodyOccurrences tree).filterMap Occurrence.reference? :=
    references_program (formed_readProgram source i)
  have hdistinct : ((bodyOccurrences tree).map Occurrence.id).Nodup := by
    have hnumbered := (numbered_compile source i).distinct
    rw [statements_compile] at hnumbered
    exact (bodyOccurrences_perm tree).nodup_iff.mpr hnumbered
  have htable (id : NodeId) : (Hops.empty.merge found).find? id =
      hopsOf ((bodyOccurrences tree).filterMap Occurrence.reference?) id := by
    rw [Hops.find?_merge, ← hfound]
    exact Option.or_none
  obtain ⟨hdeclared, hother⟩ := hopsOf_occurrences hdistinct
  exact ⟨hfound, fun o ho => (htable o.id).trans (hdeclared o ho),
    fun id hid => (htable id).trans (hother id hid)⟩

end Lox
