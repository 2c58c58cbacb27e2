import Lox.Proofs.Naming.Declaration

/-!
# The source of a call

The call of a global variable with global variables for its arguments, as it stands in a source: its
tokens, and the expression that is read from them.
-/

namespace Lox

/-- The source of the call of a variable with variables for its arguments. -/
def callSource (callee : String) (params : List String) : String :=
  callee ++ "(" ++ ", ".intercalate params ++ ")"

def listedChars : List String → List Char
  | [] => []
  | [param] => param.toList
  | param :: params => param.toList ++ ',' :: ' ' :: listedChars params

theorem toList_callSource (callee : String) (params : List String) :
    (callSource callee params).toList = callee.toList ++ '(' :: (listedChars params ++ [')']) := by
  have hlisted : (", ".intercalate params).toList = listedChars params := by
    rw [String.toList_intercalate]
    induction params with
    | nil => rfl
    | cons param params ih =>
        cases params with
        | nil => simp [listedChars]
        | cons second params =>
            rw [List.map_cons, List.map_cons, List.intercalate_cons_cons, ← List.map_cons, ih]
            simp [listedChars]
  unfold callSource
  simp [hlisted]

/-! ## Tokens -/

namespace Scan

def nameToken (name : String) : Token :=
  token 1 .name name.toList

def listedTokens : List String → List Token
  | [] => []
  | [param] => [nameToken param]
  | param :: params => nameToken param :: token 1 .comma [','] :: listedTokens params

def callTokens (callee : String) (params : List String) : List Token :=
  nameToken callee :: token 1 .leftParen ['('] :: (listedTokens params ++ [token 1 .rightParen [')']])

variable {name : String} {params : List String}

/-- A name ends where something follows that is no part of a word. -/
theorem ofPieces_name (hname : IsName name) {stop : Char} (hstop : Piece.isWordChar stop = false)
    (rest : List Char) :
    ofPieces 1 (Piece.split (name.toList ++ stop :: rest)) =
      { ofPieces 1 (Piece.split (stop :: rest)) with
        tokens := nameToken name :: (ofPieces 1 (Piece.split (stop :: rest))).tokens } := by
  have hkind : Token.Kind.ofWord (String.ofList name.toList) = .name := by
    rw [String.ofList_toList]
    exact hname.2
  rw [Piece.split_word_before hname.1 hstop, hkind, ofPieces, Piece.text, lineBreaks_word hname.1]
  rfl

theorem ofPieces_sign {sign : Char} {kind : Token.Kind} {rest : List Char}
    (hfirst : Piece.first sign rest = (.token kind [sign], rest)) (hline : lineBreaks [sign] = 0) :
    ofPieces 1 (Piece.split (sign :: rest)) =
      { ofPieces 1 (Piece.split rest) with
        tokens := token 1 kind [sign] :: (ofPieces 1 (Piece.split rest)).tokens } := by
  rw [Piece.split_cons, hfirst, ofPieces, Piece.text, hline]
  rfl

theorem ofPieces_space (rest : List Char) :
    ofPieces 1 (Piece.split (' ' :: rest)) = ofPieces 1 (Piece.split rest) := by
  rw [Piece.split_cons]
  rfl

theorem ofPieces_listed (hparams : ∀ param ∈ params, IsName param) (rest : List Char) :
    ofPieces 1 (Piece.split (listedChars params ++ ')' :: rest)) =
      { ofPieces 1 (Piece.split (')' :: rest)) with
        tokens := listedTokens params ++ (ofPieces 1 (Piece.split (')' :: rest))).tokens } := by
  induction params with
  | nil => rfl
  | cons param params ih =>
      have hparam := hparams param List.mem_cons_self
      cases params with
      | nil => exact ofPieces_name hparam (by decide) rest
      | cons second params =>
          have hmore := ih fun other hother => hparams other (List.mem_cons_of_mem _ hother)
          rw [listedChars, List.append_assoc, List.cons_append, List.cons_append,
            ofPieces_name hparam (by decide), ofPieces_sign rfl rfl, ofPieces_space, hmore]
          · rfl
          · nofun

theorem ofSource_call {callee : String} (hcallee : IsName callee)
    (hparams : ∀ param ∈ params, IsName param) :
    ofSource (callSource callee params) = ⟨callTokens callee params, .atEnd 1, []⟩ := by
  unfold ofSource
  rw [toList_callSource, ofPieces_name hcallee (by decide), ofPieces_sign rfl rfl,
    ofPieces_listed hparams, ofPieces_sign rfl rfl]
  rfl

end Scan

/-! ## The expression -/

/-- The references to variables, numbered from `i` on. -/
def argumentTrees (i : NodeId) : List String → List Expr
  | [] => []
  | param :: params => .read i (Scan.nameToken param) :: argumentTrees (i + 1) params

def closingToken : Token :=
  Scan.token 1 .rightParen [')']

def callTree (i : NodeId) (callee : String) (params : List String) : Expr :=
  .call (i + 1 + params.length) (.read i (Scan.nameToken callee)) closingToken
    (argumentTrees (i + 1) params)

theorem length_argumentTrees (i : NodeId) (params : List String) :
    (argumentTrees i params).length = params.length := by
  induction params generalizing i with
  | nil => rfl
  | cons param params ih => exact congrArg Nat.succ (ih (i + 1))

namespace Grammar

theorem chain_name (l : Ledger) (name : String) (rest : List Token) :
    Chain l (Scan.nameToken name :: rest) (.read l.nextId (Scan.nameToken name))
      (l.build (.read · (Scan.nameToken name))) rest :=
  .primary (.name rfl)

theorem Chain.expression {i j : Ledger} {ts rest : List Token} {e : Expr} (h : Chain i ts e j rest) :
    Expression i ts e j rest :=
  .value (.lower (by decide) (.operand (.chain h)))

theorem arguments_listed (l : Ledger) (param : String) (params : List String) (rest : List Token) :
    ∃ l', l'.nextId = l.nextId + (params.length + 1) ∧
      Arguments l (Scan.listedTokens (param :: params) ++ rest)
        (argumentTrees l.nextId (param :: params)) l' rest := by
  induction params generalizing l param with
  | nil => exact ⟨_, rfl, .one (chain_name l param rest).expression⟩
  | cons second params ih =>
      obtain ⟨l', hnext, hmore⟩ := ih (l.build (.read · (Scan.nameToken param))) second
      refine ⟨l', ?_, .more (chain_name l param _).expression rfl hmore⟩
      rw [hnext, List.length_cons]
      exact Nat.add_right_comm l.nextId 1 (params.length + 1)

theorem expression_call (l : Ledger) (callee : String) {params : List String}
    (hcount : params.length ≤ maxArguments) :
    ∃ l', l'.nextId = l.nextId + (params.length + 2) ∧
      Expression l (Scan.callTokens callee params) (callTree l.nextId callee params) l' [] := by
  cases params with
  | nil => exact ⟨_, rfl, (Chain.bareCall (chain_name l callee _) rfl rfl).expression⟩
  | cons param params =>
      obtain ⟨l', hnext, harguments⟩ :=
        arguments_listed (l.build (.read · (Scan.nameToken callee))) param params [closingToken]
      rw [← length_argumentTrees (l.nextId + 1)] at hcount
      have hcall : Expression l (Scan.callTokens callee (param :: params))
          (.call l'.nextId (.read l.nextId (Scan.nameToken callee)) closingToken
            (argumentTrees (l.nextId + 1) (param :: params))) (l'.build _) [] :=
        (Chain.call (chain_name l callee _) rfl harguments hcount rfl).expression
      rw [hnext] at hcall
      refine ⟨_, ?_, hcall⟩
      change l'.nextId + 1 = _
      rw [hnext]
      exact congrArg (· + 1) (Nat.add_right_comm l.nextId 1 (params.length + 1))

theorem Expression.readExpression {s : Scan} (hending : s.ending.kind = .ending) {i : NodeId}
    {j : Ledger} {e : Expr} (h : Expression (.start i) s.tokens e j []) :
    s.readExpression i = ⟨some e, [], j⟩ := by
  have hends : ExpressionEnds [] := ⟨⟨nofun, nofun⟩, nofun, nofun⟩
  have hend : Parse.Reads (Parse.expectEnd .endOfExpression) s.ending j [] () j [] := rfl
  have hread : Parse.Reads (Parse.wholeExpression s.tokens.length) s.ending (.start i) s.tokens e j [] :=
    (h.reads hending (Nat.le_refl _) hends).bind (hend.bind rfl)
  unfold Parse.Reads at hread
  unfold Scan.readExpression Scan.cursor
  rw [hread]

end Grammar

theorem resolveArguments_argumentTrees (i : NodeId) (params : List String) :
    (resolveArguments {} [] (argumentTrees i params)).problems = [] := by
  induction params generalizing i with
  | nil => rfl
  | cons param params ih =>
      rw [argumentTrees, resolveArguments, Findings.problems_append, ih (i + 1)]
      rfl

/-- The source of a call is read as the call. -/
theorem compileExpression_call {callee : String} {params : List String} (hcallee : IsName callee)
    (hparams : ∀ param ∈ params, IsName param) (hcount : params.length ≤ maxArguments) (i : NodeId) :
    (compileExpression (callSource callee params) i).tree = .ok (callTree i callee params) ∧
      (compileExpression (callSource callee params) i).nextId = i + (params.length + 2) := by
  obtain ⟨l, hnext, hexpression⟩ := Grammar.expression_call (.start i) callee hcount
  have hread : Scan.readExpression ⟨Scan.callTokens callee params, .atEnd 1, []⟩ i =
      ⟨some (callTree i callee params), [], l⟩ :=
    hexpression.readExpression rfl
  have hnone : ((callTree i callee params).resolve {} []).problems = [] := by
    rw [callTree, Expr.resolve, Findings.problems_append, resolveArguments_argumentTrees]
    rfl
  unfold compileExpression
  simp only [Scan.ofSource_call hcallee hparams, hread, List.append_nil, List.isEmpty_nil, if_true,
    hnone]
  exact ⟨trivial, hnext⟩

end Lox
