import Transcriber.Proofs.Statement.Laid

/-!
# Nested statements

Statements are nested: expressions, conditionals with any number of further tests, and four sorts of
loops.  Lines are nested too, by their indentation.  The lines of a statement are to be nested as the
statement is.

* `Nests` — entries are nested as a tree of statements is, and each line says what it should.
-/

namespace Transcriber

open Source Expression

/-! ## Trees of statements -/

/-- The kinds of nodes with which the inside of a method does something, or below which an expression
is a statement. -/
def busyKinds : List Kind :=
  Statement.expressionParents ++ ([.varDeclaration, .assertWord, .breakWord, .catchWord, .continueWord,
    .doWord, .expr, .forWord, .ifWord, .switchWord, .synchronizedWord, .throwWord, .tryWord,
    .returnWord, .whileWord, .modifierList, .formalParamStdDecl, .formalParamVarargDecl] : List Kind)

/-- Trees that are passed over inside a method. -/
inductive Idle : Tree → Prop
  | expr {t : Tree} (hkind : t.kind = .expr) : Idle t
  | node {t : Tree} (hkind : t.kind ∉ busyKinds) (hname : t.kind.name? ≠ none)
      (hs : ∀ u ∈ t.children, Idle u) : Idle t

def initialValues (declarator : Tree) : List Tree :=
  match declarator.children.find? fun child => child.kind == .expr with
  | some value => [value]
  | none =>
    match declarator.children.find? fun child => child.kind == .arrayInitializer with
    | some array => array.children.filter fun child => child.kind == .expr
    | none => []

/-- The start of a counting loop: one variable is declared. -/
structure Counter (init declaration type first list declarator name : Tree) : Prop where
  kind : init.kind = .forInit
  children : init.children = [declaration]
  declares : declaration.kind = .varDeclaration
  idle : ∀ u ∈ declaration.children, Idle u
  typed : (declaration.children.find? fun child => child.kind == .typeRef) = some type
  begins : type.children.head? = some first
  typeText : Neat first.text
  listed : (declaration.children.find? fun child => child.kind == .varDeclaratorList) = some list
  only : (list.children.filter fun child => child.kind == .varDeclarator) = [declarator]
  named : (declarator.children.find? fun child => child.kind == .ident) = some name
  worded : Worded name.text
  values : ∀ value ∈ initialValues declarator, Clause value

mutual

/-- A tree of statements, with the clauses that it holds.  A clause that nothing encloses is marked.
-/
inductive Structured : Tree → List (Bool × Tree) → Prop
  | expression {t : Tree} (hkind : t.kind = .expr) (h : Clause t) : Structured t [(false, t)]
  | scope {t : Tree} {ps : List (Bool × Tree)} (hkind : t.kind = .blockScope) (hne : t.children ≠ [])
      (h : StructuredAll t.children ps) : Structured t ps
  | conditional {t condition body : Tree} {rest : List Tree} {ps qs : List (Bool × Tree)}
      (hkind : t.kind = .ifWord) (hchildren : t.children = condition :: body :: rest)
      (hcondition : Clause condition) (hscope : body.kind = .blockScope) (hbody : Structured body ps)
      (hrest : Alternative rest qs) : Structured t ((false, condition) :: ps ++ qs)
  | whileLoop {t condition body : Tree} {ps : List (Bool × Tree)} (hkind : t.kind = .whileWord)
      (hchildren : t.children = [condition, body]) (hcondition : Clause condition)
      (hscope : body.kind = .blockScope) (hbody : Structured body ps) :
      Structured t ((false, condition) :: ps)
  | doLoop {t condition body : Tree} {ps : List (Bool × Tree)} (hkind : t.kind = .doWord)
      (hchildren : t.children = [body, condition]) (hscope : body.kind = .blockScope)
      (hbody : Structured body ps) (hcondition : Clause condition) :
      Structured t (ps ++ [(false, condition)])
  | forEachLoop {t modifiers type name source body : Tree} {ps : List (Bool × Tree)}
      (hkind : t.kind = .forEach) (hchildren : t.children = [modifiers, type, name, source, body])
      (hmodifiers : modifiers.kind = .localModifierList) (htype : type.kind = .typeRef)
      (hident : name.kind = .ident) (hname : Worded name.text) (hexpr : source.kind = .expr)
      (hsource : Clause source) (hscope : body.kind = .blockScope) (hbody : Structured body ps) :
      Structured t ((true, source) :: ps)
  | forLoop {t init condition update body declaration type first list declarator name : Tree}
      {ps : List (Bool × Tree)} (hkind : t.kind = .forWord)
      (hchildren : t.children = [init, condition, update, body])
      (hinit : Counter init declaration type first list declarator name)
      (hforCondition : condition.kind = .forCondition) (hcondition : Clause condition)
      (hforUpdate : update.kind = .forUpdate) (hupdate : Clause update)
      (hscope : body.kind = .blockScope) (hbody : Structured body ps) :
      Structured t (near (initialValues declarator) ++ (false, condition) :: ps ++ [(false, update)])

/-- Trees of statements one after the other. -/
inductive StructuredAll : List Tree → List (Bool × Tree) → Prop
  | nil : StructuredAll [] []
  | cons {t : Tree} {ts : List Tree} {ps qs : List (Bool × Tree)} (h : Structured t ps)
      (hs : StructuredAll ts qs) : StructuredAll (t :: ts) (ps ++ qs)

/-- What is done where a test fails: nothing, a further conditional, or a block. -/
inductive Alternative : List Tree → List (Bool × Tree) → Prop
  | nothing : Alternative [] []
  | further {t : Tree} {ps : List (Bool × Tree)} (hkind : t.kind = .ifWord) (h : Structured t ps) :
      Alternative [t] ps
  | last {t : Tree} {ps : List (Bool × Tree)} (hkind : t.kind = .blockScope) (h : Structured t ps) :
      Alternative [t] ps

end

/-! ## Trees of lines -/

/-- A line with the lines that belong to it. -/
inductive Entry where
  | mk (line : String) (suite : List Entry)

namespace Entry

def leaf (line : String) : Entry := .mk line []

mutual

/-- The lines of an entry. -/
def lines : Entry → List Line
  | mk line suite => (0, line) :: deeper (linesAll suite)

def linesAll : List Entry → List Line
  | [] => []
  | entry :: entries => entry.lines ++ linesAll entries

end

@[simp] theorem linesAll_nil : linesAll [] = [] := by
  rw [linesAll]

theorem linesAll_cons (line : String) (suite entries : List Entry) :
    linesAll (mk line suite :: entries) = (0, line) :: deeper (linesAll suite) ++ linesAll entries := by
  rw [linesAll, lines]

theorem linesAll_singleton (line : String) (suite : List Entry) :
    linesAll [mk line suite] = (0, line) :: deeper (linesAll suite) := by
  rw [linesAll_cons, linesAll_nil, List.append_nil]

theorem linesAll_append (es fs : List Entry) : linesAll (es ++ fs) = linesAll es ++ linesAll fs := by
  induction es with
  | nil => rw [linesAll_nil, List.nil_append, List.nil_append]
  | cons e es ih => rw [List.cons_append, linesAll, linesAll, ih, List.append_assoc]

theorem linesAll_leaf (line : String) : linesAll [leaf line] = [(0, line)] := by
  rw [leaf, linesAll_cons, linesAll_nil]
  rfl

end Entry

/-! ## Lines that are nested as statements are -/

/-- The text of a clause inside a method. -/
def Stated (c : Cursor) (text : String) : Prop := ∃ s, Fits s false ∧ SaysIn s c text

/-- The text of the initial value of a variable: an expression, a list for an array, or a value that
depends on the type. -/
inductive InitialText (declaration declarator : Cursor) : String → Prop
  | expression {value : Cursor} {text : String} (h : declarator.child? .expr = some value)
      (htext : Stated value text) : InitialText declaration declarator text
  | array {array : Cursor} {texts : List String} (hnone : declarator.child? .expr = none)
      (h : declarator.child? .arrayInitializer = some array)
      (htexts : List.Forall₂ Stated (array.childrenOf .expr) texts) :
      InitialText declaration declarator ("[" ++ ", ".intercalate texts ++ "]")
  | nothing {type first : Cursor} {s : Scope} (hnone : declarator.child? .expr = none)
      (hnone' : declarator.child? .arrayInitializer = none)
      (htype : declaration.child? .typeRef = some type) (hfirst : type.children.head? = some first)
      (hs : Fits s false) :
      InitialText declaration declarator (if (type.child? .arrayDeclaratorList).isSome then "[]"
        else if first.kind != .qualifiedTypeIdent then s.rename first.text ++ "()" else "None")

/-- The line of the variable that a counting loop declares. -/
inductive CounterLine (init : Cursor) : String → Prop
  | mk {declaration list declarator name : Cursor} {value : String}
      (hchildren : init.children = [declaration])
      (hlist : declaration.child? .varDeclaratorList = some list)
      (honly : list.childrenOf .varDeclarator = [declarator])
      (hname : declarator.child? .ident = some name) (hvalue : InitialText declaration declarator value) :
      CounterLine init (name.text ++ " = " ++ value)

mutual

/-- Entries are nested as a tree of statements is. -/
inductive Nests : Cursor → List Entry → Prop
  | expression {c : Cursor} {text : String} (hkind : c.kind = .expr) (htext : Stated c text) :
      Nests c [.leaf text]
  | scope {c : Cursor} {entries : List Entry} (hkind : c.kind = .blockScope)
      (h : NestsAll c.children entries) : Nests c entries
  | conditional {c condition body : Cursor} {rest : List Cursor} {text : String}
      {inner others : List Entry} (hkind : c.kind = .ifWord)
      (hchildren : c.children = condition :: body :: rest) (htext : Stated condition text)
      (hbody : Nests body inner) (hrest : NestsAfter rest others) :
      Nests c (.mk ("if " ++ text ++ ":") inner :: others)
  | whileLoop {c condition body : Cursor} {text : String} {inner : List Entry}
      (hkind : c.kind = .whileWord) (hchildren : c.children = [condition, body])
      (htext : Stated condition text) (hbody : Nests body inner) :
      Nests c [.mk ("while " ++ text ++ ":") inner]
  | doLoop {c condition body : Cursor} {text : String} {inner : List Entry} (hkind : c.kind = .doWord)
      (hchildren : c.children = [body, condition]) (hbody : Nests body inner)
      (htext : Stated condition text) :
      Nests c [.mk "while True:" (inner ++ [.mk ("if not (" ++ text ++ "):") [.leaf "break"]])]
  | forEachLoop {c modifiers type name source body : Cursor} {text : String} {inner : List Entry}
      (hkind : c.kind = .forEach) (hchildren : c.children = [modifiers, type, name, source, body])
      (htext : SaysIn .loose source text) (hbody : Nests body inner) :
      Nests c [.mk ("for " ++ (name.text ++ " in " ++ text) ++ ":") inner]
  | forLoop {c init condition update body : Cursor} {line text step : String} {inner : List Entry}
      (hkind : c.kind = .forWord) (hchildren : c.children = [init, condition, update, body])
      (hinit : CounterLine init line) (htext : Stated condition text) (hbody : Nests body inner)
      (hstep : Stated update step) :
      Nests c [.leaf line, .mk ("while " ++ text ++ ":") (inner ++ [.leaf step])]

/-- Entries are nested as trees of statements are that come one after the other. -/
inductive NestsAll : List Cursor → List Entry → Prop
  | nil : NestsAll [] []
  | cons {c : Cursor} {cs : List Cursor} {entries others : List Entry} (h : Nests c entries)
      (hs : NestsAll cs others) : NestsAll (c :: cs) (entries ++ others)

/-- Entries are nested as what is done where a test fails. -/
inductive NestsAfter : List Cursor → List Entry → Prop
  | nothing : NestsAfter [] []
  | further {c condition body : Cursor} {rest : List Cursor} {text : String}
      {inner others : List Entry} (hkind : c.kind = .ifWord)
      (hchildren : c.children = condition :: body :: rest) (htext : Stated condition text)
      (hbody : Nests body inner) (hrest : NestsAfter rest others) :
      NestsAfter [c] (.mk ("elif " ++ text ++ ":") inner :: others)
  | last {c : Cursor} {inner : List Entry} (hkind : c.kind = .blockScope) (h : Nests c inner) :
      NestsAfter [c] [.mk "else:" inner]

end

end Transcriber
