-- Syntax trees of TypeScript: nodes with a kind, a place in the text and
-- children in the order of the text. Tokens and comments are nodes too.

namespace CodeSurvey.TypeScript

/-! ## Nodes -/

/-- A place in a text: the characters before it, and the line feeds among them. -/
structure Mark where
  offset : Nat
  row : Nat
deriving DecidableEq, Repr

/-- The characters of a node: from the first mark up to the second. -/
structure Span where
  start : Mark
  stop : Mark
deriving DecidableEq, Repr

/-- The kinds of nodes that a survey tells apart. A `word` is a token that stands for
itself, and all further kinds go under `other` with their names. -/
inductive Kind where
  | importStatement
  | importClause
  | namespaceImport
  | namedImports
  | importSpecifier
  | exportStatement
  | exportClause
  | exportSpecifier
  | namespaceExport
  | callExpression
  | importFunction
  | functionDeclaration
  | generatorFunctionDeclaration
  | arrowFunction
  | functionExpression
  | generatorFunction
  | lexicalDeclaration
  | variableDeclaration
  | variableDeclarator
  | classDeclaration
  | abstractClassDeclaration
  | classExpression
  | classBody
  | methodDefinition
  | accessibilityModifier
  | interfaceDeclaration
  | typeAliasDeclaration
  | requiredParameter
  | optionalParameter
  | objectPattern
  | arrayPattern
  | restPattern
  | assignmentPattern
  | identifier
  | string
  | this
  | comment
  | jsxElement
  | jsxSelfClosingElement
  | decorator
  | typeParameters
  | typeArguments
  | optionalChain
  | typeAnnotated
  | word (text : String)
  | other (name : String)
deriving DecidableEq, Repr

/-- The parts that a child can play in its parent. -/
inductive Field where
  | source
  | name
  | newName
  | declaration
  | value
  | function
  | arguments
  | parameter
  | parameters
  | returnType
  | body
  | pattern
  | type
  | left
  | right
deriving DecidableEq, Repr

/-- A syntax tree. A node that is not named is a token of the grammar's text. -/
inductive Tree where
  | node (kind : Kind) (field : Option Field) (named : Bool) (span : Span) (children : List Tree)
deriving Repr

namespace Tree

def kind : Tree → Kind
  | node k _ _ _ _ => k

/-- The part that the node plays in its parent. -/
def field : Tree → Option Field
  | node _ f _ _ _ => f

def named : Tree → Bool
  | node _ _ n _ _ => n

def span : Tree → Span
  | node _ _ _ s _ => s

def children : Tree → List Tree
  | node _ _ _ _ cs => cs

/-- The same node in the given part. -/
def inField (f : Field) : Tree → Tree
  | node k _ n s cs => node k (some f) n s cs

/-- The line of the first character, counted from one. -/
def startLine (t : Tree) : UInt32 := UInt32.ofNat (t.span.start.row + 1)

/-- The line on which the node ends, counted from one. -/
def endLine (t : Tree) : UInt32 := UInt32.ofNat (t.span.stop.row + 1)

/-! ## Children -/

/-- The first child in the given part. -/
def child? (t : Tree) (f : Field) : Option Tree := t.children.find? (fun c => c.field == some f)

/-- The first child of the given kind. -/
def childOfKind? (t : Tree) (k : Kind) : Option Tree := t.children.find? (fun c => c.kind == k)

/-- Some child is of the given kind. -/
def hasChildOfKind (t : Tree) (k : Kind) : Bool := t.children.any (fun c => c.kind == k)

/-- The children that are not tokens of the grammar's text. -/
def namedChildren (t : Tree) : List Tree := t.children.filter (·.named)

/-! ## Size -/

mutual

def size : Tree → Nat
  | node _ _ _ _ cs => sizeAll cs + 1

/-- The number of nodes of all trees. -/
def sizeAll : List Tree → Nat
  | [] => 0
  | t :: ts => t.size + sizeAll ts

end

theorem sizeAll_append (a b : List Tree) : sizeAll (a ++ b) = sizeAll a + sizeAll b := by
  induction a with
  | nil => simp [sizeAll]
  | cons t ts ih => simp [sizeAll, ih]; omega

theorem size_eq (t : Tree) : t.size = sizeAll t.children + 1 := by
  cases t; simp [size, children]

end Tree

/-! ## Nodes in their surroundings -/

/-- A step from a node to its parent: the parent, and the earlier children of it, nearest
first. -/
structure Step where
  parent : Tree
  earlier : List Tree

/-- A node of a tree with the steps that lead from it to the root. -/
structure Place where
  node : Tree
  above : List Step

namespace Place

def root (t : Tree) : Place := ⟨t, []⟩

/-- The places of the children from the given ones on. -/
def childrenFrom (p : Place) (earlier : List Tree) : List Tree → List Place
  | [] => []
  | c :: cs => ⟨c, ⟨p.node, earlier⟩ :: p.above⟩ :: childrenFrom p (c :: earlier) cs

/-- The places of the children, in order. -/
def children (p : Place) : List Place := p.childrenFrom [] p.node.children

theorem map_node_childrenFrom (p : Place) (cs earlier : List Tree) :
    (p.childrenFrom earlier cs).map (·.node) = cs := by
  induction cs generalizing earlier with
  | nil => rfl
  | cons c cs ih => simp [childrenFrom, ih]

/-- The number of nodes under the places, themselves included. -/
def weight (ps : List Place) : Nat := Tree.sizeAll (ps.map (·.node))

theorem weight_children_lt (p : Place) (ps : List Place) :
    weight (p.children ++ ps) < weight (p :: ps) := by
  simp only [weight, children, List.map_append, List.map_cons, map_node_childrenFrom,
    Tree.sizeAll_append, Tree.sizeAll, Tree.size_eq]
  omega

/-- The places still to be visited come off a stack, whose top is visited next and gives
way to its children. The visited places stand latest first. -/
def walkFrom (visited : List Place) : List Place → List Place
  | [] => visited.reverse
  | p :: stack => walkFrom (p :: visited) (p.children ++ stack)
termination_by stack => weight stack
decreasing_by exact weight_children_lt p stack

/-- All places of a tree in the order in which a walk visits them. -/
def walk (t : Tree) : List Place := walkFrom [] [root t]

/-- Some node above is of the given kind. -/
def isInside (p : Place) (k : Kind) : Bool := p.above.any (fun s => s.parent.kind == k)

end Place

end CodeSurvey.TypeScript
