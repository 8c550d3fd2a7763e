-- Statements: imports and exports, declarations, and what steers the run of a
-- program.
import CodeSurvey.TypeScript.Grammar.Declarations

namespace CodeSurvey.TypeScript.Grammar

open Parse

/-! ## Imports -/

/-- A name in a list of an import or export: a word or a string. -/
def listedName : Parse Forest := look fun c =>
  if c.sees "\"" || c.sees "'" then string else anyName .identifier

/-- The text goes on with a name in a list. -/
def listedNameAhead (c : Cursor) : Bool := !c.word.isEmpty || c.sees "\"" || c.sees "'"

/-- The word here says that only a type is meant, and is not itself the name: a name follows,
and not the word in front of another name. -/
def typeMarkAhead (c : Cursor) : Bool :=
  (c.seesWord "type" || c.seesWord "typeof") &&
    listedNameAhead c.afterWord && !c.afterWord.seesWord "as"

/-- A name in a list, with the other name that it takes. -/
def specifier (kind : Kind) : Parse Forest :=
  node kind ((look fun c =>
      if typeMarkAhead c then keyword (String.ofList c.word) else pure []) ++
    part .name listedName ++
    when (·.seesWord "as") (keyword "as" ++ part .newName listedName))

/-- All names of a module under one name. -/
def namespaceImport : Parse Forest :=
  node .namespaceImport (symbol "*" ++ keyword "as" ++ anyName .identifier)

/-- The names that an import takes in braces. -/
def namedImports : Parse Forest :=
  node .namedImports (symbol "\x7b" ++ listed "\x7d" (specifier .importSpecifier))

/-- What an import takes: all names under one, or some by name, perhaps behind the name for
the default. -/
def importClause : Parse Forest :=
  node .importClause (look fun c =>
    if c.sees "*" || c.sees "\x7b" then several
    else anyName .identifier ++ when (·.sees ",") (symbol "," ++ several))
where
  /-- Names other than the default. -/
  several : Parse Forest := look fun c => if c.sees "*" then namespaceImport else namedImports

def fromClause : Parse Forest := keyword "from" ++ part .source string

/-- What an import asks of the module. -/
def importDemands (r : Rules) : Parse Forest :=
  when (fun c => (c.seesWord "with" || c.seesWord "assert") && c.afterWord.sees "\x7b")
    (node (.other "import_attribute")
      ((look fun c => keyword (String.ofList c.word)) ++ object r))

/-- The word behind `import` says that only types are meant. -/
def typeImportAhead (c : Cursor) : Bool :=
  (c.seesWord "type" || c.seesWord "typeof") &&
    let next := c.afterWord
    next.sees "\x7b" || next.sees "*" ||
      (!next.word.isEmpty && (!next.seesWord "from" || next.afterWord.seesWord "from"))

def importStatement (r : Rules) : Parse Forest :=
  node .importStatement (keyword "import" ++
    (look fun c => if typeImportAhead c then keyword (String.ofList c.word) else pure []) ++
    (look fun c =>
      if c.sees "\"" || c.sees "'" then part .source string else importClause ++ fromClause) ++
    importDemands r ++ endStatement)

/-! ## Exports -/

/-- The names that an export gives out in braces. -/
def exportClause : Parse Forest :=
  node .exportClause (symbol "\x7b" ++ listed "\x7d" (specifier .exportSpecifier))

/-- All names of a module given out, under one name or under their own. -/
def exportAll : Parse Forest := look fun c =>
  if (c.advance 1).seesWord "as" then
    node .namespaceExport (symbol "*" ++ keyword "as" ++ listedName)
  else symbol "*"

/-- The default that a module gives out: a declaration with a name, or a value. -/
def defaultExport (r : Rules) : Parse Forest :=
  keyword "default" ++ do
    let decorated ← decorators r
    let c ← here
    if namedClassAhead c then part .declaration (classDeclaration r decorated)
    else if !decorated.isEmpty then
      part .value (wrap .classExpression <$> (pure decorated ++ keyword "class" ++ classRest r))
    else match declaration? r c with
      | some a => part .declaration a
      | none => part .value (r .expression) ++ endStatement

/-- What follows the word for an export. -/
def exported (r : Rules) : Parse Forest := look fun c =>
  if c.sees "*" then exportAll ++ fromClause ++ importDemands r ++ endStatement
  else if c.sees "\x7b" then listedExport
  else if c.seesWord "type" && (c.afterWord.sees "\x7b" || c.afterWord.sees "*") then
    keyword "type" ++ look fun c =>
      if c.sees "*" then exportAll ++ fromClause ++ importDemands r ++ endStatement
      else listedExport
  else if c.sees "=" then symbol "=" ++ r .expression ++ endStatement
  else if c.seesWord "as" then
    keyword "as" ++ keyword "namespace" ++ anyName .identifier ++ endStatement
  else if c.seesWord "default" then defaultExport r
  else do
    let decorated ← decorators r
    let c ← here
    if classAhead c then part .declaration (classDeclaration r decorated)
    else if !decorated.isEmpty then refuse
    else part .declaration ((declaration? r c).getD refuse)
where
  /-- Names in braces, perhaps from another module. -/
  listedExport : Parse Forest :=
    exportClause ++ when (·.seesWord "from") (fromClause ++ importDemands r) ++ endStatement

/-- An export, behind what decorates the class that it gives out. -/
def exportStatement (r : Rules) (decorated : Forest) : Parse Forest :=
  wrap .exportStatement <$> (pure decorated ++ keyword "export" ++ exported r)

/-! ## Statements that steer a run -/

/-- Expressions in the parentheses of a statement. -/
def condition (r : Rules) : Parse Forest :=
  node (.other "parenthesized_expression") (symbol "(" ++ sequence r ++ symbol ")")

def ifStatement (r : Rules) : Parse Forest :=
  node (.other "if_statement") (keyword "if" ++ condition r ++ r .statement ++
    when (·.seesWord "else") (node (.other "else_clause") (keyword "else" ++ r .statement)))

/-- The head of a loop over what something holds. -/
def loopOver (r : Rules) : Parse Forest := do
  let left ← look fun c =>
    match valueWords.find? (fun w => c.seesWord w.1 && patternStarts c.afterWord) with
    | some w => keyword w.1 ++ part .left (r .pattern) ++
        when (·.sees "=") (symbol "=" ++ r .unary)
    | none => part .left (r .unary)
  let loop ← look fun c =>
    if c.seesWord "in" || c.seesWord "of" then keyword (String.ofList c.word) ++ sequence r
    else refuse
  pure (left ++ loop)

/-- The head of a loop with a start, a test and a step. -/
def loopWhile (r : Rules) : Parse Forest :=
  (look fun c =>
    if c.sees ";" then symbol ";"
    else match valueAhead? c with
      | some w => valueDeclaration r w.1 w.2
      | none => sequence r ++ symbol ";") ++
    when (!·.sees ";") (sequence r) ++ symbol ";" ++ when (!·.sees ")") (sequence r)

/-- A counted loop, or a loop over what something holds. -/
def forStatement (r : Rules) : Parse Forest := do
  let front ← keyword "for" ++ when (·.seesWord "await") (keyword "await") ++ symbol "("
  let stop : Parse Forest := symbol ")" ++ part .body (r .statement)
  or (do pure (wrap (.other "for_in_statement") (front ++ (← loopOver r ++ stop))))
    (do pure (wrap (.other "for_statement") (front ++ (← loopWhile r ++ stop))))

/-- A loop with its test in front. -/
def whileStatement (r : Rules) : Parse Forest :=
  node (.other "while_statement") (keyword "while" ++ condition r ++ part .body (r .statement))

def doStatement (r : Rules) : Parse Forest :=
  node (.other "do_statement") (keyword "do" ++ part .body (r .statement) ++ keyword "while" ++
    condition r ++ when (·.sees ";") (symbol ";"))

/-- One case of a switch, or the case for all else. -/
def switchCase (r : Rules) : Parse Forest :=
  node (.other "switch_case") ((look fun c =>
      if c.seesWord "case" then keyword "case" ++ sequence r else keyword "default") ++
    symbol ":" ++
    manyUntil (fun c => c.sees "\x7d" || c.seesWord "case" || c.seesWord "default") (r .statement))

def switchStatement (r : Rules) : Parse Forest :=
  node (.other "switch_statement") (keyword "switch" ++ condition r ++
    part .body (node (.other "switch_body") (braced (switchCase r))))

def catchClause (r : Rules) : Parse Forest :=
  node (.other "catch_clause") (keyword "catch" ++
    when (·.sees "(") (symbol "(" ++ part .parameter (r .pattern) ++
      when (·.sees ":") (part .type (typeAnnotated r)) ++ symbol ")") ++ body r)

/-- A block with what is done with an error in it, and in any case. -/
def tryStatement (r : Rules) : Parse Forest :=
  node (.other "try_statement") (keyword "try" ++ body r ++
    when (·.seesWord "catch") (catchClause r) ++
    when (·.seesWord "finally")
      (node (.other "finally_clause") (keyword "finally" ++ body r)))

/-- A word that leaves something, with a value where one follows on the line. -/
def leaveStatement (r : Rules) : Parse Forest := look fun c =>
  node (.other "leave_statement") (keyword (String.ofList c.word) ++
    when (fun c => !c.newline && !c.mayEnd && !c.sees ";") (sequence r) ++ endStatement)

def leaveWords : List String := ["return", "throw", "break", "continue", "debugger"]

def labeledStatement (r : Rules) : Parse Forest :=
  node (.other "labeled_statement") (anyName (.other "statement_identifier") ++ symbol ":" ++
    r .statement)

/-- A block with an object whose members are names in it. -/
def withStatement (r : Rules) : Parse Forest :=
  node (.other "with_statement") (keyword "with" ++ condition r ++ part .body (r .statement))

def expressionStatement (r : Rules) : Parse Forest :=
  node (.other "expression_statement") (sequence r ++ endStatement)

/-- A value that is disposed of at the end of its block is declared here. -/
def usingAhead (c : Cursor) : Bool :=
  c.seesWord "using" && nameAhead c.afterWord && !c.afterWord.newline &&
    c.afterWord.afterWord.sees "="

/-- A value that is disposed of at the end of its block. -/
def usingStatement (r : Rules) : Parse Forest :=
  node (.other "using_statement") (keyword "using" ++ expressionStatement r)

/-! ## Statements -/

/-- A statement behind decorators: a class, or an export of one. -/
def decoratedStatement (r : Rules) : Parse Forest := do
  let decorated ← decorators r
  if ← ask (·.seesWord "export") then exportStatement r decorated
  else classDeclaration r decorated

/-- A module is imported here, and this is no call. -/
def importAhead (c : Cursor) : Bool :=
  c.seesWord "import" && !c.afterWord.sees "(" && !c.afterWord.sees "."

/-- The statements that a word begins, with the test that it does. -/
def wordStatements (r : Rules) : List ((Cursor → Bool) × Parse Forest) :=
  [(fun c => c.seesWord "export", exportStatement r []),
    (fun c => importAhead c && !importAliasAhead c, importStatement r),
    (fun c => c.seesWord "if", ifStatement r),
    (fun c => c.seesWord "for", forStatement r),
    (fun c => c.seesWord "while", whileStatement r),
    (fun c => c.seesWord "do", doStatement r),
    (fun c => c.seesWord "switch", switchStatement r),
    (fun c => c.seesWord "try", tryStatement r),
    (fun c => c.seesWord "with", withStatement r),
    (fun c => leaveWords.any c.seesWord, leaveStatement r),
    (fun c => nameAhead c && c.afterWord.sees ":", labeledStatement r),
    (usingAhead, usingStatement r)]

def statement (r : Rules) : Parse Forest := look fun c =>
  if c.sees "\x7b" then block r
  else if c.sees ";" then node (.other "empty_statement") (symbol ";")
  else if c.sees "@" then decoratedStatement r
  else match (wordStatements r).find? (·.1 c) with
  | some w => w.2
  | none => (declaration? r c).getD (expressionStatement r)

end CodeSurvey.TypeScript.Grammar
