import Footprint.Syntax.Rule

/-!
The grammar of code cells. Words are keywords only where the grammar asks for them, so most of them
can also be names. Operators of all ranks share one chain: how tightly they bind changes neither the
order of the nodes nor their roles.

The grammar is wider than the language: what it lets through is narrowed by `Conformance`.
-/

namespace Footprint.Syntax

inductive Phrase where
  | statement | simpleLine | suite | assignment | rightSide
  | expression | unconditional | disjunction | negation | comparison | unary | primary | atom
  | strings | string | interpolation | expressionList | element | splatGroup | clauses
  | arguments | argument | target | parameter | casePattern | simplePattern
  deriving DecidableEq, Repr

namespace Grammar

open Rule

def compoundWords : List String := ["if", "while", "for", "try", "with", "def", "class"]

def simpleWords : List String :=
  ["import", "from", "assert", "return", "del", "raise", "pass", "break", "continue", "global", "nonlocal"]

def operatorWords : List String := ["and", "or", "not", "in", "is", "if", "else", "as", "for"]

def constantWords : List String := ["True", "False", "None"]

abbrev R := Rule Phrase

def glue : R := layout .glue

/-- A name where no word is a keyword. -/
def anyName : R := name []

def header (rs : List R) : R := within .header (each (rs ++ [text ":"]))

def bracketed (rs : List R) (close : String) : R := within .free (each (rs ++ [text close]))

def commaList (item : R) : R := each [sep "," item, maybeComma]

/-! ### Expressions -/

def constant : R :=
  first [node .constant (token .number), node .constant "...", node .constant (anyOf constantWords)]

def lambdaParameter : R :=
  first [
    each ["**", glue, anyName],
    each ["*", anyName],
    "*",
    "/",
    each [anyName, opt (each ["=", glue, phrase .expression])],
    each [phrase .target, opt (each ["=", glue, phrase .expression])]]

def lambda : R :=
  node .lambda (each ["lambda", header [opt (commaList lambdaParameter)], glue, phrase .expression])

def named : R :=
  node .namedExpression (each [name (["not", "lambda"] ++ constantWords), ":=", glue, phrase .unconditional])

/-- What may stand to the right of `and`, `or` and `not`. -/
def logicalOperand : R := first [lambda, named, phrase .negation]

def operator : R :=
  first [each ["not", glue, "in"], each ["is", glue, opt "not"], "in", "**", "//", "<<", ">>", "<=", ">=",
    "==", "!=", "<>", "+", "-", "*", "/", "%", "@", "&", "|", "^", "<", ">"]

def yielding : R :=
  node .operation (each ["yield",
    first [each ["from", glue, phrase .expression], each [absent "from", opt (phrase .expressionList)]]])

def listSplat : R := node .listSplat (each ["*", glue, phrase .expression])

def dictionarySplat : R := node .dictionarySplat (each ["**", glue, phrase .expression])

def memberStep : Kind × Option Role × R := (.attribute, none, each [".", glue, inRole .member anyName])

def sliceTail : R :=
  each [":", opt (phrase .expression), opt (each [":", opt (phrase .expression)])]

def subscriptStep : Kind × Option Role × R :=
  (.subscript, none, each ["[",
    bracketed [glue, commaList (first [each [phrase .expression, opt sliceTail], sliceTail])] "]"])

def callStep : Kind × Option Role × R := (.call, some .callee, inRole .arguments (phrase .arguments))

def place (r : R) : R := only [.identifier, .attribute, .subscript] r

/-- A starred place. A call is part of it only where a member or element of the result follows. -/
def splatPlace : R :=
  place (chain (phrase .atom) [memberStep, subscriptStep,
    (.call, some .callee, each [inRole .arguments (phrase .arguments), ahead (first [".", "["])])])

def splatName : R := node .listSplat (each ["*", glue, splatPlace])

def awaiting : R :=
  node .operation (each ["await", absent (anyOf operatorWords), phrase .unary])

/-- A parenthesized splat where splats may stand. -/
def placedSplatGroup : R :=
  each [phrase .splatGroup, ahead (first [",", ")", "]", "\x7d"])]

def moreElements (item : R) (close : String) : R :=
  bracketed [many (each [",", item]), maybeComma] close

def group : R :=
  first [
    choose (each ["(", within .free listSplat])
      [(.collection, each [ahead ",", moreElements (phrase .element) ")"])],
    choose (each ["(", within .free (each [absent ")", first [yielding, placedSplatGroup, phrase .expression]])])
      [(.parenthesized, bracketed [] ")"), (.comprehension, bracketed [phrase .clauses] ")"),
        (.collection, moreElements (phrase .element) ")")],
    node .collection (each ["(", bracketed [] ")"])]

def listDisplay : R :=
  first [
    choose (each ["[", within .free (each [absent "]", phrase .element])])
      [(.comprehension, bracketed [phrase .clauses] "]"), (.collection, moreElements (phrase .element) "]")],
    node .collection (each ["[", bracketed [] "]"])]

def entry : R :=
  first [dictionarySplat, each [phrase .expression, ":", glue, phrase .expression]]

/-- What begins a display in braces that has no element first. -/
def entryStart : R := within .free (first ["\x7d", "**", ","])

def braceDisplay : R :=
  first [
    choose (each ["\x7b", absent entryStart, within .free (phrase .element)])
      [(.comprehension, bracketed [phrase .clauses] "\x7d"),
        (.collection, within .free (each [":", glue, phrase .expression,
          first [bracketed [phrase .clauses] "\x7d", moreElements entry "\x7d"]])),
        (.collection, moreElements (phrase .element) "\x7d")],
    node .collection (each ["\x7b", ahead entryStart, bracketed [opt (sep "," entry), maybeComma] "\x7d"])]

def comprehensionFor : R :=
  each [first [each ["async", glue, "for"], "for"],
    within .header (each [glue, phrase .target, many (each [",", absent "in", phrase .target]), maybeComma, "in"]),
    glue, phrase .unconditional,
    many (each [",", absent (anyOf ["for", "if"]), phrase .unconditional]), maybeComma]

def comprehensionIf : R := each ["if", glue, phrase .unconditional]

/-- The name of a keyword argument, with its sign. -/
def keywordStart : R :=
  each [name (["not", "lambda"] ++ constantWords), "="]

/-- What begins a list of arguments that has no plain argument first. -/
def argumentStart : R :=
  within .free (first [")", ",", "*", "**", keywordStart, each ["(", many "(", "*"]])

/-! ### Strings -/

def field (format : R) : R :=
  each [first [yielding, phrase .expressionList], opt "=", opt (token .conversion), opt format]

def formatBody : List R := [token .colon, many (first [token .formatText, phrase .interpolation])]

/-- A replacement field. Behind a lone name a walrus is read as one, never as a format. -/
def replacement : R :=
  let walrus : R := each [anyName, ":="]
  first [each [ahead walrus, field (each (absent ":=" :: formatBody))],
    each [absent walrus, field (each formatBody)]]

/-! ### Parameters and types -/

def type : R := first [each ["**", glue, anyName], phrase .expression]

def typed : R := each [":", glue, type]

def default : R := each ["=", glue, phrase .expression]

def parameters : R :=
  node .parameters (each ["(", bracketed [opt (commaList (phrase .parameter))] ")"])

def typeParameters : R :=
  each ["[", bracketed [glue, commaList (each [type, opt typed])] "]"]

def argumentList : R :=
  node .argumentList (each ["(", bracketed [opt (sep "," (phrase .argument)), maybeComma] ")"])

/-! ### Simple statements -/

def dottedName : R := node .dottedName (each [anyName, many (each [".", glue, anyName])])

def importedName : R :=
  inRole .name (first [choose (inRole .name dottedName) [(.renamedImport, each ["as", glue, anyName])], dottedName])

def importedNames : R := commaList importedName

def importedGroup : R := each ["(", bracketed [glue, importedNames] ")"]

def importStatement : R := node .importStatement (each ["import", glue, importedNames])

def futureImport : R :=
  node .futureImport (each ["from", glue, "__future__", glue, "import", glue, first [importedGroup, importedNames]])

def relativeModule : R :=
  node .relativeModule (each [first ["...", "."], many (first ["...", "."]), opt (each [absent "import", dottedName])])

def fromImport : R :=
  node .fromImport (each ["from", glue, inRole .moduleName (first [relativeModule, dottedName]), glue, "import",
    glue, first [node .wildcard "*", importedGroup, importedNames]])

def simple (rs : List R) : R := node .simpleStatement (each rs)

def keywordStatement : R :=
  first [
    importStatement,
    futureImport,
    each [absent (each ["from", "__future__"]), fromImport],
    simple ["assert", glue, sep "," (phrase .expression)],
    simple ["return", opt (phrase .expressionList)],
    simple ["del", glue, phrase .expressionList],
    simple ["raise", opt (each [absent "from", phrase .expressionList]), opt (each ["from", glue, phrase .expression])],
    simple [anyOf ["pass", "break", "continue"]],
    simple [anyOf ["global", "nonlocal"], glue, sep "," anyName]]

def printTo : R := each ["print", ">>"]

def printToStatement : R :=
  node .printStatement (each [printTo, glue, phrase .expression, many (each [",", phrase .expression]), maybeComma])

def printStatement : R :=
  node .printStatement (each ["print", absent (anyOf ["and", "or", "in", "is", "if", "as"]),
    commaList (phrase .expression)])

def executed : R := first [phrase .string, name operatorWords]

def execStatement : R :=
  node .execStatement (each ["exec", executed, opt (each ["in", glue, sep "," (phrase .expression)])])

def typeStatement : R :=
  simple ["type", absent (anyOf operatorWords), type, "=", glue, type]

def statementEnd : R := first [";", layout .newline]

def expressionStatement : R :=
  node .expressionStatement (first [phrase .assignment, yielding, phrase .expressionList])

/-- A word that is first in a statement and leaves no other reading. -/
def committed : R := first [anyOf simpleWords, printTo, each ["exec", executed]]

def simpleStatement : R :=
  first [
    keywordStatement,
    printToStatement,
    execStatement,
    each [typeStatement, ahead statementEnd],
    each [absent committed, first [each [expressionStatement, ahead statementEnd], printStatement]]]

/-! ### Compound statements -/

def compound (rs : List R) : R := node .compoundStatement (each rs)

def maybeAsync (word : String) : R := first [each ["async", glue, text word], text word]

/-- A clause of the statement before it: on a line of its own, in the same suite. -/
def clause (rs : List R) : R := each [layout .line, node .clause (each rs)]

/-- Words that cannot begin a statement here, being keywords of the statement before. -/
def noClause (ws : List String) : R := absent (each [layout .line, anyOf ws])

def elseClause : R := clause ["else", header [], phrase .suite]

def maybeElse (ws : List String) : R := first [elseClause, noClause ws]

def finallyClause : R := clause ["finally", header [], phrase .suite]

def ifStatement : R :=
  compound ["if", header [glue, phrase .expression], phrase .suite,
    many (clause ["elif", header [glue, phrase .expression], phrase .suite]), maybeElse ["elif", "else"]]

def whileStatement : R :=
  compound ["while", header [glue, phrase .expression], phrase .suite, maybeElse ["else"]]

def forStatement : R :=
  compound [maybeAsync "for",
    header [glue, phrase .target, many (each [",", absent "in", phrase .target]), maybeComma, "in", glue,
      phrase .expressionList],
    phrase .suite, maybeElse ["else"]]

def exceptClause : R :=
  clause [
    first [
      each ["except*", header [glue, phrase .expression]],
      each ["except", header [opt (each [phrase .expression, opt (each [",", glue, phrase .expression])])]]],
    phrase .suite]

def tryStatement : R :=
  compound ["try", header [], phrase .suite,
    first [
      each [exceptClause, many exceptClause, maybeElse ["except", "else"], first [finallyClause, noClause ["finally"]]],
      finallyClause]]

def withStatement : R :=
  compound [maybeAsync "with", header [glue, phrase .expressionList], phrase .suite]

def functionDefinition : R :=
  compound [maybeAsync "def",
    header [glue, anyName, opt typeParameters, parameters, opt (each ["->", glue, type])], phrase .suite]

def classDefinition : R :=
  compound ["class", header [glue, anyName, opt typeParameters, opt argumentList], phrase .suite]

def decorator : R := each ["@", within .line (each [glue, phrase .expression, layout .newline])]

def decorated : R :=
  compound [decorator, many (each [glue, decorator]), glue, first [functionDefinition, classDefinition]]

def caseClause : R :=
  clause ["case", header [glue, commaList (phrase .casePattern), opt (each ["if", glue, phrase .expression])],
    phrase .suite]

def matchStatement : R :=
  compound ["match", absent (anyOf operatorWords), ahead (within .line (layout .lead)),
    header [phrase .expressionList],
    first [each [layout .indent, node .block (each [many caseClause, layout .dedent])],
      each [absent (layout .indent), layout .newline]]]

/-! ### Patterns -/

def numberPattern : R :=
  let number : R := token .number
  node .constant (each [opt "-", number, opt (each [first ["+", "-"], number])])

def patternList (close : String) : R := bracketed [opt (commaList (phrase .casePattern))] close

def patternAtom : R :=
  first [
    phrase .strings,
    numberPattern,
    node .constant (anyOf constantWords),
    node .pattern (each ["[", patternList "]"]),
    node .pattern (each ["(", patternList ")"]),
    node .pattern (each ["\x7b", bracketed [opt (commaList (first [each ["**", glue, anyName],
      each [phrase .simplePattern, ":", glue, phrase .casePattern]]))] "\x7d"]),
    node .pattern (each [first ["**", "*"], glue, anyName]),
    node .pattern (each [dottedName, opt (each ["(", patternList ")"])])]

end Grammar

open Rule Grammar

def grammar : Phrase → Rule Phrase
  | .statement =>
    first [ifStatement, whileStatement, forStatement, tryStatement, withStatement, functionDefinition,
      classDefinition, decorated, matchStatement, each [absent (anyOf compoundWords), phrase .simpleLine]]
  | .simpleLine =>
    within .line (each [simpleStatement, many (each [";", simpleStatement]), opt ";", layout .newline])
  | .suite =>
    first [
      each [layout .indent, node .block (each [many (each [layout .line, phrase .statement]), layout .dedent])],
      each [absent (layout .indent), layout .newline],
      each [absent (layout .newline), node .block (phrase .simpleLine)]]
  | .assignment =>
    choose (each [phrase .target, many (each [",", phrase .target]), maybeComma]) [
      (.assignment, each ["=", glue, phrase .rightSide]),
      (.assignment, each [typed, opt (each ["=", glue, phrase .rightSide])]),
      (.assignment, each [first ["+=", "-=", "*=", "/=", "@=", "//=", "%=", "**=", ">>=", "<<=", "&=", "^=", "|="],
        glue, phrase .rightSide])]
  | .rightSide => first [phrase .assignment, yielding, phrase .expressionList]
  | .expression =>
    chain (phrase .unconditional) [
      (.conditional, none, each ["if", within .header (each [glue, phrase .expression, "else"]), glue,
        phrase .expression]),
      (.asPattern, none, each ["as", glue, phrase .unconditional])]
  | .unconditional => first [lambda, named, each [absent "lambda", phrase .disjunction]]
  | .disjunction =>
    chain (phrase .negation) [(.operation, none, each [anyOf ["and", "or"], glue, logicalOperand])]
  | .negation =>
    first [node .operation (each ["not", glue, logicalOperand]), each [absent "not", phrase .comparison]]
  | .comparison => chain (phrase .unary) [(.operation, none, each [operator, glue, phrase .unary])]
  | .unary =>
    first [node .operation (each [first ["-", "+", "~"], glue, phrase .unary]), awaiting, phrase .primary]
  | .primary => chain (phrase .atom) [memberStep, callStep, subscriptStep]
  | .atom =>
    first [phrase .strings, constant, group, listDisplay, braceDisplay, splatName, name constantWords]
  | .strings =>
    chain (phrase .string) [(.concatenatedString, none, each [phrase .string, many (phrase .string)])]
  | .string =>
    first [node .string (token .plainString),
      node .string (each [token .openFormatted, many (first [token .formattedText, phrase .interpolation]),
        token .closeFormatted])]
  | .interpolation => node .interpolation (each ["\x7b", bracketed [replacement] "\x7d"])
  | .expressionList => commaList (phrase .expression)
  | .element =>
    first [yielding, listSplat, placedSplatGroup, each [absent "*", phrase .expression]]
  | .splatGroup =>
    node .parenthesized (each ["(", bracketed [first [phrase .splatGroup, listSplat]] ")"])
  | .clauses => each [comprehensionFor, many (first [comprehensionFor, comprehensionIf])]
  | .arguments =>
    first [
      choose (each ["(", absent argumentStart, within .free (phrase .expression)]) [
        (.comprehension, bracketed [phrase .clauses] ")"),
        (.argumentList, moreElements (phrase .argument) ")")],
      each [ahead (each ["(", argumentStart]), argumentList]]
  | .argument =>
    first [
      listSplat,
      dictionarySplat,
      node .keywordArgument (each [keywordStart, glue, phrase .expression]),
      placedSplatGroup,
      each [absent (first ["*", "**"]), phrase .expression]]
  | .target =>
    first [
      splatName,
      place (phrase .primary),
      node .pattern (each ["(", bracketed [opt (commaList (phrase .target))] ")"]),
      node .pattern (each ["[", bracketed [opt (commaList (phrase .target))] "]"])]
  | .parameter =>
    first [
      each ["**", glue, splatPlace, opt typed],
      each ["*", splatPlace, opt typed],
      "*",
      "/",
      each [anyName, opt typed, opt default],
      each [node .pattern (each ["(", bracketed [opt (commaList (phrase .target))] ")"]), opt default]]
  | .casePattern =>
    chain (first [node .pattern (each [anyName, "=", glue, phrase .simplePattern]), phrase .simplePattern])
      [(.pattern, none, each ["as", glue, anyName])]
  | .simplePattern => chain patternAtom [(.pattern, none, each ["|", glue, patternAtom])]

def cell : Rule Phrase :=
  node .module (each [many (each [layout .line, phrase .statement]), layout .finish])

/-- More than the depth to which rules can nest over a text. -/
def fuelFor (source : List Char) : Nat := 100 * (source.length + 10)

/-- The syntax tree of a cell, if the grammar reads all of it. -/
def Tree.ofSource? (source : List Char) : Option Tree :=
  match run grammar (fuelFor source) cell { rest := source } with
  | .accept ts _ => ts.find? (·.kind = .module)
  | _ => none

end Footprint.Syntax
