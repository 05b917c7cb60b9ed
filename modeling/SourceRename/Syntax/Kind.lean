/-!
# Kinds of tokens and nodes

One list names what a piece of Java or Kotlin source can be: tokens first, then nodes, then text
that no rule reads.  The classes (trivia, keywords, punctuation, expressions, statements) are
predicates on it.
-/

namespace SourceRename

/-- What a token or a node is. -/
inductive Kind
  -- whitespace and comments
  | whitespace | lineComment | blockComment
  -- names and literals
  | ident | integer | decimal | string | char
  -- punctuation
  | lBrace | rBrace | lBracket | rBracket | lParen | rParen | semicolon | comma | dot
  | ellipsis | at | colon | colonColon | question | arrow | eq | eqEq | bangEq | lt | gt | ltEq
  | gtEq | plus | minus | star | slash | percent | amp | pipe | caret | bang | tilde | ampAmp
  | pipePipe | plusPlus | minusMinus | plusEq | minusEq | starEq | slashEq
  -- keywords
  | packageKw | importKw | classKw | interfaceKw | enumKw | extendsKw | implementsKw | newKw
  | returnKw | thisKw | superKw | nullKw | trueKw | falseKw | staticKw | finalKw | publicKw
  | privateKw | protectedKw | abstractKw | switchKw | caseKw | defaultKw | ifKw | elseKw
  | throwsKw | instanceofKw | funKw | valKw | varKw
  -- declarations
  | sourceFile | packageDecl | importDecl | classDecl | modifierList | annotationUse
  | annotationArgs | annotationAttr | arrayInit | fieldDecl | methodDecl | parameterList
  | parameter | typeUse | typeArgs | reference
  -- statements
  | block | blockStmt | exprStmt | returnStmt | localVar | switchStmt | switchLabel
  -- Java expressions
  | referenceExpr | methodCall | argList | newExpr | assignment | binaryExpr | parenExpr
  | castExpr | literal | classLiteral | thisExpr | superExpr | lambdaExpr
  -- Kotlin
  | funDecl | propertyDecl | userType | nameRef | callExpr | valueArgs | dotQualified
  -- text that is no token, and the end of the list
  | error | sentinel
deriving DecidableEq

namespace Kind

def name : Kind → String
  | .whitespace => "WHITESPACE"
  | .lineComment => "LINE_COMMENT"
  | .blockComment => "BLOCK_COMMENT"
  | .ident => "IDENT"
  | .integer => "INTEGER"
  | .decimal => "DECIMAL"
  | .string => "STRING"
  | .char => "CHAR"
  | .lBrace => "L_BRACE"
  | .rBrace => "R_BRACE"
  | .lBracket => "L_BRACKET"
  | .rBracket => "R_BRACKET"
  | .lParen => "L_PAREN"
  | .rParen => "R_PAREN"
  | .semicolon => "SEMICOLON"
  | .comma => "COMMA"
  | .dot => "DOT"
  | .ellipsis => "ELLIPSIS"
  | .at => "AT"
  | .colon => "COLON"
  | .colonColon => "COLON_COLON"
  | .question => "QUESTION"
  | .arrow => "ARROW"
  | .eq => "EQ"
  | .eqEq => "EQ_EQ"
  | .bangEq => "BANG_EQ"
  | .lt => "LT"
  | .gt => "GT"
  | .ltEq => "LT_EQ"
  | .gtEq => "GT_EQ"
  | .plus => "PLUS"
  | .minus => "MINUS"
  | .star => "STAR"
  | .slash => "SLASH"
  | .percent => "PERCENT"
  | .amp => "AMP"
  | .pipe => "PIPE"
  | .caret => "CARET"
  | .bang => "BANG"
  | .tilde => "TILDE"
  | .ampAmp => "AMP_AMP"
  | .pipePipe => "PIPE_PIPE"
  | .plusPlus => "PLUS_PLUS"
  | .minusMinus => "MINUS_MINUS"
  | .plusEq => "PLUS_EQ"
  | .minusEq => "MINUS_EQ"
  | .starEq => "STAR_EQ"
  | .slashEq => "SLASH_EQ"
  | .packageKw => "PACKAGE_KW"
  | .importKw => "IMPORT_KW"
  | .classKw => "CLASS_KW"
  | .interfaceKw => "INTERFACE_KW"
  | .enumKw => "ENUM_KW"
  | .extendsKw => "EXTENDS_KW"
  | .implementsKw => "IMPLEMENTS_KW"
  | .newKw => "NEW_KW"
  | .returnKw => "RETURN_KW"
  | .thisKw => "THIS_KW"
  | .superKw => "SUPER_KW"
  | .nullKw => "NULL_KW"
  | .trueKw => "TRUE_KW"
  | .falseKw => "FALSE_KW"
  | .staticKw => "STATIC_KW"
  | .finalKw => "FINAL_KW"
  | .publicKw => "PUBLIC_KW"
  | .privateKw => "PRIVATE_KW"
  | .protectedKw => "PROTECTED_KW"
  | .abstractKw => "ABSTRACT_KW"
  | .switchKw => "SWITCH_KW"
  | .caseKw => "CASE_KW"
  | .defaultKw => "DEFAULT_KW"
  | .ifKw => "IF_KW"
  | .elseKw => "ELSE_KW"
  | .throwsKw => "THROWS_KW"
  | .instanceofKw => "INSTANCEOF_KW"
  | .funKw => "FUN_KW"
  | .valKw => "VAL_KW"
  | .varKw => "VAR_KW"
  | .sourceFile => "SOURCE_FILE"
  | .packageDecl => "PACKAGE_DECL"
  | .importDecl => "IMPORT"
  | .classDecl => "CLASS"
  | .modifierList => "MODIFIER_LIST"
  | .annotationUse => "ANNOTATION"
  | .annotationArgs => "ANNOTATION_ARGS"
  | .annotationAttr => "ANNOTATION_ATTR"
  | .arrayInit => "ARRAY_INIT"
  | .fieldDecl => "FIELD"
  | .methodDecl => "METHOD"
  | .parameterList => "PARAMETER_LIST"
  | .parameter => "PARAMETER"
  | .typeUse => "TYPE"
  | .typeArgs => "TYPE_ARGS"
  | .reference => "REFERENCE"
  | .block => "BLOCK"
  | .blockStmt => "BLOCK_STMT"
  | .exprStmt => "EXPR_STMT"
  | .returnStmt => "RETURN_STMT"
  | .localVar => "LOCAL_VAR"
  | .switchStmt => "SWITCH_STMT"
  | .switchLabel => "SWITCH_LABEL"
  | .referenceExpr => "REFERENCE_EXPR"
  | .methodCall => "METHOD_CALL"
  | .argList => "ARG_LIST"
  | .newExpr => "NEW_EXPR"
  | .assignment => "ASSIGNMENT"
  | .binaryExpr => "BINARY_EXPR"
  | .parenExpr => "PAREN_EXPR"
  | .castExpr => "CAST_EXPR"
  | .literal => "LITERAL"
  | .classLiteral => "CLASS_LITERAL"
  | .thisExpr => "THIS_EXPR"
  | .superExpr => "SUPER_EXPR"
  | .lambdaExpr => "LAMBDA_EXPR"
  | .funDecl => "FUN"
  | .propertyDecl => "PROPERTY"
  | .userType => "USER_TYPE"
  | .nameRef => "NAME_REF"
  | .callExpr => "CALL_EXPR"
  | .valueArgs => "VALUE_ARGS"
  | .dotQualified => "DOT_QUALIFIED"
  | .error => "ERROR"
  | .sentinel => "__LAST"

def all : List Kind := [
  .whitespace, .lineComment, .blockComment, .ident, .integer, .decimal, .string, .char,
  .lBrace, .rBrace, .lBracket, .rBracket, .lParen, .rParen, .semicolon, .comma, .dot,
  .ellipsis, .at, .colon, .colonColon, .question, .arrow, .eq, .eqEq, .bangEq, .lt, .gt, .ltEq,
  .gtEq, .plus, .minus, .star, .slash, .percent, .amp, .pipe, .caret, .bang, .tilde, .ampAmp,
  .pipePipe, .plusPlus, .minusMinus, .plusEq, .minusEq, .starEq, .slashEq, .packageKw,
  .importKw, .classKw, .interfaceKw, .enumKw, .extendsKw, .implementsKw, .newKw, .returnKw,
  .thisKw, .superKw, .nullKw, .trueKw, .falseKw, .staticKw, .finalKw, .publicKw, .privateKw,
  .protectedKw, .abstractKw, .switchKw, .caseKw, .defaultKw, .ifKw, .elseKw, .throwsKw,
  .instanceofKw, .funKw, .valKw, .varKw, .sourceFile, .packageDecl, .importDecl, .classDecl,
  .modifierList, .annotationUse, .annotationArgs, .annotationAttr, .arrayInit, .fieldDecl,
  .methodDecl, .parameterList, .parameter, .typeUse, .typeArgs, .reference, .block, .blockStmt,
  .exprStmt, .returnStmt, .localVar, .switchStmt, .switchLabel, .referenceExpr, .methodCall,
  .argList, .newExpr, .assignment, .binaryExpr, .parenExpr, .castExpr, .literal, .classLiteral,
  .thisExpr, .superExpr, .lambdaExpr, .funDecl, .propertyDecl, .userType, .nameRef, .callExpr,
  .valueArgs, .dotQualified, .error, .sentinel]

def ofName? (name : String) : Option Kind := all.find? (·.name == name)

def index (k : Kind) : Nat := k.ctorIdx

def isTrivia : Kind → Bool
  | .whitespace | .lineComment | .blockComment => true
  | _ => false

def isKeyword (k : Kind) : Bool := Kind.packageKw.index ≤ k.index && k.index ≤ Kind.varKw.index

def isPunctuation (k : Kind) : Bool := Kind.lBrace.index ≤ k.index && k.index ≤ Kind.slashEq.index

/-- Kinds of tokens; text that no rule reads is a token too. -/
def isToken (k : Kind) : Bool := k.index < Kind.sourceFile.index || k == .error

def isExpression : Kind → Bool
  | .referenceExpr | .methodCall | .newExpr | .assignment | .binaryExpr | .parenExpr
  | .castExpr | .literal | .classLiteral | .thisExpr | .superExpr | .lambdaExpr | .arrayInit
  | .nameRef | .callExpr | .dotQualified => true
  | _ => false

def isStatement : Kind → Bool
  | .blockStmt | .exprStmt | .returnStmt | .localVar | .switchStmt => true
  | _ => false

/-- A node of this kind may be declared: it is no token, not the whole file and not the end of the
list. -/
def isDeclarable (k : Kind) : Bool := !k.isToken && k != .sourceFile && k != .sentinel

def keywords : List (String × Kind) := [
  ("package", .packageKw), ("import", .importKw), ("class", .classKw), ("interface", .interfaceKw),
  ("enum", .enumKw), ("extends", .extendsKw), ("implements", .implementsKw), ("new", .newKw),
  ("return", .returnKw), ("this", .thisKw), ("super", .superKw), ("null", .nullKw),
  ("true", .trueKw), ("false", .falseKw), ("static", .staticKw), ("final", .finalKw),
  ("public", .publicKw), ("private", .privateKw), ("protected", .protectedKw), ("abstract", .abstractKw),
  ("switch", .switchKw), ("case", .caseKw), ("default", .defaultKw), ("if", .ifKw),
  ("else", .elseKw), ("throws", .throwsKw), ("instanceof", .instanceofKw), ("fun", .funKw),
  ("val", .valKw), ("var", .varKw)]

def ofWord (word : String) : Kind :=
  ((keywords.find? (·.1 == word)).map (·.2)).getD .ident

end Kind

end SourceRename
