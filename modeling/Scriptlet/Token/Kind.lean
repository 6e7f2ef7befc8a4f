/-!
# Scriptlet.Token.Kind

The kinds of tokens. The set is closed: the parser and every fault message use only these.
`Kind.name` is the spelling of a kind in fault messages, `Kind.spelling?` the text of the tokens
of a kind when they all have the same one.
-/

namespace Scriptlet

inductive Kind where
  | number
  | string
  | boolean
  | identifier
  | semicolon
  | openBrace
  | closeBrace
  | openParen
  | closeParen
  | comma
  /-- A comma and a closing parenthesis with nothing between them, which are one token. -/
  | commaCloseParen
  | operator
  | assign
  | functionWord
  | letWord
  | ifWord
  | elseWord
  | forWord
  | ofWord
  deriving DecidableEq, Repr

namespace Kind

def all : List Kind :=
  [number, string, boolean, identifier, semicolon, openBrace, closeBrace, openParen, closeParen,
    comma, commaCloseParen, operator, assign, functionWord, letWord, ifWord, elseWord, forWord,
    ofWord]

def name : Kind → String
  | number => "Number"
  | string => "String"
  | boolean => "Boolean"
  | identifier => "Identifier"
  | semicolon => "Semicolon"
  | openBrace => "OpeningBracket"
  | closeBrace => "ClosingBracket"
  | openParen => "OpeningParenthesis"
  | closeParen => "ClosingParenthesis"
  | comma => "Comma"
  | commaCloseParen => "CommaFollowedByClosingParenthesis"
  | operator => "BinaryOperator"
  | assign => "AssignmentOperator"
  | functionWord => "FunctionKeyword"
  | letWord => "LetKeyword"
  | ifWord => "IfKeyword"
  | elseWord => "ElseKeyword"
  | forWord => "ForKeyword"
  | ofWord => "OfKeyword"

def spelling? : Kind → Option String
  | semicolon => some ";"
  | openBrace => some "\x7b"
  | closeBrace => some "\x7d"
  | openParen => some "("
  | closeParen => some ")"
  | comma => some ","
  | commaCloseParen => some ",)"
  | assign => some "="
  | functionWord => some "function"
  | letWord => some "let"
  | ifWord => some "if"
  | elseWord => some "else"
  | forWord => some "for"
  | ofWord => some "of"
  | number | string | boolean | identifier | operator => none

theorem mem_all (k : Kind) : k ∈ all := by cases k <;> decide

/-- No two kinds have one name. -/
theorem name_injective {j k : Kind} (h : j.name = k.name) : j = k := by
  revert h
  cases j <;> cases k <;> decide

end Kind

end Scriptlet
