import Lookahead.Definition
import Lookahead.Expression.Comment

/-!
The built-in language: arithmetic expressions with names, numbers and parentheses, and comments in
two styles. Comments and white space are tokens of the lexer, but not part of the grammar;
`comments` takes them out in between.

The patterns for comments match the delimiters alone, so that what is inside a comment is
tokenized like anything else. The token for a documentation comment has no pattern: only the
filter makes one.
-/

namespace Lookahead.Expression

def numberPattern : String := "(?:[0-9]+(?:\\.[0-9]+)?|\\.[0-9]+)(?:[Ee][+-]?[0-9]+)?"

def identifierPattern : String := "[a-zA-Z_][a-zA-Z_0-9]*"

/-- Printable ASCII and escapes between double quotes. -/
def stringPattern : String :=
  "\"(?:[\\x20\\x21\\x23-\\x5b\\x5d-\\x7e]|\\\\[\"\\'nftba\\\\]|\\\\u[0-9a-fA-F]{4})*\""

def terminals : List Terminal := [
  { name := "EPSILON", epsilon := true },
  { name := "WHITESPACE", patterns := ["[ \\t\\x0b\\f]+"] },
  { name := "NEWLINE", patterns := ["\\r\\n|\\r|\\n"] },
  { name := "DOC_COMMENT_OPEN", patterns := ["/\\*\\*"] },
  { name := "COMMENT_OPEN", patterns := ["/\\*"] },
  { name := "COMMENT_CLOSE", patterns := ["\\*/"] },
  { name := "COMMENT", patterns := ["//"] },
  { name := "PLUSMIN", patterns := ["[+-]"] },
  { name := "MULTDIV", patterns := ["[*/]"] },
  { name := "OPEN", patterns := ["\\("] },
  { name := "CLOSE", patterns := ["\\)"] },
  { name := "NUMBER", patterns := [numberPattern] },
  { name := "IDENTIFIER", patterns := [identifierPattern] },
  { name := "STRING_LITERAL", patterns := [stringPattern] },
  { name := "UNMATCHED", unmatched := true },
  { name := "DOC_COMMENT" }]

/-- Products bind more tightly than sums, and signs more tightly than products. Repetition is
written with a tail that may be empty. -/
def productions : Productions := [
  ("EXPR", [["MULT_EXPR", "EXPR_TAIL"]]),
  ("EXPR_TAIL", [["PLUSMIN", "MULT_EXPR", "EXPR_TAIL"], []]),
  ("MULT_EXPR", [["UNARY_EXPR", "MULT_EXPR_TAIL"]]),
  ("MULT_EXPR_TAIL", [["MULTDIV", "UNARY_EXPR", "MULT_EXPR_TAIL"], []]),
  ("UNARY_EXPR", [["PLUSMIN", "UNARY_EXPR"], ["PRIMARY_EXPR"]]),
  ("PRIMARY_EXPR", [["NUMBER"], ["IDENTIFIER"], ["OPEN", "EXPR", "CLOSE"]])]

def definition : Definition := { terminals, productions }

end Lookahead.Expression
