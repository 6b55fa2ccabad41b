import Lookahead.Expression.Basic
import Lookahead.Proofs.Grammar.Predictive
import Lookahead.Proofs.Grammar.Recursion

/-!
The built-in language, built. The builders compute, so the catalog and the table of the built-in
language are known terms, and the theory of tables can be used on them. Its non-terminals can be
ranked by how tightly they bind, so no alternative is expanded in circles, and one token decides
between alternatives: a sign is no beginning of a primary expression, and an operator never follows
the tail that it could continue.
-/

namespace Lookahead.Expression

def catalog : Catalog where
  terminals := terminals
  nonterminals := productions.names
  epsilon := "EPSILON"
  unmatched := "UNMATCHED"

def grammar : Grammar where
  catalog := catalog
  slots := Grammar.placed catalog productions

theorem build_catalog : Catalog.build terminals productions.names = .ok catalog := rfl

theorem build_grammar : Grammar.build catalog productions = .ok grammar := rfl

/-- The non-terminals, those that bind most tightly first. -/
def levels : List String :=
  ["PRIMARY_EXPR", "UNARY_EXPR", "MULT_EXPR_TAIL", "MULT_EXPR", "EXPR_TAIL", "EXPR"]

theorem noHiddenLeftRecursion_grammar : grammar.NoHiddenLeftRecursion :=
  Grammar.noHiddenLeftRecursion_of_rank levels.idxOf (by decide)

theorem wellFormed_grammar : grammar.WellFormed :=
  Grammar.wellFormed_of_build (Catalog.build_eq_ok_iff.mp build_catalog).2.2 build_grammar

theorem epsilonFree_grammar : grammar.EpsilonFree := wellFormed_grammar.epsilonFree (by decide)

def primary : List String := ["NUMBER", "IDENTIFIER", "OPEN"]

def closing : List String := ["EPSILON", "CLOSE"]

def estimate : Grammar.Estimate where
  nullable := ["EXPR_TAIL", "MULT_EXPR_TAIL"]
  first
    | "EXPR_TAIL" => ["PLUSMIN"]
    | "MULT_EXPR_TAIL" => ["MULTDIV"]
    | "PRIMARY_EXPR" => primary
    | _ => "PLUSMIN" :: primary
  follow
    | "EXPR" | "EXPR_TAIL" => closing
    | "MULT_EXPR" | "MULT_EXPR_TAIL" => "PLUSMIN" :: closing
    | "UNARY_EXPR" | "PRIMARY_EXPR" => "MULTDIV" :: "PLUSMIN" :: closing
    | _ => catalog.terminals.map (·.name)

theorem predictive_grammar : grammar.Predictive "EXPR" := by
  have hclosed : estimate.Closed grammar "EXPR" :=
    ⟨by decide, by decide, by decide, by decide⟩
  exact hclosed.predictive wellFormed_grammar ⟨by decide, by decide⟩

end Lookahead.Expression
