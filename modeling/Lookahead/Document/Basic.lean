import Lookahead.Table

/-!
Documents: the values that a language definition can be written down in. There are the usual six
kinds of value, and numbers with a fraction or an exponent are told apart from integers, because
no definition has a use for them.
-/

namespace Lookahead

inductive Document where
  | null
  | bool (value : Bool)
  | integer (value : Int)
  | real
  | string (value : String)
  | list (items : List Document)
  | object (fields : List (String × Document))
  deriving Repr, Inhabited

namespace Document

def asString? : Document → Option String
  | string value => some value
  | _ => none

def asBool? : Document → Option Bool
  | bool value => some value
  | _ => none

def asInteger? : Document → Option Int
  | integer value => some value
  | _ => none

def asList? : Document → Option (List Document)
  | list items => some items
  | _ => none

def asObject? : Document → Option (Table Document)
  | object fields => some fields
  | _ => none

/-- The value of a field; nothing for a field that is not there and for what is no object. -/
def field? : Document → String → Option Document
  | object fields, name => Table.get? fields name
  | _, _ => none

def asStrings? (d : Document) : Option (List String) :=
  d.asList?.bind fun items => items.mapM asString?

end Document

end Lookahead
