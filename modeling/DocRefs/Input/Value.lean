import DocRefs.Number.Binary64

/-!
# Values handed in

Data from outside before it is checked: what a request or a configuration may hold.
-/

namespace DocRefs

/-- A value of a data format with null, booleans, numbers, texts, lists and objects. Whole numbers and others are told
apart. -/
inductive Value
  | null
  | bool (b : Bool)
  | whole (n : Int)
  | number (x : Binary64)
  | text (s : String)
  | list (items : List Value)
  | object (fields : List (String × Value))
deriving Repr, Inhabited

/-- The field of that name, the last one if there are several. -/
def Value.field? (name : String) : Value → Option Value
  | object fields => (fields.reverse.find? (·.1 = name)).map (·.2)
  | _ => none

end DocRefs
