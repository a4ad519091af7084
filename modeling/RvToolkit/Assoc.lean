namespace RvToolkit

/-- Entries in the order in which their keys first came. -/
abbrev Assoc (α β : Type) := List (α × β)

namespace Assoc

variable {α β : Type} [DecidableEq α]

def get? (k : α) : Assoc α β → Option β
  | [] => none
  | (a, b) :: es => if a = k then some b else get? k es

def contains (k : α) (es : Assoc α β) : Bool := (get? k es).isSome

def insert (k : α) (v : β) : Assoc α β → Assoc α β
  | [] => [(k, v)]
  | (a, b) :: es => if a = k then (k, v) :: es else (a, b) :: insert k v es

def ofPairs (ps : List (α × β)) : Assoc α β := ps.foldl (fun es p => insert p.1 p.2 es) []

end Assoc

end RvToolkit
