set_option autoImplicit false

/-!
# Tables: members in order of first insertion

A table is a list of named members.  Inserting under a name that is there keeps its place and
replaces its content; erasing moves the last member into the gap.
-/

namespace RecordCheck

/-- Named members in order. -/
abbrev Table (α : Type) : Type := List (String × α)

namespace Table

variable {α : Type}

/-- The content under a name. -/
def find? (name : String) : Table α → Option α
  | [] => none
  | (n, content) :: rest => if n = name then some content else find? name rest

/-- The table with a content under a name: in place if the name is there, else at the end. -/
def insert (name : String) (content : α) : Table α → Table α
  | [] => [(name, content)]
  | (n, old) :: rest =>
    if n = name then (n, content) :: rest else (n, old) :: insert name content rest

/-- The table of a list of members: each name at its first place with its last content. -/
def ofMembers (members : List (String × α)) : Table α :=
  members.foldl (fun table m => insert m.1 m.2 table) []

/-- The table without a name; the last member takes the place that becomes free. -/
def erase (name : String) : Table α → Table α
  | [] => []
  | (n, content) :: rest =>
    if n = name then
      match rest.getLast? with
      | none => []
      | some last => last :: rest.dropLast
    else (n, content) :: erase name rest

/-- The names, in order. -/
def names (table : Table α) : List String := table.map Prod.fst

end Table
end RecordCheck
