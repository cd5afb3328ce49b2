import RecordCheck.Text.Pieces
set_option autoImplicit false

/-!
# Files: paths

A path is a text whose names stand between slashes.  An empty name and a point stand for the
directory they are met in, two points for the one around it.  Paths are joined and cut as texts, so
that they are shown as they were given.
-/

namespace RecordCheck.Files

/-- The names of a path, in order, the empty ones included. -/
def names (path : String) : List String := (Text.pieces '/' path.toList).map String.ofList

/-- The path that names write. -/
def ofNames (names : List String) : String := "/".intercalate names

/-- The path starts at the root. -/
def isAbsolute (path : String) : Bool := path.toList.head? == some '/'

/-- A slash ends the path. -/
def endsOpen (path : String) : Bool := path.toList.getLast? == some '/'

/-- The path of a name within a directory. -/
def join (path name : String) : String :=
  if path.isEmpty || endsOpen path then path ++ name else path ++ "/" ++ name

/-- The name stands for the directory it is met in. -/
def isIdle (name : String) : Bool := name == "" || name == "."

/-- The path is a point, which idle names may follow. -/
def isHere (path : String) : Bool :=
  match names path with
  | [] => false
  | first :: rest => first == "." && rest.all isIdle

/-- Names, the last one first, without the idle ones at their end; the first name always stays. -/
def withoutIdle : List String → List String
  | [] => []
  | [first] => [first]
  | last :: before => if isIdle last then withoutIdle before else last :: before

/-- The path of the directory that holds what names lead to, its last name first; none for the root
and for the empty path. -/
def parentNames? (reversed : List String) : Option (List String) :=
  match withoutIdle reversed with
  | [] => none
  | [first] => if first = "" then none else some []
  | _ :: before => some (withoutIdle before)

/-- The path that names write, the last one first: a single empty name is the root. -/
def ofReversed (reversed : List String) : String :=
  if reversed = [""] then "/" else ofNames reversed.reverse

/-- The path of the directory that holds what a path leads to.  It is empty for a single name. -/
def parent? (path : String) : Option String := (parentNames? (names path).reverse).map ofReversed

theorem length_withoutIdle_le (reversed : List String) :
    (withoutIdle reversed).length ≤ reversed.length := by
  fun_induction withoutIdle reversed with
  | case1 => simp
  | case2 => simp
  | case3 last before _ _ ih => simp only [List.length_cons]; omega
  | case4 => simp

/-- The parent has fewer names. -/
theorem length_parentNames?_lt {reversed parent : List String}
    (h : parentNames? reversed = some parent) : parent.length < reversed.length := by
  have cut := length_withoutIdle_le reversed
  unfold parentNames? at h
  split at h
  · cases h
  · next first eq =>
    split at h
    · cases h
    · cases h
      rw [eq] at cut
      simp only [List.length_cons, List.length_nil] at cut ⊢
      omega
  · next last before _ eq =>
    cases h
    rw [eq] at cut
    have := length_withoutIdle_le before
    simp only [List.length_cons] at cut
    omega

end RecordCheck.Files
