import RecordCheck.Filter.Library
import RecordCheck.Filter.Primitive
set_option autoImplicit false

/-!
# Filter: evaluation

Runs a filter on a value (`eval`), and changes the nodes that a filter selects (`update`).  Both
take a depth, one for each level of nesting of filters and calls; a filter nested deeper stops.

Where a filter combines the outputs of several filters, the outputs of the first vary slowest.
-/

namespace RecordCheck.Filter

/-- What a check gives, or why it stops. -/
def Checked.lift {α : Type} : Checked α → Except Stop α
  | .ok a => .ok a
  | .error p => .error (.problem p)

/-- One output that is given or stops. -/
def Results.given {α : Type} (r : Except Stop α) : Results α := .item r fun _ => .done

namespace Eval

mutual

/-- The scopes in which the names of a pattern stand for parts of a value. -/
def destructure (run : Runner) (input : Value) (part : Value) :
    Pattern → Scope → Results Scope
  | .variable name, scope => .one (.value name part scope)
  | .array items, scope => destructureItems run input part 0 items scope
  | .object entries, scope => destructureEntries run input part entries scope

/-- The scopes of patterns for items, from the item number `i` on. -/
def destructureItems (run : Runner) (input : Value) (part : Value) (i : Nat) :
    List Pattern → Scope → Results Scope
  | [], scope => .one scope
  | p :: rest, scope =>
    match Value.at' part (.integer i) with
    | .error problem => .stop (.problem problem)
    | .ok item =>
      (destructure run input item p scope).bind fun scope =>
        destructureItems run input part (i + 1) rest scope

/-- The scopes of patterns for members. -/
def destructureEntries (run : Runner) (input : Value) (part : Value) :
    List (Term × Pattern) → Scope → Results Scope
  | [], scope => .one scope
  | (name, p) :: rest, scope =>
    (run scope name input).bind fun name =>
      match Value.at' part name with
      | .error problem => .stop (.problem problem)
      | .ok content =>
        (destructure run input content p scope).bind fun scope =>
          destructureEntries run input part rest scope

end

/-- The scopes in which a pattern names the parts of each output of a filter. -/
def bindings (run : Runner) (scope : Scope) (source : Term) (p : Pattern) (v : Value) :
    Results Scope :=
  (run scope source v).bind fun part => destructure run v part p scope

/-- The texts of the pieces of a string. -/
def pieceTexts (run : Runner) (scope : Scope) (format : Value → Results Value) (v : Value) :
    List Piece → Results String
  | [] => .one ""
  | .chars s :: rest =>
    (pieceTexts run scope format v rest).map fun r => r.map (s ++ ·)
  | .embedded t :: rest =>
    ((run scope t v).bind format).bind fun w =>
      (pieceTexts run scope format v rest).map fun r => r.map (w.display ++ ·)

/-- The two outputs of two filters, if both are values. -/
def both (left right : Except Stop Value) : Except Stop (Value × Value) :=
  match left, right with
  | .error s, _ => .error s
  | .ok _, .error s => .error s
  | .ok v, .ok w => .ok (v, w)

/-- All pairs of outputs of two filters. -/
def pairs (run : Runner) (scope : Scope) (left right : Term) (v : Value) :
    Results (Value × Value) :=
  (run scope left v).flatMap fun l =>
    (run scope right v).flatMap fun r => Results.given (both l r)

/-- An entry of an object; its name has to be a text. -/
def entryOf (pair : Value × Value) : Except Stop (String × Value) :=
  (Value.string? pair.1).lift.map fun name => (name, pair.2)

/-- An object with one entry more. -/
def withEntry (members : Except Stop (List (String × Value)))
    (entry : Except Stop (Value × Value)) : Except Stop (List (String × Value)) :=
  match members, entry with
  | .error s, _ => .error s
  | .ok _, .error s => .error s
  | .ok ms, .ok pair => (entryOf pair).map fun (name, content) => Table.insert name content ms

/-- All objects with the entries that filters give, behind those there are. -/
def objects (run : Runner) (scope : Scope) (v : Value)
    (members : Except Stop (List (String × Value))) :
    List (Term × Term) → Results Value
  | [] => Results.given (members.map .object)
  | (name, content) :: rest =>
    (pairs run scope name content v).flatMap fun pair =>
      objects run scope v (withEntry members pair) rest

/-- A part of a path with the values that its filters gave. -/
inductive Step where
  | index (v : Value)
  | each
  | slice (start stop : Option Value)

/-- The outputs of a filter that may be missing. -/
def optional (run : Runner) (scope : Scope) (v : Value) : Option Term → Results (Option Value)
  | none => .one none
  | some t => (run scope t v).map fun r => r.map some

/-- The steps that a part of a path stands for. -/
def steps (run : Runner) (scope : Scope) (v : Value) : Part → Results Step
  | .index t => (run scope t v).map fun r => r.map .index
  | .each => .one .each
  | .slice start stop =>
    (optional run scope v start).bind fun start =>
      (optional run scope v stop).map fun r => r.map (.slice start)

/-- All ways that a path stands for; each step says whether it drops errors. -/
def ways (run : Runner) (scope : Scope) (v : Value) :
    List (Part × Bool) → Results (List (Step × Bool))
  | [] => .one []
  | (part, drops) :: rest =>
    (steps run scope v part).bind fun step =>
      (ways run scope v rest).map fun r => r.map ((step, drops) :: ·)

/-- What a check gives, unless errors are dropped. -/
def droppable (drops : Bool) (r : Checked (List Value)) : Results Value :=
  match r with
  | .ok vs => .ofList vs
  | .error p => if drops then .done else .stop (.problem p)

/-- The nodes that a step leads to. -/
def follow (drops : Bool) (step : Step) (v : Value) : Results Value :=
  match step with
  | .index i => droppable drops ((Value.at' v i).map fun w => [w])
  | .each => droppable drops (Value.each v)
  | .slice start stop => droppable drops ((Value.slice v start stop).map fun w => [w])

/-- The nodes that a way leads to. -/
def followAll : List (Step × Bool) → Value → Results Value
  | [], v => .one v
  | (step, drops) :: rest, v => (follow drops step v).bind (followAll rest)

/-- The value with the nodes that a step leads to changed. -/
def changeStep (drops : Bool) (step : Step) (f : Value.Change) (v : Value) : Except Stop Value :=
  match step with
  | .index i => Value.changeAt drops i f v
  | .each => Value.changeEach drops f v
  | .slice start stop => Value.changeSlice drops start stop f v

/-- The value with the nodes that a way leads to changed. -/
def changeWay (f : Value.Change) : List (Step × Bool) → Value.Change
  | [], v => f v
  | (step, drops) :: rest, v => Results.given (changeStep drops step (changeWay f rest) v)

/-- Changes a value once for each output of a stream, one after the other. -/
def changeInTurn {α : Type} (change : α → Value → Results Value) : Results α → Value → Results Value
  | .done, v => .one v
  | .item (.error s) _, _ => .stop s
  | .item (.ok a) rest, v => (change a v).bind fun w => changeInTurn change (rest ()) w

/-- The scopes in which parameters stand for arguments; the home is the scope of the definition. -/
def withArguments (run : Runner) (caller : Scope) (v : Value) :
    List String → List Term → (home : Scope) → Results Scope
  | p :: parameters, t :: arguments, home =>
    match p.toList with
    | '$' :: name =>
      (run caller t v).bind fun w =>
        withArguments run caller v parameters arguments (.value (String.ofList name) w home)
    | _ => withArguments run caller v parameters arguments (.argument p t caller home)
  | _, _, home => .one home

/-- All lists of outputs of filters. -/
def tuples (run : Runner) (scope : Scope) (v : Value) : List Term → Results (List Value)
  | [] => .one []
  | t :: rest =>
    (run scope t v).bind fun w => (tuples run scope v rest).map fun r => r.map (w :: ·)

/-- The items of an array, each with the outputs of a filter on it. -/
def keyed (f : Value → Results Value) : List Value → Except Stop (List Primitive.Keyed)
  | [] => .ok []
  | item :: rest =>
    match (f item).collect with
    | .error s => .error s
    | .ok keys => (keyed f rest).map fun others => (keys, item) :: others

/-- The count that a value asks for; less than none is none. -/
def count (v : Value) : Checked Nat := (Value.integer? v).map Int.toNat

variable [Library]

/-- A call that is neither of a definition nor of an argument. -/
def callPrimitive (run : Runner) (scope : Scope) (name : String) (arguments : List Term)
    (v : Value) : Results Value :=
  match name, arguments with
  | "first", [f] => (run scope f v).take 1
  | "limit", [n, f] =>
    (run scope n v).bind fun n => match count n with
      | .error p => .stop (.problem p)
      | .ok n => (run scope f v).take n
  | "skip", [n, f] =>
    (run scope n v).bind fun n => match count n with
      | .error p => .stop (.problem p)
      | .ok n => (run scope f v).drop n
  | _, _ =>
    match Primitive.Sorting.ofName? name, arguments with
    | some how, [f] =>
      match Value.items? v with
      | .error p => .stop (.problem p)
      | .ok items => Results.given ((keyed (run scope f) items).map how.apply)
    | _, _ =>
      if Primitive.exists? name arguments.length then
        (tuples run scope v arguments).bind fun ws =>
          match Primitive.run? name ws v with
          | some r => r
          | none => .stop (.problem .noPath)
      else Library.run run scope name arguments v

/-- What an embedded value is written as. -/
def embedding (run : Runner) (scope : Scope) (format : Option String) (v : Value) :
    Results Value :=
  match format with
  | none => .one v
  | some name => callPrimitive run scope name [] v

/-- The outputs of a fold from a state on. -/
def fold (kind : FoldKind) (step project : Scope → Value → Results Value) :
    Results Scope → Value → Results Value
  | .done, state => match kind with
    | .reduce => .one state
    | .foreach => .done
  | .item (.error s) _, _ => .stop s
  | .item (.ok scope) rest, state =>
    match kind with
    | .reduce =>
      match step scope state with
      | .done => .done
      | .item (.error s) others =>
        .item (.error s) fun _ =>
          (others ()).bind fun state => fold kind step project (rest ()) state
      | .item (.ok state) others =>
        match others () with
        | .done => fold kind step project (rest ()) state
        | others =>
          Results.append (fold kind step project (rest ()) state) fun _ =>
            others.bind fun state => fold kind step project (rest ()) state
    | .foreach =>
      (step scope state).bind fun state =>
        Results.append (project scope state) fun _ => fold kind step project (rest ()) state

/-- An output that is neither null nor false; what is no value counts too. -/
def holds : Except Stop Value → Bool
  | .ok v => v.holds
  | .error _ => true

/-- The outputs of a stream that hold, or those of another one if none does. -/
def orElse (outputs : Results Value) (other : Unit → Results Value) : Results Value :=
  match outputs.filter holds with
  | .done => other ()
  | outputs => outputs

/-- The truth values of `and` or `or`; where the left one is `short`, the other filter is not
run. -/
def logic (short : Bool) (left : Results Value) (right : Unit → Results Value) : Results Value :=
  left.bind fun v =>
    if v.holds = short then .one (.bool short)
    else (right ()).map fun r => r.map fun w => .bool w.holds

/-- The outputs of a label's body: a jump to the label ends them. -/
def untilJump (mark : Nat) (outputs : Results Value) : Results Value :=
  outputs.handle fun
    | .jump m => if m = mark then some .done else none
    | _ => none

/-- The outputs up to a problem, and then those of its handler. -/
def untilProblem (handler : Problem → Results Value) (outputs : Results Value) : Results Value :=
  outputs.handle fun
    | .problem p => some (handler p)
    | _ => none

end Eval

open Eval

variable [Library]

mutual

/-- The outputs of a filter on a value. -/
def eval : (depth : Nat) → Runner
  | 0, _, _, _ => .stop .tooDeep
  | depth + 1, scope, t, v =>
    let run : Runner := eval depth
    match t with
    | .identity => .one v
    | .recurse => .ofList v.nodes
    | .number spelling => .one (.ofSpelling spelling)
    | .string format pieces =>
      (pieceTexts run scope (embedding run scope format) v pieces).map fun r => r.map .text
    | .emptyArray => .one (.array [])
    | .array content => Results.given ((run scope content v).collect.map .array)
    | .object entries => objects run scope v (.ok []) entries
    | .negate operand => (run scope operand v).bind fun w => .checked w.negated
    | .pipe first second => (run scope first v).bind (run scope second)
    | .bind source p body => (bindings run scope source p v).bind fun scope => run scope body v
    | .comma first second => (run scope first v).append fun _ => run scope second v
    | .alternative first second => orElse (run scope first v) fun _ => run scope second v
    | .or left right => logic true (run scope left v) fun _ => run scope right v
    | .and left right => logic false (run scope left v) fun _ => run scope right v
    | .math op left right =>
      (pairs run scope left right v).bind fun (a, b) => .checked (Value.calculate op a b)
    | .compare op left right =>
      (pairs run scope left right v).bind fun (a, b) => .one (.bool (Value.compares op a b))
    | .assign how target source =>
      match how with
      | .assign =>
        (run scope source v).bind fun w => update depth scope target (fun _ => .one w) v
      | .update => update depth scope target (run scope source) v
      | .combine op =>
        (run scope source v).bind fun w =>
          update depth scope target (fun x => .checked (Value.calculate op x w)) v
      | .default =>
        (run scope source v).bind fun w =>
          update depth scope target (fun x => .one (if x.holds then x else w)) v
    | .label name body => untilJump depth (run (.label name depth scope) body v)
    | .break' name =>
      match scope.label? name with
      | some mark => .stop (.jump mark)
      | none => .done
    | .fold kind source p start step project =>
      (run scope start v).bind
        (Eval.fold kind (fun scope => run scope step)
          (fun scope => run scope (project.getD .identity))
          (bindings run scope source p v))
    | .tryCatch body handler =>
      untilProblem
        (fun p => match handler with
          | some t => run scope t p.payload
          | none => .done)
        (run scope body v)
    | .ifThenElse condition yes no =>
      (run scope condition v).bind fun c => run scope (if c.holds then yes else no) v
    | .define name parameters body rest =>
      run (.definition name parameters body scope) rest v
    | .call name arguments =>
      match scope.callee? name arguments.length with
      | some (.definition parameters body home) =>
        (withArguments run scope v parameters arguments home).bind fun scope => run scope body v
      | some (.argument t home) => run home t v
      | none => callPrimitive run scope name arguments v
    | .variable name =>
      match (scope.value? name).or (Library.value? name) with
      | some w => .one w
      | none => .done
    | .path source parts =>
      (run scope source v).bind fun w =>
        (ways run scope v parts).bind fun way => followAll way w

/-- The outputs of a change of the nodes that a filter selects in a value. -/
def update : (depth : Nat) → Scope → Term → Value.Change → Value → Results Value
  | 0, _, _, _, _ => .stop .tooDeep
  | depth + 1, scope, t, f, v =>
    let run : Runner := eval depth
    match t with
    | .identity => f v
    | .recurse =>
      (f v).bind fun w =>
        Results.given (Value.changeEach true (update depth scope .recurse f) w)
    | .pipe first second => update depth scope first (update depth scope second f) v
    | .bind source p body =>
      changeInTurn (fun scope w => update depth scope body f w) (bindings run scope source p v) v
    | .comma first second => (update depth scope first f v).bind (update depth scope second f)
    | .alternative first second =>
      if (run scope first v).any holds then update depth scope first f v
      else update depth scope second f v
    | .label name body => untilJump depth (update depth (.label name depth scope) body f v)
    | .break' name =>
      match scope.label? name with
      | some mark => .stop (.jump mark)
      | none => .done
    | .fold .reduce source p start step none =>
      update depth scope start (foldUpdate depth step f (bindings run scope source p v)) v
    | .tryCatch body handler =>
      untilProblem
        (fun p => match handler with
          | some t => run scope t p.payload
          | none => .one v)
        (update depth scope body f v)
    | .ifThenElse condition yes no =>
      changeInTurn (fun c w => update depth scope (if c.holds then yes else no) f w)
        (run scope condition v) v
    | .define name parameters body rest =>
      update depth (.definition name parameters body scope) rest f v
    | .call name arguments =>
      match scope.callee? name arguments.length with
      | some (.definition parameters body home) =>
        (withArguments run scope v parameters arguments home).bind fun scope =>
          update depth scope body f v
      | some (.argument t home) => update depth home t f v
      | none =>
        if Library.provides name arguments.length then
          Library.update run (update depth) scope name arguments f v
        else .stop (.problem .noPath)
    | .path source parts =>
      update depth scope source
        (fun w => changeInTurn (fun way x => changeWay f way x) (ways run scope v parts) w) v
    | _ => .stop (.problem .noPath)

/-- The outputs of a change of the nodes that a fold selects: what each step selects in what the one
before it selected. -/
def foldUpdate : (depth : Nat) → Term → Value.Change → Results Scope → Value → Results Value
  | 0, _, _, _, _ => .stop .tooDeep
  | depth + 1, step, f, scopes, v =>
    match scopes with
    | .done => f v
    | .item (.error s) _ => .stop s
    | .item (.ok scope) rest =>
      update depth scope step (foldUpdate depth step f (rest ())) v

end

end RecordCheck.Filter
