import RecordCheck.Filter.Problem
set_option autoImplicit false

/-!
# Filter: streams of outputs

The outputs of a filter, one after the other, each a value or what stopped it.  The rest of a stream
is computed only if it is asked for, so a filter may have more outputs than anyone takes.  An output
that is no value does not end the stream by itself.
-/

namespace RecordCheck.Filter

/-- A stream of outputs. -/
inductive Results (α : Type) where
  | done
  | item (head : Except Stop α) (rest : Unit → Results α)

namespace Results

variable {α β : Type}

/-- One output. -/
def one (a : α) : Results α := .item (.ok a) fun _ => .done

/-- One output that is no value. -/
def stop (s : Stop) : Results α := .item (.error s) fun _ => .done

/-- One output that a check gives. -/
def checked : Checked α → Results α
  | .ok a => one a
  | .error p => stop (.problem p)

/-- The outputs of a list. -/
def ofList : List α → Results α
  | [] => .done
  | a :: rest => .item (.ok a) fun _ => ofList rest

/-- The outputs of one stream and then those of another. -/
def append : Results α → (Unit → Results α) → Results α
  | .done, next => next ()
  | .item head rest, next => .item head fun _ => append (rest ()) next

/-- All outputs of a function on each output, value or not. -/
def flatMap (f : Except Stop α → Results β) : Results α → Results β
  | .done => .done
  | .item head rest => append (f head) fun _ => flatMap f (rest ())

/-- All outputs of a function on each value; what is no value stands for itself. -/
def bind (f : α → Results β) (r : Results α) : Results β :=
  r.flatMap fun
    | .ok a => f a
    | .error s => stop s

/-- A function on each output. -/
def map (f : Except Stop α → Except Stop β) : Results α → Results β
  | .done => .done
  | .item head rest => .item (f head) fun _ => map f (rest ())

/-- The outputs that a test keeps. -/
def filter (keep : Except Stop α → Bool) : Results α → Results α
  | .done => .done
  | .item head rest =>
    if keep head then .item head fun _ => filter keep (rest ()) else filter keep (rest ())

/-- The first outputs. -/
def take : Nat → Results α → Results α
  | 0, _ => .done
  | _ + 1, .done => .done
  | n + 1, .item head rest => .item head fun _ => match n with
    | 0 => .done
    | n + 1 => take (n + 1) (rest ())

/-- The outputs behind the first ones. -/
def drop : Nat → Results α → Results α
  | 0, r => r
  | _ + 1, .done => .done
  | n + 1, .item _ rest => drop n (rest ())

/-- All values, or what stopped the first output that is none; `read` holds those before, the last
one first. -/
def collectOnto (read : List α) : Results α → Except Stop (List α)
  | .done => .ok read.reverse
  | .item (.ok a) rest => collectOnto (a :: read) (rest ())
  | .item (.error s) _ => .error s

/-- All values, or what stopped the first output that is none. -/
def collect (r : Results α) : Except Stop (List α) := collectOnto [] r

/-- The first output. -/
def first? : Results α → Option (Except Stop α)
  | .done => none
  | .item head _ => some head

/-- Some output passes a test. -/
def any (test : Except Stop α → Bool) : Results α → Bool
  | .done => false
  | .item head rest => test head || any test (rest ())

/-- The outputs up to the first one that a handler takes; from there on the handler's outputs. -/
def handle (handler : Stop → Option (Results α)) : Results α → Results α
  | .done => .done
  | .item (.ok a) rest => .item (.ok a) fun _ => handle handler (rest ())
  | .item (.error s) rest =>
    match handler s with
    | some outputs => outputs
    | none => .item (.error s) fun _ => handle handler (rest ())

end Results
end RecordCheck.Filter
