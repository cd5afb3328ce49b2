import RecordCheck.Filter.Grammar
import RecordCheck.Filter.Scope
set_option autoImplicit false

/-!
# Filter: the prelude

The definitions that every filter may use, written in the language itself.
-/

namespace RecordCheck.Filter.Prelude

/-- The definitions, each with those before it known. -/
def definitions : List String :=
  ["def empty: \x7b\x7d[] as $x | .;",
   "def error(f): f | error;",
   "def not: if . then false else true end;",
   "def select(f): if f then . else empty end;",
   "def isboolean: type == \"boolean\";",
   "def isnumber: type == \"number\";",
   "def isstring: type == \"string\";",
   "def isarray: type == \"array\";",
   "def isobject: type == \"object\";",
   "def nulls: select(. == null);",
   "def values: select(. != null);",
   "def booleans: select(isboolean);",
   "def numbers: select(isnumber);",
   "def strings: select(isstring);",
   "def arrays: select(isarray);",
   "def objects: select(isobject);",
   "def iterables: select(. >= []);",
   "def scalars: select(. < []);",
   "def isnan: . < nan and nan < .;",
   "def abs: if . < 0 then - . end;",
   "def map(f): [.[] | f];",
   "def map_values(f): .[] |= f;",
   "def recurse(f): def rec: ., (f | rec); rec;",
   "def recurse(f; cond): recurse(f | select(cond));",
   "def recurse: recurse(.[]?);",
   "def walk(f): def rec: (.[]? |= rec) | f; rec;",
   "def del(f): f |= empty;",
   "def getpath(path): reduce path[] as $p (.; .[$p]);",
   "def range(from; to): range(from; to; 1);",
   "def range(to): range(0; to);",
   "def repeat(f): def rec: ., (f | rec); rec;",
   "def while(cond; update): def rec: if cond then ., (update | rec) else empty end; rec;",
   "def until(cond; update): def rec: if cond then . else update | rec end; rec;",
   "def first: .[0];",
   "def last: .[-1];",
   "def last(f): reduce f as $x (null; $x);",
   "def nth($i): .[$i];",
   "def nth($i; f): first(skip($i; f));",
   "def isempty(g): first((g | false), true);",
   "def all(g; cond): isempty(first(g | cond and empty));",
   "def any(g; cond): isempty(first(g | cond or empty)) | not;",
   "def all(cond): all(.[]; cond);",
   "def any(cond): any(.[]; cond);",
   "def all: all(.);",
   "def any: any(.);",
   "def in(xs): . as $x | xs | has($x);",
   "def inside(xs): . as $x | xs | contains($x);",
   "def index($x): indices($x)[0];",
   "def rindex($x): indices($x)[-1];",
   "def add(f): reduce f as $x (null; . + $x);",
   "def add: add(.[]);",
   "def join($x): reduce .[1:][] as $y (.[0]; . + $x + $y);",
   "def flatten: [recurse(arrays | .[]) | select(isarray | not)];",
   "def flatten($d): if $d > 0 then map(if isarray then flatten($d - 1) else [.] end) | add end;",
   "def sort: sort_by(.);",
   "def min: min_by(.);",
   "def max: max_by(.);",
   "def unique_by(f): [group_by(f)[] | .[0]];",
   "def unique: unique_by(.);",
   "def transpose: [range([.[] | length] | max // 0) as $i | [.[][$i]]];",
   "def to_entries: [keys_unsorted[] as $k | \x7bkey: $k, value: .[$k]\x7d];",
   "def from_entries: map(\x7b(.key): .value\x7d) | add + \x7b\x7d;",
   "def with_entries(f): to_entries | map(f) | from_entries;",
   "def toarray: if isarray then . else [.] end;",
   "def ascii: [.] | implode;"]

/-- The scope of the definitions. -/
def scope : Scope :=
  match Grammar.parse? (" ".intercalate definitions ++ " .") with
  | some t => Scope.ofDefinitions t .empty
  | none => .empty

end RecordCheck.Filter.Prelude
