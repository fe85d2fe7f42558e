import QueryOptions.Count
import QueryOptions.Expand.Basic
import QueryOptions.Filter.Parser
import QueryOptions.Select
import QueryOptions.Text.Split

/-! Reading expand text: items between commas, each a relation with clauses in parentheses, such
as `comments(filters=id gt 1;top=5;expand=author)`. A fault in a clause's value is reported at its
place in the whole text. -/

namespace QueryOptions.Expand

open Text (skipBlanks trim byteLength)

structure Limits where
  depth : Nat := 5
  filter : Filter.Limits := {}
deriving DecidableEq

inductive Fault
  | tooDeep (limit : Nat)
  | empty
  | unbalanced (text : List Char)
  | badProperty (name : List Char)
  | noValue (clause : List Char)
  | unknownOption (key : List Char) (property : String)
deriving DecidableEq

def Fault.message : Fault → String
  | tooDeep limit => "expand nesting exceeds the maximum depth of " ++ toString limit
  | empty => "empty expand"
  | unbalanced text => "invalid parentheses balance in '" ++ String.ofList text ++ "'"
  | badProperty name => "invalid expand property '" ++ String.ofList name ++ "'"
  | noValue clause => "expected option=value, found '" ++ String.ofList clause ++ "'"
  | unknownOption key property =>
      "unknown expand option '" ++ String.ofList key ++ "' on '" ++ property ++ "'"

def fail (fault : Fault) : Except Error α :=
  .error (.invalidExpand fault.message)

def blanksBefore (text : List Char) : Nat :=
  byteLength text - byteLength (skipBlanks text)

def readPart (whole : List Char) (offset : Nat) (result : Except Error α) : Except Error α :=
  result.mapError (Error.within (String.ofList whole) offset)

inductive Key
  | expand
  | filters
  | orderBy
  | select
  | top
  | skip
  | skiptoken
deriving DecidableEq

def Key.all : List Key :=
  [.expand, .filters, .orderBy, .select, .top, .skip, .skiptoken]

def Key.word : Key → List Char
  | expand => ['e', 'x', 'p', 'a', 'n', 'd']
  | filters => ['f', 'i', 'l', 't', 'e', 'r', 's']
  | orderBy => ['o', 'r', 'd', 'e', 'r', 'b', 'y']
  | select => ['s', 'e', 'l', 'e', 'c', 't']
  | top => ['t', 'o', 'p']
  | skip => ['s', 'k', 'i', 'p']
  | skiptoken => ['s', 'k', 'i', 'p', 't', 'o', 'k', 'e', 'n']

def Key.ofWord? (word : List Char) : Option Key :=
  Key.all.find? fun key => Text.sameWord key.word word

/-- Sets what a clause says. `readNested` reads the value of a nested expand. -/
def setOption (limits : Limits) (readNested : List Char → Except Error (List Expand))
    (node : Expand) (value : List Char) : Key → Except Error Expand
  | .expand => do
      let children ← readNested value
      .ok { node with children }
  | .filters => do
      let filters ← (Filter.read limits.filter value).mapError (Filter.Failure.toError value)
      .ok { node with filters := some filters }
  | .orderBy => do
      let orderBy ← (OrderBy.read value).mapError (Text.Fault.toError value)
      .ok { node with orderBy }
  | .select => do
      let select ← (Select.read value).mapError (Text.Fault.toError value)
      .ok { node with select }
  | .top => do
      let top ← Count.parse "top" value
      .ok { node with top := some top }
  | .skip => do
      let skip ← Count.parse "skip" value
      .ok { node with skip }
  | .skiptoken => .ok { node with skiptoken := some (String.ofList value) }

def applyClause (limits : Limits) (readNested : List Char → Except Error (List Expand))
    (node : Expand) (clause : List Char) : Except Error Expand :=
  if clause.isEmpty then .ok node
  else
    let key := clause.takeWhile (· != '=')
    match clause.dropWhile (· != '=') with
    | [] => fail (.noValue clause)
    | _ :: value =>
        match Key.ofWord? (trim key) with
        | none => fail (.unknownOption (trim key) node.property)
        | some option =>
            readPart clause (byteLength key + 1 + blanksBefore value)
              (setOption limits readNested node (trim value) option)

def applyClauses (limits : Limits) (readNested : List Char → Except Error (List Expand))
    (node : Expand) (body : List Char) : Except Error Expand :=
  match Text.split? ';' body with
  | none => fail (.unbalanced body)
  | some clauses =>
      (Text.locate ';' 0 clauses).foldlM
        (fun node (offset, clause) =>
          readPart body (offset + blanksBefore clause)
            (applyClause limits readNested node (trim clause)))
        node

def named (name : List Char) : Except Error Expand :=
  if name.isEmpty || !name.all Text.isNameChar then fail (.badProperty name)
  else .ok { property := String.ofList name }

def readItem (limits : Limits) (readNested : List Char → Except Error (List Expand))
    (item : List Char) : Except Error Expand :=
  let name := item.takeWhile (· != '(')
  match item.dropWhile (· != '(') with
  | [] => named item
  | _ :: body =>
      if item.getLast? != some ')' then fail (.unbalanced item)
      else do
        let node ← named (Text.dropTrailingBlanks name)
        readPart item (byteLength name + 1) (applyClauses limits readNested node body.dropLast)

/-- Reads the items of one level; `room` more levels, this one included, are allowed. -/
def readLevel (limits : Limits) : Nat → List Char → Except Error (List Expand)
  | 0, _ => fail (.tooDeep limits.depth)
  | room + 1, text =>
      if Text.isBlankText text then fail .empty
      else
        match Text.split? ',' text with
        | none => fail (.unbalanced text)
        | some items =>
            (Text.locate ',' 0 items).mapM fun (offset, item) =>
              readPart text (offset + blanksBefore item)
                (readItem limits (readLevel limits room) (trim item))

def parse (limits : Limits) (input : String) : Except Error (List Expand) :=
  readLevel limits limits.depth input.toList

end QueryOptions.Expand
