import QueryOptions.Count
import QueryOptions.Json.Reader
import QueryOptions.Json.Record
import QueryOptions.Json.Writer
import QueryOptions.Request.Form

/-! The option texts of a request, as they arrive. -/

namespace QueryOptions

structure Params where
  filters : Option String := none
  orderBy : Option String := none
  select : Option String := none
  expand : Option String := none
  top : Option String := none
  skip : Option String := none
  skiptoken : Option String := none
deriving DecidableEq

namespace Params

inductive Field
  | filters
  | orderBy
  | select
  | expand
  | top
  | skip
  | skiptoken
deriving DecidableEq

namespace Field

def all : List Field :=
  [filters, orderBy, select, expand, top, skip, skiptoken]

def name : Field → String
  | filters => "filters"
  | orderBy => "orderBy"
  | select => "select"
  | expand => "expand"
  | top => "top"
  | skip => "skip"
  | skiptoken => "skiptoken"

def ofName? (name : String) : Option Field :=
  all.find? (·.name == name)

end Field

def get? (params : Params) : Field → Option String
  | .filters => params.filters
  | .orderBy => params.orderBy
  | .select => params.select
  | .expand => params.expand
  | .top => params.top
  | .skip => params.skip
  | .skiptoken => params.skiptoken

def set (params : Params) (field : Field) (value : Option String) : Params :=
  match field with
  | .filters => { params with filters := value }
  | .orderBy => { params with orderBy := value }
  | .select => { params with select := value }
  | .expand => { params with expand := value }
  | .top => { params with top := value }
  | .skip => { params with skip := value }
  | .skiptoken => { params with skiptoken := value }

def insert (params : Params) (pair : String × String) : Except Error Params :=
  match Field.ofName? pair.1 with
  | none => .ok params
  | some field =>
      if (params.get? field).isSome then
        .error (.invalidOption "query" ("duplicate field `" ++ field.name ++ "`"))
      else .ok (params.set field (some pair.2))

def ofQuery (query : String) : Except Error Params :=
  (Form.parse (String.ofList (query.toList.dropWhile (· == '?')))).foldlM insert {}

def ofDoc? (doc : Json.Doc) : Option Params := do
  let fields ← doc.fields? (Field.all.map Field.name)
  let texts ← fields.mapM (Json.fieldOr none Json.Doc.nullableText?)
  some ((Field.all.zip texts).foldl (fun params (field, text) => params.set field text) {})

def ofJson? (text : String) : Option Params :=
  (Json.read? text.toList).bind ofDoc?

def toJson (params : Params) : String :=
  Json.record (Field.all.map fun field =>
    (field.name, Json.nullable Json.quote (params.get? field)))

def nonBlank? (params : Params) (field : Field) : Option String :=
  (params.get? field).filter fun text => !Text.isBlankText text.toList

def count (params : Params) (field : Field) : Except Error (Option UInt64) :=
  match params.nonBlank? field with
  | none => .ok none
  | some text => (Count.parse field.name text.toList).map some

end Params

end QueryOptions
