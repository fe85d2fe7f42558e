import QueryOptions.Options.Basic

/-! Options as a sequence of calls to whatever builds the query. -/

namespace QueryOptions

inductive Call
  | join (relation name : String)
  | filter (filters : Filter)
  | orderBy (property : String) (direction : Direction)
  | select (columns : List String)
  | range (top : Option UInt64) (skip : UInt64)
  | skiptoken (token : String)

/-- A query builder may leave out pages and tokens, and has to take all other calls. -/
def Call.isRequired : Call → Bool
  | range .. => false
  | skiptoken _ => false
  | _ => true

namespace Options

def dependencies (options : Options) : List String :=
  match options.filters with
  | none => []
  | some filters =>
      filters.leaves.filterMap fun comparison =>
        (comparison.definition.bind (·.dependency)).map (·.name)

def distinct (names : List String) : List String :=
  names.foldl (fun seen name => if seen.contains name then seen else seen ++ [name]) []

def joins (options : Options) : List String :=
  distinct (options.expandNodes.map (·.property) ++ options.dependencies)

def compile (options : Options) : List Call :=
  let select := options.select.getD []
  options.joins.map (fun relation => .join relation relation) ++
    options.filters.toList.map .filter ++
    (options.orderBy.getD []).map (fun order => .orderBy order.property order.direction) ++
    (if select.isEmpty then [] else [.select select]) ++
    (if options.top.isSome || options.skip != 0 then [.range options.top options.skip] else []) ++
    options.skiptoken.toList.map .skiptoken

end Options

end QueryOptions
