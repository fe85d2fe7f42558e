import QueryOptions.Filter.Merge
import QueryOptions.Key.Encoding

/-! The options in force for one entity: defaults overridden by a request, with the options of
expanded relations below them. -/

namespace QueryOptions

mutual

structure Options where
  catalog : EntityCatalog
  top : Option UInt64 := none
  skip : UInt64 := 0
  skiptoken : Option String := none
  filters : Option Filter := none
  orderBy : Option (List OrderBy) := none
  select : Option (List String) := none
  expand : Option (List Expand) := none
  total : Option UInt64 := none
  maxTop : Option UInt64 := none
  nested : List Expansion := []

/-- The options of an expanded relation. `applied` is the key of the expand node that they were
built from, and `resolved` the key of the one that data was last loaded for. -/
structure Expansion where
  property : String
  options : Options
  applied : Key
  resolved : Option Key

end

namespace Options

def entity (options : Options) : Entity :=
  options.catalog.entity

def expandNodes (options : Options) : List Expand :=
  options.expand.getD []

/-- Computations that change options in place. What was changed before a failure stays changed. -/
abbrev Change := ExceptT Error (StateM Options)

def Change.result (change : Change Unit) (options : Options) : Except Error Options :=
  let run := change.run.run options
  run.1.map fun _ => run.2

def Change.top (top : UInt64) : Change Unit := do
  if let some maximum := (← get).maxTop then
    if maximum < top then
      throw (.invalidOption "top"
        (toString top ++ " exceeds the maximum of " ++ toString maximum))
  modify fun options => { options with top := some top }

def setTop (options : Options) (top : UInt64) : Except Error Options :=
  (Change.top top).result options

def setSkip (options : Options) (skip : UInt64) : Options :=
  { options with skip }

def setSkiptoken (options : Options) (token : String) : Options :=
  { options with skiptoken := some token }

def setFilters (options : Options) (filters : Filter) : Options :=
  { options with filters := some (filters.bindTo options.catalog.properties) }

def mergeFilters (options : Options) (connective : Connective) (filters : Filter) : Options :=
  match options.filters with
  | some present => options.setFilters (present.merge connective filters)
  | none => options.setFilters filters

def setOrderBy (options : Options) (orderBy : List OrderBy) : Options :=
  { options with orderBy := some orderBy }

def setSelect (options : Options) (select : List String) : Options :=
  { options with select := some select }

def setExpand (options : Options) (expand : List Expand) : Options :=
  { options with expand := some expand }

def setTotal (options : Options) (total : UInt64) : Options :=
  { options with total := some total }

def withMaxTop (options : Options) (maxTop : Option UInt64) : Options :=
  { options with maxTop }

def whenGiven (options : Options) (given : Option α)
    (change : Options → α → Except Error Options) : Except Error Options :=
  match given with
  | some value => change options value
  | none => .ok options

def encoding (options : Options) : List UInt8 :=
  Encoding.string options.entity ++ Encoding.optional Encoding.word options.top ++
    Encoding.word options.skip ++ Encoding.optional Encoding.string options.skiptoken ++
    Encoding.optionalFilter options.filters ++ Encoding.orderBy (options.orderBy.getD []) ++
    Encoding.select (options.select.getD []) ++ Encoding.expand options.expandNodes

def key (options : Options) : Key :=
  .ofBytes options.encoding

def expansion? (options : Options) (property : String) : Option Expansion :=
  options.nested.find? (·.property == property)

def nested? (options : Options) (property : String) : Option Options :=
  (options.expansion? property).map (·.options)

def putExpansion (expansion : Expansion) : List Expansion → List Expansion
  | [] => [expansion]
  | other :: others =>
      if other.property = expansion.property then expansion :: others
      else other :: putExpansion expansion others

def setExpansion (options : Options) (expansion : Expansion) : Options :=
  { options with nested := putExpansion expansion options.nested }

def markResolved (options : Options) (property : String) : Options :=
  match options.expansion? property with
  | none => options
  | some expansion =>
      options.setExpansion { expansion with resolved := some expansion.applied }

def needsResolution (options : Options) (property : String) : Bool :=
  match Expand.find? options.expandNodes property with
  | none => false
  | some node =>
      match options.expansion? property with
      | none => true
      | some expansion => expansion.resolved != some node.key

end Options

end QueryOptions
