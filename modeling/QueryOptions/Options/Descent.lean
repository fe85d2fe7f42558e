import QueryOptions.Factory

/-! Going down into the options of expanded relations. -/

namespace QueryOptions.Options

def setNodeFilters (options : Options) (catalog : Option PropertyCatalog) (filters : Filter) :
    Options :=
  match catalog with
  | some catalog => { options with filters := some (filters.bindTo catalog) }
  | none => options.setFilters filters

def overlay (definition : ExpandDefinition) (node : Expand) (options : Options) :
    Except Error Options := do
  let options := node.filters.elim options (options.setNodeFilters definition.catalog)
  let options := if node.orderBy.isEmpty then options else options.setOrderBy node.orderBy
  let options := if node.select.isEmpty then options else options.setSelect node.select
  let options ← options.whenGiven node.top setTop
  let options := if node.skip = 0 then options else options.setSkip node.skip
  let options := node.skiptoken.elim options options.setSkiptoken
  .ok (if node.children.isEmpty then options else options.setExpand node.children)

def nestedOptions (definition : ExpandDefinition) (node : Expand) : Making Options := do
  let options ← Factory.create definition.target
  Making.ofExcept (options.overlay definition node)

def relation (options : Options) (property : String) : Except Error (Expand × ExpandDefinition) :=
  match Expand.find? options.expandNodes property with
  | none => .error (.invalidExpand ("'" ++ property ++ "' is not expanded"))
  | some node =>
      match options.catalog.expand? property with
      | none =>
          .error (.notExpandable property options.entity options.catalog.expandNames)
      | some definition => .ok (node, definition)

/-- Computations that change options in place and may ask the factory for others. What options and
factory have come to survives a failure. -/
abbrev Descent := ExceptT Error (StateT Options (StateM Factory))

def Descent.ofExcept (result : Except Error α) : Descent α :=
  ExceptT.mk (pure result)

def Descent.ofMaking (making : Making α) : Descent α :=
  ExceptT.mk (StateT.lift making.run)

/-- Hands out the nested options of a relation. Those present are kept when they were made from an
expand node of the same key; others are made anew, put in place, and are not resolved. -/
def descend (property : String) : Descent Expansion := do
  let options ← get
  let (node, definition) ← Descent.ofExcept (options.relation property)
  match (options.expansion? property).filter (·.applied == node.key) with
  | some expansion => return expansion
  | none =>
      let nested ← Descent.ofMaking (nestedOptions definition node)
      let expansion : Expansion :=
        { property, options := nested, applied := node.key, resolved := none }
      modify (·.setExpansion expansion)
      return expansion

/-- Applies a change to the options at the end of a path of relations. Descents that succeeded
stay when a later one, or the change, fails. -/
def changeAt (change : Change α) :
    List String → Options → StateM Factory (Except Error α × Options)
  | [], options => return change.run.run options
  | property :: path, options => do
      let (outcome, options) ← (descend property).run.run options
      match outcome with
      | .error error => return (.error error, options)
      | .ok expansion =>
          let (result, nested) ← changeAt change path expansion.options
          return (result, options.setExpansion { expansion with options := nested })

def nestedAt? : List String → Options → Option Options
  | [], options => some options
  | property :: path, options => (options.nested? property).bind (nestedAt? path)

end QueryOptions.Options
