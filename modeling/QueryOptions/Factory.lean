import QueryOptions.Config
import QueryOptions.Options.Check
import QueryOptions.Request.Params

/-! The factory of options: each entity's defaults are made when they are first asked for, and a
request starts from them. -/

namespace QueryOptions

/-- The registry, the configuration, and a slot for each entity whose defaults were asked for; the
slot stays empty while they cannot be made. -/
structure Factory where
  registry : Registry
  config : Config := {}
  defaults : List (Entity × Option Options) := []

/-- Computations that may ask the factory for options. What the factory has learnt survives a
failure. -/
abbrev Making := ExceptT Error (StateM Factory)

def Making.ofExcept (result : Except Error α) : Making α :=
  ExceptT.mk (pure result)

def Making.lookup (action : Lookup α) : Making α :=
  ExceptT.mk do
    let factory ← get
    let (result, registry) := action.run.run factory.registry
    set { factory with registry }
    return result

namespace Factory

def remembered? (factory : Factory) (entity : Entity) : Option Options :=
  (factory.defaults.find? (·.1 == entity)).bind (·.2)

def remember (factory : Factory) (entity : Entity) (options : Option Options) : Factory :=
  { factory with
    defaults := (entity, options) :: factory.defaults.filter (·.1 != entity) }

def invalidate (factory : Factory) (entity : Entity) : Factory :=
  { factory with
    registry := factory.registry.invalidate entity
    defaults := factory.defaults.filter (·.1 != entity) }

def preset (config : Config) (catalog : EntityCatalog) : Except Error Options :=
  Options.whenGiven { catalog, maxTop := config.maxTop } config.defaultTop Options.setTop

def buildDefaults (entity : Entity) : Making Options := do
  let catalog ← Making.lookup (Registry.catalog entity)
  Making.ofExcept (preset (← get).config catalog)

def defaultsFor (entity : Entity) : Making Options := do
  match (← get).remembered? entity with
  | some options => return options
  | none =>
      modify fun factory => factory.remember entity none
      let options ← buildDefaults entity
      modify fun factory => factory.remember entity (some options)
      return options

def create (entity : Entity) : Making Options :=
  defaultsFor entity

def override (config : Config) (params : Params) (options : Options) : Except Error Options := do
  let top ← params.count .top
  let options ← options.whenGiven top Options.setTop
  let skip ← params.count .skip
  let options ← options.whenGiven skip fun options skip => .ok (options.setSkip skip)
  let options ← options.whenGiven (params.nonBlank? .skiptoken) fun options token =>
    .ok (options.setSkiptoken token)
  let options ← options.whenGiven (params.nonBlank? .expand) fun options text =>
    (Expand.parse config.expandLimits text).map options.setExpand
  let options ← options.whenGiven (params.nonBlank? .filters) fun options text =>
    (Filter.parse config.filterLimits text).map options.setFilters
  let options ← options.whenGiven (params.nonBlank? .orderBy) fun options text =>
    (OrderBy.parse text).map options.setOrderBy
  options.whenGiven (params.nonBlank? .select) fun options text =>
    (Select.parse text).map options.setSelect

def fromParams (entity : Entity) (params : Params) : Making Options := do
  let options ← create entity
  let options ← Making.ofExcept (override (← get).config params options)
  Making.lookup options.check
  return options

def summary (factory : Factory) : String :=
  "QueryOptionsFactory \x7b registry: CatalogRegistry \x7b catalogs: " ++
    toString factory.registry.size ++ " \x7d, config: " ++ factory.config.summary ++
    ", defaults: " ++ toString factory.defaults.length ++ " \x7d"

end Factory

end QueryOptions
