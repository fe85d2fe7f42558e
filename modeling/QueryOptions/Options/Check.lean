import QueryOptions.Options.Basic
import QueryOptions.Validation

/-! Checking all options of a request. -/

namespace QueryOptions.Options

def checkLocal (options : Options) : Except Error Unit := do
  Validation.checkFilters options.catalog.properties options.expandNodes options.filters
  Validation.checkOrderBy options.catalog.orderable (options.orderBy.getD [])
  Validation.checkSelect options.catalog.selectable (options.select.getD [])

def check (options : Options) : Lookup Unit := do
  Lookup.ofExcept options.checkLocal
  if !options.expandNodes.isEmpty then
    Validation.checkExpand options.expandNodes options.entity

end QueryOptions.Options
