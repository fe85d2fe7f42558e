import QueryOptions.Expand.Parser
import QueryOptions.Json.Reader
import QueryOptions.Json.Record
import QueryOptions.Json.Writer

/-! The configuration: a default and a maximum for `top`, and limits of the option texts. -/

namespace QueryOptions

structure Config where
  defaultTop : Option UInt64 := none
  maxTop : Option UInt64 := none
  maxExpandDepth : Nat := 5
  maxFilterDepth : Nat := 32
  maxFilterTerms : Nat := 512
deriving DecidableEq

namespace Config

inductive Fault
  | notJson
  | defaultAboveMaximum (default maximum : UInt64)
  | noExpandDepth
  | noFilterTerms
deriving DecidableEq

def Fault.message : Fault → String
  | notJson => "invalid options config: <json>"
  | defaultAboveMaximum default maximum =>
      "default_top " ++ toString default ++ " exceeds max_top " ++ toString maximum
  | noExpandDepth => "max_expand_depth must be at least 1"
  | noFilterTerms => "max_filter_terms must be at least 1"

def filterLimits (config : Config) : Filter.Limits where
  depth := config.maxFilterDepth
  terms := config.maxFilterTerms

def expandLimits (config : Config) : Expand.Limits where
  depth := config.maxExpandDepth
  filter := config.filterLimits

def fault? (config : Config) : Option Fault :=
  let aboveMaximum :=
    match config.defaultTop, config.maxTop with
    | some default, some maximum =>
        if maximum < default then some (Fault.defaultAboveMaximum default maximum) else none
    | _, _ => none
  aboveMaximum.or
    (if config.maxExpandDepth = 0 then some .noExpandDepth
     else if config.maxFilterTerms = 0 then some .noFilterTerms
     else none)

def ofDoc? (doc : Json.Doc) : Option Config := do
  let defaults : Config := {}
  match ← doc.fields?
      ["default_top", "max_top", "max_expand_depth", "max_filter_depth", "max_filter_terms"] with
  | [defaultTop, maxTop, maxExpandDepth, maxFilterDepth, maxFilterTerms] =>
      some
        { defaultTop := ← Json.fieldOr defaults.defaultTop Json.Doc.nullableCount? defaultTop
          maxTop := ← Json.fieldOr defaults.maxTop Json.Doc.nullableCount? maxTop
          maxExpandDepth := ← Json.fieldOr defaults.maxExpandDepth limit? maxExpandDepth
          maxFilterDepth := ← Json.fieldOr defaults.maxFilterDepth limit? maxFilterDepth
          maxFilterTerms := ← Json.fieldOr defaults.maxFilterTerms limit? maxFilterTerms }
  | _ => none
where
  limit? (doc : Json.Doc) : Option Nat :=
    doc.count?.map UInt64.toNat

def ofJson (text : String) : Except Error Config :=
  match (Json.read? text.toList).bind ofDoc? with
  | none => .error (.inconsistent Fault.notJson.message)
  | some config =>
      match config.fault? with
      | some fault => .error (.inconsistent fault.message)
      | none => .ok config

def toJson (config : Config) : String :=
  Json.record
    [("default_top", Json.nullable toString config.defaultTop),
     ("max_top", Json.nullable toString config.maxTop),
     ("max_expand_depth", toString config.maxExpandDepth),
     ("max_filter_depth", toString config.maxFilterDepth),
     ("max_filter_terms", toString config.maxFilterTerms)]

def summary (config : Config) : String :=
  "OptionsConfig \x7b default_top: " ++ option config.defaultTop ++ ", max_top: " ++
    option config.maxTop ++ ", max_expand_depth: " ++ toString config.maxExpandDepth ++
    ", max_filter_depth: " ++ toString config.maxFilterDepth ++ ", max_filter_terms: " ++
    toString config.maxFilterTerms ++ " \x7d"
where
  option : Option UInt64 → String
    | some count => "Some(" ++ toString count ++ ")"
    | none => "None"

end Config

end QueryOptions
