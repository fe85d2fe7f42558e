import QueryOptions.Json.Basic

/-! Reading a JSON document as a record with known fields. A record is written as an object, whose
other members are passed over, or as an array of the fields in their order. -/

namespace QueryOptions.Json

def membersNamed (name : String) (members : List (String × Doc)) : List Doc :=
  (members.filter fun member => member.1 == name).map Prod.snd

def decodeNames? : List (List Piece × Doc) → Option (List (String × Doc))
  | [] => some []
  | (name, item) :: members => do
      let name ← string? name
      let members ← decodeNames? members
      some ((name, item) :: members)

def field? (members : List (String × Doc)) (name : String) : Option (Option Doc) :=
  match membersNamed name members with
  | [] => some none
  | [item] => some (some item)
  | _ => none

def Doc.fields? (names : List String) : Doc → Option (List (Option Doc))
  | .object members => do
      let members ← decodeNames? members
      names.mapM (field? members)
  | .array items =>
      if items.length ≤ names.length then
        some (items.map some ++ List.replicate (names.length - items.length) none)
      else none
  | _ => none

def Doc.nullableCount? : Doc → Option (Option UInt64)
  | .null => some none
  | .number numeral => numeral.count?.map some
  | _ => none

def Doc.count? : Doc → Option UInt64
  | .number numeral => numeral.count?
  | _ => none

def Doc.nullableText? : Doc → Option (Option String)
  | .null => some none
  | .string pieces => (string? pieces).map some
  | _ => none

def fieldOr (default : α) (decode : Doc → Option α) : Option Doc → Option α
  | none => some default
  | some doc => decode doc

end QueryOptions.Json
