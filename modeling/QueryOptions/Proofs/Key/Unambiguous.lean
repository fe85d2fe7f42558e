import Mathlib.Tactic.Common
import QueryOptions.Options.Basic
import QueryOptions.Proofs.Expand.Tree

/-!
The bytes of options tell the options apart. Every part is encoded so that its bytes say where they
end, whatever bytes follow, and so a sequence of parts can be taken apart from the front.
-/

namespace QueryOptions

theorem utf8Bytes_inj {first second : String} (same : utf8Bytes first = utf8Bytes second) :
    first = second := by
  have data : first.toByteArray.data = second.toByteArray.data := Array.toList_inj.mp same
  exact String.toByteArray_inj.mp (ByteArray.ext data)

theorem littleEndian_inj {first second : UInt64}
    (same : littleEndian first = littleEndian second) : first = second := by
  simp only [littleEndian, List.cons.injEq, and_true, ← UInt8.toNat_inj, UInt64.toNat_toUInt8,
    UInt64.toNat_shiftRight, UInt64.reduceToNat, Nat.reduceMod, Nat.reducePow,
    Nat.shiftRight_eq_div_pow] at same
  have firstBound := first.toNat_lt
  have secondBound := second.toNat_lt
  apply UInt64.toNat_inj.mp
  omega

namespace Encoding

def isCount (count : Nat) : Bool :=
  count < 0x10000000000000000

def isCountedText (text : String) : Bool :=
  isCount (utf8Bytes text).length

/-- Before any bytes, the bytes of `first` agree only with those of items that have the same core,
and then both end at the same place. -/
def Determines (encode : α → List UInt8) (isCounted : α → Bool) (core : α → β) (first : α) : Prop :=
  isCounted first = true → ∀ second, isCounted second = true → ∀ rest more,
    encode first ++ rest = encode second ++ more → core first = core second ∧ rest = more

theorem word_split {first second : UInt64} {rest more : List UInt8}
    (same : word first ++ rest = word second ++ more) : first = second ∧ rest = more := by
  obtain ⟨wordEq, restEq⟩ := List.append_inj same rfl
  exact ⟨littleEndian_inj wordEq, restEq⟩

theorem length_split {first second : Nat} (firstCount : isCount first = true)
    (secondCount : isCount second = true) {rest more : List UInt8}
    (same : length first ++ rest = length second ++ more) : first = second ∧ rest = more := by
  obtain ⟨wordEq, restEq⟩ := word_split same
  simp only [isCount, decide_eq_true_eq] at firstCount secondCount
  have numbers := UInt64.toNat_inj.mpr wordEq
  simp only [Nat.toUInt64, UInt64.toNat_ofNat'] at numbers
  exact ⟨by omega, restEq⟩

theorem determines_string (text : String) : Determines string isCountedText id text := by
  intro firstCounted second secondCounted rest more same
  simp only [string, List.append_assoc] at same
  obtain ⟨lengthEq, same⟩ := length_split firstCounted secondCounted same
  obtain ⟨bytesEq, restEq⟩ := List.append_inj same lengthEq
  exact ⟨utf8Bytes_inj bytesEq, restEq⟩

theorem determines_optional {encode : α → List UInt8} {isCounted : α → Bool} {core : α → β}
    {given : Option α} (determines : ∀ value ∈ given, Determines encode isCounted core value) :
    Determines (optional encode) (Option.all isCounted) (Option.map core) given := by
  intro firstCounted second secondCounted rest more same
  cases given with
  | none =>
      cases second with
      | none => simpa [optional] using same
      | some value => simp [optional] at same
  | some value =>
      cases second with
      | none => simp [optional] at same
      | some other =>
          simp only [optional, List.cons_append, List.cons.injEq, true_and] at same
          simp only [Option.all_some] at firstCounted secondCounted
          obtain ⟨coreEq, restEq⟩ :=
            determines value (by simp) firstCounted other secondCounted rest more same
          exact ⟨by simp [coreEq], restEq⟩

theorem flatMap_split {encode : α → List UInt8} {isCounted : α → Bool} {core : α → β}
    {first second : List α} (determines : ∀ item ∈ first, Determines encode isCounted core item)
    (firstCounted : first.all isCounted = true) (secondCounted : second.all isCounted = true)
    (lengthEq : first.length = second.length) {rest more : List UInt8}
    (same : first.flatMap encode ++ rest = second.flatMap encode ++ more) :
    first.map core = second.map core ∧ rest = more := by
  induction first generalizing second with
  | nil =>
      obtain rfl : second = [] := List.length_eq_zero_iff.mp lengthEq.symm
      simpa using same
  | cons item items ih =>
      cases second with
      | nil => simp at lengthEq
      | cons other others =>
          simp only [List.all_cons, Bool.and_eq_true] at firstCounted secondCounted
          simp only [List.flatMap_cons, List.append_assoc] at same
          obtain ⟨coreEq, same⟩ := determines item (by simp) firstCounted.1 other secondCounted.1
            _ _ same
          obtain ⟨coresEq, restEq⟩ := ih (fun item member => determines item (by simp [member]))
            firstCounted.2 secondCounted.2 (by simpa using lengthEq) same
          exact ⟨by simp [coreEq, coresEq], restEq⟩

def counted (encode : α → List UInt8) (items : List α) : List UInt8 :=
  length items.length ++ items.flatMap encode

def areCounted (isCounted : α → Bool) (items : List α) : Bool :=
  isCount items.length && items.all isCounted

theorem determines_counted {encode : α → List UInt8} {isCounted : α → Bool} {core : α → β}
    {items : List α} (determines : ∀ item ∈ items, Determines encode isCounted core item) :
    Determines (counted encode) (areCounted isCounted) (List.map core) items := by
  intro firstCounted second secondCounted rest more same
  simp only [areCounted, Bool.and_eq_true] at firstCounted secondCounted
  simp only [counted, List.append_assoc] at same
  obtain ⟨lengthEq, same⟩ := length_split firstCounted.1 secondCounted.1 same
  exact flatMap_split determines firstCounted.2 secondCounted.2 lengthEq same

end Encoding

/-! What it takes for the bytes to be exact: every string, list and row of children is short enough
for its length to fit a word. -/

def Value.isCounted : Value → Bool
  | text value => Encoding.isCountedText value
  | _ => true

def Operand.isCounted : Operand → Bool
  | single value => value.isCounted
  | list values => Encoding.areCounted Value.isCounted values

def Comparison.isCounted (comparison : Comparison) : Bool :=
  Encoding.isCountedText comparison.property && comparison.operand.isCounted

def OrderBy.isCounted (order : OrderBy) : Bool :=
  Encoding.isCountedText order.property

def Filter.isCounted : Filter → Bool :=
  every Comparison.isCounted fun children => Encoding.isCount children.length

namespace Expand

mutual

def isCounted : Expand → Bool
  | ⟨property, filters, orderBy, select, _, _, skiptoken, children⟩ =>
      Encoding.isCountedText property && filters.all Filter.isCounted &&
        Encoding.areCounted OrderBy.isCounted orderBy &&
        Encoding.areCounted Encoding.isCountedText select &&
        skiptoken.all Encoding.isCountedText && Encoding.isCount children.length &&
        areCounted children

def areCounted : List Expand → Bool
  | [] => true
  | child :: children => child.isCounted && areCounted children

end

theorem areCounted_eq (children : List Expand) : areCounted children = children.all isCounted := by
  induction children with
  | nil => simp [areCounted]
  | cons child children ih => simp [areCounted, ih]

end Expand

namespace Encoding

theorem determines_word (value : UInt64) : Determines word (fun _ => true) id value := by
  intro _ second _ rest more same
  exact word_split same

theorem determines_value (item : Value) : Determines value Value.isCounted id item := by
  intro firstCounted second secondCounted rest more same
  cases item with
  | null =>
      cases second with
      | null => simpa [value] using same
      | _ => simp [value, ascii] at same
  | boolean b =>
      cases second with
      | boolean c =>
          have bytes : ∀ b c : Bool, b.toUInt8 = c.toUInt8 → b = c := by decide
          simp only [value, List.append_assoc, List.append_cancel_left_eq, List.cons_append,
            List.nil_append, List.cons.injEq] at same
          exact ⟨congrArg Value.boolean (bytes b c same.1), same.2⟩
      | _ => simp [value, ascii] at same
  | integer i =>
      cases second with
      | integer j =>
          simp only [value, List.append_assoc, List.append_cancel_left_eq] at same
          obtain ⟨wordEq, restEq⟩ := word_split same
          have integerEq : i = j := congrArg UInt64.toInt64 wordEq
          exact ⟨congrArg Value.integer integerEq, restEq⟩
      | _ => simp [value, ascii] at same
  | real x =>
      cases second with
      | real y =>
          simp only [value, List.append_assoc, List.append_cancel_left_eq] at same
          obtain ⟨bitsEq, restEq⟩ := word_split same
          have realEq : x = y := congrArg Binary64.mk bitsEq
          exact ⟨congrArg Value.real realEq, restEq⟩
      | _ => simp [value, ascii] at same
  | text s =>
      cases second with
      | text t =>
          simp only [value, List.append_assoc, List.append_cancel_left_eq] at same
          obtain ⟨textEq, restEq⟩ :=
            determines_string s firstCounted t secondCounted rest more same
          exact ⟨congrArg Value.text textEq, restEq⟩
      | _ => simp [value, ascii] at same

theorem list_ne_value (item : Value) (tail rest : List UInt8) :
    ascii ['l', 'i', 's', 't'] ++ tail ≠ value item ++ rest := by
  cases item <;> simp [value, ascii]

theorem determines_operand (item : Operand) : Determines operand Operand.isCounted id item := by
  intro firstCounted second secondCounted rest more same
  cases item with
  | single v =>
      cases second with
      | single w =>
          obtain ⟨valueEq, restEq⟩ := determines_value v firstCounted w secondCounted rest more same
          exact ⟨congrArg Operand.single valueEq, restEq⟩
      | list ws =>
          simp only [operand, List.append_assoc] at same
          exact absurd same.symm (list_ne_value v _ rest)
  | list vs =>
      cases second with
      | single w =>
          simp only [operand, List.append_assoc] at same
          exact absurd same (list_ne_value w _ more)
      | list ws =>
          simp only [operand, List.append_assoc, List.append_cancel_left_eq] at same
          rw [← List.append_assoc, ← List.append_assoc] at same
          obtain ⟨valuesEq, restEq⟩ := determines_counted (fun v _ => determines_value v)
            firstCounted ws secondCounted rest more same
          rw [List.map_id, List.map_id] at valuesEq
          exact ⟨congrArg Operand.list valuesEq, restEq⟩

theorem operator_split {first second : Operator} {rest more : List UInt8}
    (same : ascii first.word ++ rest = ascii second.word ++ more) :
    first = second ∧ rest = more := by
  have lengths : ∀ operator : Operator, (ascii operator.word).length = 2 := by
    intro operator
    cases operator <;> rfl
  obtain ⟨wordEq, restEq⟩ := List.append_inj same (by rw [lengths, lengths])
  refine ⟨?_, restEq⟩
  revert wordEq
  cases first <;> cases second <;> decide

theorem determines_comparison (item : Comparison) :
    Determines comparison Comparison.isCounted Comparison.unbound item := by
  intro firstCounted second secondCounted rest more same
  simp only [Comparison.isCounted, Bool.and_eq_true] at firstCounted secondCounted
  simp only [comparison, List.append_assoc, List.append_cancel_left_eq] at same
  obtain ⟨propertyEq, same⟩ :=
    determines_string _ firstCounted.1 _ secondCounted.1 _ _ same
  obtain ⟨operatorEq, same⟩ := operator_split same
  obtain ⟨operandEq, restEq⟩ :=
    determines_operand _ firstCounted.2 _ secondCounted.2 rest more same
  rw [id_eq, id_eq] at propertyEq operandEq
  exact ⟨by simp [Comparison.unbound, propertyEq, operatorEq, operandEq], restEq⟩

theorem filters_eq (children : List Filter) : filters children = children.flatMap filter := by
  induction children with
  | nil => simp [filters]
  | cons child children ih => simp [filters, ih]

theorem comparison_ne_join (item : Comparison) (joined : Connective) (tail rest : List UInt8) :
    comparison item ++ rest ≠ connective joined ++ tail := by
  cases joined <;> simp [comparison, connective, ascii]

theorem connective_split {first second : Connective} {rest more : List UInt8}
    (same : connective first ++ rest = connective second ++ more) :
    first = second ∧ rest = more := by
  cases first <;> cases second <;> simp_all [connective, ascii]

theorem filter_join (joined : Connective) (children : List Filter) (rest : List UInt8) :
    filter (.join joined children) ++ rest =
      connective joined ++ (counted filter children ++ rest) := by
  simp [filter, filters_eq, counted]

theorem determines_filter (item : Filter) :
    Determines filter Filter.isCounted Filter.unbound item := by
  induction item with
  | leaf c =>
      intro firstCounted second secondCounted rest more same
      cases second with
      | leaf d =>
          rw [Filter.isCounted, Filter.every_leaf] at firstCounted secondCounted
          rw [filter, filter] at same
          obtain ⟨comparisonEq, restEq⟩ :=
            determines_comparison c firstCounted d secondCounted rest more same
          exact ⟨by simp [Filter.unbound_leaf, comparisonEq], restEq⟩
      | join joined children =>
          rw [filter_join, filter] at same
          exact absurd same (comparison_ne_join c joined _ rest)
  | join joined children ih =>
      intro firstCounted second secondCounted rest more same
      rw [filter_join] at same
      cases second with
      | leaf d =>
          rw [filter] at same
          exact absurd same.symm (comparison_ne_join d joined _ more)
      | join other others =>
          rw [filter_join] at same
          rw [Filter.isCounted, Filter.every_join] at firstCounted secondCounted
          obtain ⟨connectiveEq, same⟩ := connective_split same
          obtain ⟨childrenEq, restEq⟩ :=
            determines_counted ih firstCounted others secondCounted rest more same
          exact ⟨by simp [Filter.unbound_join, connectiveEq, childrenEq], restEq⟩

theorem missing_ne_filter (item : Filter) (tail rest : List UInt8) :
    optionalFilter none ++ tail ≠ filter item ++ rest := by
  cases item with
  | leaf c => simp [optionalFilter, filter, comparison, ascii]
  | join joined children => cases joined <;> simp [optionalFilter, filter, connective, ascii]

theorem determines_optionalFilter (given : Option Filter) :
    Determines optionalFilter (Option.all Filter.isCounted) (Option.map Filter.unbound) given := by
  intro firstCounted second secondCounted rest more same
  cases given with
  | none =>
      cases second with
      | none => exact ⟨rfl, List.append_cancel_left same⟩
      | some f => exact absurd same (missing_ne_filter f rest more)
  | some f =>
      cases second with
      | none => exact absurd same.symm (missing_ne_filter f more rest)
      | some g =>
          obtain ⟨filterEq, restEq⟩ :=
            determines_filter f firstCounted g secondCounted rest more same
          exact ⟨by simp [filterEq], restEq⟩

theorem determines_order (item : OrderBy) : Determines order OrderBy.isCounted id item := by
  intro firstCounted second secondCounted rest more same
  obtain ⟨property, direction⟩ := item
  obtain ⟨otherProperty, otherDirection⟩ := second
  simp only [order, List.append_assoc] at same
  obtain ⟨propertyEq, same⟩ :=
    determines_string property firstCounted otherProperty secondCounted _ _ same
  have directionEq : direction = otherDirection ∧ rest = more := by
    cases direction <;> cases otherDirection <;> simp_all [Direction.word, ascii]
  exact ⟨by simp_all, directionEq.2⟩

theorem determines_orderBy (orders : List OrderBy) :
    Determines orderBy (areCounted OrderBy.isCounted) id orders := by
  intro firstCounted second secondCounted rest more same
  simp only [orderBy, List.append_assoc, List.append_cancel_left_eq] at same
  rw [← List.append_assoc, ← List.append_assoc] at same
  obtain ⟨ordersEq, restEq⟩ := determines_counted (fun item _ => determines_order item)
    firstCounted second secondCounted rest more same
  rw [List.map_id, List.map_id] at ordersEq
  exact ⟨ordersEq, restEq⟩

theorem determines_select (names : List String) :
    Determines select (areCounted isCountedText) id names := by
  intro firstCounted second secondCounted rest more same
  simp only [select, List.append_assoc, List.append_cancel_left_eq] at same
  rw [← List.append_assoc, ← List.append_assoc] at same
  obtain ⟨namesEq, restEq⟩ := determines_counted (fun item _ => determines_string item)
    firstCounted second secondCounted rest more same
  rw [List.map_id, List.map_id] at namesEq
  exact ⟨namesEq, restEq⟩

theorem expandNodes_eq (nodes : List Expand) : expandNodes nodes = nodes.flatMap expandNode := by
  induction nodes with
  | nil => simp [expandNodes]
  | cons node nodes ih => simp [expandNodes, ih]

theorem expand_eq (nodes : List Expand) :
    expand nodes = ascii ['e', 'x', 'p', 'a', 'n', 'd'] ++ counted expandNode nodes := by
  simp [expand, expandHead, expandNodes_eq, counted]

theorem determines_expand {nodes : List Expand}
    (determines : ∀ node ∈ nodes, Determines expandNode Expand.isCounted Expand.unbound node) :
    Determines expand (areCounted Expand.isCounted) (List.map Expand.unbound) nodes := by
  intro firstCounted second secondCounted rest more same
  simp only [expand_eq, List.append_assoc, List.append_cancel_left_eq] at same
  exact determines_counted determines firstCounted second secondCounted rest more same

theorem expandNode_eq (property : String) (filters : Option Filter) (orders : List OrderBy)
    (names : List String) (top : Option UInt64) (skip : UInt64) (skiptoken : Option String)
    (children : List Expand) (rest : List UInt8) :
    expandNode ⟨property, filters, orders, names, top, skip, skiptoken, children⟩ ++ rest =
      string property ++ (optionalFilter filters ++ (orderBy orders ++ (select names ++
        (optional word top ++ (word skip ++ (optional string skiptoken ++
          (expand children ++ rest))))))) := by
  simp [expandNode, expand]

theorem determines_expandNode (node : Expand) :
    Determines expandNode Expand.isCounted Expand.unbound node := by
  induction node with
  | node property filters orders names top skip skiptoken children ih =>
      intro firstCounted second secondCounted rest more same
      obtain ⟨property', filters', orders', names', top', skip', skiptoken', children'⟩ := second
      simp only [Expand.isCounted, Expand.areCounted_eq, Bool.and_eq_true]
        at firstCounted secondCounted
      obtain ⟨⟨⟨⟨⟨⟨propertyCounted, filtersCounted⟩, ordersCounted⟩, namesCounted⟩, tokenCounted⟩,
        childCount⟩, childrenCounted⟩ := firstCounted
      obtain ⟨⟨⟨⟨⟨⟨propertyCounted', filtersCounted'⟩, ordersCounted'⟩, namesCounted'⟩,
        tokenCounted'⟩, childCount'⟩, childrenCounted'⟩ := secondCounted
      rw [expandNode_eq, expandNode_eq] at same
      obtain ⟨propertyEq, same⟩ :=
        determines_string _ propertyCounted _ propertyCounted' _ _ same
      obtain ⟨filtersEq, same⟩ :=
        determines_optionalFilter _ filtersCounted _ filtersCounted' _ _ same
      obtain ⟨ordersEq, same⟩ := determines_orderBy _ ordersCounted _ ordersCounted' _ _ same
      obtain ⟨namesEq, same⟩ := determines_select _ namesCounted _ namesCounted' _ _ same
      obtain ⟨topEq, same⟩ := determines_optional (fun word _ => determines_word word)
        (by simp) _ (by simp) _ _ same
      obtain ⟨skipEq, same⟩ := word_split same
      obtain ⟨tokenEq, same⟩ := determines_optional (fun text _ => determines_string text)
        tokenCounted _ tokenCounted' _ _ same
      obtain ⟨childrenEq, restEq⟩ := determines_expand ih
        (by simp [areCounted, childCount, childrenCounted]) _
        (by simp [areCounted, childCount', childrenCounted']) _ _ same
      simp only [id_eq, Option.map_id] at propertyEq ordersEq namesEq topEq tokenEq
      refine ⟨?_, restEq⟩
      simp only [Expand.unbound, Expand.unboundAll_eq, propertyEq, filtersEq, ordersEq, namesEq,
        topEq, skipEq, tokenEq, childrenEq]

end Encoding

namespace Options

/-- What the key of options stands for: all that shapes the result. A list that was never set counts
as empty, and the definitions that filters are bound to are left out. -/
structure Content where
  entity : Entity
  top : Option UInt64
  skip : UInt64
  skiptoken : Option String
  filters : Option Filter
  orderBy : List OrderBy
  select : List String
  expand : List Expand

def content (options : Options) : Content where
  entity := options.entity
  top := options.top
  skip := options.skip
  skiptoken := options.skiptoken
  filters := options.filters.map Filter.unbound
  orderBy := options.orderBy.getD []
  select := options.select.getD []
  expand := options.expandNodes.map Expand.unbound

/-- Every string, list and row of children in the options has a length that fits a word. -/
def isCounted (options : Options) : Bool :=
  Encoding.isCountedText options.entity && options.skiptoken.all Encoding.isCountedText &&
    options.filters.all Filter.isCounted &&
    Encoding.areCounted OrderBy.isCounted (options.orderBy.getD []) &&
    Encoding.areCounted Encoding.isCountedText (options.select.getD []) &&
    Encoding.areCounted Expand.isCounted options.expandNodes

open Encoding in
theorem content_eq_of_encoding_eq {first second : Options} (firstCounted : first.isCounted = true)
    (secondCounted : second.isCounted = true) (same : first.encoding = second.encoding) :
    first.content = second.content := by
  simp only [isCounted, Bool.and_eq_true] at firstCounted secondCounted
  obtain ⟨⟨⟨⟨⟨entityCounted, tokenCounted⟩, filtersCounted⟩, ordersCounted⟩, namesCounted⟩,
    nodesCounted⟩ := firstCounted
  obtain ⟨⟨⟨⟨⟨entityCounted', tokenCounted'⟩, filtersCounted'⟩, ordersCounted'⟩, namesCounted'⟩,
    nodesCounted'⟩ := secondCounted
  rw [← List.append_nil first.encoding, ← List.append_nil second.encoding] at same
  simp only [encoding, List.append_assoc] at same
  obtain ⟨entityEq, same⟩ := determines_string _ entityCounted _ entityCounted' _ _ same
  obtain ⟨topEq, same⟩ := determines_optional (fun word _ => determines_word word)
    (by simp) _ (by simp) _ _ same
  obtain ⟨skipEq, same⟩ := word_split same
  obtain ⟨tokenEq, same⟩ := determines_optional (fun text _ => determines_string text)
    tokenCounted _ tokenCounted' _ _ same
  obtain ⟨filtersEq, same⟩ :=
    determines_optionalFilter _ filtersCounted _ filtersCounted' _ _ same
  obtain ⟨ordersEq, same⟩ := determines_orderBy _ ordersCounted _ ordersCounted' _ _ same
  obtain ⟨namesEq, same⟩ := determines_select _ namesCounted _ namesCounted' _ _ same
  obtain ⟨nodesEq, _⟩ := determines_expand (fun node _ => determines_expandNode node)
    nodesCounted _ nodesCounted' _ _ same
  simp only [id_eq, Option.map_id] at entityEq ordersEq namesEq topEq tokenEq
  simp only [content, entityEq, topEq, skipEq, tokenEq, filtersEq, ordersEq, namesEq, nodesEq]

/-- The bytes of options, of a filter and of expanded relations tell their contents. So options of
different content share a key only where the hash takes two byte sequences for one. -/
theorem encoding_unambiguous :
    (∀ first second : Options, first.isCounted = true → second.isCounted = true →
      first.encoding = second.encoding → first.content = second.content) ∧
    (∀ first second : Filter, first.isCounted = true → second.isCounted = true →
      Encoding.filter first = Encoding.filter second → first.unbound = second.unbound) ∧
    (∀ first second : List Expand, Encoding.areCounted Expand.isCounted first = true →
      Encoding.areCounted Expand.isCounted second = true →
      Encoding.expand first = Encoding.expand second →
      first.map Expand.unbound = second.map Expand.unbound) ∧
    ∀ first second : Options, first.isCounted = true → second.isCounted = true →
      first.content ≠ second.content → first.key = second.key →
      first.encoding ≠ second.encoding ∧ Fnv.hash first.encoding = Fnv.hash second.encoding := by
  refine ⟨?_, ?_, ?_, ?_⟩
  · intro first second firstCounted secondCounted
    exact content_eq_of_encoding_eq firstCounted secondCounted
  · intro first second firstCounted secondCounted same
    exact (Encoding.determines_filter first firstCounted second secondCounted [] []
      (by rw [same])).1
  · intro first second firstCounted secondCounted same
    exact (Encoding.determines_expand (fun node _ => Encoding.determines_expandNode node)
      firstCounted second secondCounted [] [] (by rw [same])).1
  · intro first second firstCounted secondCounted different sameKey
    simp only [key, Key.ofBytes, Key.mk.injEq] at sameKey
    refine ⟨fun same => ?_, sameKey⟩
    exact different (content_eq_of_encoding_eq firstCounted secondCounted same)

/-- The bytes pass over bound definitions and over lists that were set to be empty. -/
theorem encoding_unambiguous_empty_lists :
    content { catalog := ⟨"user", ⟨[⟨"name", none, none⟩]⟩, ["name"], ["name"], []⟩,
              filters := some (.leaf ⟨"name", .eq, .single (.text "é"), some ⟨"name", none, none⟩⟩),
              orderBy := some [], expand := some [] } =
      content { catalog := ⟨"user", .empty, [], [], []⟩,
                filters := some (.leaf ⟨"name", .eq, .single (.text "é"), none⟩) } :=
  encoding_unambiguous.1 _ _ (by decide +kernel) (by decide +kernel) (by decide +kernel)

end Options

end QueryOptions
