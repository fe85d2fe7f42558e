import QueryOptions.Filter.Parser
import QueryOptions.Proofs.Key.Unambiguous
import QueryOptions.Proofs.Number.Order
import QueryOptions.Proofs.Outcome

/-!
What equality has to do with identity. Floats are equal as numbers but are hashed by their bits, so
the two zeros, and all NaNs, are equal and yet hashed apart. Everything else that is equal is hashed
alike: the encodings of equal trees are the same bytes but for the values in them.
-/

namespace QueryOptions

/-- Lists that agree but for one place, where their items are related. -/
inductive OneApart (related : α → α → Prop) : List α → List α → Prop
  | head {a b : α} (apart : related a b) (rest : List α) : OneApart related (a :: rest) (b :: rest)
  | tail (a : α) {as bs : List α} (apart : OneApart related as bs) :
      OneApart related (a :: as) (a :: bs)

namespace OneApart

variable {related : α → α → Prop} {as bs cs ds : List α}

theorem cons_iff {a b : α} :
    OneApart related (a :: as) (b :: bs) ↔
      related a b ∧ as = bs ∨ a = b ∧ OneApart related as bs := by
  constructor
  · intro apart
    cases apart with
    | head apart => exact .inl ⟨apart, rfl⟩
    | tail _ apart => exact .inr ⟨rfl, apart⟩
  · rintro (⟨apart, rfl⟩ | ⟨rfl, apart⟩)
    · exact head apart as
    · exact tail a apart

theorem append_right (apart : OneApart related as bs) (rest : List α) :
    OneApart related (as ++ rest) (bs ++ rest) := by
  induction apart with
  | head apart tail => exact head apart (tail ++ rest)
  | tail a apart ih => exact tail a ih

theorem append_left (start : List α) (apart : OneApart related as bs) :
    OneApart related (start ++ as) (start ++ bs) := by
  induction start with
  | nil => exact apart
  | cons a start ih => exact tail a ih

theorem split (apart : OneApart related (as ++ cs) (bs ++ ds)) (lengthEq : as.length = bs.length) :
    OneApart related as bs ∧ cs = ds ∨ as = bs ∧ OneApart related cs ds := by
  induction as generalizing bs with
  | nil =>
      obtain rfl : bs = [] := List.length_eq_zero_iff.mp lengthEq.symm
      exact .inr ⟨rfl, apart⟩
  | cons a as ih =>
      cases bs with
      | nil => simp at lengthEq
      | cons b bs =>
          simp only [List.length_cons, Nat.add_right_cancel_iff] at lengthEq
          rw [List.cons_append, List.cons_append, cons_iff] at apart
          rcases apart with ⟨apart, restEq⟩ | ⟨rfl, apart⟩
          · obtain ⟨rfl, rfl⟩ := List.append_inj restEq lengthEq
            exact .inl ⟨head apart as, rfl⟩
          · rcases ih apart lengthEq with ⟨inside, restEq⟩ | ⟨rfl, inside⟩
            · exact .inl ⟨tail a inside, restEq⟩
            · exact .inr ⟨rfl, inside⟩

end OneApart

namespace Fnv

theorem prime_mul_inverse : prime * 0xCE965057AFF6957B = 1 := by
  decide

/-- The prime is odd and so has an inverse: a step can be undone, and tells bytes apart. -/
theorem step_inj {first second : UInt64} {a b : UInt8} (same : step first a = step second b) :
    first ^^^ a.toUInt64 = second ^^^ b.toUInt64 := by
  have undone := congrArg (· * 0xCE965057AFF6957B) same
  simpa only [step, UInt64.mul_assoc, prime_mul_inverse, UInt64.mul_one] using undone

theorem feed_inj {first second : UInt64} {bytes : List UInt8}
    (same : feed first bytes = feed second bytes) : first = second := by
  induction bytes generalizing first second with
  | nil => exact same
  | cons byte bytes ih => exact (UInt64.xor_left_inj _).mp (step_inj (ih same))

/-- One byte makes a difference to the hash, whatever comes after it. -/
theorem feed_ne_of_oneApart {state : UInt64} {first second : List UInt8}
    (apart : OneApart (· ≠ ·) first second) : feed state first ≠ feed state second := by
  induction apart generalizing state with
  | head apart rest =>
      intro same
      have bytes := (UInt64.xor_right_inj _).mp (step_inj (feed_inj same))
      exact apart (UInt8.toUInt64_inj.mp bytes)
  | tail byte apart ih => exact ih

end Fnv

theorem Binary64.eq_of_littleEndian_eq {x y : Binary64}
    (same : littleEndian x.bits = littleEndian y.bits) : x = y :=
  congrArg Binary64.mk (littleEndian_inj same)

namespace Value

def hasTwin : Value → Bool
  | real x => x.isNaN || x.magnitude == 0
  | _ => false

def OppositeZeros (a b : Value) : Prop :=
  a = real ⟨0⟩ ∧ b = real ⟨0x8000000000000000⟩ ∨ a = real ⟨0x8000000000000000⟩ ∧ b = real ⟨0⟩

variable {a b : Value}

theorem eq_or_twins_of_same (same : a.same b = true) :
    a = b ∨ a.hasTwin = true ∧ ∃ x y, a = real x ∧ b = real y := by
  cases a with
  | real x =>
      cases b with
      | real y =>
          rcases Binary64.same_iff.mp same with rfl | ⟨nan, _⟩ | ⟨zero, _⟩
          · exact .inl rfl
          · exact .inr ⟨by simp [hasTwin, nan], x, y, rfl, rfl⟩
          · exact .inr ⟨by simp [hasTwin, zero], x, y, rfl, rfl⟩
      | _ => contradiction
  | _ => cases b <;> simp_all [Value.same]

theorem exists_twin_iff : a.hasTwin = true ↔ ∃ b, a.same b = true ∧ a ≠ b := by
  constructor
  · intro twin
    cases a with
    | real x =>
        have small : x.magnitude < Binary64.signWeight := Nat.mod_lt _ (by decide)
        obtain ⟨magnitudeEq, signEq⟩ := Binary64.magnitude_ofMagnitude (!x.isNegative) small
        refine ⟨real (.ofMagnitude (!x.isNegative) x.magnitude), ?_, ?_⟩
        · apply Binary64.same_iff.mpr
          right
          simpa [hasTwin, Binary64.isNaN, magnitudeEq] using twin
        · intro equal
          rw [← real.inj equal] at signEq
          simp at signEq
    | _ => contradiction
  · rintro ⟨b, same, different⟩
    exact ((eq_or_twins_of_same same).resolve_left different).1

theorem hashInput_eq_iff (same : a.same b = true) : a.hashInput = b.hashInput ↔ a = b := by
  constructor
  · intro inputEq
    rcases eq_or_twins_of_same same with rfl | ⟨_, x, y, rfl, rfl⟩
    · rfl
    · rw [Binary64.eq_of_littleEndian_eq (List.append_cancel_left inputEq)]
  · rintro rfl
    rfl

end Value

namespace Filter

def values (filter : Filter) : List Value :=
  filter.leaves.flatMap fun comparison => comparison.operand.values

theorem values_leaf (comparison : Comparison) :
    (leaf comparison).values = comparison.operand.values := by
  simp [values, leaves]

theorem values_join (connective : Connective) (children : List Filter) :
    (join connective children).values = children.flatMap values := by
  rw [values, leaves_join, List.flatMap_assoc]
  rfl

end Filter

namespace Expand

mutual

def values : Expand → List Value
  | ⟨_, filters, _, _, _, _, _, children⟩ =>
      filters.elim [] Filter.values ++ valuesOf children

def valuesOf : List Expand → List Value
  | [] => []
  | child :: children => child.values ++ valuesOf children

end

theorem valuesOf_eq (children : List Expand) : valuesOf children = children.flatMap values := by
  induction children with
  | nil => simp [valuesOf]
  | cons child children ih => simp [valuesOf, ih]

end Expand

namespace Encoding

/-- Two encodings with the values in them. The values are equal one by one, and all else is the
same. -/
inductive Alike : List UInt8 → List Value → List UInt8 → List Value → Prop
  | shared (bytes : List UInt8) : Alike bytes [] bytes []
  | value {a b : Value} (same : a.same b = true) : Alike (value a) [a] (value b) [b]
  | append {first second first' second' : List UInt8} {values others values' others' : List Value}
      (start : Alike first values second others) (rest : Alike first' values' second' others') :
      Alike (first ++ first') (values ++ values') (second ++ second') (others ++ others')

theorem value_of_same {a b : Value} (same : a.same b = true) :
    (value a).length = (value b).length ∧ (value a = value b ↔ a = b) := by
  rcases Value.eq_or_twins_of_same same with rfl | ⟨_, x, y, rfl, rfl⟩
  · simp
  · refine ⟨rfl, ?_, congrArg value⟩
    intro bytesEq
    rw [Binary64.eq_of_littleEndian_eq (List.append_cancel_left bytesEq)]

theorem oneApart_value {a b : Value} (zeros : a.OppositeZeros b) :
    OneApart (· ≠ ·) (value a) (value b) := by
  have positive : value (.real ⟨0⟩) = ascii ['f', '6', '4'] ++ [0, 0, 0, 0, 0, 0, 0] ++ [0] := by
    decide
  have negative : value (.real ⟨0x8000000000000000⟩) =
      ascii ['f', '6', '4'] ++ [0, 0, 0, 0, 0, 0, 0] ++ [0x80] := by
    decide
  rcases zeros with ⟨rfl, rfl⟩ | ⟨rfl, rfl⟩
  · rw [positive, negative]
    exact .append_left _ (.head (by decide) [])
  · rw [positive, negative]
    exact .append_left _ (.head (by decide) [])

namespace Alike

variable {first second : List UInt8} {values others : List Value}

theorem after (bytes : List UInt8) (alike : Alike first values second others) :
    Alike (bytes ++ first) values (bytes ++ second) others :=
  append (shared bytes) alike

theorem lengths (alike : Alike first values second others) :
    first.length = second.length ∧ values.length = others.length := by
  induction alike with
  | shared bytes => exact ⟨rfl, rfl⟩
  | value same => exact ⟨(value_of_same same).1, rfl⟩
  | append start rest startIh restIh =>
      simp only [List.length_append]
      omega

theorem bytes_eq_iff (alike : Alike first values second others) :
    first = second ↔ values = others := by
  induction alike with
  | shared bytes => simp
  | value same => simp [(value_of_same same).2]
  | append start rest startIh restIh =>
      constructor
      · intro bytesEq
        obtain ⟨startEq, restEq⟩ := List.append_inj bytesEq start.lengths.1
        rw [startIh.mp startEq, restIh.mp restEq]
      · intro valuesEq
        obtain ⟨startEq, restEq⟩ := List.append_inj valuesEq start.lengths.2
        rw [startIh.mpr startEq, restIh.mpr restEq]

theorem values_eq (alike : Alike first values second others)
    (noTwin : ∀ value ∈ values, value.hasTwin = false) : values = others := by
  induction alike with
  | shared bytes => rfl
  | value same =>
      rcases Value.eq_or_twins_of_same same with rfl | ⟨twin, _⟩
      · rfl
      · simp [twin] at noTwin
  | append start rest startIh restIh =>
      rw [List.forall_mem_append] at noTwin
      rw [startIh noTwin.1, restIh noTwin.2]

theorem bytes_oneApart (alike : Alike first values second others)
    (apart : OneApart Value.OppositeZeros values others) : OneApart (· ≠ ·) first second := by
  induction alike with
  | shared bytes => nomatch apart
  | value same =>
      cases apart with
      | head zeros => exact oneApart_value zeros
      | tail _ apart => nomatch apart
  | append start rest startIh restIh =>
      -- The part without the zero has the same values in both, and so the same bytes.
      rcases apart.split start.lengths.2 with ⟨apart, restEq⟩ | ⟨startEq, apart⟩
      · rw [rest.bytes_eq_iff.mpr restEq]
        exact (startIh apart).append_right _
      · rw [start.bytes_eq_iff.mpr startEq]
        exact (restIh apart).append_left _

theorem counted {same : α → α → Bool} {encode : α → List UInt8} {content : α → List Value}
    {as bs : List α}
    (each : ∀ a ∈ as, ∀ b, same a b = true → Alike (encode a) (content a) (encode b) (content b))
    (equal : (as.length == bs.length && (as.zip bs).all fun (a, b) => same a b) = true) :
    Alike (Encoding.counted encode as) (as.flatMap content)
      (Encoding.counted encode bs) (bs.flatMap content) := by
  rw [Bool.and_eq_true, beq_iff_eq] at equal
  obtain ⟨lengthEq, equal⟩ := equal
  rw [Encoding.counted, Encoding.counted, lengthEq]
  apply after
  induction as generalizing bs with
  | nil =>
      obtain rfl : bs = [] := List.length_eq_zero_iff.mp lengthEq.symm
      exact shared []
  | cons a as ih =>
      cases bs with
      | nil => simp at lengthEq
      | cons b bs =>
          rw [List.forall_mem_cons] at each
          rw [List.zip_cons_cons, List.all_cons, Bool.and_eq_true] at equal
          have first := each.1 b equal.1
          have rest := ih each.2 (by simpa using lengthEq) equal.2
          exact append first rest

end Alike

theorem alike_operand {x y : Operand} (same : x.same y = true) :
    Alike (operand x) x.values (operand y) y.values := by
  cases x with
  | single a =>
      cases y with
      | single b => exact .value same
      | list bs => simp [Operand.same] at same
  | list as =>
      cases y with
      | single b => simp [Operand.same] at same
      | list bs =>
          have items : Alike (counted value as) (as.flatMap fun a => [a])
              (counted value bs) (bs.flatMap fun b => [b]) :=
            .counted (fun a _ b equal => .value equal) same
          rw [List.flatMap_singleton', List.flatMap_singleton'] at items
          rw [operand, operand, List.append_assoc, List.append_assoc]
          exact .after _ items

theorem alike_comparison {x y : Comparison} (same : x.same y = true) :
    Alike (comparison x) x.operand.values (comparison y) y.operand.values := by
  simp only [Comparison.same, Bool.and_eq_true, beq_iff_eq] at same
  obtain ⟨⟨propertyEq, operatorEq⟩, operandSame⟩ := same
  rw [comparison, comparison, propertyEq, operatorEq]
  exact .after _ (alike_operand operandSame)

theorem alike_filter {x y : Filter} (same : x.same y = true) :
    Alike (filter x) x.values (filter y) y.values := by
  induction x generalizing y with
  | leaf c =>
      cases y with
      | leaf d =>
          rw [Filter.same] at same
          rw [Filter.values_leaf, Filter.values_leaf, filter, filter]
          exact alike_comparison same
      | join joined children => simp [Filter.same] at same
  | join joined children ih =>
      cases y with
      | leaf d => simp [Filter.same] at same
      | join other others =>
          rw [Filter.same, Bool.and_eq_true, beq_iff_eq, Filter.sameAll_eq] at same
          obtain ⟨rfl, same⟩ := same
          simp only [Filter.values_join, filter, filters_eq, List.append_assoc]
          exact .after _ (.counted (fun child member _ => ih child member) same)

theorem alike_optionalFilter {x y : Option Filter} (same : Expand.sameFilters x y = true) :
    Alike (optionalFilter x) (x.elim [] Filter.values)
      (optionalFilter y) (y.elim [] Filter.values) := by
  cases x with
  | none =>
      cases y with
      | none => exact .shared _
      | some g => simp [Expand.sameFilters] at same
  | some f =>
      cases y with
      | none => simp [Expand.sameFilters] at same
      | some g => exact alike_filter same

theorem alike_expand {as bs : List Expand}
    (each : ∀ a ∈ as, ∀ b, a.same b = true →
      Alike (expandNode a) a.values (expandNode b) b.values)
    (same : Expand.sameAll as bs = true) :
    Alike (expand as) (as.flatMap Expand.values) (expand bs) (bs.flatMap Expand.values) := by
  rw [Expand.sameAll_eq] at same
  rw [expand_eq, expand_eq]
  exact .after _ (.counted each same)

theorem alike_expandNode {x y : Expand} (same : x.same y = true) :
    Alike (expandNode x) x.values (expandNode y) y.values := by
  induction x generalizing y with
  | node property filters orders names top skip skiptoken children ih =>
      obtain ⟨property', filters', orders', names', top', skip', skiptoken', children'⟩ := y
      simp only [Expand.same, Bool.and_eq_true, beq_iff_eq] at same
      obtain ⟨⟨⟨⟨⟨⟨⟨rfl, filtersSame⟩, rfl⟩, rfl⟩, rfl⟩, rfl⟩, rfl⟩, childrenSame⟩ := same
      simp only [Expand.values, Expand.valuesOf_eq, expandNode, List.append_assoc]
      have below := alike_expand (fun child member _ => ih child member) childrenSame
      exact .after _ (.append (alike_optionalFilter filtersSame)
        (.after _ (.after _ (.after _ (.after _ (.after _ below))))))

end Encoding

/-- Equal trees have the same bytes exactly when their values have the same bits. -/
theorem key_of_alike {first second : List UInt8} {values others : List Value}
    (alike : Encoding.Alike first values second others) :
    (first = second ↔ values = others) ∧
    ((∀ value ∈ values, value.hasTwin = false) → Key.ofBytes first = Key.ofBytes second) ∧
    (OneApart Value.OppositeZeros values others → Key.ofBytes first ≠ Key.ofBytes second) := by
  refine ⟨alike.bytes_eq_iff, ?_, ?_⟩
  · intro noTwin
    rw [alike.bytes_eq_iff.mpr (alike.values_eq noTwin)]
  · intro apart keyEq
    exact Fnv.feed_ne_of_oneApart (alike.bytes_oneApart apart) (congrArg Key.hash keyEq)

/-- Equal values hash alike, and equal trees have the same bytes, exactly where their values agree
to the bit. The values equal to another one are the zeros and the NaNs among the floats. So a tree
without them has the key of every tree equal to it, while a zero of the other sign always changes
the key. -/
theorem identity_exact (a b : Value) (x y : Filter) (node other : Expand) :
    (a.same b = true → (a.hashInput = b.hashInput ↔ a = b)) ∧
    (a.hasTwin = true ↔ ∃ twin, a.same twin = true ∧ a.hashInput ≠ twin.hashInput) ∧
    (x.same y = true →
      (Encoding.filter x = Encoding.filter y ↔ x.values = y.values) ∧
      ((∀ value ∈ x.values, value.hasTwin = false) → x.key = y.key) ∧
      (OneApart Value.OppositeZeros x.values y.values → x.key ≠ y.key)) ∧
    (node.same other = true →
      (Encoding.expand [node] = Encoding.expand [other] ↔ node.values = other.values) ∧
      ((∀ value ∈ node.values, value.hasTwin = false) → node.key = other.key) ∧
      (OneApart Value.OppositeZeros node.values other.values → node.key ≠ other.key)) := by
  refine ⟨Value.hashInput_eq_iff, ?_, ?_, ?_⟩
  · rw [Value.exists_twin_iff]
    apply exists_congr
    intro twin
    apply and_congr_right
    intro same
    rw [ne_eq, ne_eq, Value.hashInput_eq_iff same]
  · intro same
    exact key_of_alike (Encoding.alike_filter same)
  · intro same
    have alone : Expand.sameAll [node] [other] = true := by simp [Expand.sameAll, same]
    have alike := Encoding.alike_expand (fun _ _ _ => Encoding.alike_expandNode) alone
    rw [List.flatMap_singleton, List.flatMap_singleton] at alike
    exact key_of_alike alike

/-- A filter keeps its key when it is given its property's definition. A node does not when a zero
in its filter becomes negative, and neither does the zero keep what it hands to a hash. -/
theorem identity_exact_price :
    let price (values : List Value) (definition : Option PropertyDefinition) : Filter :=
      .leaf ⟨"price", .isIn, .list values, definition⟩
    let lines (zero : Value) : Expand :=
      ⟨"lines", some (price [zero] none), [], [], none, 0, none, []⟩
    let bare := price [.integer 0, .real ⟨0x3FF8000000000000⟩] none
    let bound := price [.integer 0, .real ⟨0x3FF8000000000000⟩] (some ⟨"price", none, none⟩)
    let positive : Value := .real ⟨0⟩
    let negative : Value := .real ⟨0x8000000000000000⟩
    (bare.same bound = true ∧ (∀ value ∈ bare.values, value.hasTwin = false) ∧
      bare.key = bound.key) ∧
    ((lines positive).same (lines negative) = true ∧ (lines positive).key ≠ (lines negative).key) ∧
    positive.same negative = true ∧ positive.hashInput ≠ negative.hashInput := by
  intro price lines bare bound positive negative
  obtain ⟨hashed, _, filters, nodes⟩ :=
    identity_exact positive negative bare bound (lines positive) (lines negative)
  have sameFilters : bare.same bound = true := by decide +kernel
  have noTwin : ∀ value ∈ bare.values, value.hasTwin = false := by decide +kernel
  have sameNodes : (lines positive).same (lines negative) = true := by decide +kernel
  have sameZeros : positive.same negative = true := by decide +kernel
  refine ⟨⟨sameFilters, noTwin, (filters sameFilters).2.1 noTwin⟩, ⟨sameNodes, ?_⟩, sameZeros, ?_⟩
  · exact (nodes sameNodes).2.2 (.head (.inl ⟨rfl, rfl⟩) [])
  · rw [ne_eq, hashed sameZeros]
    decide

/-- The two zeros are equal, and so are the filters that compare with them and the nodes that have
these filters, and yet all of them are hashed apart. -/
theorem zeros_hashed_apart :
    let positive : Value := .real ⟨0⟩
    let negative : Value := .real ⟨0x8000000000000000⟩
    let node (filter : Filter) : Expand := ⟨"lines", some filter, [], [], none, 0, none, []⟩
    (positive.same negative = true ∧ positive.hashInput ≠ negative.hashInput) ∧
      ∃ x y, Filter.parse {} "price in [0.0]" = .ok x ∧ Filter.parse {} "price in [-0.0]" = .ok y ∧
        (x.same y = true ∧ x.key ≠ y.key) ∧
        (node x).same (node y) = true ∧ (node x).key ≠ (node y).key := by
  intro positive negative node
  refine ⟨by decide +kernel, ?_⟩
  obtain ⟨x, first, tested⟩ := Outcome.toOption_any (by decide +kernel :
    (Filter.parse {} "price in [0.0]").toOption.any (fun x =>
      (Filter.parse {} "price in [-0.0]").toOption.any fun y =>
        (x.same y && x.key != y.key) && ((node x).same (node y) && (node x).key != (node y).key))
      = true)
  obtain ⟨y, second, tested⟩ := Outcome.toOption_any tested
  simp only [Bool.and_eq_true, bne_iff_ne] at tested
  exact ⟨x, y, first, second, tested⟩

end QueryOptions
