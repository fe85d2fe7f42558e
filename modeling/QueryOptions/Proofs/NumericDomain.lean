import QueryOptions.Proofs.Number.Order
import QueryOptions.Value

/-!
Integers and floats as one kind of number. Two integers are compared exactly, and a float with
anything after rounding. Rounding keeps the order of integers, so the two ways agree but for
different integers that are rounded to one float, and these are large.
-/

namespace QueryOptions.Value

def isNaN : Value → Bool
  | real x => x.isNaN
  | _ => false

def AtMost (a b : Value) : Prop :=
  a.compareNumeric b = some .lt ∨ a.compareNumeric b = some .eq

def rank : Value → Int
  | integer value => (Binary64.ofInt value.toInt).rank
  | real x => x.rank
  | _ => 0

def compared : Value → Value → Int × Int
  | integer m, integer n => (m.toInt, n.toInt)
  | a, b => (a.rank, b.rank)

theorem compared_cases (a b : Value) :
    (∃ m n, a = integer m ∧ b = integer n ∧ compared a b = (m.toInt, n.toInt)) ∨
      ¬(∃ m n, a = integer m ∧ b = integer n) ∧ compared a b = (a.rank, b.rank) := by
  cases a with
  | integer m =>
      cases b with
      | integer n => exact .inl ⟨m, n, rfl, rfl, rfl⟩
      | _ => exact .inr ⟨by simp, rfl⟩
  | _ => exact .inr ⟨by simp, rfl⟩

theorem compared_swap (a b : Value) : compared b a = (compared a b).swap := by
  obtain ⟨m, n, rfl, rfl, _⟩ | ⟨mixed, pair⟩ := compared_cases a b
  · rfl
  · obtain ⟨n, m, rfl, rfl, _⟩ | ⟨_, reversed⟩ := compared_cases b a
    · exact absurd ⟨m, n, rfl, rfl⟩ mixed
    · rw [reversed, pair, Prod.swap_prod_mk]

def IsNumber (value : Value) : Prop :=
  value.isNumeric = true ∧ value.isNaN = false

section

variable {a b c : Value}

theorem real?_of_isNumber (number : a.IsNumber) :
    ∃ x, a.real? = some x ∧ x.isNaN = false ∧ x.rank = a.rank := by
  obtain ⟨numeric, notNaN⟩ := number
  cases a with
  | integer m => exact ⟨_, rfl, Binary64.isNaN_ofInt _, rfl⟩
  | real x => exact ⟨x, rfl, notNaN, rfl⟩
  | _ => contradiction

theorem compareNumeric_mixed (mixed : ¬∃ m n, a = integer m ∧ b = integer n) :
    a.compareNumeric b = a.real?.bind fun x => b.real?.bind x.compare? := by
  unfold compareNumeric
  split
  · exact absurd ⟨_, _, rfl, rfl⟩ mixed
  · cases a.real? <;> cases b.real? <;> rfl

theorem compareNumeric_eq (first : a.IsNumber) (second : b.IsNumber) :
    a.compareNumeric b = some (compare (compared a b).1 (compared a b).2) := by
  obtain ⟨m, n, rfl, rfl, pair⟩ | ⟨mixed, pair⟩ := compared_cases a b
  · rfl
  · obtain ⟨x, roundedFirst, firstNumber, firstRank⟩ := real?_of_isNumber first
    obtain ⟨y, roundedSecond, secondNumber, secondRank⟩ := real?_of_isNumber second
    rw [compareNumeric_mixed mixed, roundedFirst, Option.bind_some, roundedSecond, Option.bind_some,
      Binary64.compare?_eq firstNumber secondNumber, pair, firstRank, secondRank]

theorem atMost_iff (first : a.IsNumber) (second : b.IsNumber) :
    a.AtMost b ↔ (compared a b).1 ≤ (compared a b).2 := by
  rw [AtMost, compareNumeric_eq first second, Option.some.injEq, Option.some.injEq,
    compare_lt_iff_lt, compare_eq_iff_eq]
  exact Int.le_iff_lt_or_eq.symm

theorem looseEq_number_iff (first : a.IsNumber) (second : b.IsNumber) :
    a.looseEq b = true ↔ (compared a b).1 = (compared a b).2 := by
  rw [looseEq, first.1, second.1, compareNumeric_eq first second]
  simp

theorem isNumber_of_real? {x : Binary64} (rounded : a.real? = some x) (number : x.isNaN = false) :
    a.IsNumber := by
  cases a with
  | integer m => exact ⟨rfl, rfl⟩
  | real y =>
      cases rounded
      exact ⟨rfl, number⟩
  | _ => contradiction

theorem isNumber_of_compareNumeric {order : Ordering} (ordered : a.compareNumeric b = some order) :
    a.IsNumber ∧ b.IsNumber := by
  obtain ⟨m, n, rfl, rfl, _⟩ | ⟨mixed, _⟩ := compared_cases a b
  · exact ⟨⟨rfl, rfl⟩, rfl, rfl⟩
  · rw [compareNumeric_mixed mixed] at ordered
    obtain ⟨x, first, ordered⟩ := Option.bind_eq_some_iff.mp ordered
    obtain ⟨y, second, ordered⟩ := Option.bind_eq_some_iff.mp ordered
    obtain ⟨numbers, _⟩ := Binary64.compare?_eq_some_iff.mp ordered
    exact ⟨isNumber_of_real? first numbers.1, isNumber_of_real? second numbers.2⟩

theorem isNumber_of_atMost (order : a.AtMost b) : a.IsNumber ∧ b.IsNumber := by
  rcases order with less | equal
  · exact isNumber_of_compareNumeric less
  · exact isNumber_of_compareNumeric equal

theorem rank_le_of_compared (order : (compared a b).1 ≤ (compared a b).2) : a.rank ≤ b.rank := by
  obtain ⟨m, n, rfl, rfl, pair⟩ | ⟨_, pair⟩ := compared_cases a b
  · rw [pair] at order
    exact Binary64.rank_ofInt_mono order
  · rwa [pair] at order

theorem looseEq_iff_eq (other : a.isNumeric = false ∨ b.isNumeric = false) :
    a.looseEq b = true ↔ a = b := by
  have notBoth : ¬(a.isNumeric && b.isNumeric) = true := by
    rw [Bool.and_eq_true]
    rintro ⟨first, second⟩
    rcases other with none | none <;> simp_all
  rw [looseEq, if_neg notBoth]
  cases a <;> cases b <;> simp_all [same, isNumeric]

theorem atMost_antisymm_iff (first : a.IsNumber) (second : b.IsNumber) :
    a.looseEq b = true ↔ a.AtMost b ∧ b.AtMost a := by
  rw [looseEq_number_iff first second, atMost_iff first second, atMost_iff second first,
    compared_swap a b]
  exact Int.le_antisymm_iff

theorem looseEq_self (notNaN : a.isNaN = false) : a.looseEq a = true := by
  cases numeric : a.isNumeric with
  | false => exact (looseEq_iff_eq (.inl numeric)).mpr rfl
  | true =>
      rw [looseEq_number_iff ⟨numeric, notNaN⟩ ⟨numeric, notNaN⟩]
      cases a <;> rfl

theorem looseEq_comm (first : a.isNaN = false) (second : b.isNaN = false) :
    a.looseEq b = b.looseEq a := by
  rw [Bool.eq_iff_iff]
  by_cases numbers : a.isNumeric = true ∧ b.isNumeric = true
  · rw [atMost_antisymm_iff ⟨numbers.1, first⟩ ⟨numbers.2, second⟩,
      atMost_antisymm_iff ⟨numbers.2, second⟩ ⟨numbers.1, first⟩]
    exact And.comm
  · have other : a.isNumeric = false ∨ b.isNumeric = false := by
      simpa only [not_and_or, Bool.not_eq_true] using numbers
    rw [looseEq_iff_eq other, looseEq_iff_eq other.symm]
    exact eq_comm

theorem isNumeric_of_looseEq (same : a.looseEq b = true) : a.isNumeric = b.isNumeric := by
  by_cases numbers : a.isNumeric = true ∧ b.isNumeric = true
  · rw [numbers.1, numbers.2]
  · have other : a.isNumeric = false ∨ b.isNumeric = false := by
      simpa only [not_and_or, Bool.not_eq_true] using numbers
    rw [(looseEq_iff_eq other).mp same]

theorem atMost_total (first : a.IsNumber) (second : b.IsNumber) : a.AtMost b ∨ b.AtMost a := by
  rw [atMost_iff first second, atMost_iff second first, compared_swap a b]
  exact Int.le_total _ _

theorem compareNumeric_swap (first : a.IsNumber) (second : b.IsNumber) :
    b.compareNumeric a = (a.compareNumeric b).map Ordering.swap := by
  rw [compareNumeric_eq first second, compareNumeric_eq second first, compared_swap a b,
    Option.map_some, ← Std.OrientedOrd.eq_swap]
  rfl

/-- Different integers with a float between them. They are at least as large as the integers that
need all the bits of a significand. -/
def Merged (a b c : Value) : Prop :=
  ∃ m x n, a = integer m ∧ b = real x ∧ c = integer n ∧ m ≠ n ∧
    2 ^ 53 ≤ m.toInt.natAbs ∧ 2 ^ 53 ≤ n.toInt.natAbs

theorem Merged.symm (merged : Merged a b c) : Merged c b a := by
  obtain ⟨m, x, n, first, second, third, different, large⟩ := merged
  exact ⟨n, x, m, third, second, first, different.symm, large.symm⟩

/-- The order of two numbers around a third is lost only when it is a float that both of them, being
integers, are rounded to. -/
theorem atMost_trans_iff (lower : a.AtMost b) (upper : b.AtMost c) :
    ¬a.AtMost c ↔ Merged a b c ∧ c.AtMost a := by
  obtain ⟨first, second⟩ := isNumber_of_atMost lower
  obtain ⟨_, third⟩ := isNumber_of_atMost upper
  constructor
  · intro notAtMost
    refine ⟨?_, (atMost_total first third).resolve_left notAtMost⟩
    rw [atMost_iff first third] at notAtMost
    have lowerRank := rank_le_of_compared ((atMost_iff first second).mp lower)
    have upperRank := rank_le_of_compared ((atMost_iff second third).mp upper)
    obtain ⟨m, n, rfl, rfl, pair⟩ | ⟨_, pair⟩ := compared_cases a c
    · rw [pair] at notAtMost
      have different : m.toInt ≠ n.toInt := fun same => notAtMost (Int.le_of_eq same)
      cases b with
      | integer k =>
          have lowerBound := (atMost_iff first second).mp lower
          have upperBound := (atMost_iff second third).mp upper
          exact absurd (Int.le_trans lowerBound upperBound) notAtMost
      | real x =>
          have rounded := Binary64.rank_ofInt_mono (not_le.mp notAtMost).le
          exact ⟨m, x, n, rfl, rfl, rfl, fun same => different (congrArg Int64.toInt same),
            Binary64.large_of_rank_eq different
              (Int.le_antisymm (Int.le_trans lowerRank upperRank) rounded)⟩
      | _ => simp [IsNumber, isNumeric] at second
    · rw [pair] at notAtMost
      exact absurd (Int.le_trans lowerRank upperRank) notAtMost
  · rintro ⟨⟨m, x, n, rfl, rfl, rfl, different, _⟩, atMost⟩ order
    rw [atMost_iff third first] at atMost
    rw [atMost_iff first third] at order
    exact different (Int64.toInt_inj.mp (Int.le_antisymm order atMost))

/-- Loose equality is lost only on such a float. -/
theorem looseEq_trans_iff (first : a.isNaN = false) (second : b.isNaN = false)
    (third : c.isNaN = false) (lower : a.looseEq b = true) (upper : b.looseEq c = true) :
    a.looseEq c = false ↔ Merged a b c := by
  rw [← Bool.not_eq_true]
  cases numeric : b.isNumeric with
  | false =>
      obtain rfl := (looseEq_iff_eq (.inr numeric)).mp lower
      obtain rfl := (looseEq_iff_eq (.inl numeric)).mp upper
      refine iff_of_false (not_not_intro lower) ?_
      rintro ⟨m, x, n, rfl, impossible, _⟩
      contradiction
  | true =>
      have aNumber : a.IsNumber := ⟨(isNumeric_of_looseEq lower).trans numeric, first⟩
      have bNumber : b.IsNumber := ⟨numeric, second⟩
      have cNumber : c.IsNumber := ⟨(isNumeric_of_looseEq upper).symm.trans numeric, third⟩
      obtain ⟨aToB, bToA⟩ := (atMost_antisymm_iff aNumber bNumber).mp lower
      obtain ⟨bToC, cToB⟩ := (atMost_antisymm_iff bNumber cNumber).mp upper
      rw [atMost_antisymm_iff aNumber cNumber, not_and_or, atMost_trans_iff aToB bToC,
        atMost_trans_iff cToB bToA]
      constructor
      · rintro (merged | merged)
        · exact merged.1
        · exact merged.1.symm
      · intro merged
        rcases atMost_total aNumber cNumber with order | order
        · exact .inr ⟨merged.symm, order⟩
        · exact .inl ⟨merged, order⟩

end

/-- Loose equality is reflexive and symmetric on all values but NaN. Numbers are in a total order,
in which the loosely equal ones stand side by side. Both are transitive, except that a float may lie
between two large integers that are different and yet both rounded to it. -/
theorem numeric_domain_exact (a b c : Value) (first : a.isNaN = false) (second : b.isNaN = false)
    (third : c.isNaN = false) :
    a.looseEq a = true ∧ a.looseEq b = b.looseEq a ∧
    (a.looseEq b = true → b.looseEq c = true → (a.looseEq c = false ↔ Merged a b c)) ∧
    (a.isNumeric = true → b.isNumeric = true →
      (a.AtMost b ∨ b.AtMost a) ∧
      b.compareNumeric a = (a.compareNumeric b).map Ordering.swap ∧
      (a.compareNumeric b = some .eq ↔ a.looseEq b = true)) ∧
    (a.AtMost b → b.AtMost c → (¬a.AtMost c ↔ Merged a b c ∧ c.AtMost a)) := by
  refine ⟨looseEq_self first, looseEq_comm first second, looseEq_trans_iff first second third, ?_,
    atMost_trans_iff⟩
  intro firstNumeric secondNumeric
  have aNumber : a.IsNumber := ⟨firstNumeric, first⟩
  have bNumber : b.IsNumber := ⟨secondNumeric, second⟩
  refine ⟨atMost_total aNumber bNumber, compareNumeric_swap aNumber bNumber, ?_⟩
  simp [looseEq, firstNumeric, secondNumeric]

/-- Zero is loosely equal to both zeros of the floats, and these stand between `-1` and `1`. -/
theorem numeric_domain_exact_zeros :
    let zero : Value := .integer 0
    let negativeZero : Value := .real ⟨0x8000000000000000⟩
    let positiveZero : Value := .real ⟨0⟩
    (zero.looseEq negativeZero = true ∧ negativeZero.looseEq positiveZero = true ∧
      zero.looseEq positiveZero = true) ∧
      (integer (-1)).AtMost negativeZero ∧ negativeZero.AtMost (integer 1) ∧
      (integer (-1)).AtMost (integer 1) := by
  intro zero negativeZero positiveZero
  have lower : zero.looseEq negativeZero = true := by decide +kernel
  have upper : negativeZero.looseEq positiveZero = true := by decide +kernel
  have below : (integer (-1)).AtMost negativeZero := .inl (by decide +kernel)
  have above : negativeZero.AtMost (integer 1) := .inl (by decide +kernel)
  refine ⟨⟨lower, upper, ?_⟩, below, above, ?_⟩
  · by_contra different
    rw [Bool.not_eq_true, (numeric_domain_exact zero negativeZero positiveZero rfl (by decide)
      (by decide)).2.2.1 lower upper] at different
    obtain ⟨_, _, _, _, _, impossible, _⟩ := different
    exact absurd impossible (by simp [positiveZero])
  · by_contra reversed
    rw [(numeric_domain_exact (integer (-1)) negativeZero (integer 1) rfl (by decide)
      rfl).2.2.2.2 below above] at reversed
    obtain ⟨⟨_, _, _, ⟨⟩, _, _, _, large, _⟩, _⟩ := reversed
    exact absurd large (by decide)

/-- Two neighbouring integers are loosely equal to one float and not to each other, and by way of
that float the larger one is at most the smaller one. -/
theorem adjacent_integers_merged :
    let low : Value := .integer 9007199254740992
    let high : Value := .integer 9007199254740993
    let rounded : Value := .real ⟨0x4340000000000000⟩
    (low.looseEq rounded = true ∧ rounded.looseEq high = true ∧ low.looseEq high = false) ∧
      high.AtMost rounded ∧ rounded.AtMost low ∧ ¬high.AtMost low := by
  intro low high rounded
  have highRounded : high.compareNumeric rounded = some .eq := by decide +kernel
  have roundedLow : rounded.compareNumeric low = some .eq := by decide +kernel
  have highLow : high.compareNumeric low = some .gt := by decide +kernel
  refine ⟨by decide +kernel, .inr highRounded, .inr roundedLow, ?_⟩
  simp [AtMost, highLow]

end QueryOptions.Value
