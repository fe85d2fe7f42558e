import Mathlib.Tactic.Common
import QueryOptions.Text.Word

/-!
What the readers of blanks, names and keywords take off the head of a text, stated as a split of
the text into what is read and what is left.
-/

namespace QueryOptions.Text

def Stops (inClass : Char → Bool) (text : List Char) : Prop :=
  ∀ c ∈ text.head?, inClass c = false

def Blanks (text : List Char) : Prop :=
  ∀ c ∈ text, isBlank c = true

def BreaksWord (text : List Char) : Prop :=
  ∃ c rest, text = c :: rest ∧ (isBlank c = true ∨ c = '(' ∨ c = ')')

def EndsValue (text : List Char) : Prop :=
  ∀ c ∈ text.head?, isBlank c = true ∨ c = ')'

theorem stops_nil (inClass : Char → Bool) : Stops inClass [] := by
  simp [Stops]

theorem stops_cons (inClass : Char → Bool) (c : Char) (rest : List Char) :
    Stops inClass (c :: rest) ↔ inClass c = false := by
  simp [Stops]

theorem stops_dropWhile (inClass : Char → Bool) (text : List Char) :
    Stops inClass (text.dropWhile inClass) := by
  induction text with
  | nil => exact stops_nil inClass
  | cons c rest ih =>
      by_cases member : inClass c = true
      · simpa [List.dropWhile_cons, member] using ih
      · simp [member, stops_cons]

theorem all_of_takeWhile (inClass : Char → Bool) (text : List Char) :
    ∀ c ∈ text.takeWhile inClass, inClass c = true := by
  intro c member
  exact List.all_eq_true.mp List.all_takeWhile c member

theorem takeWhile_run (inClass : Char → Bool) (run rest : List Char)
    (all : ∀ c ∈ run, inClass c = true) (stops : Stops inClass rest) :
    (run ++ rest).takeWhile inClass = run := by
  rw [List.takeWhile_append_of_pos all]
  cases rest with
  | nil => simp
  | cons c rest =>
      rw [stops_cons] at stops
      simp [stops]

theorem dropWhile_run (inClass : Char → Bool) (run rest : List Char)
    (all : ∀ c ∈ run, inClass c = true) (stops : Stops inClass rest) :
    (run ++ rest).dropWhile inClass = rest := by
  rw [List.dropWhile_append_of_pos all]
  cases rest with
  | nil => rfl
  | cons c rest =>
      rw [stops_cons] at stops
      simp [stops]

theorem blanks_nil : Blanks [] := by
  simp [Blanks]

theorem blanks_append {left right : List Char} (leftBlank : Blanks left)
    (rightBlank : Blanks right) : Blanks (left ++ right) := by
  intro c member
  rcases List.mem_append.mp member with inLeft | inRight
  · exact leftBlank c inLeft
  · exact rightBlank c inRight

theorem blanks_space : Blanks [' '] := by
  simp only [Blanks, List.mem_singleton]
  intro c space
  subst c
  decide

theorem skipBlanks_blanks {blanks rest : List Char} (all : Blanks blanks)
    (stops : Stops isBlank rest) : skipBlanks (blanks ++ rest) = rest :=
  dropWhile_run isBlank blanks rest all stops

theorem skipBlanks_of_stops {text : List Char} (stops : Stops isBlank text) :
    skipBlanks text = text :=
  skipBlanks_blanks blanks_nil stops

theorem skipBlanks_split (text : List Char) :
    ∃ blanks, Blanks blanks ∧ text = blanks ++ skipBlanks text :=
  ⟨text.takeWhile isBlank, all_of_takeWhile isBlank text, List.takeWhile_append_dropWhile.symm⟩

theorem skipBlanks_append (front : List Char) {rest : List Char} (stops : Stops isBlank rest) :
    skipBlanks (front ++ rest) = skipBlanks front ++ rest := by
  have unmoved : skipBlanks rest = rest := skipBlanks_of_stops stops
  rw [skipBlanks] at unmoved
  rw [skipBlanks, skipBlanks, List.dropWhile_append]
  split
  · rename_i empty
    rw [unmoved, List.isEmpty_iff.mp empty, List.nil_append]
  · rfl

def blankCodes : List Nat :=
  blankRanges.flatMap fun range => List.range' range.1 (range.2 + 1 - range.1)

theorem mem_blankCodes {c : Char} (blank : isBlank c = true) : c.toNat ∈ blankCodes := by
  simp only [isBlank, inRanges, List.any_eq_true, Bool.and_eq_true, decide_eq_true_eq] at blank
  obtain ⟨range, member, lower, upper⟩ := blank
  simp only [blankCodes, List.mem_flatMap, List.mem_range'_1]
  exact ⟨range, member, lower, by omega⟩

theorem isNameChar_of_isBlank {c : Char} (blank : isBlank c = true) : isNameChar c = false := by
  have none : ∀ code ∈ blankCodes, isNameChar (Char.ofNat code) = false := by decide +kernel
  simpa using none c.toNat (mem_blankCodes blank)

theorem isBlank_of_isNameChar {c : Char} (name : isNameChar c = true) : isBlank c = false := by
  by_contra blank
  rw [isNameChar_of_isBlank (by simpa using blank)] at name
  contradiction

theorem stops_blank_name {name : List Char} (nonempty : name ≠ [])
    (names : ∀ c ∈ name, isNameChar c = true) (rest : List Char) :
    Stops isBlank (name ++ rest) := by
  cases name with
  | nil => contradiction
  | cons c name => exact (stops_cons _ _ _).mpr (isBlank_of_isNameChar (names c (by simp)))

theorem skipBlanks_name {name : List Char} (nonempty : name ≠ [])
    (names : ∀ c ∈ name, isNameChar c = true) : skipBlanks name = name := by
  have stops := stops_blank_name nonempty names []
  rw [List.append_nil] at stops
  exact skipBlanks_of_stops stops

theorem isNameChar_toLower (c : Char) : isNameChar c.toLower = isNameChar c := by
  by_cases upper : 'A'.val ≤ c.val ∧ c.val ≤ 'Z'.val
  · have letters : ∀ code ∈ List.range' 65 26,
        isNameChar (Char.ofNat code).toLower = isNameChar (Char.ofNat code) := by decide
    have code : c.toNat ∈ List.range' 65 26 := by
      simp only [UInt32.le_iff_toNat_le] at upper
      simp only [List.mem_range'_1]
      exact ⟨upper.1, Nat.lt_succ_of_le upper.2⟩
    simpa using letters c.toNat code
  · have same : c.toLower = c := dif_neg upper
    rw [same]

theorem takeName?_run (name rest : List Char) (nonempty : name ≠ [])
    (all : ∀ c ∈ name, isNameChar c = true) (stops : Stops isNameChar rest) :
    takeName? (name ++ rest) = some (name, rest) := by
  rw [takeName?, takeWhile_run isNameChar name rest all stops,
    dropWhile_run isNameChar name rest all stops]
  cases name with
  | nil => contradiction
  | cons c name => rfl

theorem takeName?_eq_some {text name rest : List Char}
    (found : takeName? text = some (name, rest)) :
    text = name ++ rest ∧ name ≠ [] ∧ (∀ c ∈ name, isNameChar c = true) ∧
      Stops isNameChar rest := by
  rw [takeName?] at found
  split at found
  · contradiction
  · rename_i nonempty
    simp only [Option.some.injEq, Prod.mk.injEq] at found
    obtain ⟨nameEq, restEq⟩ := found
    subst nameEq restEq
    exact ⟨List.takeWhile_append_dropWhile.symm, nonempty, all_of_takeWhile isNameChar text,
      stops_dropWhile isNameChar text⟩

theorem sameWord_cons (w c : Char) (word lexeme : List Char) :
    sameWord (w :: word) (c :: lexeme) = true ↔
      w.toLower = c.toLower ∧ sameWord word lexeme = true := by
  simp [sameWord]

theorem sameWord_refl (word : List Char) : sameWord word word = true := by
  simp [sameWord]

theorem sameWord_length {word lexeme : List Char} (same : sameWord word lexeme = true) :
    lexeme.length = word.length := by
  simp only [sameWord, beq_iff_eq] at same
  simpa using (congrArg List.length same).symm

theorem all_isNameChar_of_sameWord {word lexeme : List Char} (same : sameWord word lexeme = true)
    (all : ∀ c ∈ word, isNameChar c = true) : ∀ c ∈ lexeme, isNameChar c = true := by
  intro c member
  have lowered : c.toLower ∈ word.map Char.toLower := by
    simp only [sameWord, beq_iff_eq] at same
    rw [same]
    exact List.mem_map_of_mem member
  obtain ⟨w, wordMember, lowerEq⟩ := List.mem_map.mp lowered
  rw [← isNameChar_toLower, ← lowerEq, isNameChar_toLower]
  exact all w wordMember

theorem stripWord?_append {word lexeme : List Char} (same : sameWord word lexeme = true)
    (rest : List Char) : stripWord? word (lexeme ++ rest) = some rest := by
  induction word generalizing lexeme with
  | nil =>
      cases lexeme with
      | nil => rfl
      | cons c lexeme => simp [sameWord] at same
  | cons w word ih =>
      cases lexeme with
      | nil => simp [sameWord] at same
      | cons c lexeme =>
          rw [sameWord_cons] at same
          simp [stripWord?, same.1, ih same.2]

theorem stripWord?_eq_some {word text rest : List Char} (found : stripWord? word text = some rest) :
    ∃ lexeme, text = lexeme ++ rest ∧ sameWord word lexeme = true := by
  induction word generalizing text with
  | nil =>
      simp only [stripWord?, Option.some.injEq] at found
      subst rest
      exact ⟨[], rfl, rfl⟩
  | cons w word ih =>
      cases text with
      | nil => simp [stripWord?] at found
      | cons c text =>
          simp only [stripWord?] at found
          split at found
          · rename_i lowerEq
            obtain ⟨lexeme, textEq, same⟩ := ih found
            subst text
            exact ⟨c :: lexeme, rfl, (sameWord_cons w c word lexeme).mpr ⟨lowerEq, same⟩⟩
          · contradiction

theorem keyword?_eq_some_iff (word text rest : List Char) :
    keyword? word text = some rest ↔
      atWordEnd rest = true ∧ ∃ lexeme, text = lexeme ++ rest ∧ sameWord word lexeme = true := by
  rw [keyword?, Option.filter_eq_some_iff]
  constructor
  · rintro ⟨found, ends⟩
    exact ⟨ends, stripWord?_eq_some found⟩
  · rintro ⟨ends, lexeme, textEq, same⟩
    subst text
    exact ⟨stripWord?_append same rest, ends⟩

theorem atWordEnd_iff (text : List Char) :
    atWordEnd text = true ↔ text = [] ∨ BreaksWord text := by
  cases text with
  | nil => simp [atWordEnd]
  | cons c rest =>
      simp only [atWordEnd, BreaksWord, Bool.or_eq_true, beq_iff_eq, List.cons.injEq]
      constructor
      · rintro ((opening | closing) | blank)
        · exact .inr ⟨c, rest, ⟨rfl, rfl⟩, .inr (.inl opening)⟩
        · exact .inr ⟨c, rest, ⟨rfl, rfl⟩, .inr (.inr closing)⟩
        · exact .inr ⟨c, rest, ⟨rfl, rfl⟩, .inl blank⟩
      · rintro (impossible | ⟨d, tail, ⟨headEq, _⟩, breaks⟩)
        · contradiction
        · subst d
          tauto

theorem atValueEnd_iff (text : List Char) : atValueEnd text = true ↔ EndsValue text := by
  cases text with
  | nil => simp [atValueEnd, EndsValue]
  | cons c rest =>
      simp only [atValueEnd, EndsValue, Bool.or_eq_true, beq_iff_eq, List.head?_cons,
        Option.mem_some_iff, forall_eq']
      exact or_comm

end QueryOptions.Text
