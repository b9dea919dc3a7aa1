import Tether.Json.Double
import Tether.Json.Parser
import Tether.Json.Printer

namespace Tether

namespace JsonNumber

theorem digitsOf_eq_if (n : Nat) :
    digitsOf n = if n < 10 then [n] else digitsOf (n / 10) ++ [n % 10] := by
  have digit {d : Nat} (small : d < 10) : d.digitChar.toNat - '0'.toNat = d :=
    Nat.toNat_digitChar_sub_48_of_lt_ten small
  rw [digitsOf, Nat.toDigits_eq_if (by decide)]
  split
  · rename_i small
    rw [List.map_singleton, digit small]
  · rw [List.map_append, List.map_singleton, digit (Nat.mod_lt n (by decide))]
    rfl

theorem digitsValue_concat (digits : List Nat) (last : Nat) :
    digitsValue (digits ++ [last]) = digitsValue digits * 10 + last := by
  rw [digitsValue, List.foldl_append]
  rfl

theorem digitsValue_digitsOf (n : Nat) : digitsValue (digitsOf n) = n := by
  induction n using Nat.strongRecOn with
  | ind n ih =>
    rw [digitsOf_eq_if]
    split
    · exact Nat.zero_add n
    · rw [digitsValue_concat, ih (n / 10) (by omega)]
      omega

theorem digitsOf_ne_nil (n : Nat) : digitsOf n ≠ [] := by
  rw [digitsOf_eq_if]
  split <;> simp

theorem lt_ten_of_mem_digitsOf {n digit : Nat} (member : digit ∈ digitsOf n) : digit < 10 := by
  induction n using Nat.strongRecOn with
  | ind n ih =>
    rw [digitsOf_eq_if] at member
    split at member
    · rename_i small
      rwa [List.mem_singleton.mp member]
    · rcases List.mem_append.mp member with earlier | last
      · exact ih (n / 10) (by omega) earlier
      · rw [List.mem_singleton.mp last]
        exact Nat.mod_lt n (by decide)

theorem head_digitsOf {n : Nat} (positive : n ≠ 0) : ∃ first rest,
    first ≠ 0 ∧ digitsOf n = first :: rest := by
  induction n using Nat.strongRecOn with
  | ind n ih =>
    rw [digitsOf_eq_if]
    split
    · exact ⟨n, [], positive, rfl⟩
    · obtain ⟨first, rest, nonzero, same⟩ := ih (n / 10) (by omega) (by omega)
      exact ⟨first, rest ++ [n % 10], nonzero, by rw [same, List.cons_append]⟩

/-- Whether the grammar has the number: its digits are decimal, and the whole part has some and no
leading zero. -/
structure WellFormed (number : JsonNumber) : Prop where
  whole_ne_nil : number.whole ≠ []
  whole_digits : ∀ digit ∈ number.whole, digit < 10
  whole_start : ∀ next rest, number.whole ≠ 0 :: next :: rest
  fraction_digits : ∀ digit ∈ number.fraction, digit < 10

theorem wellFormed_ofNat (n : Nat) : (ofNat n).WellFormed where
  whole_ne_nil := digitsOf_ne_nil n
  whole_digits _ := lt_ten_of_mem_digitsOf
  whole_start next rest same := by
    rcases Nat.eq_zero_or_pos n with rfl | positive
    · cases same
    · obtain ⟨first, others, nonzero, written⟩ := head_digitsOf (Nat.pos_iff_ne_zero.mp positive)
      exact nonzero (List.cons.inj (written.symm.trans same)).1
  fraction_digits _ member := absurd member List.not_mem_nil

theorem toNat?_ofNat (n : Nat) : (ofNat n).toNat? = some n := by
  rw [toNat?, if_pos ⟨rfl, rfl, rfl⟩]
  exact congrArg some (digitsValue_digitsOf n)

theorem determines_zero {units : Nat} (positive : units ≠ 0) (exponent : Int) :
    determines units 0 exponent = false := by
  have zero (denominator : Nat) : Binary64.roundUnits 0 denominator = 0 := by
    rw [Binary64.roundUnits, Binary64.divideEven, Nat.zero_div, Nat.zero_mod]
    split <;> simp
  have numerator : (decimalUnits 0 exponent).1 = 0 := by
    unfold decimalUnits
    split <;> simp
  change (Binary64.roundUnits (decimalUnits 0 exponent).1 (decimalUnits 0 exponent).2 == units) = _
  rw [numerator, zero]
  exact beq_eq_false_iff_ne.mpr positive.symm

/-- What is found on a grid determines the double. -/
theorem determines_of_onGrid? {units coefficient : Nat} {exponent : Int}
    (found : onGrid? units exponent = some coefficient) :
    determines units coefficient exponent = true := by
  have neighbour {found : Nat} (below : Nat)
      (same : (if determines units below exponent then some below else none) = some found) :
      determines units found exponent = true := by
    obtain ⟨determined, isBelow⟩ := Option.ite_none_right_eq_some.mp same
    rwa [Option.some.inj isBelow] at determined
  unfold onGrid? at found
  dsimp only at found
  split at found
  · rename_i l h low high
    have isEither : coefficient = l ∨ coefficient = h := by
      rw [← Option.some.inj found]
      split
      · exact Or.inl rfl
      · split
        · exact Or.inr rfl
        · split
          · exact Or.inl rfl
          · exact Or.inr rfl
    rcases isEither with rfl | rfl
    · exact neighbour _ low
    · exact neighbour _ high
  · rename_i low _
    rw [← Option.some.inj found]
    exact neighbour _ low
  · exact neighbour _ found

theorem shortest_ne_zero {units : Nat} (positive : units ≠ 0) (place : Int) (attempts : Nat) :
    (shortest units place attempts).1 ≠ 0 := by
  unfold shortest
  dsimp only
  cases found : (List.range attempts).findSome? fun count : Nat =>
      (onGrid? units (place - count)).map fun coefficient => (coefficient, place - count) with
  | none => exact positive
  | some decimal =>
    obtain ⟨count, _, there⟩ := List.exists_of_findSome?_eq_some found
    obtain ⟨coefficient, onGrid, rfl⟩ := Option.map_eq_some_iff.mp there
    have determined := determines_of_onGrid? onGrid
    intro zero
    rw [show coefficient = 0 from zero, determines_zero positive] at determined
    exact Bool.false_ne_true determined

theorem trimZeros_ne_zero {coefficient : Nat} (positive : coefficient ≠ 0) (exponent : Int) :
    (trimZeros coefficient exponent).1 ≠ 0 := by
  fun_induction trimZeros coefficient exponent with
  | case1 coefficient exponent trims ih => exact ih (by omega)
  | case2 coefficient exponent _ => exact positive

theorem wellFormed_layout (negative : Bool) {coefficient : Nat} (positive : coefficient ≠ 0)
    (exponent : Int) : (layout negative coefficient exponent).WellFormed := by
  obtain ⟨first, rest, nonzero, written⟩ := head_digitsOf positive
  have small : ∀ digit ∈ first :: rest, digit < 10 := fun _ member =>
    lt_ten_of_mem_digitsOf (written ▸ member)
  have padded (count : Nat) : ∀ digit ∈ List.replicate count 0, digit < 10 := by
    intro digit member
    rw [List.eq_of_mem_replicate member]
    decide
  have noStart (others : List Nat) : ∀ next rest, first :: others ≠ 0 :: next :: rest :=
    fun _ _ same => nonzero (List.cons.inj same).1
  have zero : ∀ digit ∈ [0], digit < 10 := by decide
  have zeroStart : ∀ next rest, [0] ≠ 0 :: next :: rest := by simp
  have taken (count : Nat) : ∀ digit ∈ (first :: rest).take count, digit < 10 :=
    fun digit member => small digit (List.mem_of_mem_take member)
  have dropped (count : Nat) : ∀ digit ∈ (first :: rest).drop count, digit < 10 :=
    fun digit member => small digit (List.mem_of_mem_drop member)
  unfold layout
  rw [written]
  dsimp only
  split
  · have digits := List.forall_mem_append.mpr ⟨small, padded exponent.toNat⟩
    exact ⟨List.cons_ne_nil _ _, digits, noStart _, zero⟩
  · split
    · rename_i point
      obtain ⟨further, same⟩ := Nat.exists_eq_add_of_le'
        (show 1 ≤ (((first :: rest).length : Int) + exponent).toNat by omega)
      rw [same]
      exact ⟨List.cons_ne_nil _ _, taken _, noStart _, dropped _⟩
    · split
      · have digits := List.forall_mem_append.mpr
          ⟨padded (-(((first :: rest).length : Int) + exponent)).toNat, small⟩
        exact ⟨List.cons_ne_nil _ _, zero, zeroStart, digits⟩
      · exact ⟨List.cons_ne_nil _ _, taken 1, noStart _, dropped 1⟩

theorem wellFormed_ofBinary64? {double : Binary64} {number : JsonNumber}
    (written : ofBinary64? double = some number) : number.WellFormed := by
  cases double with
  | nan => cases written
  | infinite negative => cases written
  | finite negative units =>
    unfold ofBinary64? at written
    dsimp only at written
    split at written
    · rw [← Option.some.inj written]
      exact ⟨by simp, by simp, by simp, by simp⟩
    · rename_i positive
      rw [← Option.some.inj written]
      exact wellFormed_layout negative
        (trimZeros_ne_zero (shortest_ne_zero positive (leadingPlace units) mostDigits) _) _

end JsonNumber

namespace Json.Parser

open JsonNumber (digitChar digitsOf digitsValue)

def EndsDigits (rest : List Char) : Prop := ∀ next ∈ rest.head?, digit? next = none

/-- Nothing follows that a number could go on with. -/
def EndsNumber (rest : List Char) : Prop :=
  ∀ next ∈ rest.head?, digit? next = none ∧ next ≠ '.' ∧ next ≠ 'e' ∧ next ≠ 'E'

variable {rest : List Char}

theorem EndsNumber.endsDigits (ends : EndsNumber rest) : EndsDigits rest :=
  fun next first => (ends next first).1

theorem digit?_digitChar {digit : Nat} (small : digit < 10) :
    digit? (digitChar digit) = some digit := by
  have each : ∀ digit < 10, digit? (digitChar digit) = some digit := by decide
  exact each digit small

theorem digits_of_ends (ends : EndsDigits rest) : digits rest = ([], rest) := by
  cases rest with
  | nil => rfl
  | cons next rest =>
    unfold digits
    rw [ends next rfl]

theorem digits_map {written : List Nat} (small : ∀ digit ∈ written, digit < 10)
    (ends : EndsDigits rest) : digits (written.map digitChar ++ rest) = (written, rest) := by
  induction written with
  | nil => exact digits_of_ends ends
  | cons digit written ih =>
    rw [List.map_cons, List.cons_append, digits, digit?_digitChar (small digit List.mem_cons_self)]
    simp only [ih fun other member => small other (List.mem_cons_of_mem digit member)]

variable {number : JsonNumber}

theorem wholePart_render (wellFormed : number.WellFormed) (ends : EndsDigits rest) :
    wholePart (number.whole.map digitChar ++ rest) = some (number.whole, rest) := by
  unfold wholePart
  rw [digits_map wellFormed.whole_digits ends]
  split
  · rename_i same
    exact absurd (Prod.mk.inj same).1 wellFormed.whole_ne_nil
  · rename_i next others _ same
    exact absurd (Prod.mk.inj same).1 (wellFormed.whole_start next others)
  · rfl

theorem ne_of_digit? {c other : Char} {value : Nat} (isDigit : digit? c = some value)
    (isNone : digit? other = none) : c ≠ other := by
  rintro rfl
  rw [isDigit] at isNone
  cases isNone

/-- A minus sign, or nothing. -/
def signText (negative : Bool) : List Char := if negative then ['-'] else []

theorem minusSign_eq {input : List Char} (plain : input.head? ≠ some '-') :
    minusSign input = (false, input) := by
  unfold minusSign
  split
  · exact absurd rfl plain
  · rfl

theorem eitherSign_eq {input : List Char} (plain : input.head? ≠ some '+') :
    eitherSign input = minusSign input := by
  unfold eitherSign
  split
  · exact absurd rfl plain
  · rfl

theorem head?_map_digitChar {written : List Nat} (proper : written ≠ [])
    (small : ∀ digit ∈ written, digit < 10) (rest : List Char) :
    ∃ first value, (written.map digitChar ++ rest).head? = some first ∧
      digit? first = some value := by
  cases written with
  | nil => exact absurd rfl proper
  | cons digit written =>
    exact ⟨digitChar digit, digit, rfl, digit?_digitChar (small digit List.mem_cons_self)⟩

variable {written : List Nat}

theorem minusSign_render (negative : Bool) (proper : written ≠ [])
    (small : ∀ digit ∈ written, digit < 10) :
    minusSign (signText negative ++ (written.map digitChar ++ rest)) =
      (negative, written.map digitChar ++ rest) := by
  cases negative with
  | true => rfl
  | false =>
    obtain ⟨first, value, starts, isDigit⟩ := head?_map_digitChar proper small rest
    refine minusSign_eq ?_
    change (written.map digitChar ++ rest).head? ≠ _
    rw [starts]
    exact fun same => ne_of_digit? isDigit rfl (Option.some.inj same)

theorem eitherSign_render (negative : Bool) (proper : written ≠ [])
    (small : ∀ digit ∈ written, digit < 10) :
    eitherSign (signText negative ++ (written.map digitChar ++ rest)) =
      (negative, written.map digitChar ++ rest) := by
  rw [eitherSign_eq, minusSign_render negative proper small]
  cases negative with
  | true => exact fun same => absurd (Option.some.inj same) (by decide)
  | false =>
    obtain ⟨first, value, starts, isDigit⟩ := head?_map_digitChar proper small rest
    change (written.map digitChar ++ rest).head? ≠ _
    rw [starts]
    exact fun same => ne_of_digit? isDigit rfl (Option.some.inj same)

/-- The point and the digits after it. -/
def fractionText (fraction : List Nat) : List Char :=
  if fraction = [] then [] else '.' :: fraction.map digitChar

/-- The exponent and the letter before it. -/
def exponentText : Option Int → List Char
  | none => []
  | some e => 'e' :: (signText (e < 0) ++ (digitsOf e.natAbs).map digitChar)

theorem render_eq (number : JsonNumber) :
    number.render = signText number.negative ++ (number.whole.map digitChar ++
      (fractionText number.fraction ++ exponentText number.exponent)) := by
  obtain ⟨negative, whole, fraction, exponent⟩ := number
  cases exponent with
  | none => simp [JsonNumber.render, signText, fractionText, exponentText]
  | some e => simp [JsonNumber.render, signText, fractionText, exponentText]

theorem fractionPart_render {fraction : List Nat} (small : ∀ digit ∈ fraction, digit < 10)
    (ends : EndsDigits rest) (further : rest.head? ≠ some '.') :
    fractionPart (fractionText fraction ++ rest) = some (fraction, rest) := by
  unfold fractionText
  split
  · rename_i none
    rw [none]
    unfold fractionPart
    split
    · rename_i after same
      exact absurd (congrArg List.head? same) further
    · rfl
  · rename_i some
    rw [List.cons_append, fractionPart, digits_map small ends]
    split
    · rename_i same
      exact absurd (Prod.mk.inj same).1 some
    · rfl

theorem exponentDigits_render (e : Int) (ends : EndsDigits rest) :
    exponentDigits (signText (e < 0) ++ ((digitsOf e.natAbs).map digitChar ++ rest)) =
      some (e, rest) := by
  have small : ∀ digit ∈ digitsOf e.natAbs, digit < 10 := fun _ =>
    JsonNumber.lt_ten_of_mem_digitsOf
  unfold exponentDigits
  rw [eitherSign_render _ (JsonNumber.digitsOf_ne_nil _) small]
  dsimp only
  rw [digits_map small ends]
  split
  · rename_i same
    exact absurd (Prod.mk.inj same).1 (JsonNumber.digitsOf_ne_nil _)
  · rename_i same
    obtain ⟨rfl, rfl⟩ := Prod.mk.inj same
    rw [JsonNumber.digitsValue_digitsOf]
    simp only [decide_eq_true_eq]
    congr 2
    split <;> omega

theorem exponentPart_render (exponent : Option Int) (ends : EndsNumber rest) :
    exponentPart (exponentText exponent ++ rest) = some (exponent, rest) := by
  cases exponent with
  | none =>
    change exponentPart rest = _
    unfold exponentPart
    split
    · exact absurd rfl (ends _ rfl).2.2.1
    · exact absurd rfl (ends _ rfl).2.2.2
    · rfl
  | some e =>
    rw [exponentText, List.cons_append, List.append_assoc, exponentPart,
      exponentDigits_render e ends.endsDigits]
    rfl

theorem endsDigits_exponentText (exponent : Option Int) (ends : EndsNumber rest) :
    EndsDigits (exponentText exponent ++ rest) ∧
      (exponentText exponent ++ rest).head? ≠ some '.' := by
  cases exponent with
  | none => exact ⟨ends.endsDigits, fun point => (ends _ point).2.1 rfl⟩
  | some e =>
    refine ⟨?_, fun point => absurd (Option.some.inj point) (by decide)⟩
    rintro next ⟨⟩
    rfl

theorem endsDigits_fractionText (fraction : List Nat) (ends : EndsDigits rest) :
    EndsDigits (fractionText fraction ++ rest) := by
  unfold fractionText
  split
  · exact ends
  · rintro next ⟨⟩
    rfl

theorem exists_render_eq {number : JsonNumber} (wellFormed : number.WellFormed) :
    ∃ first more, number.render = first :: more ∧
      (first = '-' ∨ ∃ value, digit? first = some value) := by
  rw [render_eq]
  cases number.negative with
  | true => exact ⟨'-', _, rfl, Or.inl rfl⟩
  | false =>
    cases written : number.whole with
    | nil => exact absurd written wellFormed.whole_ne_nil
    | cons digit digits =>
      have small : digit < 10 := wellFormed.whole_digits digit (written ▸ List.mem_cons_self)
      exact ⟨digitChar digit, _, rfl, Or.inr ⟨digit, digit?_digitChar small⟩⟩

/-- A well-formed number is read back, whatever follows that is no part of a number. -/
theorem number_render {number : JsonNumber} (wellFormed : number.WellFormed)
    (ends : EndsNumber rest) : Parser.number (number.render ++ rest) = some (number, rest) := by
  obtain ⟨endsFraction, further⟩ := endsDigits_exponentText number.exponent ends
  have endsWhole := endsDigits_fractionText number.fraction endsFraction
  rw [render_eq, List.append_assoc, List.append_assoc, List.append_assoc, Parser.number,
    minusSign_render _ wellFormed.whole_ne_nil wellFormed.whole_digits]
  dsimp only
  rw [wholePart_render wellFormed endsWhole]
  simp only [bind, Option.bind, fractionPart_render wellFormed.fraction_digits endsFraction further,
    exponentPart_render number.exponent ends]
  rfl

end Json.Parser

end Tether
