import Mathlib.Algebra.Order.Ring.Nat
import Mathlib.Data.Nat.Dist
import Tether.Binary64

namespace Tether.Binary64

/-- Whether a number of units keeps to the spacing of doubles of its size. -/
def Precise (units : Nat) : Prop := units % spacing units = 0

theorem representable_iff {units : Nat} : Representable units ↔ Precise units ∧ units < bound :=
  Iff.rfl

theorem spacing_eq (units : Nat) : spacing units = 2 ^ (units.log2 - 52) :=
  Nat.one_shiftLeft _

theorem spacing_pos (units : Nat) : 0 < spacing units := by
  rw [spacing_eq]
  exact Nat.two_pow_pos _

/-- Larger numbers lie further apart, on places where smaller ones lie too. -/
theorem spacing_dvd_spacing {units other : Nat} (less : units ≤ other) :
    spacing units ∣ spacing other := by
  rcases Nat.eq_zero_or_pos units with rfl | positive
  · exact Nat.one_dvd _
  · have size : units.log2 ≤ other.log2 :=
      (Nat.le_log2 (by omega)).mpr ((Nat.log2_self_le positive.ne').trans less)
    rw [spacing_eq, spacing_eq]
    exact Nat.pow_dvd_pow 2 (Nat.sub_le_sub_right size 52)

theorem Precise.spacing_dvd {units other : Nat} (precise : Precise units)
    (less : other ≤ units) : spacing other ∣ units :=
  (spacing_dvd_spacing less).trans (Nat.dvd_of_mod_eq_zero precise)

theorem precise_of_dvd {units exponent : Nat} (small : units < 2 ^ (exponent + 53))
    (multiple : 2 ^ exponent ∣ units) : Precise units := by
  rcases Nat.eq_zero_or_pos units with rfl | positive
  · exact Nat.zero_mod _
  · have size := (Nat.log2_lt positive.ne').mpr small
    rw [Precise, spacing_eq]
    exact Nat.mod_eq_zero_of_dvd ((Nat.pow_dvd_pow 2 (by omega)).trans multiple)

theorem precise_two_pow (exponent : Nat) : Precise (2 ^ exponent) :=
  precise_of_dvd (Nat.pow_lt_pow_right (by decide) (by omega)) (Nat.dvd_refl _)

theorem exists_two_pow : ∃ exponent last,
    oneUnits = 2 ^ exponent ∧ bound = 2 ^ last ∧ exponent + 1000 < last := by
  have further : 1074 + 1000 < 2098 := by decide
  unfold oneUnits bound
  generalize 1074 = exponent at *
  generalize 2098 = last at *
  exact ⟨exponent, last, Nat.one_shiftLeft _, Nat.one_shiftLeft _, further⟩

theorem oneUnits_pos : 0 < oneUnits := by
  obtain ⟨exponent, _, one, _⟩ := exists_two_pow
  rw [one]
  exact Nat.two_pow_pos _

theorem precise_oneUnits : Precise oneUnits := by
  obtain ⟨exponent, _, one, _⟩ := exists_two_pow
  rw [one]
  exact precise_two_pow _

theorem precise_mul_oneUnits {n : Nat} (small : n ≤ 2 ^ 53) : Precise (n * oneUnits) := by
  obtain ⟨exponent, _, one, _⟩ := exists_two_pow
  rw [one]
  rcases Nat.lt_or_eq_of_le small with less | rfl
  · refine precise_of_dvd ?_ (Nat.dvd_mul_left _ _)
    rw [Nat.pow_add, Nat.mul_comm]
    exact Nat.mul_lt_mul_of_pos_left less (Nat.two_pow_pos _)
  · rw [← Nat.pow_add]
    exact precise_two_pow _

theorem mul_oneUnits_lt_bound_of_le {n size : Nat} (fits : size ≤ 1000) (small : n ≤ 2 ^ size) :
    n * oneUnits < bound := by
  obtain ⟨exponent, last, one, top, further⟩ := exists_two_pow
  rw [one, top]
  calc n * 2 ^ exponent ≤ 2 ^ size * 2 ^ exponent := Nat.mul_le_mul_right _ small
    _ = 2 ^ (exponent + size) := by rw [Nat.pow_add, Nat.mul_comm]
    _ < 2 ^ last := Nat.pow_lt_pow_right (by decide) (by omega)

theorem mul_oneUnits_lt_bound {n : Nat} (small : n ≤ 2 ^ 53) : n * oneUnits < bound :=
  mul_oneUnits_lt_bound_of_le (by decide) small

/-- A rounded quotient is off by half at most. -/
theorem two_mul_dist_divideEven (numerator : Nat) {denominator : Nat} (positive : 0 < denominator) :
    2 * Nat.dist numerator (divideEven numerator denominator * denominator) ≤ denominator := by
  have whole := Nat.div_add_mod numerator denominator
  have rest := Nat.mod_lt numerator positive
  rw [Nat.mul_comm] at whole
  unfold divideEven
  dsimp only
  generalize numerator % denominator = remainder at *
  generalize numerator / denominator = quotient at *
  rw [← whole]
  split
  · simp only [Nat.dist]
    omega
  · have next : (quotient + 1) * denominator = quotient * denominator + denominator :=
      Nat.succ_mul _ _
    split
    · rw [next]
      simp only [Nat.dist]
      omega
    · -- Of a half, either side is as near.
      rcases Nat.mod_two_eq_zero_or_one quotient with even | odd
      · rw [even, Nat.add_zero]
        simp only [Nat.dist]
        omega
      · rw [odd, next]
        simp only [Nat.dist]
        omega

theorem divideEven_nearest (numerator : Nat) {denominator : Nat} (positive : 0 < denominator)
    (other : Nat) :
    Nat.dist numerator (divideEven numerator denominator * denominator) ≤
      Nat.dist numerator (other * denominator) := by
  have half := two_mul_dist_divideEven numerator positive
  generalize divideEven numerator denominator = rounded at *
  by_cases same : rounded = other
  · rw [same]
  · -- Different multiples lie at least one denominator apart.
    have apart : denominator ≤ Nat.dist (rounded * denominator) (other * denominator) := by
      rw [Nat.dist_mul_right]
      exact Nat.le_mul_of_pos_left _ (Nat.dist_pos_of_ne same)
    have detour :=
      Nat.dist.triangle_inequality (rounded * denominator) numerator (other * denominator)
    rw [Nat.dist_comm (rounded * denominator) numerator] at detour
    omega

variable {numerator denominator : Nat}

/-- No number that needs no rounding is nearer to a quotient than the rounded one. -/
theorem roundUnits_nearest (numerator : Nat) (positive : 0 < denominator) {other : Nat}
    (precise : Precise other) :
    Nat.dist numerator (roundUnits numerator denominator * denominator) ≤
      Nat.dist numerator (other * denominator) := by
  unfold roundUnits
  dsimp only
  generalize whole : numerator / denominator = quotient
  have nearest (multiple : Nat) (divides : spacing quotient ∣ multiple) :
      Nat.dist numerator (divideEven numerator (denominator * spacing quotient) *
          spacing quotient * denominator) ≤
        Nat.dist numerator (multiple * denominator) := by
    obtain ⟨times, rfl⟩ := divides
    have step := divideEven_nearest numerator (Nat.mul_pos positive (spacing_pos quotient)) times
    rw [Nat.mul_comm denominator, ← Nat.mul_assoc, ← Nat.mul_assoc,
      Nat.mul_comm times] at step
    rwa [Nat.mul_comm denominator]
  by_cases divides : spacing quotient ∣ other
  · exact nearest other divides
  · -- Then the power of two below the quotient lies between them, and is itself a multiple.
    have nonzero : quotient ≠ 0 := by
      rintro rfl
      exact divides (Nat.one_dvd other)
    have below : other < 2 ^ quotient.log2 := by
      by_contra reaches
      have wide := precise.spacing_dvd (Nat.le_of_not_lt reaches)
      rw [spacing_eq, Nat.log2_two_pow, ← spacing_eq] at wide
      exact divides wide
    have multiple : spacing quotient ∣ 2 ^ quotient.log2 := by
      rw [spacing_eq]
      exact Nat.pow_dvd_pow 2 (Nat.sub_le _ _)
    have between : other * denominator ≤ 2 ^ quotient.log2 * denominator :=
      Nat.mul_le_mul_right _ below.le
    have reached : 2 ^ quotient.log2 * denominator ≤ numerator := by
      rw [← whole] at nonzero ⊢
      exact (Nat.mul_le_mul_right _ (Nat.log2_self_le nonzero)).trans (Nat.div_mul_le_self _ _)
    refine (nearest _ multiple).trans ?_
    rw [Nat.dist_eq_sub_of_le_right reached, Nat.dist_eq_sub_of_le_right (between.trans reached)]
    exact Nat.sub_le_sub_left between _

theorem roundUnits_le (positive : 0 < denominator) {other : Nat} (precise : Precise other)
    (less : numerator ≤ other * denominator) : roundUnits numerator denominator ≤ other := by
  have near := roundUnits_nearest numerator positive precise
  by_contra past
  have further : other * denominator < roundUnits numerator denominator * denominator :=
    Nat.mul_lt_mul_of_pos_right (Nat.lt_of_not_le past) positive
  rw [Nat.dist_eq_sub_of_le less, Nat.dist_eq_sub_of_le (less.trans further.le)] at near
  omega

theorem le_roundUnits (positive : 0 < denominator) {other : Nat} (precise : Precise other)
    (more : other * denominator ≤ numerator) : other ≤ roundUnits numerator denominator := by
  have near := roundUnits_nearest numerator positive precise
  by_contra short
  have further : roundUnits numerator denominator * denominator < other * denominator :=
    Nat.mul_lt_mul_of_pos_right (Nat.lt_of_not_le short) positive
  rw [Nat.dist_eq_sub_of_le_right more,
    Nat.dist_eq_sub_of_le_right (further.le.trans more)] at near
  omega

theorem roundUnits_mul_self (positive : 0 < denominator) {units : Nat} (precise : Precise units) :
    roundUnits (units * denominator) denominator = units :=
  Nat.le_antisymm (roundUnits_le positive precise (Nat.le_refl _))
    (le_roundUnits positive precise (Nat.le_refl _))

theorem precise_roundUnits (positive : 0 < denominator) :
    Precise (roundUnits numerator denominator) := by
  have above : numerator ≤ 2 ^ ((numerator / denominator).log2 + 1) * denominator := by
    have next : numerator / denominator + 1 ≤ 2 ^ ((numerator / denominator).log2 + 1) :=
      Nat.lt_log2_self
    rw [Nat.mul_comm]
    exact (Nat.lt_mul_div_succ numerator positive).le.trans (Nat.mul_le_mul_left _ next)
  have bounded := roundUnits_le positive (precise_two_pow _) above
  have multiple : spacing (numerator / denominator) ∣ roundUnits numerator denominator :=
    Nat.dvd_mul_left _ _
  rcases Nat.lt_or_eq_of_le bounded with less | top
  · rw [spacing_eq] at multiple
    exact precise_of_dvd (less.trans_le (Nat.pow_le_pow_right (by decide) (by omega))) multiple
  · rw [top]
    exact precise_two_pow _

theorem representable_of_ofUnits {negative sign : Bool} {units : Nat} (positive : 0 < denominator)
    (rounded : ofUnits negative numerator denominator = .finite sign units) :
    Representable units := by
  unfold ofUnits at rounded
  dsimp only at rounded
  split at rounded
  · rename_i inside
    cases rounded
    exact representable_iff.mpr ⟨precise_roundUnits positive, inside⟩
  · cases rounded

theorem representable_of_mul {left right : Binary64} {sign : Bool} {units : Nat}
    (product : left.mul right = .finite sign units) : Representable units := by
  cases left with
  | nan => cases product
  | infinite negative =>
    cases right with
    | nan => cases product
    | infinite other => cases product
    | finite other factor =>
      unfold mul at product
      dsimp only at product
      split at product <;> cases product
  | finite negative factor =>
    cases right with
    | nan => cases product
    | infinite other =>
      unfold mul at product
      dsimp only at product
      split at product <;> cases product
    | finite other factor => exact representable_of_ofUnits oneUnits_pos product

theorem ofNat_eq (n : Nat) : ofNat n = ofUnits false (n * oneUnits) 1 := by
  have positive : ¬((n : Int) < 0) := Int.not_lt.mpr (Int.natCast_nonneg n)
  rw [ofNat, ofInt, decide_eq_false positive, Int.natAbs_natCast]

theorem ofNat_of_le {n : Nat} (small : n ≤ 2 ^ 53) : ofNat n = .finite false (n * oneUnits) := by
  have exactly := roundUnits_mul_self Nat.one_pos (precise_mul_oneUnits small)
  rw [Nat.mul_one] at exactly
  rw [ofNat_eq, ofUnits, exactly]
  exact if_pos (mul_oneUnits_lt_bound small)

theorem lt_finite {units other : Nat} :
    (Binary64.finite false units).lt (.finite false other) = true ↔ units < other := by
  simp [lt, position?]

/-- A double that is less than the double nearest to a whole number is no greater than that number
itself, whichever way the number was rounded. -/
theorem le_of_lt_ofNat {units n : Nat} (isDouble : Representable units)
    (less : (Binary64.finite false units).lt (ofNat n) = true) : units ≤ n * oneUnits := by
  obtain ⟨precise, inside⟩ := representable_iff.mp isDouble
  have past : units < roundUnits (n * oneUnits) 1 := by
    rw [ofNat_eq, ofUnits] at less
    split at less
    · exact lt_finite.mp less
    · rename_i overflows
      exact inside.trans_le (Nat.le_of_not_lt overflows)
  by_contra more
  have kept : roundUnits (n * oneUnits) 1 ≤ units :=
    roundUnits_le Nat.one_pos precise (by omega)
  omega

theorem truncate_le (limit : Nat) (double : Binary64) : double.truncate limit ≤ limit := by
  cases double with
  | nan => exact Nat.zero_le limit
  | infinite negative =>
    cases negative with
    | true => exact Nat.zero_le limit
    | false => exact Nat.le_refl limit
  | finite negative units =>
    cases negative with
    | true => exact Nat.zero_le limit
    | false => exact Nat.min_le_right _ _

theorem truncate_le_of_lt_ofNat {double : Binary64} {n : Nat} (limit : Nat)
    (isDouble : ∀ sign units, double = .finite sign units → Representable units)
    (finite : double.isFinite = true) (less : double.lt (ofNat n) = true) :
    double.truncate limit ≤ n := by
  cases double with
  | nan => cases finite
  | infinite negative => cases finite
  | finite negative units =>
    cases negative with
    | true => exact Nat.zero_le n
    | false =>
      have whole := le_of_lt_ofNat (isDouble false units rfl) less
      rw [Nat.mul_comm] at whole
      exact (Nat.min_le_left _ _).trans (Nat.div_le_of_le_mul whole)

/-- Whether a double is at least so many units, perhaps infinite. -/
def Reaches (units : Nat) : Binary64 → Prop
  | .infinite false => True
  | .finite false other => units ≤ other
  | _ => False

theorem reaches_ofUnits {units : Nat} (positive : 0 < denominator) (precise : Precise units)
    (more : units * denominator ≤ numerator) :
    Reaches units (ofUnits false numerator denominator) := by
  unfold ofUnits
  dsimp only
  split
  · exact le_roundUnits positive precise more
  · trivial

theorem reaches_of_position {units : Nat} {double : Binary64} {place : Int} (positive : 0 < units)
    (lies : double.position? = some place) (more : units ≤ place) : Reaches units double := by
  cases double with
  | nan => cases lies
  | infinite negative =>
    cases negative with
    | true =>
      obtain rfl := Option.some.inj lies
      simp only [if_true] at more
      omega
    | false => trivial
  | finite negative other =>
    obtain rfl := Option.some.inj lies
    cases negative with
    | true =>
      simp only [if_true] at more
      omega
    | false => exact Int.ofNat_le.mp more

theorem reaches_one : Reaches oneUnits one := Nat.le_refl oneUnits

theorem reaches_max_one (factor : Binary64) : Reaches oneUnits (factor.max one) := by
  have oneLies : one.position? = some (oneUnits : Int) := rfl
  unfold max
  rw [oneLies]
  cases lies : factor.position? with
  | none => exact reaches_one
  | some place =>
    by_cases less : place < oneUnits
    · simpa [less] using reaches_one
    · simpa [less] using reaches_of_position oneUnits_pos lies (Int.not_lt.mp less)

/-- What is multiplied by one or more becomes no less, if it is a number that is not zero. -/
theorem Reaches.mul {units : Nat} {factor growth : Binary64} (positive : 0 < units)
    (precise : Precise units) (reaches : Reaches units factor) (grows : Reaches oneUnits growth) :
    Reaches units (factor.mul growth) := by
  unfold Reaches at reaches grows
  split at reaches
  · split at grows
    · trivial
    · have nonzero := (oneUnits_pos.trans_le grows).ne'
      simp [Binary64.mul, nonzero, Reaches]
    · exact grows.elim
  · have nonzero := (positive.trans_le reaches).ne'
    split at grows
    · simp [Binary64.mul, nonzero, Reaches]
    · exact reaches_ofUnits oneUnits_pos precise (Nat.mul_le_mul reaches grows)
    · exact grows.elim
  · exact reaches.elim

theorem Reaches.powLoop {result base : Binary64} (reached : Reaches oneUnits result)
    (grows : Reaches oneUnits base) (exponent : Nat) :
    Reaches oneUnits (powLoop result base exponent) := by
  have product {left right : Binary64} (first : Reaches oneUnits left)
      (second : Reaches oneUnits right) : Reaches oneUnits (left.mul right) :=
    first.mul oneUnits_pos precise_oneUnits second
  have taken {left right : Binary64} (exponent : Nat) (first : Reaches oneUnits left)
      (second : Reaches oneUnits right) :
      Reaches oneUnits (if _ : exponent % 2 = 1 then left.mul right else left) := by
    split
    · exact product first second
    · exact first
  fun_induction Binary64.powLoop result base exponent with
  | case1 result base exponent next last => exact taken exponent reached grows
  | case2 result base exponent next more ih =>
    exact ih (taken exponent reached grows) (product grows grows)

theorem Reaches.pow {base : Binary64} (grows : Reaches oneUnits base) (exponent : Nat) :
    Reaches oneUnits (base.pow exponent) :=
  reaches_one.powLoop grows exponent

theorem Reaches.le_truncate {double : Binary64} {n limit : Nat}
    (reaches : Reaches (n * oneUnits) double) (fits : n ≤ limit) : n ≤ double.truncate limit := by
  unfold Reaches at reaches
  split at reaches
  · exact fits
  · exact Nat.le_min.mpr ⟨(Nat.le_div_iff_mul_le oneUnits_pos).mpr reaches, fits⟩
  · exact reaches.elim

theorem hiddenBit_le_oneUnits : hiddenBit ≤ oneUnits := by
  have further : 52 ≤ 1074 := by decide
  unfold hiddenBit oneUnits
  generalize 1074 = exponent at *
  rw [Nat.one_shiftLeft, Nat.one_shiftLeft]
  exact Nat.pow_le_pow_right (by decide) further

/-- A double from zero to one, or what is not a number. -/
def IsShare : Binary64 → Prop
  | .nan => True
  | .infinite _ => False
  | .finite negative units => negative = false ∧ units ≤ oneUnits

theorem isShare_clamp (weight : Binary64) : IsShare (clamp minPositive one weight) := by
  have low : IsShare minPositive := ⟨rfl, hiddenBit_le_oneUnits⟩
  have high : IsShare one := ⟨rfl, Nat.le_refl _⟩
  have bounded : oneUnits < bound := by
    obtain ⟨exponent, last, one, top, further⟩ := exists_two_pow
    rw [one, top]
    exact Nat.pow_lt_pow_right (by decide) (by omega)
  unfold clamp
  split
  · exact low
  · rename_i reaches
    split
    · exact high
    · rename_i within
      cases weight with
      | nan => trivial
      | infinite negative =>
        cases negative with
        | true =>
          refine absurd ?_ reaches
          simp only [lt, position?, minPositive, ↓reduceIte, decide_eq_true_eq, Bool.false_eq_true]
          omega
        | false =>
          refine absurd ?_ within
          simp only [lt, position?, one, ↓reduceIte, decide_eq_true_eq, Bool.false_eq_true]
          omega
      | finite negative units =>
        cases negative with
        | true =>
          refine absurd ?_ reaches
          simp only [lt, position?, minPositive, ↓reduceIte, decide_eq_true_eq, Bool.false_eq_true]
          have positive : 0 < hiddenBit := by decide
          omega
        | false =>
          exact ⟨rfl, Nat.le_of_not_lt fun more => within (lt_finite.mpr more)⟩

theorem ofUnits_of_le (negative : Bool) {units : Nat}
    (positive : 0 < denominator) (isDouble : Representable units)
    (less : numerator ≤ units * denominator) :
    ∃ rounded ≤ units, ofUnits negative numerator denominator = .finite negative rounded := by
  obtain ⟨precise, inside⟩ := representable_iff.mp isDouble
  have bounded := roundUnits_le positive precise less
  exact ⟨_, bounded, if_pos (bounded.trans_lt inside)⟩

theorem precise_zero : Precise 0 := Nat.zero_mod _

theorem ofInt_eq_finite {n : Int} (small : n.natAbs ≤ 2 ^ 64) :
    ∃ units, Representable units ∧ units ≤ 2 * n.natAbs * oneUnits ∧
      ofInt n = .finite (n < 0) units := by
  have near := roundUnits_nearest (n.natAbs * oneUnits) Nat.one_pos precise_zero
  rw [Nat.mul_one, Nat.zero_mul, Nat.dist_zero_right] at near
  have double : roundUnits (n.natAbs * oneUnits) 1 ≤ 2 * n.natAbs * oneUnits := by
    rw [Nat.mul_assoc]
    simp only [Nat.dist] at near
    omega
  have finite : 2 * n.natAbs * oneUnits < bound :=
    mul_oneUnits_lt_bound_of_le (by decide) (show 2 * n.natAbs ≤ 2 ^ 65 by omega)
  have inside := double.trans_lt finite
  exact ⟨_, ⟨precise_roundUnits Nat.one_pos, inside⟩, double, if_pos inside⟩

theorem roundAway_finite_le (negative : Bool) {units n : Nat} (less : units ≤ n * oneUnits) :
    ∃ rounded ≤ n, (Binary64.finite negative units).roundAway =
      if negative then -(rounded : Int) else rounded := by
  refine ⟨(2 * units + oneUnits) / (2 * oneUnits), ?_, rfl⟩
  refine Nat.le_of_lt_succ ((Nat.div_lt_iff_lt_mul (Nat.mul_pos Nat.two_pos oneUnits_pos)).mpr ?_)
  have positive := oneUnits_pos
  rw [Nat.mul_left_comm, Nat.succ_mul n]
  omega

/-- A share of an integer, in doubles and rounded to an integer, is no further from the integer than
zero is. -/
theorem natAbs_sub_share_le {share : Binary64} (isShare : IsShare share) {n : Int}
    (small : n.natAbs ≤ 2 ^ 64) : (n - (share.mul (ofInt n)).roundAway).natAbs ≤ n.natAbs := by
  cases share with
  | nan =>
    change (n - 0).natAbs ≤ _
    rw [Int.sub_zero]
  | infinite negative => exact isShare.elim
  | finite negative part =>
    obtain ⟨rfl, less⟩ := isShare
    obtain ⟨units, isDouble, double, same⟩ := ofInt_eq_finite small
    obtain ⟨product, kept, finite⟩ := ofUnits_of_le (false != decide (n < 0))
      oneUnits_pos isDouble ((Nat.mul_comm part units).trans_le (Nat.mul_le_mul_left units less))
    obtain ⟨rounded, most, away⟩ :=
      roundAway_finite_le (false != decide (n < 0)) (kept.trans double)
    rw [same, mul, finite, away]
    by_cases below : n < 0
    · simp only [below, decide_true, Bool.bne_true, Bool.not_false, ↓reduceIte]
      omega
    · simp only [below, decide_false, Bool.bne_false, Bool.false_eq_true, ↓reduceIte]
      omega

end Tether.Binary64
