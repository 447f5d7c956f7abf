import Mathlib.Algebra.Order.Field.Rat
import Mathlib.Algebra.Order.Ring.Rat
import Mathlib.Order.Monotone.Basic
import Mathlib.Tactic.FieldSimp
import Mathlib.Tactic.Linarith
import Mathlib.Tactic.Positivity
import QueryWire.Decimal.Shortest

namespace QueryWire.Decimal.Binary64

/-! # Shortest decimals read back

The absolute values grow with the magnitude, so the numbers that are read as one
magnitude lie apart from those that are read as another.  Whatever grid the
shortest decimal is found on, and also where the exact value is taken, it is
read as its own magnitude and no other.
-/

theorem units_eq (magnitude : Nat) :
    units magnitude = if magnitude < 2 ^ 52 then 2 * magnitude
      else (2 ^ 52 + magnitude % 2 ^ 52) * 2 ^ (magnitude / 2 ^ 52) := by
  rw [units, Nat.shiftLeft_eq]
  rfl

theorem units_lt_succ (magnitude : Nat) : units magnitude < units (magnitude + 1) := by
  rw [units_eq, units_eq]
  by_cases subnormal : magnitude + 1 < 2 ^ 52
  · rw [if_pos subnormal, if_pos (by omega)]
    omega
  by_cases least : magnitude < 2 ^ 52
  · have last : magnitude = 2 ^ 52 - 1 := by omega
    rw [last]
    decide
  rw [if_neg least, if_neg subnormal]
  by_cases carries : magnitude % 2 ^ 52 + 1 < 2 ^ 52
  · rw [show (magnitude + 1) / 2 ^ 52 = magnitude / 2 ^ 52 by omega]
    exact Nat.mul_lt_mul_of_pos_right (by omega) (Nat.two_pow_pos _)
  · have power : 2 ^ (magnitude / 2 ^ 52 + 1) = 2 * 2 ^ (magnitude / 2 ^ 52) := Nat.pow_succ'
    rw [show (magnitude + 1) / 2 ^ 52 = magnitude / 2 ^ 52 + 1 by omega, power, ← Nat.mul_assoc]
    exact Nat.mul_lt_mul_of_pos_right (by omega) (Nat.two_pow_pos _)

theorem cast_shiftLeft (places : Nat) : ((1 <<< places : Nat) : Rat) = 2 ^ places := by
  rw [Nat.shiftLeft_eq, Nat.one_mul, Nat.cast_pow, Nat.cast_ofNat]

theorem absolute_eq (magnitude : Nat) : absolute magnitude = (units magnitude : Rat) / 2 ^ 1075 := by
  rw [absolute, cast_shiftLeft]

theorem absolute_strictMono : StrictMono absolute := by
  have units_strictMono : StrictMono units := strictMono_nat_of_lt_succ units_lt_succ
  intro magnitude greater below
  have := units_strictMono below
  rw [absolute_eq, absolute_eq]
  gcongr

theorem halfway_strictMono : StrictMono halfway := by
  intro magnitude greater below
  have first := absolute_strictMono below
  have second := absolute_strictMono (Nat.succ_lt_succ below)
  unfold halfway
  linarith

theorem absolute_lt_halfway (magnitude : Nat) : absolute magnitude < halfway magnitude := by
  have := absolute_strictMono (Nat.lt_succ_self magnitude)
  unfold halfway
  linarith

theorem halfway_lt_absolute {magnitude : Nat} (positive : 0 < magnitude) :
    halfway (magnitude - 1) < absolute magnitude := by
  have := absolute_strictMono (Nat.sub_one_lt_of_lt positive)
  unfold halfway
  rw [Nat.sub_add_cancel positive]
  linarith

theorem absolute_nonneg (magnitude : Nat) : 0 ≤ absolute magnitude := by
  rw [absolute_eq]
  positivity

theorem ReadsBack.bounds {magnitude : Nat} {value : Rat} (reads : ReadsBack magnitude value) :
    halfway (magnitude - 1) ≤ value ∧ value ≤ halfway magnitude := by
  unfold ReadsBack at reads
  split at reads
  · exact reads
  · exact ⟨reads.1.le, reads.2.le⟩

theorem ReadsBack.positive {magnitude : Nat} {value : Rat} (reads : ReadsBack magnitude value) :
    0 < value := by
  have low := reads.bounds.1
  have center := absolute_lt_halfway (magnitude - 1)
  have := absolute_nonneg (magnitude - 1)
  linarith

/-- The ranges of two magnitudes meet in at most the point halfway between neighbours,
which only the even one of them has. -/
theorem ReadsBack.not_lt {magnitude other : Nat} {value : Rat}
    (reads : ReadsBack magnitude value) (reads' : ReadsBack other value) :
    ¬ magnitude < other := by
  intro below
  have order : halfway magnitude ≤ halfway (other - 1) :=
    halfway_strictMono.monotone (by omega)
  have meet : halfway magnitude = halfway (other - 1) :=
    le_antisymm order (reads'.bounds.1.trans reads.bounds.2)
  have next : magnitude = other - 1 := halfway_strictMono.injective meet
  have point : value = halfway magnitude :=
    le_antisymm reads.bounds.2 (meet ▸ reads'.bounds.1)
  unfold ReadsBack at reads reads'
  by_cases even : magnitude % 2 = 0
  · rw [if_neg (by omega)] at reads'
    exact absurd reads'.1 (by rw [point, meet]; exact lt_irrefl _)
  · rw [if_neg even] at reads
    exact absurd reads.2 (by rw [point]; exact lt_irrefl _)

theorem ReadsBack.unique {magnitude other : Nat} {value : Rat}
    (reads : ReadsBack magnitude value) (reads' : ReadsBack other value) :
    magnitude = other :=
  Nat.le_antisymm (Nat.le_of_not_lt (reads'.not_lt reads)) (Nat.le_of_not_lt (reads.not_lt reads'))

theorem tenths_eq_halves (units places : Nat) :
    ((units * Nat.pow 5 places : Nat) : Rat) * 10 ^ (-(places : Int)) = units / 2 ^ places := by
  have power : (10 : Rat) ^ places = 2 ^ places * 5 ^ places := by
    rw [← mul_pow]
    norm_num
  rw [zpow_neg, zpow_natCast, power, Nat.pow_eq]
  push_cast
  field_simp

theorem value_exact (magnitude : Nat) : (exact magnitude).value = absolute magnitude := by
  have same : (-1075 : Int) = -((1075 : Nat) : Int) := rfl
  rw [exact, Scaled.value, absolute_eq, same]
  -- With the number of places left open, no power of that size is evaluated.
  generalize (1075 : Nat) = places
  exact tenths_eq_halves (units magnitude) places

theorem readsBack_absolute {magnitude : Nat} (positive : 0 < magnitude) :
    ReadsBack magnitude (absolute magnitude) := by
  have low := halfway_lt_absolute positive
  have high := absolute_lt_halfway magnitude
  unfold ReadsBack
  split
  · exact ⟨low.le, high.le⟩
  · exact ⟨low, high⟩

theorem readsBack_onGrid? {magnitude : Nat} {exponent : Int} {decimal : Scaled}
    (chosen : onGrid? magnitude exponent = some decimal) :
    ReadsBack magnitude decimal.value := by
  have held := List.find?_some chosen
  exact of_decide_eq_true held

theorem readsBack_shortest {magnitude : Nat} (positive : 0 < magnitude) :
    ReadsBack magnitude (shortest magnitude).value := by
  unfold shortest
  dsimp only
  cases found : List.findSome? (onGrid? magnitude) ((List.range 17).map fun (more : Nat) =>
      leadingExponent (absolute magnitude) - (more : Int)) with
  | none =>
      rw [Option.getD_none, value_exact]
      exact readsBack_absolute positive
  | some decimal =>
      obtain ⟨exponent, -, chosen⟩ := List.exists_of_findSome?_eq_some found
      exact readsBack_onGrid? chosen

end QueryWire.Decimal.Binary64
