import Mathlib.Algebra.Order.Field.Rat
import SweGateway.Core.Database.Equiv.KeyId
import SweGateway.Core.Database.Equiv.Ordering
import SweGateway.Lib.Rounding

/-!
# Numeric filters and the order of the numbers

The comments of the source and its documentation say that filters compare numbers numerically.  The
source compares by `as_f64`, which rounds integers of more than 53 bits, and tests for equality by
the equality of `serde_json`, which never identifies an integer with a double.

`FiltersExact` says what exact filters would do, for a number in a record, a number to compare with
and a list of values for `__in`.  `filtersExact_iff` says for which numbers the filters are exact:
rounding keeps the order (`Number.asF64_mono`), so that all that can go wrong is that different
numbers are rounded to the same double, and that equal numbers are of different variants.
-/

namespace SweGateway

namespace Number

/-- The number. -/
def value : Number → ℚ
  | .posInt n => n.toNat
  | .negInt n => n.toInt
  | .float f => f.scaled / 2 ^ F64.leastExponent

/-- The number rounded to 53 bits, which a double has already. -/
def rounded : Number → ℚ
  | .posInt n => F64.nearest n.toNat
  | .negInt n => F64.nearest n.toInt
  | .float f => f.scaled / 2 ^ F64.leastExponent

/-- The numbers are of the same variant of `serde_json`'s type. -/
def SameVariant : Number → Number → Prop
  | .posInt _, .posInt _ => True
  | .negInt _, .negInt _ => True
  | .float _, .float _ => True
  | _, _ => False

/-- The number, as a multiple of the least positive double. -/
def units : Number → ℤ
  | .posInt n => n.toNat * 2 ^ F64.leastExponent
  | .negInt n => n.toInt * 2 ^ F64.leastExponent
  | .float f => f.scaled

/-- The units of a whole number over the units of `1`. -/
theorem intCast_units_div (z : ℤ) :
    ((z * 2 ^ F64.leastExponent : ℤ) : ℚ) / 2 ^ F64.leastExponent = z := by
  have hne : (2 : ℚ) ^ F64.leastExponent ≠ 0 := pow_ne_zero _ (by norm_num)
  push_cast
  exact mul_div_cancel_right₀ _ hne

theorem value_eq_units_div (a : Number) : a.value = a.units / 2 ^ F64.leastExponent := by
  cases a with
  | posInt n => rw [value, units, intCast_units_div, Int.cast_natCast]
  | negInt n => rw [value, units, intCast_units_div]
  | float f => rfl

theorem value_lt_value {a b : Number} : a.value < b.value ↔ a.units < b.units := by
  rw [value_eq_units_div, value_eq_units_div, div_lt_div_iff_of_pos_right (by positivity),
    Int.cast_lt]

theorem value_le_value {a b : Number} : a.value ≤ b.value ↔ a.units ≤ b.units := by
  rw [← not_lt, ← not_lt, value_lt_value]

theorem value_eq_value {a b : Number} : a.value = b.value ↔ a.units = b.units := by
  rw [le_antisymm_iff, le_antisymm_iff, value_le_value, value_le_value]

theorem SameVariant.symm {a b : Number} (h : SameVariant a b) : SameVariant b a := by
  cases a <;> cases b <;> exact h

/-- Equality in the source. -/
theorem beq_iff {a b : Number} : (a == b) = true ↔ SameVariant a b ∧ a.value = b.value := by
  cases a <;> cases b <;>
    simp [BEq.beq, instBEqNumber.beq, SameVariant, value, ← UInt64.toNat_inj, ← Int64.toInt_inj]

/-- An integer is rounded, and a double is itself. -/
theorem rounded_or_double (a : Number) :
    (∃ z : ℤ, a.units = z * 2 ^ F64.leastExponent ∧
        a.asF64.scaled = F64.nearest z * 2 ^ F64.leastExponent) ∨
      a.units = a.asF64.scaled := by
  cases a with
  | posInt n => exact .inl ⟨n.toNat, rfl, F64.scaled_ofUInt64 n⟩
  | negInt n => exact .inl ⟨n.toInt, rfl, F64.scaled_ofInt64 n⟩
  | float f => exact .inr rfl

/-- The source rounds to 53 bits. -/
theorem rounded_eq_asF64_div (a : Number) :
    a.rounded = a.asF64.scaled / 2 ^ F64.leastExponent := by
  cases a with
  | posInt n => rw [rounded, asF64, F64.scaled_ofUInt64, intCast_units_div]
  | negInt n => rw [rounded, asF64, F64.scaled_ofInt64, intCast_units_div]
  | float f => rfl

theorem rounded_eq_rounded {a b : Number} :
    a.rounded = b.rounded ↔ a.asF64.scaled = b.asF64.scaled := by
  have hne : (2 : ℚ) ^ F64.leastExponent ≠ 0 := pow_ne_zero _ (by norm_num)
  rw [rounded_eq_asF64_div, rounded_eq_asF64_div, div_left_inj' hne, Int.cast_inj]

/-- **Rounding keeps the order.** -/
theorem asF64_mono {a b : Number} (h : a.units ≤ b.units) :
    a.asF64.scaled ≤ b.asF64.scaled := by
  have hpos : (0 : ℤ) < 2 ^ F64.leastExponent := by positivity
  rcases a.rounded_or_double with ⟨z, hz, hz'⟩ | ha
  · rcases b.rounded_or_double with ⟨w, hw, hw'⟩ | hb
    · rw [hz, hw] at h
      rw [hz', hw']
      exact mul_le_mul_of_nonneg_right (F64.nearest_mono (le_of_mul_le_mul_right h hpos)) hpos.le
    · rw [hz, hb] at h
      rw [hz']
      exact F64.nearest_le_scaled h
  · rcases b.rounded_or_double with ⟨w, hw, hw'⟩ | hb
    · rw [ha, hw] at h
      rw [hw']
      exact F64.scaled_le_nearest h
    · exact (ha.symm.trans_le h).trans_eq hb

/-- Numbers are compared as what they are rounded to, and different numbers do not change places. -/
theorem lt_iff_asF64_lt {a b : Number}
    (h : a.value ≠ b.value → a.rounded ≠ b.rounded) :
    a.asF64.scaled < b.asF64.scaled ↔ a.value < b.value := by
  constructor
  · intro hlt
    by_contra hge
    exact absurd (asF64_mono (value_le_value.mp (not_lt.mp hge))) (not_le.mpr hlt)
  · intro hlt
    exact lt_of_le_of_ne (asF64_mono (value_lt_value.mp hlt).le)
      (mt rounded_eq_rounded.mpr (h hlt.ne))

end Number

namespace MemoryDatabase

variable {ops : TextOps}

/-- The record matches the filter. -/
def selects (ops : TextOps) (r : Record) (key : String) (v : Value) : Bool :=
  matchesFilters ops r (QueryParams.new.filter key v).filters

/-- The operators that compare with a value. -/
def comparing : List FilterOperator := [.eq, .gt, .gte, .lt, .lte]

/-- What an operator that compares says of two numbers. -/
def relates : FilterOperator → ℚ → ℚ → Prop
  | .eq, x, y => x = y
  | .gt, x, y => y < x
  | .gte, x, y => y ≤ x
  | .lt, x, y => x < y
  | .lte, x, y => x ≤ y
  | .like, _, _ => False
  | .in, _, _ => False

/-- On every record with the number `a` in a field, the filters on this field with the number `b`
compare the two as rational numbers, and `__in` looks for the rational number among `elems`. -/
structure FiltersExact (ops : TextOps) (a b : Number) (elems : List Value) : Prop where
  compares (r : Record) (field key : String) (operator : FilterOperator)
    (hr : r[field]? = some (.number a)) (hkey : parseFilterKey key = (field, operator))
    (hop : operator ∈ comparing) :
    selects ops r key (.number b) = true ↔ relates operator a.value b.value
  among (r : Record) (field key : String) (hr : r[field]? = some (.number a))
    (hkey : parseFilterKey key = (field, .in)) :
    selects ops r key (.array elems) = true ↔ ∃ n, .number n ∈ elems ∧ a.value = n.value
  /-- Exactly one of the three filters matches. -/
  one (r : Record) (field lt eq gt : String) (hr : r[field]? = some (.number a))
    (hlt : parseFilterKey lt = (field, .lt)) (heq : parseFilterKey eq = (field, .eq))
    (hgt : parseFilterKey gt = (field, .gt)) :
    ([lt, eq, gt].filter fun key => selects ops r key (.number b)).length = 1

/-! ### What the filters ask -/

section Filters

variable {r : Record} {field key : String} {a b : Number}

theorem selects_eq {operator : FilterOperator} (hr : r[field]? = some (.number a))
    (hkey : parseFilterKey key = (field, operator)) (v : Value) :
    selects ops r key v = matchesFilterCondition ops (some (.number a)) operator v := by
  have hnew : QueryParams.new.filters[key]? = none := by simp [QueryParams.new]
  rw [selects, QueryParams.filter, matchesFilters_insert hnew, hkey, QueryParams.new,
    matchesFilters_empty, Bool.and_true, hr]

theorem comparesWith_number (accepts : Ordering → Bool) :
    comparesWith ops accepts (some (.number a)) (.number b) =
      accepts (compare a.asF64.scaled b.asF64.scaled) :=
  rfl

theorem selects_eq_iff (hr : r[field]? = some (.number a))
    (hkey : parseFilterKey key = (field, .eq)) :
    selects ops r key (.number b) = true ↔ Number.SameVariant a b ∧ a.value = b.value := by
  rw [selects_eq hr hkey, ← Number.beq_iff]
  rfl

theorem selects_lt_iff (hr : r[field]? = some (.number a))
    (hkey : parseFilterKey key = (field, .lt)) :
    selects ops r key (.number b) = true ↔ a.asF64.scaled < b.asF64.scaled := by
  rw [selects_eq hr hkey, matchesFilterCondition, comparesWith_number, beq_iff_eq,
    compare_lt_iff_lt]

theorem selects_gt_iff (hr : r[field]? = some (.number a))
    (hkey : parseFilterKey key = (field, .gt)) :
    selects ops r key (.number b) = true ↔ b.asF64.scaled < a.asF64.scaled := by
  rw [selects_eq hr hkey, matchesFilterCondition, comparesWith_number, beq_iff_eq,
    compare_gt_iff_gt]

theorem selects_gte_iff (hr : r[field]? = some (.number a))
    (hkey : parseFilterKey key = (field, .gte)) :
    selects ops r key (.number b) = true ↔ b.asF64.scaled ≤ a.asF64.scaled := by
  rw [selects_eq hr hkey, matchesFilterCondition, comparesWith_number, bne_iff_ne,
    compare_ge_iff_ge]

theorem selects_lte_iff (hr : r[field]? = some (.number a))
    (hkey : parseFilterKey key = (field, .lte)) :
    selects ops r key (.number b) = true ↔ a.asF64.scaled ≤ b.asF64.scaled := by
  rw [selects_eq hr hkey, matchesFilterCondition, comparesWith_number, bne_iff_ne,
    compare_le_iff_le]

theorem selects_in_iff (hr : r[field]? = some (.number a))
    (hkey : parseFilterKey key = (field, .in)) (elems : List Value) :
    selects ops r key (.array elems) = true ↔
      ∃ n, .number n ∈ elems ∧ Number.SameVariant a n ∧ a.value = n.value := by
  rw [selects_eq hr hkey]
  show (elems.any fun v => v == .number a) = true ↔ _
  rw [List.any_eq_true]
  constructor
  · rintro ⟨v, hmem, hv⟩
    cases v with
    | number n =>
      obtain ⟨hsame, hvalue⟩ := Number.beq_iff.mp (show (n == a) = true from hv)
      exact ⟨n, hmem, hsame.symm, hvalue.symm⟩
    | _ => exact absurd hv Bool.false_ne_true
  · rintro ⟨n, hmem, hsame, hvalue⟩
    exact ⟨.number n, hmem, Number.beq_iff.mpr ⟨hsame.symm, hvalue.symm⟩⟩

end Filters

/-! ### When they are exact -/

section Exact

variable {a b : Number} {elems : List Value}

/-- Filters that compare and order exactly match exactly one of the three. -/
theorem one_of_compares
    (h : ∀ (r : Record) (field key : String) (operator : FilterOperator),
      r[field]? = some (.number a) → parseFilterKey key = (field, operator) →
      operator ∈ comparing →
      (selects ops r key (.number b) = true ↔ relates operator a.value b.value))
    {r : Record} {field lt eq gt : String} (hr : r[field]? = some (.number a))
    (hlt : parseFilterKey lt = (field, .lt)) (heq : parseFilterKey eq = (field, .eq))
    (hgt : parseFilterKey gt = (field, .gt)) :
    ([lt, eq, gt].filter fun key => selects ops r key (.number b)).length = 1 := by
  have hlt' : selects ops r lt (.number b) = true ↔ a.value < b.value :=
    h r field lt .lt hr hlt (by decide)
  have heq' : selects ops r eq (.number b) = true ↔ a.value = b.value :=
    h r field eq .eq hr heq (by decide)
  have hgt' : selects ops r gt (.number b) = true ↔ b.value < a.value :=
    h r field gt .gt hr hgt (by decide)
  simp only [List.filter_cons, hlt', heq', hgt', List.filter_nil]
  rcases lt_trichotomy a.value b.value with hcmp | hcmp | hcmp
  · simp [hcmp, hcmp.ne, hcmp.not_gt]
  · simp [hcmp]
  · simp [hcmp, hcmp.ne', hcmp.not_gt]

/-- **When numeric filters are exact.** The filters on a number `a` with a number `b` and a list
`elems` implement the order of the rational numbers exactly if `a` and `b` are of one variant if
they are equal, and are rounded to different doubles if they are not, and an element that equals `a`
is there in the variant of `a`, if there is one at all. -/
theorem filtersExact_iff (ops : TextOps) (a b : Number) (elems : List Value) :
    FiltersExact ops a b elems ↔
      (a.value = b.value → Number.SameVariant a b) ∧
      (a.value ≠ b.value → a.rounded ≠ b.rounded) ∧
      ((∃ n, .number n ∈ elems ∧ a.value = n.value) →
        ∃ n, .number n ∈ elems ∧ Number.SameVariant a n ∧ a.value = n.value) := by
  constructor
  · intro h
    let r : Record := (∅ : Record).insert "n" (.number a)
    have hr : r["n"]? = some (.number a) := Std.ExtTreeMap.getElem?_insert_self
    have heq : parseFilterKey "n" = ("n", .eq) := by decide
    have hlt : parseFilterKey "n__lt" = ("n", .lt) := by decide
    have hgt : parseFilterKey "n__gt" = ("n", .gt) := by decide
    have hin : parseFilterKey "n__in" = ("n", .in) := by decide
    refine ⟨fun hvalue => ?_, fun hvalue hrounded => ?_, fun hex => ?_⟩
    · have hsel := (h.compares r "n" "n" .eq hr heq (by decide)).mpr hvalue
      exact ((selects_eq_iff hr heq).mp hsel).1
    · rcases lt_or_gt_of_ne hvalue with hless | hmore
      · have hsel := (h.compares r "n" "n__lt" .lt hr hlt (by decide)).mpr hless
        exact ((selects_lt_iff hr hlt).mp hsel).ne (Number.rounded_eq_rounded.mp hrounded)
      · have hsel := (h.compares r "n" "n__gt" .gt hr hgt (by decide)).mpr hmore
        exact ((selects_gt_iff hr hgt).mp hsel).ne' (Number.rounded_eq_rounded.mp hrounded)
    · exact (selects_in_iff hr hin elems).mp ((h.among r "n" "n__in" hr hin).mpr hex)
  · rintro ⟨hsame, hrounded, hamong⟩
    have hrounded' : b.value ≠ a.value → b.rounded ≠ a.rounded :=
      fun hne => (hrounded hne.symm).symm
    have hcompares : ∀ (r : Record) (field key : String) (operator : FilterOperator),
        r[field]? = some (.number a) → parseFilterKey key = (field, operator) →
        operator ∈ comparing →
        (selects ops r key (.number b) = true ↔ relates operator a.value b.value) := by
      intro r field key operator hr hkey hop
      cases operator with
      | eq => exact (selects_eq_iff hr hkey).trans ⟨And.right, fun h => ⟨hsame h, h⟩⟩
      | lt => exact (selects_lt_iff hr hkey).trans (Number.lt_iff_asF64_lt hrounded)
      | gt => exact (selects_gt_iff hr hkey).trans (Number.lt_iff_asF64_lt hrounded')
      | gte =>
        rw [selects_gte_iff hr hkey, ← not_lt, Number.lt_iff_asF64_lt hrounded, not_lt]
        rfl
      | lte =>
        rw [selects_lte_iff hr hkey, ← not_lt, Number.lt_iff_asF64_lt hrounded', not_lt]
        rfl
      | like => exact absurd hop (by decide)
      | «in» => exact absurd hop (by decide)
    refine ⟨hcompares, fun r field key hr hkey => ?_, fun r field lt eq gt hr hlt heq hgt =>
      one_of_compares hcompares hr hlt heq hgt⟩
    rw [selects_in_iff hr hkey]
    refine ⟨?_, hamong⟩
    rintro ⟨n, hmem, -, hvalue⟩
    exact ⟨n, hmem, hvalue⟩

end Exact

/-- `2 ^ 53 + 1` is not found to be greater than `2 ^ 53`, and `1` not to be equal to `1.0`. -/
theorem neighbours_not_exact :
    ¬ FiltersExact ⟨id, fun _ => ""⟩ (.posInt 9007199254740993) (.posInt 9007199254740992) [] ∧
      ¬ FiltersExact ⟨id, fun _ => ""⟩ (.posInt 1) (.float (.ofUInt64 1)) [] := by
  constructor
  · intro h
    let r : Record := (∅ : Record).insert "n" (.number (.posInt 9007199254740993))
    have hr : r["n"]? = some (.number (.posInt 9007199254740993)) :=
      Std.ExtTreeMap.getElem?_insert_self
    have hkey : parseFilterKey "n__gt" = ("n", .gt) := by decide
    have hless : Number.value (.posInt 9007199254740992) <
        Number.value (.posInt 9007199254740993) :=
      Nat.cast_lt.mpr (by decide)
    have hsel := (h.compares r "n" "n__gt" .gt hr hkey (by decide)).mpr hless
    exact absurd ((selects_gt_iff hr hkey).mp hsel) (by decide +kernel)
  · intro h
    let r : Record := (∅ : Record).insert "n" (.number (.posInt 1))
    have hr : r["n"]? = some (.number (.posInt 1)) := Std.ExtTreeMap.getElem?_insert_self
    have hkey : parseFilterKey "n" = ("n", .eq) := by decide
    have hvalue : Number.value (.posInt 1) = Number.value (.float (.ofUInt64 1)) :=
      Number.value_eq_value.mpr (by decide +kernel)
    have hsel := (h.compares r "n" "n" .eq hr hkey (by decide)).mpr hvalue
    exact ((selects_eq_iff hr hkey).mp hsel).1

end MemoryDatabase

end SweGateway
