import Mathlib.Data.String.Basic
import SweGateway.Core.Database.Memory
import SweGateway.Lib.Comparator

/-!
# The order that `query` sorts by

`apply_pagination` sorts records by a field.  Its comparator puts missing and null values last and
compares the others by `compare_values`, in one direction or the other (`compareRecords_eq`).  Two
numbers are compared as numbers, but a number and a text as texts, so in a column that has both
kinds `10` comes before `"5"`, which comes before `9`, which comes before `10`.

`isTotalPreorderOn_iff` says in which columns this does not happen: those in which no text, or other
value that is no number, stands between the texts of two numbers that do not come in this order
themselves.
-/

namespace SweGateway.MemoryDatabase

open Comparator

/-- The number that a value is compared by, as a multiple of the least double. -/
def number (v : Value) : Option ℤ := v.asF64.map F64.scaled

/-- The text that a value is compared by, with another that is no number. -/
def text (ops : TextOps) (v : Value) : String := v.asStr.getD (v.toJson ops.formatF64)

/-- The values of a field, but for null. -/
def column (orderBy : String) (records : List Record) : Set Value :=
  {v | ∃ r ∈ records, present r[orderBy]? = some v}

theorem compareValues_eq (ops : TextOps) (a b : Option Value) :
    compareValues ops a b = nullsLast (mixed number (text ops)) (present a) (present b) := by
  unfold compareValues
  cases present a with
  | none =>
    cases present b with
    | none => rfl
    | some bv => rfl
  | some av =>
    cases present b with
    | none => rfl
    | some bv =>
      dsimp only
      show _ = mixed number (text ops) av bv
      cases hav : av.asF64 with
      | none =>
        have hna : number av = none := by rw [number, hav]; rfl
        rw [mixed_of_none_left hna]
        rfl
      | some an =>
        have hna : number av = some an.scaled := by rw [number, hav]; rfl
        cases hbv : bv.asF64 with
        | none =>
          have hnb : number bv = none := by rw [number, hbv]; rfl
          rw [mixed_of_none_right hnb]
          rfl
        | some bn =>
          have hnb : number bv = some bn.scaled := by rw [number, hbv]; rfl
          rw [mixed_of_some hna hnb]
          rfl

/-- **The comparator**: null and missing values last, in either direction. -/
theorem compareRecords_eq (ops : TextOps) (orderBy : String) (orderDesc : Bool) :
    compareRecords ops orderBy orderDesc = fun a b =>
      nullsLast
        (if orderDesc then reverse (mixed number (text ops)) else mixed number (text ops))
        (present a[orderBy]?) (present b[orderBy]?) := by
  funext a b
  unfold compareRecords
  rw [compareValues_eq]
  cases ha : present a[orderBy]? with
  | none =>
    cases present b[orderBy]? with
    | none => rfl
    | some bv => rfl
  | some av =>
    cases present b[orderBy]? with
    | none => rfl
    | some bv =>
      cases orderDesc with
      | false => rfl
      | true => rfl

/-- **When the records are ordered.**  The comparator of `query` is a total preorder on the records
if and only if the values of the field that are no numbers fit between those that are. -/
theorem isTotalPreorderOn_iff (ops : TextOps) (orderBy : String) (orderDesc : Bool)
    (records : List Record) :
    IsTotalPreorderOn {r | r ∈ records} (compareRecords ops orderBy orderDesc) ↔
      TextsFit number (text ops) (column orderBy records) := by
  have hcolumn : {v | some v ∈ (fun r : Record => present r[orderBy]?) '' {r | r ∈ records}} =
      column orderBy records := rfl
  rw [compareRecords_eq, isTotalPreorderOn_comp fun r : Record => present r[orderBy]?,
    isTotalPreorderOn_nullsLast, hcolumn, ← isTotalPreorderOn_mixed]
  cases orderDesc with
  | false => rfl
  | true => exact isTotalPreorderOn_reverse

/-- A number, a text and a smaller number go round in a circle. -/
theorem ten_five_nine :
    ¬ ∀ (ops : TextOps) (orderBy : String) (orderDesc : Bool) (records : List Record),
      IsTotalPreorderOn {r | r ∈ records} (compareRecords ops orderBy orderDesc) := by
  intro h
  let rank (v : Value) : Record := (∅ : Record).insert "rank" v
  let ten := rank (.number (.posInt 10))
  let five := rank (.string "5")
  let nine := rank (.number (.posInt 9))
  have htrans := (h ⟨id, fun _ => "0.0"⟩ "rank" false [ten, five, nine]).trans ten (by simp)
    five (by simp) nine (by simp)
  exact htrans (by decide) (by decide) (by decide +kernel)

end SweGateway.MemoryDatabase
