import SweGateway.Lib.Runs

/-!
# States made of cells

A state is seen as a family of cells, one for each key, and every operation has a key.  `Local` says
that an operation only changes the cell of its key, and that what it makes of that cell, and what it
replies, depends on nothing but that cell.  Then the operations on one key never notice those on the
others: what a run does to a cell, and what the operations on it reply, is the same if all other
operations are left out (`Local.cell_exec_filter`, `Local.replies_filter`), and two runs that have
the same operations on every key, however they are mixed, agree (`Local.rearrange`).

`cell_exec` is the rule for operations that change a cell by an effect of their own.
-/

namespace Cells

variable {S Op K C R : Type*}

/-- If every operation changes the cell by its effect, a run does so by the effects one after
another. -/
theorem cell_exec {step : S → Op → S} {cell : S → C} {effect : Op → C → C}
    (h : ∀ s op, cell (step s op) = effect op (cell s)) (s : S) (ops : List Op) :
    cell (Runs.exec step s ops) = ops.foldl (fun c op => effect op c) (cell s) := by
  induction ops generalizing s with
  | nil => rfl
  | cons op ops ih => rw [Runs.exec_cons, ih, h, List.foldl_cons]

/-- Effects that do nothing can be left out. -/
theorem foldl_filter_of_id {effect : Op → C → C} {p : Op → Bool}
    (h : ∀ op, p op = false → ∀ c, effect op c = c) (c : C) (ops : List Op) :
    (ops.filter p).foldl (fun c op => effect op c) c = ops.foldl (fun c op => effect op c) c := by
  induction ops generalizing c with
  | nil => rfl
  | cons op ops ih =>
    cases hop : p op with
    | true => rw [List.filter_cons_of_pos hop, List.foldl_cons, List.foldl_cons, ih]
    | false => rw [List.filter_cons_of_neg (by simp [hop]), List.foldl_cons, h op hop, ih]

/-- The state that an operation leaves. -/
def next (run : Op → S → R × S) (s : S) (op : Op) : S := (run op s).2

/-- The operations of a run, each with its reply. -/
def replies (run : Op → S → R × S) : S → List Op → List (Op × R)
  | _, [] => []
  | s, op :: ops => (op, (run op s).1) :: replies run (next run s op) ops

/-- An operation changes only the cell of its key, and depends on nothing else. -/
structure Local (key : Op → K) (cell : S → K → C) (run : Op → S → R × S) : Prop where
  frame : ∀ op s k, key op ≠ k → cell (run op s).2 k = cell s k
  reply : ∀ op s s', cell s (key op) = cell s' (key op) → (run op s).1 = (run op s').1
  cell : ∀ op s s', cell s (key op) = cell s' (key op) →
    cell (run op s).2 (key op) = cell (run op s').2 (key op)

namespace Local

variable {key : Op → K} {cell : S → K → C} {run : Op → S → R × S}

/-- States that agree on a cell agree on it after every operation. -/
theorem next_congr (h : Local key cell run) (op : Op) {s s' : S} {k : K}
    (hk : cell s k = cell s' k) : cell (next run s op) k = cell (next run s' op) k := by
  by_cases hop : key op = k
  · subst hop
    exact h.cell op s s' hk
  · rw [next, next, h.frame op s k hop, h.frame op s' k hop, hk]

variable [DecidableEq K]

/-- A cell after a run, without the operations on other keys. -/
theorem cell_exec_filter (h : Local key cell run) {k : K} (ops : List Op) {s s' : S}
    (hk : cell s k = cell s' k) :
    cell (Runs.exec (next run) s ops) k =
      cell (Runs.exec (next run) s' (ops.filter fun op => key op = k)) k := by
  induction ops generalizing s s' with
  | nil => exact hk
  | cons op ops ih =>
    rw [Runs.exec_cons, List.filter_cons]
    split_ifs with hop
    · rw [Runs.exec_cons]
      exact ih (h.next_congr op hk)
    · apply ih
      rw [next, h.frame op s k (by simpa using hop), hk]

/-- The replies to the operations on a key, without the operations on other keys. -/
theorem replies_filter (h : Local key cell run) {k : K} (ops : List Op) {s s' : S}
    (hk : cell s k = cell s' k) :
    (replies run s ops).filter (fun e => key e.1 = k) =
      replies run s' (ops.filter fun op => key op = k) := by
  induction ops generalizing s s' with
  | nil => rfl
  | cons op ops ih =>
    rw [replies, List.filter_cons, List.filter_cons]
    by_cases hop : key op = k
    · subst hop
      rw [if_pos (decide_eq_true rfl), if_pos (decide_eq_true rfl), replies, h.reply op s s' hk,
        ih (h.next_congr op hk)]
    · rw [if_neg (by simpa using hop), if_neg (by simpa using hop)]
      apply ih
      rw [next, h.frame op s k hop, hk]

/-- **Mixing.** Runs with the same operations on every key, each in its order, have the same cells
and the same replies to the operations on every key. -/
theorem rearrange (h : Local key cell run) {ops ops' : List Op}
    (hops : ∀ k, ops.filter (fun op => key op = k) = ops'.filter fun op => key op = k) (s : S)
    (k : K) :
    cell (Runs.exec (next run) s ops) k = cell (Runs.exec (next run) s ops') k ∧
      (replies run s ops).filter (fun e => key e.1 = k) =
        (replies run s ops').filter fun e => key e.1 = k := by
  constructor
  · rw [h.cell_exec_filter ops rfl, h.cell_exec_filter ops' rfl, hops]
  · rw [h.replies_filter ops rfl, h.replies_filter ops' rfl, hops]

end Local

end Cells
