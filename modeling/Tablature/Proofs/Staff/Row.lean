import Mathlib.Data.List.Basic
import Mathlib.Data.Nat.Basic
import Mathlib.Order.Basic
import Tablature.Staff

/-!
# Rows

On `n` strings the cells go round: the cell with index `t * n + j` is the one of step `t` on the
string declared as number `j`. Its row is the one with index `n - 1 - j`.

* `rowOf_append_of_eq`: the next cell goes behind the row of its string;
* `rowOf_append_of_ne`: it leaves the other rows alone.
-/

namespace Tablature.Staff

/-- The bar line in front of a step, given the steps of a measure. -/
def barAt (length step : Nat) : String := if step % length = 0 then "|" else ""

/-- A cell has a bar in it only if its fret has one. -/
theorem bar_not_mem_text {cell : Cell} (h : ∀ f, cell = .fret f → '|' ∉ f.toList) :
    '|' ∉ cell.text.toList := by
  cases cell with
  | empty => decide
  | fret f =>
    rw [Cell.text]
    split <;> simp [h f rfl]

/-- The cell of a step in the row with index `i`, behind its bar line. -/
def cellAt? (length n : Nat) (cells : List Cell) (i step : Nat) : Option String :=
  cells[step * n + (n - 1 - i)]?.map fun cell => barAt length step ++ cell.text

/-- The row with index `i`: the cells of its string, step by step. -/
def rowOf (length n : Nat) (cells : List Cell) (i : Nat) : String :=
  String.join ((List.range cells.length).filterMap (cellAt? length n cells i))

variable {length n i : Nat} {cells : List Cell} {cell : Cell}

@[simp]
theorem rowOf_nil : rowOf length n [] = fun _ => "" := rfl

theorem cellAt?_eq_none {step : Nat} (h : cells.length ≤ step * n + (n - 1 - i)) :
    cellAt? length n cells i step = none := by
  rw [cellAt?, List.getElem?_eq_none h, Option.map_none]

theorem filterMap_range_add {f : Nat → Option String} {k : Nat} (h : ∀ t, k ≤ t → f t = none)
    (d : Nat) : (List.range (k + d)).filterMap f = (List.range k).filterMap f := by
  induction d with
  | zero => rfl
  | succ d ih =>
    rw [← Nat.add_assoc, List.range_succ, List.filterMap_append, ih,
      List.filterMap_cons_none (h _ (Nat.le_add_right _ _)), List.filterMap_nil, List.append_nil]

/-- Only the steps that have been begun count. -/
theorem rowOf_eq (hn : 0 < n) (steps : Nat) (h : cells.length ≤ steps * n + (n - 1 - i)) :
    rowOf length n cells i =
      String.join ((List.range steps).filterMap (cellAt? length n cells i)) := by
  have h₁ := filterMap_range_add (f := cellAt? length n cells i) (k := steps)
    (fun t ht => cellAt?_eq_none (h.trans (Nat.add_le_add_right (Nat.mul_le_mul_right n ht) _)))
    cells.length
  have h₂ := filterMap_range_add (f := cellAt? length n cells i) (k := cells.length)
    (fun t ht => cellAt?_eq_none (ht.trans
      ((Nat.le_mul_of_pos_right t hn).trans (Nat.le_add_right _ _)))) steps
  rw [rowOf, ← h₂, Nat.add_comm, h₁]

/-- The next cell goes behind the row of its string. -/
theorem rowOf_append_of_eq (hn : 0 < n) (hi : i = n - 1 - cells.length % n) :
    rowOf length n (cells ++ [cell]) i =
      rowOf length n cells i ++ (barAt length (cells.length / n) ++ cell.text) := by
  have hr := Nat.mod_lt cells.length hn
  have hlen : cells.length / n * n + (n - 1 - i) = cells.length := by
    have := Nat.div_add_mod' cells.length n
    omega
  have hold : ∀ t ∈ List.range (cells.length / n),
      cellAt? length n (cells ++ [cell]) i t = cellAt? length n cells i t := by
    intro t ht
    have := Nat.mul_lt_mul_of_pos_right (List.mem_range.1 ht) hn
    rw [cellAt?, List.getElem?_append_left (by omega), cellAt?]
  have hnew : cellAt? length n (cells ++ [cell]) i (cells.length / n) =
      some (barAt length (cells.length / n) ++ cell.text) := by
    rw [cellAt?, hlen, List.getElem?_concat_length, Option.map_some]
  rw [rowOf_eq hn (cells.length / n + 1), rowOf_eq hn _ hlen.ge, List.range_succ,
    List.filterMap_append, List.filterMap_congr hold, List.filterMap_cons_some hnew,
    List.filterMap_nil, String.join_append, String.join_cons, String.join_nil, String.append_empty]
  rw [List.length_append, List.length_singleton, Nat.add_mul]
  omega

/-- The next cell leaves the other rows alone. -/
theorem rowOf_append_of_ne (hn : 0 < n) (hin : i < n) (hi : i ≠ n - 1 - cells.length % n) :
    rowOf length n (cells ++ [cell]) i = rowOf length n cells i := by
  have hr := Nat.mod_lt cells.length hn
  have hne : ∀ t, t * n + (n - 1 - i) ≠ cells.length := by
    intro t e
    apply hi
    rw [← e, Nat.mul_add_mod_of_lt (by omega)]
    omega
  have hall : ∀ t, cellAt? length n (cells ++ [cell]) i t = cellAt? length n cells i t := by
    intro t
    rcases Nat.lt_or_gt_of_ne (hne t) with h | h
    · rw [cellAt?, List.getElem?_append_left h, cellAt?]
    · rw [cellAt?_eq_none h.le, cellAt?_eq_none]
      rw [List.length_append, List.length_singleton]
      omega
  have hle : cells.length ≤ (cells ++ [cell]).length * n + (n - 1 - i) := by
    have := Nat.le_mul_of_pos_right (cells ++ [cell]).length hn
    rw [List.length_append, List.length_singleton] at this ⊢
    omega
  rw [rowOf, List.filterMap_congr fun t _ => hall t, rowOf_eq hn _ hle]

end Tablature.Staff
