import Mathlib.Data.List.GetD
import Mathlib.Data.Nat.Count
import Mathlib.Data.Nat.ModEq
import Tablature.Proofs.Staff.Written

/-!
# Columns of a staff

The rows and the count line of a staff are ruled alike. What stands in front is three characters
wide, and so is the body of every step; the first step of a measure has a mark of one character,
a bar line or a space, in front of its body.

* `Ruled.Aligned.bodyColumn?_eq`, `Ruled.Aligned.markColumns_eq`, `Ruled.Aligned.length_text`:
  where the bodies and the marks of an aligned line stand, and how long it is;
* `aligned_rowLine`, `aligned_countLine`: the lines of a staff are aligned;
* `columns_of_runAll`: the columns of a staff after a run that nothing stopped.
-/

namespace Tablature

/-- What a line shows of a step: a body, and in front of it a mark, if there is one. -/
structure Ruled.Field where
  mark : String
  body : String

/-- A line: what stands in front, and a field for each step. -/
structure Ruled where
  front : String
  fields : List Ruled.Field

namespace Ruled

def Field.text (f : Field) : String := f.mark ++ f.body

/-- The fields of the first `t` steps. -/
def steps (l : Ruled) (t : Nat) : String := String.join ((l.fields.take t).map Field.text)

def text (l : Ruled) : String := l.front ++ l.steps l.fields.length

/-- The column at which the field of a step starts. -/
def start (l : Ruled) (t : Nat) : Nat := l.front.length + (l.steps t).length

/-- The column at which the body of a step starts, if the line has the step. -/
def bodyColumn? (l : Ruled) (t : Nat) : Option Nat :=
  l.fields[t]?.map fun f => l.start t + f.mark.length

/-- The columns of the marks of the first `k` steps. -/
def markColumns (l : Ruled) (k : Nat) : List Nat :=
  ((List.range k).filter fun t => l.fields[t]?.any (·.mark ≠ "")).map l.start

/-- The columns of a character in the fields of the first `k` steps. -/
def columnsOf (c : Char) (l : Ruled) (k : Nat) : List Nat :=
  (l.steps k).toList.idxsOf c l.front.length

/-- A line in columns of three characters, with a mark of one at the first step of a measure. -/
structure Aligned (length : Nat) (l : Ruled) : Prop where
  front : l.front.length = 3
  mark : ∀ {t f}, l.fields[t]? = some f → f.mark.length = if length ∣ t then 1 else 0
  body : ∀ {t : Nat} {f}, l.fields[t]? = some f → f.body.length = 3

/-- The column of the body of a step: behind the front, the bodies before it, and the marks up to
its own. -/
def column (length t : Nat) : Nat := 3 + 3 * t + Nat.count (length ∣ ·) (t + 1)

variable {l : Ruled} {length t k : Nat}

theorem steps_succ {f : Field} (h : l.fields[t]? = some f) :
    l.steps (t + 1) = l.steps t ++ f.text := by
  rw [steps, List.take_add_one, h, Option.toList_some, List.map_append, String.join_append]
  simp [steps]

namespace Aligned

theorem start_eq (h : l.Aligned length) (ht : t ≤ l.fields.length) :
    l.start t = 3 + 3 * t + Nat.count (length ∣ ·) t := by
  induction t with
  | zero => simp [start, steps, h.front]
  | succ t ih =>
    have hf := List.getElem?_eq_getElem (l := l.fields) (Nat.lt_of_succ_le ht)
    have ih := ih (Nat.le_of_succ_le ht)
    rw [start] at ih ⊢
    rw [steps_succ hf, String.length_append, Field.text, String.length_append, h.mark hf,
      h.body hf, Nat.count_succ]
    omega

theorem bodyColumn?_eq (h : l.Aligned length) (ht : t < l.fields.length) :
    l.bodyColumn? t = some (column length t) := by
  have hf := List.getElem?_eq_getElem ht
  rw [bodyColumn?, hf, Option.map_some, h.start_eq ht.le, h.mark hf, column, Nat.count_succ,
    Nat.add_assoc]

theorem markColumns_eq (h : l.Aligned length) (hk : k ≤ l.fields.length) :
    l.markColumns k = ((List.range k).filter (length ∣ ·)).map
      (fun t => 3 + 3 * t + Nat.count (length ∣ ·) t) := by
  have hfilter : ∀ t ∈ List.range k,
      l.fields[t]?.any (·.mark ≠ "") = decide (length ∣ t) := by
    intro t ht
    have hf := List.getElem?_eq_getElem (l := l.fields) ((List.mem_range.1 ht).trans_le hk)
    have hm := h.mark hf
    rw [hf, Option.any_some, decide_eq_decide, Ne, ← String.length_eq_zero_iff, hm]
    split <;> simp [*]
  rw [markColumns, List.filter_congr hfilter]
  refine List.map_congr_left fun t ht => h.start_eq ?_
  exact ((List.mem_range.1 (List.mem_of_mem_filter ht)).trans_le hk).le

theorem length_text (h : l.Aligned length) :
    l.text.length = 3 + 3 * l.fields.length + Nat.count (length ∣ ·) l.fields.length := by
  rw [text, String.length_append, ← h.start_eq le_rfl, start]

end Aligned

/-- A character stands in the columns of the marks, if it is all of them and in no body. -/
theorem columnsOf_eq_markColumns {c : Char} (hk : k ≤ l.fields.length)
    (hm : ∀ f ∈ l.fields, f.mark = "" ∨ f.mark = String.singleton c)
    (hb : ∀ f ∈ l.fields, c ∉ f.body.toList) : l.columnsOf c k = l.markColumns k := by
  induction k with
  | zero => rfl
  | succ k ih =>
    have hf := List.getElem?_eq_getElem (l := l.fields) (Nat.lt_of_succ_le hk)
    have hmem := List.mem_of_getElem? hf
    have hbody : ∀ j, (l.fields[k]).body.toList.idxsOf c j = [] := by
      intro j
      refine List.idxsOf_eq_nil_iff.2 fun d hd => beq_eq_false_iff_ne.2 ?_
      rintro rfl
      exact hb _ hmem hd
    rw [columnsOf, steps_succ hf, String.toList_append, List.idxsOf_append, ← columnsOf,
      ih (Nat.le_of_succ_le hk), markColumns, markColumns, List.range_succ, List.filter_append,
      List.map_append, String.length_toList, Field.text, String.toList_append, List.idxsOf_append,
      hbody, List.append_nil]
    congr 1
    rcases hm _ hmem with hmark | hmark
    · simp [hf, hmark]
    · simp [hf, hmark, start]

end Ruled

namespace Staff

open Ruled

/-! ## The lines of a staff -/

/-- A fret of one or two digits. -/
def IsFret (f : String) : Prop :=
  (f.length = 1 ∨ f.length = 2) ∧ ∀ c ∈ f.toList, c.isDigit = true

/-- The line with index `i`, with the cells of its string in the order of the steps. -/
def rowLine (notes : List String) (length : Nat) (cells : List Cell) (i : Nat) : Ruled where
  front := Text.padded 2 (notes.getD (notes.length - 1 - i) "") ++ " "
  fields := (List.range ((cells.length + i) / notes.length)).map fun t =>
    ⟨barAt length t, (cells.getD (t * notes.length + (notes.length - 1 - i)) .empty).text⟩

/-- The count line with the labels of the steps. -/
def countLine (labels : List String) : Ruled where
  front := Clock.noteColumn
  fields := labels.map fun l =>
    ⟨if l = Meter.downbeat then " " else "", " " ++ Text.padded 2 l⟩

theorem length_padded {l : String} (h : l.length ≤ 2) : (Text.padded 2 l).length = 2 := by
  rw [Text.padded, String.length_append, String.length_ofList, List.length_replicate]
  omega

theorem length_barAt (length t : Nat) :
    (barAt length t).length = if length ∣ t then 1 else 0 := by
  simp only [barAt, Nat.dvd_iff_mod_eq_zero]
  split <;> rfl

theorem length_text_cell {cell : Cell} (h : ∀ f, cell = .fret f → IsFret f) :
    cell.text.length = 3 := by
  cases cell with
  | empty => rfl
  | fret f =>
    rw [Cell.text]
    rcases (h f rfl).1 with hf | hf
    · rw [if_pos hf, String.length_append, String.length_append, hf]
      rfl
    · rw [if_neg (by omega), String.length_append, hf]
      rfl

theorem bar_not_mem_text_cell {cell : Cell} (h : ∀ f, cell = .fret f → IsFret f) :
    '|' ∉ cell.text.toList :=
  bar_not_mem_text fun f hf hm => absurd ((h f hf).2 _ hm) (by decide)

variable {notes : List String} {m : Meter} {cells : List Cell} {i t : Nat}

/-- The steps of which a string has its cell. -/
theorem lt_iff_cell_lt (hi : i < notes.length) :
    t < (cells.length + i) / notes.length ↔
      t * notes.length + (notes.length - 1 - i) < cells.length := by
  rw [← Nat.succ_le_iff, Nat.le_div_iff_mul_le (by omega), Nat.succ_mul]
  omega

theorem length_fields_rowLine (length : Nat) :
    (rowLine notes length cells i).fields.length = (cells.length + i) / notes.length := by
  rw [rowLine, List.length_map, List.length_range]

/-- Without a step begun, all rows have the completed steps. -/
theorem length_fields_rowLine_of_dvd (hi : i < notes.length) (h : notes.length ∣ cells.length)
    (length : Nat) :
    (rowLine notes length cells i).fields.length = cells.length / notes.length := by
  rw [length_fields_rowLine, Nat.add_div_of_dvd_right h, Nat.div_eq_of_lt hi, Nat.add_zero]

theorem getElem?_fields_rowLine (hi : i < notes.length) (length t : Nat) :
    (rowLine notes length cells i).fields[t]? =
      cells[t * notes.length + (notes.length - 1 - i)]?.map fun cell =>
        ⟨barAt length t, cell.text⟩ := by
  rw [rowLine, List.getElem?_map]
  by_cases ht : t < (cells.length + i) / notes.length
  · have hc := (lt_iff_cell_lt hi).1 ht
    rw [List.getElem?_range ht, Option.map_some, List.getD_eq_getElem?_getD,
      List.getElem?_eq_getElem hc]
    rfl
  · rw [List.getElem?_eq_none (by rw [List.length_range]; omega),
      List.getElem?_eq_none (Nat.le_of_not_lt (mt (lt_iff_cell_lt hi).2 ht))]
    rfl

/-- The line of a string is ruled. -/
theorem line_eq_text_rowLine (hi : i < notes.length) (length : Nat) :
    line (notes.getD (notes.length - 1 - i) "") (rowOf length notes.length cells i) =
      (rowLine notes length cells i).text ++ "\n" := by
  have hfields : ∀ t ∈ List.range ((cells.length + i) / notes.length),
      cellAt? length notes.length cells i t = some (Field.text ⟨barAt length t,
        (cells.getD (t * notes.length + (notes.length - 1 - i)) .empty).text⟩) := by
    intro t ht
    have hc := (lt_iff_cell_lt hi).1 (List.mem_range.1 ht)
    rw [cellAt?, List.getD_eq_getElem?_getD, List.getElem?_eq_getElem hc]
    rfl
  have hle : cells.length ≤ (cells.length + i) / notes.length * notes.length +
      (notes.length - 1 - i) := Nat.le_of_not_lt (mt (lt_iff_cell_lt hi).2 (Nat.lt_irrefl _))
  rw [rowOf_eq (Nat.zero_lt_of_lt hi) _ hle, List.filterMap_congr hfields, List.filterMap_eq_map',
    line, Ruled.text, steps, List.take_length, rowLine, List.map_map]
  rfl

theorem exists_cell_of_fields_rowLine (hi : i < notes.length) {length : Nat} {f : Field}
    (hf : (rowLine notes length cells i).fields[t]? = some f) :
    ∃ cell ∈ cells, f = ⟨barAt length t, cell.text⟩ := by
  rw [getElem?_fields_rowLine hi] at hf
  obtain ⟨cell, hc, rfl⟩ := Option.map_eq_some_iff.1 hf
  exact ⟨cell, List.mem_of_getElem? hc, rfl⟩

theorem aligned_rowLine (hnotes : ∀ note ∈ notes, note.length ≤ 2)
    (hcells : ∀ f, .fret f ∈ cells → IsFret f) (hi : i < notes.length) (length : Nat) :
    (rowLine notes length cells i).Aligned length := by
  have hname : (notes.getD (notes.length - 1 - i) "").length ≤ 2 := by
    rw [List.getD_eq_getElem _ _ (by omega)]
    exact hnotes _ (List.getElem_mem _)
  refine ⟨?_, fun hf => ?_, fun hf => ?_⟩
  · rw [rowLine, String.length_append, length_padded hname]
    rfl
  · obtain ⟨cell, -, rfl⟩ := exists_cell_of_fields_rowLine hi hf
    exact length_barAt _ _
  · obtain ⟨cell, hc, rfl⟩ := exists_cell_of_fields_rowLine hi hf
    exact length_text_cell fun f e => hcells f (e ▸ hc)

/-- The bar lines of a row are the marks of its steps. -/
theorem columnsOf_rowLine (hcells : ∀ f, .fret f ∈ cells → IsFret f) (hi : i < notes.length)
    {length k : Nat} (hk : k ≤ (rowLine notes length cells i).fields.length) :
    (rowLine notes length cells i).columnsOf '|' k =
      (rowLine notes length cells i).markColumns k := by
  refine columnsOf_eq_markColumns hk (fun f hf => ?_) fun f hf => ?_
  · obtain ⟨t, ht⟩ := List.mem_iff_getElem?.1 hf
    obtain ⟨cell, -, rfl⟩ := exists_cell_of_fields_rowLine hi ht
    show barAt length t = _ ∨ barAt length t = _
    rw [barAt]
    split
    · exact .inr rfl
    · exact .inl rfl
  · obtain ⟨t, ht⟩ := List.mem_iff_getElem?.1 hf
    obtain ⟨cell, hc, rfl⟩ := exists_cell_of_fields_rowLine hi ht
    exact bar_not_mem_text_cell fun f e => hcells f (e ▸ hc)

theorem aligned_countLine {labels : List String} (hlen : ∀ l ∈ labels, l.length ≤ 2)
    (hlabels : ∀ t l, labels[t]? = some l → m.label (t % m.length : Nat) = .ok l) :
    (countLine labels).Aligned m.length := by
  have hfield {t : Nat} {f : Field} (hf : (countLine labels).fields[t]? = some f) :
      ∃ l, labels[t]? = some l ∧
        f = ⟨if l = Meter.downbeat then " " else "", " " ++ Text.padded 2 l⟩ := by
    rw [countLine, List.getElem?_map] at hf
    obtain ⟨l, hl, rfl⟩ := Option.map_eq_some_iff.1 hf
    exact ⟨l, hl, rfl⟩
  refine ⟨(by decide : Clock.noteColumn.length = 3), fun hf => ?_, fun hf => ?_⟩
  · obtain ⟨l, hl, rfl⟩ := hfield hf
    simp only [Meter.eq_downbeat_iff (hlabels _ l hl), Nat.dvd_iff_mod_eq_zero]
    split <;> rfl
  · obtain ⟨l, hl, rfl⟩ := hfield hf
    rw [String.length_append, length_padded (hlen l (List.mem_of_getElem? hl))]
    rfl

theorem countLineFrom_eq {labels : List String} {step : Nat}
    (h : ∀ t l, labels[t]? = some l → m.label ((step + t) % m.length : Nat) = .ok l)
    (line : String) :
    Clock.countLineFrom m line step labels.length =
      .ok (line ++ (countLine labels).steps labels.length) := by
  induction labels generalizing step line with
  | nil => simp [Clock.countLineFrom, steps]
  | cons l labels ih =>
    have hl := h 0 l rfl
    rw [Nat.add_zero] at hl
    have hlabels (t : Nat) (l' : String) (h' : labels[t]? = some l') :
        m.label ((step + 1 + t) % m.length : Nat) = .ok l' := by
      rw [Nat.add_assoc, Nat.add_comm 1]
      exact h (t + 1) l' h'
    have hrest := ih hlabels (line ++ Clock.countField l)
    rw [List.length_cons, Clock.countLineFrom, ← Int.natCast_mod, hl]
    show Clock.countLineFrom _ _ _ _ = _
    rw [hrest, steps, steps, countLine, countLine, List.take_of_length_le (by simp),
      List.take_of_length_le (by simp), List.map_cons, List.map_cons, String.join_cons, Field.text,
      Clock.countField]
    simp only [String.append_assoc]

/-- The steps that have been completed have labels. -/
theorem exists_labels {n k : Nat} (h : m.Playable n k) :
    ∃ labels : List String, labels.length = k / n ∧
      ∀ t l, labels[t]? = some l → m.label (t % m.length : Nat) = .ok l := by
  have hlabel : ∀ t < k / n, m.Labels t := by
    intro t ht
    have hn : 0 < n := Nat.pos_of_ne_zero fun hn => by rw [hn, Nat.div_zero] at ht; omega
    exact h t ((Nat.mul_lt_mul_of_pos_right ht hn).trans_le (Nat.div_mul_le_self k n))
  refine ⟨(List.range (k / n)).map fun t => (m.label (t % m.length : Nat)).toOption.getD "",
    by rw [List.length_map, List.length_range], fun t l hl => ?_⟩
  rw [List.getElem?_map] at hl
  obtain ⟨t', ht', rfl⟩ := Option.map_eq_some_iff.1 hl
  obtain ⟨ht, rfl⟩ := List.getElem?_eq_some_iff.1 ht'
  rw [List.length_range] at ht
  rw [List.getElem_range]
  obtain ⟨l, hl⟩ := hlabel t ht
  rw [hl]
  rfl

/-- The text of a staff: its rows and its count line. -/
theorem text_drawn_of_labels {labels : List String}
    (hlen : labels.length = cells.length / notes.length)
    (hl : ∀ t l, labels[t]? = some l → m.label (t % m.length : Nat) = .ok l) :
    let rows := (List.range notes.length).map (rowLine notes m.length cells)
    (drawn notes m cells).text = .ok (String.join (rows.map fun row => row.text ++ "\n") ++ "\n" ++
      (countLine labels).text ++ "\n") := by
  intro rows
  have hcount : (drawn notes m cells).clock.text = .ok (countLine labels).text := by
    have hl₀ (t : Nat) (l : String) (ht : labels[t]? = some l) :
        m.label ((0 + t) % m.length : Nat) = .ok l := by
      rw [Nat.zero_add]
      exact hl t l ht
    show Clock.countLineFrom m _ 0 (cells.length / notes.length) = _
    rw [← hlen, countLineFrom_eq hl₀, Ruled.text, countLine, List.length_map]
  have hrows : rows.map (fun row => row.text ++ "\n") = (List.range notes.length).map fun i =>
      line (notes.getD (notes.length - 1 - i) "") (rowOf m.length notes.length cells i) := by
    rw [List.map_map]
    exact List.map_congr_left fun i hi => (line_eq_text_rowLine (List.mem_range.1 hi) _).symm
  rw [hrows]
  exact text_drawn_of_count hcount

/-- The columns of a staff after a run that nothing stopped: the bodies of a step, a cell in every
row and the label on the count line, start at one column; the bar lines of the completed steps
stand where the count line has its marks; and without a step begun all lines are equally long. -/
theorem columns_of_runAll {m : Meter} {commands : List Command} {s : Staff}
    (h : Outcome.runAll apply commands { clock := { meter := m } } = .done s)
    (hfrets : ∀ f, .stroke (.fret f) ∈ commands → IsFret f)
    (hnotes : ∀ note ∈ s.notes, note.length ≤ 2)
    (hlabels : ∀ t < s.clock.counted, ∀ l,
      s.clock.meter.label (t % s.clock.meter.length : Nat) = .ok l → l.length ≤ 2) :
    let length := s.clock.meter.length
    let cells := written 0 0 commands
    let rows := (List.range s.notes.length).map (rowLine s.notes length cells)
    ∃ labels : List String, labels.length = s.clock.counted ∧
      (∀ t l, labels[t]? = some l → s.clock.meter.label (t % length : Nat) = .ok l) ∧
      s.text = .ok (String.join (rows.map fun row => row.text ++ "\n") ++ "\n" ++
        (countLine labels).text ++ "\n") ∧
      (∀ t < s.clock.counted, (countLine labels).bodyColumn? t = some (column length t) ∧
        ∀ row ∈ rows, row.bodyColumn? t = some (column length t)) ∧
      (∀ row ∈ rows, row.columnsOf '|' s.clock.counted =
        (countLine labels).markColumns s.clock.counted) ∧
      (s.notes.length ∣ cells.length →
        ∀ row ∈ rows, row.text.length = (countLine labels).text.length) := by
  intro length cells rows
  obtain ⟨hs, hplay⟩ := eq_drawn_of_runAll h
  obtain ⟨labels, hcount, hl⟩ := exists_labels hplay
  have hcounted : s.clock.counted = cells.length / s.notes.length :=
    congrArg (fun s : Staff => s.clock.counted) hs
  have hle : ∀ l ∈ labels, l.length ≤ 2 := by
    intro l hmem
    obtain ⟨t, ht⟩ := List.mem_iff_getElem?.1 hmem
    exact hlabels t (by rw [hcounted, ← hcount]; exact (List.getElem?_eq_some_iff.1 ht).1) l
      (hl t l ht)
  have hfret : ∀ f, .fret f ∈ cells → IsFret f := fun f hf => hfrets f (mem_of_mem_written hf)
  have hrow : ∀ row ∈ rows, ∃ i < s.notes.length, row = rowLine s.notes length cells i := by
    intro row hrow
    obtain ⟨i, hi, rfl⟩ := List.mem_map.1 hrow
    exact ⟨i, List.mem_range.1 hi, rfl⟩
  have hfront := aligned_countLine hle hl
  have hsteps : (countLine labels).fields.length = s.clock.counted := by
    rw [countLine, List.length_map, hcount, hcounted]
  have hstepsRow {i : Nat} : s.clock.counted ≤ (rowLine s.notes length cells i).fields.length := by
    rw [length_fields_rowLine, hcounted]
    exact Nat.div_le_div_right (Nat.le_add_right _ _)
  refine ⟨labels, hcount.trans hcounted.symm, hl, ?_, fun t ht => ⟨?_, ?_⟩, ?_, ?_⟩
  · exact (congrArg Staff.text hs).trans (text_drawn_of_labels hcount hl)
  · exact hfront.bodyColumn?_eq (hsteps ▸ ht)
  · intro row hmem
    obtain ⟨i, hi, rfl⟩ := hrow row hmem
    exact (aligned_rowLine hnotes hfret hi length).bodyColumn?_eq (ht.trans_le hstepsRow)
  · intro row hmem
    obtain ⟨i, hi, rfl⟩ := hrow row hmem
    rw [columnsOf_rowLine hfret hi hstepsRow,
      (aligned_rowLine hnotes hfret hi length).markColumns_eq hstepsRow,
      hfront.markColumns_eq hsteps.ge]
  · intro hdvd row hmem
    obtain ⟨i, hi, rfl⟩ := hrow row hmem
    rw [(aligned_rowLine hnotes hfret hi length).length_text, hfront.length_text, hsteps, hcounted,
      length_fields_rowLine_of_dvd hi hdvd]

/-- Three steps on two strings, in a measure of two steps. -/
def threeSteps : List Command :=
  [.stroke .next, .addNote "E", .addNote "Ab", .setSignature 2 4, .setFidelity 4,
    .stroke (.fret "3"), .stroke .next, .stroke (.spreadEmpty 2), .stroke (.fret "12"),
    .stroke .next]

/-- The third step stands behind a bar line. -/
theorem columns_of_threeSteps :
    ∃ (s : Staff) (labels : List String), Outcome.runAll apply threeSteps {} = .done s ∧
      s.text = .ok "Ab |------|---\nE  |-3----|-12\n\n     1  2   1 \n" ∧
      (countLine labels).bodyColumn? 2 = some 11 ∧
      ∀ row ∈ [rowLine ["E", "Ab"] 2 (written 0 0 threeSteps) 0,
          rowLine ["E", "Ab"] 2 (written 0 0 threeSteps) 1],
        row.bodyColumn? 2 = some 11 ∧ row.columnsOf '|' 3 = (countLine labels).markColumns 3 := by
  let m : Meter := ⟨2, 4, 4, by decide, by decide, by decide⟩
  let s : Staff := ⟨["E", "Ab"], ["|------|---", "|-3----|-12"], ⟨m, 1, 3⟩, true, 1⟩
  have hrun : Outcome.runAll apply threeSteps { clock := { meter := .common } } = .done s := by
    decide +kernel
  have hfrets : ∀ f, .stroke (.fret f) ∈ threeSteps → IsFret f := by
    intro f hf
    simp only [threeSteps, List.mem_cons, reduceCtorEq, Command.stroke.injEq, Stroke.fret.injEq,
      List.not_mem_nil, or_false, false_or] at hf
    rcases hf with rfl | rfl
    · exact ⟨.inl rfl, List.all_eq_true.1 (by decide)⟩
    · exact ⟨.inr rfl, List.all_eq_true.1 (by decide)⟩
  have hm : m.length = 2 := by decide +kernel
  have hlabels : ∀ t < 3, ∀ l, m.label (t % m.length : Nat) = .ok l → l.length ≤ 2 := by
    have h₀ : m.label (0 : Nat) = .ok "1" := by decide +kernel
    have h₁ : m.label (1 : Nat) = .ok "2" := by decide +kernel
    intro t _ l hl
    rcases Nat.mod_two_eq_zero_or_one t with ht | ht
    · rw [hm, ht, h₀, Except.ok.injEq] at hl
      exact hl ▸ by decide
    · rw [hm, ht, h₁, Except.ok.injEq] at hl
      exact hl ▸ by decide
  obtain ⟨labels, -, -, -, hbody, hmarks, -⟩ :=
    columns_of_runAll hrun hfrets (by decide) hlabels
  obtain ⟨hcount, hrows⟩ := hbody 2 (by decide)
  have hcolumn : column m.length 2 = 11 := by rw [hm]; decide
  simp only [show s.clock.meter.length = 2 from hm] at hmarks hrows
  refine ⟨s, labels, hrun, by decide +kernel, hcolumn ▸ hcount, fun row hrow => ⟨?_, ?_⟩⟩
  · exact (hrows row hrow).trans (congrArg some (by decide))
  · exact hmarks row hrow

end Staff

end Tablature
