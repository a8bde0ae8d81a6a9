import Mathlib.Data.List.TakeWhile
import Tablature.Text.Fields

/-!
# Taking texts apart

* `trim_eq_self`: a text without blanks at its ends is trimmed already;
* `exists_append_trim`: only blanks are trimmed;
* `exists_append_cons_of_trim_eq`: trimming leaves the parts of a text alone;
* `fields_append_cons`, `cutAt_eq_some_iff`: a text is taken apart at its first separator;
* `not_mem_of_mem_fields`, `fields_append`: the fields of a text, and of two texts with a separator
  between them.
-/

namespace Tablature.Text

theorem not_isBlank_of_isDigit {c : Char} (h : c.isDigit = true) : isBlank c = false := by
  simp only [Char.isDigit, Bool.and_eq_true, decide_eq_true_eq, UInt32.le_iff_toNat_le] at h
  have h₁ : 48 ≤ c.toNat := h.1
  have h₂ : c.toNat ≤ 57 := h.2
  simp only [isBlank, blankRanges, List.any_cons, List.any_nil, Bool.or_false, Bool.or_eq_false_iff,
    Bool.and_eq_false_iff, decide_eq_false_iff_not]
  omega

theorem dropWhile_eq_self {p : Char → Bool} {cs : List Char} (h : ∀ c ∈ cs.head?, p c = false) :
    cs.dropWhile p = cs := by
  cases cs with
  | nil => rfl
  | cons c cs => rw [List.dropWhile_cons_of_neg (by simp [h c rfl])]

/-- A text without blanks at its ends is trimmed already. -/
theorem trim_eq_self {cs : List Char} (hhead : ∀ c ∈ cs.head?, isBlank c = false)
    (hlast : ∀ c ∈ cs.getLast?, isBlank c = false) : trim cs = cs := by
  rw [trim, dropWhile_eq_self hhead, dropWhile_eq_self (by rwa [List.head?_reverse]),
    List.reverse_reverse]

theorem trim_of_not_isBlank {cs : List Char} (h : ∀ c ∈ cs, isBlank c = false) : trim cs = cs :=
  trim_eq_self (fun c hc => h c (List.mem_of_mem_head? hc))
    fun c hc => h c (List.mem_of_getLast? hc)

theorem trim_cons_of_isBlank {c : Char} (h : isBlank c = true) (cs : List Char) :
    trim (c :: cs) = trim cs := by
  rw [trim, trim, List.dropWhile_cons_of_pos h]

theorem trim_of_isBlank {cs : List Char} (h : ∀ c ∈ cs, isBlank c = true) : trim cs = [] := by
  rw [trim, List.dropWhile_eq_nil_iff.2 h]
  rfl

theorem isBlank_of_mem_takeWhile {cs : List Char} {c : Char} (h : c ∈ cs.takeWhile isBlank) :
    isBlank c = true :=
  List.all_eq_true.1 List.all_takeWhile c h

theorem dropWhile_append_cons {p : Char → Bool} {c : Char} (hc : p c = false) (as bs : List Char) :
    (as ++ c :: bs).dropWhile p = as.dropWhile p ++ c :: bs := by
  induction as with
  | nil => rw [List.nil_append, List.dropWhile_cons_of_neg (by simp [hc])]; rfl
  | cons a as ih =>
    rw [List.cons_append, List.dropWhile_cons, List.dropWhile_cons]
    split
    · exact ih
    · rfl

/-- Blanks in front of a text are trimmed. -/
theorem trim_append_left {before : List Char} (h : ∀ c ∈ before, isBlank c = true)
    (cs : List Char) : trim (before ++ cs) = trim cs := by
  rw [trim, trim, List.dropWhile_append_of_pos h]

/-- Blanks behind a text are trimmed. -/
theorem trim_append_right {after : List Char} (h : ∀ c ∈ after, isBlank c = true)
    (cs : List Char) : trim (cs ++ after) = trim cs := by
  induction cs with
  | nil => rw [List.nil_append, ← List.append_nil after, trim_append_left h]
  | cons c cs ih =>
    cases hc : isBlank c with
    | true => rw [List.cons_append, trim_cons_of_isBlank hc, trim_cons_of_isBlank hc, ih]
    | false =>
      have hreverse : ∀ d ∈ after.reverse, isBlank d = true :=
        fun d hd => h d (List.mem_reverse.1 hd)
      rw [trim, trim, List.cons_append, List.dropWhile_cons_of_neg (by simp [hc]),
        List.dropWhile_cons_of_neg (by simp [hc]), ← List.cons_append, List.reverse_append,
        List.dropWhile_append_of_pos hreverse]

/-- Only blanks are trimmed. -/
theorem exists_append_trim (cs : List Char) :
    ∃ before after, (∀ c ∈ before, isBlank c = true) ∧ (∀ c ∈ after, isBlank c = true) ∧
      cs = before ++ (trim cs ++ after) := by
  refine ⟨cs.takeWhile isBlank, ((cs.dropWhile isBlank).reverse.takeWhile isBlank).reverse,
    fun c => isBlank_of_mem_takeWhile, fun c hc => isBlank_of_mem_takeWhile (List.mem_reverse.1 hc),
    ?_⟩
  rw [trim, ← List.reverse_append, List.takeWhile_append_dropWhile, List.reverse_reverse,
    List.takeWhile_append_dropWhile]

theorem mem_trim_iff {c : Char} (hc : isBlank c = false) {cs : List Char} :
    c ∈ trim cs ↔ c ∈ cs := by
  obtain ⟨before, after, hbefore, hafter, h⟩ := exists_append_trim cs
  have hb : c ∉ before := fun hm => Bool.false_ne_true (hc.symm.trans (hbefore c hm))
  have ha : c ∉ after := fun hm => Bool.false_ne_true (hc.symm.trans (hafter c hm))
  conv => rhs; rw [h]
  simp [hb, ha]

theorem not_isBlank_of_mem_head?_dropWhile {c : Char} {cs : List Char}
    (h : c ∈ (cs.dropWhile isBlank).head?) : isBlank c = false := by
  have hhead := List.head?_dropWhile_not isBlank cs
  rwa [Option.mem_def.1 h] at hhead

/-- What is left by trimming begins with no blank. -/
theorem not_isBlank_of_mem_head?_trim {c : Char} {cs : List Char} (h : c ∈ (trim cs).head?) :
    isBlank c = false := by
  obtain ⟨after, hafter⟩ : trim cs <+: cs.dropWhile isBlank := by
    rw [← List.reverse_suffix, trim, List.reverse_reverse]
    exact List.dropWhile_suffix isBlank
  have hmem : c ∈ (cs.dropWhile isBlank).head? := by
    rw [← hafter, List.head?_append, Option.mem_def.1 h]
    rfl
  exact not_isBlank_of_mem_head?_dropWhile hmem

/-- What is left by trimming ends with no blank. -/
theorem not_isBlank_of_mem_getLast?_trim {c : Char} {cs : List Char}
    (h : c ∈ (trim cs).getLast?) : isBlank c = false := by
  rw [trim, List.getLast?_reverse] at h
  exact not_isBlank_of_mem_head?_dropWhile h

theorem trim_trim (cs : List Char) : trim (trim cs) = trim cs := by
  obtain ⟨before, after, hbefore, hafter, h⟩ := exists_append_trim cs
  conv => rhs; rw [h, trim_append_left hbefore, trim_append_right hafter]

/-- A character that is no blank stays where it is, and so do the parts of the text on its two
sides, except for blanks at their ends. -/
theorem exists_trim_append_cons {c : Char} (hc : isBlank c = false) (as bs : List Char) :
    ∃ as' bs', trim (as ++ c :: bs) = as' ++ c :: bs' ∧ trim as' = trim as ∧
      trim bs' = trim bs := by
  refine ⟨as.dropWhile isBlank, (bs.reverse.dropWhile isBlank).reverse, ?_, ?_, ?_⟩
  · rw [trim, dropWhile_append_cons hc, List.reverse_append, List.reverse_cons, List.append_assoc,
      List.singleton_append, dropWhile_append_cons hc]
    simp
  · conv => rhs; rw [← List.takeWhile_append_dropWhile (p := isBlank) (l := as)]
    rw [trim_append_left fun c => isBlank_of_mem_takeWhile]
  · have hbs : bs =
        (bs.reverse.dropWhile isBlank).reverse ++ (bs.reverse.takeWhile isBlank).reverse := by
      rw [← List.reverse_append, List.takeWhile_append_dropWhile, List.reverse_reverse]
    conv => rhs; rw [hbs]
    exact (trim_append_right (fun c hc => isBlank_of_mem_takeWhile (List.mem_reverse.1 hc)) _).symm

/-- Two texts that differ in blanks at their ends have the same parts on the two sides of a
character, up to blanks at the ends of the parts. -/
theorem exists_append_cons_of_trim_eq {c : Char} (hc : isBlank c = false) {as bs cs : List Char}
    (h : trim cs = trim (as ++ c :: bs)) :
    ∃ as' bs', cs = as' ++ c :: bs' ∧ trim as' = trim as ∧ trim bs' = trim bs := by
  obtain ⟨as', bs', htrim, has, hbs⟩ := exists_trim_append_cons hc as bs
  obtain ⟨before, after, hbefore, hafter, hcs⟩ := exists_append_trim cs
  refine ⟨before ++ as', bs' ++ after, ?_, ?_, ?_⟩
  · rw [hcs, h, htrim]
    simp
  · rw [trim_append_left hbefore, has]
  · rw [trim_append_right hafter, hbs]

/-! ## Separators -/

variable {separator : Char} {cs : List Char}

theorem fields_of_not_mem (h : separator ∉ cs) : fields separator cs = [cs] := by
  induction cs with
  | nil => rfl
  | cons c cs ih =>
    rw [List.mem_cons, not_or] at h
    rw [fields, if_neg (Ne.symm h.1), ih h.2]

/-- The first field of a text goes up to the first separator. -/
theorem fields_append_cons (h : separator ∉ cs) (rest : List Char) :
    fields separator (cs ++ separator :: rest) = cs :: fields separator rest := by
  induction cs with
  | nil => rw [List.nil_append, fields, if_pos rfl]
  | cons c cs ih =>
    rw [List.mem_cons, not_or] at h
    rw [List.cons_append, fields, if_neg (Ne.symm h.1), ih h.2]

/-- A field holds no separator. -/
theorem not_mem_of_mem_fields {f : List Char} (h : f ∈ fields separator cs) : separator ∉ f := by
  induction cs generalizing f with
  | nil =>
    rw [fields, List.mem_singleton] at h
    exact h ▸ List.not_mem_nil
  | cons c cs ih =>
    obtain ⟨g, gs, hfields⟩ := List.exists_cons_of_ne_nil (fields_ne_nil separator cs)
    rw [hfields] at ih
    obtain ⟨hg, hgs⟩ := List.forall_mem_cons.1 (fun f => @ih f)
    by_cases hc : c = separator
    · rw [fields, if_pos hc, hfields] at h
      rcases List.mem_cons.1 h with rfl | h
      · exact List.not_mem_nil
      · exact ih h
    · rw [fields, if_neg hc, hfields] at h
      rcases List.mem_cons.1 h with rfl | h
      · exact List.not_mem_cons_of_ne_of_not_mem (Ne.symm hc) hg
      · exact hgs f h

theorem bne_of_mem (h : separator ∉ cs) : ∀ c ∈ cs, (c != separator) = true :=
  fun _ hc => bne_iff_ne.2 fun e => h (e ▸ hc)

theorem takeWhile_separator (h : separator ∉ cs) (rest : List Char) :
    (cs ++ separator :: rest).takeWhile (· != separator) = cs := by
  rw [List.takeWhile_append_of_pos (bne_of_mem h), List.takeWhile_cons_of_neg (by simp),
    List.append_nil]

theorem dropWhile_separator (h : separator ∉ cs) (rest : List Char) :
    (cs ++ separator :: rest).dropWhile (· != separator) = separator :: rest := by
  rw [List.dropWhile_append_of_pos (bne_of_mem h), List.dropWhile_cons_of_neg (by simp)]

theorem cutAt_append_cons (h : separator ∉ cs) (rest : List Char) :
    cutAt separator (cs ++ separator :: rest) = some (cs, rest) := by
  rw [cutAt, dropWhile_separator h, takeWhile_separator h]

theorem cutAt_eq_some_iff {before after : List Char} :
    cutAt separator cs = some (before, after) ↔
      separator ∉ before ∧ cs = before ++ separator :: after := by
  constructor
  · intro h
    unfold cutAt at h
    split at h
    · cases h
    · rename_i c rest hdrop
      obtain ⟨rfl, rfl⟩ := Prod.mk.inj (Option.some.inj h)
      obtain rfl : c = separator := by
        have hhead := List.head?_dropWhile_not (· != separator) cs
        rw [hdrop] at hhead
        simpa using hhead
      refine ⟨fun hm => ?_, ?_⟩
      · simpa using List.all_eq_true.1 List.all_takeWhile c hm
      · rw [← hdrop, List.takeWhile_append_dropWhile]
  · rintro ⟨hbefore, rfl⟩
    exact cutAt_append_cons hbefore after

theorem cutAt_of_not_mem (h : separator ∉ cs) : cutAt separator cs = none := by
  refine Option.eq_none_iff_forall_ne_some.2 fun (before, after) hcut => h ?_
  rw [(cutAt_eq_some_iff.1 hcut).2]
  exact List.mem_append_right before List.mem_cons_self

/-- The fields of two texts with a separator between them. -/
theorem fields_append (as bs : List Char) :
    fields separator (as ++ separator :: bs) = fields separator as ++ fields separator bs := by
  induction as with
  | nil => simp [fields]
  | cons a as ih =>
    rw [List.cons_append, fields, fields, ih]
    split
    · rfl
    · obtain ⟨f, fs, h⟩ := List.exists_cons_of_ne_nil (fields_ne_nil separator as)
      rw [h]
      rfl

end Tablature.Text
