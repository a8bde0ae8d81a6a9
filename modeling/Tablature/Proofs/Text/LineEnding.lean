import Tablature.Proofs.Text.Parts
import Tablature.Text.LineEnding

/-!
# Texts with unified line endings

Line feeds for all line endings change nothing about where a text is taken apart, as long as neither
line feeds nor carriage returns are looked for. The parts are the same, each with line feeds for its
own line endings.

* `unifyLines_append`: two texts may be unified apart, unless a line ending is split between them;
* `unifyLines_eq_iff`: a text on one line is unified already, and nothing else becomes this text;
* `takeWhile_unifyLines`, `trim_unifyLines`, `fields_unifyLines`, `cutAt_unifyLines`: the parts of
  a unified text.
-/

namespace Tablature.Text

/-- A text with line feeds for all line endings, as it is read from a file. -/
def unified (text : String) : String := String.ofList (unifyLines text.toList)

/-- Induction along a text, with both characters of a line ending at once. -/
theorem unifyLines_induction {motive : List Char → Prop} (nil : motive [])
    (crlf : ∀ cs, motive cs → motive ('\r' :: '\n' :: cs))
    (cons : ∀ c cs, (∀ r, c = '\r' → cs = '\n' :: r → False) → motive cs → motive (c :: cs))
    (cs : List Char) : motive cs :=
  unifyLinesOnto.induct (fun _ cs => motive cs) (fun _ => nil) (fun _ => crlf) (fun _ => cons) [] cs

theorem unifyLines_cons_of_ne {c : Char} (hc : c ≠ '\r') (cs : List Char) :
    unifyLines (c :: cs) = c :: unifyLines cs := by
  rw [unifyLines_cons fun _ h => absurd h hc, if_neg hc]

/-- Two texts may be unified apart, unless a line ending is split between them. -/
theorem unifyLines_append {as bs : List Char}
    (h : as.getLast? = some '\r' → bs.head? ≠ some '\n') :
    unifyLines (as ++ bs) = unifyLines as ++ unifyLines bs := by
  induction as using unifyLines_induction with
  | nil => rfl
  | crlf as ih =>
    have ih := ih fun e => h (by rw [List.getLast?_cons_cons, List.getLast?_cons, e]; rfl)
    rw [List.cons_append, List.cons_append, unifyLines_crlf, unifyLines_crlf, ih, List.cons_append]
  | cons c as hc ih =>
    have ih := ih fun e => h (by rw [List.getLast?_cons, e]; rfl)
    have hc' : ∀ r, c = '\r' → as ++ bs = '\n' :: r → False := by
      intro r hcr e
      cases as with
      | nil => exact h (congrArg some hcr) (congrArg List.head? e)
      | cons a as => exact hc as hcr (congrArg (· :: as) (List.cons.inj e).1)
    rw [List.cons_append, unifyLines_cons hc', unifyLines_cons hc, ih, List.cons_append]

/-- Any other character stays where it is between the texts on its two sides. -/
theorem unifyLines_append_cons {c : Char} (hcr : c ≠ '\r') (hlf : c ≠ '\n') (as bs : List Char) :
    unifyLines (as ++ c :: bs) = unifyLines as ++ c :: unifyLines bs := by
  have hhead : (c :: bs).head? ≠ some '\n' := fun h => hlf (Option.some.inj h)
  rw [unifyLines_append fun _ => hhead, unifyLines_cons_of_ne hcr]

theorem head?_unifyLines {cs : List Char} (h : cs.head? ≠ some '\r') :
    (unifyLines cs).head? = cs.head? := by
  cases cs with
  | nil => rfl
  | cons c cs =>
    rw [unifyLines_cons_of_ne fun hc => h (congrArg some hc)]
    rfl

theorem getLast?_unifyLines (cs : List Char) :
    (unifyLines cs).getLast? = cs.getLast?.map fun c => if c = '\r' then '\n' else c := by
  induction cs using unifyLines_induction with
  | nil => rfl
  | crlf cs ih =>
    rw [unifyLines_crlf, List.getLast?_cons_cons, List.getLast?_cons, List.getLast?_cons, ih]
    cases cs.getLast? <;> rfl
  | cons c cs hc ih =>
    rw [unifyLines_cons hc, List.getLast?_cons, List.getLast?_cons, ih]
    cases cs.getLast? <;> rfl

theorem getLast?_unifyLines_eq_some_iff {c : Char} (hcr : c ≠ '\r') (hlf : c ≠ '\n')
    {cs : List Char} : (unifyLines cs).getLast? = some c ↔ cs.getLast? = some c := by
  rw [getLast?_unifyLines, Option.map_eq_some_iff]
  constructor
  · rintro ⟨d, hd, he⟩
    split at he
    · exact absurd he.symm hlf
    · rw [hd, he]
  · exact fun h => ⟨c, h, if_neg hcr⟩

theorem mem_unifyLines_iff {c : Char} (hcr : c ≠ '\r') (hlf : c ≠ '\n') {cs : List Char} :
    c ∈ unifyLines cs ↔ c ∈ cs := by
  induction cs using unifyLines_induction with
  | nil => exact Iff.rfl
  | crlf cs ih => simp [unifyLines_crlf, hcr, hlf, ih]
  | cons d cs hd ih =>
    rw [unifyLines_cons hd, List.mem_cons, List.mem_cons, ih]
    by_cases h : d = '\r' <;> simp [h, hcr, hlf]

theorem unifyLines_eq_self {cs : List Char} (h : '\r' ∉ cs) : unifyLines cs = cs := by
  induction cs with
  | nil => rfl
  | cons c cs ih =>
    rw [List.mem_cons, not_or] at h
    rw [unifyLines_cons_of_ne (Ne.symm h.1), ih h.2]

theorem lf_mem_unifyLines {cs : List Char} (h : '\r' ∈ cs) : '\n' ∈ unifyLines cs := by
  induction cs using unifyLines_induction with
  | nil => exact absurd h List.not_mem_nil
  | crlf cs ih =>
    rw [unifyLines_crlf]
    exact List.mem_cons_self
  | cons c cs hc ih =>
    rw [unifyLines_cons hc]
    rcases List.mem_cons.1 h with rfl | h
    · exact List.mem_cons_self
    · exact List.mem_cons_of_mem _ (ih h)

/-- A text on one line. -/
def IsLine (line : List Char) : Prop := '\r' ∉ line ∧ '\n' ∉ line

instance (line : List Char) : Decidable (IsLine line) := inferInstanceAs (Decidable (_ ∧ _))

/-- A text on one line is unified already, and nothing else becomes this text. -/
theorem unifyLines_eq_iff {cs line : List Char} (h : IsLine line) :
    unifyLines cs = line ↔ cs = line := by
  constructor
  · intro hcs
    have hcr : '\r' ∉ cs := fun hm => h.2 (hcs ▸ lf_mem_unifyLines hm)
    rw [← hcs, unifyLines_eq_self hcr]
  · rintro rfl
    exact unifyLines_eq_self h.1

/-! ## The parts of a unified text -/

theorem takeWhile_unifyLines {p : Char → Bool} (hcr : p '\r' = false) (hlf : p '\n' = false)
    (cs : List Char) : (unifyLines cs).takeWhile p = cs.takeWhile p := by
  induction cs using unifyLines_induction with
  | nil => rfl
  | crlf cs ih => simp [unifyLines_crlf, hcr, hlf]
  | cons c cs hc ih =>
    rw [unifyLines_cons hc]
    by_cases h : c = '\r'
    · simp [h, hcr, hlf]
    · rw [if_neg h, List.takeWhile_cons, List.takeWhile_cons, ih]

theorem isBlank_of_mem_unifyLines {cs : List Char} (h : ∀ c ∈ cs, isBlank c = true) :
    ∀ c ∈ unifyLines cs, isBlank c = true := by
  intro c hc
  by_cases hlf : c = '\n'
  · subst hlf
    decide
  · by_cases hcr : c = '\r'
    · subst hcr
      decide
    · exact h c ((mem_unifyLines_iff hcr hlf).1 hc)

/-- Line endings are blanks, and trimmed as such. -/
theorem trim_unifyLines (cs : List Char) : trim (unifyLines cs) = unifyLines (trim cs) := by
  obtain ⟨before, after, hbefore, hafter, h⟩ := exists_append_trim cs
  by_cases hnil : trim cs = []
  · have hblank : ∀ c ∈ cs, isBlank c = true := by
      rw [h, hnil]
      exact List.forall_mem_append.2 ⟨hbefore, hafter⟩
    rw [hnil, trim_of_isBlank (isBlank_of_mem_unifyLines hblank)]
    rfl
  · -- No line ending is split at the ends of what is left, because they are no blanks.
    have hhead (c : Char) (hc : isBlank c = true) : (trim cs).head? ≠ some c := fun e =>
      Bool.false_ne_true ((not_isBlank_of_mem_head?_trim e).symm.trans hc)
    have hlast : (trim cs).getLast? ≠ some '\r' := fun e =>
      absurd (not_isBlank_of_mem_getLast?_trim e) (by decide)
    have hfront : (trim cs ++ after).head? ≠ some '\n' := by
      obtain ⟨c, rest, htrim⟩ := List.exists_cons_of_ne_nil hnil
      have hc := hhead '\n' (by decide)
      rw [htrim] at hc ⊢
      exact hc
    have hunified : unifyLines cs =
        unifyLines before ++ (unifyLines (trim cs) ++ unifyLines after) := by
      rw [← unifyLines_append fun e => absurd e hlast, ← unifyLines_append fun _ => hfront, ← h]
    rw [hunified, trim_append_left (isBlank_of_mem_unifyLines hbefore),
      trim_append_right (isBlank_of_mem_unifyLines hafter)]
    refine trim_eq_self ?_ ?_
    · rw [head?_unifyLines (hhead '\r' (by decide))]
      exact fun c => not_isBlank_of_mem_head?_trim
    · intro c hc
      rw [getLast?_unifyLines] at hc
      obtain ⟨d, hd, rfl⟩ := Option.map_eq_some_iff.1 hc
      rw [if_neg fun e : d = '\r' => hlast (e ▸ hd)]
      exact not_isBlank_of_mem_getLast?_trim hd

/-- A text on one line is what is left of a text exactly when it is left of the unified text. -/
theorem trim_unifyLines_eq_iff {cs line : List Char} (h : IsLine line) :
    trim (unifyLines cs) = line ↔ trim cs = line := by
  rw [trim_unifyLines, unifyLines_eq_iff h]

variable {separator : Char}

theorem fields_unifyLines (hcr : separator ≠ '\r') (hlf : separator ≠ '\n') (cs : List Char) :
    fields separator (unifyLines cs) = (fields separator cs).map unifyLines := by
  induction h : cs.length using Nat.strongRecOn generalizing cs with
  | ind n ih =>
    by_cases hm : separator ∈ cs
    · obtain ⟨as, bs, rfl, has⟩ := List.eq_append_cons_of_mem hm
      have hunified : separator ∉ unifyLines as := mt (mem_unifyLines_iff hcr hlf).1 has
      have hlength : bs.length < n := by
        rw [← h, List.length_append, List.length_cons]
        omega
      rw [unifyLines_append_cons hcr hlf, fields_append_cons hunified, fields_append_cons has,
        ih _ hlength bs rfl, List.map_cons]
    · rw [fields_of_not_mem hm, fields_of_not_mem (mt (mem_unifyLines_iff hcr hlf).1 hm),
        List.map_singleton]

theorem cutAt_unifyLines (hcr : separator ≠ '\r') (hlf : separator ≠ '\n') (cs : List Char) :
    cutAt separator (unifyLines cs) =
      (cutAt separator cs).map (Prod.map unifyLines unifyLines) := by
  by_cases hm : separator ∈ cs
  · obtain ⟨as, bs, rfl, has⟩ := List.eq_append_cons_of_mem hm
    have hunified : separator ∉ unifyLines as := mt (mem_unifyLines_iff hcr hlf).1 has
    rw [unifyLines_append_cons hcr hlf, cutAt_append_cons hunified, cutAt_append_cons has]
    rfl
  · rw [cutAt_of_not_mem hm, cutAt_of_not_mem (mt (mem_unifyLines_iff hcr hlf).1 hm)]
    rfl

end Tablature.Text
