import Tablature.Proofs.Text.LineEnding
import Tablature.Proofs.Token.Grammar

/-!
# Sources with unified line endings

Outside of a block a line ending is a gap, whichever it is. With line feeds for all line endings a
source has therefore the same lexemes as before, apart from those of its gaps; only in the blocks
there are line feeds for the line endings as well.

* `first_unifyLines`: the first lexeme of a unified text;
* `significant_unifyLines`: all lexemes that are not blank.
-/

namespace Tablature.Lexeme

open Text

variable {c : Char} {cs : List Char}

/-! ## One lexeme -/

/-- The lexeme, with line feeds for all line endings if it is a block. -/
def unified (x : Lexeme) : Lexeme :=
  if x.head = '[' then ⟨x.head, unifyLines x.body⟩ else x

/-- Only in blocks there are line endings. -/
theorem isLine_bodyOf (hc : c ≠ '[') (cs : List Char) : IsLine (bodyOf c cs) := by
  have hline {p : Char → Bool} (hcr : p '\r' = false) (hlf : p '\n' = false) (ds : List Char) :
      IsLine (ds.takeWhile p) :=
    ⟨fun h => by simpa [hcr] using List.mem_takeWhile_imp h,
      fun h => by simpa [hlf] using List.mem_takeWhile_imp h⟩
  unfold bodyOf
  split
  · exact hline rfl rfl _
  · split
    · exact hline rfl rfl _
    · rw [if_neg (by simp [hc])]
      exact ⟨List.not_mem_nil, List.not_mem_nil⟩

/-- Unifying line endings adds nothing to any other lexeme and takes nothing away from it. -/
theorem bodyOf_unifyLines_of_ne (hc : c ≠ '[') (cs : List Char) :
    bodyOf c (unifyLines cs) = bodyOf c cs := by
  unfold bodyOf
  split
  · rw [← List.take_takeWhile, ← List.take_takeWhile, takeWhile_unifyLines rfl rfl]
  · split
    · exact takeWhile_unifyLines rfl rfl cs
    · rw [if_neg (by simp [hc]), if_neg (by simp [hc])]

theorem bodyOf_unifyLines (c : Char) (cs : List Char) :
    bodyOf c (unifyLines cs) = unifyLines (bodyOf c cs) := by
  by_cases hc : c = '['
  · subst hc
    have hclosing (ds : List Char) : ']' ∈ unifyLines ds ↔ ']' ∈ ds :=
      mem_unifyLines_iff (by decide) (by decide)
    by_cases hm : ']' ∈ cs
    · obtain ⟨inner, rest, rfl, hinner⟩ := List.eq_append_cons_of_mem hm
      rw [unifyLines_append_cons (by decide) (by decide), Sign.bodyOf_block hinner,
        Sign.bodyOf_block (mt (hclosing inner).1 hinner),
        unifyLines_append_cons (by decide) (by decide)]
      rfl
    · rw [bodyOf_bracket_of_not_mem hm, bodyOf_bracket_of_not_mem (mt (hclosing cs).1 hm)]
  · rw [bodyOf_unifyLines_of_ne hc, unifyLines_eq_self (isLine_bodyOf hc cs).1]

theorem first_unifyLines (c : Char) (cs : List Char) :
    first c (unifyLines cs) = (first c cs).unified := by
  unfold unified
  split
  · exact congrArg (Lexeme.mk c) (bodyOf_unifyLines c cs)
  · rename_i hc
    exact congrArg (Lexeme.mk c) (bodyOf_unifyLines_of_ne hc cs)

/-- No line ending is split at the end of a lexeme. -/
theorem rest_eq_nil_of_cr (h : (bodyOf c cs).getLast? = some '\r') : rest c cs = [] := by
  by_cases hc : c = '['
  · subst hc
    rcases bodyOf_bracket_cases cs with ⟨hb, -⟩ | ⟨inner, hb, -⟩
    · have hall := bodyOf_append_rest '[' cs
      rw [hb] at hall
      exact List.append_right_eq_self.1 hall
    · rw [hb, List.getLast?_concat] at h
      exact absurd (Option.some.inj h) (by decide)
  · exact absurd (List.mem_of_getLast? h) (isLine_bodyOf hc cs).1

theorem rest_unifyLines (c : Char) (cs : List Char) :
    rest c (unifyLines cs) = unifyLines (rest c cs) := by
  have hall := bodyOf_append_rest c (unifyLines cs)
  have hsplit : (bodyOf c cs).getLast? = some '\r' → (rest c cs).head? ≠ some '\n' := fun h => by
    rw [rest_eq_nil_of_cr h]
    nofun
  rw [bodyOf_unifyLines] at hall
  refine List.append_cancel_left (hall.trans ?_)
  rw [← unifyLines_append hsplit, bodyOf_append_rest]

/-! ## All lexemes -/

/-- The lexemes of a text that mean something or have a fault. -/
def significant (cs : List Char) : List Lexeme := (lexemes cs).filter (·.reading ≠ .blank)

theorem significant_cons_of_le (h : c ≤ ' ') (cs : List Char) :
    significant (c :: cs) = significant cs := by
  rw [significant, lexemes_cons_of_le h,
    List.filter_cons_of_neg (by simp [reading_blankLexeme h])]
  rfl

theorem significant_cons_of_lt (h : ' ' < c) (cs : List Char) :
    significant (c :: cs) = first c cs :: significant (rest c cs) := by
  have hblank : (first c cs).reading ≠ .blank := fun hb =>
    Char.not_lt.2 (le_of_reading_eq_blank hb) h
  rw [significant, lexemes_cons, List.filter_cons_of_pos (by simpa using hblank)]
  rfl

/-- What stands for a blank in a unified text, if anything does, is a blank. -/
theorem significant_unifyLines_cons_of_le (h : c ≤ ' ') (cs : List Char) :
    significant (unifyLines (c :: cs)) = significant (unifyLines cs) := by
  by_cases hcrlf : ∃ r, c = '\r' ∧ cs = '\n' :: r
  · obtain ⟨r, rfl, rfl⟩ := hcrlf
    rw [unifyLines_crlf, unifyLines_cons_of_ne (by decide)]
  · rw [unifyLines_cons fun r hc hcs => hcrlf ⟨r, hc, hcs⟩]
    refine significant_cons_of_le ?_ _
    split
    · decide
    · exact h

/-- A unified text has the same significant lexemes, with unified line endings. -/
theorem significant_unifyLines (cs : List Char) :
    significant (unifyLines cs) = (significant cs).map unified := by
  -- The induction is on the lexemes of the text as it stands, of which each takes the same part of
  -- the unified text, apart from a carriage return in front of a line feed, which takes nothing.
  induction cs using induction_rest with
  | nil => rw [unifyLines_nil, significant, lexemes_nil]; rfl
  | cons c cs ih =>
    by_cases hc : c ≤ ' '
    · rw [rest_of_le hc] at ih
      rw [significant_unifyLines_cons_of_le hc, significant_cons_of_le hc, ih]
    · have hlt := Char.not_le.1 hc
      have hcr : c ≠ '\r' := fun e => hc (e ▸ by decide)
      rw [unifyLines_cons_of_ne hcr, significant_cons_of_lt hlt, significant_cons_of_lt hlt,
        first_unifyLines, rest_unifyLines, ih, List.map_cons]

/-! ## The meaning of a lexeme -/

theorem unified_of_ne {x : Lexeme} (hx : x.head ≠ '[') : x.unified = x := if_neg hx

/-- A block that is closed still is, and carries its text with unified line endings. -/
theorem reading_unified_cases {x : Lexeme} (hx : x.head = '[') :
    (∃ text, x.reading = .token .options (some (.options text)) ∧
        x.unified.reading = .token .options (some (.options (Text.unified text)))) ∨
      x.reading = .fault .unterminated ∧ x.unified.reading = .fault .unterminated := by
  obtain ⟨c, body⟩ := x
  obtain rfl : c = '[' := hx
  show (∃ text, blockReading body = .token .options (some (.options text)) ∧
      blockReading (unifyLines body) = .token .options (some (.options (Text.unified text)))) ∨
    blockReading body = .fault .unterminated ∧
      blockReading (unifyLines body) = .fault .unterminated
  by_cases h : body.getLast? = some ']'
  · obtain ⟨inner, rfl⟩ := List.getLast?_eq_some_iff.1 h
    refine .inl ⟨String.ofList inner, by simp [blockReading], ?_⟩
    rw [unifyLines_append_cons (by decide) (by decide)]
    simp [blockReading, unifyLines_nil, Text.unified]
  · have h' := mt (getLast?_unifyLines_eq_some_iff (by decide) (by decide)).1 h
    exact .inr ⟨if_neg h, if_neg h'⟩

theorem isFaulty_unified_iff {x : Lexeme} : x.unified.IsFaulty ↔ x.IsFaulty := by
  by_cases hx : x.head = '['
  · unfold IsFaulty
    rcases reading_unified_cases hx with ⟨text, h, h'⟩ | ⟨h, h'⟩
    · simp [h, h']
    · simp [h, h']
  · rw [unified_of_ne hx]

/-- The faulty lexemes of a text are significant. -/
theorem forall_not_isFaulty_iff :
    (∀ x ∈ lexemes cs, ¬ x.IsFaulty) ↔ ∀ x ∈ significant cs, ¬ x.IsFaulty := by
  refine ⟨fun h x hx => h x (List.mem_of_mem_filter hx), fun h x hx hf => h x ?_ hf⟩
  obtain ⟨f, hf⟩ := hf
  exact List.mem_filter.2 ⟨hx, by simp [hf]⟩

/-- A text has no faulty lexemes with unified line endings exactly when it has none as it stands. -/
theorem forall_not_isFaulty_unifyLines_iff :
    (∀ x ∈ lexemes (unifyLines cs), ¬ x.IsFaulty) ↔ ∀ x ∈ lexemes cs, ¬ x.IsFaulty := by
  rw [forall_not_isFaulty_iff, forall_not_isFaulty_iff, significant_unifyLines, List.forall_mem_map]
  simp only [isFaulty_unified_iff]

/-- Only brackets open a block. -/
theorem kind_ne_options {x : Lexeme} {kind : Token.Kind} {literal : Option Token.Literal}
    (hx : x.head ≠ '[') (h : x.reading = .token kind literal) : kind ≠ .options := by
  rintro rfl
  simp only [reading, spreadReading, numberReading, hx, ↓reduceIte] at h
  repeat' split at h
  all_goals cases h

end Tablature.Lexeme
