import Mathlib.Logic.Function.Iterate
import Tablature.Proofs.Token.LineEnding

/-!
# A cursor on a source

The lexemes of a source can also be found by a cursor that goes over it one character at a time. The
cursor sees a sentinel where the source has ended, but the source may hold that character too, and
the cursor moves on without being asked whether there is a character to move over. It stops at the
end of the source nevertheless.

* `skipDigits_eq`, `closeBlock_skipBlock`: how far a cursor goes over digits, and over a block;
* `consume_eq`: a cursor goes over one lexeme;
* `Faces.consume`: what a cursor keeps from one lexeme to the next;
* `after_reaches_end`: the way of a cursor, from the front of a source to its end.
-/

namespace Tablature

open Lexeme

/-- A text has no more lexemes than characters. -/
theorem Lexeme.length_lexemes_le (source : List Char) :
    (lexemes source).length ≤ source.length := by
  conv_rhs => rw [← flatMap_text_lexemes source]
  induction lexemes source with
  | nil => exact le_rfl
  | cons x xs ih =>
    rw [List.flatMap_cons, List.length_append, text, List.length_cons, List.length_cons]
    omega

/-- A place in a source: where the lexeme begins that has been read last, how far the source has
been read, and the line on which that is. -/
structure Cursor where
  start : Nat := 0
  current : Nat := 0
  line : Nat := 1
deriving DecidableEq, Repr

namespace Cursor

/-- What a cursor sees behind the last character. -/
def sentinel : Char := '\x00'

/-- The cursor has come to the end of the source. -/
def AtEnd (source : List Char) (k : Cursor) : Prop := source.length ≤ k.current

instance (source : List Char) (k : Cursor) : Decidable (k.AtEnd source) :=
  inferInstanceAs (Decidable (_ ≤ _))

/-- The character that the cursor sees. -/
def peek (source : List Char) (k : Cursor) : Char := source[k.current]?.getD sentinel

/-- Begins a lexeme where the cursor is. -/
def mark (k : Cursor) : Cursor := { k with start := k.current }

/-- Moves over a character, whether there is one or not. -/
def advance (k : Cursor) : Cursor := { k with current := k.current + 1 }

/-- Counts a line feed that the cursor sees. -/
def countLine (source : List Char) (k : Cursor) : Cursor :=
  if k.peek source = '\n' then { k with line := k.line + 1 } else k

/-- The text from the place where the cursor started to where it is. -/
def piece (source : List Char) (k : Cursor) : List Char := (source.take k.current).drop k.start

variable {source cs : List Char} {c : Char} {k : Cursor}

theorem current_countLine (source : List Char) (k : Cursor) :
    (k.countLine source).current = k.current := by
  unfold countLine
  split <;> rfl

theorem peek_of_cons (h : source.drop k.current = c :: cs) : k.peek source = c := by
  rw [peek, ← List.head?_drop, h]
  rfl

theorem peek_of_nil (h : source.drop k.current = []) : k.peek source = sentinel := by
  rw [peek, ← List.head?_drop, h]
  rfl

theorem atEnd_iff : k.AtEnd source ↔ source.drop k.current = [] := List.drop_eq_nil_iff.symm

/-- Where something else than the sentinel is seen, there is a character. -/
theorem lt_length_of_peek_ne (h : k.peek source ≠ sentinel) : k.current < source.length := by
  by_contra hend
  exact h (peek_of_nil (atEnd_iff.1 (Nat.not_lt.1 hend)))

/-! ## Moving over one lexeme -/

/-- Moves over digits. -/
def skipDigits (source : List Char) (k : Cursor) : Cursor :=
  if (k.peek source).isDigit then skipDigits source k.advance else k
termination_by source.length - k.current
decreasing_by
  -- the sentinel is no digit
  have hlt : k.current < source.length := lt_length_of_peek_ne fun e =>
    absurd (e ▸ ‹(k.peek source).isDigit = true›) (by decide)
  simp only [advance]
  omega

/-- Moves up to a closing bracket, or to the end of the source. -/
def skipBlock (source : List Char) (k : Cursor) : Cursor :=
  if k.peek source ≠ ']' ∧ ¬ k.AtEnd source then skipBlock source (k.countLine source).advance
  else k
termination_by source.length - k.current
decreasing_by
  have hlt : k.current < source.length := Nat.not_le.1 ‹_ ∧ _›.2
  simp only [advance, current_countLine]
  omega

/-- Moves over a closing bracket, if it is one that the cursor has come to in a block. -/
def closeBlock (source : List Char) (k : Cursor) : Cursor :=
  if k.AtEnd source then k else k.advance

/-- Moves over a modifier, if there is one. -/
def skipModifier (source : List Char) (k : Cursor) : Cursor :=
  if isModifier (k.peek source) then k.advance else k

/-- Moves over what belongs to the character `c`, behind which the cursor is. -/
def skipBody (source : List Char) (c : Char) (k : Cursor) : Cursor :=
  if c = '.' ∨ c = ',' then k
  else if isNoteName c then k.skipModifier source
  else if isSpread c then k.skipDigits source
  else if c = '\n' then { k with line := k.line + 1 }
  else if c ≤ ' ' then k
  else if c = '[' then (k.skipBlock source).closeBlock source
  else if c.isDigit then k.skipDigits source
  else k

/-- Moves over one lexeme. -/
def consume (source : List Char) (k : Cursor) : Cursor :=
  k.mark.advance.skipBody source (k.peek source)

/-- The cursor after a number of lexemes. -/
def after (source : List Char) (lexemes : Nat) : Cursor := (consume source)^[lexemes] {}

/-! ## How far a cursor goes -/

/-- The cursor behind a text that it was in front of. -/
def past (k : Cursor) (text : List Char) : Cursor :=
  { k with current := k.current + text.length, line := k.line + text.count '\n' }

theorem past_append (k : Cursor) (as bs : List Char) : (k.past as).past bs = k.past (as ++ bs) := by
  simp only [past, List.length_append, List.count_append, Nat.add_assoc]

section

variable {as bs : List Char} (h : source.drop k.current = as ++ bs)
include h

/-- What a cursor is in front of once it has gone over a text. -/
theorem drop_past : source.drop (k.past as).current = bs := by
  rw [past, ← List.drop_drop, h, List.drop_left]

/-- What a cursor is behind once it has gone over a text. -/
theorem take_past : source.take (k.past as).current = source.take k.current ++ as := by
  rw [past, List.take_add, h, List.take_left]

theorem current_past_le (hle : k.current ≤ source.length) :
    (k.past as).current ≤ source.length := by
  have hlength := congrArg List.length h
  rw [List.length_drop, List.length_append] at hlength
  show k.current + as.length ≤ source.length
  omega

end

theorem advance_eq_past (hc : c ≠ '\n') : k.advance = k.past [c] := by
  rw [past, List.count_singleton, if_neg (by simpa using hc)]
  rfl

theorem advance_countLine (h : source.drop k.current = c :: cs) :
    (k.countLine source).advance = k.past [c] := by
  rw [countLine, peek_of_cons h]
  split
  · rename_i hc
    rw [hc]
    rfl
  · exact advance_eq_past ‹_›

/-- A cursor stops behind digits, also if the sentinel follows or the end of the source. -/
theorem skipDigits_eq (h : source.drop k.current = cs) :
    k.skipDigits source = k.past (cs.takeWhile Char.isDigit) := by
  induction cs generalizing k with
  | nil =>
    rw [skipDigits, peek_of_nil h]
    rfl
  | cons c cs ih =>
    rw [skipDigits, peek_of_cons h, List.takeWhile_cons]
    split
    · rename_i hc
      have hline : c ≠ '\n' := fun e => absurd (e ▸ hc) (by decide)
      rw [advance_eq_past hline, ih (drop_past h), past_append]
      rfl
    · rfl

/-- A cursor stops in a block at a closing bracket or at the end of the source. The sentinel does
not stop it. -/
theorem skipBlock_eq (h : source.drop k.current = cs) :
    k.skipBlock source = k.past (cs.takeWhile (· != ']')) := by
  induction cs generalizing k with
  | nil =>
    rw [skipBlock, if_neg fun hmore => hmore.2 (atEnd_iff.2 h)]
    rfl
  | cons c cs ih =>
    have hmore : ¬ k.AtEnd source := fun hend => by simp [atEnd_iff.1 hend] at h
    rw [skipBlock, peek_of_cons h, List.takeWhile_cons]
    by_cases hc : c = ']'
    · rw [if_neg fun hgo => hgo.1 hc, if_neg (by simp [hc])]
      rfl
    · rw [if_pos ⟨hc, hmore⟩, advance_countLine h, ih (drop_past h), past_append,
        if_pos (bne_iff_ne.2 hc)]
      rfl

/-- A cursor goes over a block with its closing bracket, or without one to the end of the source. -/
theorem closeBlock_skipBlock (h : source.drop k.current = cs) :
    (k.skipBlock source).closeBlock source = k.past (bodyOf '[' cs) := by
  have hend (text : List Char) : (k.past text).AtEnd source ↔ cs.length ≤ text.length := by
    rw [← h, List.length_drop]
    show source.length ≤ k.current + text.length ↔ _
    omega
  rw [skipBlock_eq h, closeBlock]
  rcases bodyOf_bracket_cases cs with ⟨hb, hcs⟩ | ⟨inner, hb, hinner⟩
  · rw [hb, List.takeWhile_eq_self_iff.2 (Text.bne_of_mem hcs), if_pos ((hend cs).2 le_rfl)]
  · have hcs : cs = inner ++ ']' :: rest '[' cs := by
      conv_lhs => rw [← bodyOf_append_rest '[' cs, hb, List.append_assoc]
      rfl
    have hstop : cs.takeWhile (· != ']') = inner := by
      rw [hcs, Text.takeWhile_separator hinner]
    have hmore : ¬ cs.length ≤ inner.length := by
      rw [hcs]
      simp
    rw [hstop, if_neg (mt (hend inner).1 hmore), hb, advance_eq_past (c := ']') (by decide),
      past_append]

/-- A cursor goes over a modifier, which the sentinel is not. -/
theorem skipModifier_eq (hc : isNoteName c = true) (h : source.drop k.current = cs) :
    k.skipModifier source = k.past (bodyOf c cs) := by
  rw [bodyOf, if_pos hc, skipModifier]
  cases cs with
  | nil =>
    rw [peek_of_nil h]
    rfl
  | cons d ds =>
    rw [peek_of_cons h, List.take_succ_cons, List.take_zero, List.takeWhile_cons]
    split
    · rename_i hd
      exact advance_eq_past fun e => absurd (e ▸ hd) (by decide)
    · rfl

/-- A cursor behind the head of a lexeme goes over its body. -/
theorem skipBody_eq (hline : c ≠ '\n') (h : source.drop k.current = cs) :
    k.skipBody source c = k.past (bodyOf c cs) := by
  simp only [skipBody, hline, ↓reduceIte]
  split
  · rename_i hc
    rcases hc with rfl | rfl <;> rfl
  split
  · exact skipModifier_eq ‹_› h
  rename_i hnote
  split
  · rename_i hc
    rw [bodyOf_of_digits (.inl hc)]
    exact skipDigits_eq h
  rename_i hspread
  split
  · rename_i hc
    rw [bodyOf_of_le hc]
    rfl
  split
  · rename_i hc
    rw [hc]
    exact closeBlock_skipBlock h
  rename_i hblock
  split
  · rename_i hc
    rw [bodyOf_of_digits (.inr hc)]
    exact skipDigits_eq h
  · rename_i hdigit
    have hbody : bodyOf c cs = [] := by simp [bodyOf, hnote, hspread, hdigit, hblock]
    rw [hbody]
    rfl

/-- A cursor goes over one lexeme, the first one of what is in front of it. -/
theorem consume_eq (h : source.drop k.current = c :: cs) :
    k.consume source = k.mark.past (first c cs).text := by
  rw [consume, peek_of_cons h]
  by_cases hline : c = '\n'
  · subst hline
    rfl
  · have hahead : source.drop (k.mark.past [c]).current = cs := drop_past h
    rw [advance_eq_past hline, skipBody_eq hline hahead, past_append]
    rfl

/-! ## From the front of a source to its end -/

/-- What holds of a cursor in front of the lexemes `xs`, the last ones of the source. -/
structure Faces (source : List Char) (k : Cursor) (xs : List Lexeme) : Prop where
  lexemes_drop : lexemes (source.drop k.current) = xs
  current_le : k.current ≤ source.length
  line_eq : k.line = 1 + (source.take k.current).count '\n'

/-- What holds of a cursor that has gone over the lexeme `x`, from where the cursor `k` was. -/
structure HasRead (source : List Char) (k : Cursor) (x : Lexeme) (k' : Cursor) : Prop where
  start_eq : k'.start = k.current
  lt_current : k.current < k'.current
  piece_eq : k'.piece source = x.text

variable {x : Lexeme} {xs : List Lexeme}

theorem Faces.start (source : List Char) : Faces source {} (lexemes source) :=
  ⟨rfl, Nat.zero_le _, rfl⟩

theorem Faces.atEnd_iff (h : Faces source k xs) : k.AtEnd source ↔ xs = [] := by
  rw [Cursor.atEnd_iff, ← h.lexemes_drop]
  cases source.drop k.current with
  | nil => simp [lexemes_nil]
  | cons c cs => simp [lexemes_cons]

/-- From one lexeme to the next. -/
theorem Faces.consume (h : Faces source k (x :: xs)) :
    HasRead source k x (k.consume source) ∧ Faces source (k.consume source) xs := by
  obtain ⟨c, cs, hahead⟩ := List.exists_cons_of_ne_nil fun hnil =>
    List.cons_ne_nil x xs (h.atEnd_iff.1 (Cursor.atEnd_iff.2 hnil))
  obtain ⟨hlexemes, hle, hline⟩ := h
  rw [hahead, lexemes_cons] at hlexemes
  obtain ⟨rfl, rfl⟩ := List.cons.inj hlexemes
  have htext : source.drop k.mark.current = (first c cs).text ++ rest c cs := by
    rw [text, first, List.cons_append, bodyOf_append_rest]
    exact hahead
  rw [consume_eq hahead]
  refine ⟨⟨rfl, ?_, ?_⟩, ⟨?_, current_past_le htext hle, ?_⟩⟩
  · exact Nat.lt_add_of_pos_right (Nat.succ_pos _)
  · rw [piece, take_past htext]
    exact List.drop_left' (List.length_take_of_le hle)
  · rw [drop_past htext]
  · rw [take_past htext, List.count_append, ← Nat.add_assoc]
    exact congrArg (· + (first c cs).text.count '\n') hline

theorem after_succ (source : List Char) (i : Nat) :
    after source (i + 1) = (after source i).consume source :=
  Function.iterate_succ_apply' _ _ _

/-- After as many lexemes the cursor is in front of the others. -/
theorem faces_after {i : Nat} (h : i ≤ (lexemes source).length) :
    Faces source (after source i) ((lexemes source).drop i) := by
  induction i with
  | zero => exact Faces.start source
  | succ i ih =>
    have hfaces := ih (Nat.le_of_succ_le h)
    rw [List.drop_eq_getElem_cons h] at hfaces
    rw [after_succ]
    exact hfaces.consume.2

theorem hasRead_after {i : Nat} (h : i < (lexemes source).length) :
    HasRead source (after source i) (lexemes source)[i] (after source (i + 1)) := by
  have hfaces := faces_after h.le
  rw [List.drop_eq_getElem_cons h] at hfaces
  rw [after_succ]
  exact hfaces.consume.1

/-- The texts of the lexemes that a cursor goes over. -/
def pieces (source : List Char) : List (List Char) :=
  (List.range (lexemes source).length).map fun i => (after source (i + 1)).piece source

theorem pieces_eq (source : List Char) : pieces source = (lexemes source).map text := by
  refine List.ext_getElem (by simp [pieces]) fun i hi hi' => ?_
  rw [List.length_map] at hi'
  simpa [pieces] using (hasRead_after hi').piece_eq

/-- The lines that a cursor counts are those that a scan counts. -/
theorem line_after {i : Nat} (h : i ≤ (lexemes source).length) :
    (((lexemes source).take i).foldl Scan.add {}).line = (after source i).line := by
  have hfaces := faces_after h
  have hread : ((lexemes source).take i).flatMap text = source.take (after source i).current := by
    have hahead :
        ((lexemes source).drop i).flatMap text = source.drop (after source i).current := by
      rw [← hfaces.lexemes_drop, flatMap_text_lexemes]
    have hall : ((lexemes source).take i).flatMap text ++ source.drop (after source i).current =
        source.take (after source i).current ++ source.drop (after source i).current := by
      rw [← hahead, ← List.flatMap_append, List.take_append_drop, flatMap_text_lexemes, hahead,
        List.take_append_drop]
    exact List.append_cancel_right hall
  rw [(Scan.foldl_add _ _).2.2, hread, hfaces.line_eq]

/-- A cursor that goes over the lexemes of a source comes to its end, and stays within the source
until then. Each lexeme begins where the one before it ended and has at least one character, and all
together they are the source. The line is always that of the place to which the cursor has come, and
that to which a scan has come with the same lexemes. -/
theorem after_reaches_end (source : List Char) :
    ((lexemes source).length ≤ source.length ∧
        ∀ i ≤ (lexemes source).length,
          (after source i).AtEnd source ↔ i = (lexemes source).length) ∧
      (∀ i < (lexemes source).length,
        (after source (i + 1)).start = (after source i).current ∧
          (after source i).current < (after source (i + 1)).current ∧
          (after source (i + 1)).current ≤ source.length) ∧
      (pieces source = (lexemes source).map text ∧ (pieces source).flatten = source) ∧
      ∀ i ≤ (lexemes source).length,
        (after source i).line = 1 + (source.take (after source i).current).count '\n' ∧
          (((lexemes source).take i).foldl Scan.add {}).line = (after source i).line := by
  refine ⟨⟨length_lexemes_le source, fun i hi => ?_⟩, fun i hi => ⟨?_, ?_, ?_⟩, ⟨?_, ?_⟩,
    fun i hi => ⟨?_, ?_⟩⟩
  · rw [(faces_after hi).atEnd_iff, List.drop_eq_nil_iff]
    exact ⟨hi.antisymm, Eq.ge⟩
  · exact (hasRead_after hi).start_eq
  · exact (hasRead_after hi).lt_current
  · exact (faces_after hi).current_le
  · exact pieces_eq source
  · rw [pieces_eq, ← List.flatMap_def, flatMap_text_lexemes]
  · exact (faces_after hi).line_eq
  · exact line_after hi

/-- A spread at the end of its line, and an open block with the sentinel in it. -/
example : after "E:\n[\x00".toList 4 = ⟨3, 5, 2⟩ := by decide +kernel

end Cursor

end Tablature
