import Mathlib.Data.List.TakeWhile
import Tablature.Proofs.Token.Layout

/-!
# Dividing a source

Any source, also a faulty one, is divided into lexemes. A lexeme takes what stands right behind it
if that may belong to it: a note one modifier, a spread or a number all digits, a bracket all up to
the next closing one. So there is one division only.

* `Formed.first_append`: a lexeme that takes nothing of what follows is cut off as it is;
* `division_lexemes`: a scan divides its source;
* `division_iff`: a source has no other division;
* `lexemes_append`: two texts side by side.
-/

namespace Tablature.Lexeme

/-- What a lexeme consists of. -/
inductive Formed : Lexeme → Prop
  /-- Any character on its own. -/
  | single (c : Char) : Formed ⟨c, []⟩
  | modified {c m : Char} (letter : c ∈ ['A', 'B', 'C', 'D', 'E', 'F', 'G'])
      (modifier : m = 'b' ∨ m = '#') : Formed ⟨c, [m]⟩
  | digits {c : Char} {ds : List Char} (front : c ∈ [':', ';'] ∨ c.isDigit = true)
      (digits : ∀ d ∈ ds, d.isDigit = true) : Formed ⟨c, ds⟩
  | block {inner : List Char} (inside : ']' ∉ inner) : Formed ⟨'[', inner ++ [']']⟩
  | openBlock {cs : List Char} (not_closed : ']' ∉ cs) : Formed ⟨'[', cs⟩

/-- A character that belongs to a lexeme if it stands right behind it. -/
inductive Takes : Lexeme → Char → Prop
  | modifier {c m : Char} (letter : c ∈ ['A', 'B', 'C', 'D', 'E', 'F', 'G'])
      (modifier : m = 'b' ∨ m = '#') : Takes ⟨c, []⟩ m
  | digit {c d : Char} {ds : List Char} (front : c ∈ [':', ';'] ∨ c.isDigit = true)
      (digit : d.isDigit = true) : Takes ⟨c, ds⟩ d
  /-- A block that is not closed ends nowhere. -/
  | inner {cs : List Char} (not_closed : ']' ∉ cs) (c : Char) : Takes ⟨'[', cs⟩ c

/-- A source falls into lexemes, each of them as long as it can be. -/
structure Division (cs : List Char) (xs : List Lexeme) : Prop where
  flatMap_text : xs.flatMap text = cs
  formed : ∀ x ∈ xs, x.Formed
  apart : xs.IsChain fun x y => ¬ x.Takes y.head

/-! ## Cutting off a lexeme -/

theorem isSpread_iff {c : Char} : isSpread c = true ↔ c ∈ [':', ';'] := by simp [isSpread]

/-- Digits in front of a text are taken as far as they go. -/
theorem not_isDigit_of_mem_head?_rest {c : Char} {cs : List Char}
    (h : isSpread c = true ∨ c.isDigit = true) :
    ∀ d ∈ (rest c cs).head?, d.isDigit = false := by
  have hr : rest c cs = cs.dropWhile Char.isDigit := by
    have e := bodyOf_append_rest c cs
    rw [bodyOf_of_digits h] at e
    exact List.append_cancel_left (e.trans List.takeWhile_append_dropWhile.symm)
  intro d hd
  rw [hr] at hd
  have := List.head?_dropWhile_not Char.isDigit cs
  rw [Option.mem_def.1 hd] at this
  simpa using this

/-- A bracket takes all that follows it, if none of it closes it. -/
theorem bodyOf_bracket_of_not_mem {cs : List Char} (h : ']' ∉ cs) : bodyOf '[' cs = cs := by
  show cs.take ((cs.takeWhile (· != ']')).length + 1) = cs
  rw [List.takeWhile_eq_self_iff.2 (Text.bne_of_mem h), List.take_of_length_le (Nat.le_succ _)]

theorem bodyOf_bracket_cases (cs : List Char) :
    (bodyOf '[' cs = cs ∧ ']' ∉ cs) ∨ ∃ inner, bodyOf '[' cs = inner ++ [']'] ∧ ']' ∉ inner := by
  by_cases hm : ']' ∈ cs
  · obtain ⟨inner, rest, rfl, hinner⟩ := List.eq_append_cons_of_mem hm
    exact .inr ⟨inner, Sign.bodyOf_block hinner rest, hinner⟩
  · exact .inl ⟨bodyOf_bracket_of_not_mem hm, hm⟩

/-- A character that takes nothing of what follows stands on its own. -/
theorem bodyOf_eq_nil {c : Char} {cs : List Char} (h : ∀ d ∈ cs.head?, ¬ Takes ⟨c, []⟩ d) :
    bodyOf c cs = [] := by
  cases cs with
  | nil => simp [bodyOf]
  | cons d cs =>
    have hd : ¬ Takes ⟨c, []⟩ d := h d rfl
    unfold bodyOf
    split
    · rename_i hc
      have hm : ¬ isModifier d = true := fun hm =>
        hd (.modifier (isNoteName_iff.1 hc) (isModifier_iff.1 hm))
      rw [List.take_succ_cons, List.take_zero, List.takeWhile_cons_of_neg hm]
    split
    · rename_i hc
      have hc : c ∈ [':', ';'] ∨ c.isDigit = true := by
        rwa [Bool.or_eq_true, isSpread_iff] at hc
      exact List.takeWhile_cons_of_neg fun hdigit => hd (.digit hc hdigit)
    split
    · rename_i hc
      obtain rfl : c = '[' := beq_iff_eq.1 hc
      exact absurd (.inner List.not_mem_nil d) hd
    · rfl

/-- A lexeme that takes nothing of what follows is cut off as it is. -/
theorem Formed.bodyOf_append {x : Lexeme} (hx : x.Formed) {after : List Char}
    (h : ∀ d ∈ after.head?, ¬ x.Takes d) : bodyOf x.head (x.body ++ after) = x.body := by
  cases hx with
  | single c => exact bodyOf_eq_nil h
  | @modified c m letter modifier =>
    simp [bodyOf, isNoteName_iff.2 letter, isModifier_iff.2 modifier]
  | @digits c ds front digits =>
    have hc : isSpread c = true ∨ c.isDigit = true := by rwa [isSpread_iff]
    refine (bodyOf_of_digits hc _).trans (Sign.takeWhile_append_of_head? digits fun d hd => ?_)
    exact Bool.eq_false_iff.2 fun hdigit => h d hd (.digit front hdigit)
  | @block inner inside =>
    simpa using Sign.bodyOf_block inside after
  | @openBlock cs not_closed =>
    cases after with
    | nil => simpa using bodyOf_bracket_of_not_mem not_closed
    | cons d after => exact absurd (.inner not_closed d) (h d rfl)

theorem Formed.lexemes_append {x : Lexeme} (hx : x.Formed) {after : List Char}
    (h : ∀ d ∈ after.head?, ¬ x.Takes d) : lexemes (x.text ++ after) = x :: lexemes after := by
  have hb := hx.bodyOf_append h
  rw [text, List.cons_append, lexemes_cons, first, rest, hb, List.drop_left]

/-- What is cut off of a text is a lexeme. -/
theorem formed_first (c : Char) (cs : List Char) : (first c cs).Formed := by
  by_cases hn : isNoteName c = true
  · have hb : bodyOf c cs = (cs.take 1).takeWhile isModifier := by
      simp only [bodyOf, hn, ↓reduceIte]
    rw [first, hb]
    cases cs with
    | nil => exact .single c
    | cons m cs =>
      rw [List.take_succ_cons, List.take_zero]
      by_cases hm : isModifier m = true
      · rw [List.takeWhile_cons_of_pos hm]
        exact .modified (isNoteName_iff.1 hn) (isModifier_iff.1 hm)
      · rw [List.takeWhile_cons_of_neg hm]
        exact .single c
  by_cases hd : isSpread c = true ∨ c.isDigit = true
  · rw [first, bodyOf_of_digits hd]
    exact .digits (by rwa [isSpread_iff] at hd) fun _ => List.mem_takeWhile_imp
  by_cases hb : c = '['
  · subst hb
    rcases bodyOf_bracket_cases cs with ⟨hb, hcs⟩ | ⟨inner, hb, hinner⟩
    · rw [first, hb]
      exact .openBlock hcs
    · rw [first, hb]
      exact .block hinner
  · have hnil : bodyOf c cs = [] := by simp [bodyOf, hn, hd, hb]
    rw [first, hnil]
    exact .single c

/-- What is cut off of a text takes nothing of the rest. -/
theorem not_takes_of_mem_head?_rest {c : Char} {cs : List Char} :
    ∀ d ∈ (rest c cs).head?, ¬ (first c cs).Takes d := by
  intro d hd ht
  generalize hx : first c cs = x at ht
  have hrest := bodyOf_append_rest c cs
  cases ht with
  | modifier letter modifier =>
    obtain ⟨rfl, hb⟩ := Lexeme.mk.inj hx
    -- the modifier would be the first character behind the note, and belong to it
    obtain ⟨after, hafter⟩ := List.head?_eq_some_iff.1 (Option.mem_def.1 hd)
    rw [hb, hafter, List.nil_append] at hrest
    rw [← hrest] at hb
    simp [bodyOf, isNoteName_iff.2 letter, isModifier_iff.2 modifier] at hb
  | digit front digit =>
    obtain ⟨rfl, -⟩ := Lexeme.mk.inj hx
    rw [← isSpread_iff] at front
    rw [not_isDigit_of_mem_head?_rest front d hd] at digit
    cases digit
  | inner not_closed =>
    obtain ⟨rfl, hb⟩ := Lexeme.mk.inj hx
    rcases bodyOf_bracket_cases cs with ⟨hall, -⟩ | ⟨inner, hclosed, -⟩
    · rw [hall] at hrest
      rw [List.append_right_eq_self.1 hrest] at hd
      cases hd
    · rw [← hb, hclosed] at not_closed
      exact not_closed (by simp)

/-! ## The division of a source -/

theorem head_mem_head? {cs : List Char} {y : Lexeme} (hy : y ∈ (lexemes cs).head?) :
    y.head ∈ cs.head? := by
  cases cs with
  | nil => rw [lexemes_nil] at hy; cases hy
  | cons c cs => rw [lexemes_cons] at hy; cases hy; rfl

/-- A scan divides its source. -/
theorem division_lexemes (cs : List Char) : Division cs (lexemes cs) := by
  refine ⟨flatMap_text_lexemes cs, ?_, ?_⟩
  · induction cs using induction_rest with
    | nil => rw [lexemes_nil]; exact List.forall_mem_nil _
    | cons c cs ih => rw [lexemes_cons]; exact List.forall_mem_cons.2 ⟨formed_first c cs, ih⟩
  · induction cs using induction_rest with
    | nil => rw [lexemes_nil]; exact .nil
    | cons c cs ih =>
      rw [lexemes_cons]
      exact List.isChain_cons.2
        ⟨fun y hy => not_takes_of_mem_head?_rest y.head (head_mem_head? hy), ih⟩

/-- A source has no division but that of its scan. -/
theorem Division.eq_lexemes {cs : List Char} {xs : List Lexeme} (h : Division cs xs) :
    xs = lexemes cs := by
  induction xs generalizing cs with
  | nil => rw [← h.flatMap_text]; exact lexemes_nil.symm
  | cons x xs ih =>
    have htail : Division (xs.flatMap text) xs :=
      ⟨rfl, fun y hy => h.formed y (List.mem_cons_of_mem x hy), (List.isChain_cons.1 h.apart).2⟩
    have hends : ∀ d ∈ (xs.flatMap text).head?, ¬ x.Takes d := by
      intro d hd
      cases xs with
      | nil => cases hd
      | cons y ys =>
        obtain rfl : y.head = d := Option.some.inj hd
        exact (List.isChain_cons_cons.1 h.apart).1
    rw [← h.flatMap_text, List.flatMap_cons,
      (h.formed x List.mem_cons_self).lexemes_append hends, ← ih htail]

/-- A source is divided in one way, that of its scan. -/
theorem division_iff {cs : List Char} {xs : List Lexeme} : Division cs xs ↔ xs = lexemes cs :=
  ⟨Division.eq_lexemes, fun h => h ▸ division_lexemes cs⟩

/-- Texts side by side are divided as before, if nothing belongs together across the seam. -/
theorem lexemes_append {cs ds : List Char}
    (seam : ∀ x ∈ (lexemes cs).getLast?, ∀ d ∈ ds.head?, ¬ x.Takes d) :
    lexemes (cs ++ ds) = lexemes cs ++ lexemes ds := by
  have front := division_lexemes cs
  have back := division_lexemes ds
  refine (Division.eq_lexemes ⟨?_, ?_, ?_⟩).symm
  · rw [List.flatMap_append, front.flatMap_text, back.flatMap_text]
  · exact List.forall_mem_append.2 ⟨front.formed, back.formed⟩
  · exact List.isChain_append.2
      ⟨front.apart, back.apart, fun x hx y hy => seam x hx y.head (head_mem_head? hy)⟩

end Tablature.Lexeme
