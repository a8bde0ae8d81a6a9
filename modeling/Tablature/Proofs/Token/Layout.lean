import Mathlib.Data.List.Chain
import Tablature.Proofs.Text.Numeral
import Tablature.Proofs.Token.Scan

/-!
# The written form of a source

A source without faults consists of signs, one for each token, with gaps of blanks and line feeds
before, between and behind them. A number needs a gap where digits stand right in front of it.

* `Sign.reading_lexeme`: a sign is read as the token it is written for;
* `Sign.lexemes_append`: a sign is a lexeme, unless what follows could belong to it;
* `Layout.lexemes_text`: the lexemes of a layout are its signs and the characters of its gaps.
-/

namespace Tablature

open Lexeme

/-- What is written for a token. -/
inductive Sign where
  | empty
  | next
  | note (letter : { c : Char // c ∈ ['A', 'B', 'C', 'D', 'E', 'F', 'G'] })
      (modifier : Option { c : Char // c = 'b' ∨ c = '#' })
  | spreadEmpty (amount : Digits)
  | spreadNext (amount : Digits)
  | number (digits : Digits)
  | block (inner : { cs : List Char // ']' ∉ cs })

namespace Sign

def text : Sign → List Char
  | empty => ['.']
  | next => [',']
  | note letter modifier => letter.val :: (modifier.map Subtype.val).toList
  | spreadEmpty amount => ':' :: amount.chars
  | spreadNext amount => ';' :: amount.chars
  | number digits => digits.chars
  | block inner => '[' :: (inner.val ++ [']'])

def kind : Sign → Token.Kind
  | empty => .empty
  | next => .next
  | note _ _ => .note
  | spreadEmpty _ => .spreadEmpty
  | spreadNext _ => .spreadNext
  | number _ => .number
  | block _ => .options

def literal : Sign → Option Token.Literal
  | spreadEmpty amount => some (.number amount.value)
  | spreadNext amount => some (.number amount.value)
  | number digits => some (.number digits.value)
  | block inner => some (.options (String.ofList inner.val))
  | _ => none

/-- A sign to which digits behind it would belong. -/
def EndsInDigits : Sign → Prop
  | spreadEmpty _ | spreadNext _ | number _ => True
  | _ => False

def IsNumber : Sign → Prop
  | number _ => True
  | _ => False

end Sign

/-- A sign, and the gap behind it. -/
structure Word where
  sign : Sign
  gap : List Char
  gap_le : ∀ c ∈ gap, c ≤ ' '

namespace Word

def text (w : Word) : List Char := w.sign.text ++ w.gap

/-- Two words that may stand one after the other. -/
def Apart (v w : Word) : Prop := v.sign.EndsInDigits → w.sign.IsNumber → v.gap ≠ []

/-- The tokens of words that stand behind `before`, each with the line on which its sign ends. -/
def tokens (before : List Char) : List Word → List Token
  | [] => []
  | w :: ws =>
    ⟨w.sign.kind, String.ofList w.sign.text, w.sign.literal,
      (1 + (before ++ w.sign.text).count '\n' : Nat)⟩ :: tokens (before ++ w.text) ws

end Word

/-- A source without faults: a gap, and words. -/
structure Layout where
  indent : List Char
  words : List Word
  indent_le : ∀ c ∈ indent, c ≤ ' '
  apart : words.IsChain Word.Apart

namespace Layout

def text (l : Layout) : List Char := l.indent ++ l.words.flatMap Word.text

/-- The tokens of the signs, and the one for the end of the source. -/
def tokens (l : Layout) : List Token :=
  Word.tokens l.indent l.words ++ [Token.endOfFile (1 + l.text.count '\n' : Nat)]

end Layout

/-! ## Classes of characters -/

theorem isNoteName_iff {c : Char} :
    isNoteName c = true ↔ c ∈ ['A', 'B', 'C', 'D', 'E', 'F', 'G'] := by
  constructor
  · intro h
    simp only [isNoteName, Bool.and_eq_true, decide_eq_true_eq, Char.le_def,
      UInt32.le_iff_toNat_le] at h
    have h₁ : 65 ≤ c.toNat := h.1
    have h₂ : c.toNat ≤ 71 := h.2
    have hc : c.toNat = 65 ∨ c.toNat = 66 ∨ c.toNat = 67 ∨ c.toNat = 68 ∨ c.toNat = 69 ∨
        c.toNat = 70 ∨ c.toNat = 71 := by omega
    rw [← Char.ofNat_toNat c]
    rcases hc with e | e | e | e | e | e | e <;> rw [e] <;> decide
  · intro h
    simp only [List.mem_cons, List.not_mem_nil, or_false] at h
    rcases h with rfl | rfl | rfl | rfl | rfl | rfl | rfl <;> decide

theorem isModifier_iff {c : Char} : isModifier c = true ↔ c = 'b' ∨ c = '#' := by
  simp [isModifier]

/-- A digit begins no sign but a number. -/
theorem not_isNoteName_of_isDigit {c : Char} (h : c.isDigit = true) : isNoteName c = false := by
  simp only [Char.isDigit, Bool.and_eq_true, decide_eq_true_eq, UInt32.le_iff_toNat_le] at h
  simp only [isNoteName, Bool.and_eq_false_iff, decide_eq_false_iff_not, Char.le_def,
    UInt32.le_iff_toNat_le]
  have h₁ : c.val.toNat ≤ 57 := h.2
  have h₂ : 'A'.val.toNat = 65 := rfl
  omega

theorem ne_of_le {c d : Char} (h : c ≤ ' ') (hd : ' ' < d) : c ≠ d := by
  intro e
  rw [← e] at hd
  exact Char.not_lt.2 h hd

theorem not_isModifier_of_le {c : Char} (h : c ≤ ' ') : isModifier c = false := by
  simp [isModifier, ne_of_le h (d := 'b') (by decide), ne_of_le h (d := '#') (by decide)]

theorem not_isModifier_of_isDigit {c : Char} (h : c.isDigit = true) : isModifier c = false := by
  refine Bool.eq_false_iff.2 fun e => ?_
  rcases isModifier_iff.1 e with e | e <;> rw [e] at h <;> exact absurd h (by decide)

theorem not_isModifier_of_isNoteName {c : Char} (h : isNoteName c = true) :
    isModifier c = false := by
  refine Bool.eq_false_iff.2 fun e => ?_
  rcases isModifier_iff.1 e with e | e <;> rw [e] at h <;> exact absurd h (by decide)

theorem lt_of_isNoteName {c : Char} (h : isNoteName c = true) : ' ' < c := by
  rw [isNoteName_iff] at h
  simp only [List.mem_cons, List.not_mem_nil, or_false] at h
  rcases h with rfl | rfl | rfl | rfl | rfl | rfl | rfl <;> decide

theorem lt_of_isDigit {c : Char} (h : c.isDigit = true) : ' ' < c := by
  rw [Char.lt_def, UInt32.lt_iff_toNat_lt]
  simp only [Char.isDigit, Bool.and_eq_true, decide_eq_true_eq, UInt32.le_iff_toNat_le] at h
  exact Nat.lt_of_lt_of_le (by decide) h.1

theorem not_isNoteName_of_le {c : Char} (h : c ≤ ' ') : isNoteName c = false := by
  refine Bool.eq_false_iff.2 fun hn => ?_
  exact Char.not_lt.2 h (lt_of_isNoteName hn)

theorem not_isDigit_of_le {c : Char} (h : c ≤ ' ') : c.isDigit = false := by
  refine Bool.eq_false_iff.2 fun hd => ?_
  exact Char.not_lt.2 h (lt_of_isDigit hd)

/-- A lexeme with a digit at its front is read as a number. -/
theorem reading_of_isDigit {x : Lexeme} (h : x.head.isDigit = true) :
    x.reading = numberReading x.text := by
  have hne (c : Char) (hc : c.isDigit = false) : x.head ≠ c := by
    intro e; rw [e, hc] at h; exact absurd h (by decide)
  have hl : ¬ x.head ≤ ' ' := Char.not_le.2 (lt_of_isDigit h)
  simp only [reading, hne '.' rfl, hne ',' rfl, hne ':' rfl, hne ';' rfl, hne '[' rfl, hl, h,
    not_isNoteName_of_isDigit h, ↓reduceIte, Bool.false_eq_true]

/-- A spread and a number take the digits behind them. -/
theorem bodyOf_of_digits {c : Char} (h : isSpread c = true ∨ c.isDigit = true) (cs : List Char) :
    bodyOf c cs = cs.takeWhile Char.isDigit := by
  have hn : isNoteName c = false := by
    rcases h with h | h
    · simp only [isSpread, Bool.or_eq_true, beq_iff_eq] at h
      rcases h with rfl | rfl <;> rfl
    · exact not_isNoteName_of_isDigit h
  simp only [bodyOf, hn, Bool.or_eq_true, h, ↓reduceIte, Bool.false_eq_true]

/-! ## A sign and what follows it -/

namespace Sign

theorem text_ne_nil (x : Sign) : x.text ≠ [] := by
  cases x with
  | number digits => exact digits.ne_nil
  | _ => exact List.cons_ne_nil _ _

/-- The lexeme of a sign. -/
def lexeme (x : Sign) : Lexeme := ⟨x.text.head x.text_ne_nil, x.text.tail⟩

theorem text_lexeme (x : Sign) : x.lexeme.text = x.text := List.cons_head_tail x.text_ne_nil

/-- Nothing at the front of `rest` would belong to the sign. -/
def Ends : Sign → List Char → Prop
  | note _ none, rest => ∀ c ∈ rest.head?, isModifier c = false
  | spreadEmpty _, rest | spreadNext _, rest | number _, rest => ∀ c ∈ rest.head?, c.isDigit = false
  | _, _ => True

theorem reading_lexeme (x : Sign) : x.lexeme.reading = .token x.kind x.literal := by
  have read_digits (ds : Digits) : Numeral.read ds.chars = .ok ds.value :=
    Numeral.read_eq_ok_iff.2 ⟨ds.ne_nil, ds.length_le, rfl⟩
  cases x with
  | empty => rfl
  | next => rfl
  | note letter modifier =>
    have h := isNoteName_iff.2 letter.property
    have h₁ : letter.val ≠ '.' := by intro e; rw [e] at h; exact absurd h (by decide)
    have h₂ : letter.val ≠ ',' := by intro e; rw [e] at h; exact absurd h (by decide)
    simp [lexeme, text, reading, kind, literal, h, h₁, h₂]
  | spreadEmpty amount =>
    simp [lexeme, text, reading, kind, literal, isNoteName, spreadReading, read_digits]
  | spreadNext amount =>
    simp [lexeme, text, reading, kind, literal, isNoteName, spreadReading, read_digits]
  | number digits =>
    have hd : (digits.chars.head digits.ne_nil).isDigit = true :=
      digits.isDigit _ (List.head_mem digits.ne_nil)
    rw [reading_of_isDigit hd, text_lexeme, text, numberReading, read_digits]
    rfl
  | block inner =>
    simp [lexeme, text, reading, kind, literal, isNoteName, blockReading]

/-- A run of characters that ends where `p` does is what is taken of the text. -/
theorem takeWhile_append_of_head? {p : Char → Bool} {cs rest : List Char}
    (h : ∀ c ∈ cs, p c = true) (hr : ∀ c ∈ rest.head?, p c = false) :
    (cs ++ rest).takeWhile p = cs := by
  rw [List.takeWhile_append_of_pos h]
  cases rest with
  | nil => simp
  | cons c rest => rw [List.takeWhile_cons_of_neg (by simp [hr c rfl]), List.append_nil]

/-- A bracket takes what follows it up to the first closing bracket. -/
theorem bodyOf_block {inner : List Char} (h : ']' ∉ inner) (rest : List Char) :
    bodyOf '[' (inner ++ ']' :: rest) = inner ++ [']'] := by
  show (inner ++ ']' :: rest).take
    (((inner ++ ']' :: rest).takeWhile (· != ']')).length + 1) = _
  rw [Text.takeWhile_separator h, List.take_length_add_append]
  rfl

theorem bodyOf_lexeme (x : Sign) {rest : List Char} (h : x.Ends rest) :
    bodyOf x.lexeme.head (x.lexeme.body ++ rest) = x.lexeme.body := by
  cases x with
  | empty => rfl
  | next => rfl
  | note letter modifier =>
    have hl := isNoteName_iff.2 letter.property
    simp only [lexeme, text, List.head_cons, List.tail_cons, bodyOf, hl, ↓reduceIte]
    cases modifier with
    | some m =>
      have hm := isModifier_iff.2 m.property
      simp [hm]
    | none =>
      cases rest with
      | nil => rfl
      | cons c rest => simp [h c rfl]
  | spreadEmpty amount =>
    simp only [lexeme, text, List.head_cons, List.tail_cons]
    exact takeWhile_append_of_head? amount.isDigit h
  | spreadNext amount =>
    simp only [lexeme, text, List.head_cons, List.tail_cons]
    exact takeWhile_append_of_head? amount.isDigit h
  | number digits =>
    have hd : (digits.chars.head digits.ne_nil).isDigit = true :=
      digits.isDigit _ (List.head_mem digits.ne_nil)
    refine (bodyOf_of_digits (.inr hd) _).trans ?_
    exact takeWhile_append_of_head? (fun c hc => digits.isDigit c (List.mem_of_mem_tail hc)) h
  | block inner =>
    simpa [lexeme, text] using bodyOf_block inner.property rest

/-- A sign is the first lexeme of a text that begins with it. -/
theorem lexemes_append (x : Sign) {rest : List Char} (h : x.Ends rest) :
    lexemes (x.text ++ rest) = x.lexeme :: lexemes rest := by
  have hb := x.bodyOf_lexeme h
  have ht : x.text ++ rest = x.lexeme.head :: (x.lexeme.body ++ rest) := by
    rw [← x.text_lexeme]; rfl
  rw [ht, lexemes_cons, first, Lexeme.rest, hb, List.drop_left]

/-- The character in front of a sign. -/
theorem mem_head?_cases {x : Sign} {c : Char} (hc : c ∈ x.text.head?) :
    isNoteName c = true ∨ (c.isDigit = true ∧ x.IsNumber) ∨ c ∈ ['.', ',', ':', ';', '['] := by
  cases x with
  | note letter modifier =>
    obtain rfl : letter.val = c := by simpa [text] using hc
    exact .inl (isNoteName_iff.2 letter.property)
  | number digits =>
    exact .inr (.inl ⟨digits.isDigit c (List.mem_of_mem_head? hc), trivial⟩)
  | _ =>
    simp only [text, List.head?_cons, Option.mem_some_iff] at hc
    rw [← hc]
    exact .inr (.inr (by decide))

theorem not_isModifier_of_mem_head? {x : Sign} {c : Char} (hc : c ∈ x.text.head?) :
    isModifier c = false := by
  rcases mem_head?_cases hc with hn | ⟨hd, -⟩ | hl
  · exact not_isModifier_of_isNoteName hn
  · exact not_isModifier_of_isDigit hd
  · have : ∀ c ∈ ['.', ',', ':', ';', '['], isModifier c = false := by simp [isModifier]
    exact this c hl

/-- Only a number has a digit in front. -/
theorem isNumber_of_isDigit_head? {x : Sign} {c : Char} (hc : c ∈ x.text.head?)
    (hd : c.isDigit = true) : x.IsNumber := by
  rcases mem_head?_cases hc with hn | ⟨-, hx⟩ | hl
  · exact absurd hn (Bool.eq_false_iff.1 (not_isNoteName_of_isDigit hd))
  · exact hx
  · have : ∀ c ∈ ['.', ',', ':', ';', '['], c.isDigit = false := by simp [Char.isDigit]
    exact absurd hd (Bool.eq_false_iff.1 (this c hl))

theorem lt_of_mem_head? {x : Sign} {c : Char} (hc : c ∈ x.text.head?) : ' ' < c := by
  rcases mem_head?_cases hc with hn | ⟨hd, -⟩ | hl
  · exact lt_of_isNoteName hn
  · exact lt_of_isDigit hd
  · have : ∀ c ∈ ['.', ',', ':', ';', '['], ' ' < c := by simp
    exact this c hl

end Sign

/-! ## Gaps -/

/-- A character of a gap is a lexeme of its own, without a meaning. -/
def blankLexeme (c : Char) : Lexeme := ⟨c, []⟩

theorem bodyOf_of_le {c : Char} (h : c ≤ ' ') (cs : List Char) : bodyOf c cs = [] := by
  have hne (d : Char) (hd : ' ' < d) : c ≠ d := ne_of_le h hd
  simp [bodyOf, not_isNoteName_of_le h, isSpread, not_isDigit_of_le h, hne ':' (by decide),
    hne ';' (by decide), hne '[' (by decide)]

theorem rest_of_le {c : Char} (h : c ≤ ' ') (cs : List Char) : rest c cs = cs := by
  rw [rest, bodyOf_of_le h]
  rfl

theorem first_of_le {c : Char} (h : c ≤ ' ') (cs : List Char) : first c cs = blankLexeme c :=
  congrArg (Lexeme.mk c) (bodyOf_of_le h cs)

theorem lexemes_cons_of_le {c : Char} (h : c ≤ ' ') (cs : List Char) :
    lexemes (c :: cs) = blankLexeme c :: lexemes cs := by
  rw [lexemes_cons, first_of_le h, rest_of_le h]

theorem reading_of_le {x : Lexeme} (h : x.head ≤ ' ') : x.reading = .blank := by
  have hne (d : Char) (hd : ' ' < d) : x.head ≠ d := ne_of_le h hd
  simp [reading, not_isNoteName_of_le h, h, hne '.' (by decide), hne ',' (by decide),
    hne ':' (by decide), hne ';' (by decide)]

theorem le_of_reading_eq_blank {x : Lexeme} (h : x.reading = .blank) : x.head ≤ ' ' := by
  by_contra hl
  simp only [reading, spreadReading, numberReading, blockReading, hl, ↓reduceIte] at h
  repeat' split at h
  all_goals cases h

theorem reading_blankLexeme {c : Char} (h : c ≤ ' ') : (blankLexeme c).reading = .blank :=
  reading_of_le h

theorem lexemes_gap_append {gap : List Char} (h : ∀ c ∈ gap, c ≤ ' ') (rest : List Char) :
    lexemes (gap ++ rest) = gap.map blankLexeme ++ lexemes rest := by
  induction gap with
  | nil => rfl
  | cons c gap ih =>
    rw [List.cons_append, lexemes_cons_of_le (h c List.mem_cons_self),
      ih fun d hd => h d (List.mem_cons_of_mem _ hd)]
    rfl

/-! ## Words and layouts -/

namespace Word

/-- The lexemes of a word. -/
def lexemes (w : Word) : List Lexeme := w.sign.lexeme :: w.gap.map blankLexeme

theorem head?_append_of_gap {gap rest : List Char} (h : gap ≠ []) :
    (gap ++ rest).head? = gap.head? := by
  cases gap with
  | nil => exact absurd rfl h
  | cons c gap => rfl

theorem head?_text (w : Word) (rest : List Char) : (w.text ++ rest).head? = w.sign.text.head? := by
  rw [text, List.append_assoc, head?_append_of_gap w.sign.text_ne_nil]

/-- Behind a sign stands its gap, or, without a gap, the next sign. -/
theorem mem_head?_gap_cases {w : Word} {ws : List Word} {c : Char}
    (hc : c ∈ (w.gap ++ ws.flatMap text).head?) :
    c ≤ ' ' ∨ w.gap = [] ∧ ∃ v ws', ws = v :: ws' ∧ c ∈ v.sign.text.head? := by
  by_cases hg : w.gap = []
  · cases ws with
    | nil => simp [hg] at hc
    | cons v ws =>
      rw [hg, List.nil_append, List.flatMap_cons, head?_text] at hc
      exact .inr ⟨hg, v, ws, rfl, hc⟩
  · rw [head?_append_of_gap hg] at hc
    exact .inl (w.gap_le c (List.mem_of_mem_head? hc))

/-- Nothing behind a sign belongs to it: neither a gap, nor, without a gap, the next sign. -/
theorem ends_of_isChain {w : Word} {ws : List Word} (h : (w :: ws).IsChain Apart) :
    w.sign.Ends (w.gap ++ ws.flatMap text) := by
  have hmod : ∀ c ∈ (w.gap ++ ws.flatMap text).head?, isModifier c = false := by
    intro c hc
    rcases mem_head?_gap_cases hc with hle | ⟨-, v, ws', -, hv⟩
    · exact not_isModifier_of_le hle
    · exact Sign.not_isModifier_of_mem_head? hv
  have hdig : w.sign.EndsInDigits →
      ∀ c ∈ (w.gap ++ ws.flatMap text).head?, c.isDigit = false := by
    intro hw c hc
    rcases mem_head?_gap_cases hc with hle | ⟨hg, v, ws', rfl, hv⟩
    · exact not_isDigit_of_le hle
    · refine Bool.eq_false_iff.2 fun hd => ?_
      exact (List.isChain_cons_cons.1 h).1 hw (Sign.isNumber_of_isDigit_head? hv hd) hg
  revert hdig
  cases w.sign with
  | note letter modifier => cases modifier <;> [exact fun _ => hmod; exact fun _ => trivial]
  | spreadEmpty _ => exact fun h => h trivial
  | spreadNext _ => exact fun h => h trivial
  | number _ => exact fun h => h trivial
  | _ => exact fun _ => trivial

/-- The lexemes of words, behind which the source ends. -/
theorem lexemes_flatMap_text {ws : List Word} (h : ws.IsChain Apart) :
    Lexeme.lexemes (ws.flatMap text) = ws.flatMap lexemes := by
  induction ws with
  | nil => exact lexemes_nil
  | cons w ws ih =>
    rw [List.flatMap_cons, List.flatMap_cons, text, List.append_assoc,
      w.sign.lexemes_append (ends_of_isChain h), lexemes_gap_append w.gap_le,
      ih (List.isChain_cons.1 h).2]
    rfl

end Word

/-- The lexemes of a source without faults are its signs and the characters of its gaps. -/
theorem Layout.lexemes_text (l : Layout) :
    lexemes l.text = l.indent.map blankLexeme ++ l.words.flatMap Word.lexemes := by
  rw [text, lexemes_gap_append l.indent_le, Word.lexemes_flatMap_text l.apart]

end Tablature
