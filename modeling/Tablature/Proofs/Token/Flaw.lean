import Tablature.Proofs.Token.Division

/-!
# Malformed lexemes

Some lexemes of a source mean nothing: characters that begin no sign, spreads without digits,
numerals with too many of them, and blocks that are not closed.

* `Formed.cases`: a lexeme is a blank, a sign or malformed;
* `reading_eq_fault_iff`: what a scan finds wrong with a lexeme.
-/

namespace Tablature

namespace Lexeme

/-- The characters that begin a spread, and what they spread. -/
def spreads : List (Char × Token.Kind) := [(':', .spreadEmpty), (';', .spreadNext)]

/-- What is wrong with a lexeme. -/
inductive Flaw : Lexeme → Fault → Prop
  /-- A character that begins no sign. -/
  | unknown {c : Char} (not_blank : ' ' < c)
      (not_sign : c ∉ ['A', 'B', 'C', 'D', 'E', 'F', 'G', '.', ',', ':', ';', '['])
      (not_digit : c.isDigit = false) : Flaw ⟨c, []⟩ (.unknown c)
  | bareSpread {c : Char} {kind : Token.Kind} (spread : (c, kind) ∈ spreads) :
      Flaw ⟨c, []⟩ (.spread kind "" .noDigits)
  | longSpread {c : Char} {kind : Token.Kind} {ds : List Char} (spread : (c, kind) ∈ spreads)
      (digits : ∀ d ∈ ds, d.isDigit = true) (long : Numeral.digitLimit < ds.length) :
      Flaw ⟨c, ds⟩ (.spread kind (String.ofList ds) (.tooLong ds.length))
  | longNumber {c : Char} {ds : List Char} (digits : ∀ d ∈ c :: ds, d.isDigit = true)
      (long : Numeral.digitLimit < (c :: ds).length) :
      Flaw ⟨c, ds⟩ (.number (String.ofList (c :: ds)) (.tooLong (c :: ds).length))
  /-- A bracket that is not closed. -/
  | openBlock {cs : List Char} (not_closed : ']' ∉ cs) : Flaw ⟨'[', cs⟩ .unterminated

def Malformed (x : Lexeme) : Prop := ∃ f, x.Flaw f

theorem malformed_iff {x : Lexeme} : x.Malformed ↔
    (x.body = [] ∧ ' ' < x.head ∧
      x.head ∉ ['A', 'B', 'C', 'D', 'E', 'F', 'G', '.', ',', ':', ';', '['] ∧
      x.head.isDigit = false) ∨
    (x.head ∈ [':', ';'] ∧
      (x.body = [] ∨ x.body.all Char.isDigit = true ∧ Numeral.digitLimit < x.body.length)) ∨
    (x.text.all Char.isDigit = true ∧ Numeral.digitLimit < x.text.length) ∨
    (x.head = '[' ∧ ']' ∉ x.body) := by
  have spread {c : Char} : c ∈ [':', ';'] ↔ ∃ kind, (c, kind) ∈ spreads := by
    simp [spreads, exists_or]
  rw [spread, List.all_eq_true, List.all_eq_true]
  constructor
  · rintro ⟨f, hf⟩
    cases hf with
    | unknown not_blank not_sign not_digit => exact .inl ⟨rfl, not_blank, not_sign, not_digit⟩
    | bareSpread spread => exact .inr (.inl ⟨⟨_, spread⟩, .inl rfl⟩)
    | longSpread spread digits long => exact .inr (.inl ⟨⟨_, spread⟩, .inr ⟨digits, long⟩⟩)
    | longNumber digits long => exact .inr (.inr (.inl ⟨digits, long⟩))
    | openBlock not_closed => exact .inr (.inr (.inr ⟨rfl, not_closed⟩))
  · obtain ⟨c, body⟩ := x
    rintro (⟨rfl, not_blank, not_sign, not_digit⟩ | ⟨⟨_, spread⟩, rfl | ⟨digits, long⟩⟩ |
      ⟨digits, long⟩ | ⟨rfl, not_closed⟩)
    · exact ⟨_, .unknown not_blank not_sign not_digit⟩
    · exact ⟨_, .bareSpread spread⟩
    · exact ⟨_, .longSpread spread digits long⟩
    · exact ⟨_, .longNumber digits long⟩
    · exact ⟨_, .openBlock not_closed⟩

instance : DecidablePred Malformed := fun _ => decidable_of_iff' _ malformed_iff

theorem reading_spread {c : Char} {kind : Token.Kind} (h : (c, kind) ∈ spreads) (ds : List Char) :
    reading ⟨c, ds⟩ = spreadReading kind ds := by
  simp only [spreads, List.mem_cons, Prod.mk.injEq, List.not_mem_nil, or_false] at h
  rcases h with ⟨rfl, rfl⟩ | ⟨rfl, rfl⟩
  · rfl
  · rfl

theorem Flaw.reading {x : Lexeme} {f : Fault} (h : x.Flaw f) : x.reading = .fault f := by
  cases h with
  | @unknown c not_blank not_sign not_digit =>
    simp only [List.mem_cons, List.not_mem_nil, or_false, not_or] at not_sign
    have hn : isNoteName c = false := by
      refine Bool.eq_false_iff.2 fun hn => ?_
      have := isNoteName_iff.1 hn
      simp only [List.mem_cons, List.not_mem_nil, or_false] at this
      tauto
    simp [Lexeme.reading, not_sign, hn, not_digit, Char.not_le.2 not_blank]
  | bareSpread spread =>
    rw [reading_spread spread, spreadReading]
    rfl
  | longSpread spread digits long =>
    rw [reading_spread spread, spreadReading, Numeral.read_of_length_gt long]
  | @longNumber c ds digits long =>
    rw [reading_of_isDigit (digits c List.mem_cons_self), numberReading,
      show text ⟨c, ds⟩ = c :: ds from rfl, Numeral.read_of_length_gt long]
  | openBlock not_closed =>
    show blockReading _ = _
    rw [blockReading, if_neg fun h => not_closed (List.mem_of_getLast? h)]

/-- A character on its own is a blank or a sign, or it is malformed. -/
theorem single_cases (c : Char) :
    c ≤ ' ' ∨ (∃ s : Sign, s.lexeme = ⟨c, []⟩) ∨ Malformed ⟨c, []⟩ := by
  by_cases hblank : c ≤ ' '
  · exact .inl hblank
  refine .inr ?_
  by_cases hletter : c ∈ ['A', 'B', 'C', 'D', 'E', 'F', 'G']
  · exact .inl ⟨.note ⟨c, hletter⟩ none, rfl⟩
  by_cases hdigit : c.isDigit = true
  · have hlength : 1 ≤ Numeral.digitLimit := by decide
    exact .inl ⟨.number ⟨[c], List.forall_mem_singleton.2 hdigit, List.cons_ne_nil c [], hlength⟩,
      rfl⟩
  by_cases hmark : c ∈ ['.', ',', ':', ';', '[']
  · simp only [List.mem_cons, List.not_mem_nil, or_false] at hmark
    rcases hmark with rfl | rfl | rfl | rfl | rfl
    · exact .inl ⟨.empty, rfl⟩
    · exact .inl ⟨.next, rfl⟩
    · exact .inr (malformed_iff.2 (.inr (.inl ⟨by decide, .inl rfl⟩)))
    · exact .inr (malformed_iff.2 (.inr (.inl ⟨by decide, .inl rfl⟩)))
    · exact .inr ⟨_, .openBlock List.not_mem_nil⟩
  · refine .inr ⟨_, .unknown (Char.not_le.1 hblank) ?_ (Bool.eq_false_iff.2 hdigit)⟩
    rw [show ['A', 'B', 'C', 'D', 'E', 'F', 'G', '.', ',', ':', ';', '['] =
      ['A', 'B', 'C', 'D', 'E', 'F', 'G'] ++ ['.', ',', ':', ';', '['] from rfl, List.mem_append]
    exact not_or.2 ⟨hletter, hmark⟩

/-- A spread is a sign, or it is malformed. -/
theorem spread_cases {c : Char} {ds : List Char} (hc : c ∈ [':', ';'])
    (digits : ∀ d ∈ ds, d.isDigit = true) :
    (∃ s : Sign, s.lexeme = ⟨c, ds⟩) ∨ Malformed ⟨c, ds⟩ := by
  by_cases hne : ds = []
  · exact .inr (malformed_iff.2 (.inr (.inl ⟨hc, .inl hne⟩)))
  by_cases long : Numeral.digitLimit < ds.length
  · exact .inr (malformed_iff.2 (.inr (.inl ⟨hc, .inr ⟨List.all_eq_true.2 digits, long⟩⟩)))
  · refine .inl ?_
    rcases List.mem_pair.1 hc with rfl | rfl
    · exact ⟨.spreadEmpty ⟨ds, digits, hne, Nat.not_lt.1 long⟩, rfl⟩
    · exact ⟨.spreadNext ⟨ds, digits, hne, Nat.not_lt.1 long⟩, rfl⟩

/-- A lexeme is a blank or a sign, or it is malformed. -/
theorem Formed.cases {x : Lexeme} (hx : x.Formed) :
    x.head ≤ ' ' ∨ (∃ s : Sign, s.lexeme = x) ∨ x.Malformed := by
  cases hx with
  | single c => exact single_cases c
  | @modified c m letter modifier =>
    exact .inr (.inl ⟨.note ⟨c, letter⟩ (some ⟨m, modifier⟩), rfl⟩)
  | @digits c ds front digits =>
    rcases front with spread | digit
    · exact .inr (spread_cases spread digits)
    · have hall : ∀ d ∈ c :: ds, d.isDigit = true := List.forall_mem_cons.2 ⟨digit, digits⟩
      by_cases long : Numeral.digitLimit < (c :: ds).length
      · exact .inr (.inr ⟨_, .longNumber hall long⟩)
      · exact .inr (.inl ⟨.number ⟨c :: ds, hall, List.cons_ne_nil c ds, Nat.not_lt.1 long⟩, rfl⟩)
  | @block inner inside => exact .inr (.inl ⟨.block ⟨inner, inside⟩, rfl⟩)
  | openBlock not_closed => exact .inr (.inr ⟨_, .openBlock not_closed⟩)

/-- A scan finds wrong with a lexeme what is wrong with it. -/
theorem reading_eq_fault_iff {x : Lexeme} (hx : x.Formed) {f : Fault} :
    x.reading = .fault f ↔ x.Flaw f := by
  refine ⟨fun hf => ?_, Flaw.reading⟩
  rcases hx.cases with hblank | ⟨s, rfl⟩ | ⟨g, hg⟩
  · rw [reading_of_le hblank] at hf
    cases hf
  · rw [s.reading_lexeme] at hf
    cases hf
  · rw [hg.reading, Reading.fault.injEq] at hf
    exact hf ▸ hg

theorem Malformed.isFaulty {x : Lexeme} (hx : x.Malformed) : x.IsFaulty :=
  hx.imp fun _ => Flaw.reading

theorem isFaulty_iff_malformed {x : Lexeme} (hx : x.Formed) : x.IsFaulty ↔ x.Malformed :=
  exists_congr fun _ => reading_eq_fault_iff hx

theorem diagnostic?_eq_some_iff {x : Lexeme} (hx : x.Formed) {line : Nat} {d : Diagnostic} :
    diagnostic? line x = some d ↔ ∃ f, x.Flaw f ∧ d = ⟨line, f.message⟩ := by
  simp only [← reading_eq_fault_iff hx, diagnostic?]
  cases x.reading <;> simp [eq_comm]

/-! ## Blanks -/

theorem not_takes_blankLexeme {c : Char} (hc : c ≤ ' ') (d : Char) :
    ¬ (blankLexeme c).Takes d := by
  intro h
  generalize hx : blankLexeme c = x at h
  cases h with
  | modifier letter =>
    obtain ⟨rfl, -⟩ := Lexeme.mk.inj hx
    exact Bool.eq_false_iff.1 (not_isNoteName_of_le hc) (isNoteName_iff.2 letter)
  | digit front =>
    obtain ⟨rfl, -⟩ := Lexeme.mk.inj hx
    rcases front with spread | digit
    · rcases List.mem_pair.1 spread with rfl | rfl
      · exact absurd hc (by decide)
      · exact absurd hc (by decide)
    · exact Bool.eq_false_iff.1 (not_isDigit_of_le hc) digit
  | inner =>
    obtain ⟨rfl, -⟩ := Lexeme.mk.inj hx
    exact absurd hc (by decide)

/-- Nothing takes a blank but a block that is not closed. -/
theorem not_takes_of_le {x : Lexeme} (hx : ¬ x.Flaw .unterminated) {d : Char} (hd : d ≤ ' ') :
    ¬ x.Takes d := by
  intro h
  cases h with
  | modifier letter modifier =>
    exact Bool.eq_false_iff.1 (not_isModifier_of_le hd) (isModifier_iff.2 modifier)
  | digit front digit => exact Bool.eq_false_iff.1 (not_isDigit_of_le hd) digit
  | inner not_closed => exact hx (.openBlock not_closed)

end Lexeme

end Tablature
