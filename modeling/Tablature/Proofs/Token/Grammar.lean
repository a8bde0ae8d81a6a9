import Tablature.Proofs.Token.Flaw

/-!
# The grammar of the notation

A source has tokens exactly when it can be laid out as signs and gaps, and then in one way only:

* `Layout.tokenize_text`: a source that is laid out has the tokens of its signs;
* `Layout.eq_of_text_eq`: two layouts of one source are the same;
* `exists_layout`: a source without faulty lexemes can be laid out;
* `tokenize_eq_ok_iff_layout`: all of it together.
-/

namespace Tablature

open Lexeme

/-! ## The tokens of a layout -/

theorem flatMap_text_gap (gap : List Char) : (gap.map blankLexeme).flatMap Lexeme.text = gap := by
  induction gap with
  | nil => rfl
  | cons c gap ih => rw [List.map_cons, List.flatMap_cons, ih]; rfl

/-- Nothing is found in a gap by what finds nothing in a blank. -/
theorem findFrom_gap {α : Type} {find : Nat → Lexeme → Option α}
    (hf : ∀ line x, x.reading = .blank → find line x = none) {gap : List Char}
    (h : ∀ c ∈ gap, c ≤ ' ') (line : Nat) : findFrom find line (gap.map blankLexeme) = [] := by
  induction gap generalizing line with
  | nil => rfl
  | cons c gap ih =>
    rw [List.map_cons, findFrom, hf _ _ (reading_blankLexeme (h c List.mem_cons_self)),
      ih fun d hd => h d (List.mem_cons_of_mem _ hd)]
    rfl

theorem token?_of_blank (line : Nat) (x : Lexeme) (h : x.reading = .blank) :
    token? line x = none := by
  simp only [token?, h]

/-- The tokens of the words behind a text are those that a scan finds from its last line on. -/
theorem findFrom_token?_words (before : List Char) (ws : List Word) :
    findFrom token? (1 + before.count '\n') (ws.flatMap Word.lexemes) = Word.tokens before ws := by
  induction ws generalizing before with
  | nil => rfl
  | cons w ws ih =>
    have ht : token? (endLine (1 + before.count '\n') w.sign.lexeme) w.sign.lexeme =
        some ⟨w.sign.kind, String.ofList w.sign.text, w.sign.literal,
          (1 + (before ++ w.sign.text).count '\n' : Nat)⟩ := by
      rw [token?, w.sign.reading_lexeme, endLine, w.sign.text_lexeme, List.count_append,
        Nat.add_assoc]
    have hl : endLine (1 + before.count '\n') w.sign.lexeme + w.gap.count '\n' =
        1 + (before ++ w.text).count '\n' := by
      rw [endLine, w.sign.text_lexeme, Word.text, List.count_append, List.count_append]
      omega
    rw [List.flatMap_cons, Word.lexemes, List.cons_append, findFrom, ht, findFrom_append,
      findFrom_gap token?_of_blank w.gap_le, flatMap_text_gap, hl, ih]
    rfl

namespace Layout

theorem findFrom_token?_text (l : Layout) :
    findFrom token? 1 (lexemes l.text) = Word.tokens l.indent l.words := by
  rw [l.lexemes_text, findFrom_append, findFrom_gap token?_of_blank l.indent_le, flatMap_text_gap,
    findFrom_token?_words]
  rfl

theorem not_isFaulty_of_mem (l : Layout) {x : Lexeme} (hx : x ∈ lexemes l.text) :
    ¬ x.IsFaulty := by
  have blank {gap : List Char} (h : ∀ c ∈ gap, c ≤ ' ') (hx : x ∈ gap.map blankLexeme) :
      ¬ x.IsFaulty := by
    obtain ⟨c, hc, rfl⟩ := List.mem_map.1 hx
    rintro ⟨f, hf⟩
    rw [reading_blankLexeme (h c hc)] at hf
    cases hf
  rw [l.lexemes_text, List.mem_append] at hx
  rcases hx with hx | hx
  · exact blank l.indent_le hx
  · obtain ⟨w, -, hx⟩ := List.mem_flatMap.1 hx
    rcases List.mem_cons.1 hx with rfl | hx
    · rintro ⟨f, hf⟩
      rw [w.sign.reading_lexeme] at hf
      cases hf
    · exact blank w.gap_le hx

/-- A source that is laid out has the tokens of its signs. -/
theorem tokenize_text {l : Layout} {source : String} (h : l.text = source.toList) :
    tokenize source = .ok l.tokens := by
  rw [tokenize_eq_ok_iff_lexemes, ← h, l.findFrom_token?_text]
  exact ⟨fun x hx => l.not_isFaulty_of_mem hx, rfl⟩

end Layout

/-! ## Two layouts of one source -/

theorem Sign.eq_of_text_eq {x y : Sign} (hk : x.kind = y.kind) (ht : x.text = y.text) : x = y := by
  have digits {a b : Digits} (h : a.chars = b.chars) : a = b := by
    cases a; cases b; cases h; rfl
  cases x with
  | empty => cases y <;> first | rfl | cases hk
  | next => cases y <;> first | rfl | cases hk
  | note l m =>
    cases y with
    | note l' m' =>
      obtain ⟨hl, hm⟩ := List.cons.inj ht
      have hm : m = m' := by
        rcases m with _ | m <;> rcases m' with _ | m'
        · rfl
        · cases hm
        · cases hm
        · rw [Subtype.ext (List.cons.inj hm).1]
      rw [Subtype.ext hl, hm]
    | _ => cases hk
  | spreadEmpty ds =>
    cases y with
    | spreadEmpty ds' => rw [digits (List.cons.inj ht).2]
    | _ => cases hk
  | spreadNext ds =>
    cases y with
    | spreadNext ds' => rw [digits (List.cons.inj ht).2]
    | _ => cases hk
  | number ds =>
    cases y with
    | number ds' => rw [digits ht]
    | _ => cases hk
  | block inner =>
    cases y with
    | block inner' => rw [Subtype.ext (List.append_cancel_right (List.cons.inj ht).2)]
    | _ => cases hk

theorem Sign.eq_of_lexeme_eq {x y : Sign} (h : x.lexeme = y.lexeme) : x = y := by
  have hr := x.reading_lexeme
  rw [h, y.reading_lexeme, Reading.token.injEq] at hr
  exact eq_of_text_eq hr.1.symm (by rw [← x.text_lexeme, h, y.text_lexeme])

/-- A gap goes as far as the blanks do, which begin no word. -/
theorem gap_eq_of_append_eq {gap gap' : List Char} (h : ∀ c ∈ gap, c ≤ ' ')
    (h' : ∀ c ∈ gap', c ≤ ' ') {ws ws' : List Word}
    (e : gap ++ ws.flatMap Word.text = gap' ++ ws'.flatMap Word.text) :
    gap = gap' ∧ ws.flatMap Word.text = ws'.flatMap Word.text := by
  have stop (ws : List Word) : ∀ c ∈ (ws.flatMap Word.text).head?, decide (c ≤ ' ') = false := by
    intro c hc
    cases ws with
    | nil => cases hc
    | cons w ws =>
      rw [List.flatMap_cons, Word.head?_text] at hc
      exact decide_eq_false (Char.not_le.2 (Sign.lt_of_mem_head? hc))
  have hg := congrArg (List.takeWhile fun c => decide (c ≤ ' ')) e
  rw [Sign.takeWhile_append_of_head? (by simpa using h) (stop ws),
    Sign.takeWhile_append_of_head? (by simpa using h') (stop ws')] at hg
  subst hg
  exact ⟨rfl, List.append_cancel_left e⟩

theorem Word.eq_of_flatMap_text_eq {ws ws' : List Word} (h : ws.IsChain Apart)
    (h' : ws'.IsChain Apart) (e : ws.flatMap text = ws'.flatMap text) : ws = ws' := by
  have hl : ws.flatMap lexemes = ws'.flatMap lexemes := by
    rw [← lexemes_flatMap_text h, ← lexemes_flatMap_text h', e]
  induction ws generalizing ws' with
  | nil =>
    cases ws' with
    | nil => rfl
    | cons w ws' => cases hl
  | cons v ws ih =>
    cases ws' with
    | nil => cases hl
    | cons w ws' =>
      -- the first sign is the first lexeme, and what follows it is the same gap and the same words
      obtain ⟨hs, hr⟩ := List.cons.inj hl
      have hs := Sign.eq_of_lexeme_eq hs
      rw [List.flatMap_cons, List.flatMap_cons, text, text, hs, List.append_assoc,
        List.append_assoc] at e
      obtain ⟨hg, e⟩ := gap_eq_of_append_eq v.gap_le w.gap_le (List.append_cancel_left e)
      rw [hg] at hr
      obtain rfl := ih (List.isChain_cons.1 h).2 (List.isChain_cons.1 h').2 e
        (List.append_cancel_left hr)
      cases v; cases w; cases hs; cases hg; rfl

/-- A source is laid out in one way only. -/
theorem Layout.eq_of_text_eq {l l' : Layout} (h : l.text = l'.text) : l = l' := by
  obtain ⟨hi, hw⟩ := gap_eq_of_append_eq l.indent_le l'.indent_le h
  have hw := Word.eq_of_flatMap_text_eq l.apart l'.apart hw
  cases l; cases l'; cases hi; cases hw; rfl

/-! ## Laying out a source -/

/-- A sign that ends in digits takes the digit behind it. -/
theorem Sign.takes_digit {x : Sign} (h : x.EndsInDigits) {d : Char} (hd : d.isDigit = true) :
    x.lexeme.Takes d := by
  cases x with
  | spreadEmpty amount => exact .digit (.inl List.mem_cons_self) hd
  | spreadNext amount => exact .digit (.inl (List.mem_cons_of_mem _ List.mem_cons_self)) hd
  | number ds => exact .digit (.inr (ds.isDigit _ (List.head_mem ds.ne_nil))) hd
  | _ => exact h.elim

/-- The layout of `rest`, with a sign in front of it that takes no digit of it. -/
theorem exists_layout_sign {x : Sign} {l : Layout}
    (h : x.EndsInDigits → ∀ d ∈ l.text.head?, d.isDigit = false) :
    ∃ l' : Layout, l'.text = x.text ++ l.text := by
  refine ⟨⟨[], ⟨x, l.indent, l.indent_le⟩ :: l.words, List.forall_mem_nil _, ?_⟩, ?_⟩
  · refine List.isChain_cons.2 ⟨fun w hw hx hn hg => ?_, l.apart⟩
    -- without a gap the digits of a number would be in front of the rest
    obtain ⟨ws, hws⟩ : ∃ ws, l.words = w :: ws := by
      cases hl : l.words with
      | nil => rw [hl] at hw; cases hw
      | cons v ws => rw [hl] at hw; cases hw; exact ⟨ws, rfl⟩
    have hg : l.indent = [] := hg
    have ht : l.text.head? = w.sign.text.head? := by
      rw [Layout.text, hg, hws, List.nil_append, List.flatMap_cons, Word.head?_text]
    cases hs : w.sign with
    | number ds =>
      have hd := h hx (ds.chars.head ds.ne_nil) (by
        rw [ht, hs]; exact List.head?_eq_some_head ds.ne_nil)
      rw [ds.isDigit _ (List.head_mem ds.ne_nil)] at hd
      cases hd
    | _ => rw [hs] at hn; exact hn
  · simp [Layout.text, Word.text]

/-- A source without faulty lexemes can be laid out. -/
theorem exists_layout {cs : List Char} (h : ∀ x ∈ lexemes cs, ¬ x.IsFaulty) :
    ∃ l : Layout, l.text = cs := by
  induction cs using induction_rest with
  | nil => exact ⟨⟨[], [], List.forall_mem_nil _, .nil⟩, rfl⟩
  | cons c cs ih =>
    rw [lexemes_cons, List.forall_mem_cons] at h
    obtain ⟨l, hl⟩ := ih h.2
    rcases (formed_first c cs).cases with hc | ⟨x, hx⟩ | hx
    · have hc : c ≤ ' ' := hc
      refine ⟨⟨c :: l.indent, l.words, ?_, l.apart⟩, ?_⟩
      · exact List.forall_mem_cons.2 ⟨hc, l.indent_le⟩
      · rw [rest_of_le hc] at hl
        rw [← hl, Layout.text, List.cons_append, Layout.text]
    · have hends : x.EndsInDigits → ∀ d ∈ l.text.head?, d.isDigit = false := by
        intro e d hd
        rw [hl] at hd
        refine Bool.eq_false_iff.2 fun hdigit => ?_
        exact not_takes_of_mem_head?_rest d hd (hx ▸ x.takes_digit e hdigit)
      obtain ⟨l', hl'⟩ := exists_layout_sign hends
      have ht : x.text = c :: bodyOf c cs := by rw [← x.text_lexeme, hx]; rfl
      exact ⟨l', by rw [hl', ht, hl, List.cons_append, bodyOf_append_rest]⟩
    · exact absurd hx.isFaulty h.1

/-- A source has tokens exactly when it can be laid out, they are the tokens of its layout, and it
has no other layout. -/
theorem tokenize_eq_ok_iff_layout (source : String) (tokens : List Token) :
    (tokenize source = .ok tokens ↔ ∃ l : Layout, l.text = source.toList ∧ tokens = l.tokens) ∧
      ∀ l l' : Layout, l.text = source.toList → l'.text = source.toList → l = l' := by
  refine ⟨⟨fun h => ?_, ?_⟩, fun l l' hl hl' => Layout.eq_of_text_eq (hl.trans hl'.symm)⟩
  · obtain ⟨l, hl⟩ := exists_layout (tokenize_eq_ok_iff_lexemes.1 h).1
    have ht := Layout.tokenize_text hl
    rw [h, Except.ok.injEq] at ht
    exact ⟨l, hl, ht⟩
  · rintro ⟨l, hl, rfl⟩
    exact Layout.tokenize_text hl

end Tablature
