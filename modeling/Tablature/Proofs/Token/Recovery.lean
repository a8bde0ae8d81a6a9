import Tablature.Proofs.Token.Grammar

/-!
# Recovery from malformed lexemes

A malformed lexeme harms none of its neighbours. If the malformed lexemes of a source are
overwritten with spaces, the mended source has just the tokens that a scan of the faulty one keeps.

* `findFrom_token?_remains`: what remains of the lexemes has their tokens;
* `Division.mended`: the division of a mended source;
* `generate_recovers`: the tokens and the diagnostics of any source.
-/

namespace Tablature

namespace Lexeme

/-- The text of a lexeme, overwritten with spaces. Line feeds stay. -/
def overwritten (x : Lexeme) : List Char := x.text.map fun c => if c = '\n' then '\n' else ' '

/-- What stands in a mended source for a lexeme: a malformed one is overwritten. -/
def mendedText (x : Lexeme) : List Char := if x.Malformed then x.overwritten else x.text

/-- What becomes of a lexeme in the mended source: a malformed one is a gap now. -/
def remains (x : Lexeme) : List Lexeme :=
  if x.Malformed then x.overwritten.map blankLexeme else [x]

theorem flatMap_text_remains (x : Lexeme) : x.remains.flatMap text = x.mendedText := by
  unfold remains mendedText
  split
  · exact flatMap_text_gap _
  · exact List.flatMap_singleton text x

theorem overwritten_le (x : Lexeme) : ∀ c ∈ x.overwritten, c ≤ ' ' := by
  intro c hc
  obtain ⟨d, -, rfl⟩ := List.mem_map.1 hc
  split <;> decide

theorem count_mendedText (x : Lexeme) : x.mendedText.count '\n' = x.text.count '\n' := by
  unfold mendedText
  split
  · rw [overwritten, List.count_eq_countP, List.count_eq_countP, List.countP_map]
    refine List.countP_congr fun c _ => ?_
    by_cases hc : c = '\n' <;> simp [hc]
  · rfl

theorem count_flatMap_mendedText (xs : List Lexeme) :
    (xs.flatMap mendedText).count '\n' = (xs.flatMap text).count '\n' := by
  rw [List.count_flatMap, List.count_flatMap]
  exact congrArg (fun f => (xs.map f).sum) (funext count_mendedText)

/-- Lexemes that are not malformed remain, and the others leave blanks. -/
theorem mem_remains_cases {x y : Lexeme} (hy : y ∈ x.remains) :
    (∃ c ≤ ' ', y = blankLexeme c) ∨ (y = x ∧ ¬ x.Malformed) := by
  unfold remains at hy
  split at hy
  · obtain ⟨c, hc, rfl⟩ := List.mem_map.1 hy
    exact .inl ⟨c, overwritten_le x c hc, rfl⟩
  · rename_i hx
    exact .inr ⟨List.mem_singleton.1 hy, hx⟩

/-- What remains begins as the lexemes did, or with a blank. -/
theorem mem_head?_remains_cases {xs : List Lexeme} {y : Lexeme}
    (hy : y ∈ (xs.flatMap remains).head?) : y.head ≤ ' ' ∨ y ∈ xs.head? := by
  cases xs with
  | nil => cases hy
  | cons x xs =>
    have hne : x.remains ≠ [] := by
      unfold remains
      split
      · exact List.cons_ne_nil _ _
      · exact List.cons_ne_nil _ _
    rw [List.flatMap_cons, List.head?_append_of_ne_nil _ hne] at hy
    rcases mem_remains_cases (List.mem_of_mem_head? hy) with ⟨c, hc, rfl⟩ | ⟨rfl, -⟩
    · exact .inl hc
    · exact .inr rfl

theorem isChain_remains {xs : List Lexeme} (h : xs.IsChain fun x y => ¬ x.Takes y.head) :
    (xs.flatMap remains).IsChain fun x y => ¬ x.Takes y.head := by
  induction xs with
  | nil => exact .nil
  | cons x xs ih =>
    obtain ⟨hx, hxs⟩ := List.isChain_cons.1 h
    rw [List.flatMap_cons, List.isChain_append]
    refine ⟨?_, ih hxs, fun y hy z hz => ?_⟩
    · unfold remains
      split
      · refine (List.pairwise_of_forall_mem_list fun y hy z _ => ?_).isChain
        obtain ⟨c, hc, rfl⟩ := List.mem_map.1 hy
        exact not_takes_blankLexeme (overwritten_le x c hc) z.head
      · exact .singleton x
    · rcases mem_remains_cases (List.mem_of_mem_getLast? hy) with ⟨c, hc, rfl⟩ | ⟨rfl, hy⟩
      · exact not_takes_blankLexeme hc z.head
      · rcases mem_head?_remains_cases hz with hz | hz
        · exact not_takes_of_le (fun hopen => hy ⟨_, hopen⟩) hz
        · exact hx z hz

/-- A mended source is divided into what remains of the lexemes. -/
theorem Division.mended {cs : List Char} {xs : List Lexeme} (h : Division cs xs) :
    Division (xs.flatMap mendedText) (xs.flatMap remains) := by
  refine ⟨?_, fun y hy => ?_, isChain_remains h.apart⟩
  · rw [List.flatMap_assoc]
    exact List.flatMap_congr fun x _ => flatMap_text_remains x
  · obtain ⟨x, hx, hy⟩ := List.mem_flatMap.1 hy
    rcases mem_remains_cases hy with ⟨c, -, rfl⟩ | ⟨rfl, -⟩
    · exact .single c
    · exact h.formed y hx

theorem not_isFaulty_of_mem_remains {x y : Lexeme} (hx : x.Formed) (hy : y ∈ x.remains) :
    ¬ y.IsFaulty := by
  rcases mem_remains_cases hy with ⟨c, hc, rfl⟩ | ⟨rfl, hy⟩
  · rintro ⟨f, hf⟩
    rw [reading_blankLexeme hc] at hf
    cases hf
  · rwa [isFaulty_iff_malformed hx]

/-- What remains of lexemes has their tokens, on the same lines. -/
theorem findFrom_token?_remains (line : Nat) (xs : List Lexeme) :
    findFrom token? line (xs.flatMap remains) = findFrom token? line xs := by
  induction xs generalizing line with
  | nil => rfl
  | cons x xs ih =>
    rw [List.flatMap_cons, findFrom_append, ih, flatMap_text_remains, count_mendedText, findFrom,
      endLine]
    congr 1
    unfold remains
    split
    · rename_i hx
      obtain ⟨f, hf⟩ := hx
      rw [findFrom_gap token?_of_blank (overwritten_le x), token?, hf.reading]
      rfl
    · rw [findFrom, findFrom, List.append_nil, endLine]

/-- What is found in lexemes, by the text up to the end of each. -/
theorem findFrom_eq_filterMap_range {α : Type} (find : Nat → Lexeme → Option α) (line : Nat)
    (xs : List Lexeme) :
    findFrom find line xs = (List.range xs.length).filterMap fun i =>
      xs[i]?.bind (find (line + ((xs.take (i + 1)).flatMap text).count '\n')) := by
  induction xs generalizing line with
  | nil => rfl
  | cons x xs ih =>
    rw [findFrom, ih, List.length_cons, List.range_succ_eq_map, List.filterMap_eq_flatMap_toList,
      List.filterMap_eq_flatMap_toList, List.flatMap_cons, List.flatMap_map]
    congr 1
    · simp [endLine]
    · refine List.flatMap_congr fun i _ => ?_
      rw [List.getElem?_cons_succ, List.take_succ_cons, List.flatMap_cons, List.count_append,
        endLine, Nat.add_assoc]

end Lexeme

/-- A source is divided into lexemes in one way. Scanning it keeps the tokens of the source whose
malformed lexemes are overwritten, which has a layout. One diagnostic is recorded for each malformed
lexeme, at the line on which that ends, and the scan fails if there is one. -/
theorem generate_recovers (source : String) :
    ∃ xs : List Lexeme, (∀ ys, Lexeme.Division source.toList ys ↔ ys = xs) ∧
      let mended := xs.flatMap Lexeme.mendedText
      let scanned := ({ source } : Scanner).generate
      tokenize (String.ofList mended) = .ok scanned.2.tokens ∧
      (∃ l : Layout, l.text = mended ∧ l.tokens = scanned.2.tokens) ∧
      scanned.2.diagnostics.entries.toList = (List.range xs.length).filterMap (fun i =>
        xs[i]?.bind (Lexeme.diagnostic? (1 + ((xs.take (i + 1)).flatMap Lexeme.text).count '\n'))) ∧
      (∀ x ∈ xs, ∀ line d,
        Lexeme.diagnostic? line x = some d ↔ ∃ f, x.Flaw f ∧ d = ⟨line, f.message⟩) ∧
      ((∃ ds, scanned.1 = .error ds) ↔ ∃ x ∈ xs, x.Malformed) := by
  have hdivision := Lexeme.division_lexemes source.toList
  obtain ⟨htokens, hdiagnostics⟩ := Scan.ofText_eq source
  have hmended := hdivision.mended
  have hsound : ∀ y ∈ (Lexeme.lexemes source.toList).flatMap Lexeme.remains, ¬ y.IsFaulty := by
    intro y hy
    obtain ⟨x, hx, hy⟩ := List.mem_flatMap.1 hy
    exact Lexeme.not_isFaulty_of_mem_remains (hdivision.formed x hx) hy
  have htokenize : tokenize (String.ofList ((Lexeme.lexemes source.toList).flatMap
      Lexeme.mendedText)) = .ok ({ source } : Scanner).generate.2.tokens := by
    rw [tokenize_eq_ok_iff_lexemes, String.toList_ofList, ← hmended.eq_lexemes,
      Lexeme.findFrom_token?_remains, Lexeme.count_flatMap_mendedText, hdivision.flatMap_text,
      ← htokens]
    exact ⟨hsound, rfl⟩
  refine ⟨Lexeme.lexemes source.toList, fun ys => Lexeme.division_iff, htokenize, ?_, ?_, ?_, ?_⟩
  · obtain ⟨l, hl⟩ := exists_layout (hmended.eq_lexemes ▸ hsound)
    have hlayout := Layout.tokenize_text (hl.trans String.toList_ofList.symm)
    exact ⟨l, hl, Except.ok.inj (hlayout.symm.trans htokenize)⟩
  · rw [← Lexeme.findFrom_eq_filterMap_range]
    exact hdiagnostics
  · intro x hx line d
    exact Lexeme.diagnostic?_eq_some_iff (hdivision.formed x hx)
  · refine (exists_tokenize_eq_error_iff source).trans (exists_congr fun x => ?_)
    exact and_congr_right fun hx => Lexeme.isFaulty_iff_malformed (hdivision.formed x hx)

end Tablature
