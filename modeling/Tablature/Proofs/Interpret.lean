import Tablature.Interpret
import Tablature.Proofs.Render
import Tablature.Proofs.Token.Grammar

/-!
# What interpreting a source gives

A source has a tablature, unless it has faulty lexemes, or rejected options blocks, or a step
without a label.

* `interpret_outcome`: which of them it is, for every source;
* `interpret_of_huge_fidelity`: a source without faults in its lexemes and options blocks that
  still has no tablature.
-/

namespace Tablature

theorem interpret_eq (source : String) :
    interpret source =
      match tokenize source with
      | .error diagnostics => .error (.lexical diagnostics)
      | .ok tokens => (render tokens).mapError .render := by
  simp only [interpret, Interpretation.ofSource, tokenize]
  cases (Scan.ofText source).result <;> rfl

theorem interpret_of_tokenize {source : String} {tokens : List Token}
    (h : tokenize source = .ok tokens) : interpret source = (render tokens).mapError .render := by
  rw [interpret_eq, h]

/-- What interpreting a source gives. -/
theorem interpret_outcome (source : String) :
    ((∃ diagnostics, interpret source = .error (.lexical diagnostics)) ↔
        ∃ x ∈ Lexeme.lexemes source.toList, x.IsFaulty) ∧
      match tokenize source with
      | .error diagnostics => interpret source = .error (.lexical diagnostics)
      | .ok tokens =>
        ((∃ text, interpret source = .ok text) ↔
            (Plan.ofTokens tokens).IsPlayable ∧ tokens.filterMap Token.rejection? = []) ∧
          ((∃ diagnostics, interpret source = .error (.render (.rejected diagnostics))) ↔
            (Plan.ofTokens tokens).IsPlayable ∧ tokens.filterMap Token.rejection? ≠ []) ∧
          ((∃ e, interpret source = .error (.render (.stopped (.label e))) ∧
              (e = .resolutionOverflow ∨ e = .tooManyDigits)) ↔
            ¬ (Plan.ofTokens tokens).IsPlayable) := by
  rw [← exists_tokenize_eq_error_iff, interpret_eq]
  cases tokenize source with
  | error diagnostics =>
    exact ⟨iff_of_true ⟨_, rfl⟩ ⟨_, rfl⟩, rfl⟩
  | ok tokens =>
    refine ⟨?_, ?_⟩
    · refine iff_of_false ?_ (by simp)
      cases hr : render tokens <;> simp [hr, Except.mapError]
    · by_cases hp : (Plan.ofTokens tokens).IsPlayable
      · obtain ⟨hok, hrejected⟩ := render_of_isPlayable hp
        by_cases hn : tokens.filterMap Token.rejection? = []
        · obtain ⟨text, htext⟩ := hok hn
          simp [htext, hp, hn, Except.mapError]
        · simp [hrejected hn, hp, hn, Except.mapError]
      · obtain ⟨e, he, hcause⟩ := render_of_not_isPlayable hp
        simp [he, hp, hcause, Except.mapError]

/-- One cell on one string, behind an options block: `[...]E .`. -/
def oneCell (block : { cs : List Char // ']' ∉ cs }) : Layout where
  indent := []
  words := [⟨.block block, [], List.forall_mem_nil _⟩,
    ⟨.note ⟨'E', by decide⟩ none, [' '], by simp⟩, ⟨.empty, [], List.forall_mem_nil _⟩]
  indent_le := List.forall_mem_nil _
  apart := by simp [Word.Apart, Sign.EndsInDigits]

theorem text_oneCell (block : { cs : List Char // ']' ∉ cs }) :
    (oneCell block).text = '[' :: (block.val ++ [']', 'E', ' ', '.']) := by
  simp [oneCell, Layout.text, Word.text, Sign.text]

theorem ofTokens_oneCell (block : { cs : List Char // ']' ∉ cs }) :
    let m := (Setting.segments (String.ofList block.val)).foldl Setting.applySegment .common
    Plan.ofTokens (oneCell block).tokens = ⟨[⟨["E"], m, [.empty], List.cons_ne_nil _ _⟩], m⟩ := rfl

theorem rejections_oneCell {block : { cs : List Char // ']' ∉ cs }}
    (h : Setting.faults (String.ofList block.val) = []) :
    (oneCell block).tokens.filterMap Token.rejection? = [] := by
  refine (List.filterMap_cons_none ?_).trans rfl
  exact if_pos h

/-- The fidelity `10 ^ 309`. -/
def hugeFidelity : List Char := "fidelity=1".toList ++ List.replicate 309 '0'

/-- A source whose lexemes and options are accepted, and that has no tablature. -/
theorem interpret_of_huge_fidelity :
    let source := String.ofList ('[' :: (hugeFidelity ++ [']', 'E', ' ', '.']))
    (∃ tokens, tokenize source = .ok tokens ∧ tokens.filterMap Token.rejection? = []) ∧
      ∃ e, interpret source = .error (.render (.stopped (.label e))) := by
  intro source
  let block : { cs : List Char // ']' ∉ cs } := ⟨hugeFidelity, by decide +kernel⟩
  have htokens : tokenize source = .ok (oneCell block).tokens :=
    Layout.tokenize_text (by rw [text_oneCell, String.toList_ofList])
  have hfaults : Setting.faults (String.ofList hugeFidelity) = [] := by
    rw [Setting.faults, Setting.segments, String.toList_ofList]
    decide +kernel
  have hmeter : (Setting.segments (String.ofList hugeFidelity)).foldl Setting.applySegment .common =
      ⟨4, 4, 10 ^ 309, by decide, by decide, by decide +kernel⟩ := by
    rw [Setting.segments, String.toList_ofList]
    decide +kernel
  have hnot : ¬ (Plan.ofTokens (oneCell block).tokens).IsPlayable := by
    rw [ofTokens_oneCell, hmeter]
    intro h
    exact absurd ((h _ List.mem_cons_self).1 (List.cons_ne_nil _ _))
      (by unfold Meter.Fits; decide +kernel)
  refine ⟨⟨_, htokens, ?_⟩, ?_⟩
  · exact rejections_oneCell hfaults
  · obtain ⟨e, he, -⟩ := render_of_not_isPlayable hnot
    refine ⟨e, ?_⟩
    rw [interpret_of_tokenize htokens, he]
    rfl

end Tablature
