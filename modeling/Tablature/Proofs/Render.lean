import Tablature.Proofs.Rendering
import Tablature.Proofs.Score.Plan

/-!
# Rendering by plan

The tokens of a source make a plan. Rendering them comes to its end exactly if the plan is
playable; what it has recorded then are the rejected options blocks.

* `runAll_step`, `runAll_step_of_not`: the rendering keeps to the plan, or is stopped;
* `render_of_isPlayable`, `render_of_not_isPlayable`: what rendering tokens gives;
* `render_eq_ok_iff`: which tokens have a text.
-/

namespace Tablature

namespace Plan

/-- The plan with one more token. -/
def add (p : Plan) (t : Token) : Plan :=
  match t.command? with
  | none => p
  | some c => p.apply c

/-- The plan that tokens make. -/
def ofTokens (tokens : List Token) : Plan := tokens.foldl add {}

theorem IsPlayable.of_add {p : Plan} {t : Token} (h : (p.add t).IsPlayable) : p.IsPlayable := by
  unfold add at h
  split at h
  · exact h
  · exact h.of_apply

theorem IsPlayable.of_foldl_add {p : Plan} {tokens : List Token}
    (h : (tokens.foldl add p).IsPlayable) : p.IsPlayable := by
  induction tokens generalizing p with
  | nil => exact h
  | cons t tokens ih => exact (ih h).of_add

end Plan

namespace Rendering

/-- The rendering stands where the plan says, and has recorded the given rejections. -/
structure Follows (r : Rendering) (p : Plan) (rejections : List Diagnostic) : Prop where
  score : r.score = p.score
  diagnostics : r.diagnostics.entries.toList = rejections

variable {r : Rendering} {p : Plan} {t : Token} {rejections : List Diagnostic}

/-- A token of a playable plan is rendered. -/
theorem step_of_isPlayable (hr : r.Follows p rejections) (h : (p.add t).IsPlayable) :
    ∃ r', step t r = .done r' ∧ r'.Follows (p.add t) (rejections ++ t.rejection?.toList) := by
  have hstep : (step t r).fault = none ∧ (step t r).state.score = (p.add t).score := by
    rw [fault_step, score_step, hr.score]
    revert h
    unfold Plan.add
    rcases t.command? with _ | name | k | block <;> intro h
    · exact ⟨rfl, rfl⟩
    · simp only [Score.apply, Plan.addNote_score]
      exact ⟨rfl, rfl⟩
    · simp only [Score.apply, Plan.stroke_score h]
      exact ⟨rfl, rfl⟩
    · exact ⟨rfl, Plan.setOptions_score p block⟩
  refine ⟨(step t r).state, Outcome.eq_of_state_of_fault rfl hstep.1, hstep.2, ?_⟩
  rw [diagnostics_step, hr.diagnostics]

/-- A token that makes the plan unplayable stops the rendering. -/
theorem step_of_not_isPlayable (hr : r.Follows p rejections) (hp : p.IsPlayable)
    (h : ¬ (p.add t).IsPlayable) :
    ∃ r' e, step t r = .stopped r' (.label e) ∧
      (e = .resolutionOverflow ∨ e = .tooManyDigits) := by
  revert h
  unfold step Plan.add
  rcases t.command? with _ | name | k | block <;> intro h
  · exact absurd hp h
  · exact absurd (hp.note name) h
  · obtain ⟨s, e, hstop, he⟩ := Plan.stroke_score_of_not hp h
    obtain ⟨score, diagnostics, events⟩ := r
    obtain ⟨rfl, hd⟩ := hr
    refine ⟨⟨s, diagnostics, events⟩, e, ?_, he⟩
    show stroke k _ = _
    rw [stroke, hstop, Outcome.map_stopped]
    rfl
  · exact absurd hp h

/-- The rendering of the tokens of a playable plan. -/
theorem runAll_step {tokens : List Token} (hr : r.Follows p rejections)
    (h : (tokens.foldl Plan.add p).IsPlayable) :
    ∃ r', Outcome.runAll step tokens r = .done r' ∧
      r'.Follows (tokens.foldl Plan.add p) (rejections ++ tokens.filterMap Token.rejection?) := by
  induction tokens generalizing r p rejections with
  | nil => exact ⟨r, rfl, by rwa [List.filterMap_nil, List.append_nil]⟩
  | cons t tokens ih =>
    obtain ⟨r₁, hstep, hr₁⟩ := step_of_isPlayable hr (Plan.IsPlayable.of_foldl_add h)
    obtain ⟨r₂, hrun, hr₂⟩ := ih hr₁ h
    refine ⟨r₂, ?_, ?_⟩
    · rw [Outcome.runAll_cons, hstep, Outcome.done_andThen, hrun]
    · rw [List.append_assoc] at hr₂
      rwa [List.filterMap_eq_flatMap_toList, List.flatMap_cons,
        ← List.filterMap_eq_flatMap_toList]

/-- The rendering of tokens is stopped by the first one that makes the plan unplayable. -/
theorem runAll_step_of_not {tokens : List Token} (hr : r.Follows p rejections) (hp : p.IsPlayable)
    (h : ¬ (tokens.foldl Plan.add p).IsPlayable) :
    ∃ r' e, Outcome.runAll step tokens r = .stopped r' (.label e) ∧
      (e = .resolutionOverflow ∨ e = .tooManyDigits) := by
  induction tokens generalizing r p rejections with
  | nil => exact absurd hp h
  | cons t tokens ih =>
    rw [Outcome.runAll_cons]
    by_cases ht : (p.add t).IsPlayable
    · obtain ⟨r₁, hstep, hr₁⟩ := step_of_isPlayable hr ht
      rw [hstep, Outcome.done_andThen]
      exact ih hr₁ ht h
    · obtain ⟨r', e, hstop, he⟩ := step_of_not_isPlayable hr hp ht
      exact ⟨r', e, by rw [hstop, Outcome.stopped_andThen], he⟩

end Rendering

/-- What is given for a rendering. -/
def Rendering.resultOf (o : Outcome Staff.Fault Rendering) : Except RenderFault String :=
  match textOf o with
  | .error e => .error (.stopped e)
  | .ok text => Renderer.verdict o.state.diagnostics text

theorem render_eq (tokens : List Token) :
    render tokens = Rendering.resultOf (Rendering.ofTokens tokens {}) := by
  show (Renderer.renderNow { tokens }).result = _
  rw [Renderer.renderNow, Rendering.resultOf]
  cases Rendering.textOf (Rendering.ofTokens tokens {}) <;> rfl

/-- The tokens of a playable plan are rendered to the end, and have the text of the plan. -/
theorem ofTokens_of_isPlayable {tokens : List Token} (h : (Plan.ofTokens tokens).IsPlayable) :
    ∃ r text, Rendering.ofTokens tokens {} = .done r ∧ r.score.text = .ok text ∧
      (Plan.ofTokens tokens).score.text = .ok text ∧
      r.diagnostics = ⟨(tokens.filterMap Token.rejection?).toArray⟩ := by
  obtain ⟨r, hrun, hr⟩ := Rendering.runAll_step (r := {}) (p := {}) ⟨rfl, rfl⟩ h
  obtain ⟨text, htext⟩ := Plan.exists_text_score h
  have hd : r.diagnostics.entries.toList = tokens.filterMap Token.rejection? := hr.diagnostics
  exact ⟨r, text, hrun, (congrArg Score.text hr.score).trans htext, htext, by rw [← hd]⟩

/-- The text of a playable plan is what is given for its tokens, or withheld. -/
theorem render_eq_verdict {tokens : List Token} (h : (Plan.ofTokens tokens).IsPlayable) :
    ∃ text, (Plan.ofTokens tokens).score.text = .ok text ∧
      render tokens = Renderer.verdict ⟨(tokens.filterMap Token.rejection?).toArray⟩ text := by
  obtain ⟨r, text, hrun, htext, hplan, hd⟩ := ofTokens_of_isPlayable h
  have ht : Rendering.textOf (.done r) = .ok text := htext
  refine ⟨text, hplan, ?_⟩
  rw [render_eq, hrun, Rendering.resultOf, ht, ← hd]
  rfl

/-- The text of tokens of a playable plan is given unless blocks were rejected. -/
theorem render_of_isPlayable {tokens : List Token} (h : (Plan.ofTokens tokens).IsPlayable) :
    (tokens.filterMap Token.rejection? = [] → ∃ text, render tokens = .ok text) ∧
      (tokens.filterMap Token.rejection? ≠ [] →
        render tokens = .error (.rejected ⟨(tokens.filterMap Token.rejection?).toArray⟩)) := by
  obtain ⟨text, -, hrender⟩ := render_eq_verdict h
  rw [hrender, Renderer.verdict, Diagnostics.isEmpty]
  refine ⟨fun hnil => ⟨text, ?_⟩, fun hne => ?_⟩
  · rw [hnil]
    rfl
  · rw [if_neg]
    simpa using hne

/-- A plan that is not playable is not rendered to its end. -/
theorem render_of_not_isPlayable {tokens : List Token} (h : ¬ (Plan.ofTokens tokens).IsPlayable) :
    ∃ e, render tokens = .error (.stopped (.label e)) ∧
      (e = .resolutionOverflow ∨ e = .tooManyDigits) := by
  obtain ⟨r, e, hrun, he⟩ := Rendering.runAll_step_of_not (r := {}) (p := {}) ⟨rfl, rfl⟩
    (List.forall_mem_nil _) h
  have ho : Rendering.ofTokens tokens {} = .stopped r (.label e) := hrun
  refine ⟨e, ?_, he⟩
  rw [render_eq, ho]
  rfl

/-- The tokens that have a text, and the text that they have. -/
theorem render_eq_ok_iff {tokens : List Token} {text : String} :
    render tokens = .ok text ↔ (Plan.ofTokens tokens).IsPlayable ∧
      tokens.filterMap Token.rejection? = [] ∧ (Plan.ofTokens tokens).score.text = .ok text := by
  by_cases hp : (Plan.ofTokens tokens).IsPlayable
  · obtain ⟨text', hplan, hrender⟩ := render_eq_verdict hp
    rw [hrender, hplan, Renderer.verdict, Diagnostics.isEmpty]
    by_cases hnil : tokens.filterMap Token.rejection? = [] <;> simp [hp, hnil]
  · obtain ⟨e, he, -⟩ := render_of_not_isPlayable hp
    simp [he, hp]

end Tablature
