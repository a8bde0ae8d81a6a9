import Tablature.Proofs.Render
import Tablature.Proofs.Score.Behind
import Tablature.Proofs.Setting

/-!
# Rendering staff by staff

Tokens that start a new staff are rendered as if they stood alone, in the meter that options blocks
have set before them: nothing else of the earlier tokens matters, except that their text comes in
front.

* `step_behind`: a token does the same with finished staffs in front;
* `isWritable_defaults`: the meter set by tokens can be written as an options block;
* `render_append`: the text of tokens and of the staffs that come after them.
-/

namespace Tablature

/-- The token of an options block that sets a meter. -/
def Token.settings (m : Meter) (text : String) (line : Int) : Token :=
  ⟨.options, text, some (.options m.block), line⟩

namespace Rendering

/-- The second rendering has come as far as the first, with staffs in front of its own. What has
been reported does not matter. -/
structure Behind (earlier : List Staff) (r r' : Rendering) : Prop where
  score : r'.score = r.score.behind earlier
  diagnostics : r'.diagnostics = r.diagnostics
  /-- Both write on the same staff. -/
  started : r.score.newestFirst ≠ []

variable {earlier : List Staff} {r r' : Rendering}

/-- A note does the same with staffs in front, if they do not decide whether it starts a staff. -/
theorem note_behind (name : String) (hscore : r'.score = r.score.behind earlier)
    (hdiagnostics : r'.diagnostics = r.diagnostics)
    (hopens : r'.score.opensStaff = r.score.opensStaff) :
    Behind earlier (r.note name).state (r'.note name).state ∧
      (r'.note name).fault = (r.note name).fault := by
  rw [hscore] at hopens
  have hnote := Score.addNote_behind name hopens
  rw [← hscore] at hnote
  refine ⟨⟨congrArg Outcome.state hnote, hdiagnostics, ?_⟩, ?_⟩
  · exact Score.newestFirst_addNote_ne_nil _ _
  · simp only [note, hnote, Outcome.map, Option.map_map, Function.comp_id]

theorem stroke_behind (k : Staff.Stroke) (h : Behind earlier r r') :
    Behind earlier (r.stroke k).state (r'.stroke k).state ∧
      (r'.stroke k).fault = (r.stroke k).fault := by
  have hstroke := Score.stroke_behind k h.started earlier
  rw [← h.score] at hstroke
  refine ⟨⟨congrArg Outcome.state hstroke, h.diagnostics, ?_⟩, ?_⟩
  · exact Score.newestFirst_onCurrent_ne_nil _ h.started
  · simp only [stroke, hstroke, Outcome.map, Option.map_map, Function.comp_id]

theorem options_behind (block : String) (line : Int) (h : Behind earlier r r') :
    Behind earlier (r.options block line) (r'.options block line) := by
  have hset := Score.setOptions_behind block r.score earlier
  rw [← h.score] at hset
  refine ⟨?_, ?_, ?_⟩
  · rw [score_options, score_options, hset]
    rfl
  · unfold options
    rw [hset]
    rcases r.score.setOptions block with ⟨score, _ | faults⟩
    · exact h.diagnostics
    · simp only [Outcome.map, Option.map_some, id_eq, h.diagnostics]
  · rw [score_options]
    exact h.started

/-- A token does the same with staffs in front. -/
theorem step_behind (t : Token) (h : Behind earlier r r') :
    Behind earlier (step t r).state (step t r').state ∧ (step t r').fault = (step t r).fault := by
  unfold step
  rcases t.command? with _ | name | k | block
  · exact ⟨h, rfl⟩
  · refine note_behind name h.score h.diagnostics ?_
    rw [h.score]
    exact Score.opensStaff_behind h.started earlier
  · exact stroke_behind k h
  · exact ⟨options_behind block t.line h, rfl⟩

/-- Tokens that begin with a note do the same with finished staffs in front. -/
theorem runAll_behind {t : Token} (ht : t.kind = .note) (tokens : List Token)
    (hscore : r'.score = r.score.behind earlier) (hdiagnostics : r'.diagnostics = r.diagnostics)
    (hopens : r'.score.opensStaff = r.score.opensStaff) :
    Behind earlier (Outcome.runAll step (t :: tokens) r).state
        (Outcome.runAll step (t :: tokens) r').state ∧
      (Outcome.runAll step (t :: tokens) r').fault =
        (Outcome.runAll step (t :: tokens) r).fault := by
  have hstep (r : Rendering) : step t r = r.note t.text := by
    simp only [step, Token.command?, ht]
  -- The score may have no staff before the note, so `step_behind` holds of the later tokens only.
  rw [Outcome.runAll_cons, Outcome.runAll_cons, hstep, hstep]
  exact Outcome.andThen_simulation (note_behind t.text hscore hdiagnostics hopens)
    fun s t => Outcome.runAll_simulation (fun t _ _ => step_behind t) tokens

/-! ## The meter that tokens set -/

theorem isWritable_step (t : Token) (h : r.score.defaults.IsWritable) :
    (step t r).state.score.defaults.IsWritable := by
  rw [defaults_step]
  exact h.foldl_applySegment _

/-- The meter set by tokens can be written as an options block. -/
theorem isWritable_defaults (tokens : List Token) (diagnostics : Diagnostics) :
    (ofTokens tokens diagnostics).state.score.defaults.IsWritable :=
  Outcome.runAll_invariant (P := fun r : Rendering => r.score.defaults.IsWritable)
    (fun t _ => isWritable_step t) tokens Meter.isWritable_common

/-- The token of a meter sets it. -/
theorem step_settings {m : Meter} (h : m.IsWritable) (text : String) (line : Int)
    (r : Rendering) :
    step (.settings m text line) r =
      .done { r with
        score := { r.score with defaults := m }
        events := r.events.push (.defaultsSet m) } := by
  show Outcome.done (r.options m.block line) = _
  simp only [options, Score.setOptions, Meter.configure_block_self h, Outcome.map_done]
  rfl

/-! ## Texts -/

/-- Only a rendering that came to its end and rejected nothing has its text given. -/
theorem eq_done_of_resultOf_eq_ok {o : Outcome Staff.Fault Rendering} {text : String}
    (h : resultOf o = .ok text) :
    ∃ r, o = .done r ∧ r.diagnostics = {} ∧ r.score.text = .ok text := by
  obtain ⟨r, fault⟩ := o
  unfold resultOf at h
  split at h
  · cases h
  · rename_i t ht
    unfold Renderer.verdict at h
    split at h
    · rename_i hempty
      cases h
      cases fault with
      | none => exact ⟨r, rfl, Diagnostics.eq_empty_of_isEmpty hempty, ht⟩
      | some e => cases ht
    · cases h

/-- The text of the staffs in front comes in front of what is given. -/
theorem resultOf_behind {o o' : Outcome Staff.Fault Rendering} {defaults : Meter}
    {before : String} (ho : Behind earlier o.state o'.state ∧ o'.fault = o.fault)
    (h : (⟨earlier, defaults⟩ : Score).text = .ok before) :
    resultOf o' = (resultOf o).map (before ++ ·) := by
  obtain ⟨hbehind, hfault⟩ := ho
  have htext : textOf o' = (textOf o).map (before ++ ·) := by
    unfold textOf
    rw [hfault]
    cases o.fault with
    | none => exact (congrArg Score.text hbehind.score).trans (Score.text_behind h _)
    | some e => rfl
  rw [resultOf, resultOf, htext, hbehind.diagnostics]
  cases textOf o with
  | error e => rfl
  | ok text =>
    show Renderer.verdict _ (before ++ text) = _
    unfold Renderer.verdict
    split <;> rfl

end Rendering

/-- Rendering goes staff by staff. Tokens that start a new staff come to the same end as they would
alone, in the meter that the earlier tokens have set: the same fault, or the same text behind
the earlier one. -/
theorem render_append {earlier later : List Token} {text : String}
    (hearlier : render earlier = .ok text)
    (hlast : ∀ staff ∈ (Rendering.ofTokens earlier {}).state.score.current?,
      staff.hasCells = true)
    (hlater : ∃ t ∈ later.head?, t.kind = .note) (name : String) (line : Int) :
    render (earlier ++ later) =
      (render (.settings (Rendering.ofTokens earlier {}).state.score.defaults name line ::
        later)).map (text ++ ·) := by
  have hm := Rendering.isWritable_defaults earlier {}
  rw [render_eq] at hearlier
  obtain ⟨r, hr, hdiagnostics, htext⟩ := Rendering.eq_done_of_resultOf_eq_ok hearlier
  obtain ⟨t, tokens, rfl⟩ : ∃ t tokens, later = t :: tokens := by
    cases later with
    | nil => simp at hlater
    | cons t tokens => exact ⟨t, tokens, rfl⟩
  have ht : t.kind = .note := by simpa using hlater
  rw [hr] at hlast hm ⊢
  have hboth : Rendering.ofTokens (earlier ++ t :: tokens) {} =
      Outcome.runAll Rendering.step (t :: tokens) r := by
    have hrun : Outcome.runAll Rendering.step earlier {} = .done r := hr
    rw [Rendering.ofTokens, Outcome.runAll_append, hrun, Outcome.done_andThen]
  have hopens : r.score.opensStaff = true := Score.opensStaff_iff.2 hlast
  rw [render_eq, render_eq, hboth, Rendering.ofTokens,
    Outcome.runAll_cons _ (Token.settings _ name line), Rendering.step_settings hm,
    Outcome.done_andThen]
  exact Rendering.resultOf_behind (Rendering.runAll_behind ht tokens rfl hdiagnostics hopens) htext

theorem render_append_of_two_staffs :
    let earlier : List Token := [⟨.options, "", some (.options "time=2/4; fidelity=8"), 1⟩,
      ⟨.note, "E", none, 1⟩, ⟨.number, "3", some (.number 3), 1⟩]
    let later : List Token := [⟨.note, "A", none, 2⟩, ⟨.empty, ".", none, 2⟩]
    render earlier = .ok "E  |-3-\n\n     1 \n\n" ∧
      (∀ staff ∈ (Rendering.ofTokens earlier {}).state.score.current?, staff.hasCells = true) ∧
      render (earlier ++ later) =
        (render (.settings ((Meter.common.setSignature 2 4).setFidelity 8) "" 1 :: later)).map
          ("E  |-3-\n\n     1 \n\n" ++ ·) := by
  intro earlier later
  have htext : render earlier = .ok "E  |-3-\n\n     1 \n\n" := by
    have h : (render earlier).toOption = some "E  |-3-\n\n     1 \n\n" := by decide +kernel
    cases hr : render earlier with
    | error e => rw [hr] at h; cases h
    | ok text => rw [hr] at h; cases h; rfl
  have hmeter : (Rendering.ofTokens earlier {}).state.score.defaults =
      (Meter.common.setSignature 2 4).setFidelity 8 := by decide +kernel
  have hlast : ∀ staff ∈ (Rendering.ofTokens earlier {}).state.score.current?,
      staff.hasCells = true := by decide +kernel
  refine ⟨htext, hlast, ?_⟩
  rw [← hmeter]
  exact render_append htext hlast ⟨_, rfl, rfl⟩ "" 1

end Tablature
