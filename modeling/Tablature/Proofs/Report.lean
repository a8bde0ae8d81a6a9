import Tablature.Proofs.Render
import Tablature.Proofs.Score.History

/-!
# What is reported of tokens

Rendering reports the faulty segments of the options blocks, block by block, and nothing else. What
is reported does not depend on the other tokens, nor on what has been set before; and the segments
that are not faulty count all the same.

* `messages_runAll`, `diagnostics_of_fault`: what tokens add to the diagnostics, also if their
  rendering is stopped;
* `meter_of_note`: the meter of a staff is what the segments before its first note have set;
* `render_report`: the report of tokens whose rendering is not stopped.
-/

namespace Tablature

open Setting

namespace Token

/-- What is reported of a token: its line, and the messages about its faulty segments. -/
def report? (t : Token) : Option String :=
  match t.segments.filterMap message? with
  | [] => none
  | messages =>
    some ("[" ++ toString t.line ++ "] Error: " ++
      ("\n" ++ String.join (messages.map fun message => "\t" ++ message ++ "\n")))

/-- An options token with a faulty segment. -/
def IsRejected (t : Token) : Prop :=
  ∃ block, t.kind = .options ∧ t.literal = some (.options block) ∧
    ∃ segment ∈ Setting.segments block, ¬ ∃ s, Written segment s ∨ Overrun segment s

theorem map_text_rejection? (t : Token) : t.rejection?.map Diagnostic.text = t.report? := by
  unfold rejection? report?
  rw [segments_eq]
  rcases t.command? with _ | name | k | block
  · rfl
  · rfl
  · rfl
  · dsimp only
    rw [filterMap_message?_segments]
    cases hfaults : faults block <;> rfl

theorem isSome_report?_iff {t : Token} : t.report?.isSome ↔ t.IsRejected := by
  have hsegments : t.segments.filterMap message? = [] ↔
      ∀ segment ∈ t.segments, ∃ s, Written segment s ∨ Overrun segment s := by
    simp only [List.filterMap_eq_nil_iff, message?_eq_none_iff, ofSegment_eq_ok_iff]
  have hrejected : t.IsRejected ↔ t.segments.filterMap message? ≠ [] := by
    rw [Ne, hsegments, IsRejected]
    simp only [mem_segments_iff]
    push Not
    constructor
    · rintro ⟨block, hkind, hliteral, segment, hsegment, hs⟩
      exact ⟨segment, ⟨block, hkind, hliteral, hsegment⟩, hs⟩
    · rintro ⟨segment, ⟨block, hkind, hliteral, hsegment⟩, hs⟩
      exact ⟨block, hkind, hliteral, segment, hsegment, hs⟩
  rw [hrejected]
  unfold report?
  split
  · rename_i h
    simp [h]
  · rename_i h
    simpa using h

/-- Only options tokens are reported. -/
theorem report?_of_kind_ne {t : Token} (h : t.kind ≠ .options) : t.report? = none := by
  have hsegments : t.segments = [] := by
    unfold segments
    split
    · rename_i hkind _
      exact absurd hkind h
    · rfl
  rw [report?, hsegments]
  rfl

theorem filterMap_report?_filter (tokens : List Token) :
    (tokens.filter (·.kind = .options)).filterMap report? = tokens.filterMap report? := by
  induction tokens with
  | nil => rfl
  | cons t tokens ih =>
    by_cases h : t.kind = .options
    · rw [List.filter_cons_of_pos (by simpa using h), List.filterMap_cons, List.filterMap_cons, ih]
    · rw [List.filter_cons_of_neg (by simpa using h), ih,
        List.filterMap_cons_none (report?_of_kind_ne h)]

theorem map_text_filterMap_rejection? (tokens : List Token) :
    (tokens.filterMap rejection?).map Diagnostic.text = tokens.filterMap report? := by
  rw [List.map_filterMap]
  simp only [map_text_rejection?]

end Token

namespace Rendering

variable {r : Rendering} {tokens : List Token}

/-- Tokens add their rejections to the diagnostics, in order. -/
theorem diagnostics_runAll (h : (Outcome.runAll step tokens r).fault = none) :
    (Outcome.runAll step tokens r).state.diagnostics.entries.toList =
      r.diagnostics.entries.toList ++ tokens.filterMap Token.rejection? := by
  rw [Outcome.state_runAll h]
  clear h
  induction tokens generalizing r with
  | nil => simp
  | cons t tokens ih =>
    rw [List.foldl_cons, ih, diagnostics_step, List.append_assoc,
      List.filterMap_eq_flatMap_toList _ (t :: tokens), List.flatMap_cons,
      ← List.filterMap_eq_flatMap_toList]

/-- A rendering that is stopped has recorded the rejections of the tokens before the one that
stops it. -/
theorem diagnostics_of_fault {e : Staff.Fault} (h : (Outcome.runAll step tokens r).fault = some e) :
    ∃ before t later, tokens = before ++ t :: later ∧
      (Outcome.runAll step before r).fault = none ∧
      (step t (Outcome.runAll step before r).state).fault = some e ∧
      (Outcome.runAll step tokens r).state.diagnostics.entries.toList =
        r.diagnostics.entries.toList ++ before.filterMap Token.rejection? := by
  obtain ⟨before, t, later, htokens, hbefore, hrun⟩ := Outcome.exists_of_fault_runAll h
  rw [hrun] at h
  refine ⟨before, t, later, htokens, hbefore, h, ?_⟩
  rw [hrun, diagnostics_step, diagnostics_runAll hbefore, rejection?_of_fault h, Option.toList_none,
    List.append_nil]

theorem messages_runAll (h : (Outcome.runAll step tokens r).fault = none) :
    (Outcome.runAll step tokens r).state.diagnostics.messages =
      r.diagnostics.messages ++ tokens.filterMap Token.report? := by
  rw [Diagnostics.messages, diagnostics_runAll h, List.map_append,
    Token.map_text_filterMap_rejection?]
  rfl

/-- Tokens set what their segments set, one after the other. -/
theorem defaults_runAll (h : (Outcome.runAll step tokens r).fault = none) :
    (Outcome.runAll step tokens r).state.score.defaults =
      (tokens.flatMap Token.segments).foldl applySegment r.score.defaults := by
  rw [Outcome.state_runAll h]
  clear h
  induction tokens generalizing r with
  | nil => rfl
  | cons t tokens ih =>
    rw [List.foldl_cons, ih, defaults_step, List.flatMap_cons, List.foldl_append]

/-- Tokens make the score that their operations make. -/
theorem score_runAll (h : (Outcome.runAll step tokens r).fault = none) :
    (Outcome.runAll step tokens r).state.score =
      (tokens.filterMap Token.command?).foldl (fun s c => (s.apply c).state) r.score := by
  rw [Outcome.state_runAll h]
  clear h
  induction tokens generalizing r with
  | nil => rfl
  | cons t tokens ih =>
    rw [List.foldl_cons, ih, score_step]
    cases hc : t.command? with
    | none => rw [List.filterMap_cons_none hc]
    | some c => rw [List.filterMap_cons_some hc, List.foldl_cons]

theorem score_ofTokens (h : (ofTokens tokens {}).fault = none) :
    (ofTokens tokens {}).state.score = Score.after (tokens.filterMap Token.command?) :=
  score_runAll h

/-- A staff that a note starts has the meter that the segments before the note have set. -/
theorem meter_of_note {before later : List Token} {t : Token} (ht : t.kind = .note)
    (h : (ofTokens (before ++ t :: later) {}).fault = none)
    (hopens : (ofTokens before {}).state.score.opensStaff = true) :
    (ofTokens (before ++ t :: later) {}).state.score.meters[
        (ofTokens before {}).state.score.staffs.length]? =
      some ((before.flatMap Token.segments).foldl applySegment .common) := by
  have hbefore : (ofTokens before {}).fault = none := Outcome.fault_runAll_of_append h
  have hdefaults := defaults_runAll hbefore
  have hcommand : t.command? = some (.note t.text) := by simp only [Token.command?, ht]
  change (ofTokens before {}).state.score.defaults = _ at hdefaults
  rw [score_ofTokens hbefore] at hopens hdefaults ⊢
  rw [score_ofTokens h, List.filterMap_append, List.filterMap_cons_some hcommand,
    Score.meters_of_opens hopens, hdefaults]

end Rendering

theorem isPlayable_of_ofTokens {tokens : List Token}
    (h : (Rendering.ofTokens tokens {}).fault = none) : (Plan.ofTokens tokens).IsPlayable := by
  by_contra hp
  obtain ⟨r, e, hrun, -⟩ := Rendering.runAll_step_of_not (r := {}) (p := {}) ⟨rfl, rfl⟩
    (List.forall_mem_nil _) hp
  rw [Rendering.ofTokens, hrun] at h
  cases h

/-- Tokens whose rendering is not stopped have a text, or are reported. -/
theorem render_cases {tokens : List Token} (h : (Rendering.ofTokens tokens {}).fault = none) :
    (tokens.filterMap Token.report? = [] ∧ ∃ text, render tokens = .ok text) ∨
      tokens.filterMap Token.report? ≠ [] ∧ ∃ diagnostics : Diagnostics,
        render tokens = .error (.rejected diagnostics) ∧
          diagnostics.messages = tokens.filterMap Token.report? := by
  obtain ⟨hok, hrejected⟩ := render_of_isPlayable (isPlayable_of_ofTokens h)
  rw [← Token.map_text_filterMap_rejection?, Ne, List.map_eq_nil_iff]
  by_cases hnil : tokens.filterMap Token.rejection? = []
  · exact .inl ⟨hnil, hok hnil⟩
  · exact .inr ⟨hnil, _, hrejected hnil, rfl⟩

/-- The report of tokens whose rendering is not stopped. They have a text unless an options block
has a faulty segment, and else what is reported is every such block, in order, with the messages
about its faulty segments. Neither the other tokens nor the state before matter to the report; and
a staff that is started has the meter that all the segments before it have set, also those that
stand beside faulty ones. -/
theorem render_report {tokens : List Token} (h : (Rendering.ofTokens tokens {}).fault = none) :
    ((∃ diagnostics, render tokens = .error (.rejected diagnostics)) ↔
        ∃ t ∈ tokens, t.IsRejected) ∧
      (∀ diagnostics, render tokens = .error (.rejected diagnostics) →
        diagnostics.messages = tokens.filterMap Token.report?) ∧
      ((∃ text, render tokens = .ok text) ↔ ¬ ∃ t ∈ tokens, t.IsRejected) ∧
      (∀ (r : Rendering) (others : List Token),
        others.filter (·.kind = .options) = tokens.filter (·.kind = .options) →
        (Outcome.runAll Rendering.step others r).fault = none →
        (Outcome.runAll Rendering.step others r).state.diagnostics.messages =
          r.diagnostics.messages ++ tokens.filterMap Token.report?) ∧
      ∀ before t later, tokens = before ++ t :: later → t.kind = .note →
        (Rendering.ofTokens before {}).state.score.opensStaff = true →
        (Rendering.ofTokens tokens {}).state.score.meters[
            (Rendering.ofTokens before {}).state.score.staffs.length]? =
          some ((before.flatMap Token.segments).foldl applySegment .common) := by
  have hexists : (∃ t ∈ tokens, t.IsRejected) ↔ tokens.filterMap Token.report? ≠ [] := by
    simp [← Token.isSome_report?_iff, List.filterMap_eq_nil_iff, Option.isSome_iff_ne_none]
  have hreport : ∀ (r : Rendering) (others : List Token),
      others.filter (·.kind = .options) = tokens.filter (·.kind = .options) →
      (Outcome.runAll Rendering.step others r).fault = none →
      (Outcome.runAll Rendering.step others r).state.diagnostics.messages =
        r.diagnostics.messages ++ tokens.filterMap Token.report? := by
    intro r others hothers hfault
    rw [Rendering.messages_runAll hfault, ← Token.filterMap_report?_filter others, hothers,
      Token.filterMap_report?_filter]
  have hmeter : ∀ before t later, tokens = before ++ t :: later → t.kind = .note →
      (Rendering.ofTokens before {}).state.score.opensStaff = true →
      (Rendering.ofTokens tokens {}).state.score.meters[
          (Rendering.ofTokens before {}).state.score.staffs.length]? =
        some ((before.flatMap Token.segments).foldl applySegment .common) := by
    rintro before t later rfl ht hopens
    exact Rendering.meter_of_note ht h hopens
  rw [hexists]
  rcases render_cases h with ⟨hnil, text, htext⟩ | ⟨hne, diagnostics, hrender, hmessages⟩
  · refine ⟨?_, ?_, ?_, hreport, hmeter⟩ <;> simp [htext, hnil]
  · refine ⟨?_, ?_, ?_, hreport, hmeter⟩ <;> simp [hrender, hne, hmessages]

/-- Two faulty blocks, the first of which sets the signature of the staff behind it. -/
theorem render_report_of_two_blocks :
    let block : Token := ⟨.options, "", some (.options "time=3/4; bogus=1"), 1⟩
    let note : Token := ⟨.note, "E", none, 1⟩
    let later : List Token := [⟨.number, "12", some (.number 12), 1⟩,
      ⟨.options, "", some (.options "fidelity=x"), 2⟩, ⟨.endOfFile, "", none, 2⟩]
    let tokens := [block] ++ note :: later
    (Rendering.ofTokens tokens {}).fault = none ∧
      (∃ diagnostics : Diagnostics, render tokens = .error (.rejected diagnostics) ∧
        diagnostics.messages = ["[1] Error: \n\tOption \"bogus\" does not exist.\n",
          "[2] Error: \n\tCould not parse beat fidelity \"x\" into a number: " ++
            "invalid digit found in string\n"]) ∧
      (Rendering.ofTokens tokens {}).state.score.meters[0]? =
        some (Meter.common.setSignature 3 4) := by
  intro block note later tokens
  have h : (Rendering.ofTokens tokens {}).fault = none := by decide +kernel
  obtain ⟨hrejected, hmessages, -, -, hmeter⟩ := render_report h
  obtain ⟨diagnostics, hrender⟩ :=
    hrejected.2 ⟨block, List.mem_cons_self, Token.isSome_report?_iff.1 (by decide +kernel)⟩
  refine ⟨h, ⟨diagnostics, hrender, ?_⟩, ?_⟩
  · rw [hmessages diagnostics hrender]
    decide +kernel
  · refine (hmeter [block] note later rfl rfl (by decide +kernel)).trans ?_
    decide +kernel

end Tablature
