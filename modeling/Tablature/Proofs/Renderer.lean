import Tablature.Proofs.Composition
import Tablature.Proofs.Report

/-!
# Asking a renderer again

A renderer keeps its text once the tokens have been rendered to the end, and from then on every
call is answered in the same way. A rendering that is stopped leaves no text behind, but it leaves
what it has recorded: the next call renders anew, and records it once more.

* `eq_of_mem_answers`: a renderer with a text always answers the same;
* `answers_of_stopped`: what a renderer answers whose rendering is stopped;
* `rendersOnce_iff`: tokens are rendered once exactly if their rendering is not stopped;
* `messages_rejectedThenCell`: a rejected block that is reported twice.
-/

namespace Tablature.Renderer

/-- What can be asked of a renderer. -/
inductive Request where
  | setTokens (tokens : List Token)
  | generate
deriving DecidableEq, Repr

/-- What a call gives, and what has been recorded when it returns. -/
structure Answer where
  result : Except RenderFault String
  diagnostics : Diagnostics

/-- The answers to the calls among requests, which are made one after the other. -/
def answers : List Request → Renderer → List Answer
  | [], _ => []
  | .setTokens tokens :: requests, r => answers requests (r.setTokens tokens)
  | .generate :: requests, r =>
    ⟨r.generate.result, r.generate.renderer.diagnostics⟩ :: answers requests r.generate.renderer

/-- Every call gives what rendering the tokens gives, whatever tokens are set after the first one,
and each rejected block of the tokens is recorded once. -/
def RendersOnce (tokens : List Token) : Prop :=
  ∀ requests, ∀ a ∈ answers (.generate :: requests) { tokens },
    a.result = render tokens ∧ a.diagnostics.messages = tokens.filterMap Token.report?

/-- What rendering the tokens records, also if it is stopped. -/
def recorded (tokens : List Token) : List Diagnostic :=
  (Rendering.ofTokens tokens {}).state.diagnostics.entries.toList

variable {r : Renderer} {tokens : List Token} {e : Staff.Fault}

theorem entries_ofTokens (tokens : List Token) (diagnostics : Diagnostics) :
    (Rendering.ofTokens tokens diagnostics).state.diagnostics.entries.toList =
      diagnostics.entries.toList ++ recorded tokens :=
  (Rendering.ofTokens_preceded tokens diagnostics).1.diagnostics

/-! ## With a text -/

theorem eq_of_mem_answers {text : String} (h : r.text? = some text) {requests : List Request}
    {a : Answer} (ha : a ∈ answers requests r) :
    a = ⟨verdict r.diagnostics text, r.diagnostics⟩ := by
  induction requests generalizing r with
  | nil => cases ha
  | cons request requests ih =>
    cases request with
    | setTokens tokens => exact ih (r := r.setTokens tokens) h ha
    | generate =>
      rw [answers, generate_of_text h, List.mem_cons] at ha
      rcases ha with rfl | ha
      · rfl
      · exact ih h ha

/-- A renderer keeps the text of tokens whose rendering is not stopped. -/
theorem generate_of_not_stopped (htext : r.text? = none)
    (h : (Rendering.ofTokens r.tokens {}).fault = none) :
    ∃ text, r.generate.renderer.text? = some text ∧
      r.generate.result = verdict r.generate.renderer.diagnostics text := by
  obtain ⟨done, text, hdone, hscore, -, -⟩ := ofTokens_of_isPlayable (isPlayable_of_ofTokens h)
  obtain ⟨hpreceded, hfault⟩ := Rendering.ofTokens_preceded r.tokens r.diagnostics
  have ht : Rendering.textOf (Rendering.ofTokens r.tokens r.diagnostics) = .ok text := by
    rw [Rendering.textOf, hfault, h, hpreceded.score, hdone]
    exact hscore
  refine ⟨text, ?_⟩
  simp only [generate, htext, renderNow, ht, and_self]

theorem diagnostics_generate (htext : r.text? = none) :
    r.generate.renderer.diagnostics =
      (Rendering.ofTokens r.tokens r.diagnostics).state.diagnostics := by
  simp only [generate, htext, renderNow]
  split <;> rfl

/-! ## Without a text -/

/-- A rendering that is stopped leaves a renderer behind that has more recorded, and no text. -/
theorem generate_of_stopped (htext : r.text? = none)
    (h : (Rendering.ofTokens r.tokens {}).fault = some e) :
    r.generate.result = .error (.stopped e) ∧
      r.generate.renderer =
        { r with
          diagnostics := ⟨(r.diagnostics.entries.toList ++ recorded r.tokens).toArray⟩ } := by
  have hstop : Rendering.textOf (Rendering.ofTokens r.tokens r.diagnostics) = .error e := by
    rw [Rendering.textOf, (Rendering.ofTokens_preceded r.tokens r.diagnostics).2, h]
  simp only [generate, htext, renderNow, hstop, ← entries_ofTokens, true_and]

/-- A renderer whose rendering is stopped is stopped with every call, and records everything as
often as it is called. -/
theorem answers_of_stopped (htext : r.text? = none)
    (h : (Rendering.ofTokens r.tokens {}).fault = some e) (n : Nat) :
    answers (List.replicate n .generate) r =
      (List.range n).map fun i => ⟨.error (.stopped e),
        ⟨(r.diagnostics.entries.toList ++
          (List.replicate (i + 1) (recorded r.tokens)).flatten).toArray⟩⟩ := by
  induction n generalizing r with
  | zero => rfl
  | succ n ih =>
    obtain ⟨hresult, hrenderer⟩ := generate_of_stopped htext h
    have hlater := ih (r := r.generate.renderer) (by rw [hrenderer]; exact htext)
      (by rw [hrenderer]; exact h)
    rw [List.replicate_succ, answers, hlater, hresult, hrenderer, List.range_succ_eq_map,
      List.map_cons, List.map_map]
    refine congr (congrArg _ ?_) (List.map_congr_left fun i _ => ?_)
    · simp
    · simp [List.replicate_succ (n := i + 1)]

/-- Without tokens there is nothing that could stop the rendering. -/
theorem generate_nil_ne_stopped (htext : r.text? = none) (e : Staff.Fault) :
    (r.setTokens []).generate.result ≠ .error (.stopped e) := by
  obtain ⟨text, -, hresult⟩ := generate_of_not_stopped (r := r.setTokens []) htext rfl
  rw [hresult, verdict]
  split <;> simp

/-! ## Rendering once -/

theorem rendersOnce_of_not_stopped (h : (Rendering.ofTokens tokens {}).fault = none) :
    RendersOnce tokens := by
  obtain ⟨text, htext, hresult⟩ := generate_of_not_stopped (r := { tokens }) rfl h
  have hmessages :
      ({ tokens } : Renderer).generate.renderer.diagnostics.messages =
        tokens.filterMap Token.report? := by
    rw [diagnostics_generate rfl]
    exact Rendering.messages_runAll h
  have hfirst : render tokens =
      verdict ({ tokens } : Renderer).generate.renderer.diagnostics text := hresult
  intro requests a ha
  rw [answers, List.mem_cons] at ha
  rcases ha with rfl | ha
  · exact ⟨rfl, hmessages⟩
  · obtain rfl := eq_of_mem_answers htext ha
    exact ⟨hfirst.symm, hmessages⟩

/-- Tokens are rendered only once exactly if their rendering is not stopped. Otherwise every call
renders them again: it is stopped by the same token, and the rejections of the tokens before it are
recorded as many times as there were calls. -/
theorem rendersOnce_iff (tokens : List Token) :
    (RendersOnce tokens ↔ (Rendering.ofTokens tokens {}).fault = none) ∧
      ∀ e, (Rendering.ofTokens tokens {}).fault = some e →
        ∃ before t later, tokens = before ++ t :: later ∧
          (Rendering.ofTokens before {}).fault = none ∧
          (Rendering.step t (Rendering.ofTokens before {}).state).fault = some e ∧
          ∀ n, answers (List.replicate n .generate) { tokens } =
            (List.range n).map fun i => ⟨.error (.stopped e),
              ⟨(List.replicate (i + 1) (before.filterMap Token.rejection?)).flatten.toArray⟩⟩ := by
  refine ⟨⟨fun honce => ?_, rendersOnce_of_not_stopped⟩, fun e he => ?_⟩
  · -- If the rendering is stopped, other tokens that are set are rendered by the next call.
    by_contra hfault
    obtain ⟨e, he⟩ := Option.ne_none_iff_exists'.1 hfault
    obtain ⟨hresult, hrenderer⟩ := generate_of_stopped (r := { tokens }) rfl he
    have hsecond :=
      (honce [.setTokens [], .generate] _ (List.mem_cons_of_mem _ List.mem_cons_self)).1
    refine generate_nil_ne_stopped ?_ e (hsecond.trans hresult)
    rw [hrenderer]
  · obtain ⟨before, t, later, htokens, hbefore, hstep, hentries⟩ :=
      Rendering.diagnostics_of_fault he
    have hrecorded : recorded tokens = before.filterMap Token.rejection? := hentries
    refine ⟨before, t, later, htokens, hbefore, hstep, fun n => ?_⟩
    rw [answers_of_stopped (r := { tokens }) rfl he n, hrecorded]
    simp

theorem RendersOnce.eq_of_mem_messages (h : RendersOnce tokens) (n : Nat) :
    ∀ messages ∈
      (answers (List.replicate (n + 1) .generate) { tokens }).map (·.diagnostics.messages),
      messages = tokens.filterMap Token.report? := by
  intro messages hm
  obtain ⟨a, ha, rfl⟩ := List.mem_map.1 hm
  exact (h _ a ha).2

/-! ## A block that is reported again -/

/-- A rejected block, and a cell on a staff with the given meter. -/
def rejectedThenCell (m : Meter) : List Token :=
  [⟨.options, "", some (.options "bogus=1"), 1⟩, .settings m "" 1, ⟨.note, "E", none, 1⟩,
    ⟨.empty, ".", none, 1⟩]

theorem step_rejected :
    Rendering.step ⟨.options, "", some (.options "bogus=1"), 1⟩ {} =
      .done { diagnostics := ⟨#[⟨1, "\n\tOption \"bogus\" does not exist.\n"⟩]⟩ } := by
  decide +kernel

/-- The cell is not written, if the meter has no labels. -/
theorem ofTokens_rejectedThenCell {m : Meter} (hm : m.IsWritable) (hfits : ¬ m.Fits) :
    (Rendering.ofTokens (rejectedThenCell m) {}).fault = some (.label .resolutionOverflow) ∧
      recorded (rejectedThenCell m) = [⟨1, "\n\tOption \"bogus\" does not exist.\n"⟩] := by
  have hlabel (k : Clock) (hk : k.meter = m) : k.label = .error .resolutionOverflow := by
    rw [Clock.label, hk]
    exact Meter.label_of_not_fits hfits _
  unfold recorded Rendering.ofTokens rejectedThenCell
  rw [Outcome.runAll_cons, step_rejected, Outcome.done_andThen, Outcome.runAll_cons,
    Rendering.step_settings hm, Outcome.done_andThen]
  simp [Outcome.runAll_cons, Rendering.step, Token.command?, Rendering.note, Rendering.stroke,
    Score.addNote, Score.stroke, Score.opensStaff, Score.openStaff, Score.onCurrent, Staff.addNote,
    Staff.setup, Staff.stroke, Staff.writeCell, hlabel]

/-- The second call reports the block twice. -/
theorem messages_rejectedThenCell {m : Meter} (hm : m.IsWritable) (hfits : ¬ m.Fits) :
    (answers (List.replicate 2 .generate) { tokens := rejectedThenCell m }).map
        (·.diagnostics.messages) =
      [["[1] Error: \n\tOption \"bogus\" does not exist.\n"],
        ["[1] Error: \n\tOption \"bogus\" does not exist.\n",
          "[1] Error: \n\tOption \"bogus\" does not exist.\n"]] := by
  obtain ⟨hfault, hrecorded⟩ := ofTokens_rejectedThenCell hm hfits
  rw [answers_of_stopped (r := { tokens := rejectedThenCell m }) rfl hfault 2, hrecorded]
  rfl

/-- The common meter, with a fidelity that no double holds. -/
def hugeMeter : Meter := (Setting.fidelity (10 ^ 309)).apply .common

theorem isWritable_hugeMeter : hugeMeter.IsWritable := by
  have hsetting : (Setting.fidelity (10 ^ 309)).IsWritable := by
    unfold Setting.IsWritable
    decide +kernel
  exact Meter.isWritable_common.apply hsetting

theorem not_fits_hugeMeter : ¬ hugeMeter.Fits := by
  unfold Meter.Fits
  decide +kernel

theorem not_rendersOnce_of_hugeMeter : ¬ RendersOnce (rejectedThenCell hugeMeter) := by
  intro honce
  have heq := honce.eq_of_mem_messages 1
  rw [messages_rejectedThenCell isWritable_hugeMeter not_fits_hugeMeter] at heq
  have honly := heq _ List.mem_cons_self
  have htwice := heq _ (List.mem_cons_of_mem _ List.mem_cons_self)
  exact absurd (congrArg List.length (honly.trans htwice.symm)) (by decide)

end Tablature.Renderer
