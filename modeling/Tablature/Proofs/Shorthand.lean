import Tablature.Proofs.Report
import Tablature.Proofs.Staff.Written

/-!
# Writing out shorthand

Spreads and the ends of steps are short for empty cells. Tokens that are written out without them
are rendered in the same way, and come to the same end: the same text, or the same fault.

* `runAll_unspread`, `runAll_writeOutSteps`: what a rendering makes of tokens that are written out;
* `stringsLeft_ofTokens`: how many cells end a step;
* `render_writeOut`: all of it together.
-/

namespace Tablature

/-! ## What shorthand stands for -/

namespace Token

/-- A token that is short for empty cells. -/
def IsShorthand (t : Token) : Prop :=
  t.kind = .next ∨ t.kind = .spreadEmpty ∨ t.kind = .spreadNext

/-- An empty cell, on the line of a token. -/
def emptyCell (t : Token) : Token := ⟨.empty, ".", none, t.line⟩

/-- The end of a step, on the line of a token. -/
def stepEnd (t : Token) : Token := ⟨.next, ",", none, t.line⟩

/-- A spread is short for as many empty cells or ends of steps as its number says. Without a number
it stands for nothing. -/
def unspread (t : Token) : List Token :=
  match t.kind, t.literal with
  | .spreadEmpty, some (.number n) => List.replicate n.toNat t.emptyCell
  | .spreadNext, some (.number n) => List.replicate n.toNat t.stepEnd
  | .spreadEmpty, _ => []
  | .spreadNext, _ => []
  | _, _ => [t]

end Token

/-- The strings of the last staff that have no cell yet in the step that has been begun, or all of
them if none has been begun. -/
def Plan.stringsLeft (p : Plan) : Nat :=
  match p.newestFirst with
  | [] => 0
  | part :: _ => part.notes.length - part.cells.length % part.notes.length

/-- The end of a step is short for empty cells on all strings that are left. -/
def Plan.writeOutStep (p : Plan) (t : Token) : List Token :=
  if t.kind = .next then List.replicate p.stringsLeft t.emptyCell else [t]

/-- Tokens behind a plan, with empty cells for the ends of steps. -/
def writeOutSteps : Plan → List Token → List Token
  | _, [] => []
  | p, t :: tokens => p.writeOutStep t ++ writeOutSteps (p.add t) tokens

/-- Tokens without shorthand: first the spreads are written out, and then the ends of steps. -/
def writeOut (tokens : List Token) : List Token := writeOutSteps {} (tokens.flatMap Token.unspread)

/-! ## Strokes as repetitions -/

namespace Staff

theorem stroke_spreadEmpty (s : Staff) (count : Int) :
    stroke (.spreadEmpty count) s = Outcome.iterate (stroke .empty) count.toNat s := by
  rw [stroke]
  split
  · rename_i h
    exact (Outcome.iterate_eq_done (stroke_of_notes_eq_nil h .empty) _).symm
  · rfl

theorem stroke_spreadNext (s : Staff) (count : Int) :
    stroke (.spreadNext count) s = Outcome.iterate (stroke .next) count.toNat s := by
  rw [stroke]
  split
  · rename_i h
    exact (Outcome.iterate_eq_done (stroke_of_notes_eq_nil h .next) _).symm
  · rfl

end Staff

namespace Rendering

/-- A stroke that is a repetition on the last staff is one for the rendering. -/
theorem stroke_eq_iterate {k j : Staff.Stroke} {n : Nat} {r : Rendering}
    (h : ∀ staff ∈ r.score.current?, staff.stroke k = Outcome.iterate (Staff.stroke j) n staff) :
    r.stroke k = Outcome.iterate (stroke j) n r := by
  obtain ⟨⟨_ | ⟨staff, earlier⟩, defaults⟩, diagnostics, events⟩ := r
  · exact (Outcome.iterate_eq_done (f := stroke j) rfl n).symm
  · let whole (staff : Staff) : Rendering := ⟨⟨staff :: earlier, defaults⟩, diagnostics, events⟩
    have hone (k : Staff.Stroke) (staff : Staff) :
        stroke k (whole staff) = (staff.stroke k).map whole id := by
      simp [stroke, Score.stroke, Score.onCurrent, Outcome.map, whole]
    show stroke k (whole staff) = Outcome.iterate (stroke j) n (whole staff)
    rw [hone, h staff rfl, Outcome.iterate_map (hone j)]

theorem runAll_replicate_emptyCell (t : Token) (n : Nat) (r : Rendering) :
    Outcome.runAll step (List.replicate n t.emptyCell) r = Outcome.iterate (stroke .empty) n r :=
  (Outcome.iterate_eq_runAll step t.emptyCell n r).symm

theorem runAll_replicate_stepEnd (t : Token) (n : Nat) (r : Rendering) :
    Outcome.runAll step (List.replicate n t.stepEnd) r = Outcome.iterate (stroke .next) n r :=
  (Outcome.iterate_eq_runAll step t.stepEnd n r).symm

theorem runAll_singleton (t : Token) (r : Rendering) : Outcome.runAll step [t] r = step t r := by
  rw [Outcome.runAll_cons]
  rcases step t r with ⟨r', _ | e⟩ <;> rfl

/-- A spread does what it is short for. -/
theorem runAll_unspread (t : Token) (r : Rendering) :
    Outcome.runAll step t.unspread r = step t r := by
  obtain ⟨kind, text, literal, line⟩ := t
  cases kind with
  | spreadEmpty =>
    rcases literal with _ | n | block
    · rfl
    · refine (runAll_replicate_emptyCell _ _ r).trans ?_
      exact (stroke_eq_iterate fun staff _ => staff.stroke_spreadEmpty n).symm
    · rfl
  | spreadNext =>
    rcases literal with _ | n | block
    · rfl
    · refine (runAll_replicate_stepEnd _ _ r).trans ?_
      exact (stroke_eq_iterate fun staff _ => staff.stroke_spreadNext n).symm
    · rfl
  | _ => exact runAll_singleton _ r

/-! ## Ends of steps -/

variable {r : Rendering} {p : Plan} {t : Token} {rejections : List Diagnostic}

/-- The end of a step does what it is short for, where the rendering keeps to the plan. -/
theorem runAll_writeOutStep (hr : r.Follows p rejections) (t : Token) :
    Outcome.runAll step (p.writeOutStep t) r = step t r := by
  unfold Plan.writeOutStep
  split
  · rename_i hkind
    have hstep : step t r = r.stroke .next := by simp only [step, Token.command?, hkind]
    rw [hstep, runAll_replicate_emptyCell]
    refine (stroke_eq_iterate fun staff hstaff => ?_).symm
    rw [hr.score] at hstaff
    obtain ⟨_ | ⟨part, earlier⟩, defaults⟩ := p
    · cases hstaff
    · obtain rfl : part.staff = staff := Option.some.inj hstaff
      exact (Staff.finishStep_drawn part.notes_ne_nil).trans
        (Outcome.iterate_eq_runAll _ _ _ _).symm
  · exact runAll_singleton t r

/-- Tokens behind a plan do the same without ends of steps. -/
theorem runAll_writeOutSteps (tokens : List Token) (hr : r.Follows p rejections)
    (hp : p.IsPlayable) :
    Outcome.runAll step (writeOutSteps p tokens) r = Outcome.runAll step tokens r := by
  induction tokens generalizing r p rejections with
  | nil => rfl
  | cons t tokens ih =>
    rw [writeOutSteps, Outcome.runAll_append, runAll_writeOutStep hr, Outcome.runAll_cons]
    by_cases ht : (p.add t).IsPlayable
    · obtain ⟨r', hstep, hr'⟩ := step_of_isPlayable hr ht
      rw [hstep]
      exact ih hr' ht
    · -- The plan of the later tokens is of no account, because none of them is rendered.
      obtain ⟨r', e, hstep, -⟩ := step_of_not_isPlayable hr hp ht
      rw [hstep, Outcome.stopped_andThen, Outcome.stopped_andThen]

theorem ofTokens_writeOut (tokens : List Token) :
    ofTokens (writeOut tokens) {} = ofTokens tokens {} :=
  (runAll_writeOutSteps (p := {}) _ ⟨rfl, rfl⟩ (List.forall_mem_nil _)).trans
    (Outcome.runAll_flatMap runAll_unspread tokens {})

/-- The strings that are left are those from the cursor on. -/
theorem stringsLeft_ofTokens {tokens : List Token} (h : (ofTokens tokens {}).fault = none) :
    (Plan.ofTokens tokens).stringsLeft =
      ((ofTokens tokens {}).state.score.current?.map (·.cursor + 1)).getD 0 := by
  obtain ⟨r, hrun, hr⟩ := runAll_step (r := {}) (p := {}) ⟨rfl, rfl⟩ (isPlayable_of_ofTokens h)
  have hscore : (ofTokens tokens {}).state.score = (Plan.ofTokens tokens).score :=
    (congrArg (·.state.score) hrun).trans hr.score
  rw [hscore]
  obtain ⟨_ | ⟨part, earlier⟩, defaults⟩ := Plan.ofTokens tokens
  · rfl
  · have hmod := Nat.mod_lt part.cells.length (List.length_pos_of_ne_nil part.notes_ne_nil)
    show part.notes.length - part.cells.length % part.notes.length =
      part.notes.length - 1 - part.cells.length % part.notes.length + 1
    omega

end Rendering

/-! ## No shorthand -/

theorem kind_of_mem_unspread {t u : Token} (h : u ∈ t.unspread) :
    u.kind ≠ .spreadEmpty ∧ u.kind ≠ .spreadNext := by
  unfold Token.unspread at h
  split at h
  · rw [List.eq_of_mem_replicate h]
    exact ⟨nofun, nofun⟩
  · rw [List.eq_of_mem_replicate h]
    exact ⟨nofun, nofun⟩
  · cases h
  · cases h
  · rename_i hempty hnext _ _
    rw [List.mem_singleton.1 h]
    exact ⟨hempty, hnext⟩

/-- Writing out the ends of steps leaves none, and makes no other shorthand. -/
theorem not_isShorthand_of_mem_writeOutSteps {p : Plan} {tokens : List Token}
    (h : ∀ t ∈ tokens, t.kind ≠ .spreadEmpty ∧ t.kind ≠ .spreadNext) :
    ∀ t ∈ writeOutSteps p tokens, ¬ t.IsShorthand := by
  induction tokens generalizing p with
  | nil => exact List.forall_mem_nil _
  | cons t tokens ih =>
    obtain ⟨ht, htokens⟩ := List.forall_mem_cons.1 h
    refine List.forall_mem_append.2 ⟨fun u hu => ?_, ih htokens⟩
    unfold Plan.writeOutStep at hu
    split at hu
    · rw [List.eq_of_mem_replicate hu]
      rintro (h | h | h) <;> cases h
    · rename_i hkind
      rw [List.mem_singleton.1 hu]
      rintro (h | h | h)
      · exact hkind h
      · exact ht.1 h
      · exact ht.2 h

/-- Tokens without shorthand are rendered as the tokens that they are written out for: the same
text, or the same fault. The cells that end a step are those from the cursor on. -/
theorem render_writeOut (tokens : List Token) :
    render (writeOut tokens) = render tokens ∧
      (∀ t ∈ writeOut tokens, ¬ t.IsShorthand) ∧
      ∀ before, (Rendering.ofTokens before {}).fault = none →
        (Plan.ofTokens before).stringsLeft =
          ((Rendering.ofTokens before {}).state.score.current?.map (·.cursor + 1)).getD 0 := by
  refine ⟨?_, ?_, fun before => Rendering.stringsLeft_ofTokens⟩
  · rw [render_eq, render_eq, Rendering.ofTokens_writeOut]
  · refine not_isShorthand_of_mem_writeOutSteps fun t ht => ?_
    obtain ⟨u, -, hu⟩ := List.mem_flatMap.1 ht
    exact kind_of_mem_unspread hu

end Tablature
