import Tablature.Proofs.Outcome
import Tablature.Proofs.Score.Behind
import Tablature.Proofs.Setting.Segments
import Tablature.Render

/-!
# What a token does to a rendering

A token is an operation on the score. If it carries an options block, it sets a meter as well, and
the faulty segments of the block are recorded behind all that was recorded before.

* `score_step`, `defaults_step`, `diagnostics_step`: what a token does, stopped or not;
* `fault_step`: only the score decides whether it is stopped;
* `ofTokens_preceded`: nothing depends on what was recorded before.
-/

namespace Tablature

open Setting

namespace Token

/-- What is wrong with an options block, at the line of its token. -/
def rejection? (t : Token) : Option Diagnostic :=
  match t.command? with
  | some (.options block) =>
    if Setting.faults block = [] then none
    else some ⟨t.line, "\n" ++ Setting.report (Setting.faults block)⟩
  | _ => none

/-- The segments of the options block that a token carries. -/
def segments (t : Token) : List (List Char) :=
  match t.kind, t.literal with
  | .options, some (.options block) => Setting.segments block
  | _, _ => []

theorem segments_eq (t : Token) :
    t.segments = match t.command? with
      | some (.options block) => Setting.segments block
      | _ => [] := by
  unfold segments command?
  rcases t with ⟨kind, text, _ | _ | _, line⟩ <;> cases kind <;> rfl

theorem mem_segments_iff {t : Token} {segment : List Char} :
    segment ∈ t.segments ↔ ∃ block, t.kind = .options ∧ t.literal = some (.options block) ∧
      segment ∈ Setting.segments block := by
  unfold segments
  split
  · rename_i block hkind hliteral
    simp [hkind, hliteral]
  · rename_i hne
    refine iff_of_false List.not_mem_nil ?_
    rintro ⟨block, hkind, hliteral, -⟩
    exact hne block hkind hliteral

end Token

namespace Rendering

theorem score_options (r : Rendering) (block : String) (line : Int) :
    (r.options block line).score = (r.score.setOptions block).state := by
  unfold options
  rcases r.score.setOptions block with ⟨score, _ | faults⟩ <;> rfl

theorem diagnostics_options (r : Rendering) (block : String) (line : Int) :
    (r.options block line).diagnostics.entries.toList =
      r.diagnostics.entries.toList ++
        if faults block = [] then [] else [⟨line, "\n" ++ Setting.report (faults block)⟩] := by
  have hfault : (r.score.setOptions block).fault =
      if faults block = [] then none else some (faults block) := by
    rw [Score.setOptions, Outcome.map, Option.map_id, id_eq, Meter.fault_configure]
  unfold options
  rcases hset : r.score.setOptions block with ⟨score, fault⟩
  rw [hset] at hfault
  obtain rfl : fault = _ := hfault
  by_cases h : faults block = []
  · simp [h]
  · simp [h]

/-- A token adds its rejection to the diagnostics, and leaves those of before alone. -/
theorem diagnostics_step (t : Token) (r : Rendering) :
    (step t r).state.diagnostics.entries.toList =
      r.diagnostics.entries.toList ++ t.rejection?.toList := by
  unfold step Token.rejection?
  rcases t.command? with _ | name | k | block
  · simp [Outcome.done]
  · exact (List.append_nil _).symm
  · exact (List.append_nil _).symm
  · show (r.options block t.line).diagnostics.entries.toList = _
    rw [diagnostics_options]
    dsimp only
    split <;> rfl

/-- A token does to the score what its operation does. -/
theorem score_step (t : Token) (r : Rendering) :
    (step t r).state.score = match t.command? with
      | none => r.score
      | some c => (r.score.apply c).state := by
  unfold step
  rcases t.command? with _ | name | k | block
  · rfl
  · rfl
  · rfl
  · exact score_options r block t.line

/-- A token sets what its segments set. -/
theorem defaults_step (t : Token) (r : Rendering) :
    (step t r).state.score.defaults = t.segments.foldl applySegment r.score.defaults := by
  rw [score_step, Token.segments_eq]
  rcases t.command? with _ | name | k | block
  · rfl
  · exact Score.defaults_addNote _ _
  · exact Score.defaults_onCurrent _ _
  · exact Meter.state_configure _ _

/-- A token is stopped by what it does to a staff, if at all. -/
theorem fault_step (t : Token) (r : Rendering) :
    (step t r).fault = match t.command? with
      | some (.note name) => (r.score.addNote name).fault
      | some (.stroke k) => (r.score.stroke k).fault
      | _ => none := by
  unfold step
  rcases t.command? with _ | name | k | block
  · rfl
  · exact congrFun Option.map_id _
  · exact congrFun Option.map_id _
  · rfl

/-- A token that is stopped has nothing to record. -/
theorem rejection?_of_fault {t : Token} {r : Rendering} {e : Staff.Fault}
    (h : (step t r).fault = some e) : t.rejection? = none := by
  rw [fault_step] at h
  revert h
  unfold Token.rejection?
  rcases t.command? with _ | name | k | block
  · exact fun _ => rfl
  · exact fun _ => rfl
  · exact fun _ => rfl
  · intro h
    cases h

/-! ## What was recorded before -/

/-- The second rendering stands where the first does, with more recorded before. -/
structure Preceded (before : List Diagnostic) (r r' : Rendering) : Prop where
  score : r'.score = r.score
  diagnostics : r'.diagnostics.entries.toList = before ++ r.diagnostics.entries.toList

variable {before : List Diagnostic} {r r' : Rendering}

theorem step_preceded (t : Token) (h : Preceded before r r') :
    Preceded before (step t r).state (step t r').state ∧ (step t r').fault = (step t r).fault := by
  refine ⟨⟨?_, ?_⟩, ?_⟩
  · rw [score_step, score_step, h.score]
  · rw [diagnostics_step, diagnostics_step, h.diagnostics, List.append_assoc]
  · rw [fault_step, fault_step, h.score]

/-- What was recorded before stays in front, and changes nothing else. -/
theorem ofTokens_preceded (tokens : List Token) (diagnostics : Diagnostics) :
    Preceded diagnostics.entries.toList (ofTokens tokens {}).state
        (ofTokens tokens diagnostics).state ∧
      (ofTokens tokens diagnostics).fault = (ofTokens tokens {}).fault :=
  Outcome.runAll_simulation (fun t _ _ => step_preceded t) tokens ⟨rfl, (List.append_nil _).symm⟩

end Rendering

end Tablature
