import Tablature.Proofs.Commands
import Tablature.Proofs.Setting.LineEnding
import Tablature.Proofs.Token.LineEnding

/-!
# Line endings do not matter

With line feeds for all line endings a source stands for the same operations, except that its
options blocks have other line endings; and those set the same meters and are accepted alike. So the
source has the same tablature.

* `commandsOf_unified`: the operations of a source with unified line endings;
* `interpret_unified`: its tablature.
-/

namespace Tablature

open Text

/-! ## Operations -/

/-- The operation, with line feeds for all line endings in it. -/
def Score.Command.unified : Score.Command → Score.Command
  | .options block => .options (Text.unified block)
  | c => c

theorem Score.Command.isAccepted_unified_iff {c : Score.Command} :
    c.unified.IsAccepted ↔ c.IsAccepted := by
  cases c with
  | options block => exact Setting.faults_unified_eq_nil_iff
  | _ => rfl

theorem Plan.apply_unified (p : Plan) (c : Score.Command) : p.apply c.unified = p.apply c := by
  cases c with
  | options block =>
    show { p with defaults := _ } = { p with defaults := _ }
    rw [Setting.foldl_applySegment_unified]
  | _ => rfl

theorem Token.kind_of_command? {t : Token} {block : String}
    (h : t.command? = some (.options block)) : t.kind = .options := by
  unfold command? at h
  split at h
  all_goals first | assumption | cases h

namespace Lexeme

variable {x : Lexeme}

theorem command?_of_blank (h : x.reading = .blank) : x.command? = none := by
  rw [command?, token?_of_blank 0 x h]
  rfl

theorem filterMap_command?_lexemes (cs : List Char) :
    (lexemes cs).filterMap command? = (significant cs).filterMap command? := by
  rw [significant, List.filterMap_filter]
  refine List.filterMap_congr fun x _ => ?_
  split
  · rfl
  · rename_i hblank
    exact command?_of_blank (by simpa using hblank)

theorem command?_of_options {text : String}
    (h : x.reading = .token .options (some (.options text))) :
    x.command? = some (.options text) := by
  simp only [command?, token?, h]
  rfl

theorem command?_of_fault {f : Fault} (h : x.reading = .fault f) : x.command? = none := by
  simp only [command?, token?, h]
  rfl

/-- Nothing but a block has line endings in its operation. -/
theorem unified_of_command? {c : Score.Command} (hx : x.head ≠ '[') (h : x.command? = some c) :
    c.unified = c := by
  cases c with
  | options block =>
    unfold command? token? at h
    split at h
    · rename_i kind literal hreading
      exact absurd (Token.kind_of_command? h) (kind_ne_options hx hreading)
    · cases h
  | _ => rfl

theorem command?_unified (x : Lexeme) :
    x.unified.command? = x.command?.map Score.Command.unified := by
  by_cases hx : x.head = '['
  · rcases reading_unified_cases hx with ⟨text, h, h'⟩ | ⟨h, h'⟩
    · rw [command?_of_options h, command?_of_options h']
      rfl
    · rw [command?_of_fault h, command?_of_fault h']
      rfl
  · rw [unified_of_ne hx]
    cases hc : x.command? with
    | none => rfl
    | some c => rw [Option.map_some, unified_of_command? hx hc]

end Lexeme

/-! ## Sources -/

/-- The operations of a source with unified line endings are its operations, with unified line
endings in their blocks. -/
theorem commandsOf_unified (source : String) :
    commandsOf (Text.unified source) = (commandsOf source).map Score.Command.unified := by
  rw [commandsOf, commandsOf, Lexeme.filterMap_command?_lexemes, Lexeme.filterMap_command?_lexemes,
    Text.unified, String.toList_ofList, Lexeme.significant_unifyLines, List.filterMap_map,
    List.map_filterMap]
  exact List.filterMap_congr fun x _ => x.command?_unified

theorem Plan.ofCommands_unified (commands : List Score.Command) :
    ofCommands (commands.map Score.Command.unified) = ofCommands commands := by
  simp only [ofCommands, List.foldl_map, apply_unified]

/-- Line endings do not matter: a source has the same tablature, or none either, with line feeds for
all line endings, as it is read from a file. -/
theorem interpret_unified (source text : String) :
    interpret (Text.unified source) = .ok text ↔ interpret source = .ok text := by
  have hlexemes : (∀ x ∈ Lexeme.lexemes (Text.unified source).toList, ¬ x.IsFaulty) ↔
      ∀ x ∈ Lexeme.lexemes source.toList, ¬ x.IsFaulty := by
    rw [Text.unified, String.toList_ofList, Lexeme.forall_not_isFaulty_unifyLines_iff]
  simp only [interpret_eq_ok_iff, hlexemes, commandsOf_unified, Plan.ofCommands_unified,
    List.forall_mem_map, Score.Command.isAccepted_unified_iff]

end Tablature
