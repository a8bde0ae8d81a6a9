import Tablature.Proofs.Interpret

/-!
# The operations of a source

The lexemes of a source stand for operations on a score. A source has a tablature if none of its
lexemes is faulty, none of its options blocks is rejected, and the plan that its operations make can
be played; and it is the text of this plan.

* `filterMap_command?_of_tokenize`: the tokens of a source stand for the operations of its lexemes;
* `interpret_eq_ok_iff`: which sources have a tablature, and which one.
-/

namespace Tablature

namespace Lexeme

/-- The operation that a lexeme stands for, if it stands for one. -/
def command? (x : Lexeme) : Option Score.Command := (x.token? 0).bind Token.command?

/-- The line on which a token stands does not matter to its operation. -/
theorem bind_command?_token? (line : Nat) (x : Lexeme) :
    (x.token? line).bind Token.command? = x.command? := by
  unfold command? token?
  split <;> rfl

theorem filterMap_command?_findFrom (line : Nat) (xs : List Lexeme) :
    (findFrom token? line xs).filterMap Token.command? = xs.filterMap command? := by
  induction xs generalizing line with
  | nil => rfl
  | cons x xs ih =>
    rw [findFrom, List.filterMap_append, ih, List.filterMap_cons, ← bind_command?_token?]
    cases x.token? (x.endLine line) with
    | none => rfl
    | some t => cases h : t.command? <;> simp [h]

end Lexeme

/-- The operations that the lexemes of a source stand for. -/
def commandsOf (source : String) : List Score.Command :=
  (Lexeme.lexemes source.toList).filterMap Lexeme.command?

theorem filterMap_command?_of_tokenize {source : String} {tokens : List Token}
    (h : tokenize source = .ok tokens) : tokens.filterMap Token.command? = commandsOf source := by
  rw [(tokenize_eq_ok_iff_lexemes.1 h).2, List.filterMap_append, Lexeme.filterMap_command?_findFrom]
  exact List.append_nil _

/-- An operation with which nothing is wrong by itself. -/
def Score.Command.IsAccepted : Score.Command → Prop
  | .options block => Setting.faults block = []
  | _ => True

theorem Token.rejection?_eq_none_iff {t : Token} :
    t.rejection? = none ↔ ∀ c ∈ t.command?, c.IsAccepted := by
  unfold rejection?
  rcases t.command? with _ | name | k | block <;> simp [Score.Command.IsAccepted]

theorem filterMap_rejection?_eq_nil_iff {tokens : List Token} :
    tokens.filterMap Token.rejection? = [] ↔
      ∀ c ∈ tokens.filterMap Token.command?, c.IsAccepted := by
  simp only [List.filterMap_eq_nil_iff, Token.rejection?_eq_none_iff, List.mem_filterMap]
  exact ⟨fun h c ⟨t, ht, hc⟩ => h t ht c hc, fun h t ht c hc => h c ⟨t, ht, hc⟩⟩

namespace Plan

/-- The plan that operations make. -/
def ofCommands (commands : List Score.Command) : Plan := commands.foldl (fun p c => p.apply c) {}

theorem ofTokens_eq (tokens : List Token) :
    ofTokens tokens = ofCommands (tokens.filterMap Token.command?) := by
  rw [ofCommands, List.foldl_filterMap, ofTokens]
  congr 1
  funext p t
  unfold add
  cases t.command? <;> rfl

end Plan

/-- The tablature of a source is the text of the plan that its operations make, if no lexeme is
faulty, the plan can be played, and all operations are accepted. -/
theorem interpret_eq_ok_iff {source text : String} :
    interpret source = .ok text ↔
      (∀ x ∈ Lexeme.lexemes source.toList, ¬ x.IsFaulty) ∧
        (Plan.ofCommands (commandsOf source)).IsPlayable ∧
        (∀ c ∈ commandsOf source, c.IsAccepted) ∧
        (Plan.ofCommands (commandsOf source)).score.text = .ok text := by
  cases h : tokenize source with
  | error diagnostics =>
    obtain ⟨x, hx, hfaulty⟩ := (exists_tokenize_eq_error_iff source).1 ⟨diagnostics, h⟩
    rw [interpret_eq, h]
    exact iff_of_false nofun fun hall => hall.1 x hx hfaulty
  | ok tokens =>
    have hrender : (render tokens).mapError InterpretFault.render = .ok text ↔
        render tokens = .ok text := by
      cases render tokens <;> simp [Except.mapError]
    rw [interpret_of_tokenize h, hrender, render_eq_ok_iff, Plan.ofTokens_eq,
      filterMap_rejection?_eq_nil_iff, filterMap_command?_of_tokenize h]
    exact (and_iff_right (tokenize_eq_ok_iff_lexemes.1 h).1).symm

end Tablature
