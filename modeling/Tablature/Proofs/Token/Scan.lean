import Tablature.Token.Scan

/-!
# What a scan finds

A scan is determined by the lexemes of its source and the lines they end on:

* `foldl_add`: the tokens, the diagnostics and the line of a scan, lexeme by lexeme;
* `tokenize_eq_ok_iff_lexemes`: the tokens of a source, if no lexeme is faulty;
* `exists_tokenize_eq_error_iff`: a source has no tokens if one is.
-/

namespace Tablature

namespace Lexeme

/-- A lexeme that has no meaning. -/
def IsFaulty (x : Lexeme) : Prop := ∃ f, x.reading = .fault f

/-- The token of a lexeme that ends on `line`, if it is one. -/
def token? (line : Nat) (x : Lexeme) : Option Token :=
  match x.reading with
  | .token kind literal => some ⟨kind, String.ofList x.text, literal, line⟩
  | _ => none

/-- What is wrong with a lexeme that ends on `line`. -/
def diagnostic? (line : Nat) (x : Lexeme) : Option Diagnostic :=
  match x.reading with
  | .fault f => some ⟨line, f.message⟩
  | _ => none

/-- The line on which a lexeme ends that starts on `line`. -/
def endLine (line : Nat) (x : Lexeme) : Nat := line + x.text.count '\n'

/-- What `find` finds in lexemes of which the first starts on `line`. -/
def findFrom {α : Type} (find : Nat → Lexeme → Option α) (line : Nat) : List Lexeme → List α
  | [] => []
  | x :: xs => (find (x.endLine line) x).toList ++ findFrom find (x.endLine line) xs

theorem findFrom_append {α : Type} (find : Nat → Lexeme → Option α) (line : Nat)
    (xs ys : List Lexeme) :
    findFrom find line (xs ++ ys) =
      findFrom find line xs ++ findFrom find (line + (xs.flatMap text).count '\n') ys := by
  induction xs generalizing line with
  | nil => simp [findFrom]
  | cons x xs ih =>
    rw [List.cons_append, findFrom, ih, findFrom, List.append_assoc, List.flatMap_cons,
      List.count_append, endLine, Nat.add_assoc]

theorem diagnostic?_eq_none_iff {line : Nat} {x : Lexeme} :
    diagnostic? line x = none ↔ ¬ x.IsFaulty := by
  unfold diagnostic? IsFaulty
  cases x.reading <;> simp

theorem findFrom_diagnostic?_eq_nil_iff (line : Nat) {xs : List Lexeme} :
    findFrom diagnostic? line xs = [] ↔ ∀ x ∈ xs, ¬ x.IsFaulty := by
  induction xs generalizing line with
  | nil => simp [findFrom]
  | cons x xs ih =>
    rw [findFrom, List.append_eq_nil_iff, ih, Option.toList_eq_nil_iff, diagnostic?_eq_none_iff,
      List.forall_mem_cons]

/-- Induction along the lexemes of a text: from what follows its first lexeme to the text. -/
theorem induction_rest {motive : List Char → Prop} (nil : motive [])
    (cons : ∀ c cs, motive (rest c cs) → motive (c :: cs)) (cs : List Char) : motive cs := by
  induction h : cs.length using Nat.strongRecOn generalizing cs with
  | ind n ih =>
    cases cs with
    | nil => exact nil
    | cons c cs => exact cons c cs (ih _ (h ▸ length_rest_lt c cs) _ rfl)

end Lexeme

namespace Scan

open Lexeme

theorem line_add (s : Scan) (x : Lexeme) : (s.add x).line = x.endLine s.line := by
  unfold add
  split <;> rfl

theorem tokens_add (s : Scan) (x : Lexeme) :
    (s.add x).tokens.toList = s.tokens.toList ++ (token? (x.endLine s.line) x).toList := by
  unfold add token?
  split <;> rename_i h <;> simp [h, endLine]

theorem diagnostics_add (s : Scan) (x : Lexeme) :
    (s.add x).diagnostics.entries.toList =
      s.diagnostics.entries.toList ++ (diagnostic? (x.endLine s.line) x).toList := by
  unfold add diagnostic?
  split <;> rename_i h <;> simp [h, endLine]

/-- A scan goes on with the lexemes as if it had started on the line it has come to. -/
theorem foldl_add (xs : List Lexeme) (s : Scan) :
    (xs.foldl add s).tokens.toList = s.tokens.toList ++ findFrom token? s.line xs ∧
    (xs.foldl add s).diagnostics.entries.toList =
      s.diagnostics.entries.toList ++ findFrom diagnostic? s.line xs ∧
    (xs.foldl add s).line = s.line + (xs.flatMap text).count '\n' := by
  induction xs generalizing s with
  | nil => simp [findFrom]
  | cons x xs ih =>
    obtain ⟨ht, hd, hl⟩ := ih (s.add x)
    rw [line_add] at ht hd hl
    rw [tokens_add] at ht
    rw [diagnostics_add] at hd
    refine ⟨?_, ?_, ?_⟩
    · rw [List.foldl_cons, ht, findFrom, List.append_assoc]
    · rw [List.foldl_cons, hd, findFrom, List.append_assoc]
    · rw [List.foldl_cons, hl, List.flatMap_cons, List.count_append, endLine, Nat.add_assoc]

/-- The scan of a source: its tokens with the one for its end, and its diagnostics. -/
theorem ofText_eq (source : String) :
    (ofText source).tokens.toList = findFrom token? 1 (lexemes source.toList) ++
        [Token.endOfFile ((1 + source.toList.count '\n' : Nat) : Int)] ∧
      (ofText source).diagnostics.entries.toList =
        findFrom diagnostic? 1 (lexemes source.toList) := by
  obtain ⟨ht, hd, hl⟩ := foldl_add (lexemes source.toList) {}
  rw [flatMap_text_lexemes] at hl
  simp only [List.nil_append] at ht hd
  simp only [ofText, Array.toList_push, ht, hd, hl, and_self]

/-- A scan finds nothing wrong exactly when every lexeme has a meaning. -/
theorem isEmpty_diagnostics_ofText (source : String) :
    (ofText source).diagnostics.isEmpty = true ↔ ∀ x ∈ lexemes source.toList, ¬ x.IsFaulty := by
  rw [← findFrom_diagnostic?_eq_nil_iff 1, ← (ofText_eq source).2,
    Diagnostics.isEmpty, Array.isEmpty_iff, Array.toList_eq_nil_iff]

end Scan

/-- The tokens of a source, lexeme by lexeme, unless a lexeme is faulty. -/
theorem tokenize_eq_ok_iff_lexemes {source : String} {tokens : List Token} :
    tokenize source = .ok tokens ↔ (∀ x ∈ Lexeme.lexemes source.toList, ¬ x.IsFaulty) ∧
      tokens = Lexeme.findFrom Lexeme.token? 1 (Lexeme.lexemes source.toList) ++
        [Token.endOfFile ((1 + source.toList.count '\n' : Nat) : Int)] := by
  rw [← Scan.isEmpty_diagnostics_ofText, ← (Scan.ofText_eq source).1, tokenize, Scan.result]
  split
  · rename_i h
    rw [Except.ok.injEq, eq_comm]
    exact ⟨fun e => ⟨h, e⟩, And.right⟩
  · rename_i h
    exact ⟨nofun, fun e => absurd e.1 h⟩

theorem exists_tokenize_eq_error_iff (source : String) :
    (∃ diagnostics, tokenize source = .error diagnostics) ↔
      ∃ x ∈ Lexeme.lexemes source.toList, x.IsFaulty := by
  have hscan := Scan.isEmpty_diagnostics_ofText source
  rw [tokenize, Scan.result]
  split
  · rename_i h
    refine iff_of_false (by simp) ?_
    rintro ⟨x, hx, hf⟩
    exact hscan.1 h x hx hf
  · rename_i h
    refine iff_of_true ⟨_, rfl⟩ ?_
    refine Classical.byContradiction fun hnone => ?_
    exact h (hscan.2 fun x hx hf => hnone ⟨x, hx, hf⟩)

end Tablature
