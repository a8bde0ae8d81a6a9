import Tablature.Proofs.Token.Grammar

/-!
# Sources line by line

A line feed outside of a block ends whatever stands before it. A source with a line feed in it is
therefore scanned like its two parts, one after the other, as long as no block of the first part is
left open.

* `lexemes_append_newline`: the lexemes of two parts with a line feed between them;
* `findFrom_add`: what is found further down;
* `generate_append_newline`: the tokens and the diagnostics of such a source.
-/

namespace Tablature

/-- The token, with `lines` more lines in front of it. -/
def Token.below (lines : Nat) (t : Token) : Token := { t with line := t.line + lines }

/-- The diagnostic, with `lines` more lines in front of it. -/
def Diagnostic.below (lines : Nat) (d : Diagnostic) : Diagnostic :=
  { d with line := d.line + lines }

namespace Lexeme

variable {c : Char} {cs : List Char}

/-! ## The seam -/

/-- A line feed belongs to nothing in front of it but a block that is not closed. -/
theorem lexemes_append_newline (h : ∀ x ∈ lexemes cs, x.reading ≠ .fault .unterminated)
    (ds : List Char) :
    lexemes (cs ++ '\n' :: ds) = lexemes cs ++ blankLexeme '\n' :: lexemes ds := by
  rw [lexemes_append, lexemes_cons_of_le (by decide)]
  rintro x hx _ ⟨⟩
  exact not_takes_of_le (mt Flaw.reading (h x (List.mem_of_mem_getLast? hx))) (by decide)

/-! ## Further down -/

/-- What is found further down is what would be found above, moved down. -/
theorem findFrom_add {α : Type} {find : Nat → Lexeme → Option α} {move : α → α} {lines : Nat}
    (h : ∀ line x, find (line + lines) x = (find line x).map move) (line : Nat)
    (xs : List Lexeme) :
    findFrom find (line + lines) xs = (findFrom find line xs).map move := by
  induction xs generalizing line with
  | nil => rfl
  | cons x xs ih =>
    have hend : x.endLine (line + lines) = x.endLine line + lines := by
      simp only [endLine]
      omega
    rw [findFrom, findFrom, hend, h, ih, List.map_append, Option.toList_map]

theorem token?_add (lines line : Nat) (x : Lexeme) :
    token? (line + lines) x = (token? line x).map (Token.below lines) := by
  unfold token?
  split
  · simp [Token.below]
  · rfl

theorem diagnostic?_add (lines line : Nat) (x : Lexeme) :
    diagnostic? (line + lines) x = (diagnostic? line x).map (Diagnostic.below lines) := by
  unfold diagnostic?
  split
  · simp [Diagnostic.below]
  · rfl

/-- Behind a line feed everything is found as if nothing were in front, only further down. -/
theorem findFrom_append_newline {α : Type} {find : Nat → Lexeme → Option α}
    {move : Nat → α → α}
    (hblank : ∀ line x, x.reading = .blank → find line x = none)
    (hadd : ∀ lines line x, find (line + lines) x = (find line x).map (move lines))
    (h : ∀ x ∈ lexemes cs, x.reading ≠ .fault .unterminated) (ds : List Char) :
    findFrom find 1 (lexemes (cs ++ '\n' :: ds)) =
      findFrom find 1 (lexemes cs) ++
        (findFrom find 1 (lexemes ds)).map (move (1 + cs.count '\n')) := by
  have hnone (line : Nat) : find line (blankLexeme '\n') = none :=
    hblank line _ (reading_blankLexeme (by decide))
  have hline (line : Nat) : (blankLexeme '\n').endLine line = line + 1 := rfl
  rw [lexemes_append_newline h, findFrom_append, findFrom, hnone, flatMap_text_lexemes, hline,
    Option.toList_none, List.nil_append, Nat.add_comm, findFrom_add (hadd _)]

/-- What a scan finds wrong tells whether a block has been left open. -/
theorem ne_unterminated_of_diagnostics {source : String}
    (h : ∀ d ∈ (Scan.ofText source).diagnostics.entries.toList,
      d.message ≠ Fault.unterminated.message) :
    ∀ x ∈ lexemes source.toList, x.reading ≠ .fault .unterminated := by
  rw [(Scan.ofText_eq source).2] at h
  generalize lexemes source.toList = xs at h
  generalize 1 = line at h
  induction xs generalizing line with
  | nil => exact List.forall_mem_nil _
  | cons x xs ih =>
    rw [findFrom, List.forall_mem_append] at h
    refine List.forall_mem_cons.2 ⟨fun hx => ?_, ih _ h.2⟩
    have hd : diagnostic? (x.endLine line) x =
        some ⟨x.endLine line, Fault.unterminated.message⟩ := by
      simp only [diagnostic?, hx]
    exact h.1 _ (by rw [hd]; exact List.mem_singleton_self _) rfl

end Lexeme

/-- Two sources with a line feed between them have the tokens of the first one, without its end, and
those of the second one, further down; and so it is with what is wrong with them. The first one
must not leave a block open. -/
theorem generate_append_newline {a b : String}
    (h : ∀ d ∈ ({ source := a } : Scanner).generate.2.diagnostics.entries.toList,
      d.message ≠ Lexeme.Fault.unterminated.message) :
    let scanned (source : String) := ({ source } : Scanner).generate.2
    let lines := 1 + a.toList.count '\n'
    (∃ kept, (scanned a).tokens = kept ++ [Token.endOfFile lines] ∧
      (scanned (a ++ "\n" ++ b)).tokens = kept ++ (scanned b).tokens.map (Token.below lines)) ∧
    (scanned (a ++ "\n" ++ b)).diagnostics.entries.toList =
      (scanned a).diagnostics.entries.toList ++
        (scanned b).diagnostics.entries.toList.map (Diagnostic.below lines) := by
  intro scanned lines
  have hseam := Lexeme.ne_unterminated_of_diagnostics h
  have hsource : (a ++ "\n" ++ b).toList = a.toList ++ '\n' :: b.toList := by simp
  obtain ⟨ha, hda⟩ := Scan.ofText_eq a
  obtain ⟨hb, hdb⟩ := Scan.ofText_eq b
  obtain ⟨hab, hdab⟩ := Scan.ofText_eq (a ++ "\n" ++ b)
  refine ⟨⟨_, ha, hab.trans ?_⟩, hdab.trans ?_⟩
  · have hend : Token.endOfFile ((1 + (a ++ "\n" ++ b).toList.count '\n' : Nat) : Int) =
        (Token.endOfFile ((1 + b.toList.count '\n' : Nat) : Int)).below lines := by
      rw [hsource, List.count_append, List.count_cons_self]
      simp only [Token.endOfFile, Token.below, lines, Token.mk.injEq, true_and]
      omega
    rw [hend, hsource, Lexeme.findFrom_append_newline token?_of_blank Lexeme.token?_add hseam,
      List.append_assoc]
    show _ = _ ++ (Scan.ofText b).tokens.toList.map _
    rw [hb, List.map_append, List.map_singleton]
  · show _ = (Scan.ofText a).diagnostics.entries.toList ++
      (Scan.ofText b).diagnostics.entries.toList.map _
    rw [hsource, Lexeme.findFrom_append_newline ?_ Lexeme.diagnostic?_add hseam, hda, hdb]
    intro line x hx
    exact Lexeme.diagnostic?_eq_none_iff.2 fun ⟨f, hf⟩ => by rw [hx] at hf; cases hf

/-- A spread without digits at the end of a line takes none from the next line. -/
theorem generate_append_newline_of_bare_spread :
    let scanned (source : String) := ({ source } : Scanner).generate.2
    (∀ d ∈ (scanned "E ? :").diagnostics.entries.toList,
        d.message ≠ Lexeme.Fault.unterminated.message) ∧
      (scanned "E ? :\n12 [").tokens =
        [⟨.note, "E", none, 1⟩, ⟨.number, "12", some (.number 12), 2⟩, ⟨.endOfFile, "", none, 2⟩] ∧
      (scanned "E ? :\n12 [").diagnostics.messages =
        ["[1] Error: Unknown character value: ?",
          "[1] Error: Spread amount \"\" for \"Spread Empty\" could not be parsed into a number: "
            ++ "invalid literal for int() with base 10: ''",
          "[2] Error: Unterminated options sequence. Close options sequences with \"]\"."] := by
  intro scanned
  have h : ∀ d ∈ (scanned "E ? :").diagnostics.entries.toList,
      d.message ≠ Lexeme.Fault.unterminated.message := by decide +kernel
  obtain ⟨⟨kept, ha, hab⟩, hdiagnostics⟩ := generate_append_newline (b := "12 [") h
  have hkept : kept = [⟨.note, "E", none, 1⟩] := by
    have hlast : (scanned "E ? :").tokens = [⟨.note, "E", none, 1⟩] ++ [Token.endOfFile 1] := by
      decide +kernel
    exact List.append_inj_left' (ha.symm.trans hlast) rfl
  refine ⟨h, hab.trans ?_, ?_⟩
  · rw [hkept]
    decide +kernel
  · refine (congrArg (List.map Diagnostic.text) hdiagnostics).trans ?_
    decide +kernel

end Tablature
