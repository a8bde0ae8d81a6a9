import Mathlib.Logic.Basic
import Tablature.CommandLine.Arguments

/-!
# Arguments that name files

* `ofArguments_of_operands`: flags, then one file or two, then flags again, ask for these files with
  these flags.
-/

namespace Tablature.CommandLine

/-- A flag as it is spelled in full. -/
def Flag.spelling : Flag → String
  | help => "--help"
  | stdout => "--stdout"
  | debug => "--debug"

/-- An argument that is no flag, whatever there is: it does not start with a hyphen. -/
def IsPlain (argument : String) : Prop := argument.toList.head? ≠ some '-'

theorem ofArgument_of_isPlain {argument : String} (h : IsPlain argument) :
    Word.ofArgument argument = .ok (.operand argument) := by
  unfold IsPlain at h
  unfold Word.ofArgument
  split <;> simp_all

theorem IsPlain.ne_separator {argument : String} (h : IsPlain argument) : argument ≠ "--" := by
  rintro rfl
  exact h (by decide)

theorem ofArgument_spelling (f : Flag) :
    Word.ofArgument f.spelling = .ok (.flag (.long f none)) := by
  cases f <;> rfl

theorem Flag.spelling_ne_separator (f : Flag) : f.spelling ≠ "--" := by
  cases f <;> decide

theorem wordsOf_cons {argument : String} {word : Word} (hne : argument ≠ "--")
    (h : Word.ofArgument argument = .ok word) (arguments : List String) :
    wordsOf (argument :: arguments) = (wordsOf arguments).map (word :: ·) := by
  rw [wordsOf, if_neg hne, h]

theorem wordsOf_spellings (flags : List Flag) (arguments : List String) :
    wordsOf (flags.map Flag.spelling ++ arguments) =
      (wordsOf arguments).map (flags.map (fun f => .flag (.long f none)) ++ ·) := by
  induction flags with
  | nil => cases h : wordsOf arguments <;> simp [Except.map, h]
  | cons f flags ih =>
    rw [List.map_cons, List.cons_append,
      wordsOf_cons f.spelling_ne_separator (ofArgument_spelling f), ih]
    cases wordsOf arguments <;> rfl

theorem wordsOf_operands {operands : List String} (h : ∀ a ∈ operands, IsPlain a)
    (arguments : List String) :
    wordsOf (operands ++ arguments) = (wordsOf arguments).map (operands.map .operand ++ ·) := by
  induction operands with
  | nil => cases h : wordsOf arguments <;> simp [Except.map, h]
  | cons a operands ih =>
    obtain ⟨ha, hrest⟩ := List.forall_mem_cons.1 h
    rw [List.cons_append, wordsOf_cons ha.ne_separator (ofArgument_of_isPlain ha), ih hrest]
    cases wordsOf arguments <;> rfl

theorem turnOn_long {flags : List Flag} (h : .help ∉ flags) (s : Switches) :
    s.turnOn (flags.map (.long · none)) =
      .ok (some ⟨s.stdout || decide (.stdout ∈ flags), s.debug || decide (.debug ∈ flags)⟩) := by
  induction flags generalizing s with
  | nil => simp [Switches.turnOn]
  | cons f flags ih =>
    obtain ⟨hf, hflags⟩ := not_or.1 (mt List.mem_cons.2 h)
    cases f with
    | help => exact absurd rfl hf
    | stdout => simp [Switches.turnOn, GivenFlag.resolve, ih hflags]
    | debug => simp [Switches.turnOn, GivenFlag.resolve, ih hflags]

theorem valueOf_operand {a : String} (h : IsPlain a) : valueOf [.operand a] = some a := by
  have hne : ("--" == a) = false := beq_false_of_ne h.ne_separator.symm
  simp [valueOf, Word.text?, h.ne_separator]

theorem frontOf_operands (a : String) (operands : List String) :
    frontOf ((a :: operands).map .operand) = [.operand a] := by
  cases operands <;> simp [frontOf]

/-- The values of one operand or two. -/
theorem valuesOf_operands {input : String} {output : Option String} (hinput : IsPlain input)
    (houtput : ∀ a ∈ output, IsPlain a) :
    valuesOf ((input :: output.toList).map .operand) = (some input, output, []) := by
  rw [valuesOf, frontOf_operands]
  cases output with
  | none => simp [valueOf_operand hinput, show valueOf (frontOf []) = none from rfl]
  | some output =>
    have hsecond := frontOf_operands output []
    simp only [List.map_cons, List.map_nil] at hsecond
    simp [valueOf_operand hinput, valueOf_operand (houtput output rfl), hsecond]

/-- The words of flags. -/
def flagWords (flags : List Flag) : List Word := flags.map fun f => .flag (.long f none)

theorem takeWhile_flagWords (flags : List Flag) :
    (flagWords flags).takeWhile Word.isOperand = [] := by
  cases flags <;> rfl

theorem dropWhile_flagWords (flags : List Flag) :
    (flagWords flags).dropWhile Word.isOperand = flagWords flags := by
  cases flags <;> rfl

theorem text?_flagWords (flags : List Flag) : (flagWords flags).filterMap Word.text? = [] :=
  List.filterMap_eq_nil_iff.2 fun w hw => by
    obtain ⟨f, -, rfl⟩ := List.mem_map.1 hw
    rfl

/-- The flags that are given among words. -/
theorem filterMap_given {f : Word → Option GivenFlag}
    (hflag : ∀ given, f (.flag given) = some given)
    (hoperand : ∀ w, w.isOperand = true → f w = none) {before after : List Flag} {run : List Word}
    (hrun : ∀ w ∈ run, w.isOperand = true) :
    (flagWords before ++ (run ++ flagWords after)).filterMap f =
      (before ++ after).map (.long · none) := by
  have hflags : ∀ flags, (flagWords flags).filterMap f = flags.map (.long · none) := fun flags => by
    induction flags with
    | nil => rfl
    | cons flag flags ih => exact (List.filterMap_cons_some (hflag _)).trans (congrArg _ ih)
  have hnone : run.filterMap f = [] :=
    List.filterMap_eq_nil_iff.2 fun w hw => hoperand w (hrun w hw)
  rw [List.filterMap_append, List.filterMap_append, hflags, hnone, hflags, List.nil_append,
    List.map_append]

/-- What flags, a run of operands, and flags again ask for. -/
theorem ofWords_of_run {before after : List Flag} {w : Word} {ws : List Word}
    {input output : Option String} (hhelp : .help ∉ before ++ after)
    (hrun : ∀ w' ∈ w :: ws, w'.isOperand = true)
    (hvalues : valuesOf (w :: ws) = (input, output, [])) :
    Invocation.ofWords (flagWords before ++ (w :: ws ++ flagWords after)) =
      .ok (.interpret { input, output, stdout := decide (.stdout ∈ before ++ after),
                        debug := decide (.debug ∈ before ++ after) }) := by
  have hw : (!w.isOperand) = false := by simp [hrun w List.mem_cons_self]
  have hbefore : ∀ w' ∈ flagWords before, (!w'.isOperand) = true := by
    simp [flagWords, Word.isOperand]
  have h₁ : (flagWords before ++ (w :: ws ++ flagWords after)).takeWhile (!·.isOperand) =
      flagWords before := by
    rw [List.takeWhile_append_of_pos hbefore, List.cons_append, List.takeWhile_cons, hw]
    simp
  have h₂ : (flagWords before ++ (w :: ws ++ flagWords after)).dropWhile (!·.isOperand) =
      w :: ws ++ flagWords after := by
    rw [List.dropWhile_append_of_pos hbefore, List.cons_append, List.dropWhile_cons, hw]
    simp
  have h₃ : (w :: ws ++ flagWords after).takeWhile Word.isOperand = w :: ws := by
    rw [List.takeWhile_append_of_pos hrun, takeWhile_flagWords, List.append_nil]
  have h₄ : (w :: ws ++ flagWords after).dropWhile Word.isOperand = flagWords after := by
    rw [List.dropWhile_append_of_pos hrun, dropWhile_flagWords]
  have hunused : (flagWords before ++ [] ++ flagWords after).filterMap Word.text? = [] := by
    simp [text?_flagWords]
  rw [Invocation.ofWords, h₁, h₂, h₃, h₄, hvalues]
  dsimp only
  rw [hunused,
    filterMap_given (fun _ => rfl) (fun w hw => by cases w <;> first | rfl | cases hw) hrun,
    turnOn_long hhelp]
  simp

/-- What flags, one file or two, and flags again ask for. -/
theorem ofArguments_of_operands {before after : List Flag} {input : String} {output : Option String}
    (hhelp : .help ∉ before ++ after) (hinput : IsPlain input) (houtput : ∀ a ∈ output, IsPlain a) :
    Invocation.ofArguments (before.map Flag.spelling ++ (input :: output.toList) ++
        after.map Flag.spelling) =
      .ok (.interpret { input := some input, output, stdout := decide (.stdout ∈ before ++ after),
                        debug := decide (.debug ∈ before ++ after) }) := by
  have hplain : ∀ a ∈ input :: output.toList, IsPlain a := by
    simpa [hinput] using houtput
  have hwords : wordsOf (before.map Flag.spelling ++ (input :: output.toList) ++
      after.map Flag.spelling) = .ok (flagWords before ++
        ((input :: output.toList).map .operand ++ flagWords after)) := by
    have hafter := wordsOf_spellings after []
    rw [List.append_nil] at hafter
    rw [List.append_assoc, wordsOf_spellings, wordsOf_operands hplain, hafter]
    simp [wordsOf, Except.map, flagWords]
  rw [Invocation.ofArguments, hwords]
  exact ofWords_of_run hhelp (by simp [Word.isOperand]) (valuesOf_operands hinput houtput)

end Tablature.CommandLine
