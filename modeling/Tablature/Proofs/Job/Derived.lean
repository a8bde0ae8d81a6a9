import Mathlib.Data.List.Basic
import Tablature.Job
import Tablature.Proofs.Text.Parts

/-!
# Derived names

If no file to write is named, its name is derived from the stem of the input: `-output` goes behind
the stem, and the suffix of that is replaced. A stem with a point inside so loses what follows its
last point.

* `stemOf_append_cons`, `stemOf_of_not_mem`: the stem of a name;
* `ofText_of_name`: a name, read as a path;
* `ofPaths_of_stem`: the file that is written for an input alone;
* `derived_output_iff`: when it is named after the stem of the input, and when two inputs have the
  same one.
-/

namespace Tablature

open Text

namespace Path

/-! ## Stems -/

/-- What follows the last point of a name is cut off, with the point. -/
theorem stemOf_append_cons {front rest : List Char} (hfront : front ≠ []) (hrest : rest ≠ [])
    (h : '.' ∉ rest) : stemOf (front ++ '.' :: rest) = front := by
  have hafter : ((front ++ '.' :: rest).reverse.takeWhile (· != '.')).length = rest.length := by
    rw [List.reverse_append, List.reverse_cons, List.append_assoc, List.singleton_append,
      takeWhile_separator (mt List.mem_reverse.1 h), List.length_reverse]
  have hlength : (front ++ '.' :: rest).length = front.length + (rest.length + 1) := by simp
  have := List.length_pos_of_ne_nil hfront
  have := List.length_pos_of_ne_nil hrest
  rw [stemOf, hafter, if_pos (by omega), hlength,
    show front.length + (rest.length + 1) - rest.length - 1 = front.length by omega,
    List.take_left]

/-- A point in front of a name cuts nothing off. -/
theorem stemOf_of_not_mem {name : List Char} (h : '.' ∉ name.tail) : stemOf name = name := by
  cases name with
  | nil => rfl
  | cons c cs =>
    rw [List.tail_cons] at h
    have hafter : cs.length ≤ ((c :: cs).reverse.takeWhile (· != '.')).length := by
      rw [List.reverse_cons, List.takeWhile_append_of_pos (bne_of_mem (mt List.mem_reverse.1 h)),
        List.length_append, List.length_reverse]
      omega
    rw [stemOf, if_neg]
    rw [List.length_cons]
    omega

theorem mem_of_mem_stemOf {name : List Char} {c : Char} (h : c ∈ stemOf name) : c ∈ name := by
  simp only [stemOf] at h
  split at h
  · exact List.mem_of_mem_take h
  · exact h

/-! ## Names as paths -/

theorem slash_not_mem_names {text name : String} (h : name ∈ (ofText text).names) :
    '/' ∉ name.toList := by
  obtain ⟨f, hf, rfl⟩ := List.mem_map.1 h
  rw [String.toList_ofList]
  exact not_mem_of_mem_fields (List.mem_of_mem_filter hf)

theorem slash_not_mem_stem (text : String) : '/' ∉ (ofText text).stem.toList := by
  rw [stem, String.toList_ofList]
  intro h
  have hname := mem_of_mem_stemOf h
  rw [name, List.getLastD_eq_getLast?] at hname
  cases hlast : (ofText text).names.getLast? with
  | none => rw [hlast] at hname; cases hname
  | some last =>
    rw [hlast] at hname
    exact slash_not_mem_names (List.mem_of_getLast? hlast) hname

/-- A text that is a name writes the path of that name alone. -/
theorem ofText_of_name {text : String} (hslash : '/' ∉ text.toList) (hnil : text ≠ "")
    (hpoint : text ≠ ".") : ofText text = ⟨.relative, [text]⟩ := by
  have hroot : text.toList.takeWhile (· == '/') = [] := by
    rw [List.takeWhile_eq_nil_iff]
    intro hlength hhead
    exact hslash (eq_of_beq hhead ▸ List.getElem_mem hlength)
  have hname : (text.toList ≠ [] && text.toList ≠ ['.']) = true := by
    have hpoint' : text.toList ≠ ".".toList := fun e => hpoint (String.toList_inj.1 e)
    simpa [hnil] using hpoint'
  rw [ofText, hroot, fields_of_not_mem hslash, List.filter_singleton, hname]
  simp [rootOf]

end Path

namespace Job

/-! ## Derived names -/

/-- What is left of a stem in the name of the file to write: the stem with `-output` behind it, but
if it has a point behind its first character, only what is in front of its last point. -/
def outputStem (stem : List Char) : List Char :=
  if '.' ∈ stem.tail then (stem.reverse.dropWhile (· != '.')).tail.reverse
  else stem ++ "-output".toList

/-- The file that is written for an input alone is named after its stem. -/
def KeepsStem (input : Path) : Prop :=
  ofPaths input none = .ok ⟨input, ⟨.relative, [input.stem ++ "-output.txt"]⟩⟩

/-- One file is written for two inputs, each alone. -/
def Shares (input input' : Path) : Prop :=
  ∃ job job', ofPaths input none = .ok job ∧ ofPaths input' none = .ok job' ∧
    job.output = job'.output

theorem outputStem_append_cons {front rest : List Char} (hfront : front ≠ []) (h : '.' ∉ rest) :
    outputStem (front ++ '.' :: rest) = front := by
  have hmem : '.' ∈ (front ++ '.' :: rest).tail := by
    rw [List.tail_append_of_ne_nil hfront]
    exact List.mem_append_right _ List.mem_cons_self
  rw [outputStem, if_pos hmem, List.reverse_append, List.reverse_cons, List.append_assoc,
    List.singleton_append, dropWhile_separator (mt List.mem_reverse.1 h), List.tail_cons,
    List.reverse_reverse]

/-- A stem with a point behind its first character, taken apart at its last point. -/
theorem exists_last_point {stem : List Char} (h : '.' ∈ stem.tail) :
    ∃ front rest, stem = front ++ '.' :: rest ∧ front ≠ [] ∧ '.' ∉ rest := by
  obtain ⟨c, cs, rfl⟩ := List.exists_cons_of_ne_nil (l := stem) fun e => by simp [e] at h
  obtain ⟨rest, front, hcs, hrest⟩ := List.eq_append_cons_of_mem (List.mem_reverse.2 h)
  refine ⟨c :: front.reverse, rest.reverse, ?_, List.cons_ne_nil _ _, by simpa using hrest⟩
  have hcs := congrArg List.reverse hcs
  simpa using hcs

theorem stemOf_append_output {stem : List Char} (hstem : stem ≠ []) :
    Path.stemOf (stem ++ "-output".toList) = outputStem stem := by
  by_cases h : '.' ∈ stem.tail
  · obtain ⟨front, rest, rfl, hfront, hrest⟩ := exists_last_point h
    rw [outputStem_append_cons hfront hrest, List.append_assoc, List.cons_append]
    refine Path.stemOf_append_cons hfront (by simp) ?_
    rw [List.mem_append]
    exact not_or.2 ⟨hrest, by decide⟩
  · rw [outputStem, if_neg h]
    refine Path.stemOf_of_not_mem ?_
    rw [List.tail_append_of_ne_nil hstem, List.mem_append]
    exact not_or.2 ⟨h, by decide⟩

theorem defaultOutput_of_stem {text : String} (h : (Path.ofText text).stem ≠ "") :
    defaultOutput (Path.ofText text) = ⟨.relative, [(Path.ofText text).stem ++ "-output"]⟩ := by
  have hslash : '/' ∉ ((Path.ofText text).stem ++ "-output").toList := by
    rw [String.toList_append, List.mem_append]
    exact not_or.2 ⟨Path.slash_not_mem_stem text, by decide⟩
  have hmem : 'o' ∈ ((Path.ofText text).stem ++ "-output").toList := by
    rw [String.toList_append]
    exact List.mem_append_right _ (by decide)
  have hne {t : String} (ht : 'o' ∉ t.toList) : (Path.ofText text).stem ++ "-output" ≠ t :=
    fun e => ht (e ▸ hmem)
  rw [defaultOutput, if_neg h, Path.ofText_of_name hslash (hne (by decide)) (hne (by decide))]

/-- The file that is written for an input alone. -/
theorem ofPaths_of_stem {text : String} (h : (Path.ofText text).stem ≠ "") :
    ofPaths (Path.ofText text) none = .ok ⟨Path.ofText text, ⟨.relative,
      [String.ofList (outputStem (Path.ofText text).stem.toList) ++ ".txt"]⟩⟩ := by
  have hstem : (Path.ofText text).stem.toList ≠ [] := by simpa using h
  rw [ofPaths, Option.getD_none, defaultOutput_of_stem h, ← stemOf_append_output hstem,
    ← String.toList_append]
  rfl

theorem outputStem_eq_iff {stem : List Char} :
    outputStem stem = stem ++ "-output".toList ↔ '.' ∉ stem.tail := by
  constructor
  · intro heq h
    obtain ⟨front, rest, rfl, hfront, hrest⟩ := exists_last_point h
    rw [outputStem_append_cons hfront hrest] at heq
    have hlength := congrArg List.length heq
    simp only [List.length_append, List.length_cons] at hlength
    omega
  · intro h
    rw [outputStem, if_neg h]

theorem keepsStem_iff {text : String} (h : (Path.ofText text).stem ≠ "") :
    KeepsStem (Path.ofText text) ↔ '.' ∉ (Path.ofText text).stem.toList.tail := by
  rw [KeepsStem, ofPaths_of_stem h, ← outputStem_eq_iff]
  generalize (Path.ofText text).stem = stem
  have hname :
      stem ++ "-output.txt" = String.ofList (stem.toList ++ "-output".toList) ++ ".txt" := by
    rw [String.ofList_append, String.ofList_toList, String.ofList_toList, String.append_assoc]
    rfl
  simp only [hname, Except.ok.injEq, Job.mk.injEq, Path.mk.injEq, List.cons.injEq, true_and,
    and_true, String.append_left_inj, String.ofList_inj]

theorem shares_iff {text text' : String} (h : (Path.ofText text).stem ≠ "")
    (h' : (Path.ofText text').stem ≠ "") :
    Shares (Path.ofText text) (Path.ofText text') ↔
      outputStem (Path.ofText text).stem.toList = outputStem (Path.ofText text').stem.toList := by
  rw [Shares, ofPaths_of_stem h, ofPaths_of_stem h']
  simp [String.ofList_inj]

/-- The file that is written for an input alone lies in the current directory. It is named after the
stem of the input exactly if the stem has no point behind its first character. Two inputs share it
exactly if the same is left of their stems, and if both keep their stems, then only if these are the
same. -/
theorem derived_output_iff (text text' : String) (h : (Path.ofText text).stem ≠ "")
    (h' : (Path.ofText text').stem ≠ "") :
    let input := Path.ofText text
    let input' := Path.ofText text'
    ofPaths input none = .ok ⟨input, ⟨.relative,
        [String.ofList (outputStem input.stem.toList) ++ ".txt"]⟩⟩ ∧
      (KeepsStem input ↔ '.' ∉ input.stem.toList.tail) ∧
      (Shares input input' ↔ outputStem input.stem.toList = outputStem input'.stem.toList) ∧
      (KeepsStem input → KeepsStem input' → (Shares input input' ↔ input.stem = input'.stem)) := by
  intro input input'
  refine ⟨ofPaths_of_stem h, keepsStem_iff h, shares_iff h h', fun hk hk' => ?_⟩
  rw [shares_iff h h', outputStem_eq_iff.2 ((keepsStem_iff h).1 hk),
    outputStem_eq_iff.2 ((keepsStem_iff h').1 hk'), List.append_left_inj, String.toList_inj]

/-- One stem is kept, and the other one shortened to the same name. -/
theorem derived_output_of_two_inputs :
    let input := Path.ofText "songs/riff.tab"
    let input' := Path.ofText "riff-output.1.tab"
    input.stem ≠ "" ∧ input'.stem ≠ "" ∧ KeepsStem input ∧ ¬ KeepsStem input' ∧
      Shares input input' := by
  intro input input'
  have h : input.stem ≠ "" := by decide +kernel
  have h' : input'.stem ≠ "" := by decide +kernel
  obtain ⟨-, hkeeps, hshares, -⟩ := derived_output_iff "songs/riff.tab" "riff-output.1.tab" h h'
  obtain ⟨-, hkeeps', -⟩ := derived_output_iff "riff-output.1.tab" "songs/riff.tab" h' h
  exact ⟨h, h', hkeeps.2 (by decide +kernel), fun hk => hkeeps'.1 hk (by decide +kernel),
    hshares.2 (by decide +kernel)⟩

/-- The stem `my.song` is not kept, and `my.other` gives the same name. -/
theorem not_keepsStem_of_inner_point :
    (Path.ofText "my.song.tab").stem = "my.song" ∧
      (Path.ofText "my.other.tab").stem = "my.other" ∧
      ¬ KeepsStem (Path.ofText "my.song.tab") ∧
      Shares (Path.ofText "my.song.tab") (Path.ofText "my.other.tab") := by
  refine ⟨by decide +kernel, by decide +kernel, ?_,
    ⟨Path.ofText "my.song.tab", ⟨.relative, ["my.txt"]⟩⟩,
    ⟨Path.ofText "my.other.tab", ⟨.relative, ["my.txt"]⟩⟩,
    by decide +kernel, by decide +kernel, rfl⟩
  unfold KeepsStem
  decide +kernel

end Job

end Tablature
