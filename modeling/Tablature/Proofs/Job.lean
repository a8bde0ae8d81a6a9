import Tablature.Job

/-!
# Paths with a name

* `Path.names_eq`: the names of such a path are those of its directory, and its own;
* `exists_ofPaths_iff`: there is a path to write if the one that is asked for has a name.
-/

namespace Tablature

open Text

namespace Text

theorem exists_field_of_mem {separator c : Char} (hc : c ≠ separator) {cs : List Char}
    (h : c ∈ cs) : ∃ f ∈ fields separator cs, c ∈ f := by
  induction cs with
  | nil => cases h
  | cons a cs ih =>
    obtain ⟨f, fs, hfields⟩ := List.exists_cons_of_ne_nil (fields_ne_nil separator cs)
    by_cases ha : a = separator
    · obtain ⟨g, hg, hcg⟩ := ih ((List.mem_cons.1 h).resolve_left fun e => hc (e.trans ha))
      rw [fields, if_pos ha]
      exact ⟨g, List.mem_cons_of_mem _ hg, hcg⟩
    · rw [fields, if_neg ha, hfields]
      rcases List.mem_cons.1 h with rfl | h
      · exact ⟨c :: f, List.mem_cons_self, List.mem_cons_self⟩
      · obtain ⟨g, hg, hcg⟩ := ih h
        rw [hfields] at hg
        rcases List.mem_cons.1 hg with rfl | hg
        · exact ⟨a :: g, List.mem_cons_self, List.mem_cons_of_mem _ hcg⟩
        · exact ⟨g, List.mem_cons_of_mem _ hg, hcg⟩

end Text

namespace Path

theorem names_eq {p : Path} (h : p.names ≠ []) : p.parent.names ++ [p.name] = p.names := by
  rw [name, List.getLastD_eq_getLast?, List.getLast?_eq_some_getLast h]
  exact List.dropLast_concat_getLast h

/-- A text with another character than slashes and points writes a path that has a name. -/
theorem names_ofText_ne_nil {text : String} {c : Char} (hslash : c ≠ '/') (hpoint : c ≠ '.')
    (h : c ∈ text.toList) : (ofText text).names ≠ [] := by
  obtain ⟨f, hf, hcf⟩ := exists_field_of_mem hslash h
  have hname : f ≠ [] ∧ f ≠ ['.'] :=
    ⟨List.ne_nil_of_mem hcf, fun e => hpoint (List.mem_singleton.1 (e ▸ hcf))⟩
  have hmem : f ∈ (fields '/' text.toList).filter fun f => f ≠ [] && f ≠ ['.'] :=
    List.mem_filter.2 ⟨hf, by simp [hname]⟩
  exact List.ne_nil_of_mem (List.mem_map_of_mem hmem)

end Path

namespace Job

theorem input_of_ofPaths {input : Path} {output : Option Path} {job : Job}
    (h : ofPaths input output = .ok job) : job.input = input := by
  simp only [ofPaths] at h
  split at h
  · exact Except.ok.inj h ▸ rfl
  · cases h

theorem names_defaultOutput_ne_nil (input : Path) : (defaultOutput input).names ≠ [] := by
  unfold defaultOutput
  refine Path.names_ofText_ne_nil (c := 'o') (by decide) (by decide) ?_
  split
  · decide
  · rw [String.toList_append]
    exact List.mem_append_right _ (by decide)

theorem exists_ofPaths_iff {input : Path} {output : Option Path} :
    (∃ job, ofPaths input output = .ok job) ↔
      (output.getD (defaultOutput input)).names ≠ [] := by
  rw [ofPaths]
  unfold Path.withSuffix?
  by_cases h : (output.getD (defaultOutput input)).names = [] <;> simp [h]

end Job

end Tablature
