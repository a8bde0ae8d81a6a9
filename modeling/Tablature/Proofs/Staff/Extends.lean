import Tablature.Proofs.Meter.Label
import Tablature.Proofs.Outcome
import Tablature.Staff

/-!
# What operations keep of a staff

A stroke keeps the strings and the meter of a staff, also if it is stopped, and nothing but a step
without a label stops it. If already the next step has none, then nothing changes.

* `stroke_writes`, `addNote_extends`: what strokes and notes keep;
* `runAll_start`: a new staff takes any meter and a first string;
* `state_apply_of_fault`: an operation that fails changes nothing, or stopped at a beat whose number
  has too many digits.
-/

namespace Tablature.Staff

/-- A staff that has come of another: strings may have been declared, and cells written. -/
structure Extends (s s' : Staff) : Prop where
  notes : s.notes <+: s'.notes
  meter : s'.clock.meter = s.clock.meter
  hasCells : s.hasCells = true → s'.hasCells = true

theorem Extends.refl (s : Staff) : s.Extends s := ⟨List.prefix_rfl, rfl, id⟩

theorem Extends.trans {s t u : Staff} (h : s.Extends t) (h' : t.Extends u) : s.Extends u :=
  ⟨h.notes.trans h'.notes, h'.meter.trans h.meter, h'.hasCells ∘ h.hasCells⟩

/-- An outcome of writing on a staff: stopped by a step without a label, if at all, and at once if
this is the next step. -/
structure Writes (s : Staff) (o : Outcome Fault Staff) : Prop where
  state : s.Extends o.state
  fault : ∀ e, o.fault = some e → ∃ p cause, s.clock.meter.label p = .error cause ∧ e = .label cause
  unmoved : ∀ cause, s.clock.label = .error cause → o.state = s

theorem Writes.done (s : Staff) : s.Writes (.done s) := ⟨.refl s, nofun, fun _ _ => rfl⟩

theorem Writes.trans {s t : Staff} {o : Outcome Fault Staff} (ht : s.Writes (.done t))
    (ho : t.Writes o) : s.Writes o where
  state := ht.state.trans ho.state
  fault := ht.state.meter ▸ ho.fault
  unmoved cause hl := by
    obtain rfl : t = s := ht.unmoved cause hl
    exact ho.unmoved cause hl

theorem Writes.iterate {f : Staff → Outcome Fault Staff} (h : ∀ s : Staff, s.Writes (f s))
    (n : Nat) (s : Staff) : s.Writes (Outcome.iterate f n s) :=
  Outcome.iterate_induction .done .trans h n s

theorem advance_extends (s : Staff) : s.Extends s.advance := by
  unfold advance
  split
  · exact ⟨List.prefix_rfl, rfl, id⟩
  · exact ⟨List.prefix_rfl, rfl, id⟩

theorem writeCell_writes (cell : Cell) (s : Staff) : s.Writes (writeCell cell s) := by
  unfold writeCell
  split
  · exact .done s
  · split
    · rename_i e he
      exact ⟨.refl s, fun _ h => ⟨_, e, he, (Option.some.inj h).symm⟩, fun _ _ => rfl⟩
    · rename_i l hl
      refine ⟨?_, nofun, fun cause he => absurd (hl.symm.trans he) nofun⟩
      show s.Extends (advance _)
      refine .trans ?_ (advance_extends _)
      exact ⟨List.prefix_rfl, rfl, fun _ => rfl⟩

theorem finishStep_writes (s : Staff) : s.Writes s.finishStep := by
  unfold finishStep
  split
  · exact .done s
  · exact .iterate (writeCell_writes .empty) _ s

/-- A stroke keeps strings and meter, takes no cell away, and is never refused. -/
theorem stroke_writes (k : Stroke) (s : Staff) : s.Writes (stroke k s) := by
  cases k with
  | fret f => exact writeCell_writes _ s
  | empty => exact writeCell_writes _ s
  | next => exact finishStep_writes s
  | spreadEmpty count =>
    rw [stroke]
    split
    · exact .done s
    · exact .iterate (writeCell_writes .empty) _ s
  | spreadNext count =>
    rw [stroke]
    split
    · exact .done s
    · exact .iterate finishStep_writes _ s

/-- A staff without cells takes one more string. -/
theorem addNote_extends {s : Staff} (h : s.hasCells = false) (note : String) :
    ∃ s', s.addNote note = .done s' ∧ s.Extends s' ∧ s'.notes ≠ [] :=
  ⟨_, if_neg (Bool.eq_false_iff.1 h), ⟨List.prefix_append _ _, rfl, id⟩, by simp⟩

/-- A new staff takes its meter and its first string, and refuses neither. -/
theorem runAll_start (m : Meter) (note : String) :
    Outcome.runAll apply
        [.setSignature m.beats m.dominant, .setFidelity m.fidelity, .addNote note] {} =
      .done { notes := [note], rows := [""], clock := { meter := m } } := by
  show Outcome.done _ = _
  simp [Clock.setSignature, Clock.setFidelity, Meter.setSignature_setFidelity]

/-! ## Failures -/

/-- A stroke that fails changes nothing, or stopped at a beat whose number has too many digits: the
resolution of a meter is too large for all steps or for none. -/
theorem state_stroke_of_fault {s : Staff} {k : Stroke} {e : Fault} (h : (stroke k s).fault = some e)
    (he : e ≠ .label .tooManyDigits) : (stroke k s).state = s := by
  have hwrites := stroke_writes k s
  obtain ⟨p, cause, hp, rfl⟩ := hwrites.fault e h
  have hfits : ¬ s.clock.meter.Fits := by
    rcases s.clock.meter.label_cases p with ⟨hf, -⟩ | ⟨-, -, hl⟩ | ⟨-, -, l, hl⟩
    · exact hf
    · cases hl.symm.trans hp
      exact absurd rfl he
    · cases hl.symm.trans hp
  exact hwrites.unmoved _ (Meter.label_of_not_fits hfits _)

theorem state_setup_of_fault {s : Staff} {what : Setup} {change : Staff → Staff} {e : Fault}
    (h : (setup what change s).fault = some e) : (setup what change s).state = s := by
  unfold setup at h ⊢
  split at h
  · rw [if_pos ‹_›]
    rfl
  · cases h

theorem state_apply_of_fault {s : Staff} {c : Command} {e : Fault} (h : (apply c s).fault = some e)
    (he : e ≠ .label .tooManyDigits) : (apply c s).state = s := by
  cases c with
  | addNote note => exact state_setup_of_fault h
  | setSignature beats dominant => exact state_setup_of_fault h
  | setFidelity fidelity => exact state_setup_of_fault h
  | stroke k => exact state_stroke_of_fault h he

end Tablature.Staff
