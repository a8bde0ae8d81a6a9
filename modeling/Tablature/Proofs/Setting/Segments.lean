import Mathlib.Data.List.Induction
import Tablature.Proofs.Outcome
import Tablature.Proofs.Setting.Grammar

/-!
# Options blocks, segment by segment

The segments of an options block act on a meter one after the other. What a segment does, and what
is said about it, depends on nothing but its text; a faulty one does nothing at all. So blocks that
stand one after the other do the same as one block, and a block that is set once more changes
nothing.

* `applySegment_cases`: what a segment does;
* `numbers_foldl`: the last segment that sets a number decides it;
* `configure_segments`: the meter and the messages of a block.
-/

namespace Tablature

open Text

/-- The beats of a measure, and the note value that gets one. -/
def Meter.signature (m : Meter) : Nat × Nat := (m.beats, m.dominant)

theorem Meter.eq_of_numbers {m m' : Meter} (hsignature : m.signature = m'.signature)
    (hfidelity : m.fidelity = m'.fidelity) : m = m' := by
  obtain ⟨hbeats, hdominant⟩ := Prod.mk.inj hsignature
  rw [← setSignature_setFidelity m m, ← setSignature_setFidelity m' m, hbeats, hdominant, hfidelity]

namespace Setting

/-- What is said about a segment, if it is faulty. -/
def message? (segment : List Char) : Option String := (fault? segment).map Fault.message

/-- The numbers of the time signature that a segment sets. -/
def signature? (segment : List Char) : Option (Nat × Nat) :=
  match ofSegment segment with
  | .ok (.signature beats dominant) => some (max 1 beats, max 1 dominant)
  | _ => none

/-- The fidelity that a segment sets. -/
def fidelity? (segment : List Char) : Option Nat :=
  match ofSegment segment with
  | .ok (.fidelity f) => some (max 1 f)
  | _ => none

theorem segments_append (block later : String) :
    segments (block ++ ";" ++ later) = segments block ++ segments later := by
  have hlist : (block ++ ";" ++ later).toList = block.toList ++ ';' :: later.toList := by simp
  rw [segments, hlist, fields_append]
  rfl

theorem filterMap_message?_segments (block : String) :
    (segments block).filterMap message? = (faults block).map Fault.message := by
  rw [faults, List.map_filterMap]
  rfl

theorem message?_eq_none_iff {segment : List Char} :
    message? segment = none ↔ ∃ s, ofSegment segment = .ok s := by
  rw [message?, fault?]
  cases ofSegment segment <;> simp

theorem signature_applySegment (m : Meter) (segment : List Char) :
    (applySegment m segment).signature = (signature? segment).getD m.signature := by
  unfold applySegment signature?
  rcases ofSegment segment with e | ⟨beats, dominant⟩ | f <;> rfl

theorem fidelity_applySegment (m : Meter) (segment : List Char) :
    (applySegment m segment).fidelity = (fidelity? segment).getD m.fidelity := by
  unfold applySegment fidelity?
  rcases ofSegment segment with e | ⟨beats, dominant⟩ | f <;> rfl

/-- A segment sets a time signature, or a fidelity, or is faulty and sets nothing. -/
theorem applySegment_cases (segment : List Char) (m : Meter) :
    (∃ beats dominant,
        (Written segment (.signature beats dominant) ∨
          Overrun segment (.signature beats dominant)) ∧
        message? segment = none ∧ (applySegment m segment).beats = max 1 beats ∧
        (applySegment m segment).dominant = max 1 dominant ∧
        (applySegment m segment).fidelity = m.fidelity) ∨
      (∃ fidelity, Written segment (.fidelity fidelity) ∧ message? segment = none ∧
        (applySegment m segment).beats = m.beats ∧
        (applySegment m segment).dominant = m.dominant ∧
        (applySegment m segment).fidelity = max 1 fidelity) ∨
      (¬ ∃ s, Written segment s ∨ Overrun segment s) ∧
        (∃ text, message? segment = some text) ∧ applySegment m segment = m := by
  simp only [← ofSegment_eq_ok_iff, applySegment, message?, fault?]
  cases h : ofSegment segment with
  | error e => exact .inr (.inr ⟨by simp, ⟨_, rfl⟩, rfl⟩)
  | ok s =>
    cases s with
    | signature beats dominant => exact .inl ⟨beats, dominant, rfl, rfl, rfl, rfl, rfl⟩
    | fidelity f =>
      have hwritten : Written segment (.fidelity f) :=
        (ofSegment_eq_ok_iff.1 h).resolve_right fun ho => by cases ho
      exact .inr (.inl ⟨f, hwritten, rfl, rfl, rfl, rfl⟩)

/-- What segments set one after the other is what the last of them sets. -/
theorem foldl_applySegment {α : Type} {get : Meter → α} {set? : List Char → Option α}
    (h : ∀ m segment, get (applySegment m segment) = (set? segment).getD (get m))
    (segments : List (List Char)) (m : Meter) :
    get (segments.foldl applySegment m) = (segments.filterMap set?).getLast?.getD (get m) := by
  induction segments using List.reverseRecOn with
  | nil => rfl
  | append_singleton segments segment ih =>
    rw [List.foldl_append, List.foldl_cons, List.foldl_nil, h, ih, List.filterMap_append]
    cases hset : set? segment with
    | none => simp [hset]
    | some a => simp [hset]

/-- The last segment that sets a number of the meter decides it. -/
theorem numbers_foldl (segments : List (List Char)) (m : Meter) :
    (segments.foldl applySegment m).signature =
        (segments.filterMap signature?).getLast?.getD m.signature ∧
      (segments.foldl applySegment m).fidelity =
        (segments.filterMap fidelity?).getLast?.getD m.fidelity :=
  ⟨foldl_applySegment signature_applySegment segments m,
    foldl_applySegment fidelity_applySegment segments m⟩

/-- Segments that are set once more change nothing. -/
theorem foldl_applySegment_foldl (segments : List (List Char)) (m : Meter) :
    segments.foldl applySegment (segments.foldl applySegment m) =
      segments.foldl applySegment m := by
  obtain ⟨hsignature, hfidelity⟩ := numbers_foldl segments m
  obtain ⟨hsignature', hfidelity'⟩ := numbers_foldl segments (segments.foldl applySegment m)
  refine Meter.eq_of_numbers (hsignature'.trans ?_) (hfidelity'.trans ?_)
  · rw [hsignature]
    cases (segments.filterMap signature?).getLast? <;> rfl
  · rw [hfidelity]
    cases (segments.filterMap fidelity?).getLast? <;> rfl

end Setting

namespace Meter

open Setting

/-- The messages about a block that is set. -/
def messages (block : String) (m : Meter) : List String :=
  ((m.configure block).fault.getD []).map Fault.message

theorem messages_eq (block : String) (m : Meter) :
    messages block m = (segments block).filterMap message? := by
  have hfaults : (m.configure block).fault.getD [] = faults block := by
    rw [fault_configure]
    split
    · rename_i h
      exact h.symm
    · rfl
  rw [messages, hfaults, filterMap_message?_segments]

theorem fault_configure_eq_none_iff_message? {block : String} {m : Meter} :
    (m.configure block).fault = none ↔ ∀ segment ∈ segments block, message? segment = none := by
  simp only [fault_configure_eq_none_iff, message?_eq_none_iff]

/-- A block that is set once more changes nothing. -/
theorem configure_configure (block : String) (m : Meter) :
    (m.configure block).state.configure block = m.configure block := by
  have hstate : ((m.configure block).state.configure block).state = (m.configure block).state := by
    rw [state_configure, state_configure, foldl_applySegment_foldl]
  have hfault : ((m.configure block).state.configure block).fault = (m.configure block).fault := by
    rw [fault_configure, fault_configure]
  exact Outcome.eq_of_state_of_fault hstate hfault

/-- The meter that a block sets is the fold over its segments, and the messages are those about its
faulty segments, in order. Blocks with a semicolon between them are set one after the other, and a
block that is set once more changes nothing. -/
theorem configure_segments (block : String) (m : Meter) :
    (m.configure block).state = (segments block).foldl applySegment m ∧
      (∀ segment m',
        (∃ beats dominant,
            (Written segment (.signature beats dominant) ∨
              Overrun segment (.signature beats dominant)) ∧
            message? segment = none ∧ (applySegment m' segment).beats = max 1 beats ∧
            (applySegment m' segment).dominant = max 1 dominant ∧
            (applySegment m' segment).fidelity = m'.fidelity) ∨
          (∃ fidelity, Written segment (.fidelity fidelity) ∧ message? segment = none ∧
            (applySegment m' segment).beats = m'.beats ∧
            (applySegment m' segment).dominant = m'.dominant ∧
            (applySegment m' segment).fidelity = max 1 fidelity) ∨
          (¬ ∃ s, Written segment s ∨ Overrun segment s) ∧
            (∃ text, message? segment = some text) ∧ applySegment m' segment = m') ∧
      ((m.configure block).fault = none ↔ ∀ segment ∈ segments block, message? segment = none) ∧
      messages block m = (segments block).filterMap message? ∧
      (∀ later, (m.configure (block ++ ";" ++ later)).state =
          ((m.configure block).state.configure later).state ∧
        messages (block ++ ";" ++ later) m =
          messages block m ++ messages later (m.configure block).state) ∧
      (m.configure block).state.configure block = m.configure block := by
  refine ⟨state_configure block m, applySegment_cases, fault_configure_eq_none_iff_message?,
    messages_eq block m, fun later => ⟨?_, ?_⟩, configure_configure block m⟩
  · rw [state_configure, state_configure, state_configure, segments_append, List.foldl_append]
  · rw [messages_eq, messages_eq, messages_eq, segments_append, List.filterMap_append]

end Meter

end Tablature
