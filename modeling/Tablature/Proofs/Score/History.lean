import Mathlib.Data.List.Induction
import Tablature.Proofs.Staff.Extends
import Tablature.Score

/-!
# The history of a score

Operations are performed one after the other, whether or not one of them is stopped. Each of them
starts a staff, or writes on the last one, or leaves all staffs as they are.

* `apply_changes`: what an operation does to a score;
* `wellFormed_after`: what all scores have in common;
* `started_of_meters`, `meters_of_opens`: the meter of a staff is the one that was set when it was
  started;
* `history_invariant`: all of it together.
-/

namespace Tablature.Score

/-- The score after operations, each performed whatever became of those before it. -/
def after (commands : List Command) : Score := commands.foldl (fun s c => (s.apply c).state) {}

/-- The meters of the staffs, in the order in which they were started. -/
def meters (s : Score) : List Meter := s.staffs.map (·.clock.meter)

/-- The operations of a new staff that takes its meter and its first string. -/
def startCommands (m : Meter) (name : String) : List Staff.Command :=
  [.setSignature m.beats m.dominant, .setFidelity m.fidelity, .addNote name]

/-- One of the operations is the note that started the staff with index `i`, when the meter `m` was
set. -/
def Started (commands : List Command) (i : Nat) (m : Meter) : Prop :=
  ∃ before name later, commands = before ++ .note name :: later ∧
    (after before).staffs.length = i ∧
    (after (before ++ [.note name])).staffs.length = i + 1 ∧
    (after before).defaults = m

/-- What an operation may make of a score. -/
inductive Changes (s : Score) : Command → Score → Prop
  /-- A note starts a staff in the meter of now. -/
  | started {name : String} {staff : Staff} (opens : s.opensStaff = true)
      (start : Outcome.runAll Staff.apply (startCommands s.defaults name) {} = .done staff) :
      Changes s (.note name) ⟨staff :: s.newestFirst, s.defaults⟩
  | continued {c : Command} {staff staff' : Staff} {earlier : List Staff}
      (last : s.newestFirst = staff :: earlier) (keeps : staff.Extends staff') :
      Changes s c ⟨staff' :: earlier, s.defaults⟩
  | kept {c : Command} (defaults : Meter) : Changes s c ⟨s.newestFirst, defaults⟩

/-- Every staff is started by a note, and left only once it has cells. -/
structure WellFormed (s : Score) : Prop where
  notes : ∀ staff ∈ s.newestFirst, staff.notes ≠ []
  hasCells : ∀ staff ∈ s.newestFirst.tail, staff.hasCells = true

variable {s s' : Score} {c : Command}

/-! ## One operation -/

theorem addNote_changes (s : Score) (name : String) :
    (s.addNote name).fault = none ∧ s.Changes (.note name) (s.addNote name).state := by
  by_cases hopens : s.opensStaff = true
  · rw [addNote, if_pos hopens]
    exact ⟨rfl, .started hopens (Staff.runAll_start s.defaults name)⟩
  · rw [addNote, if_neg hopens]
    obtain ⟨_ | ⟨staff, earlier⟩, defaults⟩ := s
    · exact absurd rfl hopens
    · obtain ⟨staff', hadd, hext, -⟩ := Staff.addNote_extends (Bool.eq_false_iff.2 hopens) name
      simp only [onCurrent, hadd]
      exact ⟨rfl, .continued rfl hext⟩

theorem stroke_changes (s : Score) (k : Staff.Stroke) :
    (∀ e, (s.stroke k).fault = some e → ∃ cause, e = .label cause) ∧
      s.Changes (.stroke k) (s.stroke k).state := by
  obtain ⟨_ | ⟨staff, earlier⟩, defaults⟩ := s
  · exact ⟨nofun, .kept defaults⟩
  · have hwrites := Staff.stroke_writes k staff
    refine ⟨fun e he => ?_, .continued rfl hwrites.state⟩
    obtain ⟨-, cause, -, rfl⟩ :=
      hwrites.fault e (by simpa [stroke, onCurrent, Outcome.map] using he)
    exact ⟨cause, rfl⟩

/-- What an operation makes of a score, stopped or not. It is not stopped by a staff that refuses
a change. -/
theorem apply_changes (s : Score) (c : Command) :
    (∀ what, (s.apply c).fault ≠ some (.staff (.locked what))) ∧ s.Changes c (s.apply c).state := by
  cases c with
  | note name =>
    obtain ⟨hfault, hchanges⟩ := addNote_changes s name
    refine ⟨fun what h => ?_, hchanges⟩
    rw [apply, Outcome.map, hfault] at h
    cases h
  | stroke k =>
    obtain ⟨hfault, hchanges⟩ := stroke_changes s k
    refine ⟨fun what h => ?_, hchanges⟩
    obtain ⟨e, he, heq⟩ := Option.map_eq_some_iff.1 h
    obtain ⟨cause, rfl⟩ := hfault e he
    cases heq
  | options block =>
    refine ⟨fun what h => ?_, .kept _⟩
    obtain ⟨e, -, heq⟩ := Option.map_eq_some_iff.1 h
    cases heq

theorem eq_of_runAll_startCommands {m : Meter} {name : String} {staff : Staff}
    (h : Outcome.runAll Staff.apply (startCommands m name) {} = .done staff) :
    staff = { notes := [name], rows := [""], clock := { meter := m } } := by
  rw [startCommands, Staff.runAll_start, Outcome.done_inj] at h
  exact h.symm

namespace Changes

theorem wellFormed (h : s.Changes c s') (hs : s.WellFormed) : s'.WellFormed := by
  cases h with
  | started opens start =>
    refine ⟨List.forall_mem_cons.2 ⟨?_, hs.notes⟩, fun staff hstaff => ?_⟩
    · rw [eq_of_runAll_startCommands start]
      exact List.cons_ne_nil _ _
    · obtain ⟨_ | ⟨last, earlier⟩, defaults⟩ := s
      · cases hstaff
      · rcases List.mem_cons.1 hstaff with rfl | hstaff
        · exact opens
        · exact hs.hasCells staff hstaff
  | continued last keeps =>
    obtain ⟨hnotes, hearlier⟩ := List.forall_mem_cons.1 (last ▸ hs.notes)
    refine ⟨List.forall_mem_cons.2 ⟨fun hnil => hnotes ?_, hearlier⟩, ?_⟩
    · exact List.prefix_nil.1 (hnil ▸ keeps.notes)
    · have := hs.hasCells
      rwa [last] at this
  | kept defaults => exact ⟨hs.notes, hs.hasCells⟩

/-- The staffs before the last one stay as they are, and one is started at most. -/
theorem staffs (h : s.Changes c s') :
    (∃ name staff, c = .note name ∧ s'.staffs = s.staffs ++ [staff] ∧
        Outcome.runAll Staff.apply (startCommands s.defaults name) {} = .done staff) ∨
      s'.staffs.length = s.staffs.length ∧ s'.staffs.dropLast = s.staffs.dropLast := by
  cases h with
  | started opens start => exact .inl ⟨_, _, rfl, List.reverse_cons, start⟩
  | continued last keeps =>
    refine .inr ?_
    simp only [Score.staffs, last, List.length_reverse, List.length_cons, List.dropLast_reverse,
      List.tail_cons, and_self]
  | kept defaults => exact .inr ⟨rfl, rfl⟩

/-- Meters of staffs never change; that of a new one is the one set now. -/
theorem meters (h : s.Changes c s') :
    s'.meters = s.meters ∨ ∃ name, c = .note name ∧ s'.meters = s.meters ++ [s.defaults] := by
  cases h with
  | started opens start =>
    refine .inr ⟨_, rfl, ?_⟩
    simp [Score.meters, Score.staffs, eq_of_runAll_startCommands start]
  | continued last keeps =>
    refine .inl ?_
    simp [Score.meters, Score.staffs, last, keeps.meter]
  | kept defaults => exact .inl rfl

end Changes

/-! ## All operations -/

theorem after_append_singleton (commands : List Command) (c : Command) :
    after (commands ++ [c]) = ((after commands).apply c).state := by
  rw [after, List.foldl_append]
  rfl

theorem wellFormed_after (commands : List Command) : (after commands).WellFormed := by
  induction commands using List.reverseRecOn with
  | nil => exact ⟨List.forall_mem_nil _, List.forall_mem_nil _⟩
  | append_singleton commands c ih =>
    rw [after_append_singleton]
    exact (apply_changes _ c).2.wellFormed ih

theorem length_meters (s : Score) : s.meters.length = s.staffs.length := List.length_map _

theorem Started.append_singleton {commands : List Command} {i : Nat} {m : Meter}
    (h : Started commands i m) (c : Command) : Started (commands ++ [c]) i m := by
  obtain ⟨before, name, later, rfl, hrest⟩ := h
  exact ⟨before, name, later ++ [c], by simp, hrest⟩

/-- The meter of a staff is the one that was set when a note started the staff. -/
theorem started_of_meters {commands : List Command} {i : Nat} {m : Meter}
    (h : (after commands).meters[i]? = some m) : Started commands i m := by
  induction commands using List.reverseRecOn with
  | nil => cases h
  | append_singleton commands c ih =>
    rw [after_append_singleton] at h
    rcases (apply_changes (after commands) c).2.meters with hm | ⟨name, rfl, hm⟩
    · rw [hm] at h
      exact (ih h).append_singleton c
    · have hlen := congrArg List.length hm
      rw [List.length_append, length_meters, length_meters, ← after_append_singleton] at hlen
      rw [hm] at h
      rcases Nat.lt_or_ge i (after commands).meters.length with hi | hi
      · rw [List.getElem?_append_left hi] at h
        exact (ih h).append_singleton _
      · rw [List.getElem?_append_right hi, List.getElem?_singleton,
          Option.ite_none_right_eq_some] at h
        obtain ⟨hi₀, hm⟩ := h
        rw [length_meters] at hi hi₀
        obtain rfl : (after commands).staffs.length = i := by omega
        exact ⟨commands, name, [], rfl, rfl, hlen, Option.some.inj hm⟩

/-- Meters of staffs stay, whatever operations follow. -/
theorem meters_prefix (commands later : List Command) :
    (after commands).meters <+: (after (commands ++ later)).meters := by
  induction later using List.reverseRecOn with
  | nil => simp
  | append_singleton later c ih =>
    rw [← List.append_assoc, after_append_singleton]
    refine ih.trans ?_
    rcases (apply_changes (after (commands ++ later)) c).2.meters with hm | ⟨-, -, hm⟩
    · exact hm ▸ List.prefix_rfl
    · exact hm ▸ List.prefix_append _ _

/-- A staff that a note starts has the meter that is set then, and keeps it. -/
theorem meters_of_opens {commands : List Command} (h : (after commands).opensStaff = true)
    (name : String) (later : List Command) :
    (after (commands ++ .note name :: later)).meters[(after commands).staffs.length]? =
      some (after commands).defaults := by
  have hnote : (after (commands ++ [.note name])).meters =
      (after commands).meters ++ [(after commands).defaults] := by
    rw [after_append_singleton, meters]
    show ((after commands).addNote name).state.staffs.map _ = _
    rw [staffs_addNote_of_opens h, List.map_append]
    rfl
  have hprefix := meters_prefix (commands ++ [.note name]) later
  rw [List.append_assoc, List.singleton_append, hnote] at hprefix
  obtain ⟨rest, hrest⟩ := hprefix
  rw [← hrest, ← length_meters, List.append_assoc, List.getElem?_append_right (Nat.le_refl _)]
  simp

/-- Whatever operations a score has seen, and whatever operation comes next: no staff refuses it;
all staffs but the last one stay as they are, and one is started at most; every staff has a
string, and every one but the last has cells; and the meter of a staff is the one that was set
when it was started. -/
theorem history_invariant (commands : List Command) (c : Command) :
    let s := after commands
    let s' := (s.apply c).state
    (∀ what, (s.apply c).fault ≠ some (.staff (.locked what))) ∧
      ((∃ name staff, c = .note name ∧ s'.staffs = s.staffs ++ [staff] ∧
          Outcome.runAll Staff.apply (startCommands s.defaults name) {} = .done staff) ∨
        s'.staffs.length = s.staffs.length ∧ s'.staffs.dropLast = s.staffs.dropLast) ∧
      (∀ staff ∈ s.staffs, staff.notes ≠ []) ∧
      (∀ staff ∈ s.staffs.dropLast, staff.hasCells = true) ∧
      s.meters <+: s'.meters ∧
      ∀ i m, s.meters[i]? = some m → Started commands i m := by
  intro s s'
  obtain ⟨hfault, hchanges⟩ := apply_changes s c
  have hs := wellFormed_after commands
  refine ⟨hfault, hchanges.staffs, fun staff hstaff => ?_, fun staff hstaff => ?_, ?_,
    fun i m => started_of_meters⟩
  · exact hs.notes staff (List.mem_reverse.1 hstaff)
  · rw [staffs, List.dropLast_reverse, List.mem_reverse] at hstaff
    exact hs.hasCells staff hstaff
  · rcases hchanges.meters with hm | ⟨-, -, hm⟩
    · exact hm ▸ List.prefix_rfl
    · exact hm ▸ List.prefix_append _ _

end Tablature.Score
