import Tablature.Proofs.Setting.Grammar

/-!
# Settings that are written and read

A meter can be written as an options block. Its block is accepted whatever meter was set before,
and sets it again, as long as its numbers have numerals. The numbers that options blocks set
always have.

* `configure_block`: what a block with a signature and a fidelity sets;
* `configure_block_self`: a meter is set by its own block;
* `IsWritable.foldl_applySegment`: every meter that segments set can be written;
* `configure_numerals`: which numbers are read, and which meters are set again.
-/

namespace Tablature

open Text Numeral

namespace Setting

/-- The options block that sets a signature and a fidelity. -/
def block (beats dominant fidelity : Nat) : String :=
  "time=" ++ toString beats ++ "/" ++ toString dominant ++ "; fidelity=" ++ toString fidelity

variable {beats dominant fidelity : Nat}

theorem ofSegment_time (hb : beats < 10 ^ digitLimit) (hd : dominant < 10 ^ digitLimit) :
    ofSegment ("time=".toList ++ ((Nat.repr beats).toList ++ '/' :: (Nat.repr dominant).toList)) =
      .ok (.signature beats dominant) := by
  have hwritten : Written ("time".toList ++ '=' ::
      ((Nat.repr beats).toList ++ '/' :: (Nat.repr dominant).toList)) (.signature beats dominant) :=
    .time (by decide) ⟨_, _, rfl, written_repr hb, written_repr hd⟩
  exact ofSegment_eq_ok_iff.2 (.inl hwritten)

theorem ofSegment_fidelity (hf : fidelity < 10 ^ digitLimit) :
    ofSegment (" fidelity=".toList ++ (Nat.repr fidelity).toList) = .ok (.fidelity fidelity) := by
  have hwritten : Written (" fidelity".toList ++ '=' :: (Nat.repr fidelity).toList)
      (.fidelity fidelity) :=
    .fidelity (by decide) (written_repr hf)
  exact ofSegment_eq_ok_iff.2 (.inl hwritten)

theorem segments_block (beats dominant fidelity : Nat) :
    segments (block beats dominant fidelity) =
      ["time=".toList ++ ((Nat.repr beats).toList ++ '/' :: (Nat.repr dominant).toList),
        " fidelity=".toList ++ (Nat.repr fidelity).toList] := by
  have hfidelity : ';' ∉ " fidelity=".toList ++ (Nat.repr fidelity).toList := by
    rw [List.mem_append, not_or]
    exact ⟨by decide, not_mem_repr (by decide) fidelity⟩
  have htime : ';' ∉
      "time=".toList ++ ((Nat.repr beats).toList ++ '/' :: (Nat.repr dominant).toList) := by
    simp only [List.mem_append, List.mem_cons, not_or]
    exact ⟨by decide, not_mem_repr (by decide) beats, by decide, not_mem_repr (by decide) dominant⟩
  rw [← fields_of_not_mem hfidelity, ← fields_append_cons htime]
  show fields ';' (block beats dominant fidelity).toList = _
  simp [block]

/-- The numbers of a setting have numerals. -/
def IsWritable : Setting → Prop
  | .signature beats dominant => beats < 10 ^ digitLimit ∧ dominant < 10 ^ digitLimit
  | .fidelity f => f < 10 ^ digitLimit

/-- What is read has a numeral. -/
theorem isWritable_of_ofSegment {segment : List Char} {setting : Setting}
    (h : ofSegment segment = .ok setting) : setting.IsWritable := by
  rcases ofSegment_eq_ok_iff.1 h with (⟨-, signature⟩ | ⟨-, numeral⟩) | ⟨-, signature⟩
  · obtain ⟨_, _, -, hb, hd⟩ := signature
    exact ⟨hb.lt, hd.lt⟩
  · exact numeral.lt
  · obtain ⟨_, _, -, _, _, -, hb, hd⟩ := signature
    exact ⟨hb.lt, hd.lt⟩

end Setting

namespace Meter

variable {beats dominant fidelity : Nat}

/-- A block with a signature and a fidelity sets them, whatever meter was set before. -/
theorem configure_block (m : Meter) (hb : beats < 10 ^ digitLimit)
    (hd : dominant < 10 ^ digitLimit) (hf : fidelity < 10 ^ digitLimit) :
    m.configure (Setting.block beats dominant fidelity) =
      .done ((m.setSignature beats dominant).setFidelity fidelity) := by
  have hfaults : Setting.faults (Setting.block beats dominant fidelity) = [] := by
    rw [Setting.faults, Setting.segments_block]
    simp only [List.filterMap_cons, Setting.fault?, Setting.ofSegment_time hb hd,
      Setting.ofSegment_fidelity hf, List.filterMap_nil]
  simp only [configure, hfaults, Setting.segments_block, List.foldl_cons, List.foldl_nil,
    Setting.applySegment, Setting.ofSegment_time hb hd, Setting.ofSegment_fidelity hf,
    Setting.apply]

/-- The options block that writes a meter. -/
def block (m : Meter) : String := Setting.block m.beats m.dominant m.fidelity

/-- The numbers of a meter have numerals. -/
structure IsWritable (m : Meter) : Prop where
  beats : m.beats < 10 ^ digitLimit
  dominant : m.dominant < 10 ^ digitLimit
  fidelity : m.fidelity < 10 ^ digitLimit

/-- A meter is set by its own block. -/
theorem configure_block_self {m : Meter} (h : m.IsWritable) (m' : Meter) :
    m'.configure m.block = .done m := by
  rw [block, configure_block m' h.beats h.dominant h.fidelity, setSignature_setFidelity]

theorem isWritable_common : common.IsWritable :=
  ⟨lt_of_lt_hundred (by decide), lt_of_lt_hundred (by decide), lt_of_lt_hundred (by decide)⟩

theorem atLeastOne_lt {n : Nat} (h : n < 10 ^ digitLimit) : atLeastOne n < 10 ^ digitLimit :=
  max_lt (lt_of_lt_hundred (by decide)) (by rwa [Int.toNat_natCast])

theorem IsWritable.apply {m : Meter} {setting : Setting} (h : m.IsWritable)
    (hs : setting.IsWritable) : (setting.apply m).IsWritable := by
  cases setting with
  | signature b d => exact ⟨atLeastOne_lt hs.1, atLeastOne_lt hs.2, h.fidelity⟩
  | fidelity f => exact ⟨h.beats, h.dominant, atLeastOne_lt hs⟩

/-- Every meter that segments set can be written. -/
theorem IsWritable.foldl_applySegment {m : Meter} (h : m.IsWritable)
    (segments : List (List Char)) : (segments.foldl Setting.applySegment m).IsWritable := by
  induction segments generalizing m with
  | nil => exact h
  | cons segment segments ih =>
    refine ih ?_
    unfold Setting.applySegment
    split
    · exact h.apply (Setting.isWritable_of_ofSegment ‹_›)
    · exact h

theorem IsWritable.configure {m : Meter} (h : m.IsWritable) (block : String) :
    (m.configure block).state.IsWritable := by
  rw [state_configure]
  exact h.foldl_applySegment _

/-- The meter that options blocks make of the common one, set one after the other, whether they are
accepted or not. -/
def afterBlocks (blocks : List String) : Meter :=
  blocks.foldl (fun m block => (m.configure block).state) common

theorem isWritable_afterBlocks (blocks : List String) : (afterBlocks blocks).IsWritable := by
  suffices h : ∀ m : Meter, m.IsWritable →
      (blocks.foldl (fun m block => (m.configure block).state) m).IsWritable from
    h common isWritable_common
  induction blocks with
  | nil => exact fun m h => h
  | cons block blocks ih => exact fun m h => ih _ (h.configure block)

/-- A text is read as a number if it writes one: digits up to the limit, perhaps with a plus sign in
front, between blanks. Any other text is refused. So a block with a signature and a fidelity is
accepted and sets them, whatever meter was set before, with one in the place of zero; and every
meter that options blocks can set is set again by its own block. -/
theorem configure_numerals (hb : beats < 10 ^ digitLimit) (hd : dominant < 10 ^ digitLimit)
    (hf : fidelity < 10 ^ digitLimit) :
    (∀ text n, parse text = .ok n ↔ Numeral.Written text n) ∧
      (∀ text, (∃ e, parse text = .error e) ↔ ¬ ∃ n, Numeral.Written text n) ∧
      (∀ text n, Numeral.Written text n ↔ ∃ s : Spelling, s.text = text ∧ s.value = n) ∧
      (∀ m : Meter, ∃ m', m.configure (Setting.block beats dominant fidelity) = .done m' ∧
        m'.beats = max 1 beats ∧ m'.dominant = max 1 dominant ∧ m'.fidelity = max 1 fidelity) ∧
      ∀ (blocks : List String) (m : Meter),
        m.configure (afterBlocks blocks).block = .done (afterBlocks blocks) :=
  ⟨fun _ _ => parse_eq_ok_iff, fun _ => exists_parse_eq_error_iff,
    fun _ _ => written_iff_exists_spelling,
    fun m => ⟨_, configure_block m hb hd hf, rfl, rfl, rfl⟩,
    fun blocks m => configure_block_self (isWritable_afterBlocks blocks) m⟩

/-- A number with zeros in front of it, and the greatest fidelity that has a numeral. -/
theorem configure_numerals_of_longest :
    0 < 10 ^ digitLimit ∧ 7 < 10 ^ digitLimit ∧ 10 ^ digitLimit - 1 < 10 ^ digitLimit ∧
      parse "\u2003+007\n".toList = .ok 7 ∧ (∃ e, parse "1_0".toList = .error e) ∧
      (∃ m', common.configure (Setting.block 0 7 (10 ^ digitLimit - 1)) = .done m' ∧
        m'.beats = 1 ∧ m'.dominant = 7 ∧ m'.fidelity = max 1 (10 ^ digitLimit - 1)) ∧
      ∀ m : Meter, m.configure (afterBlocks ["time=0/7; bogus", "fidelity=+9"]).block =
        .done (afterBlocks ["time=0/7; bogus", "fidelity=+9"]) := by
  have hzero : 0 < 10 ^ digitLimit := Nat.pow_pos (by decide)
  have hseven : 7 < 10 ^ digitLimit := lt_of_lt_hundred (by decide)
  have hlongest : 10 ^ digitLimit - 1 < 10 ^ digitLimit := Nat.sub_one_lt hzero.ne'
  obtain ⟨hread, hrefused, hspelled, hset, hagain⟩ := configure_numerals hzero hseven hlongest
  have hdigits : ∀ c ∈ "007".toList, c.isDigit = true := List.all_eq_true.1 (by decide)
  have hblank : ∀ c ∈ ['\u2003', '\n'], isBlank c = true := List.all_eq_true.1 (by decide)
  obtain ⟨hbefore, hafter⟩ := List.forall_mem_cons.1 hblank
  have hspelling : ∃ s : Spelling, s.text = "\u2003+007\n".toList ∧ s.value = 7 :=
    ⟨⟨['\u2003'], true, ⟨"007".toList, hdigits, by decide, by decide⟩, ['\n'],
      List.forall_mem_singleton.2 hbefore, hafter⟩, rfl, rfl⟩
  have hmark : ¬ ∃ n, Numeral.Written "1_0".toList n := fun ⟨_, h⟩ =>
    h.not_mem (c := '_') (by decide) (by decide) (by decide) (by decide)
  exact ⟨hzero, hseven, hlongest, (hread _ _).2 ((hspelled _ _).2 hspelling),
    (hrefused _).2 hmark, hset common, hagain _⟩

end Meter

end Tablature
