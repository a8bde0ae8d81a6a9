import Mathlib.Tactic.Ring
import Tablature.Proofs.Text.Parts
import Tablature.Text.Numeral

/-!
# Numerals that are written and read

* `parse_eq_ok_iff`, `exists_parse_eq_error_iff`: which texts are read, and as which numbers;
* `written_iff_exists_spelling`: how a number may be written;
* `parse_of_isDigit`: digits are read as the number they write;
* `parse_repr`: a number that is not too long is read from its own numeral;
* `lt_of_parse_eq_ok`: no other numbers are read.
-/

namespace Tablature

/-- The digits of a numeral. -/
structure Digits where
  chars : List Char
  isDigit : ∀ c ∈ chars, c.isDigit = true
  ne_nil : chars ≠ []
  length_le : chars.length ≤ Numeral.digitLimit

/-- The number that digits write. -/
def Digits.value (ds : Digits) : Nat := Nat.ofDigitChars 10 ds.chars 0

namespace Numeral

open Text

/-- A text that writes a number: its digits, perhaps with a plus sign in front, between blanks. -/
def Written (text : List Char) (n : Nat) : Prop :=
  ∃ ds : Digits, (trim text = ds.chars ∨ trim text = '+' :: ds.chars) ∧ n = ds.value

/-- A number between blanks, as it may stand in a text of its own. -/
structure Spelling where
  before : List Char
  signed : Bool
  digits : Digits
  after : List Char
  isBlank_before : ∀ c ∈ before, isBlank c = true
  isBlank_after : ∀ c ∈ after, isBlank c = true

namespace Spelling

/-- What stands between the blanks. -/
def numeral (s : Spelling) : List Char :=
  if s.signed then '+' :: s.digits.chars else s.digits.chars

def text (s : Spelling) : List Char := s.before ++ (s.numeral ++ s.after)

def value (s : Spelling) : Nat := s.digits.value

theorem trim_text (s : Spelling) : trim s.text = s.numeral := by
  have hdigits (c : Char) (hc : c ∈ s.digits.chars) : isBlank c = false :=
    not_isBlank_of_isDigit (s.digits.isDigit c hc)
  rw [text, trim_append_left s.isBlank_before, trim_append_right s.isBlank_after]
  refine trim_of_not_isBlank ?_
  unfold numeral
  split
  · exact List.forall_mem_cons.2 ⟨by decide, hdigits⟩
  · exact hdigits

end Spelling

/-- A text that writes a number is one spelling of it. -/
theorem written_iff_exists_spelling {text : List Char} {n : Nat} :
    Written text n ↔ ∃ s : Spelling, s.text = text ∧ s.value = n := by
  constructor
  · rintro ⟨ds, htrim, rfl⟩
    obtain ⟨before, after, hbefore, hafter, htext⟩ := exists_append_trim text
    rcases htrim with htrim | htrim
    · exact ⟨⟨before, false, ds, after, hbefore, hafter⟩, (htrim ▸ htext).symm, rfl⟩
    · exact ⟨⟨before, true, ds, after, hbefore, hafter⟩, (htrim ▸ htext).symm, rfl⟩
  · rintro ⟨s, rfl, rfl⟩
    refine ⟨s.digits, ?_, rfl⟩
    rw [s.trim_text, Spelling.numeral]
    split
    · exact .inr rfl
    · exact .inl rfl

theorem dropPlus_digits (ds : Digits) : dropPlus ds.chars = ds.chars := by
  unfold dropPlus
  split
  · rename_i h
    exact absurd (ds.isDigit '+' (h ▸ List.mem_cons_self)) (by decide)
  · rfl

theorem eq_or_eq_cons_dropPlus (cs : List Char) : cs = dropPlus cs ∨ cs = '+' :: dropPlus cs := by
  unfold dropPlus
  split
  · exact .inr rfl
  · exact .inl rfl

theorem read_of_length_gt {ds : List Char} (h : digitLimit < ds.length) :
    read ds = .error (.tooLong ds.length) := by
  have hne : ds ≠ [] := by
    rintro rfl
    exact Nat.not_lt_zero _ h
  rw [read, if_neg hne, if_pos h]

theorem read_digits (ds : Digits) : read ds.chars = .ok ds.value :=
  read_eq_ok_iff.2 ⟨ds.ne_nil, ds.length_le, rfl⟩

/-- The texts that are read are those that write a number. -/
theorem parse_eq_ok_iff {text : List Char} {n : Nat} : parse text = .ok n ↔ Written text n := by
  constructor
  · intro h
    simp only [parse] at h
    split at h
    · cases h
    · split at h
      · cases h
      · rename_i hdigits
        rw [not_or, not_not, List.all_eq_true] at hdigits
        obtain ⟨hne, hlen, hn⟩ := read_eq_ok_iff.1 h
        exact ⟨⟨_, hdigits.2, hne, hlen⟩, eq_or_eq_cons_dropPlus _, hn⟩
  · rintro ⟨ds, htrim, rfl⟩
    have hplus : dropPlus (trim text) = ds.chars := by
      rcases htrim with h | h
      · rw [h, dropPlus_digits]
      · rw [h, dropPlus]
    have hne : trim text ≠ [] := by
      rcases htrim with h | h
      · exact h ▸ ds.ne_nil
      · exact h ▸ List.cons_ne_nil _ _
    have hall : ds.chars.all Char.isDigit = true := List.all_eq_true.2 ds.isDigit
    rw [parse, hplus, if_neg hne, if_neg (by simp [ds.ne_nil, hall]), read_digits]

/-- All other texts are refused. -/
theorem exists_parse_eq_error_iff {text : List Char} :
    (∃ e, parse text = .error e) ↔ ¬ ∃ n, Written text n := by
  simp only [← parse_eq_ok_iff]
  cases parse text <;> simp

theorem ofDigitChars_lt {ds : List Char} (h : ∀ c ∈ ds, c.isDigit = true) (n : Nat) :
    Nat.ofDigitChars 10 ds n < 10 ^ ds.length * (n + 1) := by
  induction ds generalizing n with
  | nil => simp
  | cons c ds ih =>
    have hc := h c List.mem_cons_self
    simp only [Char.isDigit, Bool.and_eq_true, decide_eq_true_eq, UInt32.le_iff_toNat_le] at hc
    have hc : c.toNat - '0'.toNat < 10 := by
      have h₂ : c.toNat ≤ 57 := hc.2
      have h₀ : '0'.toNat = 48 := rfl
      omega
    rw [Nat.ofDigitChars_cons, List.length_cons, pow_succ, mul_assoc]
    refine (ih (fun d hd => h d (List.mem_cons_of_mem c hd)) _).trans_le ?_
    exact Nat.mul_le_mul_left _ (by omega)

theorem value_digits_lt (ds : Digits) : ds.value < 10 ^ digitLimit := by
  have hlt := ofDigitChars_lt ds.isDigit 0
  rw [Nat.zero_add, mul_one] at hlt
  exact hlt.trans_le (Nat.pow_le_pow_right (by decide) ds.length_le)

/-- Digits are read as the number they write. -/
theorem parse_of_isDigit {ds : List Char} (h : ∀ c ∈ ds, c.isDigit = true) (hne : ds ≠ [])
    (hlen : ds.length ≤ digitLimit) : parse ds = .ok (Nat.ofDigitChars 10 ds 0) := by
  have htrim : trim ds = ds := trim_of_not_isBlank fun c hc => not_isBlank_of_isDigit (h c hc)
  exact parse_eq_ok_iff.2 ⟨⟨ds, h, hne, hlen⟩, .inl htrim, rfl⟩

theorem isDigit_of_mem_repr {n : Nat} {c : Char} (h : c ∈ (Nat.repr n).toList) :
    c.isDigit = true := by
  rw [Nat.toList_repr] at h
  exact Nat.isDigit_of_mem_toDigits (by decide) (by decide) h

theorem not_mem_repr {c : Char} (h : c.isDigit = false) (n : Nat) : c ∉ (Nat.repr n).toList :=
  fun hc => Bool.false_ne_true (h.symm.trans (isDigit_of_mem_repr hc))

theorem repr_ne_nil (n : Nat) : (Nat.repr n).toList ≠ [] := by
  rw [Nat.toList_repr]
  exact Nat.toDigits_ne_nil

/-- A number that is not too long is read from its own numeral. -/
theorem parse_repr {n : Nat} (h : n < 10 ^ digitLimit) : parse (Nat.repr n).toList = .ok n := by
  have hlen : (Nat.repr n).toList.length ≤ digitLimit := by
    rw [Nat.toList_repr]
    exact (Nat.length_toDigits_le_iff (by decide) (by decide)).2 h
  rw [parse_of_isDigit (fun c => isDigit_of_mem_repr) (repr_ne_nil n) hlen, Nat.toList_repr,
    Nat.ofDigitChars_ten_toDigits]

theorem lt_of_lt_hundred {n : Nat} (h : n < 10 ^ 2) : n < 10 ^ digitLimit :=
  h.trans_le (Nat.pow_le_pow_right (by decide) (by decide))

theorem lt_of_parse_eq_ok {text : List Char} {n : Nat} (h : parse text = .ok n) :
    n < 10 ^ digitLimit := by
  obtain ⟨ds, -, rfl⟩ := parse_eq_ok_iff.1 h
  exact value_digits_lt ds

end Numeral

end Tablature
