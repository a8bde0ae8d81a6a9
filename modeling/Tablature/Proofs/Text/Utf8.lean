import Mathlib.Algebra.Group.Nat.Defs
import Mathlib.Data.List.Basic
import Tablature.Text.Utf8

/-!
# What is read as UTF-8

* `run_append_of_completes`, `exists_completes_of_run`: the bytes that finish a character;
* `exists_begun`, `utf8EncodeChar_continued`: the characters that are written with several bytes;
* `run_utf8EncodeChar_append`: the bytes of a character are read as the character;
* `decode_eq_ok_iff`: the bytes that are read, and the text that they are read as.
-/

namespace Tablature.Utf8

open String (utf8EncodeChar)

theorem toNat_charOfNat {n : Nat} (h : n.isValidChar) : (Char.ofNat n).toNat = n := by
  rw [Char.ofNat, dif_pos h]
  rfl

theorem ofNat_eq_of_toNat {n : Nat} (byte : UInt8) (h : n = byte.toNat) : UInt8.ofNat n = byte := by
  rw [h, UInt8.ofNat_toNat]

/-- The code point that is known after `bits` and continuation bytes. -/
def continued (bits : Nat) (tail : List UInt8) : Nat :=
  tail.foldl (fun bits byte => bits * 64 + (byte.toNat - 0x80)) bits

/-- A character that has been begun, with one more of its bytes. -/
def Begun.further (c : Begun) (byte : UInt8) : Begun :=
  { c with
    size := c.size + 1
    missing := c.missing - 1
    bits := c.bits * 64 + (byte.toNat - 0x80)
    low := 0x80
    high := 0xBF }

/-- The continuation bytes that finish a character. -/
structure Begun.Completes (c : Begun) (tail : List UInt8) : Prop where
  length_eq : tail.length = c.missing
  first : ∀ byte ∈ tail.head?, c.low ≤ byte.toNat ∧ byte.toNat ≤ c.high
  later : ∀ byte ∈ tail.tail, 0x80 ≤ byte.toNat ∧ byte.toNat ≤ 0xBF

/-- A character that lacks more bytes than one goes on as if it had begun with fewer. -/
theorem Begun.completes_cons_iff {c : Begun} (hc : 1 < c.missing) {byte : UInt8}
    {tail : List UInt8} :
    c.Completes (byte :: tail) ↔
      (c.low ≤ byte.toNat ∧ byte.toNat ≤ c.high) ∧ (c.further byte).Completes tail := by
  constructor
  · rintro ⟨hlength, hfirst, hlater⟩
    rw [List.length_cons] at hlength
    refine ⟨hfirst byte rfl, by simp only [further]; omega, fun b hb => ?_, fun b hb => ?_⟩
    · exact hlater b (List.mem_of_mem_head? hb)
    · exact hlater b (List.mem_of_mem_tail hb)
  · rintro ⟨hbyte, hlength, hfirst, hlater⟩
    refine ⟨?_, ?_, ?_⟩
    · simp only [further] at hlength
      rw [List.length_cons]
      omega
    · rintro _ ⟨⟩
      exact hbyte
    · cases tail with
      | nil => exact List.forall_mem_nil _
      | cons b tail => exact List.forall_mem_cons.2 ⟨hfirst b rfl, hlater⟩

/-! ## Lead bytes -/

/-- The bytes that may follow a lead byte, of which two have bounds of their own. -/
theorem bounds_iff {lead least greatest low high n : Nat} :
    ((if lead = least then low else 0x80) ≤ n ∧ n ≤ (if lead = greatest then high else 0xBF)) ↔
      ((lead = least → low ≤ n) ∧ (lead ≠ least → 0x80 ≤ n)) ∧
        (lead = greatest → n ≤ high) ∧ (lead ≠ greatest → n ≤ 0xBF) := by
  split <;> split <;> omega

theorem Begun.ofLead?_eq_some_iff {position : Nat} {lead : UInt8} {c : Begun} :
    Begun.ofLead? position lead = some c ↔
      (0xC2 ≤ lead.toNat ∧ lead.toNat < 0xE0 ∧
        c = ⟨lead, position, 1, 1, lead.toNat - 0xC0, 0x80, 0xBF⟩) ∨
      (0xE0 ≤ lead.toNat ∧ lead.toNat < 0xF0 ∧
        c = ⟨lead, position, 1, 2, lead.toNat - 0xE0, if lead.toNat = 0xE0 then 0xA0 else 0x80,
          if lead.toNat = 0xED then 0x9F else 0xBF⟩) ∨
      (0xF0 ≤ lead.toNat ∧ lead.toNat < 0xF5 ∧
        c = ⟨lead, position, 1, 3, lead.toNat - 0xF0, if lead.toNat = 0xF0 then 0x90 else 0x80,
          if lead.toNat = 0xF4 then 0x8F else 0xBF⟩) := by
  constructor
  · intro h
    unfold ofLead? at h
    dsimp only at h
    split at h
    · cases h
    split at h
    · exact .inl ⟨by omega, by omega, (Option.some.inj h).symm⟩
    split at h
    · exact .inr (.inl ⟨by omega, by omega, (Option.some.inj h).symm⟩)
    split at h
    · exact .inr (.inr ⟨by omega, by omega, (Option.some.inj h).symm⟩)
    · cases h
  · rintro (⟨hlow, hhigh, rfl⟩ | ⟨hlow, hhigh, rfl⟩ | ⟨hlow, hhigh, rfl⟩)
    · rw [ofLead?, if_neg (by omega), if_pos hhigh]
    · rw [ofLead?, if_neg (by omega), if_neg (by omega), if_pos hhigh]
    · rw [ofLead?, if_neg (by omega), if_neg (by omega), if_neg (by omega), if_pos hhigh]

/-- A lead byte begins a character that lacks a byte at least. -/
theorem Begun.pos_of_ofLead? {position : Nat} {lead : UInt8} {c : Begun}
    (h : Begun.ofLead? position lead = some c) : 0x80 ≤ lead.toNat ∧ 0 < c.missing := by
  rcases Begun.ofLead?_eq_some_iff.1 h with ⟨hlow, -, rfl⟩ | ⟨hlow, -, rfl⟩ | ⟨hlow, -, rfl⟩
  · exact ⟨by omega, Nat.one_pos⟩
  · exact ⟨by omega, Nat.two_pos⟩
  · exact ⟨by omega, Nat.succ_pos 2⟩

theorem utf8EncodeChar_ofNat_two {v : Nat} (b₀ b₁ : UInt8) (h : 0x80 ≤ v ∧ v < 0x800)
    (h₀ : v / 64 + 192 = b₀.toNat) (h₁ : v % 64 + 128 = b₁.toNat) :
    utf8EncodeChar (Char.ofNat v) = [b₀, b₁] := by
  unfold utf8EncodeChar
  rw [show (Char.ofNat v).val.toNat = v from toNat_charOfNat (.inl (by omega))]
  dsimp only
  rw [if_neg (by omega), if_pos (by omega), ofNat_eq_of_toNat b₀ (by omega),
    ofNat_eq_of_toNat _ h₁]

theorem utf8EncodeChar_ofNat_three {v : Nat} (b₀ b₁ b₂ : UInt8)
    (h : 0x800 ≤ v ∧ v < 0xD800 ∨ 0xDFFF < v ∧ v < 0x10000) (h₀ : v / 4096 + 224 = b₀.toNat)
    (h₁ : v / 64 % 64 + 128 = b₁.toNat) (h₂ : v % 64 + 128 = b₂.toNat) :
    utf8EncodeChar (Char.ofNat v) = [b₀, b₁, b₂] := by
  unfold utf8EncodeChar
  rw [show (Char.ofNat v).val.toNat = v from toNat_charOfNat (by unfold Nat.isValidChar; omega)]
  dsimp only
  rw [if_neg (by omega), if_neg (by omega), if_pos (by omega),
    ofNat_eq_of_toNat b₀ (by omega), ofNat_eq_of_toNat _ h₁, ofNat_eq_of_toNat _ h₂]

theorem utf8EncodeChar_ofNat_four {v : Nat} (b₀ b₁ b₂ b₃ : UInt8)
    (h : 0x10000 ≤ v ∧ v < 0x110000) (h₀ : v / 262144 + 240 = b₀.toNat)
    (h₁ : v / 4096 % 64 + 128 = b₁.toNat) (h₂ : v / 64 % 64 + 128 = b₂.toNat)
    (h₃ : v % 64 + 128 = b₃.toNat) : utf8EncodeChar (Char.ofNat v) = [b₀, b₁, b₂, b₃] := by
  unfold utf8EncodeChar
  rw [show (Char.ofNat v).val.toNat = v from toNat_charOfNat (.inr (by omega))]
  dsimp only
  rw [if_neg (by omega), if_neg (by omega), if_neg (by omega),
    ofNat_eq_of_toNat b₀ (by omega), ofNat_eq_of_toNat _ h₁, ofNat_eq_of_toNat _ h₂,
    ofNat_eq_of_toNat _ h₃]

/-- A lead byte and the bytes that finish its character are the bytes of the character. -/
theorem utf8EncodeChar_continued {position : Nat} {lead : UInt8} {c : Begun} {tail : List UInt8}
    (hlead : Begun.ofLead? position lead = some c) (h : c.Completes tail) :
    utf8EncodeChar (Char.ofNat (continued c.bits tail)) = lead :: tail := by
  obtain ⟨hlength, hfirst, hlater⟩ := h
  rcases Begun.ofLead?_eq_some_iff.1 hlead with ⟨hlow, hhigh, rfl⟩ | ⟨hlow, hhigh, rfl⟩ |
    ⟨hlow, hhigh, rfl⟩
  · obtain ⟨b₁, rfl⟩ := List.length_eq_one_iff.1 hlength
    have h₁ : 0x80 ≤ b₁.toNat ∧ b₁.toNat ≤ 0xBF := hfirst b₁ rfl
    simp only [continued, List.foldl_cons, List.foldl_nil]
    exact utf8EncodeChar_ofNat_two lead b₁ (by omega) (by omega) (by omega)
  · obtain ⟨b₁, b₂, rfl⟩ := List.length_eq_two.1 hlength
    have h₁ := bounds_iff.1 (hfirst b₁ rfl)
    have h₂ := hlater b₂ List.mem_cons_self
    simp only [continued, List.foldl_cons, List.foldl_nil]
    exact utf8EncodeChar_ofNat_three lead b₁ b₂ (by omega) (by omega) (by omega) (by omega)
  · obtain ⟨b₁, b₂, b₃, rfl⟩ := List.length_eq_three.1 hlength
    have h₁ := bounds_iff.1 (hfirst b₁ rfl)
    have h₂ := hlater b₂ List.mem_cons_self
    have h₃ := hlater b₃ (List.mem_cons_of_mem b₂ List.mem_cons_self)
    simp only [continued, List.foldl_cons, List.foldl_nil]
    exact utf8EncodeChar_ofNat_four lead b₁ b₂ b₃ (by omega) (by omega) (by omega) (by omega)
      (by omega)

/-- The continuation bytes that end the code point `v`. -/
def furtherBytes (v : Nat) : Nat → List UInt8
  | 0 => []
  | n + 1 => UInt8.ofNat (v / 64 ^ n % 64 + 0x80) :: furtherBytes v n

theorem toNat_further (n : Nat) : (UInt8.ofNat (n % 64 + 0x80)).toNat = n % 64 + 0x80 :=
  UInt8.toNat_ofNat_of_lt (by simp only [UInt8.size]; omega)

theorem continued_furtherBytes (v n : Nat) : continued (v / 64 ^ n) (furtherBytes v n) = v := by
  induction n with
  | zero => simp [furtherBytes, continued]
  | succ n ih =>
    have hstep : v / 64 ^ (n + 1) * 64 + v / 64 ^ n % 64 = v / 64 ^ n := by
      rw [Nat.pow_succ, ← Nat.div_div_eq_div_mul]
      omega
    rw [furtherBytes, continued, List.foldl_cons, toNat_further, Nat.add_sub_cancel, hstep]
    exact ih

theorem length_furtherBytes (v n : Nat) : (furtherBytes v n).length = n := by
  induction n with
  | zero => rfl
  | succ n ih => rw [furtherBytes, List.length_cons, ih]

theorem mem_furtherBytes {v n : Nat} {byte : UInt8} (h : byte ∈ furtherBytes v n) :
    0x80 ≤ byte.toNat ∧ byte.toNat ≤ 0xBF := by
  induction n with
  | zero => cases h
  | succ n ih =>
    rcases List.mem_cons.1 h with rfl | h
    · rw [toNat_further]
      omega
    · exact ih h

theorem Begun.completes_furtherBytes {c : Begun} {v n : Nat} (hn : c.missing = n + 1)
    (h : c.low ≤ v / 64 ^ n % 64 + 0x80 ∧ v / 64 ^ n % 64 + 0x80 ≤ c.high) :
    c.Completes (furtherBytes v (n + 1)) := by
  refine ⟨(length_furtherBytes v (n + 1)).trans hn.symm, ?_, fun byte hbyte => ?_⟩
  · rintro _ ⟨⟩
    rwa [toNat_further]
  · exact mem_furtherBytes (n := n) hbyte

/-- A code point from 0x80 on is written with a lead byte, and bytes that finish its character. -/
theorem exists_begun {v : Nat} (hv : v.isValidChar) (h : 0x80 ≤ v) (position : Nat) :
    ∃ lead c tail, Begun.ofLead? position lead = some c ∧ c.Completes tail ∧
      continued c.bits tail = v := by
  have hlead {n mark : Nat} (hn : v / 64 ^ n + mark < 0x100) :
      (UInt8.ofNat (v / 64 ^ n + mark)).toNat = v / 64 ^ n + mark := UInt8.toNat_ofNat_of_lt hn
  have hbits {n mark : Nat} (hn : v / 64 ^ n + mark < 0x100) :
      continued ((UInt8.ofNat (v / 64 ^ n + mark)).toNat - mark) (furtherBytes v n) = v := by
    rw [hlead hn, Nat.add_sub_cancel, continued_furtherBytes]
  have hsplit : v < 0x800 ∨ (0x800 ≤ v ∧ v < 0x10000) ∨ (0x10000 ≤ v ∧ v < 0x110000) := by
    unfold Nat.isValidChar at hv
    omega
  rcases hsplit with h₂ | h₃ | h₄
  · have hn : v / 64 ^ 1 + 0xC0 < 0x100 := by omega
    refine ⟨UInt8.ofNat (v / 64 ^ 1 + 0xC0), _, furtherBytes v 1,
      Begun.ofLead?_eq_some_iff.2 (.inl ⟨?_, ?_, rfl⟩), Begun.completes_furtherBytes rfl ?_,
      hbits hn⟩
    · rw [hlead hn]; omega
    · rw [hlead hn]; omega
    · dsimp only; omega
  · have hn : v / 64 ^ 2 + 0xE0 < 0x100 := by omega
    refine ⟨UInt8.ofNat (v / 64 ^ 2 + 0xE0), _, furtherBytes v 2,
      Begun.ofLead?_eq_some_iff.2 (.inr (.inl ⟨?_, ?_, rfl⟩)), Begun.completes_furtherBytes rfl ?_,
      hbits hn⟩
    · rw [hlead hn]; omega
    · rw [hlead hn]; omega
    · rw [bounds_iff, hlead hn]
      unfold Nat.isValidChar at hv
      omega
  · have hn : v / 64 ^ 3 + 0xF0 < 0x100 := by omega
    refine ⟨UInt8.ofNat (v / 64 ^ 3 + 0xF0), _, furtherBytes v 3,
      Begun.ofLead?_eq_some_iff.2 (.inr (.inr ⟨?_, ?_, rfl⟩)), Begun.completes_furtherBytes rfl ?_,
      hbits hn⟩
    · rw [hlead hn]; omega
    · rw [hlead hn]; omega
    · rw [bounds_iff, hlead hn]; omega

namespace Decoder

variable {text : String} {position : Nat} {bytes : List UInt8}

/-! ## Single bytes -/

theorem run_ascii_cons {byte : UInt8} (h : byte.toNat < 0x80) :
    (⟨text, none, position⟩ : Decoder).run (byte :: bytes) =
      (⟨text.push (Char.ofNat byte.toNat), none, position + 1⟩ : Decoder).run bytes := by
  simp only [run, take, lead, if_pos h]

theorem run_lead_cons {byte : UInt8} {c : Begun} (hc : Begun.ofLead? position byte = some c) :
    (⟨text, none, position⟩ : Decoder).run (byte :: bytes) =
      (⟨text, some c, position + 1⟩ : Decoder).run bytes := by
  simp only [run, take, lead, if_neg (Nat.not_lt.2 (Begun.pos_of_ofLead? hc).1), hc]

theorem run_further_cons {byte : UInt8} {c : Begun} (h : c.low ≤ byte.toNat ∧ byte.toNat ≤ c.high)
    (hc : 1 < c.missing) :
    (⟨text, some c, position⟩ : Decoder).run (byte :: bytes) =
      (⟨text, some (c.further byte), position + 1⟩ : Decoder).run bytes := by
  simp only [run, take, continuation]
  rw [if_neg (by omega), if_neg (by omega)]
  rfl

theorem run_last_cons {byte : UInt8} {c : Begun} (h : c.low ≤ byte.toNat ∧ byte.toNat ≤ c.high)
    (hc : c.missing ≤ 1) :
    (⟨text, some c, position⟩ : Decoder).run (byte :: bytes) =
      (⟨text.push (Char.ofNat (c.bits * 64 + (byte.toNat - 0x80))), none, position + 1⟩ :
        Decoder).run bytes := by
  simp only [run, take, continuation]
  rw [if_neg (by omega), if_pos hc]

/-! ## Characters of several bytes -/

theorem run_append_of_completes {c : Begun} {tail : List UInt8} (hc : 0 < c.missing)
    (h : c.Completes tail) :
    (⟨text, some c, position⟩ : Decoder).run (tail ++ bytes) =
      (⟨text.push (Char.ofNat (continued c.bits tail)), none, position + tail.length⟩ :
        Decoder).run bytes := by
  induction tail generalizing c position with
  | nil => exact absurd h.length_eq (by simp only [List.length_nil]; omega)
  | cons byte tail ih =>
    have hbyte := h.first byte rfl
    rw [List.cons_append]
    by_cases hlast : c.missing ≤ 1
    · obtain rfl : tail = [] := List.eq_nil_of_length_eq_zero (by
        have := h.length_eq
        rw [List.length_cons] at this
        omega)
      exact run_last_cons hbyte hlast
    · have hmissing : 1 < c.missing := Nat.not_le.1 hlast
      have hmore : 0 < (c.further byte).missing := Nat.sub_pos_of_lt hmissing
      have hbits : continued (c.further byte).bits tail = continued c.bits (byte :: tail) := by
        simp only [continued, Begun.further, List.foldl_cons]
      rw [run_further_cons hbyte hmissing, ih hmore ((Begun.completes_cons_iff hmissing).1 h).2,
        hbits, List.length_cons, Nat.add_assoc, Nat.add_comm 1]

/-- Bytes that are read finish the character that has been begun. -/
theorem exists_completes_of_run {c : Begun} {s : String} (hc : 0 < c.missing)
    (h : (⟨text, some c, position⟩ : Decoder).run bytes = .ok s) :
    ∃ tail rest, bytes = tail ++ rest ∧ c.Completes tail := by
  induction bytes generalizing c position with
  | nil => cases h
  | cons byte bytes ih =>
    have hbyte : c.low ≤ byte.toNat ∧ byte.toNat ≤ c.high := by
      refine Decidable.byContradiction fun hout => ?_
      simp only [run, take, continuation] at h
      rw [if_pos (by omega)] at h
      cases h
    by_cases hlast : c.missing ≤ 1
    · refine ⟨[byte], bytes, rfl, ?_, ?_, List.forall_mem_nil _⟩
      · exact Nat.le_antisymm hc hlast
      · rintro _ ⟨⟩
        exact hbyte
    · have hmissing : 1 < c.missing := Nat.not_le.1 hlast
      rw [run_further_cons hbyte hmissing] at h
      obtain ⟨tail, rest, rfl, htail⟩ := ih (Nat.sub_pos_of_lt hmissing) h
      exact ⟨byte :: tail, rest, rfl, (Begun.completes_cons_iff hmissing).2 ⟨hbyte, htail⟩⟩

/-! ## Characters -/

theorem utf8EncodeChar_of_lt {c : Char} (h : c.toNat < 0x80) :
    utf8EncodeChar c = [UInt8.ofNat c.toNat] := by
  unfold utf8EncodeChar
  exact if_pos (Nat.le_of_lt_succ h)

/-- The bytes of a character are read as the character. -/
theorem run_utf8EncodeChar_append (c : Char) :
    (⟨text, none, position⟩ : Decoder).run (utf8EncodeChar c ++ bytes) =
      (⟨text.push c, none, position + (utf8EncodeChar c).length⟩ : Decoder).run bytes := by
  by_cases h : c.toNat < 0x80
  · have e : (UInt8.ofNat c.toNat).toNat = c.toNat :=
      UInt8.toNat_ofNat_of_lt (by simp only [UInt8.size]; omega)
    rw [utf8EncodeChar_of_lt h, List.singleton_append, run_ascii_cons (by omega), e,
      Char.ofNat_toNat, List.length_singleton]
  · obtain ⟨lead, b, tail, hlead, htail, hv⟩ := exists_begun c.valid (Nat.not_lt.1 h) position
    have hbytes : utf8EncodeChar c = lead :: tail := by
      rw [← utf8EncodeChar_continued hlead htail, hv]
      exact congrArg utf8EncodeChar (Char.ofNat_toNat c).symm
    rw [hbytes, List.cons_append, run_lead_cons hlead,
      run_append_of_completes (Begun.pos_of_ofLead? hlead).2 htail, hv, List.length_cons,
      Nat.add_assoc, Nat.add_comm 1]
    exact congrArg (fun d => (⟨text.push d, none, _⟩ : Decoder).run bytes) (Char.ofNat_toNat c)

/-- Bytes that are read begin with the bytes of a character. -/
theorem exists_utf8EncodeChar_of_run {byte : UInt8} {s : String}
    (h : (⟨text, none, position⟩ : Decoder).run (byte :: bytes) = .ok s) :
    ∃ c rest, byte :: bytes = utf8EncodeChar c ++ rest := by
  by_cases hascii : byte.toNat < 0x80
  · have e : (Char.ofNat byte.toNat).toNat = byte.toNat := toNat_charOfNat (.inl (by omega))
    refine ⟨Char.ofNat byte.toNat, bytes, ?_⟩
    rw [utf8EncodeChar_of_lt (by omega), e, UInt8.ofNat_toNat, List.singleton_append]
  cases hlead : Begun.ofLead? position byte with
  | none =>
    simp only [run, take, lead, if_neg hascii, hlead] at h
    cases h
  | some c =>
    rw [run_lead_cons hlead] at h
    obtain ⟨tail, rest, rfl, htail⟩ := exists_completes_of_run (Begun.pos_of_ofLead? hlead).2 h
    exact ⟨_, rest, by rw [utf8EncodeChar_continued hlead htail, List.cons_append]⟩

theorem push_append_ofList {c : Char} {cs : List Char} :
    text.push c ++ String.ofList cs = text ++ String.ofList (c :: cs) :=
  String.toList_inj.1 (by simp)

/-- The texts that bytes are read as, behind what has been read before. -/
theorem run_eq_ok_iff {s : String} :
    (⟨text, none, position⟩ : Decoder).run bytes = .ok s ↔
      ∃ cs : List Char, bytes = cs.flatMap utf8EncodeChar ∧ s = text ++ String.ofList cs := by
  constructor
  · intro h
    induction hn : bytes.length using Nat.strongRecOn generalizing bytes text position with
    | ind n ih =>
      cases bytes with
      | nil => exact ⟨[], rfl, by cases h; simp⟩
      | cons byte bytes =>
        obtain ⟨c, rest, hcons⟩ := exists_utf8EncodeChar_of_run h
        have hlt : rest.length < n := by
          rw [← hn, hcons, List.length_append]
          have := String.length_utf8EncodeChar c
          have := c.utf8Size_pos
          omega
        rw [hcons, run_utf8EncodeChar_append] at h
        obtain ⟨cs, rfl, rfl⟩ := ih _ hlt h rfl
        exact ⟨c :: cs, hcons, push_append_ofList⟩
  · rintro ⟨cs, rfl, rfl⟩
    induction cs generalizing text position with
    | nil => simp [run, finish]
    | cons c cs ih =>
      rw [List.flatMap_cons, run_utf8EncodeChar_append, ih, push_append_ofList]

end Decoder

theorem data_toUTF8 (text : String) :
    text.toUTF8.data.toList = text.toList.flatMap utf8EncodeChar := by
  conv => lhs; rw [← String.ofList_toList (s := text)]
  rw [String.toUTF8_eq_toByteArray, String.toByteArray_ofList, List.utf8Encode,
    List.data_toByteArray]

/-- The bytes that are read are those that a text is encoded as, and they are read as this text. -/
theorem decode_eq_ok_iff {content : ByteArray} {text : String} :
    decode content.data.toList = .ok text ↔ content = text.toUTF8 := by
  rw [decode, Decoder.run_eq_ok_iff]
  constructor
  · rintro ⟨cs, hbytes, rfl⟩
    rw [String.empty_append]
    refine ByteArray.ext (Array.toList_inj.1 ?_)
    rw [data_toUTF8, String.toList_ofList, hbytes]
  · rintro rfl
    exact ⟨text.toList, data_toUTF8 text, by simp⟩

end Tablature.Utf8
