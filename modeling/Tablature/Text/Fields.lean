/-!
# Parts of a text

A text is cut into fields at a separator, and the blanks at the ends of a field are trimmed. Blanks
are the white space of Unicode and the four separators of ASCII (U+001C to U+001F).

* `fields_ne_nil`: every text has a field, the text itself if it holds no separator;
* `intercalate_fields`: the fields of a text, with the separator between them, are the text.
-/

namespace Tablature.Text

/-- The first and the last code point of each run of blanks. -/
def blankRanges : List (Nat × Nat) :=
  [(0x09, 0x0D), (0x1C, 0x20), (0x85, 0x85), (0xA0, 0xA0), (0x1680, 0x1680), (0x2000, 0x200A),
   (0x2028, 0x2029), (0x202F, 0x202F), (0x205F, 0x205F), (0x3000, 0x3000)]

def isBlank (c : Char) : Bool :=
  blankRanges.any fun (lo, hi) => lo ≤ c.toNat && c.toNat ≤ hi

/-- A text without the blanks at its two ends. -/
def trim (cs : List Char) : List Char :=
  ((cs.dropWhile isBlank).reverse.dropWhile isBlank).reverse

/-- The parts of a text between the occurrences of `separator`. -/
def fields (separator : Char) : List Char → List (List Char)
  | [] => [[]]
  | c :: cs =>
    if c = separator then [] :: fields separator cs
    else match fields separator cs with
      | [] => [[c]]
      | f :: fs => (c :: f) :: fs

/-- The parts of a text before and after the first `separator`, if it holds one. -/
def cutAt (separator : Char) (cs : List Char) : Option (List Char × List Char) :=
  match cs.dropWhile (· != separator) with
  | [] => none
  | _ :: after => some (cs.takeWhile (· != separator), after)

/-- A text filled with spaces at its end, to `width` characters if it has fewer. -/
def padded (width : Nat) (text : String) : String :=
  text ++ String.ofList (List.replicate (width - text.length) ' ')

theorem fields_ne_nil (separator : Char) (cs : List Char) : fields separator cs ≠ [] := by
  cases cs with
  | nil => simp [fields]
  | cons c cs =>
    simp only [fields]
    split
    · simp
    · split <;> simp

theorem intercalate_fields (separator : Char) (cs : List Char) :
    [separator].intercalate (fields separator cs) = cs := by
  induction cs with
  | nil => rfl
  | cons c cs ih =>
    simp only [fields]
    obtain ⟨f, fs, h⟩ := List.exists_cons_of_ne_nil (fields_ne_nil separator cs)
    rw [h] at ih ⊢
    by_cases hc : c = separator
    · simp only [hc, ↓reduceIte, List.intercalate, List.intersperse] at ih ⊢
      simpa using ih
    · simp only [hc, ↓reduceIte]
      cases fs with
      | nil => simpa [List.intercalate] using ih
      | cons g gs => simpa [List.intercalate] using ih

end Tablature.Text
