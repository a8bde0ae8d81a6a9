/-!
# Line endings

A line of a file ends with a line feed, with a carriage return, or with both in this order. Read
as text, each of them is one line feed.

* `unifyLines_nil`, `unifyLines_crlf`, `unifyLines_cons`: what stands for each.
-/

namespace Tablature.Text

/-- A text with line feeds for all line endings, behind what was unified before (the latest
first). -/
def unifyLinesOnto (unified : List Char) : List Char → List Char
  | [] => unified.reverse
  | '\r' :: '\n' :: cs => unifyLinesOnto ('\n' :: unified) cs
  | c :: cs => unifyLinesOnto ((if c = '\r' then '\n' else c) :: unified) cs

/-- A text with line feeds for all line endings. -/
def unifyLines (cs : List Char) : List Char := unifyLinesOnto [] cs

theorem unifyLinesOnto_eq (unified cs : List Char) :
    unifyLinesOnto unified cs = unified.reverse ++ unifyLines cs := by
  suffices h : ∀ before after, unifyLinesOnto (after ++ before) cs =
      before.reverse ++ unifyLinesOnto after cs by
    simpa [unifyLines] using h unified []
  fun_induction unifyLinesOnto unified cs with
  | case1 => simp [unifyLinesOnto]
  | case2 unified cs ih =>
    intro before after
    simpa [unifyLinesOnto] using ih before ('\n' :: after)
  | case3 unified c cs h ih =>
    intro before after
    rw [unifyLinesOnto.eq_3 _ _ _ h, unifyLinesOnto.eq_3 _ _ _ h]
    exact ih before (_ :: after)

theorem unifyLines_nil : unifyLines [] = [] := rfl

theorem unifyLines_crlf (cs : List Char) :
    unifyLines ('\r' :: '\n' :: cs) = '\n' :: unifyLines cs := by
  rw [unifyLines, unifyLinesOnto, unifyLinesOnto_eq]
  rfl

/-- Any other first character stands for itself, a carriage return for a line feed. -/
theorem unifyLines_cons {c : Char} {cs : List Char} (h : ∀ r, c = '\r' → cs = '\n' :: r → False) :
    unifyLines (c :: cs) = (if c = '\r' then '\n' else c) :: unifyLines cs := by
  rw [unifyLines, unifyLinesOnto.eq_3 _ _ _ h, unifyLinesOnto_eq]
  rfl

end Tablature.Text
