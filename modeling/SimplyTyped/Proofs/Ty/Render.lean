import SimplyTyped.Text.ReadBack
import SimplyTyped.Ty.Basic

/-!
# Reading types back

The text of a type determines it, and so does a longer text that begins with it, unless what
follows is one more arrow.
-/

set_option autoImplicit false

namespace SimplyTyped.Ty

/-- The text of a type, character by character. -/
def text (ty : Ty) : List Char :=
  ty.render.toList

/-- The text of a type where it stands in front of an arrow. -/
def domainText (ty : Ty) : List Char :=
  if ty.isFunction then '(' :: (ty.text ++ [')']) else ty.text

theorem text_arrow (domain codomain : Ty) :
    (arrow domain codomain).text = domain.domainText ++ '→' :: codomain.text := by
  rw [text, render]
  unfold domainText text
  split <;> simp

/-- The rest does not go on with an arrow, which would make the type before it a domain. -/
def NoArrow (rest : List Char) : Prop :=
  rest.head? ≠ some '→'

section simple

variable {left right : Ty} {rest rest' : List Char}

/-- Types that are no functions have texts of one character, and no two of them the same. -/
theorem eq_of_simple_text (leftSimple : left.isFunction = false)
    (rightSimple : right.isFunction = false) (same : left.text ++ rest = right.text ++ rest') :
    left = right ∧ rest = rest' := by
  cases left <;> cases right <;> simp_all [text, render, isFunction]

theorem simple_text_ne_paren (simple : left.isFunction = false) :
    left.text ++ rest ≠ '(' :: rest' := by
  cases left <;> simp_all [text, render, isFunction]

theorem simple_text_ne_arrow {domain codomain : Ty} (simple : left.isFunction = false)
    (ends : NoArrow rest) : left.text ++ rest ≠ (arrow domain codomain).text ++ rest' := by
  intro same
  rw [text_arrow, List.append_assoc, domainText] at same
  split at same
  · exact simple_text_ne_paren simple same
  · next domainSimple =>
      obtain ⟨-, rfl⟩ := eq_of_simple_text simple (Bool.not_eq_true _ ▸ domainSimple) same
      exact ends rfl

end simple

/-- A domain is read back up to its arrow: parentheses enclose it when it has arrows itself. -/
theorem eq_of_domainText {left right : Ty} {rest rest' : List Char}
    (readsBack : Text.ReadsBack NoArrow (fun _ => True) text left)
    (same : left.domainText ++ '→' :: rest = right.domainText ++ '→' :: rest') :
    left = right ∧ rest = rest' := by
  cases leftFunction : left.isFunction <;> cases rightFunction : right.isFunction <;>
    simp only [domainText, leftFunction, rightFunction, if_true, Bool.false_eq_true, if_false,
      List.cons_append, List.append_assoc, List.nil_append] at same
  case false.false =>
    obtain ⟨rfl, rests⟩ := eq_of_simple_text leftFunction rightFunction same
    exact ⟨rfl, (List.cons.inj rests).2⟩
  case false.true => exact absurd same (simple_text_ne_paren leftFunction)
  case true.false => exact absurd same.symm (simple_text_ne_paren rightFunction)
  case true.true =>
    obtain ⟨rfl, rests⟩ :=
      readsBack right _ _ trivial (by simp [NoArrow]) (by simp [NoArrow]) (List.cons.inj same).2
    exact ⟨rfl, (List.cons.inj (List.cons.inj rests).2).2⟩

theorem readsBack (ty : Ty) : Text.ReadsBack NoArrow (fun _ => True) text ty := by
  induction ty with
  | unknown | int | bool =>
      intro other rest rest' _ ends ends' same
      cases other with
      | unknown | int | bool => exact eq_of_simple_text rfl rfl same
      | arrow domain' codomain' => exact absurd same (simple_text_ne_arrow rfl ends)
  | arrow domain codomain domainIH codomainIH =>
      intro other rest rest' _ ends ends' same
      cases other with
      | unknown | int | bool => exact absurd same.symm (simple_text_ne_arrow rfl ends')
      | arrow domain' codomain' =>
          simp only [text_arrow, List.append_assoc, List.cons_append] at same
          obtain ⟨rfl, codomains⟩ := eq_of_domainText domainIH same
          obtain ⟨rfl, rests⟩ := codomainIH codomain' rest rest' trivial ends ends' codomains
          exact ⟨rfl, rests⟩

theorem eq_of_render_append {left right : Ty} {rest rest' : String}
    (ends : rest.startsWith '→' = false) (ends' : rest'.startsWith '→' = false)
    (same : left.render ++ rest = right.render ++ rest') : left = right ∧ rest = rest' := by
  rw [String.startsWith_char_eq_head?, beq_eq_false_iff_ne] at ends ends'
  rw [← String.toList_inj, String.toList_append, String.toList_append] at same
  obtain ⟨rfl, rests⟩ := readsBack left right _ _ trivial ends ends' same
  exact ⟨rfl, String.toList_inj.mp rests⟩

/-- Different types have different texts. Where a type stands at the front of a longer text
that does not go on with an arrow, the type and the rest are all that the text can be made of. -/
theorem render_determines (left right : Ty) :
    (left.render = right.render ↔ left = right) ∧
      ∀ rest rest' : String, rest.startsWith '→' = false → rest'.startsWith '→' = false →
        (left.render ++ rest = right.render ++ rest' ↔ left = right ∧ rest = rest') := by
  constructor
  · refine ⟨fun same => ?_, congrArg render⟩
    have noArrow : "".startsWith '→' = false := by decide
    exact (eq_of_render_append noArrow noArrow (by rw [same])).1
  · intro rest rest' ends ends'
    refine ⟨eq_of_render_append ends ends', ?_⟩
    rintro ⟨rfl, rfl⟩
    rfl

/-- Two nestings of the same arrows print differently, also where more text follows. -/
theorem render_determines_nested :
    let left : Ty := .arrow (.arrow .int .bool) .int
    let right : Ty := .arrow .int (.arrow .bool .int)
    left.render ≠ right.render ∧ ")→i".startsWith '→' = false ∧
      left.render ++ ")→i" ≠ right.render ++ ")→i" := by
  intro left right
  have closed : ")→i".startsWith '→' = false := by decide
  obtain ⟨alone, inside⟩ := render_determines left right
  exact ⟨mt alone.mp (by decide), closed, mt (inside _ _ closed closed).mp (by decide)⟩

end SimplyTyped.Ty
