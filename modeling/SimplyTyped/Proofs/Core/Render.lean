import SimplyTyped.Proofs.Core.Flatten
import SimplyTyped.Proofs.Ty.Render

/-!
# Reading programs back

The text of a legible program determines it up to its annotations and up to the way in which
an application to several arguments was put together. The first character of an expression
tells what kind of expression it is, its parts are read back up to a blank or to what closes
the whole, and the whole is read back up to what closes it.
-/

set_option autoImplicit false

namespace SimplyTyped

open Text (ReadsBack Delimited Closed spaced)

/-! ## References -/

theorem Scope.sigil_inj {left right : Scope} : left.sigil = right.sigil ↔ left = right := by
  cases left <;> cases right <;> decide

theorem Ty.noArrow_of_delimited {rest : List Char} (ends : Delimited rest) : NoArrow rest := by
  intro arrow
  have admitted : '→' ∈ [' ', '.', ')', '\n'] := ends _ arrow
  exact absurd admitted (by decide)

namespace Ref

def text (ref : Ref) : List Char :=
  ref.scope.sigil :: (ref.name.text.toList ++ (Nat.toDigits 10 ref.index.toNat ++
    ':' :: ref.ty.text))

theorem toList_render (ref : Ref) : ref.render.toList = ref.text := by
  simp [render, text, Ty.text]

/-- The name ends where the index begins, and the index where the colon stands. -/
theorem readsBack {ref : Ref} (word : ref.name.IsWord) :
    ReadsBack Delimited (fun ref => ref.name.IsWord) text ref := by
  intro other rest rest' word' ends ends' same
  simp only [text, List.cons_append, List.append_assoc, List.cons.injEq] at same
  obtain ⟨sigils, same⟩ := same
  obtain ⟨names, same⟩ := Text.eq_of_word_append word word'
    (Text.isAlpha_head?_digits_append _ _) (Text.isAlpha_head?_digits_append _ _) same
  obtain ⟨indices, same⟩ := Text.eq_of_digits_append (by simp) (by simp) same
  obtain ⟨tys, rests⟩ := ref.ty.readsBack _ _ _ trivial (Ty.noArrow_of_delimited ends)
    (Ty.noArrow_of_delimited ends') (List.cons.inj same).2
  refine ⟨?_, rests⟩
  obtain ⟨⟨name⟩, index, ty, scope⟩ := ref
  obtain ⟨⟨name'⟩, index', ty', scope'⟩ := other
  rw [mk.injEq, Name.mk.injEq]
  exact ⟨String.toList_inj.mp names, UInt32.toNat_inj.mp indices, tys, Scope.sigil_inj.mp sigils⟩

end Ref

def paramsText : List Ref → List Char
  | [] => []
  | param :: params => param.text ++ spaced Ref.text params

theorem toList_renderParams (params : List Ref) :
    (renderParams params).toList = paramsText params := by
  induction params with
  | nil => rfl
  | cons param params ih =>
      cases params with
      | nil => simp [renderParams, paramsText, Ref.toList_render]
      | cons next params =>
          rw [renderParams, String.toList_append, String.toList_append, ih, Ref.toList_render]
          · simp [paramsText]
          · nofun

theorem paramsText_cons_ne {param : Ref} {params : List Ref} {rest rest' : List Char} :
    paramsText (param :: params) ++ rest ≠ '.' :: rest' := by
  intro same
  have sigil : param.scope.sigil = '.' := (List.cons.inj same).1
  cases scope : param.scope <;> rw [scope] at sigil <;> exact absurd sigil (by decide)

/-- Parameters are read back up to the dot. -/
theorem eq_of_paramsText {params params' : List Ref} {rest rest' : List Char}
    (words : ∀ param ∈ params, param.name.IsWord) (words' : ∀ param ∈ params', param.name.IsWord)
    (same : paramsText params ++ '.' :: rest = paramsText params' ++ '.' :: rest') :
    params = params' ∧ rest = rest' := by
  cases params with
  | nil =>
      cases params' with
      | nil => exact ⟨rfl, (List.cons.inj same).2⟩
      | cons => exact absurd same.symm paramsText_cons_ne
  | cons param params =>
      cases params' with
      | nil => exact absurd same paramsText_cons_ne
      | cons param' params' =>
          rw [paramsText, paramsText, List.append_assoc, List.append_assoc] at same
          rw [List.forall_mem_cons] at words words'
          have dot (rest : List Char) : Closed ('.' :: rest) := by simp
          obtain ⟨rfl, tails⟩ := Ref.readsBack words.1 param' _ _ words'.1
            (Text.delimited_spaced_append (dot rest)) (Text.delimited_spaced_append (dot rest'))
            same
          obtain ⟨rfl, rests⟩ := Text.readsBack_spaced
            (fun param member => Ref.readsBack (words.2 param member)) params' _ _ words'.2
            (dot rest) (dot rest') tails
          exact ⟨rfl, (List.cons.inj rests).2⟩

/-! ## Expressions -/

namespace Expr

def text (expr : Expr) : List Char :=
  expr.render.toList

/-- The text of an expression that is a part of an application. -/
def partText (expr : Expr) : List Char :=
  if expr.isAtom then expr.text else '(' :: (expr.text ++ [')'])

theorem toList_renderArguments (arguments : List Expr) :
    (renderArguments arguments).toList = spaced partText arguments := by
  induction arguments with
  | nil => rfl
  | cons argument arguments ih =>
      rw [renderArguments, String.toList_append, ih, Text.spaced_cons, partText, text]
      split <;> simp

theorem text_lambda (ty : Ty) (params : List Ref) (body : Expr) :
    (lambda ty params body).text = 'λ' :: (paramsText params ++ '.' :: body.text) := by
  rw [text, render]
  simp [toList_renderParams, text]

/-- A callee that is no application is a part like the arguments. -/
theorem text_app {callee : Expr} (head : callee.isAtom = true ∨ callee.isLambda = true) (ty : Ty)
    (arguments : List Expr) :
    (app ty callee arguments).text = callee.partText ++ spaced partText arguments := by
  rw [text, render_app, String.toList_append, toList_renderArguments, partText, text]
  congr 1
  cases callee with
  | var | int | bool => rfl
  | lambda => simp [isLambda, isAtom]
  | app => rcases head with head | head <;> cases head

end Expr

/-- What the first character of a text tells: the kind of an expression, or that a line for
a binding begins. -/
inductive Lead where
  | reference
  | number
  | truth
  | lambda
  | parenthesis
  | line
  deriving DecidableEq

def Lead.of (first : Char) : Lead :=
  if first ∈ ['$', '%', '@'] then reference
  else if first.isDigit ∨ first = '-' then number
  else if first = '#' then truth
  else if first = 'λ' then lambda
  else if first = '(' then parenthesis
  else line

theorem Lead.of_number {first : Char} (number : first.isDigit = true ∨ first = '-') :
    Lead.of first = .number := by
  have noSigil : first ∉ ['$', '%', '@'] := by
    intro sigil
    simp only [List.mem_cons, List.not_mem_nil, or_false] at sigil
    rcases sigil with rfl | rfl | rfl <;> exact absurd number (by decide)
  rw [of, if_neg noSigil, if_pos number]

namespace Expr

/-- How the text of an expression begins. The text of an application begins like its callee,
which is in parentheses when it is a lambda. -/
def lead : Expr → Lead
  | var _ => .reference
  | int _ => .number
  | bool _ => .truth
  | app _ callee _ => if callee.isLambda then .parenthesis else callee.lead
  | lambda _ _ _ => .lambda

theorem lead_text (expr : Expr) (rest : List Char) :
    (expr.text ++ rest).head?.map Lead.of = some expr.lead := by
  induction expr generalizing rest with
  | var ref =>
      rw [text, render, Ref.toList_render, Ref.text]
      cases ref.scope <;> rfl
  | int value =>
      obtain ⟨first, digits, text, number⟩ := Text.exists_head_integer value.toInt
      rw [Expr.text, render, text]
      exact congrArg some (Lead.of_number number)
  | bool value => cases value <;> rfl
  | app ty callee arguments calleeIH _ =>
      rw [text, render_app, String.toList_append, List.append_assoc, lead]
      split
      · simp [Lead.of]
      · exact calleeIH _
  | lambda ty params body =>
      rw [text_lambda]
      rfl

/-- Expressions whose texts agree from the front are of one kind. -/
theorem lead_eq_of_text {left right : Expr} {rest rest' : List Char}
    (same : left.text ++ rest = right.text ++ rest') : left.lead = right.lead := by
  have leads := congrArg (fun text => text.head?.map Lead.of) same
  simpa only [lead_text, Option.some.injEq] using leads

theorem lead_ne_line (expr : Expr) : expr.lead ≠ .line := by
  induction expr with
  | var | int | bool | lambda => nofun
  | app ty callee arguments calleeIH _ =>
      rw [lead]
      split
      · nofun
      · exact calleeIH

theorem lead_eq_lambda_iff {expr : Expr} : expr.lead = .lambda ↔ expr.isLambda = true := by
  induction expr with
  | var | int | bool => exact ⟨nofun, nofun⟩
  | lambda => exact ⟨fun _ => rfl, fun _ => rfl⟩
  | app ty callee arguments calleeIH _ =>
      rw [lead]
      split
      · exact ⟨nofun, nofun⟩
      · next noLambda => exact ⟨fun lambda => absurd (calleeIH.mp lambda) noLambda, nofun⟩

/-- An atom is never taken for an expression in parentheses. -/
theorem atom_text_ne_parenthesis {atom : Expr} (isAtom : atom.isAtom = true)
    {rest rest' : List Char} : atom.text ++ rest ≠ '(' :: rest' := by
  intro same
  have lead : atom.lead = .parenthesis := by
    rw [← Option.some.injEq, ← lead_text atom rest, same]
    rfl
  cases atom with
  | var | int | bool => cases lead
  | app | lambda => cases isAtom

/-- Atoms are read back up to a blank or to what closes the whole. -/
theorem Flat.readsBack_atom {atom other : Expr} (flat : Flat atom) (isAtom : atom.isAtom = true)
    (otherFlat : Flat other) (otherIsAtom : other.isAtom = true) {rest rest' : List Char}
    (ends : Delimited rest) (ends' : Delimited rest')
    (same : atom.text ++ rest = other.text ++ rest') : atom = other ∧ rest = rest' := by
  have lead := lead_eq_of_text same
  cases flat with
  | var word =>
      cases otherFlat with
      | var word' =>
          simp only [text, render, Ref.toList_render] at same
          obtain ⟨rfl, rests⟩ := Ref.readsBack word _ _ _ word' ends ends' same
          exact ⟨rfl, rests⟩
      | int | bool => cases lead
      | app | lambda => cases otherIsAtom
  | @int value =>
      cases otherFlat with
      | @int value' =>
          simp only [text, render] at same
          obtain ⟨values, rests⟩ :=
            Text.eq_of_integer_append ends.isDigit_head? ends'.isDigit_head? same
          exact ⟨by rw [Int64.toInt_inj.mp values], rests⟩
      | var | bool => cases lead
      | app | lambda => cases otherIsAtom
  | @bool value =>
      cases otherFlat with
      | @bool value' =>
          cases value <;> cases value' <;> simp_all [text, render]
      | var | int => cases lead
      | app | lambda => cases otherIsAtom
  | app | lambda => cases isAtom

/-- A part is read back up to a blank when the expression in its parentheses is read back up
to the closing one. -/
theorem Flat.readsBack_part {expr : Expr} (flat : Flat expr)
    (inside : expr.isAtom = false → ReadsBack Closed Flat text expr) :
    ReadsBack Delimited Flat partText expr := by
  intro other rest rest' otherFlat ends ends' same
  cases isAtom : expr.isAtom <;> cases otherIsAtom : other.isAtom <;>
    simp only [partText, isAtom, otherIsAtom, if_true, Bool.false_eq_true, if_false,
      List.cons_append, List.append_assoc, List.nil_append] at same
  case true.true => exact flat.readsBack_atom isAtom otherFlat otherIsAtom ends ends' same
  case true.false => exact absurd same (atom_text_ne_parenthesis isAtom)
  case false.true => exact absurd same.symm (atom_text_ne_parenthesis otherIsAtom)
  case false.false =>
    obtain ⟨rfl, rests⟩ :=
      inside isAtom other _ _ otherFlat (by simp) (by simp) (List.cons.inj same).2
    exact ⟨rfl, (List.cons.inj rests).2⟩

/-! ### Heads and their arguments -/

/-- What is applied. An expression that is no application stands for itself. -/
def head : Expr → Expr
  | app _ callee _ => callee
  | expr => expr

def arguments : Expr → List Expr
  | app _ _ arguments => arguments
  | _ => []

section spines

variable {left right expr : Expr}

theorem Flat.head (flat : Flat expr) : Flat expr.head := by
  cases flat with
  | var word => exact .var word
  | int => exact .int
  | bool => exact .bool
  | app callee _ _ _ => exact callee
  | lambda words body => exact .lambda words body

theorem Flat.arguments (flat : Flat expr) : ∀ argument ∈ expr.arguments, Flat argument := by
  cases flat with
  | var | int | bool | lambda => nofun
  | app _ _ _ arguments => exact arguments

theorem Flat.text_eq_spine (flat : Flat expr) (noLambda : expr.isLambda = false) :
    expr.text = expr.head.partText ++ spaced partText expr.arguments := by
  cases flat with
  | var | int | bool => simp [Expr.head, Expr.arguments, partText, isAtom]
  | app _ head _ _ => exact text_app head _ _
  | lambda => cases noLambda

/-- An application has arguments, and its callee is no application. -/
theorem Flat.eq_of_spine (leftFlat : Flat left) (rightFlat : Flat right)
    (heads : left.head = right.head) (arguments : left.arguments = right.arguments) :
    left = right := by
  cases leftFlat <;> cases rightFlat <;> simp_all [Expr.head, Expr.arguments]

/-- An expression that is no lambda is read back when its head and its arguments are. -/
theorem Flat.readsBack_spine (flat : Flat expr) (noLambda : expr.isLambda = false)
    (head : ReadsBack Delimited Flat partText expr.head)
    (arguments : ∀ argument ∈ expr.arguments, ReadsBack Delimited Flat partText argument) :
    ReadsBack Closed Flat text expr := by
  intro other rest rest' otherFlat closed closed' same
  -- Only a lambda begins like a lambda, so the other expression has a head and arguments too.
  have otherNoLambda : other.isLambda = false := by
    rw [← Bool.not_eq_true, ← lead_eq_lambda_iff, ← lead_eq_of_text same, lead_eq_lambda_iff,
      noLambda]
    decide
  rw [flat.text_eq_spine noLambda, otherFlat.text_eq_spine otherNoLambda, List.append_assoc,
    List.append_assoc] at same
  obtain ⟨heads, tails⟩ := head _ _ _ otherFlat.head (Text.delimited_spaced_append closed)
    (Text.delimited_spaced_append closed') same
  obtain ⟨arguments, rests⟩ := Text.readsBack_spaced arguments _ _ _ otherFlat.arguments
    closed closed' tails
  exact ⟨flat.eq_of_spine otherFlat heads arguments, rests⟩

end spines

/-- The body of a lambda extends as far to the right as the lambda itself. -/
theorem readsBack_lambda {params : List Ref} {body : Expr}
    (words : ∀ param ∈ params, param.name.IsWord) (inner : ReadsBack Closed Flat text body) :
    ReadsBack Closed Flat text (lambda .unknown params body) := by
  intro other rest rest' otherFlat closed closed' same
  have otherLambda : other.isLambda = true := lead_eq_lambda_iff.mp (lead_eq_of_text same).symm
  cases otherFlat with
  | var | int | bool | app => cases otherLambda
  | lambda words' bodyFlat =>
      simp only [text_lambda, List.cons_append, List.append_assoc, List.cons.injEq, true_and]
        at same
      obtain ⟨rfl, bodies⟩ := eq_of_paramsText words words' same
      obtain ⟨rfl, rests⟩ := inner _ _ _ bodyFlat closed closed' bodies
      exact ⟨rfl, rests⟩

theorem Flat.readsBack {expr : Expr} (flat : Flat expr) : ReadsBack Closed Flat text expr := by
  -- An atom is its own head, and what stands in parentheses is a smaller expression.
  induction flat with
  | var word =>
      exact (Flat.var word).readsBack_spine rfl ((Flat.var word).readsBack_part nofun) nofun
  | int => exact Flat.int.readsBack_spine rfl (Flat.int.readsBack_part nofun) nofun
  | bool => exact Flat.bool.readsBack_spine rfl (Flat.bool.readsBack_part nofun) nofun
  | app callee head some arguments calleeIH argumentsIH =>
      exact (Flat.app callee head some arguments).readsBack_spine rfl
        (callee.readsBack_part fun _ => calleeIH)
        fun argument member => (arguments argument member).readsBack_part
          fun _ => argumentsIH argument member
  | lambda words _ bodyIH => exact readsBack_lambda words bodyIH

end Expr

/-! ## Programs -/

namespace Program

theorem toList_render_cons (binding : Binding) (bindings : List Binding) (entry : Expr) :
    (render ⟨binding :: bindings, entry⟩).toList =
      'l' :: 'e' :: 't' :: ' ' :: (binding.name.text ++ ' ' :: '=' :: ' ' ::
        (binding.value.text ++ '\n' :: (render ⟨bindings, entry⟩).toList)) := by
  rw [render, renderBindings, Binding.render, render]
  simp [Ref.toList_render, Expr.text]

theorem toList_render_nil (entry : Expr) : (render ⟨[], entry⟩).toList = entry.text := by
  simp [render, renderBindings, Expr.text]

/-- No expression begins like a line for a binding. -/
theorem line_ne_entry {binding : Binding} {bindings : List Binding} {entry entry' : Expr} :
    (render ⟨binding :: bindings, entry⟩).toList ≠ (render ⟨[], entry'⟩).toList := by
  rw [toList_render_cons, toList_render_nil]
  intro same
  have lead : entry'.lead = .line := by
    rw [← Option.some.injEq, ← Expr.lead_text entry' [], List.append_nil, ← same]
    rfl
  exact Expr.lead_ne_line entry' lead

/-- Flat programs are determined by their texts. -/
theorem Flat.eq_of_render {left right : Program} (leftFlat : left.Flat) (rightFlat : right.Flat)
    (same : left.render = right.render) : left = right := by
  obtain ⟨bindings, entry⟩ := left
  obtain ⟨bindings', entry'⟩ := right
  rw [← String.toList_inj] at same
  induction bindings generalizing bindings' with
  | nil =>
      cases bindings' with
      | nil =>
          rw [toList_render_nil, toList_render_nil] at same
          obtain ⟨rfl, -⟩ := leftFlat.2.readsBack entry' [] [] rightFlat.2 Text.closed_nil
            Text.closed_nil (congrArg (· ++ []) same)
          rfl
      | cons binding' bindings' => exact absurd same.symm line_ne_entry
  | cons binding bindings ih =>
      cases bindings' with
      | nil => exact absurd same line_ne_entry
      | cons binding' bindings' =>
          obtain ⟨⟨word, value⟩, others⟩ := List.forall_mem_cons.mp leftFlat.1
          obtain ⟨⟨word', value'⟩, others'⟩ := List.forall_mem_cons.mp rightFlat.1
          simp only [toList_render_cons, List.cons.injEq, true_and] at same
          obtain ⟨names, afterNames⟩ := Ref.readsBack word _ _ _ word' (by simp) (by simp) same
          simp only [List.cons.injEq, true_and] at afterNames
          obtain ⟨values, afterValues⟩ :=
            value.readsBack _ _ _ value' (by simp) (by simp) afterNames
          have tails := ih ⟨others, leftFlat.2⟩ bindings' ⟨others', rightFlat.2⟩
            (List.cons.inj afterValues).2
          obtain ⟨rfl, rfl⟩ := mk.inj tails
          obtain ⟨name, value⟩ := binding
          obtain ⟨name', value'⟩ := binding'
          cases names
          cases values
          rfl

/-- Legible programs have the same text exactly when they are the same after all annotations
of nodes are forgotten and nested applications are joined. Nothing else is lost in the text:
neither where an argument, the callee or a domain ends, nor what belongs to a reference. -/
theorem render_eq_iff_flatten_eq {left right : Program} (leftLegible : left.Legible)
    (rightLegible : right.Legible) :
    left.render = right.render ↔ left.flatten = right.flatten := by
  rw [← render_flatten left, ← render_flatten right]
  exact ⟨leftLegible.flat.eq_of_render rightLegible.flat, congrArg render⟩

/-- A callee that is itself an application prints like the application to all arguments, and
a lambda that is applied does not print like one whose body is an application. -/
theorem render_eq_iff_flatten_eq_nested :
    let f : Ref := ⟨⟨"f"⟩, 0, .arrow .int (.arrow .int .int), .global⟩
    let x : Ref := ⟨⟨"x"⟩, 0, .int, .param⟩
    let y : Ref := ⟨⟨"y"⟩, 0, .int, .param⟩
    let binding : Binding := ⟨f, .lambda f.ty [x, y] (.var x)⟩
    let stepwise : Program :=
      ⟨[binding], .app .int (.app (.arrow .int .int) (.var f) [.int 1]) [.int (-2)]⟩
    let atOnce : Program := ⟨[binding], .app .unknown (.var f) [.int 1, .int (-2)]⟩
    let applied : Program := ⟨[binding], .app .int (.lambda .unknown [x] (.var f)) [.int 1]⟩
    let applying : Program := ⟨[binding], .lambda .unknown [x] (.app .int (.var f) [.int 1])⟩
    stepwise.Legible ∧ atOnce.Legible ∧ stepwise ≠ atOnce ∧ stepwise.render = atOnce.render ∧
      applied.Legible ∧ applying.Legible ∧ applied.render ≠ applying.render := by
  intro f x y binding stepwise atOnce applied applying
  have stepwiseLegible : stepwise.Legible := by decide
  have atOnceLegible : atOnce.Legible := by decide
  have appliedLegible : applied.Legible := by decide
  have applyingLegible : applying.Legible := by decide
  exact ⟨stepwiseLegible, atOnceLegible, by decide,
    (render_eq_iff_flatten_eq stepwiseLegible atOnceLegible).mpr rfl, appliedLegible,
    applyingLegible, mt (render_eq_iff_flatten_eq appliedLegible applyingLegible).mp (by decide)⟩

end Program

end SimplyTyped
