/-!
# Reading back from the front of a text

A text that stands at the front of a longer one can be read back when it is known how the
rest may begin. Words are read back up to the first character of another alphabet, and items
of a list, each after a blank, up to what ends the list.
-/

set_option autoImplicit false

namespace SimplyTyped.Text

/-- No admitted item has a text that stands where the text of `item` stands, as long as
both rests begin in a way that `Ends` allows. -/
def ReadsBack {α : Type} (Ends : List Char → Prop) (Admitted : α → Prop) (text : α → List Char)
    (item : α) : Prop :=
  ∀ other rest rest', Admitted other → Ends rest → Ends rest' →
    text item ++ rest = text other ++ rest' → item = other ∧ rest = rest'

/-- How the rest begins after an item of a list: it goes on after a blank, or is closed. -/
def Delimited (rest : List Char) : Prop :=
  ∀ first ∈ rest.head?, first ∈ [' ', '.', ')', '\n']

/-- How the rest begins after a whole list. -/
def Closed (rest : List Char) : Prop :=
  ∀ first ∈ rest.head?, first ∈ ['.', ')', '\n']

@[simp] theorem closed_nil : Closed [] := nofun

@[simp] theorem delimited_cons {first : Char} {rest : List Char} :
    Delimited (first :: rest) ↔ first ∈ [' ', '.', ')', '\n'] := by
  simp [Delimited]

@[simp] theorem closed_cons {first : Char} {rest : List Char} :
    Closed (first :: rest) ↔ first ∈ ['.', ')', '\n'] := by
  simp [Closed]

theorem Closed.delimited {rest : List Char} (closed : Closed rest) : Delimited rest :=
  fun first begins => List.mem_cons_of_mem _ (closed first begins)

theorem Delimited.isDigit_head? {rest : List Char} (ends : Delimited rest) :
    ∀ first ∈ rest.head?, first.isDigit = false := by
  intro first begins
  have admitted := ends first begins
  simp only [List.mem_cons, List.not_mem_nil, or_false] at admitted
  rcases admitted with rfl | rfl | rfl | rfl <;> decide

theorem Closed.ne_blank {rest tail : List Char} (closed : Closed rest) : rest ≠ ' ' :: tail := by
  rintro rfl
  simp at closed

/-- Words over an alphabet are read back when no rest goes on in it. -/
theorem eq_of_word_append {alphabet : Char → Bool} {word word' rest rest' : List Char}
    (spelled : ∀ c ∈ word, alphabet c) (spelled' : ∀ c ∈ word', alphabet c)
    (ends : ∀ first ∈ rest.head?, alphabet first = false)
    (ends' : ∀ first ∈ rest'.head?, alphabet first = false)
    (same : word ++ rest = word' ++ rest') : word = word' ∧ rest = rest' := by
  have noMore {rest : List Char} (ends : ∀ first ∈ rest.head?, alphabet first = false) :
      rest.takeWhile alphabet = [] := by
    cases rest with
    | nil => rfl
    | cons first rest => exact List.takeWhile_cons_of_neg (by simp [ends first rfl])
  have words : word = word' := by
    have prefixes := congrArg (List.takeWhile alphabet) same
    rwa [List.takeWhile_append_of_pos spelled, List.takeWhile_append_of_pos spelled', noMore ends,
      noMore ends', List.append_nil, List.append_nil] at prefixes
  subst words
  exact ⟨rfl, List.append_cancel_left same⟩

/-- The digits of a number are read back when no rest begins with a digit. -/
theorem eq_of_digits_append {number number' : Nat} {rest rest' : List Char}
    (ends : ∀ first ∈ rest.head?, first.isDigit = false)
    (ends' : ∀ first ∈ rest'.head?, first.isDigit = false)
    (same : Nat.toDigits 10 number ++ rest = Nat.toDigits 10 number' ++ rest') :
    number = number' ∧ rest = rest' := by
  have digits (number : Nat) : ∀ c ∈ Nat.toDigits 10 number, c.isDigit := fun _ =>
    Nat.isDigit_of_mem_toDigits (by decide) (by decide)
  obtain ⟨words, rests⟩ := eq_of_word_append (digits number) (digits number') ends ends' same
  have numbers := congrArg (Nat.ofDigitChars 10 · 0) words
  rw [Nat.ofDigitChars_ten_toDigits, Nat.ofDigitChars_ten_toDigits] at numbers
  exact ⟨numbers, rests⟩

theorem isAlpha_of_isDigit {c : Char} (digit : c.isDigit = true) : c.isAlpha = false := by
  change (decide (c.val ≥ 'A'.val ∧ c.val ≤ 'Z'.val) ||
    (decide (c.val ≥ 'a'.val) && decide (c.val ≤ 'z'.val))) = false
  rw [Char.isDigit_iff_toNat] at digit
  simp [UInt32.le_iff_toNat_le] at digit ⊢
  omega

theorem exists_digit (number : Nat) :
    ∃ digit digits, Nat.toDigits 10 number = digit :: digits ∧ digit.isDigit = true := by
  cases digits : Nat.toDigits 10 number with
  | nil => exact absurd digits Nat.toDigits_ne_nil
  | cons digit others =>
      have member : digit ∈ Nat.toDigits 10 number := digits ▸ List.mem_cons_self
      exact ⟨digit, others, rfl, Nat.isDigit_of_mem_toDigits (by decide) (by decide) member⟩

/-- A number ends the word before it. -/
theorem isAlpha_head?_digits_append (number : Nat) (rest : List Char) :
    ∀ first ∈ (Nat.toDigits 10 number ++ rest).head?, first.isAlpha = false := by
  obtain ⟨digit, digits, number, isDigit⟩ := exists_digit number
  rw [number]
  rintro first ⟨⟩
  exact isAlpha_of_isDigit isDigit

/-! ## Integers -/

theorem toList_toString_ofNat (number : Nat) :
    (toString (Int.ofNat number)).toList = Nat.toDigits 10 number :=
  Nat.toList_repr

theorem toList_toString_negSucc (number : Nat) :
    (toString (Int.negSucc number)).toList = '-' :: Nat.toDigits 10 (number + 1) := by
  change ("-" ++ (number + 1).repr).toList = _
  simp

theorem digits_append_ne_minus {number : Nat} {rest rest' : List Char} :
    Nat.toDigits 10 number ++ rest ≠ '-' :: rest' := by
  obtain ⟨digit, digits, number, isDigit⟩ := exists_digit number
  rw [number]
  rintro ⟨⟩
  exact absurd isDigit (by decide)

theorem exists_head_integer (value : Int) :
    ∃ first rest, (toString value).toList = first :: rest ∧
      (first.isDigit = true ∨ first = '-') := by
  cases value with
  | ofNat number =>
      obtain ⟨digit, digits, number, isDigit⟩ := exists_digit number
      exact ⟨digit, digits, (toList_toString_ofNat _).trans number, .inl isDigit⟩
  | negSucc number => exact ⟨_, _, toList_toString_negSucc number, .inr rfl⟩

/-- An integer is read back when no rest begins with a digit. -/
theorem eq_of_integer_append {value value' : Int} {rest rest' : List Char}
    (ends : ∀ first ∈ rest.head?, first.isDigit = false)
    (ends' : ∀ first ∈ rest'.head?, first.isDigit = false)
    (same : (toString value).toList ++ rest = (toString value').toList ++ rest') :
    value = value' ∧ rest = rest' := by
  cases value with
  | ofNat number =>
      rw [toList_toString_ofNat] at same
      cases value' with
      | ofNat number' =>
          rw [toList_toString_ofNat] at same
          obtain ⟨rfl, rests⟩ := eq_of_digits_append ends ends' same
          exact ⟨rfl, rests⟩
      | negSucc number' =>
          rw [toList_toString_negSucc] at same
          exact absurd same digits_append_ne_minus
  | negSucc number =>
      rw [toList_toString_negSucc] at same
      cases value' with
      | ofNat number' =>
          rw [toList_toString_ofNat] at same
          exact absurd same.symm digits_append_ne_minus
      | negSucc number' =>
          rw [toList_toString_negSucc] at same
          obtain ⟨numbers, rests⟩ := eq_of_digits_append ends ends' (List.cons.inj same).2
          exact ⟨congrArg Int.negSucc (Nat.succ.inj numbers), rests⟩

/-! ## Spaced items -/

/-- The texts of some items, each after a blank. -/
def spaced {α : Type} (text : α → List Char) (items : List α) : List Char :=
  items.flatMap fun item => ' ' :: text item

section spaced

variable {α : Type} {text : α → List Char}

@[simp] theorem spaced_nil : spaced text [] = [] := rfl

@[simp] theorem spaced_cons (item : α) (items : List α) :
    spaced text (item :: items) = ' ' :: (text item ++ spaced text items) := rfl

theorem delimited_spaced_append {items : List α} {rest : List Char} (closed : Closed rest) :
    Delimited (spaced text items ++ rest) := by
  cases items with
  | nil => exact closed.delimited
  | cons item items => simp

/-- Spaced items are read back one after the other, up to the first rest that is closed. -/
theorem readsBack_spaced {Admitted : α → Prop} {items : List α}
    (readsBack : ∀ item ∈ items, ReadsBack Delimited Admitted text item) :
    ReadsBack Closed (fun items => ∀ item ∈ items, Admitted item) (spaced text) items := by
  intro others rest rest' admitted closed closed' same
  induction items generalizing others with
  | nil =>
      cases others with
      | nil => exact ⟨rfl, same⟩
      | cons other others => exact absurd same closed.ne_blank
  | cons item items ih =>
      cases others with
      | nil => exact absurd same.symm closed'.ne_blank
      | cons other others =>
          simp only [spaced_cons, List.cons_append, List.cons.injEq, true_and,
            List.append_assoc] at same
          obtain ⟨rfl, tails⟩ := readsBack item List.mem_cons_self other _ _
            (admitted other List.mem_cons_self) (delimited_spaced_append closed)
            (delimited_spaced_append closed') same
          obtain ⟨rfl, rests⟩ := ih
            (fun item member => readsBack item (List.mem_cons_of_mem _ member)) others
            (fun other member => admitted other (List.mem_cons_of_mem _ member)) tails
          exact ⟨rfl, rests⟩

end spaced

end SimplyTyped.Text
