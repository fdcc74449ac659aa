import Mathlib.Data.List.TakeWhile
import Mathlib.Data.Nat.Digits.Lemmas
import SchemaCodec.Proofs.PlainForm

/-!
# The spellings of an integer

An integer is spelled in decimal digits, or in hexadecimal ones of either case behind `0x`, with a
sign in front or none and with any number of leading zeros. These are the texts that the lexer of
integers takes, and every one that fits is read as the number it spells.
-/

namespace SchemaCodec

open Lexer

/-- The digits in the order of their values. -/
def digitsInOrder : List Char := "0123456789abcdef".toList

/-- The digits of decimal numbers. -/
def decimalDigits : List Char := "0123456789".toList

/-- The digits of hexadecimal numbers, in lower and in upper case. -/
def hexadecimalDigits : List Char := "0123456789abcdefABCDEF".toList

/-- The number that digits spell in a base, the first digit being the most significant one. -/
def positional (base : Nat) (digits : List Char) : Nat :=
  Nat.ofDigits base (digits.reverse.map fun digit => digitsInOrder.idxOf digit.toLower)

/-- A text without a sign spells a number. -/
inductive SpellsNat : List Char → Nat → Prop
  | decimal {digits : List Char} (nonempty : digits ≠ [])
      (inside : digits ⊆ decimalDigits) : SpellsNat digits (positional 10 digits)
  | hexadecimal {digits : List Char} (nonempty : digits ≠ [])
      (inside : digits ⊆ hexadecimalDigits) :
      SpellsNat ('0' :: 'x' :: digits) (positional 16 digits)

/-- A text spells an integer. -/
inductive SpellsInt : List Char → Int → Prop
  | unsigned {digits : List Char} {number : Nat} (magnitude : SpellsNat digits number) :
      SpellsInt digits number
  | plus {digits : List Char} {number : Nat} (magnitude : SpellsNat digits number) :
      SpellsInt ('+' :: digits) number
  | minus {digits : List Char} {number : Nat} (magnitude : SpellsNat digits number) :
      SpellsInt ('-' :: digits) (-number)

/-! ## Digits -/

/-- Decimal digits are hexadecimal ones. -/
theorem decimalDigits_subset : decimalDigits ⊆ hexadecimalDigits := by decide

/-- A character between two others is one of those between them. -/
theorem mem_of_between {first last char : Char} {listed : List Char}
    (all : ∀ code ∈ List.range' first.toNat (last.toNat + 1 - first.toNat),
      Char.ofNat code ∈ listed) (above : first ≤ char) (below : char ≤ last) : char ∈ listed := by
  have least : first.toNat ≤ char.toNat := above
  have most : char.toNat ≤ last.toNat := below
  have isCode := all char.toNat (List.mem_range'_1.mpr ⟨least, by omega⟩)
  rwa [Char.ofNat_toNat] at isCode

/-- The digits for which decimal numbers look are these ten. -/
theorem isDigit_iff {char : Char} : char.isDigit = true ↔ char ∈ decimalDigits := by
  constructor
  · intro digit
    simp only [Char.isDigit, Bool.and_eq_true, decide_eq_true_eq] at digit
    exact mem_of_between (by decide) digit.1 digit.2
  · have all : decimalDigits.all Char.isDigit = true := by decide
    exact List.all_eq_true.mp all char

/-- The digits for which hexadecimal numbers look are these ten and the six letters of either case.
-/
theorem isHexDigit_iff {char : Char} : isHexDigit char = true ↔ char ∈ hexadecimalDigits := by
  constructor
  · intro digit
    simp only [isHexDigit, Bool.or_eq_true, Bool.and_eq_true, decide_eq_true_eq] at digit
    rcases digit with (decimal | lower) | upper
    · exact decimalDigits_subset (isDigit_iff.mp decimal)
    · exact mem_of_between (by decide) lower.1 lower.2
    · exact mem_of_between (by decide) upper.1 upper.2
  · have all : hexadecimalDigits.all isHexDigit = true := by decide
    exact List.all_eq_true.mp all char

/-- A digit counts for its place among all digits, whatever the case of a letter. -/
theorem digitValue_eq_idxOf {digit : Char} (inside : digit ∈ hexadecimalDigits) :
    digitValue digit = digitsInOrder.idxOf digit.toLower := by
  have all : hexadecimalDigits.map digitValue =
      hexadecimalDigits.map fun other => digitsInOrder.idxOf other.toLower := by decide
  exact List.map_inj_left.mp all digit inside

/-- Digits are read as the number that they spell. The induction is on the last digit, which the
digits in front of it are shifted for. -/
theorem numberOfDigits_eq_positional {base : Nat} {digits : List Char}
    (inside : digits ⊆ hexadecimalDigits) :
    numberOfDigits base digits = positional base digits := by
  induction digits using List.reverseRecOn with
  | nil => rfl
  | append_singleton digits last inductionHypothesis =>
    have first : numberOfDigits base digits = positional base digits :=
      inductionHypothesis fun _ isIn => inside (List.mem_append_left _ isIn)
    have isLast : last ∈ digits ++ [last] := by simp
    have value := digitValue_eq_idxOf (inside isLast)
    calc numberOfDigits base (digits ++ [last])
        = numberOfDigits base digits * base + digitValue last := by simp [numberOfDigits]
      _ = digitsInOrder.idxOf last.toLower + base * positional base digits := by
          rw [first, value, Nat.mul_comm, Nat.add_comm]
      _ = positional base (digits ++ [last]) := by simp [positional, Nat.ofDigits_cons]

/-- A decimal number is spelled by its digits. -/
theorem spellsNat_toDigits (number : Nat) : SpellsNat (Nat.toDigits 10 number) number := by
  have inside : Nat.toDigits 10 number ⊆ decimalDigits :=
    fun _ isIn => isDigit_iff.mp (isDigit_of_mem_digits number isIn)
  have value : positional 10 (Nat.toDigits 10 number) = number := by
    rw [← numberOfDigits_eq_positional (List.Subset.trans inside decimalDigits_subset),
      numberOfDigits_toDigits]
  have spells := SpellsNat.decimal Nat.toDigits_ne_nil inside
  rwa [value] at spells

/-- Every integer has a spelling. -/
theorem spellsInt_toString (number : Int) : SpellsInt (toString number).toList number := by
  have magnitude := spellsNat_toDigits number.natAbs
  rw [toList_toString]
  by_cases negative : number < 0
  · have same : -(number.natAbs : Int) = number := by omega
    have spells := SpellsInt.minus magnitude
    rw [same] at spells
    rwa [if_pos negative]
  · have same : (number.natAbs : Int) = number := by omega
    have spells := SpellsInt.unsigned magnitude
    rw [same] at spells
    rwa [if_neg negative]

/-! ## What a spelling is read as -/

/-- A text without a sign starts with a decimal digit. -/
theorem SpellsNat.exists_digit {digits : List Char} {number : Nat}
    (spells : SpellsNat digits number) :
    ∃ first more, digits = first :: more ∧ first.isDigit = true := by
  cases spells with
  | decimal nonempty inside =>
    obtain ⟨first, more, rfl⟩ := List.exists_cons_of_ne_nil nonempty
    exact ⟨first, more, rfl, isDigit_iff.mpr (inside (by simp))⟩
  | @hexadecimal digits nonempty inside => exact ⟨'0', 'x' :: digits, rfl, by decide⟩

/-- No sign is split off a text that has none. -/
theorem SpellsNat.splitSign_eq {digits : List Char} {number : Nat}
    (spells : SpellsNat digits number) : splitSign digits = (false, digits) := by
  obtain ⟨first, more, rfl, isDigit⟩ := spells.exists_digit
  have noMinus := ne_of_isDigit isDigit '-' (by decide)
  have noPlus := ne_of_isDigit isDigit '+' (by decide)
  simp [splitSign, noMinus, noPlus]

/-- A text without a sign is read as the number that it spells, by its own base.

Decimal digits are not taken for hexadecimal ones, since the letter in front of these is no decimal
digit. -/
theorem SpellsNat.magnitude_eq {digits : List Char} {number : Nat}
    (spells : SpellsNat digits number) : magnitudeOfLiteral digits = number := by
  cases spells with
  | decimal nonempty inside =>
    unfold magnitudeOfLiteral
    split
    case h_1 more =>
      have isDecimal : 'x' ∈ decimalDigits := inside (by simp)
      exact absurd isDecimal (by decide)
    case h_2 => exact numberOfDigits_eq_positional (List.Subset.trans inside decimalDigits_subset)
  | hexadecimal nonempty inside => exact numberOfDigits_eq_positional inside

/-- Whether an integer fits can be computed. -/
instance (number : Int) : Decidable (FitsLiteral number) :=
  inferInstanceAs (Decidable (_ ∧ _))

/-- The integer that a text spells is its magnitude with its sign. -/
theorem SpellsInt.number_eq {chars : List Char} {number : Int} (spells : SpellsInt chars number) :
    number = if (splitSign chars).1 = true then -(magnitudeOfLiteral (splitSign chars).2 : Int)
      else magnitudeOfLiteral (splitSign chars).2 := by
  cases spells with
  | unsigned spells =>
    rw [spells.splitSign_eq, spells.magnitude_eq]
    rfl
  | plus spells =>
    simp only [splitSign, spells.magnitude_eq]
    rfl
  | minus spells =>
    simp only [splitSign, spells.magnitude_eq]
    rfl

/-- A text spells one integer at most. -/
theorem SpellsInt.unique {chars : List Char} {number other : Int}
    (spells : SpellsInt chars number) (also : SpellsInt chars other) : number = other :=
  spells.number_eq.trans also.number_eq.symm

/-- A spelling is read as the integer that it spells if that fits, and as none otherwise. -/
theorem SpellsInt.intOfLiteral?_eq {chars : List Char} {number : Int}
    (spells : SpellsInt chars number) :
    intOfLiteral? (String.ofList chars) = if FitsLiteral number then some number else none := by
  have signed := spells.number_eq
  rcases split : splitSign chars with ⟨negative, digits⟩
  rw [split] at signed
  subst signed
  have fits_iff : FitsLiteral (if negative = true then -(magnitudeOfLiteral digits : Int)
      else magnitudeOfLiteral digits) ↔ magnitudeOfLiteral digits < 0x8000000000000000 := by
    unfold FitsLiteral
    cases negative <;> simp <;> omega
  simp only [intOfLiteral?, String.toList_ofList, split, fits_iff]

/-- An integer has a literal exactly if it fits. -/
theorem exists_literal_iff {number : Int} :
    (∃ chars, SpellsInt chars number ∧ intOfLiteral? (String.ofList chars) = some number) ↔
      FitsLiteral number := by
  constructor
  · rintro ⟨chars, spells, isRead⟩
    rw [spells.intOfLiteral?_eq] at isRead
    by_contra unfit
    rw [if_neg unfit] at isRead
    cases isRead
  · intro fits
    have spells := spellsInt_toString number
    exact ⟨_, spells, by rw [spells.intOfLiteral?_eq, if_pos fits]⟩

/-! ## Lexing a spelling -/

namespace Lexer

/-- An integer without its sign is taken, in hexadecimal digits or else in decimal ones.

Proof: decimal digits do not start with the hexadecimal prefix, whose letter is no digit, so they
are taken as such. Hexadecimal ones are taken behind the prefix, and end where the word does. -/
theorem magnitude_spelled {digits rest : List Char} {number : Nat}
    (spells : SpellsNat digits number) (ends : EndsWord rest) :
    either (followedBy (exactly "0x") (run1 isHexDigit)) Lexer.digits (digits ++ rest) =
      some (digits, rest) := by
  cases spells with
  | decimal nonempty inside =>
    have noHexadecimal : exactly "0x" (digits ++ rest) = none := by
      apply exactly_eq_none
      intro isPrefix
      have isName : "0x".toList.all isNameChar = true := by decide
      have isIn := (prefix_of_prefix_append (List.all_eq_true.mp isName) ends isPrefix).subset
        (show 'x' ∈ "0x".toList by decide)
      exact absurd (inside isIn) (by decide)
    have taken : Lexer.digits (digits ++ rest) = some (digits, rest) :=
      run1_append nonempty (fun _ isIn => isDigit_iff.mpr (inside isIn))
        (ends.stops (by decide))
    simp [either, followedBy, noHexadecimal, taken]
  | @hexadecimal digits nonempty inside =>
    have front : exactly "0x" ('0' :: 'x' :: digits ++ rest) = some (['0', 'x'], digits ++ rest) :=
      exactly_append "0x" (digits ++ rest)
    have taken : run1 isHexDigit (digits ++ rest) = some (digits, rest) :=
      run1_append nonempty (fun _ isIn => isHexDigit_iff.mpr (inside isIn))
        (ends.stops (by decide))
    rw [either, followedBy_eq_some front taken]
    rfl

/-- The sign of an integer is taken if there is one, and the rest is left. -/
theorem sign_spelled {chars : List Char} {number : Int} (spells : SpellsInt chars number) :
    ∃ front digits magnitude, chars = front ++ digits ∧ SpellsNat digits magnitude ∧
      ∀ rest, sign (chars ++ rest) = some (front, digits ++ rest) := by
  cases spells with
  | unsigned spells =>
    refine ⟨[], chars, _, rfl, spells, ?_⟩
    obtain ⟨first, more, rfl, isDigit⟩ := spells.exists_digit
    have noMinus := ne_of_isDigit isDigit '-' (by decide)
    have noPlus := ne_of_isDigit isDigit '+' (by decide)
    simp [sign, optionally, oneChar, noMinus, noPlus]
  | plus spells => exact ⟨['+'], _, _, rfl, spells, fun _ => rfl⟩
  | minus spells => exact ⟨['-'], _, _, rfl, spells, fun _ => rfl⟩

/-- Every spelling of an integer is taken whole. -/
theorem intLiteral_spelled {chars rest : List Char} {number : Int}
    (spells : SpellsInt chars number) (ends : EndsWord rest) :
    intLiteral (chars ++ rest) = some (chars, rest) := by
  obtain ⟨front, digits, magnitude, rfl, unsigned, signed⟩ := sign_spelled spells
  apply endingBefore_eq_some _ ends.stops_isNameChar
  exact followedBy_eq_some (signed rest) (magnitude_spelled unsigned ends)

/-- An integer is not taken for a number with a point or an exponent.

Proof: the decimal digits are taken and neither a point nor an exponent follows, since a word ends
there or the letter of a hexadecimal number stands there. Nor does it start with a point, since it
has a digit in front. -/
theorem doubleLiteral_spelled {chars rest : List Char} {number : Int}
    (spells : SpellsInt chars number) (ends : EndsWord rest) :
    doubleLiteral (chars ++ rest) = none := by
  obtain ⟨front, digits, magnitude, same, unsigned, signed⟩ := sign_spelled spells
  -- Behind the decimal digits there is neither a point nor the letter of an exponent.
  have decimals : ∃ taken behind, Lexer.digits (digits ++ rest) = some (taken, behind) ∧
      Stops (fun char => char = '.' || char = 'e' || char = 'E') behind := by
    cases unsigned with
    | decimal nonempty inside =>
      exact ⟨digits, rest, run1_append nonempty
        (fun _ isIn => isDigit_iff.mpr (inside isIn)) (ends.stops (by decide)),
        ends.stops (by decide)⟩
    | @hexadecimal digits nonempty inside =>
      refine ⟨['0'], 'x' :: (digits ++ rest), rfl, ?_⟩
      rintro _ ⟨⟩
      decide
  obtain ⟨taken, behind, isTaken, stops⟩ := decimals
  have noPoint : exactly "." behind = none := by
    apply exactly_eq_none
    rintro ⟨more, rfl⟩
    exact absurd (stops '.' rfl) (by decide)
  have noExponent : exponent behind = none := by
    have noLetter : Stops (fun char => char = 'e' || char = 'E') behind := by
      intro char isFirst
      have outside := stops char isFirst
      simp only [Bool.or_eq_false_iff] at outside ⊢
      exact ⟨outside.1.2, outside.2⟩
    simp [exponent, followedBy, oneChar_stops noLetter]
  have noPointFirst : exactly "." (digits ++ rest) = none := by
    obtain ⟨first, more, rfl, isDigit⟩ := unsigned.exists_digit
    apply exactly_eq_none
    rintro ⟨behind, same⟩
    exact ne_of_isDigit isDigit '.' (by decide) (List.cons.inj same).1.symm
  simp [doubleLiteral, followedBy, signed, either, isTaken, noPoint, noExponent, noPointFirst]

/-- Two lexers that take something one behind the other take a part each. -/
theorem exists_of_followedBy {first second : Lexer} {chars taken rest : List Char}
    (takes : followedBy first second chars = some (taken, rest)) :
    ∃ front between back, first chars = some (front, between) ∧
      second between = some (back, rest) ∧ taken = front ++ back := by
  simp only [followedBy, Option.bind_eq_bind, Option.bind_eq_some_iff, Prod.exists] at takes
  obtain ⟨front, between, isFront, back, behind, isBack, same⟩ := takes
  obtain ⟨rfl, rfl⟩ := Prod.mk.inj (Option.some.inj same)
  exact ⟨front, between, back, isFront, isBack, rfl⟩

/-- A run that is taken is not empty and stays in its class. -/
theorem inside_of_run1 {holds : Char → Bool} {chars taken rest : List Char}
    (takes : run1 holds chars = some (taken, rest)) :
    taken ≠ [] ∧ ∀ char ∈ taken, holds char = true := by
  unfold run1 at takes
  split at takes
  case h_1 => cases takes
  case h_2 nonempty =>
    obtain ⟨rfl, rfl⟩ := Prod.mk.inj (Option.some.inj takes)
    refine ⟨fun empty => nonempty _ (Prod.ext empty rfl), ?_⟩
    exact fun char isIn => List.mem_takeWhile_imp isIn

/-- What is taken for an integer spells one.

Proof: what is taken consists of a sign or none and of a magnitude. The magnitude is either
hexadecimal behind its prefix or decimal, with at least one digit, and the sign is one of two
characters. -/
theorem exists_spellsInt {chars taken rest : List Char}
    (takes : intLiteral chars = some (taken, rest)) : ∃ number, SpellsInt taken number := by
  have found : followedBy sign (either (followedBy (exactly "0x") (run1 isHexDigit)) digits) chars =
      some (taken, rest) := by
    simp only [intLiteral, endingBefore, Option.bind_eq_bind, Option.bind_eq_some_iff] at takes
    obtain ⟨⟨front, behind⟩, isTaken, ends⟩ := takes
    split at ends
    · split at ends
      · cases ends
      · exact isTaken.trans ends
    · exact isTaken.trans ends
  obtain ⟨front, between, back, isSign, isMagnitude, rfl⟩ := exists_of_followedBy found
  have magnitude : ∃ number, SpellsNat back number := by
    simp only [either, Option.orElse_eq_or, Option.or_eq_some_iff] at isMagnitude
    rcases isMagnitude with hexadecimal | ⟨-, decimal⟩
    · obtain ⟨prefixed, behind, digits, isPrefix, isDigits, rfl⟩ := exists_of_followedBy hexadecimal
      obtain ⟨rfl, -⟩ := exactly_eq_some_iff.mp isPrefix
      obtain ⟨nonempty, inside⟩ := inside_of_run1 isDigits
      exact ⟨_, .hexadecimal nonempty fun digit isIn => isHexDigit_iff.mp (inside digit isIn)⟩
    · obtain ⟨nonempty, inside⟩ := inside_of_run1 decimal
      exact ⟨_, .decimal nonempty fun digit isIn => isDigit_iff.mp (inside digit isIn)⟩
  obtain ⟨number, spells⟩ := magnitude
  have signs : front = [] ∨ front = ['+'] ∨ front = ['-'] := by
    simp only [sign, optionally, Option.orElse_eq_or, Option.or_eq_some_iff] at isSign
    rcases isSign with isChar | ⟨-, missing⟩
    · unfold oneChar at isChar
      split at isChar
      case h_2 => cases isChar
      case h_1 first more =>
        split at isChar
        case isFalse => cases isChar
        case isTrue isSign =>
          obtain ⟨rfl, -⟩ := Prod.mk.inj (Option.some.inj isChar)
          simpa using isSign
    · exact .inl (Prod.mk.inj (Option.some.inj missing)).1.symm
  rcases signs with rfl | rfl | rfl
  · exact ⟨_, .unsigned spells⟩
  · exact ⟨_, .plus spells⟩
  · exact ⟨_, .minus spells⟩

/-- The texts that are taken whole for an integer are those that spell one. -/
theorem intLiteral_takes_iff {chars : List Char} :
    intLiteral chars = some (chars, []) ↔ ∃ number, SpellsInt chars number := by
  constructor
  · exact exists_spellsInt
  · rintro ⟨number, spells⟩
    have atEnd : EndsWord [] := nofun
    simpa using intLiteral_spelled spells atEnd

end Lexer

end SchemaCodec
