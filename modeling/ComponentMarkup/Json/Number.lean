import ComponentMarkup.Decimal.Binary64
import ComponentMarkup.Text.Basic

/-!
# JSON numbers

A number is kept as it was written: sign, digits before and behind the point, and exponent. A
number of digits alone is an integer if it fits 64 bits, with or without sign; every other number
is a binary floating-point number. Of its digits the significand takes as many as fit 64 bits;
further digits before the point count in the exponent and further digits behind it do not count.
-/

namespace ComponentMarkup.Json

open Decimal

/-- A number as it was written. -/
structure Number where
  negative : Bool
  whole : Text
  fraction : Option Text
  /-- Whether the exponent is negative, and its digits. -/
  exponent : Option (Bool × Text)
  deriving DecidableEq, Repr

/-- What a number denotes. -/
inductive Number.Value where
  | int (n : Int)
  | float (x : Binary64)
  deriving DecidableEq, Repr

namespace Number

def digitValue (c : Char) : Nat := c.toNat - 48

/-- The natural number that digits write. -/
def digitsValue (digits : Text) : Nat := Nat.ofDigitChars 10 digits 0

/-- The digits that a text begins with, at least one, and what follows them. -/
def digits? (text : Text) : Option (Text × Text) :=
  if (text.takeWhile Char.isDigit).isEmpty then none
  else some (text.takeWhile Char.isDigit, text.dropWhile Char.isDigit)

/-- Digits before the point: a zero alone, or digits that do not begin with zero. -/
def whole? : Text → Option (Text × Text)
  | '0' :: rest => some (['0'], rest)
  | text => digits? text

def fraction? : Text → Option (Option Text × Text)
  | '.' :: rest => (digits? rest).map fun (digits, after) => (some digits, after)
  | text => some (none, text)

def exponentDigits? : Text → Option ((Bool × Text) × Text)
  | '-' :: rest => (digits? rest).map fun (digits, after) => ((true, digits), after)
  | '+' :: rest => (digits? rest).map fun (digits, after) => ((false, digits), after)
  | text => (digits? text).map fun (digits, after) => ((false, digits), after)

def exponent? : Text → Option (Option (Bool × Text) × Text)
  | c :: rest =>
    if c = 'e' || c = 'E' then
      (exponentDigits? rest).map fun (exponent, after) => (some exponent, after)
    else some (none, c :: rest)
  | [] => some (none, [])

/-- Reads a number without its sign. -/
def unsigned? (negative : Bool) (text : Text) : Option (Number × Text) := do
  let (whole, text) ← whole? text
  let (fraction, text) ← fraction? text
  let (exponent, text) ← exponent? text
  some (⟨negative, whole, fraction, exponent⟩, text)

/-- Reads a number: the number and what follows it. -/
def read? : Text → Option (Number × Text)
  | '-' :: rest => unsigned? true rest
  | text => unsigned? false text

theorem length_lt_of_digits? {text digits after : Text}
    (h : digits? text = some (digits, after)) : after.length < text.length := by
  unfold digits? at h
  split at h
  · simp at h
  · rename_i hd
    simp only [Option.some.injEq, Prod.mk.injEq] at h
    have hs := congrArg List.length
      (List.takeWhile_append_dropWhile (p := Char.isDigit) (l := text))
    rw [List.length_append, h.1, h.2] at hs
    rw [h.1, List.isEmpty_iff] at hd
    have := List.length_pos_iff.2 hd
    omega

theorem length_lt_of_whole? {text digits after : Text}
    (h : whole? text = some (digits, after)) : after.length < text.length := by
  unfold whole? at h
  split at h
  · grind
  · exact length_lt_of_digits? h

theorem length_le_of_fraction? {text after : Text} {fraction : Option Text}
    (h : fraction? text = some (fraction, after)) : after.length ≤ text.length := by
  unfold fraction? at h
  split at h
  · simp only [Option.map_eq_some_iff, Prod.exists, Prod.mk.injEq] at h
    obtain ⟨_, _, hd, _, rfl⟩ := h
    have := length_lt_of_digits? hd
    simp
    omega
  · grind

theorem length_lt_of_exponentDigits? {text after : Text} {exponent : Bool × Text}
    (h : exponentDigits? text = some (exponent, after)) : after.length < text.length := by
  unfold exponentDigits? at h
  split at h <;>
  · simp only [Option.map_eq_some_iff, Prod.exists, Prod.mk.injEq] at h
    obtain ⟨_, _, hd, _, rfl⟩ := h
    have := length_lt_of_digits? hd
    simp
    try omega

theorem length_le_of_exponent? {text after : Text} {exponent : Option (Bool × Text)}
    (h : exponent? text = some (exponent, after)) : after.length ≤ text.length := by
  unfold exponent? at h
  split at h
  · split at h
    · simp only [Option.map_eq_some_iff, Prod.exists, Prod.mk.injEq] at h
      obtain ⟨_, _, _, hd, _, rfl⟩ := h
      have := length_lt_of_exponentDigits? hd
      simp
      omega
    · grind
  · grind

theorem length_lt_of_read? {text after : Text} {number : Number}
    (h : read? text = some (number, after)) : after.length < text.length := by
  have unsigned {negative : Bool} {text : Text}
      (h : unsigned? negative text = some (number, after)) : after.length < text.length := by
    simp only [unsigned?, Option.bind_eq_bind, Option.bind_eq_some_iff, Prod.exists,
      Option.some.injEq, Prod.mk.injEq] at h
    obtain ⟨_, _, hw, _, _, hf, _, _, he, _, rfl⟩ := h
    have h₁ := length_lt_of_whole? hw
    have h₂ := length_le_of_fraction? hf
    have h₃ := length_le_of_exponent? he
    omega
  unfold read? at h
  split at h
  · have := unsigned h
    simp
    omega
  · exact unsigned h

/-- The bound of significands and of integers without sign. -/
def wordBound : Nat := Nat.pow 2 64

/-- Takes digits into a significand as long as it stays below the bound: the significand and how
many digits it took. -/
def takeDigits (significand : Nat) : Text → Nat × Nat
  | [] => (significand, 0)
  | c :: rest =>
    let next := significand * 10 + digitValue c
    if next < wordBound then
      let (result, count) := takeDigits next rest
      (result, count + 1)
    else (significand, 0)

/-- The exponent as an integer. -/
def exponentValue (number : Number) : Int :=
  match number.exponent with
  | none => 0
  | some (true, digits) => -Int.ofNat (digitsValue digits)
  | some (false, digits) => Int.ofNat (digitsValue digits)

/-- The floating-point number, if it is not too large. -/
def float? (number : Number) : Option Binary64 :=
  let (significand, taken) := takeDigits 0 number.whole
  let (significand, behind) := takeDigits significand (number.fraction.getD [])
  let exponent := Int.ofNat (number.whole.length - taken) - Int.ofNat behind
  (Binary64.ofDecimal? significand (exponent + number.exponentValue)).map fun x =>
    if number.negative then x.negate else x

/-- The integer that digits alone write, if it fits 64 bits. Minus zero is no integer. -/
def int? (number : Number) : Option Int :=
  if number.fraction.isSome || number.exponent.isSome then none
  else
    let n := digitsValue number.whole
    if number.negative then
      if n = 0 || Nat.pow 2 63 < n then none else some (-Int.ofNat n)
    else if n < wordBound then some (Int.ofNat n)
    else none

/-- What the number denotes, if it is not too large. -/
def value? (number : Number) : Option Value :=
  match number.int? with
  | some n => some (.int n)
  | none => number.float?.map .float

/-- The natural number that digits without sign, point and exponent write. -/
def nat? (number : Number) : Option Nat :=
  if number.negative || number.fraction.isSome || number.exponent.isSome then none
  else some (digitsValue number.whole)

end Number

end ComponentMarkup.Json
