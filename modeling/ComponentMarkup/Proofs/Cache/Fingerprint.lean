import ComponentMarkup.Proofs.Component.Alike
import ComponentMarkup.Proofs.Text.Bytes

/-!
# What fingerprints tell apart

Where all numbers are integers, a value is what its outline says, so the digested text determines
the data and the attributes. A text is determined by its bytes, and a digest by its hexadecimal
digits: as long as no two of the digested messages collide, inputs with one fingerprint are the
same.
-/

namespace ComponentMarkup

namespace Json.Value

/-! ## Integral values -/

theorem intText_of_nonneg {n : Int} (h : 0 ≤ n) : intText n = Nat.toDigits 10 n.toNat := by
  rw [intText, if_neg (by omega), show n.natAbs = n.toNat by omega]

theorem intText_of_neg {n : Int} (h : n < 0) :
    intText n = '-' :: Nat.toDigits 10 (-n).toNat := by
  rw [intText, if_pos h, show n.natAbs = (-n).toNat by omega]

theorem toDigits_inj {m n : Nat} (h : Nat.toDigits 10 m = Nat.toDigits 10 n) : m = n := by
  rw [← Nat.ofDigitChars_ten_toDigits (n := m), h, Nat.ofDigitChars_ten_toDigits]

theorem toDigits_ne_minus (n : Nat) (text : Text) : Nat.toDigits 10 n ≠ '-' :: text := by
  intro h
  have hdigit := Nat.isDigit_of_mem_toDigits (b := 10) (n := n) (c := '-') (by decide) (by decide)
    (by rw [h]; exact List.mem_cons_self)
  simp at hdigit

/-- Integers are told apart by their digits. -/
theorem intText_inj {m n : Int} (h : intText m = intText n) : m = n := by
  rcases lt_or_ge m 0 with hm | hm <;> rcases lt_or_ge n 0 with hn | hn
  · rw [intText_of_neg hm, intText_of_neg hn, List.cons.injEq] at h
    have := toDigits_inj h.2
    omega
  · rw [intText_of_neg hm, intText_of_nonneg hn] at h
    exact absurd h.symm (toDigits_ne_minus _ _)
  · rw [intText_of_nonneg hm, intText_of_neg hn] at h
    exact absurd h (toDigits_ne_minus _ _)
  · rw [intText_of_nonneg hm, intText_of_nonneg hn] at h
    have := toDigits_inj h
    omega

mutual

/-- All numbers in a value are integers. -/
def isIntegral : Value → Bool
  | float _ => false
  | array items => isIntegralItems items
  | object members => isIntegralMembers members
  | _ => true

def isIntegralItems : List Value → Bool
  | [] => true
  | item :: rest => isIntegral item && isIntegralItems rest

def isIntegralMembers : List (Text × Value) → Bool
  | [] => true
  | (_, value) :: rest => isIntegral value && isIntegralMembers rest

end

mutual

/-- An integral value is determined by its outline. -/
theorem eq_of_outline (v w : Value) (hv : v.isIntegral = true) (hw : w.isIntegral = true)
    (h : outline v = outline w) : v = w := by
  cases v with
  | float x => simp [isIntegral] at hv
  | array vs =>
    cases w <;> simp only [outline, Outline.array.injEq, reduceCtorEq] at h
    rw [isIntegral] at hv hw
    rw [eq_of_outlineItems vs _ hv hw h]
  | object vs =>
    cases w <;> simp only [outline, Outline.object.injEq, reduceCtorEq] at h
    rw [isIntegral] at hv hw
    rw [eq_of_outlineMembers vs _ hv hw h]
  | int m =>
    cases w <;> simp only [outline, Outline.number.injEq, reduceCtorEq] at h
    · rw [intText_inj h]
    · simp [isIntegral] at hw
  | _ =>
    cases w <;> simp_all [outline]

theorem eq_of_outlineItems (vs ws : List Value) (hv : isIntegralItems vs = true)
    (hw : isIntegralItems ws = true) (h : outlineItems vs = outlineItems ws) : vs = ws := by
  cases vs with
  | nil => cases ws <;> simp_all [outlineItems]
  | cons v vs =>
    cases ws <;> simp only [outlineItems, List.cons.injEq, reduceCtorEq] at h
    rw [isIntegralItems, Bool.and_eq_true] at hv hw
    rw [eq_of_outline v _ hv.1 hw.1 h.1, eq_of_outlineItems vs _ hv.2 hw.2 h.2]

theorem eq_of_outlineMembers (vs ws : List (Text × Value)) (hv : isIntegralMembers vs = true)
    (hw : isIntegralMembers ws = true) (h : outlineMembers vs = outlineMembers ws) : vs = ws := by
  cases vs with
  | nil => cases ws <;> simp_all [outlineMembers]
  | cons v vs =>
    cases ws <;> simp only [outlineMembers, List.cons.injEq, Prod.mk.injEq, reduceCtorEq] at h
    rw [isIntegralMembers, Bool.and_eq_true] at hv hw
    rw [eq_of_outlineMembers vs _ hv.2 hw.2 h.2, Prod.ext h.1.1 (eq_of_outline v.2 _ hv.1 hw.1 h.1.2)]

end

end Json.Value

/-! ## Digests in hexadecimal digits -/

namespace Digest

theorem hexDigit_inj {m n : Nat} (hm : m < 16) (hn : n < 16)
    (h : Text.hexDigit m = Text.hexDigit n) : m = n := by
  have hall : ∀ m < 16, ∀ n < 16, Text.hexDigit m = Text.hexDigit n → m = n := by decide
  exact hall m hm n hn h

theorem length_wordHex (word : UInt32) : (wordHex word).length = 8 := by
  simp [wordHex]

/-- A word is determined by its eight digits. -/
theorem wordHex_inj {v w : UInt32} (h : wordHex v = wordHex w) : v = w := by
  have hdigit (i : Nat) (hi : i < 8) :
      v.toNat / Nat.pow 16 (7 - i) % 16 = w.toNat / Nat.pow 16 (7 - i) % 16 := by
    rw [wordHex, wordHex, List.map_inj_left] at h
    exact hexDigit_inj (Nat.mod_lt _ (by decide)) (Nat.mod_lt _ (by decide))
      (h i (List.mem_range.2 hi))
  -- A number is its upper digits times sixteen and its last digit.
  have hupper (i : Nat) (hi : i ≤ 8) : v.toNat / 16 ^ (8 - i) = w.toNat / 16 ^ (8 - i) := by
    induction i with
    | zero =>
      have hv := v.toNat_lt
      have hw := w.toNat_lt
      rw [Nat.div_eq_of_lt (by omega), Nat.div_eq_of_lt (by omega)]
    | succ i ih =>
      have hlast := hdigit i (by omega)
      have hrest := ih (by omega)
      have hpow : 8 - i = (7 - i) + 1 := by omega
      have hsub : 8 - (i + 1) = 7 - i := by omega
      rw [hpow, Nat.pow_succ, ← Nat.div_div_eq_div_mul, ← Nat.div_div_eq_div_mul] at hrest
      rw [hsub]
      rw [Nat.pow_eq] at hlast
      omega
  have hvalue := hupper 8 (Nat.le_refl 8)
  simpa [UInt32.toNat_inj] using hvalue

theorem flatMap_wordHex_inj {vs ws : List UInt32} (hlength : vs.length = ws.length)
    (h : vs.flatMap wordHex = ws.flatMap wordHex) : vs = ws := by
  induction vs generalizing ws with
  | nil => exact (List.length_eq_zero_iff.1 hlength.symm).symm
  | cons v vs ih =>
    obtain ⟨w, ws, rfl⟩ := List.exists_cons_of_length_eq_add_one hlength.symm
    rw [List.flatMap_cons, List.flatMap_cons] at h
    obtain ⟨hfirst, hrest⟩ := List.append_inj h (by rw [length_wordHex, length_wordHex])
    rw [wordHex_inj hfirst, ih (Nat.succ.inj hlength) hrest]

theorem State.words_inj {s t : State} (h : s.words = t.words) : s = t := by
  cases s
  cases t
  simpa [State.words] using h

/-- A digest is determined by its digits. -/
theorem sha256Hex_inj {m n : List UInt8} (h : sha256Hex m = sha256Hex n) : sha256 m = sha256 n :=
  State.words_inj (flatMap_wordHex_inj rfl h)

end Digest

namespace Cache

open Json Json.Value

/-- Two inputs with one fingerprint are the same if their numbers are integers and the digested
messages do not collide: the data have the same members, and the attributes are the same pairs in
the same order. -/
theorem eq_of_fingerprint_eq {a b : Data} {s t : Attributes}
    (ha : isIntegralMembers a = true) (hb : isIntegralMembers b = true)
    (hdigest : Digest.sha256 (Text.bytes (inputText a s)) =
        Digest.sha256 (Text.bytes (inputText b t)) →
      Text.bytes (inputText a s) = Text.bytes (inputText b t))
    (h : fingerprint a s = fingerprint b t) : a = b ∧ s = t := by
  have hmessage := hdigest (Digest.sha256Hex_inj h)
  obtain ⟨houtline, hattributes⟩ := inputText_inj (Text.bytes_inj hmessage)
  exact ⟨eq_of_outlineMembers a b ha hb houtline, hattributes⟩

/-- Data with control characters, nested in an array and an object. -/
def nestedMembers : List (Text × Value) :=
  [("b\x00".toList, .array [.int (-30), .string "\x00\x1f\\\"".toList, .array []]),
    ("a".toList, .object (Object.ofMembers [("y".toList, .int 0), ("x".toList, .bool true)]))]

/-- The order in which members are put in makes no difference. -/
theorem ofMembers_nested_eq :
    let a := Object.ofMembers nestedMembers
    let b := Object.ofMembers nestedMembers.reverse
    let attributes := [("title".toList, "\x00".toList), ("class".toList, [])]
    isIntegralMembers a = true ∧ isIntegralMembers b = true ∧
      fingerprint a attributes = fingerprint b attributes ∧ a = b := by
  intro a b attributes
  have ha : isIntegralMembers a = true := by decide +kernel
  have hb : isIntegralMembers b = true := by decide +kernel
  have hbytes : Text.bytes (inputText a attributes) = Text.bytes (inputText b attributes) := by
    decide +kernel
  have hfingerprint : fingerprint a attributes = fingerprint b attributes := by decide +kernel
  exact ⟨ha, hb, hfingerprint, (eq_of_fingerprint_eq ha hb (fun _ ↦ hbytes) hfingerprint).1⟩

end Cache

end ComponentMarkup
