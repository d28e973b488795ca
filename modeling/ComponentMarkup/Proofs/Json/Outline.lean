import ComponentMarkup.Json.Record
import ComponentMarkup.Proofs.Json.Quote

/-!
# Outlines of values

The outline of a value keeps its numbers as they are written. A written value determines the
outline, whatever follows, as long as a number does not run on: a text that begins with a written
value begins with one outline only, and what follows the value is determined too.

Values with one outline look the same wherever they are shown.
-/

namespace ComponentMarkup.Json

/-- A value whose numbers are kept as texts. -/
inductive Outline where
  | null
  | bool (value : Bool)
  | number (text : Text)
  | string (text : Text)
  | array (items : List Outline)
  | object (members : List (Text × Outline))

namespace Value

mutual

def outline : Value → Outline
  | null => .null
  | bool value => .bool value
  | int n => .number (intText n)
  | float x => .number x.text
  | string text => .string text
  | array items => .array (outlineItems items)
  | object members => .object (outlineMembers members)

def outlineItems : List Value → List Outline
  | [] => []
  | item :: rest => outline item :: outlineItems rest

def outlineMembers : List (Text × Value) → List (Text × Outline)
  | [] => []
  | (key, value) :: rest => (key, outline value) :: outlineMembers rest

end

/-! ## Numbers -/

/-- The characters that numbers are written with. -/
def isNumberChar (c : Char) : Bool := c.isDigit || c = '-' || c = '+' || c = '.' || c = 'e'

/-- No number that stands before this text runs on in it. -/
def Stops (text : Text) : Prop := ∀ c ∈ text.head?, isNumberChar c = false

/-- A text that numbers are written as. -/
structure IsNumberText (text : Text) : Prop where
  ne_nil : text ≠ []
  chars : ∀ c ∈ text, isNumberChar c = true

theorem isNumberChar_of_mem_toDigits {n : Nat} {c : Char} (h : c ∈ Nat.toDigits 10 n) :
    isNumberChar c = true := by
  simp [isNumberChar, Nat.isDigit_of_mem_toDigits (by decide) (by decide) h]

theorem isNumberText_intText (n : Int) : IsNumberText (intText n) := by
  unfold intText
  split_ifs
  · refine ⟨List.cons_ne_nil _ _, fun c hc ↦ ?_⟩
    rcases List.mem_cons.1 hc with rfl | hc
    · rfl
    · exact isNumberChar_of_mem_toDigits hc
  · exact ⟨Nat.toDigits_ne_nil, fun c hc ↦ isNumberChar_of_mem_toDigits hc⟩

theorem isNumberText_exponentText (exponent : Int) :
    IsNumberText (Decimal.exponentText exponent) := by
  refine ⟨List.cons_ne_nil _ _, fun c hc ↦ ?_⟩
  rcases List.mem_cons.1 hc with rfl | hc
  · split_ifs <;> rfl
  · exact isNumberChar_of_mem_toDigits hc

theorem isNumberText_placeText {digits : Text} (h : ∀ c ∈ digits, isNumberChar c = true)
    (place : Int) : IsNumberText (Decimal.placeText digits place) := by
  have htake (n : Nat) : ∀ c ∈ digits.take n, isNumberChar c = true :=
    fun c hc ↦ h c (List.mem_of_mem_take hc)
  have hdrop (n : Nat) : ∀ c ∈ digits.drop n, isNumberChar c = true :=
    fun c hc ↦ h c (List.mem_of_mem_drop hc)
  have hzeros (n : Nat) : ∀ c ∈ List.replicate n '0', isNumberChar c = true := by
    intro c hc
    rw [List.eq_of_mem_replicate hc]
    rfl
  have hexponent := (isNumberText_exponentText (place - 1)).chars
  unfold Decimal.placeText
  split_ifs
  · refine ⟨by simp, fun c hc ↦ ?_⟩
    simp only [List.mem_append, List.mem_cons] at hc
    rcases hc with (hc | hc) | rfl | hc
    · exact htake 1 c hc
    · split_ifs at hc
      · exact absurd hc List.not_mem_nil
      · rcases List.mem_cons.1 hc with rfl | hc
        · rfl
        · exact hdrop 1 c hc
    · rfl
    · exact hexponent c hc
  · refine ⟨by simp, fun c hc ↦ ?_⟩
    simp only [List.mem_append, List.mem_cons, List.not_mem_nil, or_false] at hc
    rcases hc with ((rfl | rfl) | hc) | hc
    · rfl
    · rfl
    · exact hzeros _ c hc
    · exact h c hc
  · refine ⟨by simp, fun c hc ↦ ?_⟩
    simp only [List.mem_append, List.mem_cons] at hc
    rcases hc with (hc | hc) | rfl | hc
    · exact htake _ c hc
    · exact hzeros _ c hc
    · rfl
    · split_ifs at hc
      · rw [List.mem_singleton] at hc
        rw [hc]
        rfl
      · exact hdrop _ c hc

theorem isNumberText_float (x : Decimal.Binary64) : IsNumberText x.text := by
  have hsize : IsNumberText (if x.isZero then ['0', '.', '0'] else
      Decimal.placeText (Decimal.shortest x).significant.1
        (Decimal.shortest x).significant.2) := by
    split_ifs
    · refine ⟨List.cons_ne_nil _ _, fun c hc ↦ ?_⟩
      simp only [List.mem_cons, List.not_mem_nil, or_false] at hc
      rcases hc with rfl | rfl | rfl <;> rfl
    · apply isNumberText_placeText
      intro c hc
      rw [Decimal.Digits.significant, List.mem_reverse] at hc
      have := (List.dropWhile_suffix _).subset hc
      exact isNumberChar_of_mem_toDigits (List.mem_reverse.1 this)
  show IsNumberText (if x.negative then '-' :: _ else _)
  split
  · refine ⟨List.cons_ne_nil _ _, fun c hc ↦ ?_⟩
    rcases List.mem_cons.1 hc with rfl | hc
    · rfl
    · exact hsize.chars c hc
  · exact hsize

theorem append_inj_of_stops {a b s t : Text} (ha : IsNumberText a) (hb : IsNumberText b)
    (hs : Stops s) (ht : Stops t) (h : a ++ s = b ++ t) : a = b ∧ s = t := by
  have hrun {a s : Text} (ha : IsNumberText a) (hs : Stops s) :
      (a ++ s).takeWhile isNumberChar = a := by
    rw [List.takeWhile_append_of_pos ha.chars]
    cases s with
    | nil => simp
    | cons c s => simp [hs c rfl]
  have hab : a = b := by rw [← hrun ha hs, h, hrun hb ht]
  subst hab
  exact ⟨rfl, List.append_cancel_left h⟩

/-! ## Written values -/

/-- The text of a number, if the value is one. -/
def numberText? : Value → Option Text
  | int n => some (intText n)
  | float x => some x.text
  | _ => none

theorem isNumberText_of_numberText? {value : Value} {text : Text}
    (h : value.numberText? = some text) :
    IsNumberText text ∧ value.render = text ∧ value.outline = .number text := by
  cases value with
  | int n =>
    obtain rfl := Option.some.inj h
    exact ⟨isNumberText_intText n, by rw [render], by rw [outline]⟩
  | float x =>
    obtain rfl := Option.some.inj h
    exact ⟨isNumberText_float x, by rw [render], by rw [outline]⟩
  | _ => simp [numberText?] at h

theorem stops_cons {c : Char} (h : isNumberChar c = false) (text : Text) : Stops (c :: text) := by
  intro d hd
  rw [List.head?_cons, Option.mem_some_iff] at hd
  rw [← hd, h]

/-- What stands behind the first item of an array. -/
def itemsBehind : List Value → Text
  | [] => []
  | item :: rest => ',' :: renderItems (item :: rest)

/-- What stands behind the first member of an object. -/
def membersBehind : List (Text × Value) → Text
  | [] => []
  | member :: rest => ',' :: renderMembers (member :: rest)

theorem renderItems_cons (item : Value) (rest : List Value) :
    renderItems (item :: rest) = render item ++ itemsBehind rest := by
  cases rest <;> simp [renderItems, itemsBehind]

theorem renderMembers_cons (key : Text) (value : Value) (rest : List (Text × Value)) :
    renderMembers ((key, value) :: rest) =
      quote key ++ ':' :: (render value ++ membersBehind rest) := by
  cases rest <;> simp [renderMembers, membersBehind]

theorem stops_itemsBehind (rest : List Value) (text : Text) :
    Stops (itemsBehind rest ++ ']' :: text) := by
  cases rest <;> exact stops_cons rfl _

theorem stops_membersBehind (rest : List (Text × Value)) (text : Text) :
    Stops (membersBehind rest ++ '\x7d' :: text) := by
  cases rest <;> exact stops_cons rfl _

/-- The character that a value is written with first, none for a number. -/
def lead? : Value → Option Char
  | null => some 'n'
  | bool true => some 't'
  | bool false => some 'f'
  | int _ => none
  | float _ => none
  | string _ => some '"'
  | array _ => some '['
  | object _ => some '\x7b'

theorem exists_lead (value : Value) (s : Text) :
    ∃ c rest, render value ++ s = c :: rest ∧
      value.lead? = if isNumberChar c then none else some c := by
  have hnumber {text : Text} (h : IsNumberText text) :
      ∃ c rest, text ++ s = c :: rest ∧ none = if isNumberChar c then none else some c := by
    obtain ⟨c, rest, rfl⟩ := List.exists_cons_of_ne_nil h.ne_nil
    exact ⟨c, rest ++ s, rfl, by simp [h.chars c List.mem_cons_self]⟩
  cases value with
  | null => exact ⟨'n', _, by rw [render]; rfl, rfl⟩
  | bool b => cases b with
    | true => exact ⟨'t', _, by rw [render]; rfl, rfl⟩
    | false => exact ⟨'f', _, by rw [render]; rfl, rfl⟩
  | int n => rw [render]; exact hnumber (isNumberText_intText n)
  | float x => rw [render]; exact hnumber (isNumberText_float x)
  | string text => exact ⟨'"', _, by rw [render]; rfl, rfl⟩
  | array items => exact ⟨'[', _, by rw [render]; rfl, rfl⟩
  | object members => exact ⟨'\x7b', _, by rw [render]; rfl, rfl⟩

theorem lead?_eq_of_render_append {v w : Value} {s t : Text}
    (h : render v ++ s = render w ++ t) : v.lead? = w.lead? := by
  obtain ⟨c, _, hc, hv⟩ := exists_lead v s
  obtain ⟨d, _, hd, hw⟩ := exists_lead w t
  rw [hc, hd, List.cons.injEq] at h
  rw [hv, hw, h.1]

theorem render_append_ne_close (value : Value) (s t : Text) : render value ++ s ≠ ']' :: t := by
  intro h
  obtain ⟨c, _, hc, hlead⟩ := exists_lead value s
  rw [hc, List.cons.injEq] at h
  rw [h.1, show (if isNumberChar ']' then none else some ']') = some ']' from rfl] at hlead
  cases value with
  | bool b => cases b <;> simp [lead?] at hlead
  | _ => simp [lead?] at hlead

theorem outline_number {v w : Value} {s t a b : Text} (hv : v.numberText? = some a)
    (hw : w.numberText? = some b) (hs : Stops s) (ht : Stops t)
    (h : render v ++ s = render w ++ t) : outline v = outline w ∧ s = t := by
  obtain ⟨ha, hva, hvo⟩ := isNumberText_of_numberText? hv
  obtain ⟨hb, hwb, hwo⟩ := isNumberText_of_numberText? hw
  rw [hva, hwb] at h
  obtain ⟨rfl, hst⟩ := append_inj_of_stops ha hb hs ht h
  exact ⟨hvo.trans hwo.symm, hst⟩

mutual

/-- A written value and where it ends are determined by any text that begins with it. -/
theorem outline_of_render_append (v w : Value) (s t : Text) (hs : Stops s) (ht : Stops t)
    (h : render v ++ s = render w ++ t) : outline v = outline w ∧ s = t := by
  have hlead := lead?_eq_of_render_append h
  cases v with
  | null =>
    cases w with
    | null => exact ⟨rfl, List.append_cancel_left h⟩
    | bool b => cases b <;> simp [lead?] at hlead
    | _ => simp [lead?] at hlead
  | bool a =>
    cases w with
    | bool b =>
      obtain rfl : a = b := by cases a <;> cases b <;> simp_all [lead?]
      exact ⟨rfl, List.append_cancel_left h⟩
    | _ => cases a <;> simp [lead?] at hlead
  | int n =>
    cases w with
    | int m => exact outline_number rfl rfl hs ht h
    | float y => exact outline_number rfl rfl hs ht h
    | bool b => cases b <;> simp [lead?] at hlead
    | _ => simp [lead?] at hlead
  | float x =>
    cases w with
    | int m => exact outline_number rfl rfl hs ht h
    | float y => exact outline_number rfl rfl hs ht h
    | bool b => cases b <;> simp [lead?] at hlead
    | _ => simp [lead?] at hlead
  | string a =>
    cases w with
    | string b =>
      rw [render, render] at h
      obtain ⟨rfl, hst⟩ := quote_append_inj h
      exact ⟨rfl, hst⟩
    | bool b => cases b <;> simp [lead?] at hlead
    | _ => simp [lead?] at hlead
  | array vs =>
    cases w with
    | array ws =>
      simp only [render, List.cons_append, List.append_assoc, List.nil_append, List.cons.injEq,
        true_and] at h
      obtain ⟨hitems, hst⟩ := outlineItems_of_render_append vs ws s t h
      exact ⟨by rw [outline, outline, hitems], hst⟩
    | bool b => cases b <;> simp [lead?] at hlead
    | _ => simp [lead?] at hlead
  | object vs =>
    cases w with
    | object ws =>
      simp only [render, List.cons_append, List.append_assoc, List.nil_append, List.cons.injEq,
        true_and] at h
      obtain ⟨hmembers, hst⟩ := outlineMembers_of_render_append vs ws s t h
      exact ⟨by rw [outline, outline, hmembers], hst⟩
    | bool b => cases b <;> simp [lead?] at hlead
    | _ => simp [lead?] at hlead

theorem outlineItems_of_render_append (vs ws : List Value) (s t : Text)
    (h : renderItems vs ++ ']' :: s = renderItems ws ++ ']' :: t) :
    outlineItems vs = outlineItems ws ∧ s = t := by
  cases vs with
  | nil =>
    cases ws with
    | nil => simpa [renderItems] using h
    | cons w ws =>
      rw [renderItems_cons, List.append_assoc] at h
      exact absurd h.symm (render_append_ne_close w _ _)
  | cons v vs =>
    cases ws with
    | nil =>
      rw [renderItems_cons, List.append_assoc] at h
      exact absurd h (render_append_ne_close v _ _)
    | cons w ws =>
      rw [renderItems_cons, renderItems_cons, List.append_assoc, List.append_assoc] at h
      obtain ⟨hfirst, hrest⟩ := outline_of_render_append v w _ _ (stops_itemsBehind vs s)
        (stops_itemsBehind ws t) h
      have hbehind : outlineItems vs = outlineItems ws ∧ s = t := by
        cases vs with
        | nil => cases ws <;> simp_all [itemsBehind]
        | cons v' vs => cases ws with
          | nil => simp [itemsBehind] at hrest
          | cons w' ws =>
            simp only [itemsBehind, List.cons_append, List.cons.injEq, true_and] at hrest
            exact outlineItems_of_render_append (v' :: vs) (w' :: ws) s t hrest
      exact ⟨by rw [outlineItems, outlineItems, hfirst, hbehind.1], hbehind.2⟩

theorem outlineMembers_of_render_append (vs ws : List (Text × Value)) (s t : Text)
    (h : renderMembers vs ++ '\x7d' :: s = renderMembers ws ++ '\x7d' :: t) :
    outlineMembers vs = outlineMembers ws ∧ s = t := by
  cases vs with
  | nil =>
    cases ws with
    | nil => simpa [renderMembers] using h
    | cons w ws =>
      rw [renderMembers_cons] at h
      simp [renderMembers, quote] at h
  | cons v vs =>
    obtain ⟨key, v⟩ := v
    cases ws with
    | nil =>
      rw [renderMembers_cons] at h
      simp [renderMembers, quote] at h
    | cons w ws =>
      obtain ⟨other, w⟩ := w
      simp only [renderMembers_cons, List.append_assoc, List.cons_append] at h
      obtain ⟨rfl, hvalue⟩ := quote_append_inj h
      rw [List.cons.injEq] at hvalue
      obtain ⟨hfirst, hrest⟩ := outline_of_render_append v w _ _ (stops_membersBehind vs s)
        (stops_membersBehind ws t) hvalue.2
      have hbehind : outlineMembers vs = outlineMembers ws ∧ s = t := by
        cases vs with
        | nil => cases ws <;> simp_all [membersBehind]
        | cons v' vs => cases ws with
          | nil => simp [membersBehind] at hrest
          | cons w' ws =>
            simp only [membersBehind, List.cons_append, List.cons.injEq, true_and] at hrest
            exact outlineMembers_of_render_append (v' :: vs) (w' :: ws) s t hrest
      exact ⟨by rw [outlineMembers, outlineMembers, hfirst, hbehind.1], hbehind.2⟩

end

/-! ## What an outline shows -/

mutual

theorem render_eq_of_outline (v w : Value) (h : outline v = outline w) : render v = render w := by
  cases v with
  | array vs =>
    cases w <;> simp only [outline, Outline.array.injEq, reduceCtorEq] at h
    rw [render, render, renderItems_eq_of_outline vs _ h]
  | object vs =>
    cases w <;> simp only [outline, Outline.object.injEq, reduceCtorEq] at h
    rw [render, render, renderMembers_eq_of_outline vs _ h]
  | bool a =>
    cases w <;> simp only [outline, Outline.bool.injEq, reduceCtorEq] at h
    rw [h]
  | _ =>
    cases w <;>
      simp only [outline, Outline.number.injEq, Outline.string.injEq, reduceCtorEq] at h <;>
      simp only [render, h]

theorem renderItems_eq_of_outline (vs ws : List Value) (h : outlineItems vs = outlineItems ws) :
    renderItems vs = renderItems ws := by
  cases vs with
  | nil => cases ws <;> simp_all [outlineItems]
  | cons v vs =>
    cases ws <;> simp only [outlineItems, List.cons.injEq, reduceCtorEq] at h
    rename_i w ws
    have hbehind : itemsBehind vs = itemsBehind ws := by
      cases vs with
      | nil => cases ws with
        | nil => rfl
        | cons _ _ => exact absurd h.2 (by simp [outlineItems])
      | cons _ _ => cases ws with
        | nil => exact absurd h.2 (by simp [outlineItems])
        | cons _ _ => rw [itemsBehind, itemsBehind, renderItems_eq_of_outline _ _ h.2]
    rw [renderItems_cons, renderItems_cons, render_eq_of_outline v w h.1, hbehind]

theorem renderMembers_eq_of_outline (vs ws : List (Text × Value))
    (h : outlineMembers vs = outlineMembers ws) : renderMembers vs = renderMembers ws := by
  cases vs with
  | nil => cases ws <;> simp_all [outlineMembers]
  | cons v vs =>
    cases ws <;>
      simp only [outlineMembers, List.cons.injEq, Prod.mk.injEq, reduceCtorEq] at h
    rename_i w ws
    have hbehind : membersBehind vs = membersBehind ws := by
      cases vs with
      | nil => cases ws with
        | nil => rfl
        | cons _ _ => exact absurd h.2 (by simp [outlineMembers])
      | cons _ _ => cases ws with
        | nil => exact absurd h.2 (by simp [outlineMembers])
        | cons _ _ => rw [membersBehind, membersBehind, renderMembers_eq_of_outline _ _ h.2]
    rw [renderMembers_cons, renderMembers_cons, render_eq_of_outline v.2 w.2 h.1.2, h.1.1, hbehind]

end

theorem display_eq_of_outline {v w : Value} (h : outline v = outline w) :
    display v = display w := by
  have hrender := render_eq_of_outline v w h
  cases v <;> cases w <;> simp_all [outline, display]

theorem outlineItems_eq_map (items : List Value) : outlineItems items = items.map outline := by
  induction items with
  | nil => rfl
  | cons item rest ih => rw [outlineItems, ih, List.map_cons]

theorem outlineMembers_eq_map (members : List (Text × Value)) :
    outlineMembers members = members.map fun member ↦ (member.1, outline member.2) := by
  induction members with
  | nil => rfl
  | cons member rest ih => rw [outlineMembers, ih, List.map_cons]

end Value

/-! ## Objects -/

namespace Object

open Value

theorem find?_outlineMembers (object : Object) (key : Text) :
    Dict.find? (outlineMembers object) key = (Dict.find? object key).map outline := by
  induction object with
  | nil => rfl
  | cons member rest ih =>
    rw [outlineMembers, Dict.find?, Dict.find?]
    split
    · rfl
    · exact ih

theorem outlineMembers_insert {a b : Object} (h : outlineMembers a = outlineMembers b)
    (key : Text) {v w : Value} (hv : outline v = outline w) :
    outlineMembers (insert a key v) = outlineMembers (insert b key w) := by
  induction a generalizing b with
  | nil =>
    cases b with
    | nil => simp only [insert, outlineMembers, hv]
    | cons member rest => simp [outlineMembers] at h
  | cons member rest ih =>
    cases b with
    | nil => simp [outlineMembers] at h
    | cons other others =>
      obtain ⟨k, value⟩ := member
      obtain ⟨k', value'⟩ := other
      simp only [outlineMembers, List.cons.injEq, Prod.mk.injEq] at h
      obtain ⟨⟨rfl, hvalue⟩, hrest⟩ := h
      simp only [insert]
      split_ifs
      · simp only [outlineMembers, hv, hrest]
      · simp only [outlineMembers, hvalue, ih hrest]
      · simp only [outlineMembers, hv, hvalue, hrest]

theorem outlineMembers_overlay {lower lower' upper upper' : Object}
    (hl : outlineMembers lower = outlineMembers lower')
    (hu : outlineMembers upper = outlineMembers upper') :
    outlineMembers (overlay lower upper) = outlineMembers (overlay lower' upper') := by
  induction upper generalizing upper' lower lower' with
  | nil =>
    cases upper' with
    | nil => exact hl
    | cons member rest => simp [outlineMembers] at hu
  | cons member rest ih =>
    cases upper' with
    | nil => simp [outlineMembers] at hu
    | cons other others =>
      obtain ⟨k, value⟩ := member
      obtain ⟨k', value'⟩ := other
      simp only [outlineMembers, List.cons.injEq, Prod.mk.injEq] at hu
      obtain ⟨⟨rfl, hvalue⟩, hrest⟩ := hu
      show outlineMembers (overlay (insert lower k value) rest) =
        outlineMembers (overlay (insert lower' k value') others)
      exact ih (outlineMembers_insert hl k hvalue) hrest

/-- A written object and where it ends are determined by any text that begins with it. -/
theorem outline_of_render_append {a b : Object} {s t : Text} (hs : Stops s) (ht : Stops t)
    (h : render a ++ s = render b ++ t) : outlineMembers a = outlineMembers b ∧ s = t := by
  obtain ⟨houtline, hst⟩ := Value.outline_of_render_append (.object a) (.object b) s t hs ht h
  rw [outline, outline, Outline.object.injEq] at houtline
  exact ⟨houtline, hst⟩

end Object

end ComponentMarkup.Json
