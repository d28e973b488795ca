import ComponentMarkup.Proofs.Template.Surface
import ComponentMarkup.Proofs.Text.Solid

/-!
# What written forms are made of

White space is told apart from the characters of names and numbers, so a call is read as the name
in front of its parenthesis, and trimming takes the white space around a written form and nothing
of the form itself. No written form holds a brace, so the first closing braces behind an expression
close its binding.
-/

namespace ComponentMarkup.Template

open Text Json

/-! ## Words and white space -/

/-- The code points of white space. -/
def blankCodes : List Nat := [
  9, 10, 11, 12, 13, 0x20, 0x85, 0xA0, 0x1680, 0x2000, 0x2001, 0x2002, 0x2003, 0x2004, 0x2005,
  0x2006, 0x2007, 0x2008, 0x2009, 0x200A, 0x2028, 0x2029, 0x202F, 0x205F, 0x3000]

theorem toNat_mem_blankCodes {c : Char} (h : isBlank c = true) : c.toNat ∈ blankCodes := by
  simp only [isBlank, Bool.or_eq_true, Bool.and_eq_true, decide_eq_true_eq] at h
  simp only [blankCodes, List.mem_cons, List.not_mem_nil, or_false]
  omega

/-- No range of word characters holds white space. -/
theorem wordRanges_apart : ∀ n ∈ blankCodes,
    (wordRanges.any fun range ↦ range.1 ≤ n && n ≤ range.2) = false := by
  decide +kernel

theorem continuesName_of_isBlank {c : Char} (h : isBlank c = true) : continuesName c = false := by
  have hdollar : c ≠ '$' := by
    rintro rfl
    exact absurd h (by decide)
  rw [continuesName, isWord, wordRanges_apart c.toNat (toNat_mem_blankCodes h), Bool.false_or]
  exact decide_eq_false hdollar

theorem isWord_of_mem {c : Char} {low high : Nat} (hrange : (low, high) ∈ wordRanges)
    (hlow : low ≤ c.toNat) (hhigh : c.toNat ≤ high) : isWord c = true := by
  apply List.any_eq_true.2
  exact ⟨(low, high), hrange, by simp [hlow, hhigh]⟩

theorem wordRanges_ascii : (0x30, 0x39) ∈ wordRanges ∧ (0x41, 0x5A) ∈ wordRanges ∧
    (0x5F, 0x5F) ∈ wordRanges ∧ (0x61, 0x7A) ∈ wordRanges := by
  decide +kernel

namespace Surface

theorem continuesName_of_continuesIdentifier {c : Char} (h : continuesIdentifier c = true) :
    continuesName c = true := by
  obtain ⟨hdigits, hcapitals, hline, hletters⟩ := wordRanges_ascii
  simp only [continuesIdentifier, Bool.or_eq_true, decide_eq_true_eq, Char.isAlphanum,
    isAlpha_iff, Char.isDigit_iff_toNat] at h
  rw [continuesName, Bool.or_eq_true, decide_eq_true_eq]
  rcases h with ((((h | h) | h) | rfl) | rfl)
  · exact .inl (isWord_of_mem hcapitals h.1 h.2)
  · exact .inl (isWord_of_mem hletters h.1 h.2)
  · exact .inl (isWord_of_mem hdigits h.1 h.2)
  · exact .inl (isWord_of_mem hline (by decide) (by decide))
  · exact .inr rfl

theorem continuesIdentifier_of_starts {c : Char} (h : startsIdentifier c = true) :
    continuesIdentifier c = true := by
  simp only [startsIdentifier, continuesIdentifier, Char.isAlphanum, Bool.or_eq_true,
    decide_eq_true_eq] at h ⊢
  tauto

/-- A character of paths, numbers and the words that stand for values. -/
def isAtomChar (c : Char) : Bool := continuesIdentifier c || c = '.' || c = '-' || c = '+'

theorem isBlank_of_isAtomChar {c : Char} (h : isAtomChar c = true) : Text.isBlank c = false := by
  rw [Bool.eq_false_iff]
  intro hblank
  have hname := continuesName_of_isBlank hblank
  simp only [isAtomChar, Bool.or_eq_true, decide_eq_true_eq] at h
  rcases h with ((h | rfl) | rfl) | rfl
  · rw [continuesName_of_continuesIdentifier h] at hname
    exact Bool.noConfusion hname
  · exact absurd hblank (by decide)
  · exact absurd hblank (by decide)
  · exact absurd hblank (by decide)

/-- A character is not one of a list of characters that a class leaves out. -/
theorem not_mem_of_any {p : Char → Bool} {others : List Char} (hp : others.any p = false)
    {c : Char} (hc : p c = true) : c ∉ others := by
  intro hmem
  rw [List.any_eq_false] at hp
  exact hp c hmem hc

theorem forall_mem_joinWith {p : Char → Prop} {separator : Char} (hseparator : p separator)
    {pieces : List Text} (h : ∀ piece ∈ pieces, ∀ c ∈ piece, p c) :
    ∀ c ∈ joinWith [separator] pieces, p c := by
  induction pieces with
  | nil => exact List.forall_mem_nil p
  | cons piece pieces ih =>
    have hpiece : ∀ c ∈ piece, p c := h piece List.mem_cons_self
    cases pieces with
    | nil => simpa [joinWith] using hpiece
    | cons next pieces =>
      have hrest := ih fun text htext ↦ h text (List.mem_cons_of_mem piece htext)
      rw [joinWith, List.intercalate_cons_cons, List.append_assoc, List.singleton_append]
      exact List.forall_mem_append.2 ⟨hpiece, List.forall_mem_cons.2 ⟨hseparator, hrest⟩⟩

/-! ## Atoms -/

theorem isAtomChar_of_continues {c : Char} (h : continuesIdentifier c = true) :
    isAtomChar c = true := by
  simp [isAtomChar, h]

theorem isAtomChar_of_isDigit {c : Char} (h : c.isDigit = true) : isAtomChar c = true := by
  simp [isAtomChar, continuesIdentifier, Char.isAlphanum, h]

theorem Name.continues_of_mem (name : Name) :
    ∀ c ∈ name.text, continuesIdentifier c = true := by
  intro c hc
  rcases List.mem_cons.1 hc with rfl | hc
  · exact continuesIdentifier_of_starts name.starts
  · exact name.continues c hc

theorem Name.isAtomChar_of_mem (name : Name) : ∀ c ∈ name.text, isAtomChar c = true :=
  fun c hc ↦ isAtomChar_of_continues (name.continues_of_mem c hc)

theorem Segment.continues_of_mem (segment : Segment) :
    ∀ c ∈ segment.text, continuesIdentifier c = true := by
  cases segment with
  | name n => exact n.continues_of_mem
  | index place =>
    intro c hc
    simp [continuesIdentifier, Char.isAlphanum, place.isDigit c hc]

theorem Path.continues_of_mem (path : Path) :
    ∀ name ∈ path.names, ∀ c ∈ name, continuesIdentifier c = true := by
  intro name hname
  rcases List.mem_cons.1 hname with rfl | hname
  · exact path.first.continues_of_mem
  · obtain ⟨step, -, rfl⟩ := List.mem_map.1 hname
    exact step.continues_of_mem

theorem Path.isAtomChar_of_mem (path : Path) : ∀ c ∈ path.text, isAtomChar c = true := by
  apply forall_mem_joinWith (p := fun c ↦ isAtomChar c = true) rfl
  exact fun name hname c hc ↦ isAtomChar_of_continues (path.continues_of_mem name hname c hc)

/-- A path begins with the first character of its first name. -/
theorem Path.exists_text_eq (path : Path) : ∃ rest, path.text = path.first.first :: rest := by
  unfold Path.text Path.names joinWith
  cases path.steps with
  | nil => exact ⟨path.first.rest, by simp [Name.text]⟩
  | cons step steps => simp [Name.text]

theorem isAtomChar_of_writesFraction {fraction : Option Text} {text : Text}
    (h : Number.WritesFraction fraction text) : ∀ c ∈ text, isAtomChar c = true := by
  cases h with
  | absent => exact List.forall_mem_nil _
  | digits hdigits =>
    exact List.forall_mem_cons.2 ⟨rfl, fun c hc ↦ isAtomChar_of_isDigit (hdigits.isDigit c hc)⟩

theorem isAtomChar_of_writesExponent {exponent : Option (Bool × Text)} {text : Text}
    (h : Number.WritesExponent exponent text) : ∀ c ∈ text, isAtomChar c = true := by
  have hletters {letter : Char} (hletter : letter = 'e' ∨ letter = 'E') :
      isAtomChar letter = true := by
    rcases hletter with rfl | rfl <;> rfl
  have hdigits {digits : Text} (h : Number.IsDigits digits) : ∀ c ∈ digits, isAtomChar c = true :=
    fun c hc ↦ isAtomChar_of_isDigit (h.isDigit c hc)
  cases h with
  | absent => exact List.forall_mem_nil _
  | minus hletter h =>
    exact List.forall_mem_cons.2 ⟨hletters hletter, List.forall_mem_cons.2 ⟨rfl, hdigits h⟩⟩
  | plus hletter h =>
    exact List.forall_mem_cons.2 ⟨hletters hletter, List.forall_mem_cons.2 ⟨rfl, hdigits h⟩⟩
  | bare hletter h => exact List.forall_mem_cons.2 ⟨hletters hletter, hdigits h⟩

theorem Numeral.isAtomChar_of_mem (numeral : Numeral) :
    ∀ c ∈ numeral.text, isAtomChar c = true := by
  obtain ⟨number, text, @⟨negative, whole, fractionText, exponentText, fraction, exponent, hwhole,
    hfraction, hexponent⟩⟩ := numeral
  have hdigits : ∀ c ∈ whole, isAtomChar c = true :=
    fun c hc ↦ isAtomChar_of_isDigit (hwhole.isDigit c hc)
  have hsigned : ∀ c ∈ Number.integerText negative whole, isAtomChar c = true := by
    cases negative with
    | true => exact List.forall_mem_cons.2 ⟨rfl, hdigits⟩
    | false => exact hdigits
  exact List.forall_mem_append.2 ⟨List.forall_mem_append.2
    ⟨hsigned, isAtomChar_of_writesFraction hfraction⟩, isAtomChar_of_writesExponent hexponent⟩

/-- A number begins with a sign or a digit. -/
theorem Numeral.exists_text_eq (numeral : Numeral) :
    ∃ c rest, numeral.text = c :: rest ∧ (c = '-' ∨ c.isDigit = true) := by
  obtain ⟨number, text, @⟨negative, whole, fractionText, exponentText, fraction, exponent, hwhole,
    hfraction, hexponent⟩⟩ := numeral
  obtain ⟨c, rest, hrest, hc⟩ := hwhole.exists_cons negative
  exact ⟨c, rest ++ fractionText ++ exponentText, by simp [hrest], hc⟩

/-- An atom is a quoted text, or it is made of the characters of atoms. -/
theorem Atom.isAtomChar_of_mem (atom : Atom) (h : ∀ quoted, atom ≠ .quoted quoted) :
    ∀ c ∈ atom.text, isAtomChar c = true := by
  cases atom with
  | path p => exact p.isAtomChar_of_mem
  | number n => exact n.isAtomChar_of_mem
  | bool value => cases value <;> simp [Atom.text, isAtomChar, continuesIdentifier]
  | null => simp [Atom.text, isAtomChar, continuesIdentifier]
  | quoted q => exact absurd rfl (h q)

/-! ## Ends -/

theorem isSolid_of_forall {text : Text} (hne : text ≠ []) (h : ∀ c ∈ text, isAtomChar c = true) :
    IsSolid text :=
  .of_forall hne fun c hc ↦ isBlank_of_isAtomChar (h c hc)

theorem Name.isSolid (name : Name) : IsSolid name.text :=
  isSolid_of_forall (List.cons_ne_nil _ _) name.isAtomChar_of_mem

theorem Quoted.isSolid (quoted : Quoted) : IsSolid quoted.text := by
  have hquote : IsSolid [quoted.quote] := by
    apply IsSolid.singleton
    rcases quoted.isQuote with h | h <;> rw [h] <;> rfl
  exact hquote.append hquote quoted.inside

theorem Atom.isSolid (atom : Atom) : IsSolid atom.text := by
  by_cases h : ∃ quoted, atom = .quoted quoted
  · obtain ⟨quoted, rfl⟩ := h
    exact quoted.isSolid
  · apply isSolid_of_forall
    · cases atom with
      | path p =>
        obtain ⟨rest, hrest⟩ := p.exists_text_eq
        exact fun hnil ↦ List.cons_ne_nil _ rest (hrest.symm.trans hnil)
      | number n =>
        obtain ⟨c, rest, hrest, -⟩ := n.exists_text_eq
        exact fun hnil ↦ List.cons_ne_nil c rest (hrest.symm.trans hnil)
      | bool value => cases value <;> exact List.cons_ne_nil _ _
      | null => exact List.cons_ne_nil _ _
      | quoted q => exact q.isSolid.ne_nil
    · exact atom.isAtomChar_of_mem fun quoted heq ↦ h ⟨quoted, heq⟩

theorem Call.isSolid (call : Call) : IsSolid call.text := by
  have hsolid := call.name.isSolid.append (IsSolid.singleton (c := ')') rfl)
    (call.gap.text ++ '(' :: call.inside)
  rw [Call.text]
  simpa using hsolid

theorem Head.isSolid (head : Head) : IsSolid head.text := by
  cases head with
  | atom a => exact a.isSolid
  | call c => exact c.isSolid

theorem Filter.isSolid (filter : Filter) : IsSolid filter.text := by
  cases filter with
  | name n => exact n.isSolid
  | call c => exact c.isSolid

theorem isSolid_append_stages {text : Text} (h : IsSolid text) (stages : List Stage) :
    IsSolid (text ++ stages.flatMap Stage.text) := by
  induction stages generalizing text with
  | nil => simpa using h
  | cons stage stages ih =>
    have hstage : IsSolid (text ++ stage.text) := by
      have hsolid := h.append stage.filter.isSolid (stage.before.text ++ '|' :: stage.after.text)
      rw [Stage.text]
      simpa using hsolid
    have hrest := ih hstage
    rwa [List.append_assoc] at hrest

theorem Expression.isSolid (expression : Expression) : IsSolid expression.text :=
  isSolid_append_stages expression.head.isSolid expression.stages

/-! ## Braces -/

def HasNoBrace (text : Text) : Prop := ∀ c ∈ text, c ≠ '\x7b' ∧ c ≠ '\x7d'

theorem hasNoBrace_append {s t : Text} :
    HasNoBrace (s ++ t) ↔ HasNoBrace s ∧ HasNoBrace t := List.forall_mem_append

theorem hasNoBrace_cons {c : Char} {t : Text} :
    HasNoBrace (c :: t) ↔ (c ≠ '\x7b' ∧ c ≠ '\x7d') ∧ HasNoBrace t := List.forall_mem_cons

theorem hasNoBrace_nil : HasNoBrace [] := List.forall_mem_nil _

theorem hasNoBrace_flatMap {α : Type} {items : List α} {f : α → Text}
    (h : ∀ item, HasNoBrace (f item)) : HasNoBrace (items.flatMap f) := by
  intro c hc
  obtain ⟨item, -, hc⟩ := List.mem_flatMap.1 hc
  exact h item c hc

theorem hasNoBrace_of_forall {p : Char → Bool} (hp : ['\x7b', '\x7d'].any p = false) {text : Text}
    (h : ∀ c ∈ text, p c = true) : HasNoBrace text := by
  intro c hc
  have hnot := not_mem_of_any hp (h c hc)
  simpa using hnot

theorem Gap.hasNoBrace (gap : Gap) : HasNoBrace gap.text :=
  hasNoBrace_of_forall (by decide) gap.isBlank

theorem Name.hasNoBrace (name : Name) : HasNoBrace name.text :=
  hasNoBrace_of_forall (by decide) name.isAtomChar_of_mem

theorem Quoted.hasNoBrace (quoted : Quoted) : HasNoBrace quoted.text := by
  have hquote : quoted.quote ≠ '\x7b' ∧ quoted.quote ≠ '\x7d' := by
    rcases quoted.isQuote with h | h <;> rw [h] <;> decide
  have hinside : HasNoBrace quoted.inside := fun c hc ↦
    ⟨ne_of_mem_of_not_mem hc quoted.no_brace.1, ne_of_mem_of_not_mem hc quoted.no_brace.2⟩
  apply hasNoBrace_append.2
  exact ⟨hasNoBrace_cons.2 ⟨hquote, hinside⟩, hasNoBrace_cons.2 ⟨hquote, hasNoBrace_nil⟩⟩

theorem Atom.hasNoBrace (atom : Atom) : HasNoBrace atom.text := by
  by_cases h : ∃ quoted, atom = .quoted quoted
  · obtain ⟨quoted, rfl⟩ := h
    exact quoted.hasNoBrace
  · apply hasNoBrace_of_forall (p := isAtomChar) (by decide)
    exact atom.isAtomChar_of_mem fun quoted heq ↦ h ⟨quoted, heq⟩

theorem Argument.hasNoBrace (argument : Argument) : HasNoBrace argument.text := by
  simp only [Argument.text, hasNoBrace_append]
  exact ⟨⟨argument.before.hasNoBrace, argument.atom.hasNoBrace⟩, argument.after.hasNoBrace⟩

theorem Call.hasNoBrace (call : Call) : HasNoBrace call.text := by
  have harguments : HasNoBrace (joinWith [','] (call.arguments.map Argument.text)) := by
    apply forall_mem_joinWith (p := fun c ↦ c ≠ '\x7b' ∧ c ≠ '\x7d') (by decide)
    intro piece hpiece
    obtain ⟨argument, -, rfl⟩ := List.mem_map.1 hpiece
    exact argument.hasNoBrace
  simp only [Call.text, Call.inside, hasNoBrace_append, hasNoBrace_cons]
  exact ⟨⟨⟨call.name.hasNoBrace, call.gap.hasNoBrace⟩, by decide,
    call.inner.hasNoBrace, harguments⟩, by decide, hasNoBrace_nil⟩

theorem Stage.hasNoBrace (stage : Stage) : HasNoBrace stage.text := by
  have hfilter : HasNoBrace stage.filter.text := by
    cases stage.filter with
    | name n => exact n.hasNoBrace
    | call c => exact c.hasNoBrace
  simp only [Stage.text, hasNoBrace_append, hasNoBrace_cons]
  exact ⟨⟨stage.before.hasNoBrace, by decide, stage.after.hasNoBrace⟩, hfilter⟩

/-- An expression holds no brace. -/
theorem Expression.hasNoBrace (expression : Expression) : HasNoBrace expression.text := by
  have hhead : HasNoBrace expression.head.text := by
    cases expression.head with
    | atom a => exact a.hasNoBrace
    | call c => exact c.hasNoBrace
  exact hasNoBrace_append.2 ⟨hhead, hasNoBrace_flatMap Stage.hasNoBrace⟩

end Surface

end ComponentMarkup.Template
