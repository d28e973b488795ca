import ComponentMarkup.Proofs.Attributes.Surface
import ComponentMarkup.Proofs.Tag.Skipped

/-!
# Quotes in opening tags

What stands between the name and the end of an opening tag is cut into quoted values and single
characters. The nearest piece in front of a quote that is no white space decides whether the quote
opens a value: it does behind `=`, and behind a value that was closed. The tag ends at the first `>`
outside values, and an opening tag that a search comes to is found if it ends.

As long as no quote stands behind a value, quotes open values behind `=` alone. A quote too many
behind a value opens another one, which hides the end of its tag and what follows.
-/

namespace ComponentMarkup.Tag

open Text

/-! ## Cutting -/

/-- A piece of what stands between the name of an opening tag and its `>`. -/
inductive Piece where
  | char (c : Char)
  | value (quoted : Attributes.Quoted)

namespace Piece

def text : Piece → Text
  | char c => [c]
  | value quoted => quoted.text

def isSpace : Piece → Bool
  | char c => isMarkupSpace c
  | value _ => false

def isEquals : Piece → Bool
  | char c => c = '='
  | value _ => false

def isValue : Piece → Bool
  | char _ => false
  | value _ => true

/-- The piece has a quote in front, whether or not it opens a value. -/
def beginsWithQuote : Piece → Bool
  | char c => isQuote c
  | value _ => true

end Piece

def textOf (pieces : List Piece) : Text := pieces.flatMap Piece.text

/-- The nearest of the pieces in front that is no white space. -/
def nearest? (before : List Piece) : Option Piece :=
  (before.reverse.dropWhile Piece.isSpace).head?

/-- The nearest piece is an `=` outside values. -/
def followsEquals (before : List Piece) : Bool := (nearest? before).any Piece.isEquals

def followsValue (before : List Piece) : Bool := (nearest? before).any Piece.isValue

/-- A quote behind these pieces opens a value. -/
def opensValue (before : List Piece) : Bool := followsEquals before || followsValue before

/-- A piece that can stand behind others: quotes open values exactly where `opens` says so, and no
`>` stands outside values. -/
def Piece.FitsBehind (opens : List Piece → Bool) (before : List Piece) : Piece → Prop
  | char c => c ≠ '>' ∧ (isQuote c = true → opens before = false)
  | value _ => opens before = true

instance (opens : List Piece → Bool) (before : List Piece) (piece : Piece) :
    Decidable (piece.FitsBehind opens before) :=
  match piece with
  | .char c => inferInstanceAs (Decidable (c ≠ '>' ∧ (isQuote c = true → opens before = false)))
  | .value _ => inferInstanceAs (Decidable (opens before = true))

/-- Each piece can stand behind those in front of it. -/
def IsCut (opens : List Piece → Bool) : (before pieces : List Piece) → Prop
  | _, [] => True
  | before, piece :: rest => piece.FitsBehind opens before ∧ IsCut opens (before ++ [piece]) rest

instance IsCut.decidable (opens : List Piece → Bool) :
    (before pieces : List Piece) → Decidable (IsCut opens before pieces)
  | _, [] => .isTrue trivial
  | before, piece :: rest =>
    have := IsCut.decidable opens (before ++ [piece]) rest
    inferInstanceAs (Decidable (_ ∧ _))

/-- No quote stands behind a value. -/
def QuotesApart : (before pieces : List Piece) → Prop
  | _, [] => True
  | before, piece :: rest =>
    (piece.beginsWithQuote = true → followsValue before = false) ∧
      QuotesApart (before ++ [piece]) rest

section Pieces

variable {before pieces : List Piece} {piece : Piece}

theorem nearest?_concat (before : List Piece) (piece : Piece) :
    nearest? (before ++ [piece]) = if piece.isSpace then nearest? before else some piece := by
  rw [nearest?, List.reverse_append, List.reverse_singleton, List.singleton_append,
    List.dropWhile_cons]
  split <;> rfl

/-- Where no quote stands behind a value, it is `=` that decides. -/
theorem isCut_iff_of_quotesApart (h : QuotesApart before pieces) :
    IsCut opensValue before pieces ↔ IsCut followsEquals before pieces := by
  induction pieces generalizing before with
  | nil => rfl
  | cons piece rest ih =>
    obtain ⟨hpiece, hrest⟩ := h
    have hfits : piece.FitsBehind opensValue before ↔ piece.FitsBehind followsEquals before := by
      cases piece with
      | char c =>
        refine and_congr_right fun _ ↦ forall_congr' fun hquote ↦ ?_
        rw [opensValue, hpiece hquote, Bool.or_false]
      | value quoted =>
        simp only [Piece.FitsBehind, opensValue, hpiece rfl, Bool.or_false]
    rw [IsCut, IsCut, hfits, ih hrest]

end Pieces

/-! ## The end of an opening tag -/

section TagEnd

open Attributes

variable {before pieces : List Piece} {piece : Piece}

/-- The region that a search is in behind pieces. -/
def regionBehind (before : List Piece) : Region := if opensValue before then .value else .plain

theorem isQuoted_regionBehind (before : List Piece) : (regionBehind before).isQuoted = false := by
  unfold regionBehind
  split <;> rfl

theorem opensValue_concat_char (before : List Piece) (c : Char) :
    opensValue (before ++ [.char c]) =
      if isMarkupSpace c then opensValue before else decide (c = '=') := by
  have hspace : (Piece.char c).isSpace = isMarkupSpace c := rfl
  rw [opensValue, followsEquals, followsValue, nearest?_concat, hspace]
  cases isMarkupSpace c with
  | true => rfl
  | false => exact Bool.or_false _

theorem opensValue_concat_value (before : List Piece) (quoted : Quoted) :
    opensValue (before ++ [.value quoted]) = true := by
  rw [opensValue, followsEquals, followsValue, nearest?_concat]
  rfl

/-- A search is in the region behind the pieces that it has read. -/
theorem next_regionBehind {c : Char} (h : (Piece.char c).FitsBehind opensValue before) :
    (regionBehind before).next c = regionBehind (before ++ [.char c]) := by
  have hequals : isMarkupSpace c = true → c ≠ '=' :=
    fun hspace heq ↦ absurd (heq ▸ hspace) (by decide)
  rw [regionBehind, regionBehind, opensValue_concat_char]
  cases hopens : opensValue before with
  | true =>
    have hquote : isQuote c = false := by
      rw [← Bool.not_eq_true]
      intro hquote
      simp [h.2 hquote] at hopens
    rw [if_pos rfl, Region.next, if_neg (by simpa [isQuote] using hquote)]
    cases hspace : isMarkupSpace c <;> simp
  | false =>
    rw [if_neg Bool.false_ne_true, Region.next]
    cases hspace : isMarkupSpace c with
    | true => simp [hequals hspace]
    | false => simp

/-- A piece does not end a tag. -/
theorem Piece.FitsBehind.passes (h : piece.FitsBehind opensValue before) :
    Passes (regionBehind before) piece.text (regionBehind (before ++ [piece])) := by
  cases piece with
  | char c =>
    rw [← next_regionBehind h]
    have hclose : '>' ∉ [c] := by simpa using Ne.symm h.1
    exact passes_of_not_mem hclose
  | value quoted =>
    have hopens : opensValue before = true := h
    rw [regionBehind, regionBehind, if_pos hopens, if_pos (opensValue_concat_value before quoted)]
    exact quoted.passes

theorem IsCut.passes (h : IsCut opensValue before pieces) :
    Passes (regionBehind before) (textOf pieces) (regionBehind (before ++ pieces)) := by
  induction pieces generalizing before with
  | nil =>
    rw [List.append_nil]
    exact .nil _
  | cons piece rest ih =>
    have hrest := ih h.2
    rw [List.append_assoc, List.singleton_append] at hrest
    exact h.1.passes.append hrest

/-- Pieces with a `>` behind them are all that stands in a tag. -/
theorem tagEnd?_textOf (h : IsCut opensValue [] pieces) (behind : Text) :
    Tag.tagEnd? .plain (textOf pieces ++ '>' :: behind) = some (textOf pieces, behind) :=
  h.passes.tagEnd? (isQuoted_regionBehind _) behind

/-- Between quotes a tag goes on to the quote that closes the value, and behind it. -/
theorem exists_of_tagEnd?_quoted {quote : Char} {text inTag behind : Text}
    (h : Tag.tagEnd? (.quoted quote) text = some (inTag, behind)) :
    ∃ content rest inRest, quote ∉ content ∧ text = content ++ quote :: rest ∧
      inTag = content ++ quote :: inRest ∧ Tag.tagEnd? .value rest = some (inRest, behind) := by
  induction text generalizing inTag with
  | nil => simp [Tag.tagEnd?] at h
  | cons c text ih =>
    rw [Tag.tagEnd?, if_neg (by simp [Region.isQuoted]), Option.map_eq_some_iff] at h
    obtain ⟨⟨inText, _⟩, hread, heq⟩ := h
    obtain ⟨rfl, rfl⟩ := Prod.mk.inj heq
    by_cases hc : c = quote
    · rw [Region.next, if_pos hc] at hread
      exact ⟨[], text, inText, List.not_mem_nil, by rw [hc]; rfl, by rw [hc]; rfl, hread⟩
    · rw [Region.next, if_neg hc] at hread
      obtain ⟨content, rest, inRest, hcontent, rfl, rfl, hrest⟩ := ih hread
      exact ⟨c :: content, rest, inRest, by simp [Ne.symm hc, hcontent], rfl, rfl, hrest⟩

/-- What stands in a tag is cut into pieces. -/
theorem exists_isCut_of_tagEnd? {text inTag behind : Text}
    (h : Tag.tagEnd? (regionBehind before) text = some (inTag, behind)) :
    ∃ pieces, IsCut opensValue before pieces ∧ inTag = textOf pieces := by
  -- A quoted value is read in one step, so the induction is on the length of what is left.
  induction hlength : text.length using Nat.strong_induction_on generalizing text inTag before with
  | _ length ih =>
    cases text with
    | nil => simp [Tag.tagEnd?] at h
    | cons c text =>
      by_cases hclose : c = '>'
      · rw [Tag.tagEnd?, if_pos (by simp [hclose, isQuoted_regionBehind])] at h
        exact ⟨[], trivial, (Prod.mk.inj (Option.some.inj h)).1.symm⟩
      · rw [Tag.tagEnd?, if_neg (by simp [hclose]), Option.map_eq_some_iff] at h
        obtain ⟨⟨inText, _⟩, hread, heq⟩ := h
        obtain ⟨rfl, rfl⟩ := Prod.mk.inj heq
        by_cases hopens : isQuote c = true ∧ opensValue before = true
        · obtain ⟨hquote, hopens⟩ := hopens
          have hnext : (regionBehind before).next c = .quoted c := by
            rw [regionBehind, if_pos hopens, Region.next, if_pos (by simpa [isQuote] using hquote)]
          rw [hnext] at hread
          obtain ⟨content, rest, inRest, hcontent, rfl, rfl, hrest⟩ :=
            exists_of_tagEnd?_quoted hread
          let quoted : Quoted := ⟨c, content, by simpa [isQuote] using hquote, hcontent⟩
          have hfits : (Piece.value quoted).FitsBehind opensValue before := hopens
          have hregion : regionBehind (before ++ [.value quoted]) = .value :=
            if_pos (opensValue_concat_value before quoted)
          rw [← hregion] at hrest
          obtain ⟨pieces, hcut, rfl⟩ := ih rest.length (by simp [← hlength]; omega) hrest rfl
          exact ⟨.value quoted :: pieces, ⟨hfits, hcut⟩, by
            simp [textOf, Piece.text, Quoted.text, quoted]⟩
        · have hfits : (Piece.char c).FitsBehind opensValue before :=
            ⟨hclose, fun hquote ↦ by simpa [hquote] using hopens⟩
          rw [next_regionBehind hfits] at hread
          obtain ⟨pieces, hcut, rfl⟩ := ih text.length (by simp [← hlength]) hread rfl
          exact ⟨.char c :: pieces, ⟨hfits, hcut⟩, rfl⟩

end TagEnd

/-! ## Opening tags -/

/-- The opening tag of an occurrence. -/
def Occurrence.opening (occurrence : Occurrence) : Text :=
  occurrence.front ++ occurrence.attributes ++
    if occurrence.isSelfClosing then ['/', '>'] else ['>']

/-- A whole opening tag, in which quotes open values exactly where `opens` says so: it ends at the
first `>` outside values. White space behind `<` is passed over before the name is read. -/
def IsOpeningTag (opens : List Piece → Bool) (mode : LetterCase) (name opening : Text) : Prop :=
  ∃ gap written pieces, opening = '<' :: gap ++ written ++ (textOf pieces ++ ['>']) ∧
    (∀ c ∈ gap, isMarkupSpace c = true) ∧ IsFirm written ∧ mode.Spells name written ∧
    (∀ c ∈ (textOf pieces ++ ['>']).head?, endsName c = true) ∧ IsCut opens [] pieces

/-- A search comes to what is behind a front: at the start, behind each occurrence, and behind each
character at which no opening tag of the name begins. -/
inductive IsReached (mode : LetterCase) (name source : Text) : (front behind : Text) → Prop
  | start (name_ne_nil : name ≠ []) : IsReached mode name source [] source
  | skip {front behind : Text} {c : Char} (reached : IsReached mode name source front (c :: behind))
      (no_opening : ∀ tag, IsOpening mode name tag → ¬tag <+: c :: behind) :
      IsReached mode name source (front ++ [c]) behind
  | behind {front behind : Text} {placed : Placed}
      (found : placed ∈ placedOccurrences mode name source) (source_eq : source = front ++ behind)
      (stop : placed.span.stop = front.byteLength) : IsReached mode name source front behind

section Opening

variable {mode : LetterCase} {name source front behind opening : Text}

theorem opening_ending (mode : LetterCase) (name gap written inTag behind : Text) :
    let found := ending mode name inTag behind
    (⟨gap, written, found.1, found.2.1⟩ : Occurrence).opening =
      '<' :: gap ++ written ++ (inTag ++ ['>']) := by
  unfold ending
  split
  · rename_i hslash
    obtain ⟨attributes, rfl⟩ := List.getLast?_eq_some_iff.1 hslash
    simp [Occurrence.opening, Occurrence.front, Occurrence.isSelfClosing]
  · split <;> simp [Occurrence.opening, Occurrence.front, Occurrence.isSelfClosing]

theorem Occurrence.exists_text_eq (occurrence : Occurrence) :
    ∃ more, occurrence.text = occurrence.opening ++ more := by
  unfold text opening isSelfClosing
  cases occurrence.ending with
  | selfClosing => exact ⟨[], by simp [Ending.text]⟩
  | unclosed => exact ⟨[], by simp [Ending.text]⟩
  | closed inner closing => exact ⟨inner ++ closing, by simp [Ending.text]⟩

/-- What stands in the opening tag of the first occurrence is cut into pieces, and then comes what
ends the occurrence. -/
theorem exists_isCut_of_first? (hne : name ≠ []) {before rest : Text} {occurrence : Occurrence}
    (h : first? mode name source = some (before, occurrence, rest)) :
    ∃ pieces behind, (∀ c ∈ occurrence.gap, isMarkupSpace c = true) ∧ IsFirm occurrence.name ∧
      mode.Spells name occurrence.name ∧
      (∀ c ∈ (textOf pieces ++ ['>']).head?, endsName c = true) ∧ IsCut opensValue [] pieces ∧
      ending mode name (textOf pieces) behind =
        (occurrence.attributes, occurrence.ending, rest) := by
  obtain ⟨start, inside, inTag, behind, hopening, hend, hending⟩ := exists_of_first? h
  obtain ⟨hgap, hspells, d, others, hinside, hd⟩ := spelled_of_opening? hopening
  obtain ⟨pieces, hcut, rfl⟩ : ∃ pieces, IsCut opensValue [] pieces ∧ inTag = textOf pieces :=
    exists_isCut_of_tagEnd? hend
  refine ⟨pieces, behind, hgap, (isFirm_of_first? hne h).of_spells hspells, hspells, ?_, hcut,
    hending⟩
  have hhead : (textOf pieces ++ ['>']).head? = inside.head? := by
    rw [tagEnd?_eq hend, List.head?_append, List.head?_append]
    rfl
  rw [hhead, hinside]
  simpa using hd

/-- What is found has an opening tag. -/
theorem isOpeningTag_of_first? (hne : name ≠ []) {before rest : Text} {occurrence : Occurrence}
    (h : first? mode name source = some (before, occurrence, rest)) :
    IsOpeningTag opensValue mode name occurrence.opening := by
  obtain ⟨pieces, behind, hgap, hfirm, hspells, hends, hcut, hending⟩ :=
    exists_isCut_of_first? hne h
  have hopening := opening_ending mode name occurrence.gap occurrence.name (textOf pieces) behind
  rw [hending] at hopening
  exact ⟨occurrence.gap, occurrence.name, pieces, hopening, hgap, hfirm, hspells, hends, hcut⟩

/-- A whole opening tag is read where it stands. -/
theorem first?_append_of_isCut {gap written : Text} {pieces : List Piece}
    (hgap : ∀ c ∈ gap, isMarkupSpace c = true) (hfirm : IsFirm written)
    (hspells : mode.Spells name written)
    (hends : ∀ c ∈ (textOf pieces ++ ['>']).head?, endsName c = true)
    (hcut : IsCut opensValue [] pieces) (behind : Text) :
    let found := ending mode name (textOf pieces) behind
    first? mode name ('<' :: gap ++ written ++ (textOf pieces ++ '>' :: behind)) =
      some ([], ⟨gap, written, found.1, found.2.1⟩, found.2.2) := by
  obtain ⟨c, inside, hinside⟩ := List.exists_cons_of_ne_nil
    (l := textOf pieces ++ ['>']) (by simp)
  have hopening := opening?_append hfirm hspells hgap (hends c (by simp [hinside]))
    (inside ++ behind)
  rw [← List.cons_append, ← hinside, List.append_assoc (textOf pieces), List.singleton_append]
    at hopening
  have hend := tagEnd?_textOf hcut behind
  rw [List.cons_append, List.cons_append]
  exact first?_of_opening? hopening hend

/-- A whole opening tag is found where it stands. -/
theorem exists_first?_of_isOpeningTag (h : IsOpeningTag opensValue mode name opening)
    (behind : Text) : ∃ occurrence rest, occurrence.opening = opening ∧
      first? mode name (opening ++ behind) = some ([], occurrence, rest) := by
  obtain ⟨gap, written, pieces, rfl, hgap, hfirm, hspells, hends, hcut⟩ := h
  have hfirst := first?_append_of_isCut hgap hfirm hspells hends hcut behind
  have htext : '<' :: gap ++ written ++ (textOf pieces ++ ['>']) ++ behind =
      '<' :: gap ++ written ++ (textOf pieces ++ '>' :: behind) := by simp
  exact ⟨_, _, opening_ending mode name gap written (textOf pieces) behind, htext ▸ hfirst⟩

end Opening

/-! ## Where a search comes to -/

section Reached

variable {mode : LetterCase} {name source front behind opening : Text}

theorem IsReached.source_eq (h : IsReached mode name source front behind) :
    source = front ++ behind := by
  induction h with
  | start => rfl
  | skip _ _ ih => rw [ih, List.append_assoc, List.singleton_append]
  | behind _ source_eq _ => exact source_eq

theorem ne_nil_of_mem_placedOccurrences {placed : Placed}
    (h : placed ∈ placedOccurrences mode name source) : name ≠ [] := by
  rintro rfl
  simp [placedOccurrences, scan, place] at h

theorem placedOccurrences_eq_place (hne : name ≠ []) : placedOccurrences mode name source =
    place (byteLength []) (occurrencesFrom mode name source) := by
  simp [placedOccurrences, scan, hne, byteLength]

theorem IsReached.name_ne_nil (h : IsReached mode name source front behind) : name ≠ [] := by
  induction h with
  | start name_ne_nil => exact name_ne_nil
  | skip _ _ ih => exact ih
  | behind found _ _ => exact ne_nil_of_mem_placedOccurrences found

theorem IsReached.append {passed : Text} (h : IsReached mode name source front (passed ++ behind))
    (hnone : NoneBegins (IsOpening mode name) passed behind) :
    IsReached mode name source (front ++ passed) behind := by
  induction passed generalizing front with
  | nil => simpa using h
  | cons c passed ih =>
    have hskip := h.skip (hnone [] (c :: passed) rfl (List.cons_ne_nil _ _))
    have hrest := ih hskip hnone.of_cons
    simpa using hrest

/-- A search comes to the opening tag of every occurrence. -/
theorem IsReached.of_first? {passed rest : Text} {occurrence : Occurrence}
    (h : IsReached mode name source front behind)
    (hfirst : first? mode name behind = some (passed, occurrence, rest)) :
    IsReached mode name source (front ++ passed) (occurrence.text ++ rest) := by
  apply IsReached.append _ (noneBegins_of_first? h.name_ne_nil hfirst)
  rw [← List.append_assoc, ← first?_eq hfirst]
  exact h

/-- What is found behind an occurrence is what is found in the text behind it. -/
theorem exists_place_of_mem_place (before source : Text) {placed : Placed}
    (h : placed ∈ place before.byteLength (occurrencesFrom mode name source)) :
    ∃ earlier front behind, before ++ source = front ++ behind ∧
      placed.span.stop = front.byteLength ∧
        place before.byteLength (occurrencesFrom mode name source) =
          earlier ++ place front.byteLength (occurrencesFrom mode name behind) := by
  fun_induction occurrencesFrom mode name source generalizing before with
  | case1 => simp [place] at h
  | case2 source passed occurrence rest hfirst ih =>
    have hsource : before ++ source = before ++ passed ++ occurrence.text ++ rest := by
      rw [first?_eq hfirst]
      simp
    have hstart : before.byteLength + passed.byteLength + occurrence.text.byteLength =
        (before ++ passed ++ occurrence.text).byteLength := by
      rw [byteLength_append, byteLength_append]
    simp only [place, hstart] at h ⊢
    rcases List.mem_cons.1 h with rfl | h
    · exact ⟨[_], before ++ passed ++ occurrence.text, rest, hsource, hstart, rfl⟩
    · obtain ⟨earlier, front, behind, hsplit, hstop, hplace⟩ := ih _ h
      exact ⟨_ :: earlier, front, behind, hsource.trans hsplit, hstop, by rw [hplace]; rfl⟩

theorem append_inj_of_byteLength {front behind other rest : Text}
    (h : front ++ behind = other ++ rest) (hlength : front.byteLength = other.byteLength) :
    front = other ∧ behind = rest := by
  obtain ⟨between, hfront, hrest⟩ := exists_append_of_byteLength_le h hlength.ge
  have hbetween : between = [] := by
    by_contra hne
    have hpos := byteLength_pos_of_ne_nil hne
    rw [hfront, byteLength_append] at hlength
    omega
  rw [hbetween] at hfront hrest
  exact ⟨by simpa using hfront, by simpa using hrest.symm⟩

/-- What is found behind the place that a search comes to is what is found in the text there. -/
theorem IsReached.exists_place (h : IsReached mode name source front behind) :
    ∃ earlier, placedOccurrences mode name source =
      earlier ++ place front.byteLength (occurrencesFrom mode name behind) := by
  induction h with
  | start name_ne_nil => exact ⟨[], placedOccurrences_eq_place name_ne_nil⟩
  | @skip front behind c reached no_opening ih =>
    obtain ⟨earlier, hearlier⟩ := ih
    refine ⟨earlier, hearlier.trans (congrArg (earlier ++ ·) ?_)⟩
    have hopening : c = '<' → opening? mode name behind = none := by
      intro hc
      by_contra hsome
      obtain ⟨⟨gap, written, rest⟩, hread⟩ := Option.ne_none_iff_exists'.1 hsome
      obtain ⟨hgap, hspells, d, inside, rfl, hd⟩ := spelled_of_opening? hread
      apply no_opening _ ⟨gap, written, d, rfl, hgap, hspells, hd⟩
      exact ⟨inside, by rw [hc, opening?_eq hread]; simp⟩
    have hfirst := first?_cons hopening
    cases hrest : first? mode name behind with
    | none =>
      rw [hrest, Option.map_none] at hfirst
      rw [occurrencesFrom_of_first?_eq_none hfirst, occurrencesFrom_of_first?_eq_none hrest]
      rfl
    | some found =>
      rw [hrest, Option.map_some] at hfirst
      rw [occurrencesFrom_of_first?_eq_some hfirst, occurrencesFrom_of_first?_eq_some hrest]
      simp only [place, byteLength_append, byteLength, Nat.add_assoc, Nat.zero_add]
  | @behind front behind placed found source_eq stop =>
    have hne := ne_nil_of_mem_placedOccurrences found
    rw [placedOccurrences_eq_place hne] at found ⊢
    obtain ⟨earlier, other, rest, hsource, hstop, hplace⟩ :=
      exists_place_of_mem_place [] source found
    obtain ⟨rfl, rfl⟩ := append_inj_of_byteLength (source_eq.symm.trans hsource)
      (stop.symm.trans hstop)
    exact ⟨earlier, hplace⟩

theorem IsReached.mem_placedOccurrences (h : IsReached mode name source front behind)
    {placed : Placed}
    (hplaced : placed ∈ place front.byteLength (occurrencesFrom mode name behind)) :
    placed ∈ placedOccurrences mode name source := by
  obtain ⟨earlier, hall⟩ := h.exists_place
  rw [hall]
  exact List.mem_append_right earlier hplaced

/-- A search that comes to a text comes to every opening tag that is found in it. -/
theorem IsReached.of_mem_place (h : IsReached mode name source front behind) {placed : Placed}
    (hplaced : placed ∈ place front.byteLength (occurrencesFrom mode name behind)) :
    ∃ before rest, placed.start = before.byteLength ∧
      IsOpeningTag opensValue mode name placed.occurrence.opening ∧
      IsReached mode name source before (placed.occurrence.opening ++ rest) := by
  fun_induction occurrencesFrom mode name behind generalizing front with
  | case1 => simp [place] at hplaced
  | case2 behind passed occurrence rest hfirst ih =>
    have hreached := h.of_first? hfirst
    simp only [place, ← byteLength_append] at hplaced
    rcases List.mem_cons.1 hplaced with rfl | hplaced
    · obtain ⟨more, htext⟩ := occurrence.exists_text_eq
      rw [htext, List.append_assoc] at hreached
      exact ⟨front ++ passed, more ++ rest, rfl, isOpeningTag_of_first? h.name_ne_nil hfirst,
        hreached⟩
    · have hfound : ⟨(front ++ passed).byteLength, occurrence⟩ ∈
          placedOccurrences mode name source := by
        apply h.mem_placedOccurrences
        rw [occurrencesFrom_of_first?_eq_some hfirst, place, ← byteLength_append]
        exact List.mem_cons_self
      refine ih (.behind hfound ?_ (byteLength_append _ _).symm) hplaced
      rw [hreached.source_eq, List.append_assoc (front ++ passed)]

end Reached

/-! ## What a search reports -/

/-- A search reports exactly the opening tags that it comes to, each up to the first `>` outside
values, and quotes open values behind `=` and behind values. Where no quote stands behind a value,
quotes open values behind `=` alone. -/
theorem reports_iff_isReached (mode : LetterCase) (name source : Text) :
    (∀ front opening behind,
      (source = front ++ (opening ++ behind) ∧ ∃ placed ∈ placedOccurrences mode name source,
        placed.start = front.byteLength ∧ placed.occurrence.opening = opening) ↔
      IsReached mode name source front (opening ++ behind) ∧
        IsOpeningTag opensValue mode name opening) ∧
    ∀ pieces, QuotesApart [] pieces →
      (IsCut opensValue [] pieces ↔ IsCut followsEquals [] pieces) := by
  refine ⟨fun front opening behind ↦ ⟨?_, ?_⟩, fun pieces ↦ isCut_iff_of_quotesApart⟩
  · rintro ⟨hsource, placed, hplaced, hstart, rfl⟩
    have hne := ne_nil_of_mem_placedOccurrences hplaced
    rw [placedOccurrences_eq_place hne] at hplaced
    obtain ⟨before, rest, hbefore, htag, hreached⟩ := (IsReached.start hne).of_mem_place hplaced
    obtain ⟨rfl, hrest⟩ := append_inj_of_byteLength (hsource.symm.trans hreached.source_eq)
      (hstart.symm.trans hbefore)
    rw [hrest]
    exact ⟨hreached, htag⟩
  · rintro ⟨hreached, htag⟩
    obtain ⟨occurrence, rest, hopening, hfirst⟩ := exists_first?_of_isOpeningTag htag behind
    refine ⟨hreached.source_eq, ⟨front.byteLength, occurrence⟩, ?_, rfl, hopening⟩
    apply hreached.mem_placedOccurrences
    rw [occurrencesFrom_of_first?_eq_some hfirst]
    exact List.mem_cons_self

/-- The second quote behind the value opens another value, which no quote closes. If quotes opened
values behind `=` alone, the tag would end in front of `y` and be reported. -/
theorem placedOccurrences_extraQuote :
    IsReached .kept "card".toList "<card a=\"x\"\">y</card>".toList []
        ("<card a=\"x\"\">".toList ++ "y</card>".toList) ∧
      IsOpeningTag followsEquals .kept "card".toList "<card a=\"x\"\">".toList ∧
      placedOccurrences .kept "card".toList "<card a=\"x\"\">y</card>".toList = [] := by
  have hne : "card".toList ≠ [] := by decide
  refine ⟨.start hne, ?_, ?_⟩
  · have hends : ∀ c ∈ some ' ', endsName c = true := by
      rintro c ⟨⟩
      decide
    exact ⟨[], "card".toList, [.char ' ', .char 'a', .char '=',
      .value ⟨'"', ['x'], by decide, by decide⟩, .char '"'], by decide, List.forall_mem_nil _,
      ⟨'c', "ard".toList, by decide, by decide⟩, by decide, hends, by decide⟩
  · have hfirst : first? .kept "card".toList "<card a=\"x\"\">y</card>".toList = none := by
      decide +kernel
    rw [placedOccurrences_eq_place hne, occurrencesFrom_of_first?_eq_none hfirst]
    rfl

end ComponentMarkup.Tag
