import ComponentMarkup.Proofs.Stylesheet.Lexemes
import ComponentMarkup.Proofs.Text.Solid

/-!
# White space between lexemes

White space is trimmed and collapsed in texts. In a text made of whole lexemes this is the same as
trimming the list of lexemes and collapsing it: the white space inside strings is collapsed as well,
but each string stays one string, and no string begins or ends with white space.

Collapsing takes no run of white space away altogether, so it brings no slash before a star.
-/

namespace ComponentMarkup

namespace Text

@[simp] theorem isBlank_space : isBlank ' ' = true := rfl

theorem isBlank_of_isLayout {c : Char} (h : isLayout c = true) : isBlank c = true :=
  isBlank_of_isMarkupSpace (isMarkupSpace_of_isLayout h)

theorem isBlank_of_isAlphanum {c : Char} (h : c.isAlphanum = true) : isBlank c = false := by
  simp only [Char.isAlphanum, Bool.or_eq_true, isAlpha_iff, Char.isDigit_iff_toNat,
    Char.reduceToNat] at h
  simp only [isBlank, Bool.or_eq_false_iff, Bool.and_eq_false_iff, decide_eq_false_iff_not]
  omega

/-- Whether a run of white space goes on behind a text. -/
def endsInRun (inRun : Bool) (text : Text) : Bool := (text.getLast?.map isBlank).getD inRun

theorem collapseRuns_append (inRun : Bool) (s t : Text) :
    collapseRuns inRun (s ++ t) = collapseRuns inRun s ++ collapseRuns (endsInRun inRun s) t := by
  induction s generalizing inRun with
  | nil => rfl
  | cons c s ih =>
    have hends : endsInRun inRun (c :: s) = endsInRun (isBlank c) s := by
      cases s <;> simp [endsInRun, List.getLast?_cons]
    rw [hends]
    by_cases hc : isBlank c = true
    · by_cases hrun : inRun = true <;> simp [collapseRuns, hc, hrun, ih]
    · have hc : isBlank c = false := by simpa using hc
      simp [collapseRuns, hc, ih]

theorem collapseRuns_cons_of_not_blank {c : Char} (h : isBlank c = false) (inRun : Bool)
    (rest : Text) : collapseRuns inRun (c :: rest) = c :: collapseRuns false rest := by
  simp [collapseRuns, h]

end Text

namespace Stylesheet

open Text

theorem isBlank_of_isQuote {c : Char} (h : isQuote c = true) : Text.isBlank c = false := by
  rcases isQuote_iff.1 h with rfl | rfl <;> rfl

/-- White space outside strings. -/
def Lexeme.isBlank : Lexeme → Bool
  | quoted _ => false
  | plain c => Text.isBlank c

/-- No white space at either end. -/
structure IsTight (input : List Lexeme) : Prop where
  head : ∀ lexeme ∈ input.head?, lexeme.isBlank = false
  last : ∀ lexeme ∈ input.getLast?, lexeme.isBlank = false

/-- Leaves out white space at both ends. -/
def trimLexemes (input : List Lexeme) : List Lexeme :=
  (input.dropWhile Lexeme.isBlank).rdropWhile Lexeme.isBlank

/-! ## Trimming -/

section Trimming

variable {input : List Lexeme}

theorem isTight_nil : IsTight [] := ⟨by simp, by simp⟩

theorem trimLexemes_isInfix (input : List Lexeme) : trimLexemes input <:+: input :=
  (List.rdropWhile_prefix _ _).isInfix.trans (List.dropWhile_suffix _).isInfix

theorem isTight_trimLexemes (input : List Lexeme) : IsTight (trimLexemes input) := by
  let rest := input.dropWhile Lexeme.isBlank
  have hprefix : trimLexemes input <+: rest := List.rdropWhile_prefix _ _
  constructor
  · intro lexeme hlexeme
    obtain ⟨tail, htail⟩ := List.head?_eq_some_iff.1 (Option.mem_def.1 hlexeme)
    have hhead : rest.head? = some lexeme := by
      rw [htail] at hprefix
      obtain ⟨more, hmore⟩ := hprefix
      rw [← hmore]
      rfl
    have hnot := List.head?_dropWhile_not Lexeme.isBlank input
    simpa [rest, hhead] using hnot
  · intro lexeme hlexeme
    have hne : trimLexemes input ≠ [] := by
      intro hnil
      simp [hnil] at hlexeme
    have hlast : ¬ ((trimLexemes input).getLast hne).isBlank = true :=
      List.rdropWhile_last_not Lexeme.isBlank rest hne
    rw [Option.mem_def, List.getLast?_eq_some_getLast hne, Option.some.injEq] at hlexeme
    simpa [← hlexeme] using hlast

/-- What trimming leaves out at the two ends. -/
theorem exists_blanks_trimLexemes (input : List Lexeme) :
    ∃ front back, (∀ lexeme ∈ front, lexeme.isBlank = true) ∧
      (∀ lexeme ∈ back, lexeme.isBlank = true) ∧ input = front ++ trimLexemes input ++ back := by
  let rest := input.dropWhile Lexeme.isBlank
  refine ⟨input.takeWhile Lexeme.isBlank, rest.rtakeWhile Lexeme.isBlank, ?_, ?_, ?_⟩
  · exact fun lexeme hlexeme ↦ List.mem_takeWhile_imp hlexeme
  · exact fun lexeme hlexeme ↦ List.mem_rtakeWhile_imp hlexeme
  · calc
      input = input.takeWhile Lexeme.isBlank ++ rest := List.takeWhile_append_dropWhile.symm
      _ = input.takeWhile Lexeme.isBlank ++
          (rest.rdropWhile Lexeme.isBlank ++ rest.rtakeWhile Lexeme.isBlank) := by
        rw [List.rdropWhile_append_rtakeWhile]
      _ = input.takeWhile Lexeme.isBlank ++ trimLexemes input ++
          rest.rtakeWhile Lexeme.isBlank := by rw [List.append_assoc, trimLexemes]

theorem IsTight.trimLexemes_eq (h : IsTight input) : trimLexemes input = input := by
  have hdrop : input.dropWhile Lexeme.isBlank = input := by
    cases input with
    | nil => rfl
    | cons lexeme rest => simp [h.head lexeme rfl]
  rw [trimLexemes, hdrop, List.rdropWhile_eq_self_iff]
  intro hne
  simp [h.last _ (List.getLast?_eq_some_getLast hne)]

/-- White space behind the last lexeme is left out. -/
theorem IsTight.trimLexemes_append (h : IsTight input) {blanks : List Lexeme}
    (hblanks : ∀ lexeme ∈ blanks, lexeme.isBlank = true) :
    trimLexemes (input ++ blanks) = input := by
  cases input with
  | nil => simp [trimLexemes, List.dropWhile_eq_nil_iff.2 hblanks]
  | cons lexeme rest =>
    have hfirst : lexeme.isBlank = false := h.head lexeme rfl
    have hback : (lexeme :: rest ++ blanks).rdropWhile Lexeme.isBlank =
        (lexeme :: rest).rdropWhile Lexeme.isBlank := by
      rw [List.rdropWhile, List.reverse_append,
        List.dropWhile_append_of_pos (by simpa using hblanks), List.rdropWhile]
    calc
      trimLexemes (lexeme :: rest ++ blanks) =
          (lexeme :: rest ++ blanks).rdropWhile Lexeme.isBlank := by simp [trimLexemes, hfirst]
      _ = trimLexemes (lexeme :: rest) := by rw [hback, trimLexemes]; simp [hfirst]
      _ = lexeme :: rest := h.trimLexemes_eq

theorem textOf_dropWhile (h : ∀ lexeme ∈ input, lexeme.IsWhole) :
    (textOf input).dropWhile Text.isBlank = textOf (input.dropWhile Lexeme.isBlank) := by
  induction input with
  | nil => rfl
  | cons lexeme rest ih =>
    obtain ⟨hlexeme, hrest⟩ := List.forall_mem_cons.1 h
    cases lexeme with
    | quoted string =>
      obtain ⟨quote, tail, hquote, rfl, _⟩ : IsString string := hlexeme
      simp [Lexeme.text, Lexeme.isBlank, isBlank_of_isQuote hquote]
    | plain c =>
      by_cases hc : Text.isBlank c = true
      · simp [Lexeme.text, Lexeme.isBlank, hc, ih hrest]
      · simp [Lexeme.text, Lexeme.isBlank, hc]

theorem textOf_rdropWhile (h : ∀ lexeme ∈ input, lexeme.IsWhole) :
    (textOf input).rdropWhile Text.isBlank = textOf (input.rdropWhile Lexeme.isBlank) := by
  induction input using List.reverseRecOn with
  | nil => rfl
  | append_singleton rest lexeme ih =>
    have hrest := ih fun l hl ↦ h l (by simp [hl])
    have hlexeme := h lexeme (by simp)
    rw [textOf_append, textOf_cons, textOf_nil, List.append_nil]
    cases lexeme with
    | quoted string =>
      obtain ⟨quote, tail, hquote, rfl, htail⟩ : IsString string := hlexeme
      obtain ⟨inside, rfl⟩ := List.getLast?_eq_some_iff.1 htail.getLast?_eq
      have hkept : (textOf rest ++ quote :: (inside ++ [quote])).rdropWhile Text.isBlank =
          textOf rest ++ quote :: (inside ++ [quote]) := by
        rw [← List.cons_append, ← List.append_assoc]
        exact List.rdropWhile_concat_neg _ _ _ (by simp [isBlank_of_isQuote hquote])
      rw [Lexeme.text, hkept, List.rdropWhile_concat_neg _ _ _ (by simp [Lexeme.isBlank])]
      simp [Lexeme.text]
    | plain c =>
      by_cases hc : Text.isBlank c = true
      · have hplain : (Lexeme.plain c).isBlank = true := hc
        rw [Lexeme.text, List.rdropWhile_concat_pos _ _ _ hc, hrest,
          List.rdropWhile_concat_pos _ _ _ hplain]
      · have hplain : ¬ (Lexeme.plain c).isBlank = true := hc
        rw [Lexeme.text, List.rdropWhile_concat_neg _ _ _ hc,
          List.rdropWhile_concat_neg _ _ _ hplain]
        simp [Lexeme.text]

/-- A text is trimmed where its lexemes are. -/
theorem trim_textOf (h : ∀ lexeme ∈ input, lexeme.IsWhole) :
    trim (textOf input) = textOf (trimLexemes input) := by
  have hrest : ∀ lexeme ∈ input.dropWhile Lexeme.isBlank, lexeme.IsWhole :=
    fun lexeme hlexeme ↦ h lexeme ((List.dropWhile_suffix _).subset hlexeme)
  calc
    trim (textOf input) = ((textOf input).dropWhile Text.isBlank).rdropWhile Text.isBlank := rfl
    _ = (textOf (input.dropWhile Lexeme.isBlank)).rdropWhile Text.isBlank := by
      rw [textOf_dropWhile h]
    _ = textOf (trimLexemes input) := textOf_rdropWhile hrest

end Trimming

/-! ## Collapsing -/

/-- One space for each run of white space; inside strings as well. -/
def collapseLexemes : (inRun : Bool) → List Lexeme → List Lexeme
  | _, [] => []
  | _, .quoted text :: rest => .quoted (collapseRuns false text) :: collapseLexemes false rest
  | inRun, .plain c :: rest =>
    if Text.isBlank c then
      if inRun then collapseLexemes true rest else .plain ' ' :: collapseLexemes true rest
    else .plain c :: collapseLexemes false rest

section Collapsing

variable {input : List Lexeme}

theorem IsTail.collapseRuns {quote : Char} (hquote : isQuote quote = true) {tail : Text}
    (h : IsTail quote tail) (inRun : Bool) : IsTail quote (collapseRuns inRun tail) := by
  have hspace : ' ' ≠ quote := by
    rintro rfl
    simp [isQuote] at hquote
  induction h generalizing inRun with
  | close =>
    rw [collapseRuns_cons_of_not_blank (isBlank_of_isQuote hquote)]
    exact .close
  | escape c _ ih =>
    rw [collapseRuns_cons_of_not_blank rfl]
    by_cases hc : Text.isBlank c = true
    · simpa [Text.collapseRuns, hc] using IsTail.escape ' ' (ih true)
    · simpa [Text.collapseRuns, hc] using IsTail.escape c (ih false)
  | @plain c text hc hback _ ih =>
    by_cases hblank : Text.isBlank c = true
    · by_cases hrun : inRun = true
      · simpa [Text.collapseRuns, hblank, hrun] using ih true
      · simpa [Text.collapseRuns, hblank, hrun] using
          IsTail.plain hspace (by decide) (ih true)
    · simpa [Text.collapseRuns, hblank] using IsTail.plain hc hback (ih false)

theorem IsString.collapseRuns {text : Text} (h : IsString text) (inRun : Bool) :
    IsString (collapseRuns inRun text) := by
  obtain ⟨quote, tail, hquote, rfl, htail⟩ := h
  refine ⟨quote, Text.collapseRuns false tail, hquote, ?_, htail.collapseRuns hquote false⟩
  exact collapseRuns_cons_of_not_blank (isBlank_of_isQuote hquote) inRun tail

/-- A string stands for itself in front of and behind white space. -/
theorem IsString.collapseRuns_append {text : Text} (h : IsString text) (inRun : Bool)
    (rest : Text) :
    Text.collapseRuns inRun (text ++ rest) =
      Text.collapseRuns false text ++ Text.collapseRuns false rest := by
  obtain ⟨quote, tail, hquote, rfl, htail⟩ := h
  have hblank := isBlank_of_isQuote hquote
  have hends : endsInRun inRun (quote :: tail) = false := by
    simp [endsInRun, List.getLast?_cons, htail.getLast?_eq, hblank]
  rw [Text.collapseRuns_append, hends, collapseRuns_cons_of_not_blank hblank,
    collapseRuns_cons_of_not_blank hblank]

/-- A text is collapsed where its lexemes are. -/
theorem textOf_collapseLexemes (h : ∀ lexeme ∈ input, lexeme.IsWhole) (inRun : Bool) :
    textOf (collapseLexemes inRun input) = collapseRuns inRun (textOf input) := by
  induction input generalizing inRun with
  | nil => rfl
  | cons lexeme rest ih =>
    obtain ⟨hlexeme, hrest⟩ := List.forall_mem_cons.1 h
    rw [textOf_cons]
    cases lexeme with
    | quoted string =>
      rw [Lexeme.text, IsString.collapseRuns_append hlexeme, collapseLexemes, textOf_cons,
        ih hrest, Lexeme.text]
    | plain c =>
      by_cases hc : Text.isBlank c = true
      · by_cases hrun : inRun = true <;>
          simp [collapseLexemes, collapseRuns, Lexeme.text, hc, hrun, ih hrest]
      · simp [collapseLexemes, collapseRuns, Lexeme.text, hc, ih hrest]

theorem isWhole_of_mem_collapseLexemes (h : ∀ lexeme ∈ input, lexeme.IsWhole) {inRun : Bool}
    {lexeme : Lexeme} (hlexeme : lexeme ∈ collapseLexemes inRun input) : lexeme.IsWhole := by
  induction input generalizing inRun with
  | nil => simp [collapseLexemes] at hlexeme
  | cons first rest ih =>
    obtain ⟨hfirst, hrest⟩ := List.forall_mem_cons.1 h
    cases first with
    | quoted string =>
      rcases List.mem_cons.1 hlexeme with rfl | hlexeme
      · exact IsString.collapseRuns hfirst false
      · exact ih hrest hlexeme
    | plain c =>
      simp only [collapseLexemes] at hlexeme
      split_ifs at hlexeme
      · exact ih hrest hlexeme
      · rcases List.mem_cons.1 hlexeme with rfl | hlexeme
        · rfl
        · exact ih hrest hlexeme
      · rcases List.mem_cons.1 hlexeme with rfl | hlexeme
        · exact hfirst
        · exact ih hrest hlexeme

theorem isLayout_of_mem_collapseLexemes {inRun : Bool} {c : Char}
    (h : .plain c ∈ collapseLexemes inRun input) (hc : Text.isBlank c = true) :
    isLayout c = true := by
  induction input generalizing inRun with
  | nil => simp [collapseLexemes] at h
  | cons first rest ih =>
    cases first with
    | quoted string => exact ih (by simpa [collapseLexemes] using h)
    | plain d =>
      simp only [collapseLexemes] at h
      split_ifs at h with hd
      · exact ih h
      · rcases List.mem_cons.1 h with heq | h
        · rw [Lexeme.plain.inj heq]
          rfl
        · exact ih h
      · rcases List.mem_cons.1 h with heq | h
        · rw [Lexeme.plain.inj heq] at hc
          exact absurd hc hd
        · exact ih h

/-- A lexeme with the white space in its string collapsed. -/
def Lexeme.collapse : Lexeme → Lexeme
  | quoted text => quoted (collapseRuns false text)
  | plain c => plain c

theorem collapseLexemes_cons {lexeme : Lexeme} (h : lexeme.isBlank = false) (inRun : Bool)
    (rest : List Lexeme) :
    collapseLexemes inRun (lexeme :: rest) = lexeme.collapse :: collapseLexemes false rest := by
  cases lexeme with
  | quoted text => rfl
  | plain c =>
    have hc : Text.isBlank c = false := h
    simp [collapseLexemes, hc, Lexeme.collapse]

/-- Whether a run of white space goes on behind lexemes. -/
def endsBlank (inRun : Bool) (input : List Lexeme) : Bool :=
  (input.getLast?.map Lexeme.isBlank).getD inRun

theorem collapseLexemes_append (inRun : Bool) (a b : List Lexeme) :
    collapseLexemes inRun (a ++ b) =
      collapseLexemes inRun a ++ collapseLexemes (endsBlank inRun a) b := by
  induction a generalizing inRun with
  | nil => rfl
  | cons lexeme a ih =>
    have hends : endsBlank inRun (lexeme :: a) = endsBlank lexeme.isBlank a := by
      cases a <;> simp [endsBlank, List.getLast?_cons]
    rw [hends]
    cases lexeme with
    | quoted text => simp [collapseLexemes, Lexeme.isBlank, ih]
    | plain c =>
      by_cases hc : Text.isBlank c = true
      · by_cases hrun : inRun = true <;> simp [collapseLexemes, Lexeme.isBlank, hc, hrun, ih]
      · have hc : Text.isBlank c = false := by simpa using hc
        simp [collapseLexemes, Lexeme.isBlank, hc, ih]

/-- A run that goes on does not matter in front of what is no white space. -/
theorem collapseLexemes_of_head (h : ∀ lexeme ∈ input.head?, lexeme.isBlank = false)
    (inRun : Bool) : collapseLexemes inRun input = collapseLexemes false input := by
  cases input with
  | nil => rfl
  | cons lexeme rest =>
    have hlexeme := h lexeme rfl
    rw [collapseLexemes_cons hlexeme, collapseLexemes_cons hlexeme]

theorem isBlank_collapse (lexeme : Lexeme) : lexeme.collapse.isBlank = lexeme.isBlank := by
  cases lexeme <;> rfl

theorem head?_collapseLexemes_of_head (h : ∀ lexeme ∈ input.head?, lexeme.isBlank = false)
    (inRun : Bool) : (collapseLexemes inRun input).head? = input.head?.map Lexeme.collapse := by
  cases input with
  | nil => rfl
  | cons lexeme rest =>
    rw [collapseLexemes_cons (h lexeme rfl)]
    rfl

theorem getLast?_collapseLexemes (h : ∀ lexeme ∈ input.getLast?, lexeme.isBlank = false)
    (inRun : Bool) :
    (collapseLexemes inRun input).getLast? = input.getLast?.map Lexeme.collapse := by
  rcases List.eq_nil_or_concat input with rfl | ⟨before, last, rfl⟩
  · rfl
  · rw [List.concat_eq_append] at h ⊢
    have hlast : last.isBlank = false := h last (by simp)
    rw [collapseLexemes_append, collapseLexemes_cons hlast]
    simp [collapseLexemes]

theorem IsTight.collapseLexemes (h : IsTight input) (inRun : Bool) :
    IsTight (collapseLexemes inRun input) := by
  constructor
  · intro lexeme hlexeme
    rw [head?_collapseLexemes_of_head h.head] at hlexeme
    obtain ⟨first, hfirst, rfl⟩ := Option.map_eq_some_iff.1 hlexeme
    rw [isBlank_collapse, h.head first hfirst]
  · intro lexeme hlexeme
    rw [getLast?_collapseLexemes h.last] at hlexeme
    obtain ⟨last, hlast, rfl⟩ := Option.map_eq_some_iff.1 hlexeme
    rw [isBlank_collapse, h.last last hlast]

theorem isBlank_of_mem_collapseLexemes (h : ∀ lexeme ∈ input, lexeme.isBlank = true)
    (inRun : Bool) : ∀ lexeme ∈ collapseLexemes inRun input, lexeme.isBlank = true := by
  induction input generalizing inRun with
  | nil => simp [collapseLexemes]
  | cons first rest ih =>
    obtain ⟨hfirst, hrest⟩ := List.forall_mem_cons.1 h
    cases first with
    | quoted text => simp [Lexeme.isBlank] at hfirst
    | plain c =>
      have hc : Text.isBlank c = true := hfirst
      cases inRun with
      | true => simpa [collapseLexemes, hc] using ih hrest true
      | false =>
        simp only [collapseLexemes, hc, if_true, Bool.false_eq_true, if_false]
        exact List.forall_mem_cons.2 ⟨rfl, ih hrest true⟩

/-- White space at the ends can be trimmed before or after it is collapsed. -/
theorem trimLexemes_collapseLexemes (inRun : Bool) (input : List Lexeme) :
    trimLexemes (collapseLexemes inRun input) = collapseLexemes false (trimLexemes input) := by
  obtain ⟨front, back, hfront, hback, heq⟩ := exists_blanks_trimLexemes input
  have htight := (isTight_trimLexemes input).collapseLexemes false
  have hdrop {blanks : List Lexeme} (hblanks : ∀ lexeme ∈ blanks, lexeme.isBlank = true)
      (rest : List Lexeme) : trimLexemes (blanks ++ rest) = trimLexemes rest := by
    rw [trimLexemes, List.dropWhile_append_of_pos hblanks, trimLexemes]
  calc
    trimLexemes (collapseLexemes inRun input) =
        trimLexemes (collapseLexemes inRun (front ++ trimLexemes input ++ back)) := by rw [← heq]
    _ = trimLexemes (collapseLexemes false (trimLexemes input) ++
        collapseLexemes (endsBlank inRun (front ++ trimLexemes input)) back) := by
      rw [collapseLexemes_append, collapseLexemes_append inRun front, List.append_assoc,
        hdrop (isBlank_of_mem_collapseLexemes hfront inRun),
        collapseLexemes_of_head (isTight_trimLexemes input).head]
    _ = collapseLexemes false (trimLexemes input) :=
      htight.trimLexemes_append (isBlank_of_mem_collapseLexemes hback _)

theorem head?_collapseLexemes {c : Char} (hc : Text.isBlank c = false)
    (h : (collapseLexemes false input).head? = some (.plain c)) :
    input.head? = some (.plain c) := by
  cases input with
  | nil => simp [collapseLexemes] at h
  | cons first rest =>
    cases first with
    | quoted text => simp [collapseLexemes] at h
    | plain d =>
      by_cases hd : Text.isBlank d = true
      · simp only [collapseLexemes, hd, if_true, Bool.false_eq_true, if_false, List.head?_cons,
          Option.some.injEq, Lexeme.plain.injEq] at h
        rw [← h] at hc
        exact absurd hc (by decide)
      · simpa [collapseLexemes, hd] using h

theorem HasNoComment.collapseLexemes (h : HasNoComment input) (inRun : Bool) :
    HasNoComment (collapseLexemes inRun input) := by
  induction input generalizing inRun with
  | nil => exact .nil
  | cons first rest ih =>
    obtain ⟨hapart, hrest⟩ := List.isChain_cons.1 h
    cases first with
    | quoted text =>
      exact List.isChain_cons.2 ⟨fun lexeme _ ↦ apart_quoted _ lexeme, ih hrest false⟩
    | plain c =>
      by_cases hc : Text.isBlank c = true
      · by_cases hrun : inRun = true
        · simpa [Stylesheet.collapseLexemes, hc, hrun] using ih hrest true
        · simp only [Stylesheet.collapseLexemes, hc, hrun, if_true]
          exact List.isChain_cons.2 ⟨fun lexeme _ ↦ apart_plain (by decide) lexeme, ih hrest true⟩
      · simp only [Stylesheet.collapseLexemes, hc]
        refine List.isChain_cons.2 ⟨?_, ih hrest false⟩
        intro lexeme hhead hslash hstar
        rw [hstar] at hhead
        exact hapart _ (head?_collapseLexemes rfl hhead) hslash rfl

end Collapsing

end Stylesheet

end ComponentMarkup
