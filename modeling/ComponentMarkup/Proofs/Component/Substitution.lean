import ComponentMarkup.Component.Input
import Mathlib.Algebra.Order.BigOperators.Group.List
import Mathlib.Algebra.Order.Ring.Nat
import Mathlib.Data.List.Sort

/-!
# Replacing texts

Replacing one text by another copies everything up to the first character that it begins with, and
puts the new text in where it stands. The outputs of children are put in one after the other, the
longest texts first: their order is an insertion sort, and texts of one length stay in the order in
which they came. Where those of one length can be replaced in any order, the order in which all of
them came makes no difference.
-/

namespace ComponentMarkup

namespace Text

variable {old new : Text}

@[simp] theorem replaceFrom_nil (skip : Nat) : replaceFrom old new skip [] = [] := by
  cases skip <;> rfl

theorem replaceFrom_length_append (old new s t : Text) :
    replaceFrom old new s.length (s ++ t) = replaceFrom old new 0 t := by
  induction s with
  | nil => rfl
  | cons c s ih => exact ih

/-- The text itself is replaced. -/
theorem replaceFrom_self_append (hold : old ≠ []) (t : Text) :
    replaceFrom old new 0 (old ++ t) = new ++ replaceFrom old new 0 t := by
  obtain ⟨c, tail, rfl⟩ := List.exists_cons_of_ne_nil hold
  have hbegins : (c :: tail).isPrefixOf (c :: (tail ++ t)) = true :=
    List.isPrefixOf_iff_prefix.2 ⟨t, rfl⟩
  rw [List.cons_append, replaceFrom, if_pos hbegins, List.length_cons, Nat.add_sub_cancel,
    replaceFrom_length_append]

/-- A character that the text does not begin at is copied. -/
theorem replaceFrom_cons (new : Text) {c : Char} {t : Text} (h : ¬old <+: c :: t) :
    replaceFrom old new 0 (c :: t) = c :: replaceFrom old new 0 t := by
  rw [replaceFrom, if_neg]
  rwa [List.isPrefixOf_iff_prefix]

/-- What does not hold the first character of the text is copied. -/
theorem replaceFrom_append {c : Char} {s : Text} (h : c ∉ s) (t : Text) :
    replaceFrom (c :: old) new 0 (s ++ t) = s ++ replaceFrom (c :: old) new 0 t := by
  induction s with
  | nil => rfl
  | cons d s ih =>
    rw [List.mem_cons, not_or] at h
    have hbegins : ¬c :: old <+: d :: (s ++ t) := by
      intro hbegins
      exact h.1 (List.cons_prefix_cons.1 hbegins).1
    rw [List.cons_append, replaceFrom_cons new hbegins, ih h.2]
    rfl

end Text

namespace Component

/-- The text of the first replacement is not the shorter one. -/
def NotShorter (a b : Text × Text) : Prop := b.1.byteLength ≤ a.1.byteLength

instance : DecidableRel NotShorter := fun _ _ ↦ inferInstanceAs (Decidable (_ ≤ _))

instance : Std.Total NotShorter := ⟨fun _ _ ↦ Nat.le_total _ _⟩

instance : IsTrans (Text × Text) NotShorter := ⟨fun _ _ _ hab hbc ↦ Nat.le_trans hbc hab⟩

theorem insertByLength_eq (pair : Text × Text) (replacements : List (Text × Text)) :
    insertByLength pair replacements = replacements.orderedInsert NotShorter pair := by
  induction replacements with
  | nil => rfl
  | cons other rest ih => rw [insertByLength, List.orderedInsert_cons, ih]; rfl

/-- The longest texts come first by an insertion sort. -/
theorem longestFirst_eq (replacements : List (Text × Text)) :
    longestFirst replacements = replacements.insertionSort NotShorter := by
  induction replacements with
  | nil => rfl
  | cons pair rest ih =>
    rw [List.insertionSort_cons, ← ih]
    exact insertByLength_eq pair _

theorem perm_longestFirst (replacements : List (Text × Text)) :
    (longestFirst replacements).Perm replacements := by
  rw [longestFirst_eq]
  exact List.perm_insertionSort NotShorter replacements

theorem pairwise_longestFirst (replacements : List (Text × Text)) :
    (longestFirst replacements).Pairwise NotShorter := by
  rw [longestFirst_eq]
  exact List.pairwise_insertionSort NotShorter replacements

/-- A text that is replaced as a whole. -/
theorem substitute_self {page : Text} (hpage : page ≠ []) (output : Text) :
    substitute page [(page, output)] = output := by
  have hall : Text.replaceFrom page output 0 (page ++ []) =
      output ++ Text.replaceFrom page output 0 [] :=
    Text.replaceFrom_self_append hpage []
  rw [List.append_nil, Text.replaceFrom_nil, List.append_nil] at hall
  have hempty : page.isEmpty = false := by simpa using hpage
  show Text.replaceAll page output page = output
  rw [Text.replaceAll, hempty]
  exact hall

/-! ## Texts of one length -/

/-- Texts of one length stay in order. -/
theorem filter_longestFirst (size : Nat) (replacements : List (Text × Text)) :
    (longestFirst replacements).filter (fun pair ↦ pair.1.byteLength = size) =
      replacements.filter fun pair ↦ pair.1.byteLength = size := by
  have hinsert (pair : Text × Text) (sorted : List (Text × Text)) :
      (insertByLength pair sorted).filter (fun pair ↦ pair.1.byteLength = size) =
        (pair :: sorted).filter fun pair ↦ pair.1.byteLength = size := by
    induction sorted with
    | nil => rfl
    | cons other rest ih =>
      rw [insertByLength]
      split
      · rfl
      · rename_i hlonger
        by_cases hother : other.1.byteLength = size
        · have hpair : pair.1.byteLength ≠ size := by omega
          simp_all
        · simp_all [List.filter_cons]
  induction replacements with
  | nil => rfl
  | cons pair rest ih =>
    calc
      _ = (insertByLength pair (longestFirst rest)).filter fun pair ↦ pair.1.byteLength = size := rfl
      _ = _ := by rw [hinsert, List.filter_cons, List.filter_cons, ih]

/-- Among texts that stand the longest first, those of a length come behind all longer ones. -/
theorem filter_le_eq_append {sorted : List (Text × Text)} (h : sorted.Pairwise NotShorter)
    (size : Nat) :
    sorted.filter (fun pair ↦ size ≤ pair.1.byteLength) =
      sorted.filter (fun pair ↦ size < pair.1.byteLength) ++
        sorted.filter fun pair ↦ pair.1.byteLength = size := by
  induction sorted with
  | nil => rfl
  | cons pair rest ih =>
    obtain ⟨hpair, hrest⟩ := List.pairwise_cons.1 h
    rcases lt_trichotomy size pair.1.byteLength with hlt | heq | hgt
    · simp [hlt, hlt.le, hlt.ne', ih hrest]
    · have hnone : rest.filter (fun pair ↦ size < pair.1.byteLength) = [] := by
        rw [List.filter_eq_nil_iff]
        intro other hother
        have := hpair other hother
        simp only [NotShorter] at this
        simp [heq, this]
      simp [← heq, ih hrest, hnone]
    · simp [hgt.not_ge, hgt.not_gt, hgt.ne, ih hrest]

/-- Puts one output in the place of its tag. -/
def replacing (page : Text) (pair : Text × Text) : Text := Text.replaceAll pair.1 pair.2 page

/-- What a page may be while the texts of one size are replaced, in whatever order: all longer ones
have been replaced before. -/
inductive Reached (replacements : List (Text × Text)) (page : Text) (size : Nat) : Text → Prop
  | longer : Reached replacements page size
      (((longestFirst replacements).filter fun pair ↦ size < pair.1.byteLength).foldl replacing page)
  | replacing {text : Text} {pair : Text × Text} (h : Reached replacements page size text)
      (hpair : pair ∈ replacements) (hsize : pair.1.byteLength = size) :
      Reached replacements page size (replacing text pair)

section Swaps

variable {α β : Type} {f : β → α → β} {P : β → Prop}

/-- A property that each step keeps is kept by all of them. -/
theorem foldl_keeps {steps : List α} (hkeep : ∀ a ∈ steps, ∀ z, P z → P (f z a)) {z : β}
    (hz : P z) : P (steps.foldl f z) := by
  induction steps generalizing z with
  | nil => exact hz
  | cons a rest ih =>
    exact ih (fun b hb ↦ hkeep b (List.mem_cons_of_mem _ hb)) (hkeep a List.mem_cons_self z hz)

/-- A step can be made before others that it can be swapped with. -/
theorem foldl_step {steps : List α} {a : α} (hkeep : ∀ b ∈ steps, ∀ z, P z → P (f z b))
    (hswap : ∀ b ∈ steps, ∀ z, P z → f (f z b) a = f (f z a) b) {z : β} (hz : P z) :
    f (steps.foldl f z) a = steps.foldl f (f z a) := by
  induction steps generalizing z with
  | nil => rfl
  | cons b rest ih =>
    rw [List.foldl_cons, List.foldl_cons, ← hswap b List.mem_cons_self z hz]
    exact ih (fun c hc ↦ hkeep c (List.mem_cons_of_mem _ hc))
      (fun c hc ↦ hswap c (List.mem_cons_of_mem _ hc)) (hkeep b List.mem_cons_self z hz)

/-- Two groups of steps can be swapped if the steps of one can be swapped with those of the other. -/
theorem foldl_foldl_comm {steps others : List α} (hsteps : ∀ a ∈ steps, ∀ z, P z → P (f z a))
    (hothers : ∀ b ∈ others, ∀ z, P z → P (f z b))
    (hswap : ∀ a ∈ steps, ∀ b ∈ others, ∀ z, P z → f (f z a) b = f (f z b) a) {z : β} (hz : P z) :
    others.foldl f (steps.foldl f z) = steps.foldl f (others.foldl f z) := by
  induction others generalizing z with
  | nil => rfl
  | cons b rest ih =>
    have hb := hothers b List.mem_cons_self
    rw [List.foldl_cons, List.foldl_cons,
      foldl_step hsteps (fun a ha ↦ hswap a ha b List.mem_cons_self) hz]
    exact ih (fun c hc ↦ hothers c (List.mem_cons_of_mem _ hc))
      (fun a ha c hc ↦ hswap a ha c (List.mem_cons_of_mem _ hc)) (hb z hz)

/-- Steps that can be swapped can be made in any order. -/
theorem foldl_eq_of_perm {steps others : List α} (h : steps.Perm others)
    (hkeep : ∀ a ∈ steps, ∀ z, P z → P (f z a))
    (hswap : ∀ a ∈ steps, ∀ b ∈ steps, a ≠ b → ∀ z, P z → f (f z a) b = f (f z b) a) {z : β}
    (hz : P z) : steps.foldl f z = others.foldl f z := by
  induction h generalizing z with
  | nil => rfl
  | cons a _ ih =>
    exact ih (fun b hb ↦ hkeep b (List.mem_cons_of_mem _ hb))
      (fun b hb c hc ↦ hswap b (List.mem_cons_of_mem _ hb) c (List.mem_cons_of_mem _ hc))
      (hkeep a List.mem_cons_self z hz)
  | swap a b rest =>
    rw [List.foldl_cons, List.foldl_cons, List.foldl_cons, List.foldl_cons]
    by_cases hab : a = b
    · rw [hab]
    · rw [hswap b List.mem_cons_self a (List.mem_cons_of_mem _ List.mem_cons_self) (Ne.symm hab) z
        hz]
  | trans hfirst _ ihFirst ihSecond =>
    rw [ihFirst hkeep hswap hz]
    exact ihSecond (fun a ha ↦ hkeep a (hfirst.mem_iff.2 ha))
      (fun a ha b hb ↦ hswap a (hfirst.mem_iff.2 ha) b (hfirst.mem_iff.2 hb)) hz

end Swaps

/-! ## Groups of replacements in another order -/

section Groups

variable {γ : Type} {group : γ → List (Text × Text)} {cs ds : List γ} {page : Text}

/-- Replacements of different groups whose texts have one length can be swapped where they are
made. -/
def CanSwap (group : γ → List (Text × Text)) (cs : List γ) (page : Text) : Prop :=
  ∀ c ∈ cs, ∀ d ∈ cs, c ≠ d → ∀ p ∈ group c, ∀ q ∈ group d,
    p.1.byteLength = q.1.byteLength →
      ∀ text, Reached (cs.flatMap group) page p.1.byteLength text →
        replacing (replacing text p) q = replacing (replacing text q) p

/-- Texts that no replacement leads out of, and in which replacements of different groups whose
texts have one length can be swapped. -/
structure SwapsAmong (texts : List Text) (group : γ → List (Text × Text)) (cs : List γ)
    (page : Text) : Prop where
  longer : ∀ pair ∈ cs.flatMap group,
    ((longestFirst (cs.flatMap group)).filter fun other ↦
      pair.1.byteLength < other.1.byteLength).foldl replacing page ∈ texts
  closed : ∀ text ∈ texts, ∀ pair ∈ cs.flatMap group, replacing text pair ∈ texts
  swap : ∀ c ∈ cs, ∀ d ∈ cs, c ≠ d → ∀ p ∈ group c, ∀ q ∈ group d,
    p.1.byteLength = q.1.byteLength →
      ∀ text ∈ texts, replacing (replacing text p) q = replacing (replacing text q) p

instance [DecidableEq γ] (texts : List Text) (group : γ → List (Text × Text)) (cs : List γ)
    (page : Text) : Decidable (SwapsAmong texts group cs page) :=
  decidable_of_iff
    ((∀ pair ∈ cs.flatMap group,
        ((longestFirst (cs.flatMap group)).filter fun other ↦
          pair.1.byteLength < other.1.byteLength).foldl replacing page ∈ texts) ∧
      (∀ text ∈ texts, ∀ pair ∈ cs.flatMap group, replacing text pair ∈ texts) ∧
      ∀ c ∈ cs, ∀ d ∈ cs, c ≠ d → ∀ p ∈ group c, ∀ q ∈ group d,
        p.1.byteLength = q.1.byteLength →
          ∀ text ∈ texts, replacing (replacing text p) q = replacing (replacing text q) p)
    ⟨fun ⟨hlonger, hclosed, hswap⟩ ↦ ⟨hlonger, hclosed, hswap⟩,
      fun h ↦ ⟨h.longer, h.closed, h.swap⟩⟩

/-- Where all that is reached is among some texts, replacements that can be swapped in these can be
swapped. -/
theorem SwapsAmong.canSwap {texts : List Text} (h : SwapsAmong texts group cs page) :
    CanSwap group cs page := by
  intro c hc d hd hcd p hp q hq hsizes text htext
  apply h.swap c hc d hd hcd p hp q hq hsizes
  generalize hsize : p.1.byteLength = size at htext
  induction htext with
  | longer =>
    rw [← hsize]
    exact h.longer p (List.mem_flatMap.2 ⟨c, hc, hp⟩)
  | replacing _ hpair _ ih => exact h.closed _ ih _ hpair

/-- The replacements of one size lead to the same text, in whatever order the groups come. -/
theorem foldl_size_eq_of_perm (h : cs.Perm ds) (hswap : CanSwap group cs page) (size : Nat)
    {text : Text} (htext : Reached (cs.flatMap group) page size text) :
    ((longestFirst (cs.flatMap group)).filter fun pair ↦ pair.1.byteLength = size).foldl replacing
        text =
      ((longestFirst (ds.flatMap group)).filter fun pair ↦ pair.1.byteLength = size).foldl
        replacing text := by
  let ofSize (c : γ) : List (Text × Text) := (group c).filter fun pair ↦ pair.1.byteLength = size
  have hmem {c : γ} {pair : Text × Text} (hpair : pair ∈ ofSize c) :
      pair ∈ group c ∧ pair.1.byteLength = size := by
    rw [List.mem_filter, decide_eq_true_eq] at hpair
    exact hpair
  have hkeep {c : γ} (hc : c ∈ cs) : ∀ pair ∈ ofSize c, ∀ text,
      Reached (cs.flatMap group) page size text →
        Reached (cs.flatMap group) page size (replacing text pair) := by
    intro pair hpair text htext
    exact htext.replacing (List.mem_flatMap.2 ⟨c, hc, (hmem hpair).1⟩) (hmem hpair).2
  rw [filter_longestFirst, filter_longestFirst, List.filter_flatMap, List.filter_flatMap,
    List.foldl_flatMap, List.foldl_flatMap]
  apply foldl_eq_of_perm h (P := Reached (cs.flatMap group) page size) _ _ htext
  · intro c hc text htext
    exact foldl_keeps (hkeep hc) htext
  · intro c hc d hd hcd text htext
    refine foldl_foldl_comm (hkeep hc) (hkeep hd) ?_ htext
    intro p hp q hq text htext
    have hsizes : p.1.byteLength = q.1.byteLength := (hmem hp).2.trans (hmem hq).2.symm
    rw [← (hmem hp).2] at htext
    exact hswap c hc d hd hcd p (hmem hp).1 q (hmem hq).1 hsizes text htext

/-- A page with its outputs put in does not depend on the order of the groups. -/
theorem substitute_eq_of_perm (h : cs.Perm ds) (hswap : CanSwap group cs page) :
    substitute page (cs.flatMap group) = substitute page (ds.flatMap group) := by
  let all := longestFirst (cs.flatMap group)
  let others := longestFirst (ds.flatMap group)
  have hperm : all.Perm others :=
    ((perm_longestFirst _).trans (h.flatMap_right group)).trans (perm_longestFirst _).symm
  -- texts of at least a size, by the number of sizes above
  have hsizes (room size : Nat) (hroom : ∀ pair ∈ all, pair.1.byteLength < size + room) :
      (all.filter fun pair ↦ size ≤ pair.1.byteLength).foldl replacing page =
        (others.filter fun pair ↦ size ≤ pair.1.byteLength).foldl replacing page := by
    induction room generalizing size with
    | zero =>
      have hnone {pairs : List (Text × Text)} (hpairs : ∀ pair ∈ pairs, pair ∈ all) :
          pairs.filter (fun pair ↦ size ≤ pair.1.byteLength) = [] := by
        rw [List.filter_eq_nil_iff]
        intro pair hpair
        have := hroom pair (hpairs pair hpair)
        simp only [decide_eq_true_eq]
        omega
      rw [hnone fun _ hpair ↦ hpair, hnone fun _ hpair ↦ hperm.mem_iff.2 hpair]
    | succ room ih =>
      have hlonger : (all.filter fun pair ↦ size < pair.1.byteLength).foldl replacing page =
          (others.filter fun pair ↦ size < pair.1.byteLength).foldl replacing page :=
        ih (size + 1) fun pair hpair ↦ by
          have := hroom pair hpair
          omega
      rw [filter_le_eq_append (pairwise_longestFirst _), List.foldl_append,
        filter_le_eq_append (pairwise_longestFirst _), List.foldl_append, ← hlonger]
      exact foldl_size_eq_of_perm h hswap size .longer
  obtain ⟨room, hroom⟩ : ∃ room, ∀ pair ∈ all, pair.1.byteLength < room := by
    refine ⟨(all.map fun pair ↦ pair.1.byteLength).sum + 1, fun pair hpair ↦ ?_⟩
    exact Nat.lt_succ_of_le (List.single_le_sum (by simp) _ (List.mem_map_of_mem hpair))
  have hall (pairs : List (Text × Text)) :
      pairs.filter (fun pair ↦ 0 ≤ pair.1.byteLength) = pairs :=
    List.filter_eq_self.2 fun _ _ ↦ by simp
  have := hsizes room 0 fun pair hpair ↦ by
    have := hroom pair hpair
    omega
  rw [hall, hall] at this
  exact this

end Groups

end Component

end ComponentMarkup
