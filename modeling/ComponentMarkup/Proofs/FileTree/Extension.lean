import ComponentMarkup.Model.Host
import ComponentMarkup.Proofs.FileTree.Walk

/-!
# Paths with another extension

Putting another extension on a path changes its last name only, and how it changes depends on that
name alone. So the sidecar of a component has a name of its own in the directory of the component,
or, where a name such as `..a` loses its extension, leads to the directory above.
-/

namespace ComponentMarkup

theorem Text.exists_last_of_mem {c : Char} {text : Text} (h : c ∈ text) :
    ∃ front back, text = front ++ c :: back ∧ c ∉ back := by
  obtain ⟨back, front, hreverse, hback⟩ := List.eq_append_cons_of_mem (List.mem_reverse.2 h)
  refine ⟨front.reverse, back.reverse, ?_, by simpa using hback⟩
  rw [← List.reverse_reverse text, hreverse]
  simp

namespace Path

theorem pieces_append_cons (front : Text) {name : Text} (hname : '/' ∉ name) :
    pieces (front ++ '/' :: name) = pieces front ++ [name] := by
  rw [← pieces_of_not_slash hname]
  exact Text.splitOn_append_cons '/' front name

theorem joinWith_pieces (path : Path) : Text.joinWith ['/'] (pieces path) = path := by
  rw [pieces, Text.splitOn_eq, Text.joinWith]
  exact List.intercalate_splitOn '/'

section LastName

variable (front : Text) {name : Text}

theorem lastName?_append_cons (hname : IsName name) :
    lastName? (front ++ '/' :: name) = some (front ++ ['/'], name) := by
  have hreverse : (pieces (front ++ '/' :: name)).reverse.dropWhile isIdle =
      name :: (pieces front).reverse := by
    rw [pieces_append_cons front hname.not_slash, List.reverse_append, List.reverse_singleton,
      List.singleton_append, List.dropWhile_cons_of_neg (by simp [hname.not_idle])]
  have hne : (pieces front).reverse.isEmpty = false := by
    have : pieces front ≠ [] := by
      rw [pieces, Text.splitOn_eq]
      exact List.splitOn_ne_nil _ _
    simpa using this
  rw [lastName?, hreverse]
  simp only [hname.not_up, if_false, hne, List.reverse_reverse, joinWith_pieces, Bool.false_eq_true]

theorem lastName?_append_up : lastName? (front ++ ['/', '.', '.']) = none := by
  have hreverse : (pieces (front ++ '/' :: ['.', '.'])).reverse.dropWhile isIdle =
      ['.', '.'] :: (pieces front).reverse := by
    rw [pieces_append_cons front (by decide), List.reverse_append]
    rfl
  rw [lastName?, hreverse]
  rfl

end LastName

/-- A name is split at its last point, unless that comes first. -/
theorem splitName_append_cons (stem : Text) {extension : Text} (h : '.' ∉ extension) :
    splitName (stem ++ '.' :: extension) =
      if stem = [] then (stem ++ '.' :: extension, none) else (stem, some extension) := by
  have hbehind : ((stem ++ '.' :: extension).reverse.takeWhile (· ≠ '.')).reverse = extension := by
    rw [List.reverse_append, List.reverse_cons, List.append_assoc, List.takeWhile_append_of_pos]
    · simp
    · intro c hc
      have hne : c ≠ '.' := by
        rintro rfl
        exact h (List.mem_reverse.1 hc)
      simpa using hne
  have hlength : (stem ++ '.' :: extension).length - extension.length - 1 = stem.length := by
    simp only [List.length_append, List.length_cons]
    omega
  simp only [splitName, hbehind, hlength]
  by_cases hstem : stem = [] <;> simp [hstem]

/-- The extension of a name stands behind its last point, and something stands before it. -/
theorem splitName_eq_iff {name before old : Text} :
    splitName name = (before, some old) ↔
      name = before ++ '.' :: old ∧ before ≠ [] ∧ '.' ∉ old := by
  constructor
  · intro h
    by_cases hpoint : '.' ∈ name
    · obtain ⟨stem, behind, rfl, hbehind⟩ := Text.exists_last_of_mem hpoint
      rw [splitName_append_cons stem hbehind] at h
      split_ifs at h with hstem
      · simp at h
      · obtain ⟨rfl, hold⟩ := Prod.mk.inj h
        obtain rfl := Option.some.inj hold
        exact ⟨rfl, hstem, hbehind⟩
    · simp [splitName, hpoint] at h
  · rintro ⟨rfl, hbefore, hold⟩
    rw [splitName_append_cons before hold, if_neg hbefore]

theorem splitName_fst_subset (name : Text) : (splitName name).1 ⊆ name := by
  unfold splitName
  dsimp only
  split_ifs
  · exact List.Subset.refl _
  · exact List.take_subset _ _
  · exact List.Subset.refl _

theorem setExtension_append_cons {name : Text} (hname : IsName name) {extension : Text}
    (hextension : '/' ∉ extension) :
    ∃ piece, '/' ∉ piece ∧
      ∀ front, setExtension (front ++ '/' :: name) extension = front ++ '/' :: piece := by
  refine ⟨(splitName name).1 ++ (if extension.isEmpty then [] else '.' :: extension), ?_, ?_⟩
  · intro hslash
    rcases List.mem_append.1 hslash with hslash | hslash
    · exact hname.not_slash (splitName_fst_subset name hslash)
    · split at hslash
      · exact absurd hslash List.not_mem_nil
      · simp [hextension] at hslash
  · intro front
    rw [setExtension, lastName?_append_cons front hname]
    simp

/-- The extension of a path is that of its last name. -/
theorem extension?_append_cons (front : Text) {name : Text} (hname : IsName name) :
    extension? (front ++ '/' :: name) = (splitName name).2 := by
  rw [extension?, lastName?_append_cons front hname]
  rfl

/-- What the last name of a path becomes with another extension. -/
theorem withExtension_append_cons {name : Text} (hname : IsName name) {extension : Text}
    (hextension : '/' ∉ extension) :
    ∃ piece, '/' ∉ piece ∧
      ∀ front, withExtension (front ++ '/' :: name) extension = front ++ '/' :: piece := by
  have hold (front : Text) : extension? (front ++ '/' :: name) = (splitName name).2 :=
    extension?_append_cons front hname
  cases hsplit : splitName name with
  | mk before old =>
    cases old with
    | none =>
      obtain ⟨piece, hpiece, hset⟩ := setExtension_append_cons hname hextension
      refine ⟨piece, hpiece, fun front ↦ ?_⟩
      rw [withExtension, hold, hsplit]
      exact hset front
    | some old =>
      obtain ⟨heq, hbefore, -⟩ := splitName_eq_iff.1 hsplit
      have htake (front : Text) :
          (front ++ '/' :: name).take ((front ++ '/' :: name).length - old.length) =
            front ++ '/' :: (before ++ ['.']) := by
        have hwhole : front ++ '/' :: name = front ++ '/' :: (before ++ ['.']) ++ old := by
          rw [heq]
          simp
        rw [hwhole, List.length_append, Nat.add_sub_cancel]
        exact List.take_left
      by_cases hup : before ++ ['.'] = ['.', '.']
      · -- Without its extension the name leads upwards, and then no extension is put on.
        refine ⟨['.', '.'], by decide, fun front ↦ ?_⟩
        rw [withExtension, hold, hsplit]
        show setExtension ((front ++ '/' :: name).take _) extension = _
        rw [htake, hup, setExtension, lastName?_append_up]
      · have hshort : IsName (before ++ ['.']) := by
          refine ⟨?_, hup, ?_⟩
          · simp [isIdle, hbefore]
          · intro hslash
            apply hname.not_slash
            rw [heq]
            rcases List.mem_append.1 hslash with hslash | hslash
            · exact List.mem_append_left _ hslash
            · simp at hslash
        obtain ⟨piece, hpiece, hset⟩ := setExtension_append_cons hshort hextension
        refine ⟨piece, hpiece, fun front ↦ ?_⟩
        rw [withExtension, hold, hsplit]
        show setExtension ((front ++ '/' :: name).take _) extension = _
        rw [htake]
        exact hset front

end Path

open ComponentMarkup.Path

/-- The sidecar of a component stands under a name that does not depend on the directory. -/
theorem Host.sidecar_ofNames {host : Host} (hextension : '/' ∉ host.extension) {name : Text}
    (hname : IsName name) :
    ∃ piece, '/' ∉ piece ∧
      ∀ front, host.sidecar (ofNames (front ++ [name])) = ofNames (front ++ [piece]) := by
  obtain ⟨piece, hpiece, hwith⟩ := withExtension_append_cons hname hextension
  refine ⟨piece, hpiece, fun front ↦ ?_⟩
  rw [sidecar]
  by_cases hfront : front = []
  · rw [hfront, List.nil_append, List.nil_append, ofNames_singleton, ofNames_singleton]
    exact hwith []
  · rw [ofNames_concat hfront, ofNames_concat hfront]
    exact hwith (ofNames front)

/-- Whether a path with another last name has the same steps depends on that name alone. -/
theorem Path.same_ofNames_concat {front : List Text} (hfront : ∀ name ∈ front, IsName name)
    {piece name : Text} (hpiece : '/' ∉ piece) (hname : '/' ∉ name) :
    same (ofNames (front ++ [piece])) (ofNames (front ++ [name])) =
      decide (stepsOf [piece] = stepsOf [name]) := by
  have hsteps {last : Text} (hlast : '/' ∉ last) :
      steps (ofNames (front ++ [last])) = .root :: (stepsOf front ++ stepsOf [last]) := by
    have hall : ∀ name ∈ front ++ [last], '/' ∉ name := by
      intro name hmem
      rcases List.mem_append.1 hmem with hmem | hmem
      · exact (hfront name hmem).not_slash
      · rw [List.mem_singleton.1 hmem]
        exact hlast
    show .root :: stepsOf (pieces (Text.joinWith ['/'] (front ++ [last]))) = _
    rw [pieces_joinWith (by simp) hall, stepsOf, List.filter_append, List.map_append]
    rfl
  rw [same, hsteps hpiece, hsteps hname]
  simp

end ComponentMarkup
