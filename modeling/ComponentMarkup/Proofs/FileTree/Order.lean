import ComponentMarkup.Discovery
import ComponentMarkup.Proofs.FileTree.Walk
import ComponentMarkup.Proofs.Text.Bytes

/-!
# The order of paths

Paths are compared step by step: the root comes before a point, a point before two points and these
before a name, and of two names the one comes first whose bytes come first. Paths that lead from
one directory through names stand in the order of the names.
-/

namespace ComponentMarkup

namespace Path

/-! ## Steps in order -/

/-- The place of a kind of step in the order. -/
def Step.rank : Step → Nat
  | .root => 0
  | .here => 1
  | .up => 2
  | .name _ => 3

/-- A step comes before another; names are compared by their bytes. -/
def Step.Precedes : Step → Step → Prop
  | .name a, .name b => Text.bytes a < Text.bytes b
  | s, t => s.rank < t.rank

/-- A path comes before another, compared step by step. -/
def Precedes (p q : Path) : Prop := List.Lex Step.Precedes (steps p) (steps q)

theorem Step.Precedes.irrefl (step : Step) : ¬step.Precedes step := by
  cases step with
  | name text => exact List.lt_irrefl _
  | _ => exact Nat.lt_irrefl _

theorem Precedes.ne {p q : Path} (h : p.Precedes q) : p ≠ q := by
  rintro rfl
  exact List.lex_irrefl Step.Precedes.irrefl _ h

theorem lex_map_name {a b : List Text} (h : a < b) :
    List.Lex Step.Precedes (a.map .name) (b.map .name) := by
  induction h with
  | nil => exact .nil
  | cons _ ih => exact .cons ih
  | rel h => exact .rel (Text.bytes_lt_bytes h)

/-! ## Paths through names -/

theorem exists_eq_slash_of_isAbsolute {path : Path} (h : isAbsolute path = true) :
    ∃ rest, path = '/' :: rest := by
  cases path with
  | nil => simp [isAbsolute] at h
  | cons c rest => exact ⟨rest, by simpa [isAbsolute] using h⟩

theorem isAbsolute_join {dir : Path} (hdir : isAbsolute dir = true) (path : Path) :
    isAbsolute (join dir path) = true := by
  obtain ⟨rest, rfl⟩ := exists_eq_slash_of_isAbsolute hdir
  unfold join
  split_ifs with hpath
  · simpa using hpath
  · rfl
  · rfl

theorem steps_slash_append_slash (front back : Path) :
    steps ('/' :: (front ++ '/' :: back)) = steps ('/' :: front) ++ stepsOf (pieces back) := by
  show .root :: stepsOf (pieces (front ++ '/' :: back)) = .root :: stepsOf (pieces front) ++ _
  rw [pieces, Text.splitOn_append_cons]
  simp [stepsOf, pieces]

/-- A name behind an absolute directory is one more step. -/
theorem steps_join {dir : Path} {name : Text} (hdir : isAbsolute dir = true)
    (hname : IsName name) : steps (join dir name) = steps dir ++ [.name name] := by
  obtain ⟨rest, rfl⟩ := exists_eq_slash_of_isAbsolute hdir
  have hstep : stepsOf (pieces name) = [.name name] := by
    simp [pieces_of_not_slash hname.not_slash, stepsOf, hname.not_idle, stepOf, hname.not_up]
  obtain ⟨front, hjoin, hfront⟩ :=
    join_relative (List.cons_ne_nil '/' rest) (isAbsolute_of_not_slash hname.not_slash)
  rw [hjoin]
  rcases hfront with rfl | hfront
  · rw [List.cons_append, steps_slash_append_slash, hstep]
  · rw [hfront]
    cases front with
    | nil =>
      show .root :: stepsOf (pieces name) = _
      rw [hstep]
      rfl
    | cons c front =>
      obtain ⟨rfl, -⟩ := List.cons.inj hfront
      -- A slash at the end of the directory adds no step.
      have hidle : stepsOf (pieces []) = [] := rfl
      rw [List.cons_append, List.cons_append, steps_slash_append_slash, steps_slash_append_slash,
        hstep, hidle, List.append_nil]

end Path

open ComponentMarkup.Path

namespace Discovery

theorem steps_pathTo {dir : Path} {names : List Text} (hdir : isAbsolute dir = true)
    (hnames : ∀ name ∈ names, IsName name) :
    steps (pathTo dir names) = steps dir ++ names.map .name := by
  induction names generalizing dir with
  | nil => exact (List.append_nil _).symm
  | cons name rest ih =>
    obtain ⟨hname, hrest⟩ := List.forall_mem_cons.1 hnames
    have hnext : pathTo dir (name :: rest) = pathTo (join dir name) rest := rfl
    rw [hnext, ih (isAbsolute_join hdir name) hrest, steps_join hdir hname, List.append_assoc]
    rfl

/-- Paths from one directory stand in the order of the names they lead through. -/
theorem pathTo_precedes {dir : Path} {a b : List Text} (hdir : isAbsolute dir = true)
    (ha : ∀ name ∈ a, IsName name) (hb : ∀ name ∈ b, IsName name) (h : a < b) :
    (pathTo dir a).Precedes (pathTo dir b) := by
  rw [Precedes, steps_pathTo hdir ha, steps_pathTo hdir hb]
  exact List.Lex.append_left _ (lex_map_name h) (steps dir)

end Discovery

end ComponentMarkup
