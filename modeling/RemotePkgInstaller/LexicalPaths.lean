import Mathlib.Data.List.Basic

/-! Paths and what they mean by their text alone: the names between the separators lead down
from the root, one dot stays where it is and two lead back up. -/
namespace RemotePkgInstaller
namespace LexicalPaths

variable {α : Type*} [DecidableEq α] (sep dot : α)

/-- The next name of a path; `down` are the names that have led down so far, the last first. -/
def follow (down : List (List α)) (name : List α) : List (List α) :=
  if name = [] ∨ name = [dot] then down
  else if name = [dot,dot] then down.tail
  else name::down

/-- The names that lead from the root to what an absolute path means. -/
def resolve (path : List α) : List (List α) :=
  ((path.splitOn sep).foldl (follow dot) []).reverse

/-- The names of a path that lead further down. -/
def steps (path : List α) : List (List α) :=
  (path.splitOn sep).filter fun name => name ≠ [] ∧ name ≠ [dot]

variable {sep dot}

theorem foldl_follow {names : List (List α)} (h : [dot,dot] ∉ names) (down : List (List α)) :
    names.foldl (follow dot) down =
      (names.filter fun name => name ≠ [] ∧ name ≠ [dot]).reverse++down := by
  induction names generalizing down with
  | nil => rfl
  | cons name names ih =>
    simp only [List.mem_cons,not_or] at h
    rw [List.foldl_cons,ih h.2,follow]
    by_cases hstay : name = [] ∨ name = [dot]
    · have hdrop : ¬ (name ≠ [] ∧ name ≠ [dot]) := by tauto
      rw [if_pos hstay,List.filter_cons_of_neg (by simpa using hdrop)]
    · have hkeep : name ≠ [] ∧ name ≠ [dot] := by tauto
      rw [if_neg hstay,if_neg (Ne.symm h.1),List.filter_cons_of_pos (by simpa using hkeep)]
      simp

omit [DecidableEq α] in
theorem infix_intercalate {between name : List α} {names : List (List α)} (h : name ∈ names) :
    name <:+: between.intercalate names := by
  induction names with
  | nil => cases h
  | cons first names ih =>
    by_cases hnil : names = []
    · subst hnil
      rw [List.intercalate_singleton]
      exact (List.mem_singleton.mp h) ▸ List.infix_rfl
    · rw [List.intercalate_cons_of_ne_nil hnil]
      rcases List.mem_cons.mp h with rfl | hmem
      · rw [List.append_assoc]
        exact (List.prefix_append _ _).isInfix
      · exact (ih hmem).trans (List.suffix_append _ _).isInfix

/-- A name of a path is a part of its text. -/
theorem infix_of_mem_splitOn {path name : List α} (h : name ∈ path.splitOn sep) : name <:+: path := by
  have h' : name <:+: [sep].intercalate (path.splitOn sep) := infix_intercalate h
  rwa [List.intercalate_splitOn] at h'

/-- A path that never goes up leads from a directory to something below it. -/
theorem resolve_join {rest : List α} (h : ¬ [dot,dot] <:+: rest) (dir : List α) :
    resolve sep dot (dir++sep::rest) = resolve sep dot dir++steps sep dot rest := by
  have hup : [dot,dot] ∉ rest.splitOn sep := fun hmem => h (infix_of_mem_splitOn hmem)
  rw [resolve,List.splitOn_append_cons_self,List.foldl_append,foldl_follow hup,List.reverse_append,
    List.reverse_reverse]
  rfl

end LexicalPaths
end RemotePkgInstaller
