import Mathlib.Data.List.Induction
import TermSearch.Files.Path

namespace TermSearch.Path

/-! The directories above a directory. Seen from one of them, what is above is
the end of what is above the other. -/

@[elab_as_elim, induction_eliminator]
theorem induction {motive : Path → Prop} (base : ∀ text, motive (ofBase text))
    (child : ∀ path name, motive path → motive (path.child name))
    (path : Path) : motive path := by
  obtain ⟨text, names⟩ := path
  induction names using List.reverseRecOn with
  | nil => exact base text
  | append_singleton names name ih => exact child ⟨text, names⟩ name ih

theorem ancestors_ofBase (text : String) :
    (ofBase text).ancestors = [ofBase text] := rfl

theorem ancestors_child (path : Path) (name : String) :
    (path.child name).ancestors = path.child name :: path.ancestors := by
  obtain ⟨text, names⟩ := path
  have hlength : (names ++ [name]).length = names.length + 1 :=
    List.length_append
  rw [ancestors, child, hlength, List.range_succ_eq_map, List.map_cons,
    List.map_map]
  refine congrArg₂ List.cons ?_ (List.map_congr_left fun up _ => ?_)
  · rw [Nat.sub_zero, ← hlength, List.take_length]
  · change mk text ((names ++ [name]).take (names.length + 1 - (up + 1))) = _
    rw [Nat.add_sub_add_right, List.take_append_of_le_length (Nat.sub_le _ _)]

theorem ancestors_eq_cons (path : Path) :
    path.ancestors = path :: path.ancestors.tail := by
  induction path with
  | base text => rfl
  | child path name => rw [ancestors_child, List.tail_cons]

theorem length_names_le_of_mem_ancestors {path other : Path}
    (h : other ∈ path.ancestors) : other.names.length ≤ path.names.length := by
  obtain ⟨up, -, rfl⟩ := List.mem_map.mp h
  exact List.length_take_le' _ _

theorem nodup_ancestors (path : Path) : path.ancestors.Nodup := by
  induction path with
  | base text => exact List.pairwise_singleton _ _
  | child path name ih =>
      rw [ancestors_child, List.nodup_cons]
      refine ⟨fun hmem => ?_, ih⟩
      have hlength := length_names_le_of_mem_ancestors hmem
      exact absurd hlength (by simp [child])

theorem suffix_of_mem_ancestors {path other : Path}
    (h : other ∈ path.ancestors) : other.ancestors <:+ path.ancestors := by
  induction path with
  | base text =>
      rw [ancestors_ofBase, List.mem_singleton] at h
      subst h
      exact List.suffix_refl _
  | child path name ih =>
      rw [ancestors_child, List.mem_cons] at h
      obtain rfl | h := h
      · exact List.suffix_refl _
      · rw [ancestors_child]
        exact (ih h).trans (List.suffix_cons _ _)

end TermSearch.Path
