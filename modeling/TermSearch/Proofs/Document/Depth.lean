import TermSearch.Proofs.Document.RoundTrip
import TermSearch.Proofs.Query.Shape

namespace TermSearch

/-! How deeply documents nest their brackets, and that a document of a query
with few levels can be read. -/

open Json

theorem FieldValues.nesting_tokens_le (fields : FieldValues) :
    nesting fields.tokens ≤ 2 := by
  refine nesting_object_le (isBalanced_entries fields.entries) ?_
  rw [List.forall_mem_map]
  intro entry _
  refine nesting_array_le (isBalanced_values entry.2) ?_
  rw [List.forall_mem_map]
  exact fun _ _ => Nat.le_refl 0

namespace Clause

/-- A level of combinations takes three brackets: for the clause, the
combination and its list. -/
theorem nesting_tokens_le {levels : Nat} {clause : Clause}
    (h : clause.IsWithin levels) : nesting clause.tokens ≤ 3 * levels + 3 := by
  induction clause generalizing levels with
  | terms fields =>
      have hfields := nesting_object_singleton_le fields.isBalanced_tokens
        fields.nesting_tokens_le "terms"
      exact hfields.trans (Nat.le_add_left 3 _)
  | bool connective clauses ih =>
      cases levels with
      | zero => exact h.elim
      | succ levels =>
          have hclauses :
              ∀ item ∈ tokensAll clauses, nesting item ≤ 3 * levels + 3 := by
            rw [tokensAll_eq_map, List.forall_mem_map]
            exact fun clause hmem => ih clause hmem (h clause hmem)
          have hbalanced := IsBalanced.array (isBalanced_all clauses)
          have hlist := nesting_array_le (isBalanced_all clauses) hclauses
          have hobject :=
            nesting_object_singleton_le hbalanced hlist connective.occurrence
          exact nesting_object_singleton_le
            (.object (List.forall_mem_singleton.mpr hbalanced)) hobject "bool"

end Clause

namespace QueryDocument

theorem nesting_tokens_le {levels : Nat} {document : QueryDocument}
    (h : document.query.IsWithin levels) :
    nesting document.tokens ≤ 3 * levels + 4 := by
  refine nesting_object_le document.isBalanced_members ?_
  simp only [List.forall_mem_cons]
  exact ⟨Nat.zero_le _, Nat.zero_le _, Clause.nesting_tokens_le h,
    List.forall_mem_nil _⟩

end QueryDocument

end TermSearch
