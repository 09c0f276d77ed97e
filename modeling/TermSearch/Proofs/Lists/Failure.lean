import Mathlib.Data.List.Forall2

namespace TermSearch

/-! Results that can be failures, and lists of items that can fail. The first
failure is that of the list; without any, the list has the results of its
items. -/

theorem bind_eq_ok_iff {result : Except ε α} {next : α → Except ε β}
    {value : β} :
    result >>= next = .ok value ↔
      ∃ middle, result = .ok middle ∧ next middle = .ok value := by
  cases result <;> simp [bind, Except.bind]

theorem bind_eq_error_iff {result : Except ε α} {next : α → Except ε β}
    {error : ε} :
    result >>= next = .error error ↔
      result = .error error ∨
        ∃ middle, result = .ok middle ∧ next middle = .error error := by
  cases result <;> simp [bind, Except.bind]

theorem map_eq_ok_iff {result : Except ε α} {next : α → β} {value : β} :
    result.map next = .ok value ↔
      ∃ middle, result = .ok middle ∧ next middle = value := by
  cases result <;> simp [Except.map]

theorem map_eq_error_iff {result : Except ε α} {next : α → β} {error : ε} :
    result.map next = .error error ↔ result = .error error := by
  cases result <;> simp [Except.map]

theorem mapError_eq_ok_iff {result : Except ε α} {report : ε → ε'} {value : α} :
    result.mapError report = .ok value ↔ result = .ok value := by
  cases result <;> simp [Except.mapError]

variable {change : α → Except ε β} {items : List α}

theorem mapM_eq_ok_iff {values : List β} :
    items.mapM change = .ok values ↔
      List.Forall₂ (fun item value => change item = .ok value) items
        values := by
  induction items generalizing values with
  | nil =>
      rw [List.mapM_nil, List.forall₂_nil_left_iff]
      constructor
      · intro h
        cases h
        rfl
      · intro h
        subst h
        rfl
  | cons item items ih =>
      rw [List.mapM_cons, List.forall₂_cons_left_iff]
      simp only [bind_eq_ok_iff, ih]
      constructor
      · rintro ⟨value, hvalue, rest, hrest, ⟨⟩⟩
        exact ⟨value, rest, hvalue, hrest, rfl⟩
      · rintro ⟨value, rest, hvalue, hrest, rfl⟩
        exact ⟨value, hvalue, rest, hrest, rfl⟩

theorem mapM_eq_error_iff {error : ε} :
    items.mapM change = .error error ↔
      ∃ before item after, items = before ++ item :: after ∧
        (∀ earlier ∈ before, ∃ value, change earlier = .ok value) ∧
        change item = .error error := by
  induction items with
  | nil =>
      refine ⟨nofun, ?_⟩
      rintro ⟨before, item, after, h, -⟩
      exact absurd h.symm (List.append_ne_nil_of_right_ne_nil before
        (List.cons_ne_nil item after))
  | cons first items ih =>
      rw [List.mapM_cons]
      simp only [bind_eq_error_iff, ih]
      constructor
      · rintro (hfirst | ⟨value, hfirst,
          ⟨before, item, after, rfl, hbefore, hitem⟩ | ⟨_, -, ⟨⟩⟩⟩)
        · exact ⟨[], first, items, rfl, List.forall_mem_nil _, hfirst⟩
        · exact ⟨first :: before, item, after, rfl,
            List.forall_mem_cons.mpr ⟨⟨value, hfirst⟩, hbefore⟩, hitem⟩
      · rintro ⟨before, item, after, hitems, hbefore, hitem⟩
        cases before with
        | nil =>
            cases hitems
            exact .inl hitem
        | cons earlier before =>
            cases hitems
            obtain ⟨⟨value, hfirst⟩, hbefore⟩ := List.forall_mem_cons.mp hbefore
            exact .inr
              ⟨value, hfirst, .inl ⟨before, item, after, rfl, hbefore, hitem⟩⟩

theorem exists_mapM_eq_ok {stands : β → α → Prop}
    (h : ∀ item ∈ items, ∃ value, change item = .ok value ∧ stands value item) :
    ∃ values, items.mapM change = .ok values ∧
      List.Forall₂ stands values items := by
  induction items with
  | nil => exact ⟨[], rfl, .nil⟩
  | cons item items ih =>
      obtain ⟨⟨value, hvalue, hstands⟩, hitems⟩ := List.forall_mem_cons.mp h
      obtain ⟨values, hvalues, hall⟩ := ih hitems
      refine ⟨value :: values, ?_, .cons hstands hall⟩
      rw [List.mapM_cons, hvalue, hvalues]
      rfl

theorem mapM_eq_map {image : α → β}
    (h : ∀ item ∈ items, change item = .ok (image item)) :
    items.mapM change = .ok (items.map image) := by
  rw [mapM_eq_ok_iff, List.forall₂_map_right_iff, List.forall₂_same]
  exact h

theorem mapM_eq_of_map_eq {others : List α}
    (h : items.map change = others.map change) :
    items.mapM change = others.mapM change := by
  rw [← Function.id_comp change, ← List.mapM_map, ← List.mapM_map, h]

theorem mapM_eq_error {error : ε}
    (h : ∀ item ∈ items, change item = .error error ∨
      ∃ value, change item = .ok value)
    (hfails : ∃ item ∈ items, change item = .error error) :
    items.mapM change = .error error := by
  induction items with
  | nil => simp at hfails
  | cons item items ih =>
      obtain ⟨hitem, hitems⟩ := List.forall_mem_cons.mp h
      rw [List.mapM_cons]
      rcases hitem with herror | ⟨value, hvalue⟩
      · rw [herror]
        rfl
      · rw [List.exists_mem_cons_iff, hvalue] at hfails
        rw [hvalue, ih hitems (hfails.resolve_left (by simp))]
        rfl

theorem exists_related_of_mem {related : α → β → Prop} {others : List β}
    (h : List.Forall₂ related items others) {item : α} (hmem : item ∈ items) :
    ∃ other ∈ others, related item other := by
  induction h with
  | nil => exact absurd hmem List.not_mem_nil
  | cons hfirst _ ih =>
      cases hmem with
      | head => exact ⟨_, List.mem_cons_self, hfirst⟩
      | tail _ hmem =>
          obtain ⟨other, hother, hrelated⟩ := ih hmem
          exact ⟨other, List.mem_cons_of_mem _ hother, hrelated⟩

end TermSearch
