namespace TermSearch

/-! Fields with the values that are accepted in them: a finite map in the order
of its keys, which is the order of their code points and of their bytes in
UTF-8. -/

def FieldValues.Before (left right : String × List String) : Prop :=
  left.1 < right.1

structure FieldValues where
  entries : List (String × List String)
  sorted : entries.Pairwise FieldValues.Before

namespace FieldValues

theorem ext_entries {left right : FieldValues}
    (h : left.entries = right.entries) : left = right := by
  cases left
  cases right
  cases h
  rfl

instance : DecidableEq FieldValues := fun left right =>
  decidable_of_iff (left.entries = right.entries)
    ⟨ext_entries, fun h => h ▸ rfl⟩

def empty : FieldValues := ⟨[], .nil⟩

def single (field : String) (values : List String) : FieldValues :=
  ⟨[(field, values)], by simp⟩

def insertEntry (field : String) (values : List String) :
    List (String × List String) → List (String × List String)
  | [] => [(field, values)]
  | entry :: entries =>
      if field = entry.1 then
        (field, values) :: entries
      else if field < entry.1 then
        (field, values) :: entry :: entries
      else
        entry :: insertEntry field values entries

theorem mem_insertEntry {field : String} {values : List String}
    {entries : List (String × List String)} {entry : String × List String}
    (h : entry ∈ insertEntry field values entries) :
    entry = (field, values) ∨ entry ∈ entries := by
  induction entries with
  | nil => simpa [insertEntry] using h
  | cons head entries ih =>
      unfold insertEntry at h
      split at h
      · rcases List.mem_cons.mp h with rfl | h
        · exact Or.inl rfl
        · exact Or.inr (List.mem_cons_of_mem _ h)
      · split at h
        · exact List.mem_cons.mp h
        · rcases List.mem_cons.mp h with rfl | h
          · exact Or.inr List.mem_cons_self
          · exact (ih h).imp_right (List.mem_cons_of_mem _)

theorem pairwise_insertEntry (field : String) (values : List String)
    {entries : List (String × List String)} (h : entries.Pairwise Before) :
    (insertEntry field values entries).Pairwise Before := by
  induction entries with
  | nil => simp [insertEntry]
  | cons head entries ih =>
      have hhead := List.pairwise_cons.mp h
      unfold insertEntry
      split
      · rename_i hfield
        refine List.pairwise_cons.mpr ⟨fun entry hentry => ?_, hhead.2⟩
        have hbefore := hhead.1 entry hentry
        unfold Before at hbefore ⊢
        rw [hfield]
        exact hbefore
      · rename_i hne
        split
        · rename_i hbefore
          refine List.pairwise_cons.mpr ⟨fun entry hentry => ?_, h⟩
          rcases List.mem_cons.mp hentry with rfl | hentry
          · exact hbefore
          · exact String.lt_trans hbefore (hhead.1 entry hentry)
        · rename_i hnot
          refine List.pairwise_cons.mpr ⟨fun entry hentry => ?_, ih hhead.2⟩
          rcases mem_insertEntry hentry with rfl | hentry
          · have hlater := (Std.lt_trichotomy field head.1).resolve_left hnot
            exact hlater.resolve_left hne
          · exact hhead.1 entry hentry

/-- The values replace those that the field had. -/
def insert (map : FieldValues) (field : String) (values : List String) :
    FieldValues :=
  ⟨insertEntry field values map.entries,
    pairwise_insertEntry field values map.sorted⟩

@[simp] theorem entries_single (field : String) (values : List String) :
    (single field values).entries = [(field, values)] := rfl

@[simp] theorem entries_insert (map : FieldValues) (field : String)
    (values : List String) :
    (map.insert field values).entries = insertEntry field values map.entries :=
  rfl

end FieldValues

end TermSearch
