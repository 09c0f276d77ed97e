import Mathlib.Data.List.Nodup
import TermSearch.Config.Basic

namespace TermSearch.Config

/-! What the warnings on a configuration report. Each comes from something that
is wrong with it: a name at a position of the list of default fields, or a
setting as a whole. -/

/-- What is wrong at a position of a list of fields: the name there is no field
name, or it stands there for the second time. -/
inductive Causes (fields : List String) : Nat → Warning → Prop
  | invalid {position : Nat} {field : String}
      (hfield : fields[position]? = some field)
      (hname : isIdentifier field = false) :
      Causes fields position (.invalidFieldName field)
  | repeated {position : Nat} {field : String}
      (hfield : fields[position]? = some field)
      (hsecond : (fields.take position).count field = 1) :
      Causes fields position (.duplicateField field)

def warningsOn (before : List String) (field : String) : List Warning :=
  (if isIdentifier field then [] else [.invalidFieldName field]) ++
    if before.count field = 1 then [.duplicateField field] else []

theorem fieldWarnings_cons (before : List String) (field : String)
    (fields : List String) :
    fieldWarnings before (field :: fields) =
      warningsOn before field ++ fieldWarnings (before ++ [field]) fields := by
  rw [fieldWarnings, isFieldName_eq_isIdentifier]
  rfl

/-- The warnings on fields that come after others, with the positions that cause
them. -/
def locatedWarnings (before : List String) : List String → List (Nat × Warning)
  | [] => []
  | field :: fields =>
      (warningsOn before field).map (before.length, ·) ++
        locatedWarnings (before ++ [field]) fields

theorem map_snd_locatedWarnings (before fields : List String) :
    (locatedWarnings before fields).map Prod.snd =
      fieldWarnings before fields := by
  induction fields generalizing before with
  | nil => rfl
  | cons field fields ih =>
      rw [locatedWarnings, fieldWarnings_cons, List.map_append,
        List.map_map, ih]
      exact congrArg (· ++ _) (List.map_id _)

theorem mem_warningsOn_iff {before fields : List String} {field : String}
    {warning : Warning} :
    warning ∈ warningsOn before field ↔
      Causes (before ++ field :: fields) before.length warning := by
  have hfield :
      (before ++ field :: fields)[before.length]? = some field := by simp
  have hbefore :
      (before ++ field :: fields).take before.length = before := by simp
  rw [warningsOn, List.mem_append]
  constructor
  · rintro (h | h)
    · split at h
      · exact absurd h List.not_mem_nil
      · rw [List.mem_singleton.mp h]
        exact .invalid hfield (Bool.not_eq_true _ ▸ ‹_›)
    · split at h
      · rw [List.mem_singleton.mp h]
        exact .repeated hfield (by rwa [hbefore])
      · exact absurd h List.not_mem_nil
  · rintro (⟨hsome, hname⟩ | ⟨hsome, hsecond⟩)
    · obtain rfl := Option.some.inj (hfield.symm.trans hsome)
      exact .inl (by simp [hname])
    · obtain rfl := Option.some.inj (hfield.symm.trans hsome)
      rw [hbefore] at hsecond
      exact .inr (by simp [hsecond])

theorem mem_locatedWarnings_iff {before fields : List String} {position : Nat}
    {warning : Warning} :
    (position, warning) ∈ locatedWarnings before fields ↔
      before.length ≤ position ∧
        Causes (before ++ fields) position warning := by
  induction fields generalizing before with
  | nil =>
      refine iff_of_false List.not_mem_nil ?_
      rintro ⟨hposition, hcauses⟩
      have hnone : (before ++ [])[position]? = none := by simpa using hposition
      cases hcauses with
      | invalid hfield => exact absurd (hnone.symm.trans hfield) nofun
      | repeated hfield => exact absurd (hnone.symm.trans hfield) nofun
  | cons field fields ih =>
      have hhere : (position, warning) ∈
            (warningsOn before field).map (before.length, ·) ↔
          position = before.length ∧
            Causes (before ++ field :: fields) position warning := by
        rw [List.mem_map]
        constructor
        · rintro ⟨_, hmem, ⟨⟩⟩
          exact ⟨rfl, mem_warningsOn_iff.mp hmem⟩
        · rintro ⟨rfl, hcauses⟩
          exact ⟨warning, mem_warningsOn_iff.mpr hcauses, rfl⟩
      rw [locatedWarnings, List.mem_append, hhere,
        ih, List.length_append, List.length_singleton,
        List.append_assoc, List.singleton_append, ← or_and_right]
      exact and_congr_left' (by omega)

theorem pairwise_locatedWarnings (before fields : List String) :
    (locatedWarnings before fields).Pairwise fun earlier later =>
      earlier.1 ≤ later.1 := by
  induction fields generalizing before with
  | nil => exact .nil
  | cons field fields ih =>
      refine List.pairwise_append.mpr ⟨?_, ih _, ?_⟩
      · exact List.pairwise_map.mpr
          (List.pairwise_of_forall fun _ _ => Nat.le_refl _)
      · rintro _ hearlier ⟨position, warning⟩ hlater
        obtain ⟨_, -, rfl⟩ := List.mem_map.mp hearlier
        have hposition := (mem_locatedWarnings_iff.mp hlater).1
        rw [List.length_append] at hposition
        exact Nat.le_of_add_right_le hposition

/-! How often a warning is given. -/

section Counts

variable (before fields : List String) (field : String)

theorem count_invalid_fieldWarnings :
    (fieldWarnings before fields).count (.invalidFieldName field) =
      if isIdentifier field then 0 else fields.count field := by
  induction fields generalizing before with
  | nil => simp [fieldWarnings]
  | cons first fields ih =>
      have hfirst : (warningsOn before first).count (.invalidFieldName field) =
          if isIdentifier field then 0 else [first].count field := by
        by_cases hsame : first = field
        · subst hsame
          unfold warningsOn
          split <;> split <;> simp
        · unfold warningsOn
          split <;> split <;> simp [hsame]
      rw [fieldWarnings_cons, List.count_append, hfirst, ih,
        ← List.singleton_append (l := fields), List.count_append]
      split <;> rfl

/-- It is at its second occurrence that a name counts as repeated, whatever
stands between the two and after them. -/
theorem count_duplicate_fieldWarnings :
    (fieldWarnings before fields).count (.duplicateField field) =
      if before.count field ≤ 1 ∧ 2 ≤ (before ++ fields).count field then 1
      else 0 := by
  induction fields generalizing before with
  | nil =>
      rw [if_neg (by rw [List.append_nil]; omega)]
      rfl
  | cons first fields ih =>
      have hfirst : (warningsOn before first).count (.duplicateField field) =
          if first = field ∧ before.count field = 1 then 1 else 0 := by
        by_cases hsame : first = field
        · subst hsame
          unfold warningsOn
          split <;> split <;> simp [*]
        · unfold warningsOn
          split <;> split <;> simp [hsame]
      have htotal : (before ++ first :: fields).count field =
          before.count field + [first].count field + fields.count field := by
        rw [← List.singleton_append, List.count_append, List.count_append,
          Nat.add_assoc]
      rw [fieldWarnings_cons, List.count_append, hfirst, ih, List.append_assoc,
        List.singleton_append, List.count_append, htotal]
      by_cases hsame : first = field
      · subst hsame
        simp only [List.count_singleton_self, true_and]
        split <;> split <;> split <;> omega
      · have hzero : [first].count field = 0 := by simp [hsame]
        rw [if_neg (fun h => hsame h.1), hzero]
        simp

end Counts

section Reports

variable {fields : List String} {warning : Warning}

theorem exists_causes_of_mem_fieldWarnings
    (h : warning ∈ fieldWarnings [] fields) :
    ∃ position, Causes fields position warning := by
  rw [← map_snd_locatedWarnings] at h
  obtain ⟨⟨position, _⟩, hmem, rfl⟩ := List.mem_map.mp h
  exact ⟨position, (mem_locatedWarnings_iff.mp hmem).2⟩

theorem count_fieldWarnings_eq_zero
    (h : ∀ position, ¬ Causes fields position warning) :
    (fieldWarnings [] fields).count warning = 0 := by
  rw [List.count_eq_zero]
  intro hmem
  obtain ⟨position, hcauses⟩ := exists_causes_of_mem_fieldWarnings hmem
  exact h position hcauses

theorem fieldWarnings_eq_nil_iff :
    fieldWarnings [] fields = [] ↔
      fields.Nodup ∧ ∀ field ∈ fields, isIdentifier field = true := by
  rw [List.nodup_iff_count_le_one]
  constructor
  · intro hnil
    refine ⟨fun field => ?_, fun field hmem => ?_⟩
    · have hcount := count_duplicate_fieldWarnings [] fields field
      rw [hnil, List.nil_append, List.count_nil, List.count_nil] at hcount
      by_contra hmany
      rw [if_pos (by omega)] at hcount
      exact absurd hcount nofun
    · have hcount := count_invalid_fieldWarnings [] fields field
      rw [hnil, List.count_nil] at hcount
      by_contra hname
      rw [if_neg hname] at hcount
      exact absurd hmem (List.count_eq_zero.mp hcount.symm)
  · rintro ⟨honce, hnames⟩
    rw [List.eq_nil_iff_forall_not_mem]
    intro warning hmem
    have hpositive := List.count_pos_iff.mpr hmem
    obtain ⟨position, hcauses⟩ := exists_causes_of_mem_fieldWarnings hmem
    cases hcauses with
    | invalid hfield hname =>
        have hvalid := hnames _ (List.mem_of_getElem? hfield)
        exact absurd (hname.symm.trans hvalid) nofun
    | @repeated field =>
        rw [count_duplicate_fieldWarnings, if_neg] at hpositive
        · exact absurd hpositive (Nat.lt_irrefl 0)
        · exact fun h => absurd (honce field) (Nat.not_le_of_lt h.2)

end Reports

/-! All warnings on a configuration. -/

theorem warnings_eq (config : Config) : config.warnings =
    (if config.defaultFields = [] then [.noDefaultFields] else []) ++
      fieldWarnings [] config.defaultFields ++
      (if config.page.size = 0 then [.zeroPageSize] else []) := by
  simp only [warnings, List.isEmpty_iff]

theorem count_warnings (config : Config) (warning : Warning)
    (hfields : warning ≠ .noDefaultFields) (hsize : warning ≠ .zeroPageSize) :
    config.warnings.count warning =
      (fieldWarnings [] config.defaultFields).count warning := by
  rw [warnings_eq, List.count_append, List.count_append]
  split <;> split <;> simp [hfields.symm, hsize.symm]

theorem not_causes_noDefaultFields (fields : List String) (position : Nat) :
    ¬ Causes fields position .noDefaultFields := nofun

theorem not_causes_zeroPageSize (fields : List String) (position : Nat) :
    ¬ Causes fields position .zeroPageSize := nofun

/-- There are no warnings exactly on what gives no cause for any. A repeated
name is reported once, a name that is no field name each time that it occurs,
and each setting once; what is reported of the fields comes in the order of the
positions that cause it. -/
theorem warnings_report_causes (config : Config) :
    (config.warnings = [] ↔
        config.defaultFields ≠ [] ∧
          config.defaultFields.Nodup ∧
          (∀ field ∈ config.defaultFields, isIdentifier field = true) ∧
          config.page.size ≠ 0) ∧
      (∀ field, config.warnings.count (.duplicateField field) =
        if 2 ≤ config.defaultFields.count field then 1 else 0) ∧
      (∀ field, config.warnings.count (.invalidFieldName field) =
        if isIdentifier field then 0 else config.defaultFields.count field) ∧
      config.warnings.count .noDefaultFields =
        (if config.defaultFields = [] then 1 else 0) ∧
      config.warnings.count .zeroPageSize =
        (if config.page.size = 0 then 1 else 0) ∧
      ∃ caused : List (Nat × Warning),
        config.warnings =
            (if config.defaultFields = [] then [.noDefaultFields] else []) ++
              caused.map Prod.snd ++
              (if config.page.size = 0 then [.zeroPageSize] else []) ∧
          (∀ position warning, (position, warning) ∈ caused ↔
            Causes config.defaultFields position warning) ∧
          caused.Pairwise fun earlier later => earlier.1 ≤ later.1 := by
  refine ⟨?_, fun field => ?_, fun field => ?_, ?_, ?_,
    locatedWarnings [] config.defaultFields, ?_, fun position warning => ?_,
    pairwise_locatedWarnings _ _⟩
  · rw [warnings_eq, List.append_eq_nil_iff, List.append_eq_nil_iff,
      fieldWarnings_eq_nil_iff]
    simp [and_assoc]
  · rw [count_warnings config (.duplicateField field) nofun nofun,
      count_duplicate_fieldWarnings]
    simp
  · rw [count_warnings config (.invalidFieldName field) nofun nofun,
      count_invalid_fieldWarnings]
  · rw [warnings_eq, List.count_append, List.count_append,
      count_fieldWarnings_eq_zero (not_causes_noDefaultFields _)]
    split <;> split <;> simp
  · rw [warnings_eq, List.count_append, List.count_append,
      count_fieldWarnings_eq_zero (not_causes_zeroPageSize _)]
    split <;> split <;> simp
  · rw [map_snd_locatedWarnings, warnings_eq]
  · rw [mem_locatedWarnings_iff, List.nil_append]
    exact and_iff_right (Nat.zero_le _)

example : (Config.mk ["a b", "c", "a b", "c", "c"] ⟨0, 0⟩ []).warnings =
    [.invalidFieldName "a b", .invalidFieldName "a b", .duplicateField "a b",
      .duplicateField "c", .zeroPageSize] := by
  decide

end TermSearch.Config
