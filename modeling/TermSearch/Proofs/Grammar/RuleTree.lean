import Mathlib.Data.List.Nodup
import TermSearch.Proofs.Grammar.Furthest

namespace TermSearch

/-! The report of a refused query by rules. Whatever was looked for, and in
whatever order, each path of rules gets one line below the line of the path it
continues, with all that its last rule looked for. -/

theorem eraseDups_concat [DecidableEq α] (values : List α) (value : α) :
    (values ++ [value]).eraseDups = addNew value values.eraseDups := by
  simp only [List.eraseDups_append, addNew, List.mem_eraseDups]
  split <;> simp_all [List.removeAll, List.eraseDups_cons]

theorem nodup_eraseDups [DecidableEq α] (values : List α) :
    values.eraseDups.Nodup := by
  induction values using List.reverseRecOn with
  | nil => exact List.nodup_nil
  | append_singleton values value ih =>
      rw [eraseDups_concat]
      exact nodup_addNew ih

namespace RuleForest

/-! The expectations of a path. -/

/-- The rules that were called right after the path, where each first occurs. -/
def childrenAt (path : List String) (expectations : List Expectation) :
    List String :=
  (expectations.filterMap fun e =>
    if path <+: e.rules then e.rules[path.length]? else none).eraseDups

/-- What the last rule of the path itself looked for, where each label first
occurs. -/
def labelsAt (path : List String) (expectations : List Expectation) :
    List String :=
  (expectations.filterMap fun e =>
    if e.rules = path then some e.expected else none).eraseDups

/-- The expectations as the rule of that name sees them, when it is the
outermost one. -/
def below (name : String) (expectations : List Expectation) :
    List Expectation :=
  expectations.filterMap fun e =>
    if e.rules.head? = some name then some ⟨e.expected, e.rules.tail⟩ else none

theorem mem_below {name : String} {expectations : List Expectation}
    {label : String} {rules : List String} :
    ⟨label, rules⟩ ∈ below name expectations ↔
      ⟨label, name :: rules⟩ ∈ expectations := by
  rw [below, List.mem_filterMap]
  constructor
  · intro h
    obtain ⟨⟨expected, path⟩, hmem, hname⟩ := h
    split at hname
    · rename_i hhead
      cases path with
      | nil => cases hhead
      | cons first path =>
          cases hhead
          cases hname
          exact hmem
    · cases hname
  · intro h
    exact ⟨_, h, by simp⟩

theorem below_concat (name : String) (expectations : List Expectation)
    (e : Expectation) :
    below name (expectations ++ [e]) =
      below name expectations ++
        if e.rules.head? = some name then [⟨e.expected, e.rules.tail⟩]
        else [] := by
  rw [below, List.filterMap_append]
  split <;> simp [below, *]

theorem filterMap_below {name : String}
    {pick pickBelow : Expectation → Option String}
    (h : ∀ label rules, pick ⟨label, rules⟩ =
      if rules.head? = some name then pickBelow ⟨label, rules.tail⟩ else none)
    (expectations : List Expectation) :
    expectations.filterMap pick =
      (below name expectations).filterMap pickBelow := by
  rw [below, List.filterMap_filterMap]
  refine List.filterMap_congr fun e _ => ?_
  rw [h]
  split <;> rfl

theorem childrenAt_cons (name : String) (path : List String)
    (expectations : List Expectation) :
    childrenAt (name :: path) expectations =
      childrenAt path (below name expectations) := by
  refine congrArg List.eraseDups
    (filterMap_below (fun label rules => ?_) expectations)
  cases rules with
  | nil => simp
  | cons first rules =>
      by_cases hfirst : first = name
      · by_cases hpath : path <+: rules <;> simp [hfirst, hpath]
      · simp [hfirst, Ne.symm hfirst]

theorem labelsAt_cons (name : String) (path : List String)
    (expectations : List Expectation) :
    labelsAt (name :: path) expectations =
      labelsAt path (below name expectations) := by
  refine congrArg List.eraseDups
    (filterMap_below (fun label rules => ?_) expectations)
  cases rules with
  | nil => simp
  | cons first rules =>
      by_cases hfirst : first = name <;> simp [hfirst]

theorem mem_childrenAt_nil {name : String} {expectations : List Expectation} :
    name ∈ childrenAt [] expectations ↔
      ∃ e ∈ expectations, e.rules.head? = some name := by
  rw [childrenAt, List.mem_eraseDups, List.mem_filterMap]
  simp [List.head?_eq_getElem?]

theorem mem_labelsAt {label : String} {path : List String}
    {expectations : List Expectation} :
    label ∈ labelsAt path expectations ↔ ⟨label, path⟩ ∈ expectations := by
  rw [labelsAt, List.mem_eraseDups, List.mem_filterMap]
  constructor
  · intro h
    obtain ⟨⟨expected, rules⟩, hmem, hrules⟩ := h
    split at hrules
    · rename_i hsame
      cases hsame
      cases hrules
      exact hmem
    · cases hrules
  · intro h
    exact ⟨_, h, by simp⟩

theorem childrenAt_nil_concat (expectations : List Expectation)
    (e : Expectation) :
    childrenAt [] (expectations ++ [e]) =
      e.rules.head?.elim (childrenAt [] expectations)
        (addNew · (childrenAt [] expectations)) := by
  obtain ⟨label, rules⟩ := e
  rw [childrenAt, List.filterMap_append]
  cases rules with
  | nil => simp [childrenAt]
  | cons name rules =>
      rw [show List.filterMap _ [(⟨label, name :: rules⟩ : Expectation)] =
        [name] by simp, eraseDups_concat]
      rfl

theorem labelsAt_nil_concat (expectations : List Expectation)
    (e : Expectation) :
    labelsAt [] (expectations ++ [e]) =
      if e.rules = [] then addNew e.expected (labelsAt [] expectations)
      else labelsAt [] expectations := by
  rw [labelsAt, List.filterMap_append]
  split
  · rename_i hnil
    rw [show List.filterMap _ [e] = [e.expected] by simp [hnil],
      eraseDups_concat]
    rfl
  · rename_i hne
    rw [show List.filterMap _ [e] = [] by simp [hne], List.append_nil]
    rfl

/-! The tree of rules: below each outermost rule stands the tree of what that
rule saw. -/

def note (label : String) (rules : List String) (node : RuleNode) : RuleNode :=
  .mk node.name
    (if rules = [] then addNew label node.expected else node.expected)
    (insert label rules node.children)

theorem insert_cons (label name : String) (rules : List String)
    (forest : RuleForest) :
    forest.insert label (name :: rules) =
      alter name (note label rules) forest := by
  cases rules with
  | nil =>
      rw [insert]
      rfl
  | cons next rules =>
      rw [insert]
      · rfl
      · simp

theorem alter_map {name : String} {change : RuleNode → RuleNode}
    {node : String → RuleNode} (hname : ∀ n, (node n).name = n)
    {names : List String} (hnames : names.Nodup)
    (habsent : name ∉ names → node name = .mk name [] []) :
    alter name change (names.map node) =
      (addNew name names).map fun n =>
        if n = name then change (node n) else node n := by
  induction names with
  | nil =>
      have hnode := habsent (by simp)
      simp [alter, addNew, hnode]
  | cons first names ih =>
      obtain ⟨hfirst, hnames⟩ := List.nodup_cons.mp hnames
      rw [List.map_cons, alter, hname]
      by_cases hsame : first = name
      · subst hsame
        rw [if_pos rfl, addNew, if_pos List.mem_cons_self,
          List.map_cons, if_pos rfl]
        congr 1
        apply List.map_congr_left
        intro n hn
        have hne : n ≠ first := fun h => hfirst (h ▸ hn)
        rw [if_neg hne]
      · have hnew :
            addNew name (first :: names) = first :: addNew name names := by
          have hne : ¬ name = first := fun h => hsame h.symm
          simp only [addNew, List.mem_cons, hne, false_or]
          split <;> rfl
        rw [if_neg hsame, hnew, List.map_cons, if_neg hsame, ih hnames]
        intro habs
        apply habsent
        simp only [List.mem_cons, not_or]
        exact ⟨fun h => hsame h.symm, habs⟩

theorem ofExpectations_concat (expectations : List Expectation)
    (e : Expectation) :
    ofExpectations (expectations ++ [e]) =
      (ofExpectations expectations).insert e.expected e.rules := by
  simp [ofExpectations]

def nodeOf (expectations : List Expectation) (name : String) : RuleNode :=
  .mk name (labelsAt [name] expectations)
    (ofExpectations (below name expectations))

theorem nodeOf_concat (expectations : List Expectation) (e : Expectation)
    (name : String) :
    nodeOf (expectations ++ [e]) name =
      if e.rules.head? = some name then
        note e.expected e.rules.tail (nodeOf expectations name)
      else nodeOf expectations name := by
  rw [nodeOf, labelsAt_cons, below_concat]
  split
  · rw [labelsAt_nil_concat, ofExpectations_concat, ← labelsAt_cons]
    rfl
  · rw [List.append_nil, ← labelsAt_cons]
    rfl

theorem ofExpectations_eq (expectations : List Expectation) :
    ofExpectations expectations =
      (childrenAt [] expectations).map (nodeOf expectations) := by
  induction expectations using List.reverseRecOn with
  | nil => rfl
  | append_singleton expectations e ih =>
      obtain ⟨label, rules⟩ := e
      rw [ofExpectations_concat, childrenAt_nil_concat,
        funext (nodeOf_concat expectations _), ih]
      cases rules with
      | nil =>
          simp only [List.head?_nil, Option.elim_none, reduceCtorEq, if_false]
          rfl
      | cons name rules =>
          have habsent : name ∉ childrenAt [] expectations →
              nodeOf expectations name = .mk name [] [] := by
            intro hname
            have hnone : below name expectations = [] := by
              rw [List.eq_nil_iff_forall_not_mem]
              intro e he
              exact hname (mem_childrenAt_nil.mpr ⟨_, mem_below.mp he, rfl⟩)
            rw [nodeOf, labelsAt_cons, hnone]
            rfl
          have hnodup : (childrenAt [] expectations).Nodup := nodup_eraseDups _
          rw [insert_cons, alter_map (fun _ => rfl) hnodup habsent]
          simp only [List.head?_cons, Option.elim_some, List.tail_cons,
            Option.some.injEq]
          simp only [eq_comm (a := name)]

def pathsLength : List Expectation → Nat
  | [] => 0
  | e :: expectations => e.rules.length + pathsLength expectations

theorem pathsLength_below_add_length_le (name : String)
    (expectations : List Expectation) :
    pathsLength (below name expectations) + (below name expectations).length ≤
      pathsLength expectations := by
  induction expectations with
  | nil => exact Nat.le_refl 0
  | cons e expectations ih =>
      obtain ⟨label, rules⟩ := e
      rw [below, List.filterMap_cons]
      cases rules with
      | nil => simpa [below, pathsLength] using ih
      | cons first rules =>
          rw [below] at ih
          by_cases hfirst : first = name
          · simp only [hfirst, List.head?_cons, if_true, List.tail_cons,
              pathsLength, List.length_cons]
            omega
          · simp only [List.head?_cons, Option.some.injEq, hfirst, if_false,
              pathsLength, List.length_cons]
            omega

theorem pathsLength_below_lt {name : String} {expectations : List Expectation}
    (h : name ∈ childrenAt [] expectations) :
    pathsLength (below name expectations) < pathsLength expectations := by
  obtain ⟨⟨label, rules⟩, hmem, hhead⟩ := mem_childrenAt_nil.mp h
  obtain ⟨path, rfl⟩ := List.head?_eq_some_iff.mp hhead
  have hpositive := List.length_pos_of_mem (mem_below.mpr hmem)
  have hle := pathsLength_below_add_length_le name expectations
  omega

/-- What holds of expectations if it holds below each of their outermost
rules. -/
@[elab_as_elim]
theorem below_induction {motive : List Expectation → Prop}
    (step : ∀ expectations,
      (∀ name ∈ childrenAt [] expectations, motive (below name expectations)) →
        motive expectations)
    (expectations : List Expectation) : motive expectations :=
  step expectations fun name _ => below_induction step (below name expectations)
termination_by pathsLength expectations
decreasing_by exact pathsLength_below_lt ‹_›

end RuleForest

/-! What the tree holds. -/

namespace RuleNode

/-- No two rules that were called from the same place have one name. -/
def IsDistinct : RuleNode → Prop
  | .mk _ _ children =>
      (children.map name).Nodup ∧ ∀ node ∈ children, node.IsDistinct

def entries : RuleNode → List (List String × String)
  | .mk name expected children =>
      expected.map ([name], ·) ++
        (children.flatMap entries).map fun entry => (name :: entry.1, entry.2)

def paths : RuleNode → List (List String)
  | .mk name _ children => [name] :: (children.flatMap paths).map (name :: ·)

variable {node : RuleNode}

theorem head?_of_mem_entries {entry : List String × String}
    (h : entry ∈ node.entries) : entry.1.head? = some node.name := by
  obtain ⟨name, expected, children⟩ := node
  rw [entries] at h
  rcases List.mem_append.mp h with h | h
  · obtain ⟨label, -, rfl⟩ := List.mem_map.mp h
    rfl
  · obtain ⟨found, -, rfl⟩ := List.mem_map.mp h
    rfl

theorem head?_of_mem_paths {path : List String} (h : path ∈ node.paths) :
    path.head? = some node.name := by
  obtain ⟨name, expected, children⟩ := node
  rw [paths] at h
  rcases List.mem_cons.mp h with rfl | h
  · rfl
  · obtain ⟨more, -, rfl⟩ := List.mem_map.mp h
    rfl

end RuleNode

namespace RuleForest

def IsDistinct (forest : RuleForest) : Prop :=
  (forest.map RuleNode.name).Nodup ∧ ∀ node ∈ forest, node.IsDistinct

def entries (forest : RuleForest) : List (List String × String) :=
  forest.flatMap RuleNode.entries

def paths (forest : RuleForest) : List (List String) :=
  forest.flatMap RuleNode.paths

theorem isDistinct_ofExpectations (expectations : List Expectation) :
    (ofExpectations expectations).IsDistinct := by
  induction expectations using below_induction with
  | step expectations ih =>
      rw [ofExpectations_eq]
      constructor
      · rw [List.map_map,
          show RuleNode.name ∘ nodeOf expectations = id from rfl, List.map_id]
        exact nodup_eraseDups _
      · rw [List.forall_mem_map]
        intro name hname
        rw [nodeOf, RuleNode.IsDistinct]
        exact ih name hname

theorem entries_ofExpectations (expectations : List Expectation) :
    (ofExpectations expectations).entries =
      (childrenAt [] expectations).flatMap fun name =>
        (nodeOf expectations name).entries := by
  rw [ofExpectations_eq, entries, List.flatMap_map]

theorem entries_nodeOf (expectations : List Expectation) (name : String) :
    (nodeOf expectations name).entries =
      (labelsAt [name] expectations).map ([name], ·) ++
        (ofExpectations (below name expectations)).entries.map fun entry =>
          (name :: entry.1, entry.2) := by
  rw [nodeOf, RuleNode.entries]
  rfl

theorem paths_ofExpectations (expectations : List Expectation) :
    (ofExpectations expectations).paths =
      (childrenAt [] expectations).flatMap fun name =>
        (nodeOf expectations name).paths := by
  rw [ofExpectations_eq, paths, List.flatMap_map]

theorem paths_nodeOf (expectations : List Expectation) (name : String) :
    (nodeOf expectations name).paths =
      [name] ::
        (ofExpectations (below name expectations)).paths.map (name :: ·) := by
  rw [nodeOf, RuleNode.paths]
  rfl

theorem mem_entries_iff {expectations : List Expectation}
    {rules : List String} {label : String} :
    (rules, label) ∈ (ofExpectations expectations).entries ↔
      rules ≠ [] ∧ ⟨label, rules⟩ ∈ expectations := by
  induction expectations using below_induction generalizing rules with
  | step expectations ih =>
      rw [entries_ofExpectations, List.mem_flatMap]
      constructor
      · intro h
        obtain ⟨name, hname, hmem⟩ := h
        rw [entries_nodeOf] at hmem
        rcases List.mem_append.mp hmem with hmem | hmem
        · obtain ⟨found, hfound, hpair⟩ := List.mem_map.mp hmem
          cases hpair
          exact ⟨by simp, mem_labelsAt.mp hfound⟩
        · obtain ⟨⟨path, found⟩, hfound, hpair⟩ := List.mem_map.mp hmem
          cases hpair
          exact ⟨by simp, mem_below.mp ((ih name hname).mp hfound).2⟩
      · intro h
        obtain ⟨hne, hmem⟩ := h
        cases rules with
        | nil => exact absurd rfl hne
        | cons name rules =>
            have hname : name ∈ childrenAt [] expectations :=
              mem_childrenAt_nil.mpr ⟨_, hmem, rfl⟩
            refine ⟨name, hname, ?_⟩
            rw [entries_nodeOf, List.mem_append]
            cases rules with
            | nil =>
                exact .inl
                  (List.mem_map.mpr ⟨label, mem_labelsAt.mpr hmem, rfl⟩)
            | cons next rules =>
                have hbelow := (ih name hname).mpr ⟨by simp, mem_below.mpr hmem⟩
                exact .inr (List.mem_map.mpr ⟨_, hbelow, rfl⟩)

theorem nodup_entries (expectations : List Expectation) :
    (ofExpectations expectations).entries.Nodup := by
  induction expectations using below_induction with
  | step expectations ih =>
      rw [entries_ofExpectations, List.nodup_flatMap]
      constructor
      · intro name hname
        rw [entries_nodeOf, List.nodup_append]
        refine ⟨?_, ?_, ?_⟩
        · exact (nodup_eraseDups _).map fun _ _ h => (Prod.mk.inj h).2
        · refine (ih name hname).map fun entry other h => ?_
          simp only [Prod.mk.injEq, List.cons.injEq, true_and] at h
          exact Prod.ext h.1 h.2
        · intro entry hentry other hother hsame
          obtain ⟨label, -, rfl⟩ := List.mem_map.mp hentry
          obtain ⟨⟨path, found⟩, hfound, rfl⟩ := List.mem_map.mp hother
          cases hsame
          exact (mem_entries_iff.mp hfound).1 rfl
      · refine (nodup_eraseDups _).imp
          fun {name other} hne entry hentry hother => ?_
        have hname := RuleNode.head?_of_mem_entries hentry
        exact hne (Option.some.inj
          (hname.symm.trans (RuleNode.head?_of_mem_entries hother)))

theorem mem_paths_iff {expectations : List Expectation} {path : List String} :
    path ∈ (ofExpectations expectations).paths ↔
      path ≠ [] ∧ ∃ e ∈ expectations, path <+: e.rules := by
  induction expectations using below_induction generalizing path with
  | step expectations ih =>
      rw [paths_ofExpectations, List.mem_flatMap]
      constructor
      · intro h
        obtain ⟨name, hname, hmem⟩ := h
        rw [paths_nodeOf] at hmem
        rcases List.mem_cons.mp hmem with rfl | hmem
        · obtain ⟨e, hmem, hhead⟩ := mem_childrenAt_nil.mp hname
          obtain ⟨rules, hrules⟩ := List.head?_eq_some_iff.mp hhead
          exact ⟨by simp, e, hmem, rules, hrules.symm⟩
        · obtain ⟨more, hmore, rfl⟩ := List.mem_map.mp hmem
          obtain ⟨-, ⟨label, rules⟩, hfound, hbelow⟩ := (ih name hname).mp hmore
          exact ⟨by simp, _, mem_below.mp hfound,
            (List.prefix_cons_inj name).mpr hbelow⟩
      · intro h
        obtain ⟨hne, ⟨label, rules⟩, hmem, more, hpath⟩ := h
        cases path with
        | nil => exact absurd rfl hne
        | cons name path =>
            simp only [List.cons_append] at hpath
            subst hpath
            have hname : name ∈ childrenAt [] expectations :=
              mem_childrenAt_nil.mpr ⟨_, hmem, rfl⟩
            refine ⟨name, hname, ?_⟩
            rw [paths_nodeOf]
            cases path with
            | nil => exact List.mem_cons_self
            | cons next path =>
                have hbelow : next :: path ∈
                    (ofExpectations (below name expectations)).paths :=
                  (ih name hname).mpr
                    ⟨by simp, _, mem_below.mpr hmem, more, rfl⟩
                exact List.mem_cons_of_mem _ (List.mem_map_of_mem hbelow)

/-! In which order the paths stand. -/

/-- Some expectation was met on the first path before any was met on the
second. -/
def OccursBefore (expectations : List Expectation)
    (first second : List String) : Prop :=
  ∃ before e after, expectations = before ++ e :: after ∧ first <+: e.rules ∧
    ∀ other ∈ before ++ [e], ¬ second <+: other.rules

/-- The first path is continued by the second one, or they part and there the
first one goes on with the rule that occurs before the other. -/
def IsAbove (expectations : List Expectation)
    (first second : List String) : Prop :=
  first <+: second ∨
    ∃ common name other path another, first = common ++ name :: path ∧
      second = common ++ other :: another ∧
      OccursBefore expectations (common ++ [name]) (common ++ [other])

theorem OccursBefore.concat {expectations : List Expectation}
    {first second : List String} (h : OccursBefore expectations first second)
    (e : Expectation) : OccursBefore (expectations ++ [e]) first second := by
  obtain ⟨before, found, after, rfl, hfirst, hsecond⟩ := h
  exact ⟨before, found, after ++ [e], by simp, hfirst, hsecond⟩

theorem pairwise_childrenAt_nil (expectations : List Expectation) :
    (childrenAt [] expectations).Pairwise fun name other =>
      OccursBefore expectations [name] [other] := by
  induction expectations using List.reverseRecOn with
  | nil => exact List.Pairwise.nil
  | append_singleton expectations e ih =>
      have hmore := ih.imp fun h => OccursBefore.concat h e
      obtain ⟨label, rules⟩ := e
      rw [childrenAt_nil_concat]
      cases rules with
      | nil => exact hmore
      | cons other rules =>
          change List.Pairwise _ (addNew other _)
          unfold addNew
          split
          · exact hmore
          · rename_i hnew
            rw [List.pairwise_append]
            refine ⟨hmore, List.pairwise_singleton _ _, ?_⟩
            intro name hname another hother
            cases List.mem_singleton.mp hother
            obtain ⟨found, hmem, hhead⟩ := mem_childrenAt_nil.mp hname
            obtain ⟨before, after, rfl⟩ := List.append_of_mem hmem
            obtain ⟨path, hpath⟩ := List.head?_eq_some_iff.mp hhead
            refine ⟨before, found, after ++ [⟨label, other :: rules⟩], by simp,
              ⟨path, hpath.symm⟩, ?_⟩
            intro e he hprefix
            obtain ⟨more, hrules⟩ := hprefix
            have hknown : e ∈ before ++ found :: after := by
              rcases List.mem_append.mp he with he | he
              · exact List.mem_append_left _ he
              · cases List.mem_singleton.mp he
                exact hmem
            exact hnew
              (mem_childrenAt_nil.mpr ⟨e, hknown, by rw [← hrules]; rfl⟩)

theorem OccursBefore.of_below {name : String}
    {expectations : List Expectation} {first second : List String}
    (h : OccursBefore (below name expectations) first second) :
    OccursBefore expectations (name :: first) (name :: second) := by
  obtain ⟨inner, ⟨label, rules⟩, rest, hsplit, hfirst, hsecond⟩ := h
  obtain ⟨outer, more, rfl, houter, hmore⟩ :=
    List.filterMap_eq_append_iff.mp hsplit
  obtain ⟨skipped, e, after, rfl, hskipped, he, -⟩ :=
    List.filterMap_eq_cons_iff.mp hmore
  have hfound : ⟨label, name :: rules⟩ = e := by
    obtain ⟨expected, path⟩ := e
    split at he
    · rename_i hhead
      obtain ⟨tail, rfl⟩ := List.head?_eq_some_iff.mp hhead
      cases he
      rfl
    · cases he
  subst hfound
  refine ⟨outer ++ skipped, ⟨label, name :: rules⟩, after, by simp,
    (List.prefix_cons_inj name).mpr hfirst, ?_⟩
  intro other hother hprefix
  obtain ⟨expected, path⟩ := other
  obtain ⟨tail, rfl⟩ := hprefix
  have hbelow : ⟨expected, second ++ tail⟩ ∈ inner ++ [⟨label, rules⟩] := by
    rcases List.mem_append.mp hother with hother | hother
    · rcases List.mem_append.mp hother with hother | hother
      · rw [← houter]
        exact List.mem_append_left _ (mem_below.mpr hother)
      · exact absurd (hskipped _ hother) (by simp)
    · cases List.mem_singleton.mp hother
      exact List.mem_append_right _ (List.mem_singleton.mpr rfl)
  exact hsecond _ hbelow ⟨tail, rfl⟩

theorem IsAbove.of_below {name : String} {expectations : List Expectation}
    {first second : List String}
    (h : IsAbove (below name expectations) first second) :
    IsAbove expectations (name :: first) (name :: second) := by
  rcases h with h | ⟨common, former, latter, path, another, rfl, rfl, h⟩
  · exact .inl ((List.prefix_cons_inj name).mpr h)
  · exact .inr
      ⟨name :: common, former, latter, path, another, rfl, rfl, h.of_below⟩

theorem pairwise_paths (expectations : List Expectation) :
    (ofExpectations expectations).paths.Pairwise (IsAbove expectations) := by
  induction expectations using below_induction with
  | step expectations ih =>
      rw [paths_ofExpectations, List.pairwise_flatMap]
      constructor
      · intro name hname
        rw [paths_nodeOf, List.pairwise_cons]
        constructor
        · intro path hpath
          obtain ⟨more, -, rfl⟩ := List.mem_map.mp hpath
          exact .inl ⟨more, rfl⟩
        · rw [List.pairwise_map]
          exact (ih name hname).imp IsAbove.of_below
      · refine (pairwise_childrenAt_nil expectations).imp ?_
        intro name other h path hpath another hother
        obtain ⟨path, rfl⟩ :=
          List.head?_eq_some_iff.mp (RuleNode.head?_of_mem_paths hpath)
        obtain ⟨another, rfl⟩ :=
          List.head?_eq_some_iff.mp (RuleNode.head?_of_mem_paths hother)
        exact .inr ⟨[], name, other, path, another, rfl, rfl, h⟩

theorem nodup_paths (expectations : List Expectation) :
    (ofExpectations expectations).paths.Nodup := by
  induction expectations using below_induction with
  | step expectations ih =>
      rw [paths_ofExpectations, List.nodup_flatMap]
      constructor
      · intro name hname
        rw [paths_nodeOf, List.nodup_cons]
        constructor
        · intro h
          obtain ⟨path, hpath, hsame⟩ := List.mem_map.mp h
          cases hsame
          exact (mem_paths_iff.mp hpath).1 rfl
        · exact (ih name hname).map fun _ _ h => (List.cons.inj h).2
      · refine (nodup_eraseDups _).imp fun {name other} hne path hpath hother =>
          ?_
        have hname := RuleNode.head?_of_mem_paths hpath
        exact hne (Option.some.inj
          (hname.symm.trans (RuleNode.head?_of_mem_paths hother)))

/-! What the line of a path says. -/

def isLastChild (expectations : List Expectation) (parent : List String)
    (name : String) : Bool :=
  (childrenAt parent expectations).getLast? == some name

def headingOf (name : String) (labels : List String) : String :=
  if labels = [] then name
  else name ++ ": expected " ++ Text.alternatives labels

/-- A line has a branch for each rule of the path: the last one leads to its
heading, and the others go on to their own next sibling, if there is one. -/
def lineOf (expectations : List Expectation) (parent : List String) :
    List String → String
  | [] => ""
  | [name] =>
      (if isLastChild expectations parent name then "└─ " else "├─ ") ++
        headingOf name (labelsAt (parent ++ [name]) expectations)
  | name :: next :: path =>
      (if isLastChild expectations parent name then "   " else "│  ") ++
        lineOf expectations (parent ++ [name]) (next :: path)

theorem lineOf_below (expectations : List Expectation) (name : String)
    (parent path : List String) :
    lineOf (below name expectations) parent path =
      lineOf expectations (name :: parent) path := by
  induction path generalizing parent with
  | nil => rfl
  | cons first path ih =>
      cases path with
      | nil =>
          rw [lineOf, lineOf, isLastChild, isLastChild, childrenAt_cons,
            List.cons_append, labelsAt_cons]
      | cons next path =>
          rw [lineOf, lineOf, ih, isLastChild, isLastChild, childrenAt_cons,
            List.cons_append]

/-- Among siblings that are all different, the last one is the one that nothing
follows. -/
theorem isLastChild_eq_isEmpty {expectations : List Expectation}
    {before after : List String} {name : String}
    (h : childrenAt [] expectations = before ++ name :: after) :
    isLastChild expectations [] name = after.isEmpty := by
  have hnodup : (before ++ name :: after).Nodup := h ▸ nodup_eraseDups _
  rw [isLastChild, h]
  cases after with
  | nil => simp
  | cons next after =>
      have hother : (before ++ name :: next :: after).getLast? ≠ some name := by
        intro hlast
        rw [List.getLast?_append_cons, List.getLast?_cons_cons] at hlast
        exact (List.nodup_cons.mp (List.nodup_append.mp hnodup).2.1).1
          (List.mem_of_getLast? hlast)
      simpa using hother

theorem lines_nodeOf {expectations : List Expectation} {name : String}
    {branches : String}
    (h : ∀ branches,
      RuleNode.forestLines branches (ofExpectations (below name expectations)) =
        (ofExpectations (below name expectations)).paths.map
          (branches ++ lineOf (below name expectations) [] ·)) :
    RuleNode.lines branches (isLastChild expectations [] name)
        (nodeOf expectations name) =
      (nodeOf expectations name).paths.map
        (branches ++ lineOf expectations [] ·) := by
  rw [paths_nodeOf, nodeOf, RuleNode.lines, h, List.map_cons, List.map_map]
  congr 1
  · rw [lineOf, String.append_assoc]
    rfl
  · apply List.map_congr_left
    intro path hpath
    cases path with
    | nil => exact absurd rfl (mem_paths_iff.mp hpath).1
    | cons next path =>
        rw [Function.comp_apply, lineOf, lineOf_below, String.append_assoc]
        rfl

theorem forestLines_ofExpectations (expectations : List Expectation)
    (branches : String) :
    RuleNode.forestLines branches (ofExpectations expectations) =
      (ofExpectations expectations).paths.map
        (branches ++ lineOf expectations [] ·) := by
  induction expectations using below_induction generalizing branches with
  | step expectations ih =>
      have hsuffix (after before : List String)
          (hsplit : childrenAt [] expectations = before ++ after) :
          RuleNode.forestLines branches (after.map (nodeOf expectations)) =
            (after.flatMap fun name => (nodeOf expectations name).paths).map
                (branches ++ lineOf expectations [] ·) := by
        induction after generalizing before with
        | nil => rfl
        | cons name after ihafter =>
            have hmore := ihafter (before ++ [name]) (by simpa using hsplit)
            have hname : name ∈ childrenAt [] expectations := by simp [hsplit]
            rw [List.map_cons, RuleNode.forestLines, hmore,
              List.flatMap_cons, List.map_append, List.isEmpty_map,
              ← isLastChild_eq_isEmpty hsplit, lines_nodeOf (ih name hname)]
      rw [paths_ofExpectations, ofExpectations_eq]
      exact hsuffix _ [] rfl

/-- The prefixes of the paths on which something was looked for, in the order of
a tree: each below the one that it continues, and siblings in the order in which
they first occur. -/
structure IsOutline (expectations : List Expectation)
    (paths : List (List String)) : Prop where
  nodup : paths.Nodup
  mem_iff : ∀ path, path ∈ paths ↔
    path ≠ [] ∧ ∃ e ∈ expectations, path <+: e.rules
  ordered : paths.Pairwise (IsAbove expectations)

theorem isOutline_paths (expectations : List Expectation) :
    IsOutline expectations (ofExpectations expectations).paths :=
  ⟨nodup_paths expectations, fun _ => mem_paths_iff,
    pairwise_paths expectations⟩

end RuleForest

namespace SyntaxError

open RuleForest

/-- The tree of rules holds each expectation once, and the report has a line for
each path. -/
structure IsReportedByRules (error : SyntaxError) : Prop where
  distinct : (ofExpectations error.expected).IsDistinct
  nodup : (ofExpectations error.expected).entries.Nodup
  mem_iff : ∀ rules label,
    (rules, label) ∈ (ofExpectations error.expected).entries ↔
      ⟨label, rules⟩ ∈ error.expected
  report : ∃ paths, IsOutline error.expected paths ∧
    error.ruleReport =
      Text.unlines
        ((error.message ++ " at column " ++ toString error.column) ::
          paths.map (lineOf error.expected []))

theorem rules_ne_nil_of_parse_error {input : String} {error : SyntaxError}
    (h : SyntaxTree.parse input = .error error) :
    ∀ e ∈ error.expected, e.rules ≠ [] := by
  intro e he hnil
  have hhead := (Grammar.isCallPath_of_mem_andQueries
    (Grammar.mem_attempts_of_parse_error h he)).1
  simp only [hnil] at hhead
  cases hhead

/-- Every query that is refused is reported so, and so is every error whose
expectations name the rules that had them. -/
theorem ruleReport_shows_attempts_once :
    (∀ input error, SyntaxTree.parse input = .error error →
        ∀ e ∈ error.expected, e.rules ≠ []) ∧
      ∀ error : SyntaxError, (∀ e ∈ error.expected, e.rules ≠ []) →
        error.IsReportedByRules := by
  constructor
  · intro input error h
    exact rules_ne_nil_of_parse_error h
  · intro error hrules
    refine ⟨isDistinct_ofExpectations _, nodup_entries _, ?_, _,
      isOutline_paths _, ?_⟩
    · intro rules label
      rw [mem_entries_iff]
      exact ⟨And.right, fun hmem => ⟨hrules _ hmem, hmem⟩⟩
    · have hempty (line : String) : "" ++ line = line := by simp
      rw [ruleReport, lines, forestLines_ofExpectations]
      simp only [hempty]

theorem ruleReport_shows_attempts_once_interleaved :
    (∀ e ∈ [(⟨"b", ["r", "s"]⟩ : Expectation), ⟨"a", ["r", "t"]⟩,
        ⟨"c", ["r", "s"]⟩, ⟨"b", ["r", "s"]⟩, ⟨"b", ["r"]⟩], e.rules ≠ []) ∧
      SyntaxError.IsReportedByRules
        ⟨0, [⟨"b", ["r", "s"]⟩, ⟨"a", ["r", "t"]⟩, ⟨"c", ["r", "s"]⟩,
          ⟨"b", ["r", "s"]⟩, ⟨"b", ["r"]⟩], ":"⟩ ∧
      SyntaxError.ruleReport
          ⟨0, [⟨"b", ["r", "s"]⟩, ⟨"a", ["r", "t"]⟩, ⟨"c", ["r", "s"]⟩,
            ⟨"b", ["r", "s"]⟩, ⟨"b", ["r"]⟩], ":"⟩ =
        "expected b, a or c, found ':' at column 0\n" ++
        "└─ r: expected b\n   ├─ s: expected b or c\n   └─ t: expected a\n" :=
  ⟨by decide, ruleReport_shows_attempts_once.2 _ (by decide), by decide +kernel⟩

end SyntaxError

end TermSearch
