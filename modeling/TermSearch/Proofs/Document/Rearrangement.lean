import Mathlib.Data.List.Perm.Subperm
import TermSearch.Proofs.Document.Denotation
import TermSearch.Proofs.Document.RoundTrip
import TermSearch.Proofs.Json.Reordering

namespace TermSearch

/-! The order of members does not matter to what is read, and neither do further
members. -/

open Json

namespace FieldValues

section Entries

variable {field other : String}

theorem insertEntry_same (values : List String) (h : field = other)
    (others : List String) (entries : List (String × List String)) :
    insertEntry field values ((other, others) :: entries) =
      (field, values) :: entries := by
  rw [insertEntry, if_pos h]

theorem insertEntry_before (values : List String) (h : field < other)
    (others : List String) (entries : List (String × List String)) :
    insertEntry field values ((other, others) :: entries) =
      (field, values) :: (other, others) :: entries := by
  have hne : field ≠ other := by
    rintro rfl
    exact String.lt_irrefl _ h
  rw [insertEntry, if_neg hne, if_pos h]

theorem insertEntry_after (values : List String) (h : other < field)
    (others : List String) (entries : List (String × List String)) :
    insertEntry field values ((other, others) :: entries) =
      (other, others) :: insertEntry field values entries := by
  have hne : field ≠ other := by
    rintro rfl
    exact String.lt_irrefl _ h
  rw [insertEntry, if_neg hne, if_neg (String.lt_asymm h)]

end Entries

theorem insertEntry_comm_of_lt {first second : String} (h : first < second)
    (left right : List String)
    (entries : List (String × List String)) :
    insertEntry second right (insertEntry first left entries) =
      insertEntry first left (insertEntry second right entries) := by
  induction entries with
  | nil =>
      change insertEntry second right [(first, left)] =
        insertEntry first left [(second, right)]
      rw [insertEntry_after right h, insertEntry_before left h, insertEntry]
  | cons entry entries ih =>
      obtain ⟨name, values⟩ := entry
      rcases Std.lt_trichotomy first name with hfirst | hfirst | hfirst
      · rw [insertEntry_before left hfirst, insertEntry_after right h]
        rcases Std.lt_trichotomy second name with hsecond | hsecond | hsecond
        · rw [insertEntry_before right hsecond, insertEntry_before left h]
        · rw [insertEntry_same right hsecond, insertEntry_before left h]
        · rw [insertEntry_after right hsecond, insertEntry_before left hfirst]
      · rw [insertEntry_same left hfirst, insertEntry_after right h,
          insertEntry_after right (hfirst ▸ h), insertEntry_same left hfirst]
      · have hsecond := String.lt_trans hfirst h
        rw [insertEntry_after left hfirst, insertEntry_after right hsecond,
          insertEntry_after right hsecond, insertEntry_after left hfirst, ih]

theorem insert_comm {first second : String} (h : first ≠ second)
    (fields : FieldValues) (left right : List String) :
    (fields.insert first left).insert second right =
      (fields.insert second right).insert first left := by
  refine ext_entries ?_
  simp only [entries_insert]
  rcases Std.lt_trichotomy first second with hbefore | heq | hafter
  · exact insertEntry_comm_of_lt hbefore left right fields.entries
  · exact absurd heq h
  · exact (insertEntry_comm_of_lt hafter right left fields.entries).symm

theorem exchangeable_entries (levels : Nat) {first second : Name × Value}
    (h : first.1 ≠ second.1) :
    Exchangeable
      (fun name (fields : FieldValues) value =>
        (value.sequence? levels fun _ _ => Value.text?).map
          (fields.insert name)) first second := by
  refine .of_names fun left right hleft hright fields => ?_
  have hnames : String.ofList left ≠ String.ofList right := by
    intro heq
    rw [hleft, hright, String.ofList_injective heq] at h
    exact h rfl
  cases first.2.sequence? levels fun _ _ => Value.text? <;>
    cases second.2.sequence? levels fun _ _ => Value.text?
  · rfl
  · rfl
  · rfl
  · exact congrArg some (insert_comm hnames fields _ _)

theorem ofValue?_eq {levels : Nat} {old new : Value} (h : Reordered old new) :
    ofValue? levels old = ofValue? levels new := by
  induction h with
  | refl => rfl
  | trans _ _ ihleft ihright => exact ihleft.trans ihright
  | item => rfl
  | shuffled h =>
      refine Value.within?_congr fun inner _ => ?_
      exact h.foldMembers_eq (exchangeable_entries inner) empty
  | member left right name h =>
      refine Value.within?_congr fun inner _ => ?_
      refine Reordered.foldMembers_member (fun name fields => ?_) left
        right name empty
      rw [h.sequence?_eq fun _ _ => Reordered.text?_eq]

end FieldValues

namespace Clause

theorem ofValue?_eq {levels : Nat} {old new : Value} (h : Reordered old new) :
    ofValue? levels old = ofValue? levels new := by
  induction levels using Nat.strongRecOn generalizing old new with
  | ind levels ih =>
      rw [ofValue?]
      refine h.alternative?_eq fun name inner hinner old new h => ?_
      by_cases hname : name = "terms"
      · simp only [if_pos hname, FieldValues.ofValue?_eq h]
      · simp only [if_neg hname]
        refine h.alternative?_eq fun name inner' hinner' old new h => ?_
        refine congrArg _ (h.sequence?_eq fun inner'' hinner'' old new h => ?_)
        exact ih inner'' (hinner''.trans (hinner'.trans hinner)) h

end Clause

namespace QueryDocument

namespace Draft

section Fill

variable {α β : Type} {part : Draft → Option α} {put : Draft → α → Draft}
variable {other : Draft → Option β} {set : Draft → β → Draft}

theorem fill_comm (hpart : ∀ draft read, part (set draft read) = part draft)
    (hother : ∀ draft read, other (put draft read) = other draft)
    (hput : ∀ draft left right,
      set (put draft left) right = put (set draft right) left)
    (left : Option α) (right : Option β) (draft : Draft) :
    (draft.fill part put left).bind (fill other set right) =
      (draft.fill other set right).bind (fill part put left) := by
  unfold fill
  rcases Bool.eq_false_or_eq_true (part draft).isSome with htaken | htaken <;>
    rcases Bool.eq_false_or_eq_true (other draft).isSome with hset | hset <;>
    cases left <;> cases right <;> simp [htaken, hset, hpart, hother, hput]

theorem fill_twice (hput : ∀ draft read, (part (put draft read)).isSome = true)
    (left right : Option α) (draft : Draft) :
    (draft.fill part put left).bind (fill part put right) = none := by
  unfold fill
  split
  · rfl
  · cases left with
    | none => rfl
    | some left => exact if_pos (hput draft left)

end Fill

theorem eq_of_fill {α : Type} {part : Draft → Option α}
    {put : Draft → α → Draft} {read : Option α} {draft next : Draft}
    (h : draft.fill part put read = some next) :
    part draft = none ∧ ∃ value, next = put draft value := by
  unfold fill at h
  split at h
  · cases h
  · rename_i hpart
    obtain ⟨value, -, rfl⟩ := Option.map_eq_some_iff.mp h
    exact ⟨Option.not_isSome_iff_eq_none.mp hpart, value, rfl⟩

/-- What a member can do: it is one of the parts, which was not there yet, or it
is passed over. -/
theorem withMember?_cases {levels : Nat} {name : String} {draft next : Draft}
    {value : Value} (h : draft.withMember? levels name value = some next) :
    (name = "from" ∧
        draft.offset = none ∧
        ∃ offset, next = { draft with offset := some offset }) ∨
      (name = "size" ∧
        draft.size = none ∧
        ∃ size, next = { draft with size := some size }) ∨
      (name = "query" ∧
        draft.query = none ∧
        ∃ query, next = { draft with query := some query }) ∨
      next = draft := by
  unfold withMember? at h
  split at h
  · exact .inl ⟨rfl, eq_of_fill h⟩
  · exact .inr (.inl ⟨rfl, eq_of_fill h⟩)
  · exact .inr (.inr (.inl ⟨rfl, eq_of_fill h⟩))
  · exact .inr (.inr (.inr (Option.some.inj h).symm))

theorem withMember?_frame {levels : Nat} {name : String} {draft next : Draft}
    {value : Value} (h : draft.withMember? levels name value = some next) :
    (name ≠ "from" → next.offset = draft.offset) ∧
      (name ≠ "size" → next.size = draft.size) ∧
      (name ≠ "query" → next.query = draft.query) := by
  obtain ⟨rfl, -, _, rfl⟩ | ⟨rfl, -, _, rfl⟩ | ⟨rfl, -, _, rfl⟩ | rfl :=
    withMember?_cases h
  · exact ⟨fun hne => absurd rfl hne, fun _ => rfl, fun _ => rfl⟩
  · exact ⟨fun _ => rfl, fun hne => absurd rfl hne, fun _ => rfl⟩
  · exact ⟨fun _ => rfl, fun _ => rfl, fun hne => absurd rfl hne⟩
  · exact ⟨fun _ => rfl, fun _ => rfl, fun _ => rfl⟩

theorem withMember?_twice {name : String} (h : name ∈ names) (levels : Nat)
    (left right : Value) (draft : Draft) :
    ((draft.withMember? levels name left).bind fun next =>
      next.withMember? levels name right) = none := by
  simp only [names, List.mem_cons, List.not_mem_nil, or_false] at h
  rcases h with rfl | rfl | rfl
  all_goals
    simp only [withMember?]
    exact fill_twice (fun _ _ => rfl) _ _ draft

theorem withMember?_comm (levels : Nat) (first second : String)
    (left right : Value) (draft : Draft) :
    ((draft.withMember? levels first left).bind fun next =>
        next.withMember? levels second right) =
      (draft.withMember? levels second right).bind fun next =>
        next.withMember? levels first left := by
  by_cases hfirst : first ∈ names
  · by_cases hsecond : second ∈ names
    · by_cases heq : first = second
      · subst heq
        rw [withMember?_twice hfirst, withMember?_twice hfirst]
      · simp only [names, List.mem_cons, List.not_mem_nil, or_false]
          at hfirst hsecond
        rcases hfirst with rfl | rfl | rfl <;>
          rcases hsecond with rfl | rfl | rfl
        all_goals first
          | exact absurd rfl heq
          | simp only [withMember?]
            refine fill_comm ?_ ?_ ?_ _ _ draft <;> intros <;> rfl
    · simp only [withMember?_of_not_mem hsecond, Option.bind_some,
        Option.bind_fun_some]
  · simp only [withMember?_of_not_mem hfirst, Option.bind_some,
      Option.bind_fun_some]

theorem exchangeable (levels : Nat) (first second : Name × Value) :
    Exchangeable (withMember? levels) first second :=
  .of_names fun _ _ _ _ draft =>
    draft.withMember?_comm levels _ _ first.2 second.2

theorem withMember?_eq (levels : Nat) (name : String) (draft : Draft)
    {old new : Value} (h : Reordered old new) :
    draft.withMember? levels name old = draft.withMember? levels name new := by
  unfold withMember?
  rw [h.natural?_eq, Clause.ofValue?_eq h]

end Draft

theorem ofParts?_eq {levels : Nat} {old new : List Value}
    (h : List.Forall₂ Reordered old new) :
    ofParts? levels old = ofParts? levels new := by
  rcases h with _ | ⟨hoffset, _ | ⟨hsize, _ | ⟨hquery, _ | _⟩⟩⟩
  · rfl
  · rfl
  · rfl
  · rw [ofParts?, ofParts?, hoffset.natural?_eq, hsize.natural?_eq,
      Clause.ofValue?_eq hquery]
  · rfl

theorem ofMembers?_eq_of_perm {levels : Nat}
    {left right : List (Name × Value)} (h : left.Perm right) :
    ofMembers? levels left = ofMembers? levels right := by
  rw [ofMembers?, ofMembers?,
    foldMembers_eq_of_perm (Draft.exchangeable levels) h]

theorem ofValue?_eq_of_reordered {old new : Value} (h : Reordered old new) :
    ofValue? old = ofValue? new := by
  induction h with
  | refl => rfl
  | trans _ _ ihleft ihright => exact ihleft.trans ihright
  | shuffled h => exact ofMembers?_eq_of_perm h.perm
  | item left right h =>
      have hsame : ∀ items, List.Forall₂ Reordered items items := fun items =>
        List.forall₂_same.mpr fun item _ => .refl item
      exact ofParts?_eq ((List.rel_append (hsame left)) (.cons h (hsame right)))
  | member left right name h =>
      have hmember := fun name (draft : Draft) =>
          draft.withMember?_eq (nestingLimit - 1) name h
      rw [ofValue?, ofValue?, ofMembers?, ofMembers?,
        Reordered.foldMembers_member hmember]

/-- What may be done to a document: its own members may be in any order and
there may be further ones, and members of objects anywhere may be in another
order. -/
inductive Rearranged : Value → Value → Prop
  | refl (value : Value) : Rearranged value value
  | trans {left middle right : Value} (hleft : Rearranged left middle)
      (hright : Rearranged middle right) : Rearranged left right
  | permuted {left right : List (Name × Value)} (h : left.Perm right) :
      Rearranged (.object left) (.object right)
  | extended (left right : List (Name × Value)) {name : String}
      (hname : name ∉ Draft.names) (value : Value) :
      Rearranged (.object (left ++ right))
        (.object (left ++ (some name.toList, value) :: right))
  | reordered {old new : Value} (h : Reordered old new) : Rearranged old new

theorem ofValue?_eq_of_rearranged {old new : Value} (h : Rearranged old new) :
    ofValue? old = ofValue? new := by
  induction h with
  | refl => rfl
  | trans _ _ ihleft ihright => exact ihleft.trans ihright
  | permuted h => exact ofMembers?_eq_of_perm h
  | @extended left right name hname value =>
      have hpass : ∀ draft : Draft,
          Value.passMember (Draft.withMember? (nestingLimit - 1)) draft
              (some name.toList, value) =
            some draft := by
        intro draft
        rw [Value.passMember, Option.bind_some, String.ofList_toList,
          Draft.withMember?_of_not_mem hname]
      simp only [ofValue?, ofMembers?, Value.foldMembers_append,
        Value.foldMembers_cons, hpass, Option.bind_some]
  | reordered h => exact ofValue?_eq_of_reordered h

/-! The same parts in an array. -/

theorem Draft.foldMembers_full {levels : Nat} {offset size : UInt64}
    {query : Clause} {last : Draft} {members : List (Name × Value)}
    (h : Value.foldMembers (withMember? levels)
        ⟨some offset, some size, some query⟩ members =
      some last) :
    last = ⟨some offset, some size, some query⟩ := by
  induction members with
  | nil => exact (Option.some.inj h).symm
  | cons entry members ih =>
      rw [Value.foldMembers_cons, Option.bind_eq_some_iff] at h
      obtain ⟨next, hnext, hrest⟩ := h
      obtain ⟨name, -, hmember⟩ := Option.bind_eq_some_iff.mp hnext
      have hsame : next = ⟨some offset, some size, some query⟩ := by
        obtain ⟨-, hnone, -⟩ | ⟨-, hnone, -⟩ | ⟨-, hnone, -⟩ | hsame :=
          withMember?_cases hmember
        · cases hnone
        · cases hnone
        · cases hnone
        · exact hsame
      exact ih (hsame ▸ hrest)

theorem Draft.exists_mem_of_foldMembers {α : Type} {part : Draft → Option α}
    {wanted : String} {levels : Nat}
    (hother : ∀ {name : String} {draft next : Draft} {value : Value},
      name ≠ wanted →
      draft.withMember? levels name value = some next → part next = part draft)
    {draft last : Draft} {members : List (Name × Value)}
    (h : Value.foldMembers (withMember? levels) draft members = some last)
    (hbefore : part draft = none) (hafter : part last ≠ none) :
    ∃ value, (some wanted.toList, value) ∈ members := by
  induction members generalizing draft with
  | nil =>
      cases h
      exact absurd hbefore hafter
  | cons entry members ih =>
      rw [Value.foldMembers_cons, Option.bind_eq_some_iff] at h
      obtain ⟨next, hnext, hrest⟩ := h
      obtain ⟨name, hname, hmember⟩ := Option.bind_eq_some_iff.mp hnext
      by_cases hwanted : String.ofList name = wanted
      · refine ⟨entry.2, List.mem_cons.mpr (.inl ?_)⟩
        rw [← hwanted, String.toList_ofList, ← hname]
      · obtain ⟨value, hvalue⟩ :=
          ih hrest ((hother hwanted hmember).trans hbefore)
        exact ⟨value, List.mem_cons_of_mem _ hvalue⟩

structure HasParts (members : List (Name × Value))
    (offset size query : Value) : Prop where
  offset : (some "from".toList, offset) ∈ members
  size : (some "size".toList, size) ∈ members
  query : (some "query".toList, query) ∈ members

theorem exists_hasParts {levels : Nat} {members : List (Name × Value)}
    {document : QueryDocument} (h : ofMembers? levels members = some document) :
    ∃ offset size query, HasParts members offset size query := by
  obtain ⟨last, hlast, hfinish⟩ := Option.bind_eq_some_iff.mp h
  obtain ⟨hoffset, hsize, hquery⟩ :
      last.offset ≠ none ∧ last.size ≠ none ∧ last.query ≠ none := by
    obtain ⟨_ | _, _ | _, _ | _⟩ := last
    case some.some.some => exact ⟨nofun, nofun, nofun⟩
    all_goals cases hfinish
  obtain ⟨offset, hoffset⟩ := Draft.exists_mem_of_foldMembers
    (fun hname hmember => (Draft.withMember?_frame hmember).1 hname)
    hlast rfl hoffset
  obtain ⟨size, hsize⟩ := Draft.exists_mem_of_foldMembers
    (fun hname hmember => (Draft.withMember?_frame hmember).2.1 hname)
    hlast rfl hsize
  obtain ⟨query, hquery⟩ := Draft.exists_mem_of_foldMembers
    (fun hname hmember => (Draft.withMember?_frame hmember).2.2 hname)
    hlast rfl hquery
  exact ⟨offset, size, query, hoffset, hsize, hquery⟩

theorem exists_perm_of_hasParts {members : List (Name × Value)}
    {offset size query : Value} (h : HasParts members offset size query) :
    ∃ rest,
      members.Perm
        ((some "from".toList, offset) :: (some "size".toList, size) ::
          (some "query".toList, query) :: rest) := by
  have hdistinct : [((some "from".toList, offset) : Name × Value),
      (some "size".toList, size), (some "query".toList, query)].Nodup := by
    simp
  have hsubset : [((some "from".toList, offset) : Name × Value),
        (some "size".toList, size), (some "query".toList, query)] ⊆
      members := by
    simp only [List.cons_subset, List.nil_subset, and_true]
    exact ⟨h.offset, h.size, h.query⟩
  obtain ⟨others, hothers, hfirst⟩ :=
    List.subperm_iff.mp (hdistinct.subperm hsubset)
  obtain ⟨rest, hrest⟩ := hfirst.exists_perm_append
  exact ⟨rest, hothers.symm.trans hrest⟩

theorem foldMembers_parts {levels : Nat} (offset size query : Value)
    (rest : List (Name × Value)) :
    Value.foldMembers (Draft.withMember? levels) ⟨none, none, none⟩
        ((some "from".toList, offset) :: (some "size".toList, size) ::
          (some "query".toList, query) :: rest) =
      offset.natural?.bind fun offset => size.natural?.bind fun size =>
        (Clause.ofValue? levels query).bind fun query =>
          Value.foldMembers (Draft.withMember? levels)
            ⟨some offset, some size, some query⟩ rest := by
  have hfirst : Draft.withMember? levels "from" ⟨none, none, none⟩ offset =
      offset.natural?.map fun offset => ⟨some offset, none, none⟩ := rfl
  have hsecond : ∀ offset,
      Draft.withMember? levels "size" ⟨some offset, none, none⟩ size =
        size.natural?.map fun size => ⟨some offset, some size, none⟩ :=
    fun _ => rfl
  have hthird : ∀ offset size,
      Draft.withMember? levels "query" ⟨some offset, some size, none⟩ query =
        (Clause.ofValue? levels query).map fun query =>
          ⟨some offset, some size, some query⟩ :=
    fun _ _ => rfl
  simp only [Value.foldMembers_cons, Value.passMember, Option.bind_some,
    String.ofList_toList, hfirst, Option.bind_map, Function.comp_def,
    hsecond, hthird]

theorem ofParts?_of_hasParts {levels : Nat} {members : List (Name × Value)}
    {document : QueryDocument} (h : ofMembers? levels members = some document)
    {offset size query : Value} (hparts : HasParts members offset size query) :
    ofParts? levels [offset, size, query] = some document := by
  obtain ⟨rest, hrest⟩ := exists_perm_of_hasParts hparts
  rw [ofMembers?_eq_of_perm hrest, ofMembers?, foldMembers_parts,
    Option.bind_eq_some_iff] at h
  obtain ⟨last, hlast, hfinish⟩ := h
  simp only [Option.bind_eq_some_iff] at hlast
  obtain ⟨offset', hoffset', size', hsize', query', hquery', hlast⟩ := hlast
  rw [Draft.foldMembers_full hlast] at hfinish
  rw [ofParts?, hoffset', hsize', hquery']
  exact hfinish

/-- Only JSON is read as a document. The same document is read of any text of
the same value, whatever the blanks in it, if there are members in another order
or further ones, and of an array of the parts, which an object always has. -/
theorem read_rearranged {json : String} {document : QueryDocument}
    (h : read json = .ok document) :
    (∃ value : Value, value.IsText json) ∧
      ∀ value : Value, value.IsText json →
        (∀ other text, Rearranged value other →
            other.IsText text → read text = .ok document) ∧
          ∀ members, value = .object members →
            (∃ offset size query, HasParts members offset size query) ∧
              ∀ offset size query text, HasParts members offset size query →
                (Value.array [offset, size, query]).IsText text →
                read text = .ok document := by
  refine ⟨exists_isText_of_read h, fun value hjson => ?_⟩
  have hvalue := (read_eq_ok_iff hjson).mp h
  refine ⟨fun other text hother htext => ?_, ?_⟩
  · rw [read_eq_ok_iff htext, ← ofValue?_eq_of_rearranged hother, hvalue]
  · rintro members rfl
    refine ⟨exists_hasParts hvalue,
      fun offset size query text hparts htext => ?_⟩
    rw [read_eq_ok_iff htext]
    exact ofParts?_of_hasParts hvalue hparts

/-- Fields in another order, one of them with an escape in its name, more
blanks, and a further member that is not looked into. -/
theorem read_rearranged_fields :
    let document : QueryDocument :=
      ⟨⟨1, 2⟩, .terms ((FieldValues.single "b" ["x"]).insert "a" [])⟩
    let json :=
      "\x7b\"from\":1,\"size\":2,\"query\":\x7b\"terms\":\x7b\"a\":[],\"b\":[\"x\"]\x7d\x7d\x7d"
    read json = .ok document ∧
      read
        "\x7b\"size\": 2, \"notes\": [[1e9], \"\\ud800\"], \"query\": \x7b\"terms\": \x7b\"\\u0062\": [\"x\"], \"a\": []\x7d\x7d, \"from\": 1\x7d" =
          .ok document ∧
      read "[1,2,\x7b\"terms\":\x7b\"a\":[],\"b\":[\"x\"]\x7d\x7d]" =
          .ok document := by
  intro document json
  let first : Name × Value := (some ['a'], .array [])
  let second : Name × Value :=
    (some ['b'], .array [.scalar (.string (some ['x']))])
  let query (fields : List (Name × Value)) : Name × Value :=
    (some "query".toList, .object [(some "terms".toList, .object fields)])
  let offset : Name × Value :=
    (some "from".toList, .scalar (.number (.ofNat 1)))
  let size : Name × Value := (some "size".toList, .scalar (.number (.ofNat 2)))
  let notes : Value := .array
    [.array [.scalar (.number ⟨false, ['1'], none, some (false, ['9'])⟩)],
      .scalar (.string none)]
  have hread : read json = .ok document :=
    document.read_of_tokens_eq (by decide +kernel) (by decide +kernel)
  have hjson :
      (Value.object [offset, size, query [first, second]]).IsText json :=
    Value.isText_of_tokens_eq (by decide +kernel)
  have hmoved : Rearranged (.object [offset, size, query [first, second]])
      (.object [size, query [first, second], offset]) :=
    .permuted (@List.perm_append_comm _ [offset] [size, query [first, second]])
  have hadded : Rearranged (.object [size, query [first, second], offset])
      (.object
        [size, (some "notes".toList, notes), query [first, second], offset]) :=
    .extended [size] [query [first, second], offset] (by decide) notes
  have hfields :
      Reordered (.object [first, second]) (.object [second, first]) :=
    .shuffled (.of_perm (.swap second first []) (by decide))
  have hswapped : Rearranged
      (.object
        [size, (some "notes".toList, notes), query [first, second], offset])
      (.object
        [size, (some "notes".toList, notes), query [second, first], offset]) :=
    .reordered <| .member [size, (some "notes".toList, notes)] [offset] _ <|
      .member [] [] _ hfields
  obtain ⟨hother, hparts⟩ := (read_rearranged hread).2 _ hjson
  refine ⟨hread, hother _ _ (hmoved.trans (hadded.trans hswapped)) ?_, ?_⟩
  · exact Value.isText_of_tokens_eq (by decide +kernel)
  · refine (hparts _ rfl).2 offset.2 size.2 (query [first, second]).2 _
      ⟨?_, ?_, ?_⟩ ?_
    · exact List.mem_cons_self
    · exact List.mem_cons_of_mem _ List.mem_cons_self
    · exact List.mem_cons_of_mem _ (List.mem_cons_of_mem _ List.mem_cons_self)
    · exact Value.isText_of_tokens_eq (by decide +kernel)

end QueryDocument

end TermSearch
