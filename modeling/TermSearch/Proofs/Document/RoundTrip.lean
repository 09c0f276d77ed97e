import TermSearch.Document.Reader
import TermSearch.Proofs.Json.Decoding
import TermSearch.Proofs.Json.LaidOut
import TermSearch.Proofs.Json.Nesting

namespace TermSearch

/-! A written document is read back, on one line and over several. -/

open Json

namespace FieldValues

theorem insertEntry_of_before {field : String} {values : List String}
    {entries : List (String × List String)}
    (h : ∀ entry ∈ entries, Before entry (field, values)) :
    insertEntry field values entries = entries ++ [(field, values)] := by
  induction entries with
  | nil => rfl
  | cons entry entries ih =>
      obtain ⟨hentry, hentries⟩ := List.forall_mem_cons.mp h
      have hne : field ≠ entry.1 := by
        rintro rfl
        exact String.lt_irrefl _ hentry
      rw [insertEntry, if_neg hne, if_neg (String.lt_asymm hentry), ih hentries,
        List.cons_append]

def written (entry : String × List String) : String × List Token :=
  (entry.1, array (entry.2.map fun value => [.text value]))

theorem tokens_eq_object (fields : FieldValues) :
    fields.tokens = object (fields.entries.map written) := rfl

theorem isWritable_written (entry : String × List String) :
    IsWritable (written entry).2 := by
  refine .array ?_
  rw [List.forall_mem_map]
  exact fun _ _ => .singleton rfl

theorem isWritable_tokens (fields : FieldValues) :
    IsWritable fields.tokens := by
  rw [tokens_eq_object]
  refine .object ?_
  rw [List.forall_mem_map]
  exact fun entry _ => isWritable_written entry

theorem isBalanced_values (values : List String) :
    ∀ item ∈ values.map fun value => [Token.text value], IsBalanced item := by
  rw [List.forall_mem_map]
  exact fun _ _ => .cons (fun _ => rfl) .nil

theorem isBalanced_entries (entries : List (String × List String)) :
    ∀ member ∈ entries.map written, IsBalanced member.2 := by
  rw [List.forall_mem_map]
  exact fun entry _ => .array (isBalanced_values entry.2)

theorem isBalanced_tokens (fields : FieldValues) : IsBalanced fields.tokens :=
  .object (isBalanced_entries fields.entries)

theorem reads_written (entry : String × List String) {levels : Nat}
    (hlevels : nesting (written entry).2 ≤ levels) :
    (Decoder.sequence levels fun _ _ => Decoder.text).Reads (written entry).2
      entry.2 := by
  obtain ⟨inner, rfl, -⟩ :=
    exists_inner_of_array (isBalanced_values entry.2) hlevels
  exact .sequence (fun value _ => .text value) fun value _ =>
    ⟨.text value, [], rfl, by simp [Token.text]⟩

/-- The entries that are still to come are added one after another, each after
those before it. -/
theorem readsMembers_entries {fields : FieldValues} {levels : Nat}
    {todo : List (String × List String)}
    (hlevels : ∀ member ∈ todo.map written, nesting member.2 ≤ levels)
    (done : FieldValues) (h : fields.entries = done.entries ++ todo) :
    Decoder.ReadsMembers
      (fun name fields => do
        Decoder.expect .colon
        let values ← Decoder.sequence levels fun _ _ => Decoder.text
        pure (fields.insert name values))
      done (todo.map written) fields := by
  induction todo generalizing done with
  | nil =>
      rw [ext_entries (h.trans (List.append_nil _))]
      exact .nil done
  | cons entry todo ih =>
      obtain ⟨hentry, htodo⟩ := List.forall_mem_cons.mp hlevels
      have hsorted := h ▸ fields.sorted
      have hlast :
          (done.insert entry.1 entry.2).entries = done.entries ++ [entry] :=
        insertEntry_of_before fun before hbefore =>
          (List.pairwise_append.mp hsorted).2.2 before hbefore entry
            List.mem_cons_self
      refine .cons (?_ : Decoder.Reads _ _ (done.insert entry.1 entry.2))
        (ih htodo _ ?_)
      · exact (Decoder.Reads.expect .colon).bind <|
          (reads_written entry hentry).bind_nil (.pure _)
      · rw [hlast, h, List.append_assoc, List.singleton_append]

theorem reads_decode (fields : FieldValues) {levels : Nat}
    (hlevels : nesting fields.tokens ≤ levels) :
    (decode levels).Reads fields.tokens fields := by
  obtain ⟨inner, rfl, hinner⟩ :=
    exists_inner_of_object (isBalanced_entries fields.entries) hlevels
  exact (Decoder.Reads.next (.opening .curly)).bind
    (readsMembers_entries hinner empty rfl).reads

end FieldValues

namespace Clause

theorem tokens_induction {form : List Token → Prop}
    (hobject : ∀ name part, form part → form (object [(name, part)]))
    (harray : ∀ items, (∀ item ∈ items, form item) → form (array items))
    (hfields : ∀ fields : FieldValues, form fields.tokens) (clause : Clause) :
    form clause.tokens := by
  induction clause with
  | terms fields => exact hobject _ _ (hfields fields)
  | bool connective clauses ih =>
      have hclauses : ∀ item ∈ tokensAll clauses, form item := by
        rwa [tokensAll_eq_map, List.forall_mem_map]
      exact hobject _ _ (hobject _ _ (harray _ hclauses))

theorem isWritable_tokens (clause : Clause) : IsWritable clause.tokens :=
  clause.tokens_induction
    (fun _ _ hpart => .object (List.forall_mem_singleton.mpr hpart))
    (fun _ => .array) FieldValues.isWritable_tokens

theorem isBalanced_tokens (clause : Clause) : IsBalanced clause.tokens :=
  clause.tokens_induction
    (fun _ _ hpart => .object (List.forall_mem_singleton.mpr hpart))
    (fun _ => .array) FieldValues.isBalanced_tokens

theorem isBalanced_all (clauses : List Clause) :
    ∀ item ∈ tokensAll clauses, IsBalanced item := by
  rw [tokensAll_eq_map, List.forall_mem_map]
  exact fun clause _ => clause.isBalanced_tokens

theorem startsItem_tokens (clause : Clause) :
    Decoder.StartsItem clause.tokens := by
  cases clause <;> exact ⟨.opening .curly, _, rfl, by decide⟩

theorem reads_decode (clause : Clause) :
    ∀ {levels}, nesting clause.tokens ≤ levels →
      (decode levels).Reads clause.tokens clause := by
  induction clause with
  | terms fields =>
      intro levels hlevels
      obtain ⟨inner, rfl, hinner⟩ := exists_inner_of_object
        (List.forall_mem_singleton.mpr fields.isBalanced_tokens) hlevels
      have hfields := fields.reads_decode (hinner _ List.mem_cons_self)
      rw [decode]
      exact .alternative List.mem_cons_self (hfields.map terms)
  | bool connective clauses ih =>
      intro levels hlevels
      have hclauses := isBalanced_all clauses
      have hlist :
          ∀ member ∈ [(connective.occurrence, array (tokensAll clauses))],
            IsBalanced member.2 :=
        List.forall_mem_singleton.mpr (.array hclauses)
      obtain ⟨outer, rfl, houter⟩ := exists_inner_of_object
        (List.forall_mem_singleton.mpr (.object hlist)) hlevels
      obtain ⟨middle, rfl, hmiddle⟩ :=
        exists_inner_of_object hlist (houter _ List.mem_cons_self)
      obtain ⟨inner, rfl, hinner⟩ :=
        exists_inner_of_array hclauses (hmiddle _ List.mem_cons_self)
      rw [tokensAll_eq_map, List.forall_mem_map] at hinner
      have hsequence : (Decoder.sequence (inner + 1) fun inner _ =>
          decode inner).Reads (array (clauses.map tokens)) clauses :=
        .sequence
          (fun clause hclause => ih clause hclause (hinner clause hclause))
          fun clause _ => clause.startsItem_tokens
      rw [decode, tokens, tokensAll_eq_map]
      refine .alternative (by simp) (.alternative ?_ ?_)
      · cases connective <;> decide
      · cases connective <;> exact hsequence.map _

end Clause

namespace QueryDocument

variable (document : QueryDocument)

theorem isWritable_tokens : IsWritable document.tokens := by
  refine .object ?_
  simp only [List.forall_mem_cons]
  exact ⟨.singleton ⟨_, rfl⟩, .singleton ⟨_, rfl⟩,
    document.query.isWritable_tokens, List.forall_mem_nil _⟩

theorem readsMembers_root (levels : Nat)
    (hquery : (Clause.decode levels).Reads document.query.tokens
      document.query) :
    Decoder.ReadsMembers (decodeMember levels) ⟨none, none, none⟩
      [("from", [.nat document.page.offset.toNat]),
        ("size", [.nat document.page.size.toNat]),
        ("query", document.query.tokens)]
      ⟨some document.page.offset, some document.page.size,
        some document.query⟩ := by
  have hoffset := Decoder.Reads.natural document.page.offset
  have hsize := Decoder.Reads.natural document.page.size
  refine .cons
    ((Decoder.Reads.expect .colon).bind <| hoffset.bind_nil (.pure _)) <|
    .cons ((Decoder.Reads.expect .colon).bind <| hsize.bind_nil (.pure _)) <|
      .cons ((Decoder.Reads.expect .colon).bind <| hquery.bind_nil (.pure _))
        (.nil _)

theorem isBalanced_members :
    ∀ member ∈
      [("from", [Token.nat document.page.offset.toNat]),
        ("size", [.nat document.page.size.toNat]),
        ("query", document.query.tokens)],
      IsBalanced member.2 := by
  simp only [List.forall_mem_cons]
  exact ⟨.cons (fun _ => rfl) .nil, .cons (fun _ => rfl) .nil,
    document.query.isBalanced_tokens, List.forall_mem_nil _⟩

theorem reads_decode (h : nesting document.tokens ≤ nestingLimit) :
    decode.Reads document.tokens document := by
  obtain ⟨inner, hlimit, hinner⟩ :=
    exists_inner_of_object document.isBalanced_members h
  have hquery := document.query.reads_decode (hinner ("query", _) (by simp))
  obtain rfl : inner = nestingLimit - 1 := Nat.eq_sub_of_add_eq hlimit.symm
  have hmembers := (document.readsMembers_root _ hquery).reads
  exact (Decoder.Reads.next (.opening .curly)).bind <|
    hmembers.bind_nil (Decoder.Reads.pure document)

theorem read_of_tokens_eq {json : String}
    (htokens : Json.tokens json.toList = document.tokens)
    (h : nesting document.tokens ≤ nestingLimit) :
    read json = .ok document := by
  have hread := document.reads_decode h []
  rw [List.append_nil] at hread
  rw [read, htokens, hread]

/-- A document is read back from both of its layouts unless it is nested too
deeply. The layouts differ only in the blanks outside of strings, and the short
one is a single line. -/
theorem round_trip (document : QueryDocument) :
    (nesting document.tokens < 128 →
        read document.compact = .ok document ∧
          read document.pretty = .ok document) ∧
      String.ofList (stripped document.pretty.toList) = document.compact ∧
      ∀ c ∈ document.compact.toList, 0x20 ≤ c.toNat := by
  have hwritable := document.isWritable_tokens
  refine ⟨fun h => ⟨?_, ?_⟩, ofList_stripped_indented hwritable,
    fun _ => printed_of_mem_compact hwritable⟩
  · exact document.read_of_tokens_eq (isLaidOut_compact hwritable).tokens_eq
      (Nat.le_of_lt_succ h)
  · exact document.read_of_tokens_eq (isLaidOut_indented hwritable).tokens_eq
      (Nat.le_of_lt_succ h)

/-- Nothing to choose from, no conditions, and texts that need escapes. -/
theorem round_trip_escapes :
    let fields : FieldValues :=
      ((FieldValues.single "say \"hi\"" ["a\nb\x00", "\\", ""]).insert ""
        []).insert "é" ["😀\t"]
    let document : QueryDocument :=
      ⟨⟨0, 18446744073709551615⟩, .bool .all
        [.bool .any [], .terms .empty, .bool .any [.bool .all [.terms fields]]]⟩
    nesting document.tokens < 128 ∧
      read document.compact = .ok document ∧
      read document.pretty = .ok document := by
  intro fields document
  have hnesting : nesting document.tokens < 128 := by decide +kernel
  exact ⟨hnesting, document.round_trip.1 hnesting⟩

end QueryDocument

end TermSearch
