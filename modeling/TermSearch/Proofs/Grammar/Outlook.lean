import TermSearch.Proofs.Grammar.Attempts
import TermSearch.Proofs.Grammar.ReadBack

namespace TermSearch

theorem Rule.result_literal_append (word : List Char) (expected : String)
    (position : Nat) (rest : List Char) :
    (literal word expected ⟨position, word ++ rest⟩).result =
      some ((), ⟨position + byteSize word, rest⟩) := by
  obtain ⟨_, hresult, -⟩ := literal_readsAs word expected rest position
  exact hresult

/-! What is settled once the first part of a text is known. Either something can
be written after it so that a rule reads it all, or the rule ends before,
whatever comes next. In the second case nothing is looked for where the known
part ends, so the attempts of a refused query do not go beyond what can still be
completed. -/

namespace Rule

/-- Whatever follows the text, every attempt is made before the text ends. -/
def IsQuiet (rule : Rule α) (position : Nat) (text : List Char) : Prop :=
  ∀ rest, ∀ attempt ∈ (rule ⟨position, text ++ rest⟩).attempts,
    attempt.position < position + byteSize text

/-- What becomes of a rule that starts with the text: more can be written so
that the rule goes on to every rest that closes it, or the rule refuses the
text, or it stops inside the text. -/
inductive Outlook (rule : Rule α) (closes : List Char → Prop) (position : Nat)
    (text : List Char) : Prop where
  | viable (more : List Char) (value : α)
      (h : ∀ rest, closes rest →
        (rule ⟨position, text ++ (more ++ rest)⟩).result =
          some (value, ⟨position + byteSize (text ++ more), rest⟩))
  | refused (hquiet : rule.IsQuiet position text)
      (h : ∀ rest, (rule ⟨position, text ++ rest⟩).result = none)
  | complete (left right : List Char) (value : α) (htext : left ++ right = text)
      (hright : right ≠ []) (hquiet : rule.IsQuiet position text)
      (h : ∀ rest, (rule ⟨position, text ++ rest⟩).result =
        some (value, ⟨position + byteSize left, right ++ rest⟩))

/-- The rule can be written from scratch before every rest that closes it, and
that closes what stands before it. -/
def CanFollow (rule : Rule α) (closed closes : List Char → Prop) : Prop :=
  ∀ position, ∃ more value, ∀ rest, closes rest →
    closed (more ++ rest) ∧ (rule ⟨position, more ++ rest⟩).result =
      some (value, ⟨position + byteSize more, rest⟩)

namespace Outlook

variable {closes ends : List Char → Prop} {position : Nat} {text : List Char}

theorem mono {rule : Rule α} (h : rule.Outlook closes position text)
    (hends : ∀ rest, ends rest → closes rest) :
    rule.Outlook ends position text := by
  cases h with
  | viable more value h =>
      exact .viable more value fun rest hrest => h rest (hends rest hrest)
  | refused hquiet h => exact .refused hquiet h
  | complete left right value htext hright hquiet h =>
      exact .complete left right value htext hright hquiet h

theorem of_result_map {rule : Rule α} {source : Rule β}
    (hsource : source.Outlook closes position text)
    (change : Nat → β → Nat → α)
    (hresult : ∀ cursor, (rule cursor).result =
      (source cursor).result.map fun reading =>
        (change cursor.position reading.1 reading.2.position, reading.2))
    (hattempts : ∀ cursor, ∀ attempt ∈ (rule cursor).attempts,
      ∃ noted ∈ (source cursor).attempts, noted.position = attempt.position) :
    rule.Outlook closes position text := by
  have hquiet (h : source.IsQuiet position text) :
      rule.IsQuiet position text := by
    intro rest attempt hattempt
    obtain ⟨noted, hnoted, hposition⟩ := hattempts _ attempt hattempt
    rw [← hposition]
    exact h rest noted hnoted
  cases hsource with
  | viable more value h =>
      refine .viable more
        (change position value (position + byteSize (text ++ more)))
        fun rest hrest => ?_
      rw [hresult, h rest hrest, Option.map_some]
  | refused hsource h =>
      refine .refused (hquiet hsource) fun rest => ?_
      rw [hresult, h, Option.map_none]
  | complete left right value htext hright hsource h =>
      refine .complete left
        right (change position value (position + byteSize left)) htext
        hright (hquiet hsource) fun rest => ?_
      rw [hresult, h, Option.map_some]

theorem named {rule : Rule α} (h : rule.Outlook closes position text)
    (name : String) : (rule.named name).Outlook closes position text := by
  refine of_result_map h (fun _ value _ => value) (fun cursor => ?_)
    fun cursor attempt hattempt => ?_
  · rw [result_named]
    cases (rule cursor).result <;> rfl
  · obtain ⟨noted, hnoted, rfl⟩ := List.mem_map.mp hattempt
    exact ⟨noted, hnoted, rfl⟩

theorem spanned {rule : Rule α} (h : rule.Outlook closes position text) :
    rule.spanned.Outlook closes position text :=
  of_result_map h (fun start value stop => (value, ⟨start, stop⟩))
    (fun _ => rfl) fun _ attempt hattempt => ⟨attempt, hattempt, rfl⟩

protected theorem pure (value : α) :
    (pure value : Rule α).Outlook closes position text := by
  by_cases htext : text = []
  · subst htext
    exact .viable [] value fun _ _ => rfl
  · exact .complete [] text value rfl htext (fun _ _ h => nomatch h) fun _ =>
      rfl

theorem of_rest {rule : Rule α} {next : Rule β} {left right : List Char}
    (htext : left ++ right = text)
    (h : next.Outlook closes (position + byteSize left) right)
    (change : β → α)
    (hresult : ∀ rest, (rule ⟨position, text ++ rest⟩).result =
      (next ⟨position + byteSize left, right ++ rest⟩).result.map fun reading =>
        (change reading.1, reading.2))
    (hattempts : ∀ rest,
      ∀ attempt ∈ (rule ⟨position, text ++ rest⟩).attempts,
        attempt.position < position + byteSize text ∨
          attempt ∈ (next ⟨position + byteSize left, right ++ rest⟩).attempts) :
    rule.Outlook closes position text := by
  subst htext
  have hquiet (h : next.IsQuiet (position + byteSize left) right) :
      rule.IsQuiet position (left ++ right) := by
    intro rest attempt hattempt
    rcases hattempts rest attempt hattempt with hbefore | hnext
    · exact hbefore
    · rw [byteSize_append, ← Nat.add_assoc]
      exact h rest attempt hnext
  cases h with
  | viable more value h =>
      refine .viable more (change value) fun rest hrest => ?_
      rw [hresult, h rest hrest, Option.map_some]
      simp only [byteSize_append, Nat.add_assoc]
  | refused hnext h =>
      refine .refused (hquiet hnext) fun rest => ?_
      rw [hresult, h, Option.map_none]
  | complete inner outer value hright houter hnext h =>
      refine .complete (left ++ inner) outer (change value) ?_ houter
        (hquiet hnext) fun rest => ?_
      · rw [List.append_assoc, hright]
      · rw [hresult, h, Option.map_some, byteSize_append, Nat.add_assoc]

theorem choice {first second : Rule α}
    (hfirst : first.Outlook closes position text)
    (hsecond : second.Outlook closes position text) :
    (first <|> second).Outlook closes position text := by
  cases hfirst with
  | viable more value h =>
      refine .viable more value fun rest hrest => ?_
      rw [result_choice, h rest hrest, Option.some_or]
  | complete left right value htext hright hquiet h =>
      refine .complete left right value htext hright ?_ fun rest => ?_
      · intro rest attempt hattempt
        rcases mem_attempts_choice.mp hattempt with hattempt | ⟨hnone, -⟩
        · exact hquiet rest attempt hattempt
        · rw [h] at hnone
          cases hnone
      · rw [result_choice, h, Option.some_or]
  | refused hquiet h =>
      refine of_rest (List.nil_append text) hsecond id (fun rest => ?_)
        fun rest attempt hattempt => ?_
      · rw [result_choice, h, Option.none_or]
        exact Option.map_id'.symm
      · rcases mem_attempts_choice.mp hattempt with hattempt | ⟨-, hattempt⟩
        · exact .inl (hquiet rest attempt hattempt)
        · exact .inr hattempt

theorem bind_of_result {first : Rule α} {next : α → Rule β}
    (hfirst : first.Outlook closes position text)
    (hnext : ∀ value start stop, (first start).result = some (value, stop) →
      (next value).CanFollow closes ends ∧
        ∀ position text, (next value).Outlook ends position text)
    (hinhabited : ∃ rest, closes rest) :
    (first >>= next).Outlook ends position text := by
  cases hfirst with
  | refused hquiet h =>
      refine .refused ?_ fun rest => ?_
      · intro rest attempt hattempt
        rcases mem_attempts_bind.mp hattempt with
          hattempt | ⟨value, stop, hresult, -⟩
        · exact hquiet rest attempt hattempt
        · rw [h] at hresult
          cases hresult
      · rw [result_bind, h, Option.bind_none]
  | viable more value h =>
      obtain ⟨some, hsome⟩ := hinhabited
      obtain ⟨follow, taken, hfollow⟩ := (hnext value _ _ (h some hsome)).1
        (position + byteSize (text ++ more))
      refine .viable (more ++ follow) taken fun rest hrest => ?_
      obtain ⟨hcloses, hresult⟩ := hfollow rest hrest
      rw [result_bind, List.append_assoc more, h _ hcloses,
        Option.bind_some, hresult]
      simp only [byteSize_append, Nat.add_assoc]
  | complete left right value htext hright hquiet h =>
      refine of_rest htext
        ((hnext value _ _ (h [])).2 (position + byteSize left) right) id
        (fun rest => ?_) fun rest attempt hattempt => ?_
      · rw [result_bind, h, Option.bind_some]
        exact Option.map_id'.symm
      · rcases mem_attempts_bind.mp hattempt with
          hattempt | ⟨other, stop, hresult, hattempt⟩
        · exact .inl (hquiet rest attempt hattempt)
        · rw [h] at hresult
          cases hresult
          exact .inr hattempt

theorem bind {first : Rule α} {next : α → Rule β}
    (hfirst : first.Outlook closes position text)
    (hfollow : ∀ value, (next value).CanFollow closes ends)
    (hinhabited : ∃ rest, closes rest)
    (hnext : ∀ value position text, (next value).Outlook ends position text) :
    (first >>= next).Outlook ends position text :=
  hfirst.bind_of_result (fun value _ _ _ => ⟨hfollow value, hnext value⟩)
    hinhabited

theorem bind_pure {rule : Rule α} (h : rule.Outlook closes position text)
    (change : α → β) :
    (rule >>= fun value => pure (change value)).Outlook closes position
      text := by
  refine of_result_map h
    (fun _ value _ => change value) (result_map change rule) ?_
  intro cursor attempt hattempt
  rcases mem_attempts_bind.mp hattempt with
    hattempt | ⟨value, stop, -, hattempt⟩
  · exact ⟨attempt, hattempt, rfl⟩
  · cases hattempt

protected theorem optional {rule : Rule α}
    (h : rule.Outlook closes position text) :
    rule.optional.Outlook closes position text :=
  .choice (h.bind_pure some) (.pure none)

/-- A rule that reads the longest run of a class and refuses some runs, but none
that ends in a certain character. -/
theorem of_run {rule : Rule α} {allowed : Char → Bool}
    (refused : List Char → Prop) [DecidablePred refused]
    (value : Nat → List Char → α) {c : Char} (hc : allowed c = true)
    (hfill : ∀ text, ¬ refused (text ++ [c]))
    (hresult : ∀ cursor, (rule cursor).result =
      if refused (cursor.run allowed) then none
      else
        some
          (value cursor.position (cursor.run allowed), cursor.afterRun allowed))
    (hattempts : ∀ cursor,
      ∀ attempt ∈ (rule cursor).attempts, attempt.position = cursor.position)
    (position : Nat) (text : List Char) :
    rule.Outlook (fun rest => ∀ c ∈ rest.head?, allowed c = false) position
      text := by
  by_cases hall : ∀ c ∈ text, allowed c = true
  · have htext : ∀ d ∈ text ++ [c], allowed d = true :=
      List.forall_mem_append.mpr ⟨hall, by simpa using hc⟩
    refine .viable [c] (value position (text ++ [c])) fun rest hrest => ?_
    rw [hresult, ← List.append_assoc, Cursor.run_mk _ htext hrest,
      Cursor.afterRun_mk _ htext hrest, if_neg (hfill text)]
  · -- the run ends inside the text, where a character of another kind stands
    have hinside : ((Cursor.mk position text).afterRun allowed).rest ≠ [] :=
      mt List.dropWhile_eq_nil_iff.mp hall
    have hextend (rest : List Char) : (rule ⟨position, text ++ rest⟩).result =
        if refused ((Cursor.mk position text).run allowed) then none
        else some (value position ((Cursor.mk position text).run allowed),
          ((Cursor.mk position text).afterRun allowed).extend rest) := by
      obtain ⟨hrun, hafter⟩ := Cursor.run_extend_of_ne_nil hinside rest
      rw [← hrun, ← hafter]
      exact hresult _
    have hquiet : rule.IsQuiet position text := by
      intro rest attempt hattempt
      rw [hattempts _ attempt hattempt]
      have hne : text ≠ [] := by
        rintro rfl
        exact hall (List.forall_mem_nil _)
      exact Nat.lt_add_of_pos_right (byteSize_pos hne)
    by_cases hrefused : refused ((Cursor.mk position text).run allowed)
    · refine .refused hquiet fun rest => ?_
      rw [hextend, if_pos hrefused]
    · refine .complete _ _
        (value position ((Cursor.mk position text).run allowed))
        (Cursor.run_append_afterRun ⟨position, text⟩ allowed) hinside hquiet
        fun rest => ?_
      rw [hextend, if_neg hrefused]
      rfl

theorem literal (word : List Char) (expected : String) (position : Nat)
    (text : List Char) :
    (Rule.literal word expected).Outlook (fun _ => True) position text := by
  by_cases hstart : text <+: word
  · obtain ⟨more, rfl⟩ := hstart
    refine .viable more () fun rest _ => ?_
    rw [← List.append_assoc, result_literal_append]
  have hquiet : (Rule.literal word expected).IsQuiet position text := by
    intro rest attempt hattempt
    obtain ⟨-, rfl⟩ := mem_attempts_literal.mp hattempt
    have hne : text ≠ [] := by
      rintro rfl
      exact hstart List.nil_prefix
    exact Nat.lt_add_of_pos_right (byteSize_pos hne)
  by_cases hword : word <+: text
  · obtain ⟨right, rfl⟩ := hword
    refine .complete word right () rfl ?_ hquiet fun rest => ?_
    · rintro rfl
      exact hstart (by simp)
    · rw [List.append_assoc, result_literal_append]
  · refine .refused hquiet fun rest => ?_
    rw [result_literal, Cursor.after?_eq_none_iff.mpr, Option.map_none]
    intro hprefix
    exact (List.prefix_or_prefix_of_prefix hprefix
      (List.prefix_append text rest)).elim hword hstart

end Outlook

/-! Rows. After the first item a row is open to further ones until a separator
with an item behind it is refused. -/

section Rows

variable {item : Rule α} {separator : Rule Unit}

def further (item : Rule α) (separator : Rule Unit) :
    Rule (List α) := fun cursor =>
  ⟨some (furtherItems item separator cursor).1,
    (furtherItems item separator cursor).2⟩

variable {closes : List Char → Prop}

namespace Outlook

theorem further (htakes : (separator >>= fun _ => item).Takes (· ≠ []))
    (hstep : ∀ position text,
      (separator >>= fun _ => item).Outlook closes position text)
    (hend : ∀ rest, closes rest → (separator >>= fun _ => item).Refuses rest)
    (position : Nat) (text : List Char) :
    (Rule.further item separator).Outlook closes position text := by
  induction hlength :
    text.length using Nat.strong_induction_on generalizing position text with
  | _ length ih =>
    subst hlength
    cases hstep position text with
    | viable more value h =>
        refine .viable more [value] fun rest hrest => ?_
        have hmore := furtherItems_of_none
          (hend rest hrest (position + byteSize (text ++ more)))
        rw [Rule.further, furtherItems_of_some htakes (h rest hrest), hmore]
    | refused hquiet h =>
        have hnone (rest : List Char) := furtherItems_of_none (h rest)
        by_cases htext : text = []
        · subst htext
          exact .viable [] [] fun rest _ => by
            rw [Rule.further, List.nil_append, hnone]; rfl
        · refine .complete [] text [] rfl htext ?_
            fun rest => by rw [Rule.further, hnone]; rfl
          intro rest attempt hattempt
          rw [Rule.further, hnone] at hattempt
          exact hquiet rest attempt hattempt
    | complete left right value htext hright hquiet h =>
        have hmore (rest : List Char) := furtherItems_of_some htakes (h rest)
        have hshorter : right.length < text.length := by
          obtain ⟨taken, htaken, hreads⟩ := htakes (h [])
          have hlength := hreads.length_rest
          simp only [List.append_nil] at hlength
          have hpos := List.length_pos_iff.mpr htaken
          omega
        refine of_rest htext
          (ih right.length hshorter (position + byteSize left) right rfl)
          (value :: ·) (fun rest => ?_) fun rest attempt hattempt => ?_
        · rw [Rule.further, hmore]
          rfl
        · rw [Rule.further, hmore] at hattempt
          rcases List.mem_append.mp hattempt with hattempt | hattempt
          · exact .inl (hquiet rest attempt hattempt)
          · exact .inr hattempt

theorem separated (htakes : (separator >>= fun _ => item).Takes (· ≠ []))
    (hitem : ∀ position text, item.Outlook closes position text)
    (hstep : ∀ position text,
      (separator >>= fun _ => item).Outlook closes position text)
    (hend : ∀ rest, closes rest → (separator >>= fun _ => item).Refuses rest)
    (hinhabited : ∃ rest, closes rest) (position : Nat) (text : List Char) :
    (Rule.separated item separator).Outlook closes position text := by
  refine (hitem position text).bind (fun value position => ?_) hinhabited
    fun value position text => ?_
  · refine ⟨[], [value], fun rest hrest => ⟨hrest, ?_⟩⟩
    have hnone := furtherItems_of_none (hend rest hrest position)
    simp only [List.nil_append, hnone]
    rfl
  · exact of_result_map (further htakes hstep hend position text)
      (fun _ values _ => value :: values) (fun _ => rfl)
      fun _ attempt hattempt => ⟨attempt, hattempt, rfl⟩

end Outlook

end Rows

end Rule

end TermSearch
