import TermSearch.Proofs.Grammar.Extension
import TermSearch.Proofs.Grammar.GroupStart
import TermSearch.Proofs.Grammar.Shift

namespace TermSearch

/-! How much space there is does not matter. Two texts that differ in one gap
only are read in step: up to the gap and from the gap on, each rule reads the
same from both. A quoted string may hold the gap; its text then depends on it,
but not where it ends. -/

section OptionRel

variable {R : α → β → Prop} {S : γ → δ → Prop} {left : Option α}
  {right : Option β}

theorem rel_map (h : Option.Rel R left right) {f : α → γ} {g : β → δ}
    (hmap : ∀ a b, R a b → S (f a) (g b)) :
    Option.Rel S (left.map f) (right.map g) := by
  cases h with
  | none => exact .none
  | some h => exact .some (hmap _ _ h)

theorem rel_bind (h : Option.Rel R left right) {f : α → Option γ}
    {g : β → Option δ} (hbind : ∀ a b, R a b → Option.Rel S (f a) (g b)) :
    Option.Rel S (left.bind f) (right.bind g) := by
  cases h with
  | none => exact .none
  | some h => exact hbind _ _ h

theorem rel_or (h : Option.Rel R left right) {later : Option α}
    {other : Option β} (hlater : Option.Rel R later other) :
    Option.Rel R (left.or later) (right.or other) := by
  cases h with
  | none => exact hlater
  | some h => exact .some h

theorem rel_filter (h : Option.Rel R left right) {p : α → Bool} {q : β → Bool}
    (hfilter : ∀ a b, R a b → p a = q b) :
    Option.Rel R (left.filter p) (right.filter q) := by
  cases h with
  | none => exact .none
  | some h =>
      rw [Option.filter_some, Option.filter_some, hfilter _ _ h]
      split
      · exact .some h
      · exact .none

end OptionRel

/-- A text with a gap in it, and what else could stand in the gap. -/
structure Respacing where
  left : List Char
  gap : List Char
  other : List Char
  right : List Char
  isBlank_gap : IsBlank gap
  isBlank_other : IsBlank other

namespace Respacing

variable (respacing : Respacing)

def start : Nat := byteSize respacing.left

def stop : Nat := respacing.start + byteSize respacing.gap

/-- The same place in both texts: the gap is still ahead, or has been passed. -/
inductive Matches : Cursor → Cursor → Prop where
  | ahead (cursor : Cursor)
      (h : cursor.position + byteSize cursor.rest = respacing.start) :
      Matches (cursor.extend (respacing.gap ++ respacing.right))
        (cursor.extend (respacing.other ++ respacing.right))
  | passed {first second : Cursor} (hrest : first.rest = second.rest)
      (h : respacing.stop ≤ first.position) : Matches first second

theorem isBoundary_gap :
    Written.IsBoundary (respacing.gap ++ respacing.right) :=
  Written.isBoundary_append_of_isBlank respacing.isBlank_gap _

theorem isBoundary_other :
    Written.IsBoundary (respacing.other ++ respacing.right) :=
  Written.isBoundary_append_of_isBlank respacing.isBlank_other _

end Respacing

namespace Cursor

theorem Reads.total_eq {start stop : Cursor} {text : List Char}
    (h : start.Reads text stop) :
    stop.position + byteSize stop.rest =
      start.position + byteSize start.rest := by
  rw [h.position, h.rest, byteSize_append, Nat.add_assoc]

theorem run_eq_of_rest {first second : Cursor} (h : first.rest = second.rest)
    (allowed : Char → Bool) : first.run allowed = second.run allowed := by
  unfold run
  rw [h]

theorem rest_afterRun_eq_of_rest {first second : Cursor}
    (h : first.rest = second.rest) (allowed : Char → Bool) :
    (first.afterRun allowed).rest = (second.afterRun allowed).rest := by
  unfold afterRun
  rw [h]

/-- Where only space is left, a run of space goes on with what is written after
the text. -/
theorem run_extend_of_all {cursor : Cursor} {allowed : Char → Bool}
    (h : ∀ c ∈ cursor.rest, allowed c = true) {gap : List Char}
    (hgap : ∀ c ∈ gap, allowed c = true) (rest : List Char) :
    (cursor.extend (gap ++ rest)).run allowed =
        cursor.rest ++ (gap ++ rest.takeWhile allowed) ∧
      ((cursor.extend (gap ++ rest)).afterRun allowed).rest =
        rest.dropWhile allowed := by
  unfold run afterRun
  rw [rest_extend, List.takeWhile_append_of_pos h, List.takeWhile_append_of_pos
    hgap, List.dropWhile_append_of_pos h, List.dropWhile_append_of_pos hgap]
  exact ⟨rfl, rfl⟩

end Cursor

namespace Respacing.Matches

variable {respacing : Respacing} {first second : Cursor}

/-- A run of characters other than space ends at the gap, if not before. -/
theorem run (h : respacing.Matches first second) {allowed : Char → Bool}
    (hallowed : ∀ c, isSpace c = true → allowed c = false) :
    first.run allowed = second.run allowed ∧
      respacing.Matches (first.afterRun allowed) (second.afterRun allowed) := by
  cases h with
  | ahead cursor h =>
      obtain ⟨hfirst, hfirstAfter⟩ :=
        Cursor.run_extend_of_isBoundary respacing.isBoundary_gap hallowed cursor
      obtain ⟨hsecond, hsecondAfter⟩ :=
        Cursor.run_extend_of_isBoundary respacing.isBoundary_other
          hallowed cursor
      rw [hfirst, hsecond, hfirstAfter, hsecondAfter]
      exact ⟨rfl,
        .ahead _ ((Cursor.Reads.afterRun cursor allowed).total_eq.trans h)⟩
  | passed hrest h =>
      exact ⟨Cursor.run_eq_of_rest hrest allowed,
        .passed (Cursor.rest_afterRun_eq_of_rest hrest allowed)
        (Nat.le_add_right_of_le h)⟩

theorem space (h : respacing.Matches first second) :
    (first.run isSpace = [] ↔ second.run isSpace = []) ∧
      respacing.Matches (first.afterRun isSpace) (second.afterRun isSpace) := by
  cases h with
  | ahead cursor h =>
      by_cases hend : (cursor.afterRun isSpace).rest = []
      · have hspace : ∀ c ∈ cursor.rest, isSpace c = true :=
          List.dropWhile_eq_nil_iff.mp hend
        obtain ⟨hfirst, hfirstRest⟩ :=
          Cursor.run_extend_of_all hspace respacing.isBlank_gap.2
            respacing.right
        obtain ⟨hsecond, hsecondRest⟩ :=
          Cursor.run_extend_of_all hspace respacing.isBlank_other.2
            respacing.right
        constructor
        · rw [hfirst, hsecond]
          simp [respacing.isBlank_gap.1, respacing.isBlank_other.1]
        · refine .passed (hfirstRest.trans hsecondRest.symm) ?_
          have hposition := (Cursor.Reads.afterRun
            (cursor.extend (respacing.gap ++ respacing.right)) isSpace).position
          rw [hposition, hfirst, stop, ← h]
          simp only [byteSize_append, Cursor.extend]
          omega
      · obtain ⟨hfirst, hfirstAfter⟩ := Cursor.run_extend_of_ne_nil hend
          (respacing.gap ++ respacing.right)
        obtain ⟨hsecond, hsecondAfter⟩ := Cursor.run_extend_of_ne_nil hend
          (respacing.other ++ respacing.right)
        rw [hfirst, hsecond, hfirstAfter, hsecondAfter]
        exact ⟨.rfl,
          .ahead _ ((Cursor.Reads.afterRun cursor isSpace).total_eq.trans h)⟩
  | passed hrest h =>
      rw [Cursor.run_eq_of_rest hrest]
      exact ⟨.rfl, .passed (Cursor.rest_afterRun_eq_of_rest hrest isSpace)
        (Nat.le_add_right_of_le h)⟩

theorem after? (h : respacing.Matches first second) {word : List Char}
    (hword : ∀ c ∈ word, isSpace c = false) :
    Option.Rel respacing.Matches (first.after? word) (second.after? word) := by
  cases h with
  | ahead cursor h =>
      rw [Cursor.after?_extend respacing.isBoundary_gap hword,
        Cursor.after?_extend respacing.isBoundary_other hword]
      cases hafter : cursor.after? word with
      | none => exact .none
      | some stop =>
          have hreads := Cursor.after?_eq_some_iff.mp hafter
          exact .some (.ahead stop (hreads.total_eq.trans h))
  | passed hrest h =>
      unfold Cursor.after?
      rw [← hrest]
      split
      · exact .some (.passed rfl (Nat.le_add_right_of_le h))
      · exact .none

theorem head?_eq_some_iff (h : respacing.Matches first second) {c : Char}
    (hc : isSpace c = false) :
    first.rest.head? = some c ↔ second.rest.head? = some c := by
  cases h with
  | ahead cursor h =>
      rw [Cursor.head?_extend_eq_some_iff respacing.isBoundary_gap hc,
        Cursor.head?_extend_eq_some_iff respacing.isBoundary_other hc]
  | passed hrest h => rw [hrest]

theorem rest_eq_nil (h : respacing.Matches first second)
    (hnil : first.rest = []) : second.rest = [] := by
  cases h with
  | ahead cursor h => exact absurd hnil (by simp [respacing.isBlank_gap.1])
  | passed hrest h => rw [← hrest, hnil]

end Respacing.Matches

namespace Rule

/-- From matching places the rule reads matching values up to matching
places. -/
def InStep (respacing : Respacing) (same : α → α → Prop)
    (rule : Rule α) : Prop :=
  ∀ ⦃first second : Cursor⦄, respacing.Matches first second →
    Option.Rel
      (fun reading other =>
        same reading.1 other.1 ∧ respacing.Matches reading.2 other.2)
      (rule first).result (rule second).result

namespace InStep

variable {respacing : Respacing} {same : α → α → Prop} {first second : Cursor}

theorem eq_none {rule : Rule α} (h : rule.InStep respacing same)
    (hmatch : respacing.Matches first second)
    (hnone : (rule first).result = none) : (rule second).result = none := by
  have hrel := h hmatch
  rw [hnone] at hrel
  cases hother : (rule second).result with
  | none => rfl
  | some reading =>
      rw [hother] at hrel
      cases hrel

theorem eq_some {rule : Rule α} (h : rule.InStep respacing same)
    (hmatch : respacing.Matches first second) {value : α} {stop : Cursor}
    (hsome : (rule first).result = some (value, stop)) :
    ∃ other end', (rule second).result = some (other, end') ∧ same value other ∧
      respacing.Matches stop end' := by
  have hrel := h hmatch
  rw [hsome] at hrel
  cases hother : (rule second).result with
  | none =>
      rw [hother] at hrel
      cases hrel
  | some reading =>
      rw [hother] at hrel
      cases hrel with
      | some hrel => exact ⟨reading.1, reading.2, rfl, hrel⟩

theorem bind {first : Rule β} {next : Rule α} {before : β → β → Prop}
    (hfirst : first.InStep respacing before)
    (hnext : next.InStep respacing same) :
    (first >>= fun _ => next).InStep respacing same := by
  intro place other hmatch
  rw [result_bind, result_bind]
  exact rel_bind (hfirst hmatch) fun reading reading' h => hnext h.2

theorem choice {first second : Rule α} (hfirst : first.InStep respacing same)
    (hsecond : second.InStep respacing same) :
    (first <|> second).InStep respacing same := by
  intro place other hmatch
  rw [result_choice, result_choice]
  exact rel_or (hfirst hmatch) (hsecond hmatch)

theorem literal {word : List Char} (hword : ∀ c ∈ word, isSpace c = false)
    (expected : String) :
    (Rule.literal word expected).InStep respacing fun _ _ => True := by
  intro place other hmatch
  rw [result_literal, result_literal]
  exact rel_map (hmatch.after? hword) fun _ _ h => ⟨trivial, h⟩

end InStep

end Rule

/-- The condition does not hold the gap inside its quotes. -/
def Condition.Spares (respacing : Respacing) : Condition → Prop
  | .raw _ _ => True
  | .quoted _ _ span =>
      span.stop ≤ respacing.start ∨ respacing.stop ≤ span.start

/-- The same content, unless a condition in the first value holds the gap. -/
def Respacing.Same (respacing : Respacing) (conditions : α → List Condition)
    (content : α → β) (value other : α) : Prop :=
  (∀ condition ∈ conditions value, condition.Spares respacing) →
    content other = content value

theorem Respacing.Same.cons {respacing : Respacing}
    {conditions : α → List Condition} {content : α → β} {value other : α}
    {values others : List α}
    (h : respacing.Same conditions content value other)
    (hrest : respacing.Same (List.flatMap conditions) (List.map content) values
      others) :
    respacing.Same (List.flatMap conditions) (List.map content)
      (value :: values) (other :: others) := by
  intro hspares
  rw [List.flatMap_cons, List.forall_mem_append] at hspares
  rw [List.map_cons, List.map_cons, h hspares.1, hrest hspares.2]

namespace Rule

section Rows

variable {respacing : Respacing} {item : Rule α} {separator : Rule Unit}
  {conditions : α → List Condition} {content : α → β}

theorem Further.respaced
    (hitem : item.InStep respacing (respacing.Same conditions content))
    (hseparator : separator.InStep respacing fun _ _ => True)
    {first second stop : Cursor} {values : List α}
    (h : Further item separator first values stop)
    (hmatch : respacing.Matches first second) :
    ∃ others end', Further item separator second others end' ∧
      respacing.Same (List.flatMap conditions) (List.map content) values
        others ∧
      respacing.Matches stop end' := by
  induction h generalizing second with
  | done hnone =>
      exact ⟨[], second, .done ((hseparator.bind hitem).eq_none hmatch hnone),
        fun _ => rfl, hmatch⟩
  | more hbetween hvalue _ ih =>
      obtain ⟨⟨⟩, middle, hbetween', -, hmiddle⟩ :=
        hseparator.eq_some hmatch hbetween
      obtain ⟨other, next, hother, hsame, hnext⟩ := hitem.eq_some hmiddle hvalue
      obtain ⟨others, end', hothers, hrest, hend⟩ := ih hnext
      exact ⟨other :: others, end', .more hbetween' hother hothers,
        hsame.cons hrest, hend⟩

theorem InStep.separated (htakes : (separator >>= fun _ => item).Takes (· ≠ []))
    (hitem : item.InStep respacing (respacing.Same conditions content))
    (hseparator : separator.InStep respacing fun _ _ => True) :
    (Rule.separated item separator).InStep respacing
      (respacing.Same (List.flatMap conditions) (List.map content)) := by
  intro first second hmatch
  cases hresult : (Rule.separated item separator first).result with
  | none =>
      rw [separated_eq_none_iff.mpr
        (hitem.eq_none hmatch (separated_eq_none_iff.mp hresult))]
      exact .none
  | some reading =>
      obtain ⟨value, next, others, hvalue, hothers, hvalues⟩ :=
        (separated_eq_some_iff htakes).mp hresult
      obtain ⟨value', next', hvalue', hsame, hnext⟩ :=
        hitem.eq_some hmatch hvalue
      obtain ⟨others', stop', hothers', hrest, hstop⟩ :=
        hothers.respaced hitem hseparator hnext
      rw [(separated_eq_some_iff htakes).mpr
        ⟨value', next', others', hvalue', hothers', rfl⟩]
      exact .some ⟨hvalues ▸ hsame.cons hrest, hstop⟩

end Rows

end Rule

namespace Grammar

variable {respacing : Respacing}

theorem inStep_space : space.InStep respacing fun _ _ => True := by
  intro first second hmatch
  obtain ⟨hrun, hafter⟩ := hmatch.space
  rw [result_space, result_space]
  simp only [hrun]
  split
  · exact .none
  · exact .some ⟨trivial, hafter⟩

theorem inStep_identifier :
    identifier.InStep respacing
      (respacing.Same (fun _ => []) FieldName.name) := by
  intro first second hmatch
  obtain ⟨hrun, hafter⟩ :=
    hmatch.run fun _ => isIdentifierChar_eq_false_of_isSpace
  rw [result_identifier, result_identifier, hrun]
  split
  · exact .none
  · exact .some ⟨fun _ => rfl, hafter⟩

theorem inStep_multiField :
    multiField.InStep respacing
      (respacing.Same (List.flatMap fun _ => []) (List.map FieldName.name)) :=
  .separated takes_comma_identifier inStep_identifier
    (.literal (by simp [isSpace]) _)

theorem inStep_field :
    field.InStep respacing
      (respacing.Same (fun _ => []) FieldList.content) := by
  intro first second hmatch
  rw [result_field, result_field]
  refine rel_bind (inStep_multiField hmatch) fun names others hnames => ?_
  refine rel_map (hnames.2.after? (by simp [isSpace]))
    fun colon colon' hcolon => ?_
  exact ⟨fun _ => hnames.1 (by simp), hcolon.space.2⟩

/-! A quoted string that is opened before the gap and closed after it holds the
gap. Each character of the gap stands for itself there, also after a
backslash. -/

theorem quotedRest_of_all_isSpace {quote : Char} (hquote : IsQuote quote)
    (closing : String) (position : Nat) {gap : List Char}
    (hgap : ∀ c ∈ gap, isSpace c = true) (rest : List Char) :
    (quotedRest quote closing position (gap ++ rest)).result =
      (quotedRest quote closing (position + byteSize gap) rest).result.map
        fun reading => (gap ++ reading.1, reading.2) := by
  induction gap generalizing position with
  | nil => simp
  | cons c gap ih =>
      obtain ⟨hc, hgap⟩ := List.forall_mem_cons.mp hgap
      have hplain : c ≠ '\\' := by
        rintro rfl
        cases hc
      have hother : c ≠ quote := by
        rintro rfl
        rcases hquote with rfl | rfl <;> cases hc
      rw [List.cons_append, quotedRest.eq_4 _ _ _ _ _
        (by simp [hplain]) (by simp [hplain]), if_neg hother]
      simp only [ih _ hgap, Option.map_map, byteSize_cons, Nat.add_assoc]
      rfl

theorem quotedRest_backslash_of_isBlank {quote : Char}
    (hquote : IsQuote quote) (closing : String) (position : Nat)
    {gap : List Char} (hgap : IsBlank gap) (rest : List Char) :
    (quotedRest quote closing position ('\\' :: (gap ++ rest))).result =
      (quotedRest quote closing (position + byteSize ('\\' :: gap))
        rest).result.map fun reading => (gap ++ reading.1, reading.2) := by
  obtain ⟨c, more, rfl⟩ := List.exists_cons_of_ne_nil hgap.1
  have hmore := (List.forall_mem_cons.mp hgap.2).2
  simp only [List.cons_append, quotedRest, quotedRest_of_all_isSpace hquote
    closing _ hmore, Option.map_map, byteSize_cons, ← Nat.add_assoc]
  rfl

/-- Both strings end at matching places. They are the same if they end before
the gap or were opened after it. -/
def SameRest (respacing : Respacing) (opening : Nat)
    (reading other : List Char × Cursor) : Prop :=
  (reading.2.position ≤ respacing.start ∨ respacing.stop ≤ opening →
      other.1 = reading.1) ∧
    respacing.Matches reading.2 other.2

/-- After the gap the rests of the two strings are the same, whatever came
before them. -/
theorem rel_quotedRest_passed (quote : Char) (closing : String) {first : Nat}
    (second : Nat) (hfirst : respacing.stop ≤ first) (rest : List Char)
    {opening : Nat} (before after : List Char)
    (hbefore : respacing.stop ≤ opening → after = before) :
    Option.Rel (SameRest respacing opening)
      ((quotedRest quote closing first rest).result.map fun reading =>
        (before ++ reading.1, reading.2))
      ((quotedRest quote closing second rest).result.map fun reading =>
        (after ++ reading.1, reading.2)) := by
  have hshift : ∀ position, (quotedRest quote closing position rest).result =
      (quotedRest quote closing 0 rest).result.map fun reading =>
        (reading.1, reading.2.shift position) :=
    fun position => result_quotedRest_shift quote closing position 0 rest
  rw [hshift first, hshift second]
  cases (quotedRest quote closing 0 rest).result with
  | none => exact .none
  | some reading =>
      have hstop : respacing.stop ≤ (reading.2.shift first).position :=
        Nat.le_add_right_of_le hfirst
      refine .some ⟨fun hsame => ?_, .passed rfl hstop⟩
      have hgap := byteSize_pos respacing.isBlank_gap.1
      have hopening : respacing.stop ≤ opening := by
        refine hsame.resolve_left (Nat.not_le.mpr ?_)
        exact Nat.lt_of_lt_of_le (Nat.lt_add_of_pos_right hgap) hstop
      exact congrArg (· ++ reading.1) (hbefore hopening)

theorem rel_quotedRest_ahead {quote : Char} (hquote : IsQuote quote)
    (closing : String) (position : Nat) (text : List Char)
    (h : position + byteSize text = respacing.start) {opening : Nat}
    (hopening : opening ≤ respacing.start) :
    Option.Rel (SameRest respacing opening)
      (quotedRest quote closing position
        (text ++ (respacing.gap ++ respacing.right))).result
      (quotedRest quote closing position
        (text ++ (respacing.other ++ respacing.right))).result := by
  have hgap := byteSize_pos respacing.isBlank_gap.1
  have hnot : ¬ respacing.stop ≤ opening := by
    rw [Respacing.stop]
    omega
  induction position, text using quotedRest.induct quote closing with
  | case1 position =>
      rw [List.nil_append, List.nil_append, quotedRest_of_all_isSpace hquote
        closing position respacing.isBlank_gap.2, quotedRest_of_all_isSpace
        hquote closing position respacing.isBlank_other.2]
      refine rel_quotedRest_passed quote closing _ ?_ respacing.right _ _
        (absurd · hnot)
      rw [Respacing.stop, ← h]
      simp
  | case2 position =>
      rw [List.cons_append, List.cons_append, List.nil_append, List.nil_append,
        quotedRest_backslash_of_isBlank hquote closing position
        respacing.isBlank_gap, quotedRest_backslash_of_isBlank hquote closing
        position respacing.isBlank_other]
      refine rel_quotedRest_passed quote closing _ ?_ respacing.right _ _
        (absurd · hnot)
      rw [Respacing.stop, ← h, Nat.add_assoc, ← byteSize_append]
      rfl
  | case3 position c rest ih =>
      simp only [List.cons_append, quotedRest]
      have hsize :
          position + 1 + c.utf8Size + byteSize rest = respacing.start := by
        rw [← h, byteSize_cons, byteSize_cons, Nat.add_assoc, Nat.add_assoc]
        rfl
      exact rel_map (ih hsize) fun _ _ hrest =>
        ⟨fun hsame => congrArg (c :: ·) (hrest.1 hsame), hrest.2⟩
  | case4 position rest hdangling hescape =>
      have hplain := hquote.ne_backslash
      rw [List.cons_append, List.cons_append, quotedRest.eq_4 _ _ _ _ _
        (by simp [hplain]) (by simp [hplain]), quotedRest.eq_4 _ _ _ _ _
        (by simp [hplain]) (by simp [hplain]), if_pos rfl, if_pos rfl]
      refine .some ⟨fun _ => rfl, ?_⟩
      exact .ahead ⟨position + quote.utf8Size, rest⟩
        (by simpa [Nat.add_assoc] using h)
  | case5 position c rest hdangling hescape hother ih =>
      have hplain : c ≠ '\\' := by
        rintro rfl
        cases rest with
        | nil => exact hdangling rfl rfl
        | cons next rest => exact hescape next rest rfl rfl
      rw [List.cons_append, List.cons_append, quotedRest.eq_4 _ _ _ _ _
        (by simp [hplain]) (by simp [hplain]), quotedRest.eq_4 _ _ _ _ _
        (by simp [hplain]) (by simp [hplain]), if_neg hother, if_neg hother]
      exact rel_map (ih (by simpa [Nat.add_assoc] using h)) fun _ _ hrest =>
        ⟨fun hsame => congrArg (c :: ·) (hrest.1 hsame), hrest.2⟩

theorem rel_quotedRest {quote : Char} (hquote : IsQuote quote)
    (closing : String) {first second : Cursor}
    (h : respacing.Matches first second) :
    Option.Rel (SameRest respacing first.position)
      (quotedRest quote closing first.position first.rest).result
      (quotedRest quote closing second.position second.rest).result := by
  cases h with
  | ahead cursor h =>
      exact rel_quotedRest_ahead hquote closing cursor.position cursor.rest h
        (h ▸ Nat.le_add_right _ _)
  | passed hrest h =>
      rw [← hrest]
      have hrel : Option.Rel (SameRest respacing first.position) _ _ :=
        rel_quotedRest_passed quote closing second.position h first.rest
          [] [] fun _ => rfl
      simpa using hrel

/-! Conditions and the rows of them. -/

theorem inStep_openingQuote : openingQuote.InStep respacing Eq := by
  intro first second hmatch
  rw [result_openingQuote, result_openingQuote]
  refine rel_or (rel_map (hmatch.after? ?_) ?_) (rel_map (hmatch.after? ?_) ?_)
  · simp [isSpace]
  · exact fun _ _ h => ⟨rfl, h⟩
  · simp [isSpace]
  · exact fun _ _ h => ⟨rfl, h⟩

theorem inStep_quotedString :
    quotedString.InStep respacing
      (respacing.Same (fun c => [c]) Condition.content) := by
  intro first second hmatch
  rw [result_quotedString, result_quotedString]
  cases hopening : (openingQuote first).result with
  | none =>
      rw [inStep_openingQuote.eq_none hmatch hopening]
      exact .none
  | some reading =>
      obtain ⟨opening, next⟩ := reading
      obtain ⟨_, next', hopening', rfl, hnext⟩ :=
        inStep_openingQuote.eq_some hmatch hopening
      obtain ⟨hquote, hreads⟩ := openingQuote_eq_some hopening
      rw [hopening', Option.bind_some, Option.bind_some]
      refine rel_map (rel_quotedRest hquote opening.2 hnext)
        fun reading other hrest => ?_
      refine ⟨fun hspares => ?_, hrest.2⟩
      have hoff := hspares _ (.head _)
      have hsame : other.1 = reading.1 := by
        refine hrest.1 (hoff.imp_right fun hopened => ?_)
        rw [hreads.position]
        exact Nat.le_add_right_of_le hopened
      rw [Condition.content, Condition.content, hsame]

theorem inStep_rawCondition :
    rawCondition.InStep respacing
      (respacing.Same (fun c => [c]) Condition.content) := by
  intro first second hmatch
  obtain ⟨hrun, hafter⟩ := hmatch.run fun _ => isTermChar_eq_false_of_isSpace
  rw [result_rawCondition, result_rawCondition, hrun]
  split
  · exact .none
  · exact .some ⟨fun _ => rfl, hafter⟩

theorem inStep_condition :
    condition.InStep respacing
      (respacing.Same (fun c => [c]) Condition.content) := by
  intro first second hmatch
  rw [result_condition, result_condition]
  refine rel_filter
    (rel_or (inStep_quotedString hmatch) (inStep_rawCondition hmatch)) ?_
  intro reading other hrel
  rw [Bool.eq_iff_iff, bne_iff_ne, bne_iff_ne]
  exact not_congr (hrel.2.head?_eq_some_iff (by decide))

theorem inStep_spacedWord {word : List Char}
    (hword : ∀ c ∈ word, isSpace c = false) (expected : String) :
    (do space; Rule.literal word expected; space : Rule Unit).InStep respacing
      fun _ _ => True :=
  inStep_space.bind ((Rule.InStep.literal hword expected).bind inStep_space)

theorem inStep_orOp : orOp.InStep respacing fun _ _ => True :=
  (inStep_spacedWord (by simp [isSpace]) Expected.orWord).choice inStep_space

theorem inStep_andOp : andOp.InStep respacing fun _ _ => True :=
  inStep_spacedWord (by simp [reservedWord, isSpace]) Expected.andWord

theorem inStep_orConditions :
    orConditions.InStep respacing
      (respacing.Same OrGroup.conditions OrGroup.content) := by
  have hrow : (Rule.separated condition orOp).InStep respacing _ :=
    .separated takes_orOp_condition inStep_condition inStep_orOp
  intro first second hmatch
  rw [isRowOf_orConditions first, isRowOf_orConditions second]
  refine rel_map (hrow hmatch) fun reading other hrel =>
    ⟨fun hspares => ?_, hrel.2⟩
  exact hrel.1 (by simpa using hspares)

theorem inStep_andConditions :
    andConditions.InStep respacing
      (respacing.Same
        (fun conditions => conditions.groups.flatMap OrGroup.conditions)
        Conditions.content) := by
  have hrow : (Rule.separated orConditions andOp).InStep respacing _ :=
    .separated takes_andOp_orConditions inStep_orConditions inStep_andOp
  intro first second hmatch
  rw [isRowOf_andConditions first, isRowOf_andConditions second]
  exact rel_map (hrow hmatch) fun reading other hrel => hrel

theorem inStep_andQuery :
    andQuery.InStep respacing
      (respacing.Same
        (fun group => group.conditions.groups.flatMap OrGroup.conditions)
        QueryGroup.content) := by
  intro first second hmatch
  rw [result_andQuery, result_andQuery]
  cases hfield : (field first).result with
  | none =>
      rw [inStep_field.eq_none hmatch hfield]
      refine rel_map (inStep_andConditions hmatch) fun reading other hrel =>
        ⟨fun hspares => ?_, hrel.2⟩
      rw [QueryGroup.content, QueryGroup.content, hrel.1 hspares]
  | some reading =>
      obtain ⟨list, next⟩ := reading
      obtain ⟨list', next', hfield', hlist, hnext⟩ :=
        inStep_field.eq_some hmatch hfield
      rw [hfield']
      refine rel_map (inStep_andConditions hnext) fun reading other hrel =>
        ⟨fun hspares => ?_, hrel.2⟩
      rw [QueryGroup.content, QueryGroup.content, hrel.1 hspares,
        Option.map_some, Option.map_some, hlist (by simp)]

end Grammar

/-- Other space in a gap of an accepted query, outside of its quoted strings,
gives an accepted query with the same content. -/
theorem content_eq_of_respaced {left gap right : String}
    (hgap : IsBlank gap.toList) {tree : SyntaxTree}
    (hparse : SyntaxTree.parse (left ++ gap ++ right) = .ok tree)
    (houtside : ∀ text quote span, .quoted text quote span ∈ tree.conditions →
      span.stop ≤ byteSize left.toList ∨
        byteSize left.toList + byteSize gap.toList ≤ span.start)
    {other : String} (hother : IsBlank other.toList) :
    ∃ respaced, SyntaxTree.parse (left ++ other ++ right) = .ok respaced ∧
      respaced.content = tree.content := by
  let respacing : Respacing :=
    ⟨left.toList, gap.toList, other.toList, right.toList, hgap, hother⟩
  have hmatch : respacing.Matches (.ofText (left ++ gap ++ right))
      (.ofText (left ++ other ++ right)) := by
    have hahead : respacing.Matches _ _ :=
      .ahead ⟨0, left.toList⟩ (Nat.zero_add _)
    simpa [Cursor.ofText, Cursor.extend, respacing] using hahead
  have hspares : ∀ condition ∈ tree.conditions, condition.Spares respacing := by
    intro condition hcondition
    cases condition with
    | raw text span => trivial
    | quoted text quote span => exact houtside text quote span hcondition
  obtain ⟨stop, hresult⟩ := Grammar.parse_eq_ok_iff.mp hparse
  obtain ⟨next, hgroups, -, rfl, hend⟩ :=
    Grammar.andQueries_eq_some_iff.mp hresult
  have hrow :
      (Rule.separated Grammar.andQuery Grammar.space).InStep respacing _ :=
    .separated Grammar.takes_space_andQuery Grammar.inStep_andQuery
      Grammar.inStep_space
  obtain ⟨groups, next', hgroups', hsame, hnext⟩ := hrow.eq_some hmatch hgroups
  refine ⟨⟨groups, ⟨0, next'.position⟩⟩,
    Grammar.parse_eq_ok_iff.mpr ⟨next'.afterRun isSpace, ?_⟩, hsame ?_⟩
  · exact Grammar.andQueries_eq_some_iff.mpr
      ⟨next', hgroups', rfl, rfl, hnext.space.2.rest_eq_nil hend⟩
  · simpa [SyntaxTree.conditions, SyntaxTree.orGroups, List.flatMap_assoc]
      using hspares

/-- A quote that is never closed reads over the gap, and the backslash before it
escapes it. -/
theorem content_eq_of_respaced_unclosed_quote :
    ∃ tree respaced,
      SyntaxTree.parse ("'it\\" ++ " " ++ "works and \"x  y\"") = .ok tree ∧
        .quoted "x  y" '"' ⟨15, 21⟩ ∈ tree.conditions ∧
        SyntaxTree.parse ("'it\\" ++ "\t\n" ++ "works and \"x  y\"") =
          .ok respaced ∧
        respaced.content = tree.content := by
  have hparse : SyntaxTree.parse ("'it\\" ++ " " ++ "works and \"x  y\"") =
      .ok ⟨[⟨none,
        ⟨[⟨[.raw "'it\\" ⟨0, 4⟩, .raw "works" ⟨5, 10⟩], ⟨0, 10⟩⟩,
          ⟨[.quoted "x  y" '"' ⟨15, 21⟩], ⟨15, 21⟩⟩], ⟨0, 21⟩⟩, ⟨0, 21⟩⟩],
        ⟨0, 21⟩⟩ := by
    decide +kernel
  have hother : IsBlank "\t\n".toList := by simp [IsBlank, isSpace]
  obtain ⟨respaced, hrespaced, hcontent⟩ :=
    content_eq_of_respaced (by simp [IsBlank, isSpace]) hparse
      (fun text quote span hquoted => by
        simp only [SyntaxTree.conditions, SyntaxTree.orGroups,
          List.flatMap_cons, List.flatMap_nil, List.append_nil,
          List.cons_append, List.nil_append, List.mem_cons, List.not_mem_nil,
          Condition.quoted.injEq, reduceCtorEq, or_false, false_or] at hquoted
        obtain ⟨-, -, rfl⟩ := hquoted
        exact .inr (by decide)) hother
  exact ⟨_, respaced, hparse, by decide, hrespaced, hcontent⟩

end TermSearch
