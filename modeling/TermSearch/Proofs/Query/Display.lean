import TermSearch.Proofs.Query.Meaning
import TermSearch.Proofs.Text.Quoted
import TermSearch.Query.Search

namespace TermSearch

/-! The display of a query determines the query. Each line shows how deep its
node lies and what it is, and a row of nodes with their depths, from top to
bottom, is one tree only. -/

namespace QueryNode

inductive Label where
  | term (field : Option String) (values : List String)
  | combine (connective : Connective)

def Label.text : Label → String
  | .term field values =>
      "TermMatch(" ++ field.elim "?" Text.quoted ++ ", " ++
        Text.quotedList values ++ ")"
  | .combine connective => heading connective

def outline (level : Nat) : QueryNode → List (Nat × Label)
  | .term field values => [(level, .term field values)]
  | .combine connective clauses =>
      (level, .combine connective) :: clauses.flatMap (outline (level + 1))

theorem outline_term (level : Nat) (field : Option String)
    (values : List String) :
    (term field values).outline level = [(level, .term field values)] := by
  rw [outline]

theorem outline_combine (level : Nat) (connective : Connective)
    (clauses : List QueryNode) :
    (combine connective clauses).outline level =
      (level, .combine connective) ::
        clauses.flatMap (outline (level + 1)) := by
  rw [outline]

theorem exists_outline_eq_cons (node : QueryNode) (level : Nat) :
    ∃ label entries, node.outline level = (level, label) :: entries := by
  cases node with
  | term field values => exact ⟨_, _, outline_term level field values⟩
  | combine connective clauses =>
      exact ⟨_, _, outline_combine level connective clauses⟩

/-! A tree ends where the outline comes back to its level, or above it. -/

def Closes (level : Nat) (rest : List (Nat × Label)) : Prop :=
  ∀ entry ∈ rest.head?, entry.1 ≤ level

theorem closes_outline_append (node : QueryNode) (level : Nat)
    (rest : List (Nat × Label)) :
    Closes level (node.outline level ++ rest) := by
  obtain ⟨label, entries, houtline⟩ := node.exists_outline_eq_cons level
  rw [houtline]
  simp [Closes]

theorem closes_flatMap_append {level : Nat} {rest : List (Nat × Label)}
    (h : Closes level rest) (nodes : List QueryNode) :
    Closes level (nodes.flatMap (outline level) ++ rest) := by
  cases nodes with
  | nil => exact h
  | cons node nodes =>
      rw [List.flatMap_cons, List.append_assoc]
      exact node.closes_outline_append level _

theorem not_closes_outline_append (node : QueryNode) (level : Nat)
    (rest : List (Nat × Label)) :
    ¬ Closes level (node.outline (level + 1) ++ rest) := by
  obtain ⟨label, entries, houtline⟩ := node.exists_outline_eq_cons (level + 1)
  rw [houtline]
  simp [Closes]

def IsOutlined (node : QueryNode) : Prop :=
  ∀ ⦃level : Nat⦄ ⦃other : QueryNode⦄ ⦃rest more : List (Nat × Label)⦄,
    Closes level rest → Closes level more →
    node.outline level ++ rest = other.outline level ++ more →
    node = other ∧ rest = more

theorem flatMap_outline_inj {nodes others : List QueryNode}
    (hnodes : ∀ node ∈ nodes, node.IsOutlined) {level : Nat}
    {rest more : List (Nat × Label)} (hrest : Closes level rest)
    (hmore : Closes level more)
    (h : nodes.flatMap (outline (level + 1)) ++ rest =
      others.flatMap (outline (level + 1)) ++ more) :
    nodes = others ∧ rest = more := by
  have hweaker {entries : List (Nat × Label)}
      (hentries : Closes level entries) : Closes (level + 1) entries :=
    fun entry hentry => Nat.le_succ_of_le (hentries entry hentry)
  induction nodes generalizing others with
  | nil =>
      cases others with
      | nil => exact ⟨rfl, h⟩
      | cons other others =>
          rw [List.flatMap_nil, List.nil_append, List.flatMap_cons,
            List.append_assoc] at h
          exact absurd (h ▸ hrest) (other.not_closes_outline_append level _)
  | cons node nodes ih =>
      obtain ⟨hnode, hnodes⟩ := List.forall_mem_cons.mp hnodes
      cases others with
      | nil =>
          rw [List.flatMap_nil, List.nil_append, List.flatMap_cons,
            List.append_assoc] at h
          exact absurd (h ▸ hmore) (node.not_closes_outline_append level _)
      | cons other others =>
          rw [List.flatMap_cons, List.flatMap_cons, List.append_assoc,
            List.append_assoc] at h
          obtain ⟨rfl, htail⟩ :=
            hnode (closes_flatMap_append (hweaker hrest) nodes)
              (closes_flatMap_append (hweaker hmore) others) h
          obtain ⟨rfl, hend⟩ := ih hnodes htail
          exact ⟨rfl, hend⟩

theorem isOutlined (node : QueryNode) : node.IsOutlined := by
  induction node with
  | term field values =>
      intro level other rest more hrest hmore h
      cases other with
      | term another others =>
          rw [outline_term, outline_term] at h
          cases h
          exact ⟨rfl, rfl⟩
      | combine connective clauses =>
          rw [outline_term, outline_combine] at h
          cases h
  | combine connective clauses ih =>
      intro level other rest more hrest hmore h
      cases other with
      | term field values =>
          rw [outline_term, outline_combine] at h
          cases h
      | combine another others =>
          rw [outline_combine, outline_combine, List.cons_append,
            List.cons_append, List.cons.injEq] at h
          obtain ⟨hlabel, htail⟩ := h
          cases hlabel
          obtain ⟨rfl, hend⟩ := flatMap_outline_inj ih hrest hmore htail
          exact ⟨rfl, hend⟩

theorem outline_injective (level : Nat) :
    Function.Injective (outline level) := by
  intro node other h
  have hend : Closes level [] := by simp [Closes]
  exact (node.isOutlined hend hend (congrArg (· ++ []) h)).1

/-! The lines write the outline. -/

theorem Label.head?_text_ne (label : Label) :
    ∀ c ∈ label.text.toList.head?, c ≠ ' ' := by
  cases label with
  | term field values => simp [text]
  | combine connective => cases connective <;> simp [text, heading]

theorem isPrefixCode_field :
    IsPrefixCode fun field : Option String =>
      (field.elim "?" Text.quoted).toList := by
  have hfirst (field : String) :
      ∃ c text, (Text.quoted field).toList = c :: text ∧ c ≠ '?' := by
    rw [Text.toList_quoted, Text.enclose, List.cons_append]
    exact ⟨'"', _, rfl, by decide⟩
  have h := Text.isPrefixCode_quoted.option hfirst
  have hwrite : (fun field : Option String =>
        (field.elim "?" Text.quoted).toList) =
      fun field =>
        field.elim ['?'] fun field => (Text.quoted field).toList := by
    funext field
    cases field <;> rfl
  rw [hwrite]
  exact h

theorem Label.text_injective : Function.Injective Label.text := by
  intro label other h
  have hlist := congrArg String.toList h
  cases label with
  | term field values =>
      cases other with
      | term another others =>
          have hcode :=
            (((isPrefixCode_field.closed [',', ' ']).pair
              Text.isPrefixCode_quotedList).closed [')']).opened
              "TermMatch(".toList
          have hpair : (field, values) = (another, others) :=
            hcode.injective (by simpa [text] using hlist)
          cases hpair
          rfl
      | combine connective => cases connective <;> simp [text, heading] at hlist
  | combine connective =>
      cases other with
      | term field values => cases connective <;> simp [text, heading] at hlist
      | combine another =>
          cases connective <;> cases another <;>
            first | rfl | simp [text, heading] at hlist

theorem Label.isOneLine_text (label : Label) :
    Text.IsOneLine label.text.toList := by
  cases label with
  | term field values =>
      have hfield : Text.IsOneLine (field.elim "?" Text.quoted).toList := by
        cases field with
        | none => simp [Text.IsOneLine]
        | some field => exact Text.isOneLine_quoted field
      simp only [text, String.toList_append, Text.isOneLine_append]
      exact ⟨⟨⟨⟨by simp [Text.IsOneLine], hfield⟩, by simp [Text.IsOneLine]⟩,
        Text.isOneLine_quotedList values⟩, by simp [Text.IsOneLine]⟩
  | combine connective =>
      cases connective <;> simp [text, heading, Text.IsOneLine]

def line (entry : Nat × Label) : String :=
  Text.indented entry.1 entry.2.text

theorem line_injective : Function.Injective line := by
  intro entry other h
  obtain ⟨hlevel, htext⟩ :=
    Text.indented_inj entry.2.head?_text_ne other.2.head?_text_ne h
  exact Prod.ext hlevel (Label.text_injective htext)

theorem lines_eq_map_outline (node : QueryNode) (level : Nat) :
    node.lines level = (node.outline level).map line := by
  induction node generalizing level with
  | term field values =>
      rw [lines, outline_term, List.map_singleton]
      rfl
  | combine connective clauses ih =>
      rw [lines, outline_combine, linesAll_eq_flatMap,
        List.map_cons, List.map_flatMap,
        List.flatMap_congr fun node hnode => ih node hnode (level + 1)]
      rfl

theorem isOneLine_of_mem_lines {node : QueryNode} {level : Nat} :
    ∀ line ∈ node.lines level, Text.IsOneLine line.toList := by
  rw [lines_eq_map_outline, List.forall_mem_map]
  intro entry _
  exact Text.isOneLine_indented entry.2.isOneLine_text entry.1

theorem lines_injective (level : Nat) : Function.Injective (lines level) := by
  intro node other h
  rw [lines_eq_map_outline, lines_eq_map_outline] at h
  exact outline_injective level (line_injective.list_map h)

theorem lines_display (node : QueryNode) :
    Text.lines node.display = node.lines 0 :=
  Text.lines_unlines isOneLine_of_mem_lines

theorem map_indented_lines (node : QueryNode) (level more : Nat) :
    (node.lines level).map (Text.indented more) =
      node.lines (level + more) := by
  induction node generalizing level with
  | term field values =>
      rw [lines, lines, List.map_singleton, Text.indented_indented]
  | combine connective clauses ih =>
      rw [lines, lines, linesAll_eq_flatMap, linesAll_eq_flatMap, List.map_cons,
        Text.indented_indented, List.map_flatMap, List.flatMap_congr
        fun node hnode => ih node hnode (level + 1), Nat.add_right_comm]

end QueryNode

namespace SearchQuery

open QueryNode

theorem toList_heading (page : Page) :
    (heading page).toList = "SearchQuery(from=".toList ++
      ((Nat.toDigits 10 page.offset.toNat ++ [',']) ++
        (" size=".toList ++ (Nat.toDigits 10 page.size.toNat ++ [')']))) := by
  have hdigits (n : Nat) : (toString n).toList = Nat.toDigits 10 n :=
    Nat.toList_repr
  have hcomma : ", size=".toList = [','] ++ " size=".toList := by simp
  have hbracket : ")".toList = [')'] := by simp
  unfold heading
  simp only [String.toList_append, hdigits, hcomma, hbracket, List.append_assoc]

theorem heading_injective : Function.Injective heading := by
  have hdigits :
      Function.Injective fun n : UInt64 => Nat.toDigits 10 n.toNat := by
    intro n other h
    exact UInt64.toNat_inj.mp
      (Decimal.toDigits_injective (by decide) (by decide) h)
  have hcomma := IsPrefixCode.of_terminator hdigits
    fun n => Decimal.not_mem_toDigits (c := ',') (by decide) n.toNat
  have hbracket := IsPrefixCode.of_terminator hdigits
    fun n => Decimal.not_mem_toDigits (c := ')') (by decide) n.toNat
  have hcode := (hcomma.pair (hbracket.opened " size=".toList)).opened
    "SearchQuery(from=".toList
  intro page other h
  have hlist := congrArg String.toList h
  rw [toList_heading, toList_heading] at hlist
  have hpair : (page.offset, page.size) = (other.offset, other.size) :=
    hcode.injective hlist
  cases page
  cases other
  cases hpair
  rfl

theorem isOneLine_heading (page : Page) :
    Text.IsOneLine (heading page).toList := by
  have hdigits (n : Nat) : Text.IsOneLine (Nat.toDigits 10 n) :=
    ⟨Decimal.not_mem_toDigits (by decide) n,
      Decimal.not_mem_toDigits (by decide) n⟩
  rw [toList_heading]
  simp only [Text.isOneLine_append]
  exact ⟨by simp [Text.IsOneLine], ⟨hdigits _, by simp [Text.IsOneLine]⟩,
    by simp [Text.IsOneLine], hdigits _, by simp [Text.IsOneLine]⟩

theorem lines_display (query : SearchQuery) :
    Text.lines query.display = heading query.page :: query.root.lines 1 := by
  rw [display, QueryNode.lines_display, map_indented_lines, Nat.zero_add]
  refine Text.lines_unlines
    (List.forall_mem_cons.mpr ⟨isOneLine_heading query.page, ?_⟩)
  exact isOneLine_of_mem_lines

/-- Different queries are displayed differently, whatever their texts hold. -/
theorem display_eq_display_iff :
    (∀ node other : QueryNode, node.display = other.display ↔ node = other) ∧
      ∀ query other : SearchQuery, query.display = other.display ↔
        query = other := by
  constructor
  · intro node other
    refine ⟨fun h => ?_, congrArg QueryNode.display⟩
    have hlines := congrArg Text.lines h
    rw [QueryNode.lines_display, QueryNode.lines_display] at hlines
    exact lines_injective 0 hlines
  · intro query other
    refine ⟨fun h => ?_, congrArg display⟩
    have hlines := congrArg Text.lines h
    rw [lines_display, lines_display, List.cons.injEq] at hlines
    obtain ⟨hheading, hroot⟩ := hlines
    cases query
    cases other
    cases heading_injective hheading
    cases lines_injective 1 hroot
    rfl

end SearchQuery

end TermSearch
