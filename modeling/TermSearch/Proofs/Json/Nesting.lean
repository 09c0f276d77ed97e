import TermSearch.Json.Layout

namespace TermSearch.Json

/-! How deeply tokens nest their brackets. -/

def nestingFrom (depth : Nat) : List Token → Nat
  | [] => depth
  | token :: rest => max depth (nestingFrom (token.depthAfter depth) rest)

def nesting (tokens : List Token) : Nat :=
  nestingFrom 0 tokens

theorem le_nestingFrom (depth : Nat) (tokens : List Token) :
    depth ≤ nestingFrom depth tokens := by
  cases tokens with
  | nil => exact Nat.le_refl depth
  | cons token rest => exact Nat.le_max_left _ _

/-- The tokens close what they open, and nothing else. -/
def IsBalanced (tokens : List Token) : Prop :=
  ∀ depth rest, nestingFrom depth (tokens ++ rest) =
    max (depth + nesting tokens) (nestingFrom depth rest)

theorem nesting_append {left right : List Token} (h : IsBalanced left) :
    nesting (left ++ right) = max (nesting left) (nesting right) := by
  have hright := h 0 right
  rwa [Nat.zero_add] at hright

section

variable {left right inside : List Token} {token : Token}

theorem IsBalanced.nil : IsBalanced [] := fun depth rest =>
  (Nat.max_eq_right (le_nestingFrom depth rest)).symm

theorem IsBalanced.append (hleft : IsBalanced left)
    (hright : IsBalanced right) : IsBalanced (left ++ right) := by
  intro depth rest
  rw [List.append_assoc, hleft, hright, nesting_append hleft]
  omega

/-! A token that is no bracket changes nothing. -/

theorem nestingFrom_cons (htoken : ∀ depth, token.depthAfter depth = depth)
    (depth : Nat) (rest : List Token) :
    nestingFrom depth (token :: rest) = nestingFrom depth rest := by
  rw [nestingFrom, htoken, Nat.max_eq_right (le_nestingFrom depth rest)]

theorem IsBalanced.cons (htoken : ∀ depth, token.depthAfter depth = depth)
    (h : IsBalanced inside) : IsBalanced (token :: inside) := by
  intro depth rest
  have hsame : nesting (token :: inside) = nesting inside :=
    nestingFrom_cons htoken 0 inside
  rw [List.cons_append, nestingFrom_cons htoken, h, hsame]

/-! Brackets. -/

theorem nestingFrom_bracketed (h : IsBalanced inside) (bracket : Bracket)
    (depth : Nat) (rest : List Token) :
    nestingFrom depth
        (.opening bracket :: (inside ++ .closing bracket :: rest)) =
      max (depth + (nesting inside + 1)) (nestingFrom depth rest) := by
  rw [nestingFrom, Token.depthAfter, h, nestingFrom, Token.depthAfter,
    Nat.add_sub_cancel]
  omega

theorem nesting_bracketed (h : IsBalanced inside) (bracket : Bracket) :
    nesting (.opening bracket :: inside ++ [.closing bracket]) =
      nesting inside + 1 := by
  rw [nesting, List.cons_append, nestingFrom_bracketed h, nestingFrom]
  omega

theorem IsBalanced.bracketed (h : IsBalanced inside) (bracket : Bracket) :
    IsBalanced (.opening bracket :: inside ++ [.closing bracket]) := by
  intro depth rest
  rw [nesting_bracketed h, ← nestingFrom_bracketed h bracket, List.append_assoc,
    List.cons_append, List.singleton_append]

end

/-! Items with commas between them. -/

theorem IsBalanced.intercalate_comma {items : List (List Token)}
    (h : ∀ item ∈ items, IsBalanced item) :
    IsBalanced ([Token.comma].intercalate items) :=
  intercalate_comma_induction nil
    (fun _ _ hleft hright => hleft.append (hright.cons fun _ => rfl)) h

theorem nesting_intercalate_comma_le_iff {items : List (List Token)}
    (h : ∀ item ∈ items, IsBalanced item) {levels : Nat} :
    nesting ([Token.comma].intercalate items) ≤ levels ↔
      ∀ item ∈ items, nesting item ≤ levels := by
  induction items with
  | nil => exact iff_of_true (Nat.zero_le levels) nofun
  | cons item items ih =>
      obtain ⟨hitem, hitems⟩ := List.forall_mem_cons.mp h
      cases items with
      | nil => rw [List.intercalate_singleton, List.forall_mem_singleton]
      | cons next items =>
          have hcomma :
              nesting (.comma :: [Token.comma].intercalate (next :: items)) =
                nesting ([Token.comma].intercalate (next :: items)) :=
            nestingFrom_cons (fun _ => rfl) 0 _
          rw [List.intercalate_cons_cons, List.append_assoc,
            nesting_append hitem, List.singleton_append, hcomma, Nat.max_le,
            ih hitems, List.forall_mem_cons (a := item)]

theorem exists_inner_of_bracketed {items : List (List Token)}
    (h : ∀ item ∈ items, IsBalanced item) (bracket : Bracket) {levels : Nat}
    (hlevels : nesting (.opening bracket :: [Token.comma].intercalate items ++
      [.closing bracket]) ≤ levels) :
    ∃ inner, levels = inner + 1 ∧ ∀ item ∈ items, nesting item ≤ inner := by
  rw [nesting_bracketed (.intercalate_comma h)] at hlevels
  cases levels with
  | zero => exact absurd hlevels (Nat.not_succ_le_zero _)
  | succ inner =>
      refine ⟨inner, rfl, ?_⟩
      exact (nesting_intercalate_comma_le_iff h).mp
        (Nat.le_of_succ_le_succ hlevels)

theorem IsBalanced.array {items : List (List Token)}
    (h : ∀ item ∈ items, IsBalanced item) : IsBalanced (array items) :=
  (intercalate_comma h).bracketed .square

/-- Where an array fits, there is room for its items one bracket further in. -/
theorem exists_inner_of_array {items : List (List Token)}
    (h : ∀ item ∈ items, IsBalanced item) {levels : Nat}
    (hlevels : nesting (array items) ≤ levels) :
    ∃ inner, levels = inner + 1 ∧ ∀ item ∈ items, nesting item ≤ inner :=
  exists_inner_of_bracketed h .square hlevels

theorem nesting_array_le {items : List (List Token)}
    (h : ∀ item ∈ items, IsBalanced item) {inner : Nat}
    (hle : ∀ item ∈ items, nesting item ≤ inner) :
    nesting (array items) ≤ inner + 1 := by
  rw [array, nesting_bracketed (.intercalate_comma h)]
  exact Nat.succ_le_succ ((nesting_intercalate_comma_le_iff h).mpr hle)

section Objects

variable {members : List (String × List Token)}

theorem nesting_member (member : String × List Token) :
    nesting (.text member.1 :: .colon :: member.2) = nesting member.2 :=
  (nestingFrom_cons (fun _ => rfl) 0 _).trans
    (nestingFrom_cons (fun _ => rfl) 0 _)

theorem isBalanced_of_mem_members
    (h : ∀ member ∈ members, IsBalanced member.2) :
    ∀ written ∈ members.map fun member => .text member.1 :: .colon :: member.2,
      IsBalanced written := by
  rw [List.forall_mem_map]
  exact fun member hmember => .cons (fun _ => rfl) <| .cons (fun _ => rfl) <|
    h member hmember

theorem IsBalanced.object (h : ∀ member ∈ members, IsBalanced member.2) :
    IsBalanced (object members) :=
  (intercalate_comma (isBalanced_of_mem_members h)).bracketed .curly

theorem exists_inner_of_object (h : ∀ member ∈ members, IsBalanced member.2)
    {levels : Nat} (hlevels : nesting (object members) ≤ levels) :
    ∃ inner, levels = inner + 1 ∧
      ∀ member ∈ members, nesting member.2 ≤ inner := by
  have hwritten := isBalanced_of_mem_members h
  obtain ⟨inner, hinner, hall⟩ :=
    exists_inner_of_bracketed hwritten .curly hlevels
  refine ⟨inner, hinner, fun member hmem => ?_⟩
  exact nesting_member member ▸ hall _ (List.mem_map_of_mem hmem)

theorem nesting_object_le (h : ∀ member ∈ members, IsBalanced member.2)
    {inner : Nat} (hle : ∀ member ∈ members, nesting member.2 ≤ inner) :
    nesting (object members) ≤ inner + 1 := by
  have hwritten := isBalanced_of_mem_members h
  rw [object, nesting_bracketed (.intercalate_comma hwritten)]
  refine Nat.succ_le_succ ((nesting_intercalate_comma_le_iff hwritten).mpr ?_)
  rw [List.forall_mem_map]
  intro member hmem
  rw [nesting_member]
  exact hle member hmem

theorem nesting_object_singleton_le {tokens : List Token}
    (h : IsBalanced tokens) {inner : Nat} (hle : nesting tokens ≤ inner)
    (name : String) : nesting (object [(name, tokens)]) ≤ inner + 1 :=
  nesting_object_le (List.forall_mem_singleton.mpr h)
    (List.forall_mem_singleton.mpr hle)

end Objects

end TermSearch.Json
