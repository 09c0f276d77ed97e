import Mathlib.Data.List.Perm.Basic
import TermSearch.Proofs.Json.Value

namespace TermSearch.Json

/-! Members in another order. What depends on the members of each name alone is
the same in every order that keeps those of one name as they were. -/

/-- The members in another order, those of one name in the order that they
had. -/
inductive Shuffled : List (Name × Value) → List (Name × Value) → Prop
  | nil : Shuffled [] []
  | cons (member : Name × Value) {left right : List (Name × Value)}
      (h : Shuffled left right) : Shuffled (member :: left) (member :: right)
  | swap {first second : Name × Value} (h : first.1 ≠ second.1)
      (rest : List (Name × Value)) :
      Shuffled (first :: second :: rest) (second :: first :: rest)
  | trans {left middle right : List (Name × Value)}
      (hleft : Shuffled left middle) (hright : Shuffled middle right) :
      Shuffled left right

namespace Shuffled

variable {left right : List (Name × Value)}

theorem perm (h : Shuffled left right) : left.Perm right := by
  induction h with
  | nil => exact .nil
  | cons member _ ih => exact .cons member ih
  | swap _ rest => exact .swap _ _ rest
  | trans _ _ ihleft ihright => exact ihleft.trans ihright

theorem of_perm (h : left.Perm right) (hnames : (left.map Prod.fst).Nodup) :
    Shuffled left right := by
  induction h with
  | nil => exact .nil
  | cons member _ ih => exact .cons member (ih (List.nodup_cons.mp hnames).2)
  | swap first second rest =>
      refine .swap (fun heq => (List.nodup_cons.mp hnames).1 ?_) rest
      exact heq ▸ List.mem_cons_self
  | trans hleft _ ihleft ihright =>
      exact .trans (ihleft hnames)
        (ihright ((hleft.map Prod.fst).nodup_iff.mp hnames))

end Shuffled

/-- Objects anywhere in the value have their members in another order, those of
one name in the order that they had. -/
inductive Reordered : Value → Value → Prop
  | refl (value : Value) : Reordered value value
  | trans {left middle right : Value} (hleft : Reordered left middle)
      (hright : Reordered middle right) : Reordered left right
  | shuffled {left right : List (Name × Value)} (h : Shuffled left right) :
      Reordered (.object left) (.object right)
  | item (left right : List Value) {old new : Value} (h : Reordered old new) :
      Reordered (.array (left ++ old :: right)) (.array (left ++ new :: right))
  | member (left right : List (Name × Value)) (name : Name) {old new : Value}
      (h : Reordered old new) :
      Reordered (.object (left ++ (name, old) :: right))
        (.object (left ++ (name, new) :: right))

namespace Reordered

variable {α β : Type} {old new : Value}

theorem text?_eq (h : Reordered old new) : old.text? = new.text? := by
  induction h with
  | refl => rfl
  | trans _ _ ihleft ihright => exact ihleft.trans ihright
  | shuffled | item | member => rfl

theorem natural?_eq (h : Reordered old new) : old.natural? = new.natural? := by
  induction h with
  | refl => rfl
  | trans _ _ ihleft ihright => exact ihleft.trans ihright
  | shuffled | item | member => rfl

theorem sequence?_eq {levels : Nat}
    {item : (inner : Nat) → inner < levels → Value → Option α}
    (hitem : ∀ inner hinner {old new : Value}, Reordered old new →
      item inner hinner old = item inner hinner new)
    (h : Reordered old new) :
    old.sequence? levels item = new.sequence? levels item := by
  induction h with
  | refl => rfl
  | trans _ _ ihleft ihright => exact ihleft.trans ihright
  | shuffled | member => rfl
  | item left right h =>
      refine Value.within?_congr fun inner hinner => ?_
      rw [List.mapM_append, List.mapM_append, List.mapM_cons, List.mapM_cons,
        hitem _ _ h]

theorem foldMembers_member {member : String → β → Value → Option β}
    (hmember : ∀ name state, member name state old = member name state new)
    (left right : List (Name × Value)) (name : Name) (state : β) :
    Value.foldMembers member state (left ++ (name, old) :: right) =
      Value.foldMembers member state (left ++ (name, new) :: right) := by
  have hpass : ∀ state, Value.passMember member state (name, old) =
      Value.passMember member state (name, new) := by
    intro state
    simp only [Value.passMember, hmember]
  simp only [Value.foldMembers_append, Value.foldMembers_cons, hpass]

theorem alternative?_eq {levels : Nat} {known : List String}
    {content : String → (inner : Nat) → inner < levels → Value → Option α}
    (hcontent : ∀ name inner hinner {old new : Value}, Reordered old new →
      content name inner hinner old = content name inner hinner new)
    (h : Reordered old new) :
    old.alternative? levels known content =
      new.alternative? levels known content := by
  induction h with
  | refl => rfl
  | trans _ _ ihleft ihright => exact ihleft.trans ihright
  | item => rfl
  | @shuffled left right h =>
      by_cases hlength : left.length = 1
      · obtain ⟨entry, rfl⟩ := List.length_eq_one_iff.mp hlength
        rw [List.singleton_perm.mp h.perm]
      · rw [Value.alternative?_of_length_ne hlength,
          Value.alternative?_of_length_ne (h.perm.length_eq ▸ hlength)]
  | member left right name h =>
      by_cases hempty : left = [] ∧ right = []
      · obtain ⟨rfl, rfl⟩ := hempty
        cases name with
        | none => rfl
        | some name =>
            refine if_congr Iff.rfl ?_ rfl
            exact Value.within?_congr fun inner hinner =>
              hcontent _ inner hinner h
      · have hlength :
            ∀ value, (left ++ (name, value) :: right).length ≠ 1 := by
          intro value hone
          rw [List.length_append, List.length_cons] at hone
          exact hempty ⟨List.eq_nil_of_length_eq_zero (by omega),
            List.eq_nil_of_length_eq_zero (by omega)⟩
        rw [Value.alternative?_of_length_ne (hlength _),
          Value.alternative?_of_length_ne (hlength _)]

end Reordered

/-! Passing over members in another order. -/

section Order

variable {β : Type} {member : String → β → Value → Option β}
  {left right : List (Name × Value)}

def Exchangeable (member : String → β → Value → Option β)
    (first second : Name × Value) : Prop :=
  ∀ state,
    ((Value.passMember member state first).bind fun next =>
        Value.passMember member next second) =
      (Value.passMember member state second).bind fun next =>
        Value.passMember member next first

/-- A member whose name is no text is never passed, so only names that are texts
matter. -/
theorem Exchangeable.of_names {first second : Name × Value}
    (h : ∀ left right, first.1 = some left → second.1 = some right → ∀ state,
      ((member (String.ofList left) state first.2).bind fun next =>
          member (String.ofList right) next second.2) =
        (member (String.ofList right) state second.2).bind fun next =>
          member (String.ofList left) next first.2) :
    Exchangeable member first second := by
  intro state
  obtain ⟨_ | left, leftValue⟩ := first
  · exact (Option.bind_fun_none _).symm
  · obtain ⟨_ | right, rightValue⟩ := second
    · exact Option.bind_fun_none _
    · exact h left right rfl rfl state

theorem Exchangeable.foldMembers_eq {first second : Name × Value}
    (h : Exchangeable member first second) (rest : List (Name × Value))
    (state : β) :
    Value.foldMembers member state (first :: second :: rest) =
      Value.foldMembers member state (second :: first :: rest) := by
  simp only [Value.foldMembers_cons]
  rw [← Option.bind_assoc, ← Option.bind_assoc, h state]

theorem Shuffled.foldMembers_eq
    (hmember : ∀ {first second : Name × Value}, first.1 ≠ second.1 →
      Exchangeable member first second)
    (h : Shuffled left right) (state : β) :
    Value.foldMembers member state left =
      Value.foldMembers member state right := by
  induction h generalizing state with
  | nil => rfl
  | cons entry _ ih => simp only [Value.foldMembers_cons, ih]
  | swap h rest => exact (hmember h).foldMembers_eq rest state
  | trans _ _ ihleft ihright => exact (ihleft state).trans (ihright state)

theorem foldMembers_eq_of_perm
    (hmember : ∀ first second : Name × Value, Exchangeable member first second)
    (h : left.Perm right) (state : β) :
    Value.foldMembers member state left =
      Value.foldMembers member state right := by
  have hcomm : RightCommutative fun (reached : Option β) entry =>
      reached >>= fun state => Value.passMember member state entry := by
    refine ⟨fun reached first second => ?_⟩
    cases reached with
    | none => rfl
    | some state => exact hmember first second state
  rw [Value.foldMembers, Value.foldMembers, List.foldlM_eq_foldl,
    List.foldlM_eq_foldl]
  exact h.foldl_eq _

end Order

end TermSearch.Json
