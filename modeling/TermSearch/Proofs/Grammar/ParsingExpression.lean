import TermSearch.Grammar.Tree
import TermSearch.Proofs.Grammar.Reading

namespace TermSearch

/-! Parsing expressions and the derivations of texts from them. Choice is
ordered, repetition takes as much as it can and never gives anything back, and a
failed expression has read nothing. An expression may call the rules of a
grammar by name. -/

inductive ParsingExpression (name : Type) where
  | empty
  | character (allowed : Char → Bool)
  | sequence (first second : ParsingExpression name)
  | choice (first second : ParsingExpression name)
  | many (body : ParsingExpression name)
  /-- Reads nothing, and only where the body fails. -/
  | absent (body : ParsingExpression name)
  | rule (called : name)

inductive ParseTree (name : Type) where
  | leaf (c : Char) (span : Span)
  | node (called : name) (span : Span) (parts : List (ParseTree name))

namespace ParseTree

variable {name : Type}

def char? : ParseTree name → Option Char
  | .leaf c _ => some c
  | .node .. => none

def text (parts : List (ParseTree name)) : List Char :=
  parts.filterMap char?

def leaves : Nat → List Char → List (ParseTree name)
  | _, [] => []
  | position, c :: text =>
      .leaf c ⟨position, position + c.utf8Size⟩ ::
        leaves (position + c.utf8Size) text

theorem leaves_append (position : Nat) (left right : List Char) :
    (leaves position (left ++ right) : List (ParseTree name)) =
      leaves position left ++ leaves (position + byteSize left) right := by
  induction left generalizing position with
  | nil => rfl
  | cons c left ih => simp [leaves, ih, Nat.add_assoc]

@[simp] theorem text_leaves (position : Nat) (word : List Char) :
    text (leaves position word : List (ParseTree name)) = word := by
  induction word generalizing position with
  | nil => rfl
  | cons c word ih =>
      rw [leaves, text, List.filterMap_cons]
      exact congrArg (c :: ·) (ih _)

theorem filterMap_leaves {view : ParseTree name → Option α}
    (h : ∀ c span, view (.leaf c span) = none) (position : Nat)
    (word : List Char) : (leaves position word).filterMap view = [] := by
  induction word generalizing position with
  | nil => rfl
  | cons c word ih => rw [leaves, List.filterMap_cons, h, ih]

end ParseTree

namespace ParsingExpression

variable {name : Type}

def optional (body : ParsingExpression name) : ParsingExpression name :=
  .choice body .empty

def oneOrMore (body : ParsingExpression name) : ParsingExpression name :=
  .sequence body (.many body)

def word : List Char → ParsingExpression name
  | [] => .empty
  | c :: text => .sequence (.character (· == c)) (word text)

def any : ParsingExpression name :=
  .character fun _ => true

def row (item separator : ParsingExpression name) : ParsingExpression name :=
  .sequence item (.many (.sequence separator item))

end ParsingExpression

/-- From the cursor an expression reads parts up to another one, or fails. -/
inductive Derives (rules : name → ParsingExpression name) :
    ParsingExpression name → Cursor →
      Option (List (ParseTree name) × Cursor) → Prop where
  | empty (cursor : Cursor) : Derives rules .empty cursor (some ([], cursor))
  | character {allowed : Char → Bool} {c : Char} (h : allowed c = true)
      (position : Nat) (rest : List Char) :
      Derives rules (.character allowed) ⟨position, c :: rest⟩
        (some ([.leaf c ⟨position, position + c.utf8Size⟩],
          ⟨position + c.utf8Size, rest⟩))
  | character_none {allowed : Char → Bool} {cursor : Cursor}
      (h : ∀ c ∈ cursor.rest.head?, allowed c = false) :
      Derives rules (.character allowed) cursor none
  | sequence {first second : ParsingExpression name}
      {cursor middle stop : Cursor} {left right : List (ParseTree name)}
      (hfirst : Derives rules first cursor (some (left, middle)))
      (hsecond : Derives rules second middle (some (right, stop))) :
      Derives rules (.sequence first second) cursor (some (left ++ right, stop))
  | sequence_none_left {first second : ParsingExpression name} {cursor : Cursor}
      (hfirst : Derives rules first cursor none) :
      Derives rules (.sequence first second) cursor none
  | sequence_none_right {first second : ParsingExpression name}
      {cursor middle : Cursor} {left : List (ParseTree name)}
      (hfirst : Derives rules first cursor (some (left, middle)))
      (hsecond : Derives rules second middle none) :
      Derives rules (.sequence first second) cursor none
  | choice_left {first second : ParsingExpression name} {cursor stop : Cursor}
      {parts : List (ParseTree name)}
      (hfirst : Derives rules first cursor (some (parts, stop))) :
      Derives rules (.choice first second) cursor (some (parts, stop))
  | choice_right {first second : ParsingExpression name} {cursor : Cursor}
      {result : Option (List (ParseTree name) × Cursor)}
      (hfirst : Derives rules first cursor none)
      (hsecond : Derives rules second cursor result) :
      Derives rules (.choice first second) cursor result
  | many_done {body : ParsingExpression name} {cursor : Cursor}
      (hbody : Derives rules body cursor none) :
      Derives rules (.many body) cursor (some ([], cursor))
  | many_more {body : ParsingExpression name} {cursor middle stop : Cursor}
      {parts more : List (ParseTree name)}
      (hbody : Derives rules body cursor (some (parts, middle)))
      (hmore : Derives rules (.many body) middle (some (more, stop))) :
      Derives rules (.many body) cursor (some (parts ++ more, stop))
  | absent {body : ParsingExpression name} {cursor : Cursor}
      (hbody : Derives rules body cursor none) :
      Derives rules (.absent body) cursor (some ([], cursor))
  | absent_none {body : ParsingExpression name} {cursor stop : Cursor}
      {parts : List (ParseTree name)}
      (hbody : Derives rules body cursor (some (parts, stop))) :
      Derives rules (.absent body) cursor none
  | rule {called : name} {cursor stop : Cursor} {parts : List (ParseTree name)}
      (hbody : Derives rules (rules called) cursor (some (parts, stop))) :
      Derives rules (.rule called) cursor
        (some ([.node called ⟨cursor.position, stop.position⟩ parts], stop))
  | rule_none {called : name} {cursor : Cursor}
      (hbody : Derives rules (rules called) cursor none) :
      Derives rules (.rule called) cursor none

namespace Derives

variable {rules : name → ParsingExpression name}

theorem unique {body : ParsingExpression name} {cursor : Cursor}
    {result other : Option (List (ParseTree name) × Cursor)}
    (h : Derives rules body cursor result)
    (hother : Derives rules body cursor other) : result = other := by
  induction h generalizing other with
  | empty => cases hother; rfl
  | character h position rest =>
      cases hother with
      | character => rfl
      | character_none hnone => simp_all
  | character_none hnone =>
      cases hother with
      | character h => simp_all
      | character_none => rfl
  | sequence _ _ ihfirst ihsecond =>
      cases hother with
      | sequence hfirst hsecond =>
          cases ihfirst hfirst
          cases ihsecond hsecond
          rfl
      | sequence_none_left hfirst => cases ihfirst hfirst
      | sequence_none_right hfirst hsecond =>
          cases ihfirst hfirst
          cases ihsecond hsecond
  | sequence_none_left _ ihfirst =>
      cases hother with
      | sequence hfirst => cases ihfirst hfirst
      | sequence_none_left => rfl
      | sequence_none_right => rfl
  | sequence_none_right _ _ ihfirst ihsecond =>
      cases hother with
      | sequence hfirst hsecond =>
          cases ihfirst hfirst
          cases ihsecond hsecond
      | sequence_none_left => rfl
      | sequence_none_right => rfl
  | choice_left _ ihfirst =>
      cases hother with
      | choice_left hfirst =>
          cases ihfirst hfirst
          rfl
      | choice_right hfirst => cases ihfirst hfirst
  | choice_right _ _ ihfirst ihsecond =>
      cases hother with
      | choice_left hfirst => cases ihfirst hfirst
      | choice_right _ hsecond => exact ihsecond hsecond
  | many_done _ ihbody =>
      cases hother with
      | many_done => rfl
      | many_more hbody => cases ihbody hbody
  | many_more _ _ ihbody ihmore =>
      cases hother with
      | many_done hbody => cases ihbody hbody
      | many_more hbody hmore =>
          cases ihbody hbody
          cases ihmore hmore
          rfl
  | absent _ ihbody =>
      cases hother with
      | absent => rfl
      | absent_none hbody => cases ihbody hbody
  | absent_none _ ihbody =>
      cases hother with
      | absent hbody => cases ihbody hbody
      | absent_none => rfl
  | rule _ ihbody =>
      cases hother with
      | rule hbody =>
          cases ihbody hbody
          rfl
      | rule_none hbody => cases ihbody hbody
  | rule_none _ ihbody =>
      cases hother with
      | rule hbody => cases ihbody hbody
      | rule_none => rfl

/-! What the derived expressions read. -/

theorem optional_some {body : ParsingExpression name} {cursor stop : Cursor}
    {parts : List (ParseTree name)}
    (h : Derives rules body cursor (some (parts, stop))) :
    Derives rules (.optional body) cursor (some (parts, stop)) :=
  .choice_left h

theorem optional_none {body : ParsingExpression name} {cursor : Cursor}
    (h : Derives rules body cursor none) :
    Derives rules (.optional body) cursor (some ([], cursor)) :=
  .choice_right h (.empty cursor)

theorem exactly (c : Char) (position : Nat) (rest : List Char) :
    Derives rules (.character (· == c)) ⟨position, c :: rest⟩
      (some ([.leaf c ⟨position, position + c.utf8Size⟩],
        ⟨position + c.utf8Size, rest⟩)) :=
  .character (by simp) position rest

theorem word {text : List Char} {cursor stop : Cursor}
    (h : cursor.Reads text stop) :
    Derives rules (.word text) cursor
      (some (ParseTree.leaves cursor.position text, stop)) := by
  induction text generalizing cursor with
  | nil =>
      have hstop : cursor = stop :=
        congr (congrArg Cursor.mk (by simp [h.position])) h.rest
      rw [← hstop]
      exact .empty cursor
  | cons c text ih =>
      obtain ⟨position, rest⟩ := cursor
      obtain ⟨hrest, hposition⟩ := h
      simp only [List.cons_append] at hrest
      subst hrest
      have hmore : (Cursor.mk (position + c.utf8Size) (text ++ stop.rest)).Reads
          text stop :=
        ⟨rfl, by rw [hposition, byteSize_cons, Nat.add_assoc]⟩
      exact .sequence (exactly c position _) (ih hmore)

theorem word_none {text : List Char} {cursor : Cursor}
    (h : ¬ text <+: cursor.rest) : Derives rules (.word text) cursor none := by
  induction text generalizing cursor with
  | nil => exact absurd List.nil_prefix h
  | cons c text ih =>
      obtain ⟨position, rest⟩ := cursor
      cases rest with
      | nil => exact .sequence_none_left (.character_none (by simp))
      | cons first rest =>
          by_cases hfirst : first = c
          · subst hfirst
            have hrest : ¬ text <+: rest :=
              fun hword => h (by simpa using hword)
            exact .sequence_none_right (exactly first position rest) (ih hrest)
          · exact .sequence_none_left (.character_none (by simp [hfirst]))

theorem many_character (allowed : Char → Bool) (cursor : Cursor) :
    Derives rules (.many (.character allowed)) cursor
      (some (ParseTree.leaves cursor.position (cursor.run allowed),
        cursor.afterRun allowed)) := by
  obtain ⟨position, rest⟩ := cursor
  induction rest generalizing position with
  | nil => exact .many_done (.character_none (by simp))
  | cons c rest ih =>
      by_cases hc : allowed c = true
      · have hmore := Derives.many_more (.character hc position rest)
          (ih (position + c.utf8Size))
        simpa [Cursor.run, Cursor.afterRun, hc, ParseTree.leaves, Nat.add_assoc]
          using hmore
      · have hnone :
            Derives rules (.character allowed) ⟨position, c :: rest⟩ none :=
          .character_none (by simpa using hc)
        simpa [Cursor.run, Cursor.afterRun, hc, ParseTree.leaves]
          using Derives.many_done hnone

theorem oneOrMore_character {allowed : Char → Bool} {cursor : Cursor}
    (h : cursor.run allowed ≠ []) :
    Derives rules (.oneOrMore (.character allowed)) cursor
      (some (ParseTree.leaves cursor.position (cursor.run allowed),
        cursor.afterRun allowed)) := by
  have hmany : Derives rules (.many (.character allowed)) cursor _ :=
    many_character allowed cursor
  generalize hreading : some (_, _) = reading at hmany
  cases hmany with
  | many_done =>
      simp only [Option.some.injEq, Prod.mk.injEq] at hreading
      cases hrun : cursor.run allowed with
      | nil => exact absurd hrun h
      | cons c text => simp [hrun, ParseTree.leaves] at hreading
  | many_more hbody hmore =>
      exact .sequence hbody hmore

theorem oneOrMore_character_none {allowed : Char → Bool} {cursor : Cursor}
    (h : cursor.run allowed = []) :
    Derives rules (.oneOrMore (.character allowed)) cursor none := by
  refine .sequence_none_left (.character_none ?_)
  obtain ⟨position, rest⟩ := cursor
  cases rest with
  | nil => simp
  | cons c rest =>
      intro other hother
      cases hother
      cases hc : allowed c with
      | false => rfl
      | true => simp [Cursor.run, hc] at h

end Derives

end TermSearch
