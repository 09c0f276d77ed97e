import TermSearch.Grammar.Attempt
import TermSearch.Grammar.Cursor
import TermSearch.Grammar.Tree

namespace TermSearch

/-! Rules of a grammar, read from the left with ordered choice. A rule is a
function of the place where it starts, so a rule that fails has moved nothing
and the next alternative starts at the same place. Besides its result a rule
gives every attempt that failed on the way, in order; the attempts never
influence the result. -/

structure Outcome (α : Type) where
  /-- What was read and where reading stopped, unless the rule fails. -/
  result : Option (α × Cursor)
  attempts : List Attempt

def Rule (α : Type) : Type := Cursor → Outcome α

namespace Rule

def succeed (value : α) : Rule α := fun cursor => ⟨some (value, cursor), []⟩

def andThen (first : Rule α) (next : α → Rule β) : Rule β := fun cursor =>
  match first cursor with
  | ⟨none, attempts⟩ => ⟨none, attempts⟩
  | ⟨some (value, stop), attempts⟩ =>
      let later := next value stop
      ⟨later.result, attempts ++ later.attempts⟩

instance : Monad Rule where
  pure := succeed
  bind := andThen

/-- Reads with the second rule only where the first one fails. -/
def orElse (first : Rule α) (second : Unit → Rule α) : Rule α := fun cursor =>
  match first cursor with
  | ⟨some reading, attempts⟩ => ⟨some reading, attempts⟩
  | ⟨none, attempts⟩ =>
      let later := second () cursor
      ⟨later.result, attempts ++ later.attempts⟩

instance : OrElse (Rule α) where
  orElse := orElse

def missing (expected : String) : Rule α := fun cursor =>
  ⟨none, [⟨cursor.position, expected, []⟩]⟩

def named (name : String) (rule : Rule α) : Rule α := fun cursor =>
  let outcome := rule cursor
  ⟨outcome.result, outcome.attempts.map (·.within name)⟩

/-- What the rule reads, with the bytes that it covers. -/
def spanned (rule : Rule α) : Rule (α × Span) := fun cursor =>
  let outcome := rule cursor
  ⟨outcome.result.map fun reading =>
      ((reading.1, ⟨cursor.position, reading.2.position⟩), reading.2),
    outcome.attempts⟩

def upcoming : Rule (List Char) :=
  fun cursor => ⟨some (cursor.rest, cursor), []⟩

def run (allowed : Char → Bool) : Rule (List Char) := fun cursor =>
  ⟨some (cursor.run allowed, cursor.afterRun allowed), []⟩

def optional (rule : Rule α) : Rule (Option α) :=
  some <$> rule <|> succeed none

def literal (word : List Char) (expected : String) : Rule Unit := fun cursor =>
  match cursor.after? word with
  | some stop => ⟨some ((), stop), []⟩
  | none => missing expected cursor

/-- Further items, each after a separator. A separator without an item after it
is given back. -/
def furtherItems (item : Rule α) (separator : Rule Unit) (cursor : Cursor) :
    (List α × Cursor) × List Attempt :=
  match (separator.andThen fun _ => item) cursor with
  | ⟨none, attempts⟩ => (([], cursor), attempts)
  | ⟨some (value, stop), attempts⟩ =>
      if stop.rest.length < cursor.rest.length then
        let more := furtherItems item separator stop
        ((value :: more.1.1, more.1.2), attempts ++ more.2)
      else
        (([], cursor), attempts)
termination_by cursor.rest.length

def separated (item : Rule α) (separator : Rule Unit) : Rule (List α) :=
  item.andThen fun value cursor =>
    let more := furtherItems item separator cursor
    ⟨some (value :: more.1.1, more.1.2), more.2⟩

@[simp] theorem pure_apply (value : α) (cursor : Cursor) :
    (pure value : Rule α) cursor = ⟨some (value, cursor), []⟩ := rfl

@[simp] theorem succeed_apply (value : α) (cursor : Cursor) :
    succeed value cursor = ⟨some (value, cursor), []⟩ := rfl

@[simp] theorem bind_eq_andThen (first : Rule α) (next : α → Rule β) :
    first >>= next = first.andThen next := rfl

theorem result_andThen (first : Rule α) (next : α → Rule β) (cursor : Cursor) :
    (first.andThen next cursor).result =
      (first cursor).result.bind fun reading =>
        (next reading.1 reading.2).result := by
  unfold andThen
  split <;> simp [*]

theorem attempts_andThen (first : Rule α) (next : α → Rule β)
    (cursor : Cursor) :
    (first.andThen next cursor).attempts =
      (first cursor).attempts ++ (first cursor).result.elim [] fun reading =>
        (next reading.1 reading.2).attempts := by
  unfold andThen
  split <;> simp [*]

theorem result_orElse (first : Rule α) (second : Unit → Rule α)
    (cursor : Cursor) :
    (first.orElse second cursor).result =
      (first cursor).result.or (second () cursor).result := by
  unfold orElse
  split <;> simp [*]

@[simp] theorem result_named (name : String) (rule : Rule α) (cursor : Cursor) :
    (rule.named name cursor).result = (rule cursor).result := rfl

@[simp] theorem attempts_named (name : String) (rule : Rule α)
    (cursor : Cursor) :
    (rule.named name cursor).attempts =
      (rule cursor).attempts.map (·.within name) := rfl

@[simp] theorem result_spanned (rule : Rule α) (cursor : Cursor) :
    (rule.spanned cursor).result = (rule cursor).result.map fun reading =>
      ((reading.1, ⟨cursor.position, reading.2.position⟩), reading.2) := rfl

@[simp] theorem attempts_spanned (rule : Rule α) (cursor : Cursor) :
    (rule.spanned cursor).attempts = (rule cursor).attempts := rfl

@[simp] theorem result_missing (expected : String) (cursor : Cursor) :
    (missing expected cursor : Outcome α).result = none := rfl

@[simp] theorem attempts_missing (expected : String) (cursor : Cursor) :
    (missing expected cursor : Outcome α).attempts =
      [⟨cursor.position, expected, []⟩] := rfl

end Rule

end TermSearch
