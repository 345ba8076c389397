/-!
# Where a template text ends

Quoted text may hold interpolations, whose expressions may hold quoted text again.
`closing?` finds the end of an enclosure that is already open, with a stack of the enclosures
around the current character:

* in quoted text a backslash hides the next character, a doubled `$` or `%` before a brace hides
  the brace, and a single one opens a braced sequence; a line feed is not allowed;
* in a braced sequence braces nest and a quote opens quoted text.

Main statement: the text inside, the closing character and the text after make up the input
(`closing?_eq_append`).
-/

namespace ProviderMigration
namespace Hcl
namespace Template

inductive Enclosure where
  /-- Between two quotes. -/
  | quotes
  /-- Between two braces. -/
  | braces
deriving Repr, DecidableEq, Inhabited

/-- The character that closes an enclosure. -/
def Enclosure.closer : Enclosure → Char
  | .quotes => '"'
  | .braces => '}'

/-- Puts characters in front of the inside of an enclosure. -/
def prepend (front : List Char) : Option (List Char × List Char) → Option (List Char × List Char)
  | some (inside, after) => some (front ++ inside, after)
  | none => none

/-- Closes the innermost enclosure at character `c`: either the search is over, or it goes on in
the enclosure around. -/
def closing? (inner : Enclosure) (outer : List Enclosure) : List Char → Option (List Char × List Char)
  | [] => none
  | c :: cs =>
    match inner with
    | .quotes =>
      if c == '"' then
        match outer with
        | [] => some ([], cs)
        | around :: rest => prepend [c] (closing? around rest cs)
      else if c == '\n' then
        none
      else
        match c, cs with
        | '\\', d :: cs => prepend ['\\', d] (closing? .quotes outer cs)
        | '$', '$' :: '{' :: cs => prepend ['$', '$', '{'] (closing? .quotes outer cs)
        | '%', '%' :: '{' :: cs => prepend ['%', '%', '{'] (closing? .quotes outer cs)
        | '$', '{' :: cs => prepend ['$', '{'] (closing? .braces (.quotes :: outer) cs)
        | '%', '{' :: cs => prepend ['%', '{'] (closing? .braces (.quotes :: outer) cs)
        | c, cs => prepend [c] (closing? .quotes outer cs)
    | .braces =>
      if c == '}' then
        match outer with
        | [] => some ([], cs)
        | around :: rest => prepend [c] (closing? around rest cs)
      else if c == '{' then
        prepend [c] (closing? .braces (.braces :: outer) cs)
      else if c == '"' then
        prepend [c] (closing? .quotes (.braces :: outer) cs)
      else
        prepend [c] (closing? .braces outer cs)

/-- The inside of quoted text that is already open, and the text after the closing quote. -/
def quotedText? (cs : List Char) : Option (List Char × List Char) :=
  closing? .quotes [] cs

/-- The inside of a braced sequence that is already open, and the text after the closing brace. -/
def bracedText? (cs : List Char) : Option (List Char × List Char) :=
  closing? .braces [] cs

/-! ## Nothing is lost -/

/-- The outermost enclosure of a stack, which is the one whose end is sought. -/
def outermost (inner : Enclosure) : List Enclosure → Enclosure
  | [] => inner
  | around :: outer => outermost around outer

theorem prepend_eq_some {front inside after : List Char} {found : Option (List Char × List Char)} :
    prepend front found = some (inside, after) ↔
      ∃ tail, found = some (tail, after) ∧ inside = front ++ tail := by
  cases found with
  | none => simp [prepend]
  | some p =>
    obtain ⟨tail, rest⟩ := p
    simp only [prepend, Option.some.injEq, Prod.mk.injEq]
    constructor
    · rintro ⟨rfl, rfl⟩
      exact ⟨tail, ⟨rfl, rfl⟩, rfl⟩
    · rintro ⟨_, ⟨rfl, rfl⟩, rfl⟩
      exact ⟨rfl, rfl⟩

/-- The inside, the closing character and the text after it make up the input. -/
theorem closing?_eq_append {inner : Enclosure} {outer : List Enclosure} {cs inside after : List Char}
    (h : closing? inner outer cs = some (inside, after)) :
    cs = inside ++ (outermost inner outer).closer :: after := by
  fun_induction closing? inner outer cs generalizing inside
  all_goals first
    | (obtain ⟨tail, found, rfl⟩ := prepend_eq_some.1 h
       rename_i ih
       simp_all [outermost])
    | simp_all [outermost, Enclosure.closer]

theorem length_lt_of_bracedText? {cs inside after : List Char}
    (h : bracedText? cs = some (inside, after)) : inside.length + after.length < cs.length := by
  have split := congrArg List.length (closing?_eq_append h)
  simp only [List.length_append, List.length_cons] at split
  omega

end Template
end Hcl
end ProviderMigration
