import Mathlib.Tactic.ByContra
import ProviderMigration.Hcl.Template.Enclosure

/-!
# Enclosures character by character

What `closing?` does at a character, and how it finds the end of an enclosure:

* `Move`, `closing?_induction` — the moves by which it goes on, and the induction along them;
* `Advances` — it ends, or it goes on behind one, two or three characters;
* `closing?_append`, `closing?_replace` — alike whatever text comes after it;
* `closing?_within` — alike whatever enclosures are around it.
-/

namespace ProviderMigration
namespace Hcl
namespace Template

variable {inner : Enclosure} {outer : List Enclosure} {c : Char} {cs : List Char}

/-- Between quotes, any character that neither ends the text nor begins an escape or a sequence. -/
theorem closing?_quotes_plain (hescape : ∀ d ds, c = '\\' → cs = d :: ds → False)
    (hdollars : ∀ ds, c = '$' → cs = '$' :: '\x7b' :: ds → False)
    (hpercents : ∀ ds, c = '%' → cs = '%' :: '\x7b' :: ds → False)
    (hdollar : ∀ ds, c = '$' → cs = '\x7b' :: ds → False)
    (hpercent : ∀ ds, c = '%' → cs = '\x7b' :: ds → False) (hquote : ¬ (c == '"') = true)
    (hline : ¬ (c == '\n') = true) :
    closing? .quotes outer (c :: cs) = prepend [c] (closing? .quotes outer cs) := by
  cases outer with
  | nil =>
      rw [closing?.eq_7 c cs hescape hdollars hpercents hdollar hpercent, if_neg hquote,
        if_neg hline]
  | cons around outer =>
      rw [closing?.eq_13 c cs _ _ hescape hdollars hpercents hdollar hpercent, if_neg hquote,
        if_neg hline]

/-- The escapes and sequences that do not begin, for any of their signs. -/
theorem closing?_quotes_other (hquote : c ≠ '"') (hline : c ≠ '\n')
    (hbackslash : ¬ (c = '\\' ∧ ∃ d ds, cs = d :: ds))
    (hdoubled : ¬ ((c = '$' ∨ c = '%') ∧ ∃ ds, cs = c :: '\x7b' :: ds))
    (hsequence : ¬ ((c = '$' ∨ c = '%') ∧ ∃ ds, cs = '\x7b' :: ds)) :
    closing? .quotes outer (c :: cs) = prepend [c] (closing? .quotes outer cs) :=
  closing?_quotes_plain (fun d ds hc hcs => hbackslash ⟨hc, d, ds, hcs⟩)
    (fun ds hc hcs => hdoubled ⟨.inl hc, ds, by rw [hcs, hc]⟩)
    (fun ds hc hcs => hdoubled ⟨.inr hc, ds, by rw [hcs, hc]⟩)
    (fun ds hc hcs => hsequence ⟨.inl hc, ds, hcs⟩)
    (fun ds hc hcs => hsequence ⟨.inr hc, ds, hcs⟩) (by simpa using hquote) (by simpa using hline)

theorem closing?_braces_cons : closing? .braces outer (c :: cs) =
    if c == '\x7d' then
      match outer with
      | [] => some ([], cs)
      | around :: rest => prepend [c] (closing? around rest cs)
    else if c == '\x7b' then prepend [c] (closing? .braces (.braces :: outer) cs)
    else if c == '"' then prepend [c] (closing? .quotes (.braces :: outer) cs)
    else prepend [c] (closing? .braces outer cs) := by
  cases outer <;> rfl

/-- A backslash hides the character after it. -/
theorem closing?_hidden {d : Char} : closing? .quotes outer ('\\' :: d :: cs) =
    prepend ['\\', d] (closing? .quotes outer cs) := by
  cases outer <;> rfl

theorem closing?_doubled (hc : c = '$' ∨ c = '%') :
    closing? .quotes outer (c :: c :: '\x7b' :: cs) =
      prepend [c, c, '\x7b'] (closing? .quotes outer cs) := by
  rcases hc with rfl | rfl <;> cases outer <;> rfl

theorem closing?_sequence (hc : c = '$' ∨ c = '%') :
    closing? .quotes outer (c :: '\x7b' :: cs) =
      prepend [c, '\x7b'] (closing? .braces (.quotes :: outer) cs) := by
  rcases hc with rfl | rfl <;> cases outer <;> rfl

/-- No enclosure ends at the end of a text or, between quotes, at the end of a line. -/
theorem closing?_eq_none (h : cs = [] ∨ inner = .quotes ∧ cs.head? = some '\n') :
    closing? inner outer cs = none := by
  rcases h with rfl | ⟨rfl, hline⟩
  · rw [closing?]
  · obtain ⟨rest, rfl⟩ := List.head?_eq_some_iff.1 hline
    cases outer <;> rfl

theorem closing?_closer : closing? inner [] (inner.closer :: cs) = some ([], cs) := by
  cases inner <;> rfl

/-! ## Moves -/

/-- Neither an escape nor a sequence begins with the character. -/
structure Plain (c : Char) (cs : List Char) : Prop where
  backslash : ¬ (c = '\\' ∧ ∃ d ds, cs = d :: ds)
  doubled : ¬ ((c = '$' ∨ c = '%') ∧ ∃ ds, cs = c :: '\x7b' :: ds)
  sequence : ¬ ((c = '$' ∨ c = '%') ∧ ∃ ds, cs = '\x7b' :: ds)

/-- One move of the search: the characters that it passes, the text behind them, and the enclosures
that are open there. -/
inductive Move : Enclosure → List Enclosure → List Char → List Char → Enclosure →
    List Enclosure → Prop
  | closes {inner around : Enclosure} {outer : List Enclosure} {rest : List Char} :
      Move inner (around :: outer) [inner.closer] rest around outer
  | hidden {outer : List Enclosure} {d : Char} {rest : List Char} :
      Move .quotes outer ['\\', d] rest .quotes outer
  | doubled {outer : List Enclosure} {c : Char} {rest : List Char} (hc : c = '$' ∨ c = '%') :
      Move .quotes outer [c, c, '\x7b'] rest .quotes outer
  | sequence {outer : List Enclosure} {c : Char} {rest : List Char} (hc : c = '$' ∨ c = '%') :
      Move .quotes outer [c, '\x7b'] rest .braces (.quotes :: outer)
  | plain {outer : List Enclosure} {c : Char} {rest : List Char} (hquote : c ≠ '"')
      (hline : c ≠ '\n') (hplain : Plain c rest) : Move .quotes outer [c] rest .quotes outer
  | brace {outer : List Enclosure} {rest : List Char} :
      Move .braces outer ['\x7b'] rest .braces (.braces :: outer)
  | quote {outer : List Enclosure} {rest : List Char} :
      Move .braces outer ['"'] rest .quotes (.braces :: outer)
  | other {outer : List Enclosure} {c : Char} {rest : List Char} (hclose : c ≠ '\x7d')
      (hopen : c ≠ '\x7b') (hquote : c ≠ '"') : Move .braces outer [c] rest .braces outer

/-- The search fails, ends, or makes a move and goes on behind it. -/
@[elab_as_elim]
theorem closing?_induction {motive : Enclosure → List Enclosure → List Char → Prop}
    (fails : ∀ inner outer cs, cs = [] ∨ inner = .quotes ∧ cs.head? = some '\n' →
      motive inner outer cs)
    (ends : ∀ (inner : Enclosure) after, motive inner [] (inner.closer :: after))
    (moves : ∀ inner outer front rest next stack, Move inner outer front rest next stack →
      motive next stack rest → motive inner outer (front ++ rest))
    (inner : Enclosure) (outer : List Enclosure) (cs : List Char) : motive inner outer cs := by
  fun_induction closing? inner outer cs with
  | case1 => exact fails _ _ _ (.inl rfl)
  -- Between quotes.
  | case2 c cs hquote =>
      obtain rfl := eq_of_beq hquote
      exact ends .quotes cs
  | case3 c cs hquote around rest ih =>
      obtain rfl := eq_of_beq hquote
      exact moves _ _ _ _ _ _ .closes ih
  | case4 outer c cs hquote hline =>
      obtain rfl := eq_of_beq hline
      exact fails _ _ _ (.inr ⟨rfl, rfl⟩)
  | case5 outer d cs _ _ ih => exact moves _ _ _ _ _ _ .hidden ih
  | case6 outer cs _ _ ih => exact moves _ _ _ _ _ _ (.doubled (.inl rfl)) ih
  | case7 outer cs _ _ ih => exact moves _ _ _ _ _ _ (.doubled (.inr rfl)) ih
  | case8 outer cs _ _ ih => exact moves _ _ _ _ _ _ (.sequence (.inl rfl)) ih
  | case9 outer cs _ _ ih => exact moves _ _ _ _ _ _ (.sequence (.inr rfl)) ih
  | case10 outer c cs hescape hdollars hpercents hdollar hpercent hquote hline ih =>
      refine moves _ _ [c] cs _ _ (.plain (by simpa using hquote) (by simpa using hline) ?_) ih
      refine ⟨?_, ?_, ?_⟩
      · rintro ⟨hc, d, ds, hcs⟩
        exact hescape d ds hc hcs
      · rintro ⟨rfl | rfl, ds, hcs⟩
        · exact hdollars ds rfl hcs
        · exact hpercents ds rfl hcs
      · rintro ⟨rfl | rfl, ds, hcs⟩
        · exact hdollar ds rfl hcs
        · exact hpercent ds rfl hcs
  -- Between braces.
  | case11 c cs hclose =>
      obtain rfl := eq_of_beq hclose
      exact ends .braces cs
  | case12 c cs hclose around rest ih =>
      obtain rfl := eq_of_beq hclose
      exact moves _ _ _ _ _ _ .closes ih
  | case13 outer c cs hclose hopen ih =>
      obtain rfl := eq_of_beq hopen
      exact moves _ _ _ _ _ _ .brace ih
  | case14 outer c cs hclose hopen hquote ih =>
      obtain rfl := eq_of_beq hquote
      exact moves _ _ _ _ _ _ .quote ih
  | case15 outer c cs hclose hopen hquote ih =>
      exact moves _ _ [c] cs _ _
        (.other (by simpa using hclose) (by simpa using hopen) (by simpa using hquote)) ih

section
variable {front rest : List Char} {next : Enclosure} {stack : List Enclosure}

theorem Move.closing?_eq (h : Move inner outer front rest next stack) :
    closing? inner outer (front ++ rest) = prepend front (closing? next stack rest) := by
  cases h with
  | closes => cases inner <;> rfl
  | hidden => exact closing?_hidden
  | doubled hc => exact closing?_doubled hc
  | sequence hc => exact closing?_sequence hc
  | plain hquote hline hplain =>
      exact closing?_quotes_other hquote hline hplain.backslash hplain.doubled hplain.sequence
  | brace => exact closing?_braces_cons
  | quote => exact closing?_braces_cons
  | other hclose hopen hquote =>
      rw [List.singleton_append, closing?_braces_cons, if_neg (by simpa using hclose),
        if_neg (by simpa using hopen), if_neg (by simpa using hquote)]

/-- Enclosures that are around all the others make no difference. -/
theorem Move.within (h : Move inner outer front rest next stack) (more : List Enclosure) :
    Move inner (outer ++ more) front rest next (stack ++ more) := by
  cases h with
  | closes => exact .closes
  | hidden => exact .hidden
  | doubled hc => exact .doubled hc
  | sequence hc => exact .sequence hc
  | plain hquote hline hplain => exact .plain hquote hline hplain
  | brace => exact .brace
  | quote => exact .quote
  | other hclose hopen hquote => exact .other hclose hopen hquote

theorem Move.outermost_eq (h : Move inner outer front rest next stack) :
    outermost next stack = outermost inner outer := by
  cases h <;> rfl

end

/-! ## Progress -/

/-- What the search for the end of an enclosure does at the start of a text. -/
inductive Advances (inner : Enclosure) (outer : List Enclosure) (cs : List Char) : Prop where
  /-- The text or the line is over. -/
  | fails (hcs : cs = [] ∨ inner = .quotes ∧ cs.head? = some '\n')
      (hnone : closing? inner outer cs = none)
  /-- The enclosure whose end is sought ends here. -/
  | ends {after : List Char} (houter : outer = []) (hcs : cs = inner.closer :: after)
      (hfound : closing? inner outer cs = some ([], after))
  /-- The search goes on behind some characters, in the same enclosure, in one that they open or in
  the one around. -/
  | passes (front : List Char) (next : Enclosure) {rest : List Char} {stack : List Enclosure}
      (hcs : cs = front ++ rest) (hsome : front ≠ []) (hthree : front.length ≤ 3)
      (hstack : next :: stack = inner :: outer ∨
        (∃ opened, next :: stack = opened :: inner :: outer) ∨ next :: stack = outer)
      (hsearch : closing? inner outer cs = prepend front (closing? next stack rest))

theorem advances (inner : Enclosure) (outer : List Enclosure) (cs : List Char) :
    Advances inner outer cs := by
  induction inner, outer, cs using closing?_induction with
  | fails inner outer cs h => exact .fails h (closing?_eq_none h)
  | ends inner after => exact .ends rfl rfl closing?_closer
  | moves inner outer front rest next stack hmove =>
      refine .passes front next rfl ?_ ?_ ?_ hmove.closing?_eq
      · cases hmove <;> exact List.cons_ne_nil _ _
      · cases hmove <;> simp
      · cases hmove with
        | closes => exact .inr (.inr rfl)
        | sequence | brace | quote => exact .inr (.inl ⟨_, rfl⟩)
        | hidden | doubled | plain | other => exact .inl rfl

/-! ## More text -/

/-- The closing character begins neither an escape nor a sequence, so what comes behind it makes no
difference. -/
theorem Plain.replace {inside after : List Char} {e : Enclosure}
    (h : Plain c (inside ++ e.closer :: after)) (after' : List Char) :
    Plain c (inside ++ e.closer :: after') := by
  have hcloser : e.closer ≠ '$' ∧ e.closer ≠ '%' ∧ e.closer ≠ '\x7b' := by
    cases e <;> decide
  generalize e.closer = closer at h hcloser ⊢
  obtain ⟨hnotDollar, hnotPercent, hnotBrace⟩ := hcloser
  refine ⟨?_, ?_, ?_⟩
  · rintro ⟨hc, -⟩
    cases inside with
    | nil => exact h.backslash ⟨hc, _, _, rfl⟩
    | cons d inside => exact h.backslash ⟨hc, _, _, rfl⟩
  · rintro ⟨hc, ds, heq⟩
    rcases inside with _ | ⟨d, _ | ⟨d', inside⟩⟩
    · rcases hc with rfl | rfl
      · exact hnotDollar (List.cons.inj heq).1
      · exact hnotPercent (List.cons.inj heq).1
    · exact hnotBrace (List.cons.inj (List.cons.inj heq).2).1
    · obtain ⟨rfl, htail⟩ := List.cons.inj heq
      obtain rfl := (List.cons.inj htail).1
      exact h.doubled ⟨hc, _, rfl⟩
  · rintro ⟨hc, ds, heq⟩
    cases inside with
    | nil => exact hnotBrace (List.cons.inj heq).1
    | cons d inside =>
        obtain rfl := (List.cons.inj heq).1
        exact h.sequence ⟨hc, _, rfl⟩

/-- The end of an enclosure is found alike before any other text. -/
theorem closing?_replace {inside after : List Char}
    (h : closing? inner outer cs = some (inside, after)) (after' : List Char) :
    closing? inner outer (inside ++ (outermost inner outer).closer :: after') =
      some (inside, after') := by
  induction inner, outer, cs using closing?_induction generalizing inside with
  | fails inner outer cs hcs =>
      rw [closing?_eq_none hcs] at h
      cases h
  | ends inner rest =>
      rw [closing?_closer] at h
      obtain ⟨rfl, rfl⟩ := Prod.mk.inj (Option.some.inj h)
      exact closing?_closer
  | moves inner outer front rest next stack hmove ih =>
      rw [hmove.closing?_eq] at h
      obtain ⟨tail, hfound, rfl⟩ := prepend_eq_some.1 h
      have hrest := closing?_eq_append hfound
      have hmove' : Move inner outer front (tail ++ (outermost next stack).closer :: after') next
          stack := by
        subst hrest
        cases hmove with
        | closes => exact .closes
        | hidden => exact .hidden
        | doubled hc => exact .doubled hc
        | sequence hc => exact .sequence hc
        | plain hquote hline hplain => exact .plain hquote hline (hplain.replace after')
        | brace => exact .brace
        | quote => exact .quote
        | other hclose hopen hquote => exact .other hclose hopen hquote
      rw [List.append_assoc, ← hmove.outermost_eq, hmove'.closing?_eq, ih hfound]
      rfl

/-- The end of an enclosure is found before more text. -/
theorem closing?_append {inside after : List Char}
    (h : closing? inner outer cs = some (inside, after)) (more : List Char) :
    closing? inner outer (cs ++ more) = some (inside, after ++ more) := by
  rw [closing?_eq_append h, List.append_assoc, List.cons_append]
  exact closing?_replace h (after ++ more)

/-! ## Enclosures around -/

/-- Goes on behind an enclosure, in the one around it. -/
def andThen (found : Option (List Char × List Char)) (closer : Char)
    (next : List Char → Option (List Char × List Char)) : Option (List Char × List Char) :=
  found.bind fun (inside, after) => prepend (inside ++ [closer]) (next after)

theorem andThen_prepend (front : List Char) (found : Option (List Char × List Char)) (closer : Char)
    (next : List Char → Option (List Char × List Char)) :
    andThen (prepend front found) closer next = prepend front (andThen found closer next) := by
  cases found with
  | none => rfl
  | some parts =>
      simp only [andThen, prepend, Option.bind_some]
      cases next parts.2 with
      | none => rfl
      | some rest => simp only [List.append_assoc]

/-- An enclosure within others ends where it would end alone, and the search goes on behind it. -/
theorem closing?_within (around : Enclosure) (rest : List Enclosure) :
    closing? inner (outer ++ around :: rest) cs =
      andThen (closing? inner outer cs) (outermost inner outer).closer (closing? around rest) := by
  induction inner, outer, cs using closing?_induction with
  | fails inner outer cs h =>
      rw [closing?_eq_none h, closing?_eq_none h]
      rfl
  | ends inner after =>
      have hmove : Move inner (around :: rest) [inner.closer] after around rest := .closes
      rw [closing?_closer]
      exact hmove.closing?_eq
  | moves inner outer front tail next stack hmove ih =>
      rw [(hmove.within _).closing?_eq, hmove.closing?_eq, andThen_prepend, ih, hmove.outermost_eq]

/-- A search in an enclosure within another is a search of its own, and the outer one goes on
behind it. -/
theorem closing?_around (inner around : Enclosure) (rest : List Enclosure) (cs : List Char) :
    closing? inner (around :: rest) cs =
      andThen (closing? inner [] cs) inner.closer (closing? around rest) := by
  have hwithin : closing? inner ([] ++ around :: rest) cs = _ := closing?_within around rest
  exact hwithin

/-- A sequence in quoted text ends where its brace is closed, and the text goes on behind it. -/
theorem closing?_braces_within (cs : List Char) : closing? .braces [.quotes] cs =
    andThen (bracedText? cs) '\x7d' (closing? .quotes []) :=
  closing?_around .braces .quotes [] cs

end Template
end Hcl
end ProviderMigration
