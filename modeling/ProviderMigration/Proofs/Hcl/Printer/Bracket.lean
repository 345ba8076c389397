import ProviderMigration.Proofs.Hcl.Printer.Step

/-!
# Printed tuples, calls and objects

The layouts differ in blanks, line breaks and trailing commas only, which the grammar allows or
does not see.

* `lexes_joined`, `lexes_lines` — expressions on one line, and on a line each;
* `lexes_spread` — arguments on a line each, with dots after the last one.
-/

namespace ProviderMigration
namespace Hcl

open Lexeme (isSeparator)

/-! ## Lists on one line and on several -/

theorem lexes_newline : Lexes ['\n'] (Single .newline) Anything :=
  .token rfl fun _ _ => rfl

theorem all_isSeparator_times {s : String} (hs : s.toList.all isSeparator = true) (count : Nat) :
    (Text.times s count).toList.all isSeparator = true := by
  induction count with
  | zero => rfl
  | succ count ih =>
      rw [Text.times, String.toList_append, List.all_append, hs, ih]
      rfl

theorem lexes_indent (depth : Nat) : Lexes (Printer.indent depth).toList (· = []) Anything :=
  .blank (all_isSeparator_times (by decide) depth)

section
variable {P : List Expr → List Located → Prop} {Q : List Located → Prop} {close : List Char}
  {es : List Expr}

/-- Expressions between commas, and what closes the list. -/
theorem lexes_joined (hclose : Lexes close Q Anything) (hends : ∀ rest, NumberEnds (close ++ rest))
    (hlast : ∀ e ls ls', Spells (.whole e) ls → Q ls' → P [e] (ls ++ ls'))
    (hcons : ∀ e es comma ls ls', Spells (.whole e) ls → comma.token = .symbol .comma →
      P es ls' → P (e :: es) (ls ++ comma :: ls'))
    (hne : es ≠ []) (hes : ∀ e ∈ es, Prints e) (depth : Nat) :
    Lexes ((Text.joinWith ", " (renderAll depth es)).toList ++ close) (P es) Anything := by
  induction es with
  | nil => exact absurd rfl hne
  | cons e es ih =>
      have he := (hes e (by simp)).whole depth
      -- The last expression has the closing text after it, all others a comma.
      cases es with
      | nil =>
          refine (he.append hclose fun rest _ => hends rest).mono ?_
          rintro _ ⟨ls, ls', rfl, hls, hls'⟩
          exact hlast e ls ls' hls hls'
      | cons e' es =>
          have htext : (Text.joinWith ", " (renderAll depth (e :: e' :: es))).toList ++ close =
              (e.render depth).toList ++ ([',', ' '] ++
                ((Text.joinWith ", " (renderAll depth (e' :: es))).toList ++ close)) := by
            simp [Text.joinWith]
          have hrest := ih (List.cons_ne_nil _ _) fun d hd => hes d (by simp [hd])
          rw [htext]
          refine (he.append (lexes_comma.append hrest fun _ _ => trivial) ?_).mono ?_
          · exact fun _ _ => numberEnds_cons (by decide)
          · rintro _ ⟨ls, _, rfl, hls, _, ls', rfl, ⟨comma, rfl, hcomma⟩, hls'⟩
            exact hcons e _ comma ls ls' hls hcomma hls'

theorem listLines_cons {e : Expr} (he : e.isHeredoc = false) (depth : Nat) :
    (Printer.listLines depth (argumentLines (depth + 1) (e :: es))).toList =
      (Printer.indent (depth + 1)).toList ++ ((e.render (depth + 1)).toList ++
        (',' :: '\n' :: (Printer.listLines depth (argumentLines (depth + 1) es)).toList)) := by
  cases es with
  | nil => simp [argumentLines_cons, he, Printer.listLines, Printer.listItem,
      Printer.leadingDecor, Printer.trailingDecor, Text.concat]
  | cons e' es => simp [argumentLines_cons, he, Printer.listLines, Printer.listItem,
      Printer.leadingDecor, Printer.trailingDecor, Text.concat]

/-- Expressions on lines of their own, and what closes the list. -/
theorem lexes_lines (hclose : Lexes close Q Anything)
    (hnil : ∀ gap ls, IsGap gap → Q ls → P [] (gap ++ ls))
    (hcons : ∀ gap e es comma ls ls', IsGap gap → Spells (.whole e) ls →
      comma.token = .symbol .comma → P es ls' → P (e :: es) (gap ++ ls ++ comma :: ls'))
    (hes : ∀ e ∈ es, Prints e) (hheredoc : ∀ e ∈ es, e.isHeredoc = false) (depth : Nat) :
    Lexes ('\n' :: ((Printer.listLines depth (argumentLines (depth + 1) es)).toList ++
      ((Printer.indent depth).toList ++ close))) (P es) Anything := by
  induction es with
  | nil =>
      have hend := (lexes_indent depth).append hclose fun _ _ => trivial
      refine (lexes_newline.append hend fun _ _ => trivial).mono ?_
      rintro _ ⟨_, _, rfl, ⟨l, rfl, hl⟩, _, ls, rfl, rfl, hls⟩
      exact hnil [l] ls (.newline hl) hls
  | cons e es ih =>
      have he := (hes e (by simp)).whole (depth + 1)
      have hrest := ih (fun d hd => hes d (by simp [hd])) fun d hd => hheredoc d (by simp [hd])
      -- On lines of its own every expression has a comma, also the last one.
      have hcomma : Lexes [','] (Single (.symbol .comma)) Anything := .token rfl fun _ _ => rfl
      have hline := he.append (hcomma.append hrest fun _ _ => trivial)
        fun _ _ => numberEnds_cons (by decide)
      have hindent := (lexes_indent (depth + 1)).append hline fun _ _ => trivial
      have htext : '\n' ::
          ((Printer.listLines depth (argumentLines (depth + 1) (e :: es))).toList ++
          ((Printer.indent depth).toList ++ close)) =
          ['\n'] ++ ((Printer.indent (depth + 1)).toList ++ ((e.render (depth + 1)).toList ++
            ([','] ++ '\n' :: ((Printer.listLines depth (argumentLines (depth + 1) es)).toList ++
              ((Printer.indent depth).toList ++ close))))) := by
        simp [listLines_cons (hheredoc e (by simp))]
      rw [htext]
      refine (lexes_newline.append hindent fun _ _ => trivial).mono ?_
      rintro _ ⟨_, _, rfl, ⟨l, rfl, hl⟩, _, _, rfl, rfl, ls, _, rfl, hls, _, ls', rfl,
        ⟨comma, rfl, hcomma⟩, hls'⟩
      exact hcons [l] e es comma ls ls' (.newline hl) hls hcomma hls'

end

/-! ## Tuples -/

theorem renderTuple_plain (depth : Nat) (values : List Expr) :
    renderTuple depth (values.map TupleItem.plain) = renderAll depth values := by
  induction values with
  | nil => rfl
  | cons e values ih => simp [TupleItem.plain, ih]

theorem tupleLines_plain (depth : Nat) (values : List Expr) :
    tupleLines depth (values.map TupleItem.plain) = argumentLines depth values := by
  induction values with
  | nil => rfl
  | cons e values ih => simp [TupleItem.plain, argumentLines_cons, ih]

/-- A tuple with elements stands on one line or on several. -/
theorem render_tupleOf {values : List Expr} (hne : values ≠ []) (depth : Nat) :
    (Expr.tupleOf values).render depth =
        "[" ++ Text.joinWith ", " (renderAll depth values) ++ "]" ∨
      (Expr.tupleOf values).render depth =
        Printer.splitTuple (argumentLines (depth + 1) values) depth := by
  cases values with
  | nil => exact absurd rfl hne
  | cons e values =>
      rw [← tupleLines_plain, ← renderTuple_plain, Expr.tupleOf, List.map_cons,
        Expr.render_tuple_cons]
      -- With comments or heredocs in it a tuple is spread at once, else one line is tried first.
      split
      · exact .inr rfl
      · split
        · rename_i line hline
          rw [Printer.inlineTuple?] at hline
          split at hline
          · exact .inl (Option.some.inj hline).symm
          · simp at hline
        · exact .inr rfl

theorem prints_tuple {values : List Expr} (hvalues : ∀ e ∈ values, Prints e)
    (hheredoc : ∀ e ∈ values, e.isHeredoc = false) : Prints (Expr.tupleOf values) := by
  refine .of_closed fun depth => ?_
  -- The bracket and what comes after it, in any of the layouts.
  have hopen {text : List Char}
      (h : Lexes text (Spells (.elements (values.map TupleItem.plain))) Anything) :
      Lexes ('[' :: text) (Spells (.primary (Expr.tupleOf values))) Anything := by
    refine (lexes_leftBracket.append h fun _ _ => trivial).mono ?_
    rintro _ ⟨_, ls, rfl, ⟨o, rfl, ho⟩, hls⟩
    exact .tuple ho hls
  by_cases hne : values = []
  · subst hne
    have hempty : ((Expr.tupleOf []).render depth).toList = ['[', ']'] := by
      simp [Expr.tupleOf]
    rw [hempty]
    refine hopen (lexes_rightBracket.mono ?_)
    rintro _ ⟨c, rfl, hc⟩
    exact .elementsNil .none hc
  rcases render_tupleOf hne depth with htext | htext
  · have hline : ((Expr.tupleOf values).render depth).toList =
        '[' :: ((Text.joinWith ", " (renderAll depth values)).toList ++ [']']) := by
      simp [htext]
    rw [hline]
    refine hopen (lexes_joined (P := fun es => Spells (.elements (es.map TupleItem.plain)))
      lexes_rightBracket (fun _ => numberEnds_cons (by decide)) ?_ ?_ hne hvalues depth)
    · rintro e ls _ hls ⟨c, rfl, hc⟩
      exact .elementsLast .none hls hc
    · exact fun e es comma ls ls' hls hcomma hls' => .elementsCons .none hls hcomma hls'
  · have hlines : ((Expr.tupleOf values).render depth).toList =
        '[' :: '\n' :: ((Printer.listLines depth (argumentLines (depth + 1) values)).toList ++
          ((Printer.indent depth).toList ++ [']'])) := by
      simp [htext, Printer.splitTuple]
    rw [hlines]
    refine hopen (lexes_lines (P := fun es => Spells (.elements (es.map TupleItem.plain)))
      lexes_rightBracket ?_ ?_ hvalues hheredoc depth)
    · rintro gap _ hgap ⟨c, rfl, hc⟩
      exact .elementsNil hgap hc
    · exact fun gap e es comma ls ls' hgap hls hcomma hls' => .elementsCons hgap hls hcomma hls'

/-! ## Calls -/

/-- The characters that are taken off the end of the lines before the dots of a call. -/
def isLineEnd (c : Char) : Bool :=
  c == '\n' || c == ','

/-- The text does not end with the end of a line. -/
def EndsPlain (text : List Char) : Prop :=
  ∃ front c, text = front ++ [c] ∧ isLineEnd c = false

section
variable {p : Char → Bool} {front back : List Char}

theorem dropEndWhile_append_of_all (h : back.all p = true) :
    Text.dropEndWhile p (front ++ back) = Text.dropEndWhile p front := by
  rw [Text.dropEndWhile, List.reverse_append, List.dropWhile_append_of_pos]
  · rfl
  · intro c hc
    exact List.all_eq_true.1 h c (List.mem_reverse.1 hc)

theorem dropEndWhile_append_singleton {c : Char} (hc : p c = false) :
    Text.dropEndWhile p (front ++ [c]) = front ++ [c] := by
  simp [Text.dropEndWhile, hc]

theorem dropEndWhile_append {c : Char} (hmem : c ∈ back) (hc : p c = false) :
    Text.dropEndWhile p (front ++ back) = front ++ Text.dropEndWhile p back := by
  have hne : ¬ (back.reverse.dropWhile p).isEmpty = true := by
    intro hempty
    have hall := List.dropWhile_eq_nil_iff.1 (List.isEmpty_iff.1 hempty) c
      (List.mem_reverse.2 hmem)
    simp [hc] at hall
  rw [Text.dropEndWhile, List.reverse_append, List.dropWhile_append, if_neg hne,
    List.reverse_append, List.reverse_reverse]
  rfl

end

theorem toList_dropEnd (p : Char → Bool) (s : String) :
    (Text.dropEnd p s).toList = Text.dropEndWhile p s.toList := by
  rw [Text.dropEnd, String.toList_ofList, Text.dropEndWhile]

theorem lexes_ellipsis : Lexes ['.', '.', '.'] (Single (.symbol .ellipsis)) Anything :=
  .token rfl fun _ _ => rfl

theorem numberEnds_ellipsis (rest : List Char) : NumberEnds ('.' :: '.' :: rest) :=
  ⟨wordEnds_cons (by decide), rfl⟩

/-- What is left of the lines of the arguments before the dots of a call. -/
theorem dropEndWhile_listLines {e : Expr} {es : List Expr}
    (hheredoc : ∀ d ∈ e :: es, d.isHeredoc = false)
    (hends : ∀ d ∈ e :: es, ∀ depth, EndsPlain (d.render depth).toList) (depth : Nat) :
    Text.dropEndWhile isLineEnd
        (Printer.listLines depth (argumentLines (depth + 1) (e :: es))).toList =
      (Printer.indent (depth + 1)).toList ++ ((e.render (depth + 1)).toList ++
        (if es = [] then [] else ',' :: '\n' :: Text.dropEndWhile isLineEnd
          (Printer.listLines depth (argumentLines (depth + 1) es)).toList)) := by
  rw [listLines_cons (hheredoc e (by simp))]
  cases es with
  | nil =>
      rcases hends e (by simp) (depth + 1) with ⟨front, c, hrender, hc⟩
      -- What is taken off is the comma and the line break after the last expression.
      have hsplit : (Printer.indent (depth + 1)).toList ++ ((e.render (depth + 1)).toList ++
          (',' :: '\n' :: (Printer.listLines depth (argumentLines (depth + 1) [])).toList)) =
            ((Printer.indent (depth + 1)).toList ++ front ++ [c]) ++ [',', '\n'] := by
        simp [hrender, Printer.listLines]
      rw [hsplit, dropEndWhile_append_of_all rfl, dropEndWhile_append_singleton hc]
      simp [hrender]
  | cons e' es =>
      rcases hends e' (by simp) (depth + 1) with ⟨front, c, hrender, hc⟩
      -- A character of the next expression stops the taking off, so this line stays as it is.
      have hmem : c ∈ (Printer.listLines depth (argumentLines (depth + 1) (e' :: es))).toList := by
        rw [listLines_cons (hheredoc e' (by simp)), hrender]
        simp
      have hsplit : (Printer.indent (depth + 1)).toList ++ ((e.render (depth + 1)).toList ++
          (',' :: '\n' ::
            (Printer.listLines depth (argumentLines (depth + 1) (e' :: es))).toList)) =
            ((Printer.indent (depth + 1)).toList ++ (e.render (depth + 1)).toList ++ [',', '\n']) ++
              (Printer.listLines depth (argumentLines (depth + 1) (e' :: es))).toList := by simp
      rw [hsplit, dropEndWhile_append hmem hc, if_neg (List.cons_ne_nil _ _)]
      simp

/-- Arguments on lines of their own, the last one with dots after it. -/
theorem lexes_spread {es : List Expr} (hne : es ≠ []) (hes : ∀ e ∈ es, Prints e)
    (hheredoc : ∀ e ∈ es, e.isHeredoc = false)
    (hends : ∀ e ∈ es, ∀ depth, EndsPlain (e.render depth).toList) (depth : Nat) :
    Lexes ('\n' :: (Text.dropEndWhile isLineEnd
      (Printer.listLines depth (argumentLines (depth + 1) es)).toList ++
        (['.', '.', '.', '\n'] ++ ((Printer.indent depth).toList ++ [')']))))
      (Spells (.arguments es true)) Anything := by
  induction es with
  | nil => exact absurd rfl hne
  | cons e es ih =>
      have he := (hes e (by simp)).whole (depth + 1)
      rw [dropEndWhile_listLines hheredoc hends]
      -- The last argument has the dots in place of a comma.
      by_cases hnil : es = []
      · subst hnil
        have hclose := (lexes_indent depth).append lexes_rightParen fun _ _ => trivial
        have hline := lexes_newline.append hclose fun _ _ => trivial
        have hdots := lexes_ellipsis.append hline fun _ _ => trivial
        have hlast := he.append hdots fun rest _ => numberEnds_ellipsis _
        have hindent := (lexes_indent (depth + 1)).append hlast fun _ _ => trivial
        simp only [if_true, List.append_nil, List.append_assoc]
        refine (lexes_newline.append hindent fun _ _ => trivial).mono ?_
        rintro _ ⟨_, _, rfl, ⟨l, rfl, hl⟩, _, _, rfl, rfl, ls, _, rfl, hls, _, _, rfl,
          ⟨d, rfl, hd⟩, _, _, rfl, ⟨l', rfl, hl'⟩, _, _, rfl, rfl, c, rfl, hc⟩
        exact .argumentsSpread (.newline hl) hls hd (.newline hl') hc
      · have hrest := ih hnil (fun d hd => hes d (by simp [hd]))
          (fun d hd => hheredoc d (by simp [hd])) fun d hd => hends d (by simp [hd])
        have hcomma : Lexes [','] (Single (.symbol .comma)) Anything := .token rfl fun _ _ => rfl
        have hline := he.append (hcomma.append hrest fun _ _ => trivial)
          fun _ _ => numberEnds_cons (by decide)
        have hindent := (lexes_indent (depth + 1)).append hline fun _ _ => trivial
        simp only [if_neg hnil, List.append_assoc, List.cons_append]
        refine (lexes_newline.append hindent fun _ _ => trivial).mono ?_
        rintro _ ⟨_, _, rfl, ⟨l, rfl, hl⟩, _, _, rfl, rfl, ls, _, rfl, hls, _, ls', rfl,
          ⟨comma, rfl, hcomma⟩, hls'⟩
        exact .argumentsCons (.newline hl) hls hcomma hls'

/-- The arguments of a call on one line. -/
theorem lexes_inlineArguments {args : List Expr} {expand : Bool}
    (hexpand : expand = true → args ≠ []) (hargs : ∀ e ∈ args, Prints e) (depth : Nat) :
    Lexes ((Text.joinWith ", " (renderAll depth args)).toList ++
      ((if expand then ['.', '.', '.'] else []) ++ [')']))
      (Spells (.arguments args expand)) Anything := by
  cases expand with
  | true =>
      have hclose := lexes_ellipsis.append lexes_rightParen fun _ _ => trivial
      refine lexes_joined (P := fun es => Spells (.arguments es true)) hclose
        (fun rest => numberEnds_ellipsis _) ?_ ?_ (hexpand rfl) hargs depth
      · rintro e ls _ hls ⟨_, _, rfl, ⟨d, rfl, hd⟩, c, rfl, hc⟩
        exact .argumentsSpread .none hls hd .none hc
      · exact fun e es comma ls ls' hls hcomma hls' => .argumentsCons .none hls hcomma hls'
  | false =>
      by_cases hne : args = []
      · subst hne
        refine lexes_rightParen.mono ?_
        rintro _ ⟨c, rfl, hc⟩
        exact .argumentsNil .none hc
      · refine lexes_joined (P := fun es => Spells (.arguments es false)) lexes_rightParen
          (fun rest => numberEnds_cons (by decide)) ?_ ?_ hne hargs depth
        · rintro e ls _ hls ⟨c, rfl, hc⟩
          exact .argumentsLast .none hls hc
        · exact fun e es comma ls ls' hls hcomma hls' => .argumentsCons .none hls hcomma hls'

/-- The arguments of a call on several lines. -/
theorem lexes_splitArguments {args : List Expr} (hargs : ∀ e ∈ args, Prints e)
    (hheredoc : ∀ e ∈ args, e.isHeredoc = false) (depth : Nat) :
    Lexes ('\n' :: ((Printer.listLines depth (argumentLines (depth + 1) args)).toList ++
      ((Printer.indent depth).toList ++ [')']))) (Spells (.arguments args false)) Anything := by
  refine lexes_lines (P := fun es => Spells (.arguments es false)) lexes_rightParen ?_ ?_ hargs
    hheredoc depth
  · rintro gap _ hgap ⟨c, rfl, hc⟩
    exact .argumentsNil hgap hc
  · exact fun gap e es comma ls ls' hgap hls hcomma hls' => .argumentsCons hgap hls hcomma hls'

theorem prints_call {name : String} {args : List Expr} {expand : Bool} (hname : IsName name)
    (hreserved : ¬ IsReserved name) (hexpand : expand = true → args ≠ [])
    (hargs : ∀ e ∈ args, Prints e) (hheredoc : ∀ e ∈ args, e.isHeredoc = false)
    (hends : ∀ e ∈ args, ∀ depth, EndsPlain (e.render depth).toList) :
    Prints (.call name args expand) := by
  refine .of_closed fun depth => ?_
  -- The name and the parenthesis, before the arguments in any layout.
  have hcall {text : List Char} (h : Lexes text (Spells (.arguments args expand)) Anything) :
      Lexes (name.toList ++ '(' :: text) (Spells (.primary (.call name args expand))) Anything := by
    have hopen := lexes_leftParen.append h fun _ _ => trivial
    refine ((lexes_word hname).append hopen fun _ _ => wordEnds_cons (by decide)).mono ?_
    rintro _ ⟨_, _, rfl, ⟨t, rfl, ht⟩, _, ls, rfl, ⟨o, rfl, ho⟩, hls⟩
    exact .call hreserved ht ho hls
  rw [Expr.render_call]
  split
  · cases expand with
    | true =>
        have htext : (Printer.splitCall name (argumentLines (depth + 1) args) true depth).toList =
            name.toList ++ '(' :: '\n' :: (Text.dropEndWhile isLineEnd
              (Printer.listLines depth (argumentLines (depth + 1) args)).toList ++
                (['.', '.', '.', '\n'] ++ ((Printer.indent depth).toList ++ [')']))) := by
          simp [Printer.splitCall, toList_dropEnd]
          rfl
        rw [htext]
        exact hcall (lexes_spread (hexpand rfl) hargs hheredoc hends depth)
    | false =>
        have htext : (Printer.splitCall name (argumentLines (depth + 1) args) false depth).toList =
            name.toList ++ '(' :: '\n' ::
              ((Printer.listLines depth (argumentLines (depth + 1) args)).toList ++
                ((Printer.indent depth).toList ++ [')'])) := by
          simp [Printer.splitCall]
        rw [htext]
        exact hcall (lexes_splitArguments hargs hheredoc depth)
  · have htext : (Printer.inlineCall name (renderAll depth args) expand).toList =
        name.toList ++ '(' :: ((Text.joinWith ", " (renderAll depth args)).toList ++
          ((if expand then ['.', '.', '.'] else []) ++ [')'])) := by
      cases expand <;> simp [Printer.inlineCall]
    rw [htext]
    exact hcall (lexes_inlineArguments hexpand hargs depth)

/-! ## Objects -/

theorem lexes_leftBrace : Lexes ['\x7b'] (Single (.symbol .leftBrace)) Anything :=
  .token rfl fun _ _ => rfl

theorem lexes_rightBrace : Lexes ['\x7d'] (Single (.symbol .rightBrace)) Anything :=
  .token rfl fun _ _ => rfl

theorem lexes_key {key : ObjectKey} (hkey : PrintableKey key) (depth : Nat) :
    Lexes (key.render depth).toList (fun ls => ∃ k, ls = [k] ∧ SpellsKey key k) WordEnds := by
  cases hkey with
  | name hname =>
      refine (lexes_word hname).mono ?_
      rintro _ ⟨k, rfl, hk⟩
      exact ⟨k, rfl, .name hk⟩
  | string text =>
      rw [ObjectKey.render_expr, render_string]
      refine ((lexes_quoted text.toList).mono ?_).weaken fun _ _ => trivial
      rintro _ ⟨k, rfl, hk⟩
      exact ⟨k, rfl, .string text hk⟩

theorem wordEnds_blank {text : List Char} (h : text.all isSeparator = true) (rest : List Char) :
    WordEnds (text ++ ' ' :: rest) := by
  cases text with
  | nil => exact wordEnds_cons (by decide)
  | cons c text =>
      refine wordEnds_cons ?_
      by_contra hc
      rw [Bool.not_eq_false] at hc
      simp [isSeparator_of_isIdentChar hc] at h

/-- A key, blanks, an equals sign and a value. -/
theorem lexes_entry {key : ObjectKey} {value : Expr} (hkey : PrintableKey key)
    (hvalue : Prints value) (blanks : List Char) (hblanks : blanks.all isSeparator = true)
    (depth : Nat) :
    Lexes ((key.render depth).toList ++
        (blanks ++ [' '] ++ ['=', ' '] ++ (value.render depth).toList))
      (fun ls => ∃ k equals ls', ls = k :: equals :: ls' ∧ SpellsKey key k ∧
        equals.token = .symbol .equals ∧ Spells (.whole value) ls') NumberEnds := by
  have hequals : Lexes (blanks ++ [' '] ++ ['=', ' ']) (Single (.symbol .equals)) Anything := by
    refine .spaced (blanks ++ [' ']) '=' [] [' '] ?_ rfl rfl fun _ _ => rfl
    rw [List.all_append, hblanks]
    rfl
  have hright := hequals.append (hvalue.whole depth) fun _ _ => trivial
  refine ((lexes_key hkey depth).append hright ?_).mono ?_
  · intro rest _
    simpa using wordEnds_blank hblanks _
  · rintro _ ⟨_, _, rfl, ⟨k, rfl, hk⟩, _, ls, rfl, ⟨s, rfl, hs⟩, hls⟩
    exact ⟨k, s, ls, rfl, hk, hs, hls⟩

/-- The items of an object on lines of their own. -/
theorem lexes_entries {items : List ObjectItem} (hdecor : ∀ item ∈ items, item.decor = {})
    (hkeys : ∀ item ∈ items, PrintableKey item.key) (hvalues : ∀ item ∈ items, Prints item.value)
    (width depth : Nat) :
    Lexes ('\n' :: ((Text.concat ((renderObject (depth + 1) items).map fun e =>
        Printer.objectLine width e.key e.value e.isHeredoc e.decor depth)).toList ++
      ((Printer.indent depth).toList ++ ['\x7d']))) (Spells (.entries items)) Anything := by
  induction items with
  | nil =>
      have hend := (lexes_indent depth).append lexes_rightBrace fun _ _ => trivial
      refine (lexes_newline.append hend fun _ _ => trivial).mono ?_
      rintro _ ⟨_, _, rfl, ⟨l, rfl, hl⟩, _, _, rfl, rfl, c, rfl, hc⟩
      exact .entriesNil (.newline hl) hc
  | cons item items ih =>
      rcases item with ⟨key, value, decor⟩
      obtain rfl : decor = {} := hdecor _ (List.mem_cons_self ..)
      have hkey : PrintableKey key := hkeys _ (List.mem_cons_self ..)
      have hvalue : Prints value := hvalues _ (List.mem_cons_self ..)
      have hrest := ih (fun d hd => hdecor d (by simp [hd])) (fun d hd => hkeys d (by simp [hd]))
        fun d hd => hvalues d (by simp [hd])
      -- Keys are filled up to one width, with blanks that leave no trace.
      have hblanks : (Text.times " " (width - (key.render (depth + 1)).length)).toList.all
          isSeparator = true := all_isSeparator_times (by decide) _
      have hline := (lexes_entry hkey hvalue _ hblanks (depth + 1)).append hrest
        fun _ _ => numberEnds_cons (by decide)
      have hindent := (lexes_indent (depth + 1)).append hline fun _ _ => trivial
      have htext : '\n' :: ((Text.concat ((renderObject (depth + 1) (⟨key, value, {}⟩ :: items)).map
          fun e => Printer.objectLine width e.key e.value e.isHeredoc e.decor depth)).toList ++
            ((Printer.indent depth).toList ++ ['\x7d'])) =
          ['\n'] ++ ((Printer.indent (depth + 1)).toList ++ (((key.render (depth + 1)).toList ++
            ((Text.times " " (width - (key.render (depth + 1)).length)).toList ++ [' '] ++
              ['=', ' '] ++ (value.render (depth + 1)).toList)) ++
            '\n' :: ((Text.concat ((renderObject (depth + 1) items).map fun e =>
              Printer.objectLine width e.key e.value e.isHeredoc e.decor depth)).toList ++
                ((Printer.indent depth).toList ++ ['\x7d'])))) := by
        simp [Text.concat, Printer.objectLine, Printer.leadingDecor,
          Printer.trailingDecor, Text.padRight]
      rw [htext]
      refine (lexes_newline.append hindent fun _ _ => trivial).mono ?_
      rintro _ ⟨_, _, rfl, ⟨l, rfl, hl⟩, _, _, rfl, rfl, _, ls', rfl,
        ⟨k, s, ls, rfl, hk, hs, hls⟩, hls'⟩
      exact .entriesCons (.newline hl) hk hs hls hls'

/-- An object is empty, or one item on a line, or has an item a line. -/
theorem render_object (items : List ObjectItem) (depth : Nat) :
    items = [] ∨
      (∃ item, items = [item] ∧ (Expr.object items).render depth =
        "\x7b " ++ item.key.render depth ++ " = " ++ item.value.render depth ++ " \x7d") ∨
      (Expr.object items).render depth =
        Printer.splitObject (renderObject (depth + 1) items) depth := by
  cases items with
  | nil => exact .inl rfl
  | cons item items =>
      refine .inr ?_
      cases items with
      | cons _ _ =>
          right
          rw [Expr.render_object_cons_cons]
      | nil =>
          rcases item with ⟨key, value, decor⟩
          rw [Expr.render_object_singleton]
          split
          · rename_i line hline
            simp only [renderObject_cons, renderObject_nil, Printer.inlineObject?] at hline
            split at hline
            · exact .inl ⟨_, rfl, (Option.some.inj hline).symm⟩
            · simp at hline
          · exact .inr rfl

theorem prints_object {items : List ObjectItem} (hdecor : ∀ item ∈ items, item.decor = {})
    (hkeys : ∀ item ∈ items, PrintableKey item.key) (hvalues : ∀ item ∈ items, Prints item.value) :
    Prints (.object items) := by
  refine .of_closed fun depth => ?_
  have hopen {text : List Char} (h : Lexes text (Spells (.entries items)) Anything) :
      Lexes ('\x7b' :: text) (Spells (.primary (.object items))) Anything := by
    refine (lexes_leftBrace.append h fun _ _ => trivial).mono ?_
    rintro _ ⟨_, ls, rfl, ⟨o, rfl, ho⟩, hls⟩
    exact .object ho hls
  rcases render_object items depth with rfl | ⟨⟨key, value, decor⟩, rfl, htext⟩ | htext
  · have hempty : ((Expr.object []).render depth).toList = ['\x7b', '\x7d'] := by simp
    rw [hempty]
    refine hopen (lexes_rightBrace.mono ?_)
    rintro _ ⟨c, rfl, hc⟩
    exact .entriesNil .none hc
  · obtain rfl : decor = {} := hdecor _ (List.mem_cons_self ..)
    have hkey : PrintableKey key := hkeys _ (List.mem_cons_self ..)
    have hvalue : Prints value := hvalues _ (List.mem_cons_self ..)
    -- One item on a line: no comma, and a blank inside either brace.
    have hclose : Lexes [' ', '\x7d'] (Single (.symbol .rightBrace)) Anything :=
      .spaced [' '] '\x7d' [] [] rfl rfl rfl fun _ _ => rfl
    have hentry := lexes_entry hkey hvalue [] rfl depth
    have hblank : Lexes [' '] (· = []) Anything := .blank rfl
    have hline := hblank.append (hentry.append hclose fun _ _ => numberEnds_cons (by decide))
      fun _ _ => trivial
    have hinline : ((Expr.object [⟨key, value, {}⟩]).render depth).toList =
        '\x7b' :: ([' '] ++ (((key.render depth).toList ++ ([] ++ [' '] ++ ['=', ' '] ++
          (value.render depth).toList)) ++ [' ', '\x7d'])) := by
      simp [htext]
    rw [hinline]
    refine hopen (hline.mono ?_)
    rintro _ ⟨_, _, rfl, rfl, _, _, rfl, ⟨k, s, ls, rfl, hk, hs, hls⟩, c, rfl, hc⟩
    exact .entriesCons .none hk hs hls (.entriesNil .none hc)
  · have hlines : ((Expr.object items).render depth).toList =
        '\x7b' :: '\n' :: ((Text.concat ((renderObject (depth + 1) items).map fun e =>
          Printer.objectLine (Printer.maxWidth ((renderObject (depth + 1) items).map (·.key)))
            e.key e.value e.isHeredoc e.decor depth)).toList ++
          ((Printer.indent depth).toList ++ ['\x7d'])) := by
      simp [htext, Printer.splitObject]
    rw [hlines]
    exact hopen (lexes_entries hdecor hkeys hvalues _ depth)

end Hcl
end ProviderMigration
