import ProviderMigration.Proofs.Hcl.Printer.Bracket

/-!
# Printed expressions are spelled

What the printer writes for a printable expression is cut into tokens that spell it, in every
layout (`Printable.prints`). The parts of a `for` come first.
-/

namespace ProviderMigration
namespace Hcl

/-! ## Words -/

theorem lexes_for : Lexes ['f', 'o', 'r', ' '] (Single (.ident "for")) Anything :=
  .spaced [] 'f' ['o', 'r'] [' '] rfl rfl rfl fun _ _ => rfl

theorem lexes_in : Lexes [' ', 'i', 'n', ' '] (Single (.ident "in")) Anything :=
  .spaced [' '] 'i' ['n'] [' '] rfl rfl rfl fun _ _ => rfl

theorem lexes_if : Lexes [' ', 'i', 'f', ' '] (Single (.ident "if")) Anything :=
  .spaced [' '] 'i' ['f'] [' '] rfl rfl rfl fun _ _ => rfl

theorem lexes_fatArrow : Lexes [' ', '=', '>', ' '] (Single (.symbol .fatArrow)) Anything :=
  .spaced [' '] '=' ['>'] [' '] rfl rfl rfl fun _ _ => rfl

/-- The variables of a `for` as they are written. -/
def loopNames : Option String → String → String
  | some keyVar, valueVar => keyVar ++ ", " ++ valueVar
  | none, valueVar => valueVar

theorem lexes_names {keyVar : Option String} {valueVar : String}
    (hkeyVar : ∀ name, keyVar = some name → IsName name) (hvalueVar : IsName valueVar) :
    Lexes (loopNames keyVar valueVar).toList (SpellsNames keyVar valueVar) WordEnds := by
  cases keyVar with
  | none =>
      refine (lexes_word hvalueVar).mono ?_
      rintro _ ⟨v, rfl, hv⟩
      exact .one hv
  | some keyVar =>
      have htext : (loopNames (some keyVar) valueVar).toList =
          keyVar.toList ++ ([',', ' '] ++ valueVar.toList) := by
        simp [loopNames]
      have hright := lexes_comma.append (lexes_word hvalueVar) fun _ _ => trivial
      rw [htext]
      refine ((lexes_word (hkeyVar keyVar rfl)).append hright ?_).mono ?_
      · exact fun _ _ => wordEnds_cons (by decide)
      · rintro _ ⟨_, _, rfl, ⟨k, rfl, hk⟩, _, _, rfl, ⟨s, rfl, hs⟩, v, rfl, hv⟩
        exact .two hk hs hv

/-- The key expression of a `for` and the arrow, as they are written. -/
def loopKeyText (depth : Nat) : Option Expr → List Char
  | some key => (key.render depth).toList ++ [' ', '=', '>', ' ']
  | none => []

theorem lexes_loopKey {key : Option Expr} (hkey : ∀ e, key = some e → Prints e) (depth : Nat) :
    Lexes (loopKeyText depth key) (Spells (.loopKey key)) Anything := by
  cases key with
  | none =>
      refine Lexes.nil.mono ?_
      rintro _ rfl
      exact .noKey
  | some key =>
      have he := (hkey key rfl).whole depth
      refine (he.append lexes_fatArrow fun _ _ => numberEnds_cons (by decide)).mono ?_
      rintro _ ⟨ls, _, rfl, hls, t, rfl, ht⟩
      exact .key hls ht

theorem lexes_dots {grouping : Bool} {key : Option Expr}
    (hgrouping : grouping = true → key.isSome = true) :
    Lexes (if grouping then ['.', '.', '.'] else []) (SpellsDots grouping key) Anything := by
  cases grouping with
  | false =>
      refine Lexes.nil.mono ?_
      rintro _ rfl
      exact .none key
  | true =>
      rcases Option.isSome_iff_exists.1 (hgrouping rfl) with ⟨e, rfl⟩
      refine lexes_ellipsis.mono ?_
      rintro _ ⟨t, rfl, ht⟩
      exact .some e ht

theorem lexes_loopFilter {condition : Option Expr} (hcondition : ∀ e, condition = some e → Prints e)
    (depth : Nat) :
    Lexes (renderOptional " if " depth condition).toList (Spells (.loopFilter condition))
      NumberEnds := by
  cases condition with
  | none =>
      refine Lexes.nil.mono ?_
      rintro _ rfl
      exact .noFilter
  | some condition =>
      have htext : (renderOptional " if " depth (some condition)).toList =
          [' ', 'i', 'f', ' '] ++ (condition.render depth).toList := by simp
      rw [htext]
      refine (lexes_if.append ((hcondition condition rfl).whole depth) fun _ _ => trivial).mono ?_
      rintro _ ⟨_, ls, rfl, ⟨t, rfl, ht⟩, hls⟩
      exact .filter ht hls

theorem numberEnds_filter {close rest : List Char} {condition : Option Expr} {depth : Nat}
    (hclose : NumberEnds (close ++ rest)) :
    NumberEnds ((renderOptional " if " depth condition).toList ++ close ++ rest) := by
  cases condition with
  | none => simpa using hclose
  | some condition =>
      simp only [renderOptional_some, String.toList_append, String.reduceToList]
      exact numberEnds_cons (by decide)

/-- The brackets of a `for` as they are written. -/
def loopOpener (c : Comprehension) : List Char :=
  if c.key.isSome then ['\x7b', ' '] else ['[']

def loopCloser (c : Comprehension) : List Char :=
  if c.key.isSome then [' ', '\x7d'] else [']']

theorem lexes_loopOpener (c : Comprehension) :
    Lexes (loopOpener c) (Single (.symbol (openerOf c))) Anything := by
  unfold loopOpener openerOf
  split
  · exact .spaced [] '\x7b' [] [' '] rfl rfl rfl fun _ _ => rfl
  · exact lexes_leftBracket

theorem lexes_loopCloser (c : Comprehension) :
    Lexes (loopCloser c) (Single (.symbol (closerOf c))) Anything := by
  unfold loopCloser closerOf
  split
  · exact .spaced [' '] '\x7d' [] [] rfl rfl rfl fun _ _ => rfl
  · exact lexes_rightBracket

theorem numberEnds_loopCloser (c : Comprehension) (rest : List Char) :
    NumberEnds (loopCloser c ++ rest) := by
  unfold loopCloser
  split
  · exact numberEnds_cons (by decide)
  · exact numberEnds_cons (by decide)

theorem render_comprehension (c : Comprehension)
    (hgrouping : c.grouping = true → c.key.isSome = true) (depth : Nat) :
    (c.render depth).toList = loopOpener c ++ (['f', 'o', 'r', ' '] ++
      ((loopNames c.keyVar c.valueVar).toList ++ ([' ', 'i', 'n', ' '] ++
        ((c.collection.render depth).toList ++ ([' ', ':', ' '] ++ (loopKeyText depth c.key ++
          ((c.value.render depth).toList ++ ((if c.grouping then ['.', '.', '.'] else []) ++
            ((renderOptional " if " depth c.condition).toList ++ loopCloser c))))))))) := by
  rcases c with ⟨keyVar, valueVar, collection, key, value, grouping, condition⟩
  cases key with
  | none =>
      obtain rfl : grouping = false := by simpa using hgrouping
      cases keyVar <;>
        simp [Comprehension.render, loopOpener, loopNames, loopKeyText, loopCloser]
  | some key =>
      cases keyVar <;> cases grouping <;>
        simp [Comprehension.render, loopOpener, loopNames, loopKeyText, loopCloser]

theorem prints_comprehension {c : Comprehension}
    (hkeyVar : ∀ name, c.keyVar = some name → IsName name) (hvalueVar : IsName c.valueVar)
    (hgrouping : c.grouping = true → c.key.isSome = true) (hcollection : Prints c.collection)
    (hkey : ∀ e, c.key = some e → Prints e) (hvalue : Prints c.value)
    (hcondition : ∀ e, c.condition = some e → Prints e) : Prints (.comprehension c) := by
  refine .of_closed fun depth => ?_
  -- The parts from the last to the first, each with what ends it.
  have hfilter := (lexes_loopFilter hcondition depth).append (lexes_loopCloser c)
    fun _ _ => numberEnds_loopCloser c _
  have hdots := (lexes_dots hgrouping).append hfilter fun _ _ => trivial
  have hright := (hvalue.whole depth).append hdots ?_
  rotate_left
  · intro rest _
    -- After the value come the dots, or the condition, or the bracket.
    cases c.grouping with
    | true => exact numberEnds_ellipsis _
    | false => exact numberEnds_filter (numberEnds_loopCloser c rest)
  have hkeyed := (lexes_loopKey hkey depth).append hright fun _ _ => trivial
  have hcolon := lexes_colon.append hkeyed fun _ _ => trivial
  have hcoll := (hcollection.whole depth).append hcolon fun _ _ => numberEnds_cons (by decide)
  have hin := lexes_in.append hcoll fun _ _ => trivial
  have hnames := (lexes_names hkeyVar hvalueVar).append hin fun _ _ => wordEnds_cons (by decide)
  have hfor := lexes_for.append hnames fun _ _ => trivial
  rw [Expr.render_loop, render_comprehension c hgrouping]
  refine ((lexes_loopOpener c).append hfor fun _ _ => trivial).mono ?_
  rintro _ ⟨_, _, rfl, ⟨o, rfl, ho⟩, _, _, rfl, ⟨f, rfl, hf⟩, names, _, rfl, hnames, _, _, rfl,
    ⟨i, rfl, hi⟩, coll, _, rfl, hcoll, _, _, rfl, ⟨s, rfl, hs⟩, key, _, rfl, hkey, value, _, rfl,
    hvalue, dots, _, rfl, hdots, filter, _, rfl, hfilter, close, rfl, hclose⟩
  exact .comprehension ho (.loop hf hnames hi hcoll hs hkey hvalue hdots hfilter hclose)

open Lexeme (isIdentChar)

/-! ## First and last characters -/

/-- The text starts with a character that does not extend an operator before it. -/
def StartsPlain (text : List Char) : Prop :=
  ∃ c rest, text = c :: rest ∧ c ≠ '='

theorem StartsPlain.append {text : List Char} (h : StartsPlain text) (text' : List Char) :
    StartsPlain (text ++ text') := by
  rcases h with ⟨c, rest, rfl, hc⟩
  exact ⟨c, rest ++ text', rfl, hc⟩

theorem EndsPlain.append {text' : List Char} (text : List Char) (h : EndsPlain text') :
    EndsPlain (text ++ text') := by
  rcases h with ⟨front, c, rfl, hc⟩
  exact ⟨text ++ front, c, (List.append_assoc ..).symm, hc⟩

/-- A text none of whose characters is at the end of a line. -/
theorem endsPlain_of_forall {text : List Char} (hne : text ≠ [])
    (h : ∀ c ∈ text, isLineEnd c = false) : EndsPlain text :=
  ⟨text.dropLast, text.getLast hne, (List.dropLast_append_getLast hne).symm,
    h _ (List.getLast_mem hne)⟩

theorem isLineEnd_of_isIdentChar {c : Char} (h : isIdentChar c = true) : isLineEnd c = false := by
  by_contra hc
  simp only [isLineEnd, Bool.not_eq_false, Bool.or_eq_true, beq_iff_eq] at hc
  rcases hc with rfl | rfl
  all_goals exact absurd h (by decide)

theorem IsName.endsPlain {name : String} (h : IsName name) : EndsPlain name.toList := by
  rcases h.exists_cons with ⟨c, cs, htext, -⟩
  refine endsPlain_of_forall (by simp [htext]) ?_
  exact fun d hd => isLineEnd_of_isIdentChar (List.all_eq_true.1 h.2 d hd)

theorem IsName.startsPlain {name : String} (h : IsName name) : StartsPlain name.toList := by
  rcases h.exists_cons with ⟨c, cs, htext, hc⟩
  refine ⟨c, cs, htext, ?_⟩
  rintro rfl
  exact absurd hc (by decide)

theorem isLineEnd_of_mem_takeOne {p : Char → Bool} (hp : ∀ c, p c = true → isLineEnd c = false)
    {cs : List Char} : ∀ c ∈ (Lexeme.takeOne p cs).1, isLineEnd c = false := by
  cases cs with
  | nil => simp [Lexeme.takeOne]
  | cons d cs =>
      by_cases hd : p d = true
      · simpa [Lexeme.takeOne, hd] using hp d hd
      · simp [Lexeme.takeOne, hd]

theorem isLineEnd_of_isDigit {c : Char} (h : c.isDigit = true) : isLineEnd c = false :=
  isLineEnd_of_isIdentChar (isIdentChar_of_isDigit h)

theorem isLineEnd_of_mem_takeWhile {cs : List Char} {c : Char}
    (h : c ∈ cs.takeWhile Char.isDigit) : isLineEnd c = false :=
  isLineEnd_of_isDigit (List.mem_takeWhile_imp h)

theorem isLineEnd_of_mem_exponent? {cs front after : List Char}
    (h : Lexeme.exponent? cs = some (front, after)) : ∀ c ∈ front, isLineEnd c = false := by
  have hpair (a b : Char) (ha : isLineEnd a = false) (hb : isLineEnd b = false) :
      ∀ c, (c == a || c == b) = true → isLineEnd c = false := by
    intro c hc
    rw [Bool.or_eq_true, beq_iff_eq, beq_iff_eq] at hc
    rcases hc with rfl | rfl
    · exact ha
    · exact hb
  simp only [Lexeme.exponent?] at h
  split at h
  · rcases Prod.mk.inj (Option.some.inj h) with ⟨rfl, -⟩
    intro c hc
    simp only [List.mem_append] at hc
    rcases hc with (hc | hc) | hc
    · exact isLineEnd_of_mem_takeOne (hpair _ _ rfl rfl) c hc
    · exact isLineEnd_of_mem_takeOne (hpair _ _ rfl rfl) c hc
    · exact isLineEnd_of_mem_takeWhile hc
  · simp at h

theorem isLineEnd_of_mem_fraction? {cs front after : List Char}
    (h : Lexeme.fraction? cs = some (front, after)) : ∀ c ∈ front, isLineEnd c = false := by
  unfold Lexeme.fraction? at h
  split at h
  · split at h
    · rcases Prod.mk.inj (Option.some.inj h) with ⟨rfl, -⟩
      intro c hc
      rcases List.mem_cons.1 hc with rfl | hc
      · decide
      · exact isLineEnd_of_mem_takeWhile hc
    · simp at h
  · simp at h

/-- No number has the end of a line in it. -/
theorem isLineEnd_of_mem_number {cs : List Char} {c : Char} (h : c ∈ (Lexeme.number cs).chars) :
    isLineEnd c = false := by
  simp only [Lexeme.number, List.mem_append] at h
  rcases h with (h | h) | h
  · exact isLineEnd_of_mem_takeWhile h
  · cases hfraction : Lexeme.fraction? (cs.dropWhile Char.isDigit) with
    | none => simp [hfraction] at h
    | some found => exact isLineEnd_of_mem_fraction? hfraction c (by simpa [hfraction] using h)
  · generalize ((Lexeme.fraction? (cs.dropWhile Char.isDigit)).getD
      ([], cs.dropWhile Char.isDigit)).2 = tail at h
    cases hexponent : Lexeme.exponent? tail with
    | none => simp [hexponent] at h
    | some found => exact isLineEnd_of_mem_exponent? hexponent c (by simpa [hexponent] using h)

theorem IsNumeral.plain {text : String} (h : IsNumeral text) :
    StartsPlain text.toList ∧ EndsPlain text.toList := by
  rcases h with ⟨hstart, hwhole⟩
  cases htext : text.toList with
  | nil => simp [htext] at hstart
  | cons c cs =>
      rw [htext] at hstart hwhole
      have hc : c.isDigit = true := by simpa using hstart
      -- All characters of the text are characters of the number.
      have hchars : (Lexeme.number (c :: cs)).chars ++ (Lexeme.number (c :: cs)).rest = c :: cs :=
        (Lexeme.number_readFrom hc).eq_append
      rw [hwhole, List.append_nil] at hchars
      refine ⟨⟨c, cs, rfl, ?_⟩, endsPlain_of_forall (List.cons_ne_nil _ _) ?_⟩
      · rintro rfl
        exact absurd hc (by decide)
      · intro d hd
        rw [← hchars] at hd
        exact isLineEnd_of_mem_number hd

theorem endsPlain_step {step : Step} (hname : ∀ name, step = .attr name → IsName name)
    (depth : Nat) : EndsPlain (step.render depth).toList := by
  cases step with
  | attr name =>
      rw [Step.render_attr, String.toList_append]
      exact (hname name rfl).endsPlain.append _
  | index e =>
      rw [Step.render_index, String.toList_append]
      exact .append _ ⟨[], ']', rfl, rfl⟩
  | legacyIndex n =>
      rw [Step.render_legacyIndex, String.toList_append]
      refine .append _ (endsPlain_of_forall (repr_ne_nil n) ?_)
      exact fun c hc => isLineEnd_of_isDigit (isDigit_of_mem_repr hc)
  | attrSplat => exact ⟨['.'], '*', by simp, rfl⟩
  | fullSplat => exact ⟨['[', '*'], ']', by simp, rfl⟩

theorem endsPlain_steps {ss : List Step} (hss : ss ≠ [])
    (hnames : ∀ name, .attr name ∈ ss → IsName name) (depth : Nat) :
    EndsPlain (renderSteps depth ss).toList := by
  induction ss with
  | nil => exact absurd rfl hss
  | cons step ss ih =>
      rw [renderSteps_cons, String.toList_append]
      -- Only the last step matters.
      by_cases hnil : ss = []
      · subst hnil
        simpa using endsPlain_step (fun name h => hnames name (by simp [h])) depth
      · exact (ih hnil fun name h => hnames name (by simp [h])).append _

theorem plain_of_enclosed {text inside : List Char} {opener closer : Char}
    (htext : text = opener :: (inside ++ [closer])) (hopener : opener ≠ '=')
    (hcloser : isLineEnd closer = false) : StartsPlain text ∧ EndsPlain text :=
  ⟨⟨opener, _, htext, hopener⟩, ⟨opener :: inside, closer, by simp [htext], hcloser⟩⟩

theorem plain_of_parts {text front inside back : List Char} (htext : text = front ++ inside ++ back)
    (hfront : StartsPlain front) (hback : EndsPlain back) : StartsPlain text ∧ EndsPlain text := by
  subst htext
  exact ⟨(hfront.append inside).append back, hback.append _⟩

/-! Brackets start and end with their own characters, in each layout. -/

theorem plain_tupleOf (values : List Expr) (depth : Nat) :
    StartsPlain ((Expr.tupleOf values).render depth).toList ∧
      EndsPlain ((Expr.tupleOf values).render depth).toList := by
  by_cases hne : values = []
  · subst hne
    exact ⟨⟨'[', [']'], by simp [Expr.tupleOf], by decide⟩,
      ⟨['['], ']', by simp [Expr.tupleOf], rfl⟩⟩
  · rcases render_tupleOf hne depth with htext | htext
    · have hline : ((Expr.tupleOf values).render depth).toList =
          '[' :: ((Text.joinWith ", " (renderAll depth values)).toList ++ [']']) := by
        simp [htext]
      exact plain_of_enclosed hline (by decide) rfl
    · have hlines : ((Expr.tupleOf values).render depth).toList =
          '[' :: (('\n' ::
            ((Printer.listLines depth (argumentLines (depth + 1) values)).toList ++
              (Printer.indent depth).toList)) ++ [']']) := by
        simp [htext, Printer.splitTuple]
      exact plain_of_enclosed hlines (by decide) rfl

theorem plain_object (items : List ObjectItem) (depth : Nat) :
    StartsPlain ((Expr.object items).render depth).toList ∧
      EndsPlain ((Expr.object items).render depth).toList := by
  rcases render_object items depth with rfl | ⟨item, rfl, htext⟩ | htext
  · exact ⟨⟨'\x7b', ['\x7d'], by simp, by decide⟩, ⟨['\x7b'], '\x7d', by simp, rfl⟩⟩
  · have hline : ((Expr.object [item]).render depth).toList =
        '\x7b' :: ((' ' :: ((item.key.render depth).toList ++ ([' ', '=', ' '] ++
          ((item.value.render depth).toList ++ [' '])))) ++ ['\x7d']) := by
      simp [htext]
    exact plain_of_enclosed hline (by decide) rfl
  · have hlines : ((Expr.object items).render depth).toList =
        '\x7b' :: (('\n' :: ((Text.concat ((renderObject (depth + 1) items).map fun e =>
          Printer.objectLine (Printer.maxWidth ((renderObject (depth + 1) items).map (·.key)))
            e.key e.value e.isHeredoc e.decor depth)).toList ++
          (Printer.indent depth).toList)) ++ ['\x7d']) := by
      simp [htext, Printer.splitObject]
    exact plain_of_enclosed hlines (by decide) rfl

theorem plain_call {name : String} (hname : IsName name) (args : List Expr) (expand : Bool)
    (depth : Nat) :
    StartsPlain ((Expr.call name args expand).render depth).toList ∧
      EndsPlain ((Expr.call name args expand).render depth).toList := by
  have hclose : EndsPlain [')'] := ⟨[], ')', rfl, rfl⟩
  rw [Expr.render_call]
  split
  · simp only [Printer.splitCall, String.toList_append, String.reduceToList, List.append_assoc]
    exact ⟨hname.startsPlain.append _, .append _ (.append _ (.append _ (.append _ hclose)))⟩
  · simp only [Printer.inlineCall, String.toList_append, String.reduceToList, List.append_assoc]
    exact ⟨hname.startsPlain.append _, .append _ (.append _ (.append _ (.append _ hclose)))⟩

theorem plain_comprehension {c : Comprehension}
    (hgrouping : c.grouping = true → c.key.isSome = true) (depth : Nat) :
    StartsPlain ((Expr.comprehension c).render depth).toList ∧
      EndsPlain ((Expr.comprehension c).render depth).toList := by
  rw [Expr.render_loop, render_comprehension c hgrouping]
  have hopener : StartsPlain (loopOpener c) := by
    unfold loopOpener
    split
    · exact ⟨'\x7b', [' '], rfl, by decide⟩
    · exact ⟨'[', [], rfl, by decide⟩
  have hcloser : EndsPlain (loopCloser c) := by
    unfold loopCloser
    split
    · exact ⟨[' '], '\x7d', rfl, rfl⟩
    · exact ⟨[], ']', rfl, rfl⟩
  refine ⟨hopener.append _, ?_⟩
  -- The bracket is the last of eleven parts.
  repeat refine .append _ ?_
  exact hcloser

/-- What is printed starts and ends with a character of an expression. -/
theorem Printable.plain {e : Expr} (h : Printable e) (depth : Nat) :
    StartsPlain (e.render depth).toList ∧ EndsPlain (e.render depth).toList := by
  induction h with
  | null =>
      have htext : (Expr.null.render depth).toList = 'n' :: (['u', 'l'] ++ ['l']) := by simp
      exact plain_of_enclosed htext (by decide) rfl
  | bool value =>
      cases value with
      | true =>
          have htext : ((Expr.bool true).render depth).toList = 't' :: (['r', 'u'] ++ ['e']) := by
            simp
          exact plain_of_enclosed htext (by decide) rfl
      | false =>
          have htext : ((Expr.bool false).render depth).toList =
              'f' :: (['a', 'l', 's'] ++ ['e']) := by simp
          exact plain_of_enclosed htext (by decide) rfl
  | number htext => exact htext.plain
  | string text => exact plain_of_enclosed (render_string depth text) (by decide) rfl
  | var hname => exact ⟨hname.startsPlain, hname.endsPlain⟩
  | tuple => exact plain_tupleOf _ depth
  | object => exact plain_object _ depth
  | call hname => exact plain_call hname _ _ depth
  | comprehension _ _ hgrouping => exact plain_comprehension hgrouping depth
  | @paren inner _ _ =>
      have htext : ((Expr.paren inner).render depth).toList =
          '(' :: ((inner.render depth).toList ++ [')']) := by simp
      exact plain_of_enclosed htext (by decide) rfl
  -- An operator starts and ends as its operands do.
  | @conditional c a b _ _ _ _ ihc _ ihb =>
      have htext : ((Expr.conditional c a b).render depth).toList = (c.render depth).toList ++
          ([' ', '?', ' '] ++ (a.render depth).toList ++ [' ', ':', ' ']) ++
            (b.render depth).toList := by simp
      exact plain_of_parts htext ihc.1 ihb.2
  | @unary op e _ _ ih =>
      rw [Expr.render_unary, String.toList_append]
      refine ⟨?_, ih.2.append _⟩
      cases op with
      | neg => exact ⟨'-', _, rfl, by decide⟩
      | not => exact ⟨'!', _, rfl, by decide⟩
  | @binary op lhs rhs _ _ _ _ ihl ihr =>
      have htext : ((Expr.binary lhs op rhs).render depth).toList = (lhs.render depth).toList ++
          ([' '] ++ op.text.toList ++ [' ']) ++ (rhs.render depth).toList := by simp
      exact plain_of_parts htext ihl.1 ihr.2
  | traversal _ hss hnames _ _ _ ihroot =>
      rw [Expr.render_traversal, String.toList_append]
      exact ⟨ihroot.1.append _, (endsPlain_steps hss hnames depth).append _⟩

/-! ## All expressions -/

/-- A printable expression is written as tokens that spell it, in every layout. -/
theorem Printable.prints {e : Expr} (h : Printable e) : Prints e := by
  induction h with
  | null => exact prints_null
  | bool value => exact prints_bool value
  | number htext => exact prints_number htext
  | string text => exact prints_string text
  | var hname hreserved => exact prints_var hname hreserved
  | tuple hvalues ih => exact prints_tuple ih fun e he => (hvalues e he).isHeredoc
  | object hdecor hkeys _ ih => exact prints_object hdecor hkeys ih
  | call hname hreserved hexpand hargs ih =>
      exact prints_call hname hreserved hexpand ih (fun e he => (hargs e he).isHeredoc)
        fun e he depth => ((hargs e he).plain depth).2
  | paren _ ih => exact prints_paren ih
  | conditional hstrength _ _ _ ihc iha ihb => exact prints_conditional hstrength ihc iha ihb
  | unary hstrength he ih =>
      refine prints_unary hstrength ih ?_
      intro depth
      rcases (he.plain depth).1 with ⟨c, rest, htext, hc⟩
      exact ⟨c, by simp [htext], hc⟩
  | binary hleft hright _ _ ihl ihr => exact prints_binary hleft hright ihl ihr
  | comprehension hkeyVar hvalueVar hgrouping _ _ _ _ ihcoll ihkey ihvalue ihcond =>
      exact prints_comprehension hkeyVar hvalueVar hgrouping ihcoll ihkey ihvalue ihcond
  | traversal hroot hss hnames hlegacy _ _ ihroot ihindices =>
      exact prints_traversal hroot hss ihroot
        fun depth => prints_steps depth _ hnames hlegacy ihindices

end Hcl
end ProviderMigration
