import ProviderMigration.Hcl.Parser.Body
import ProviderMigration.Proofs.Hcl.Embedded
import ProviderMigration.Proofs.Hcl.Parser.Layout

/-!
# Where the parser fails

Each error of the parser is the fault of one text that was read, the source itself or a text
embedded in it, and points into that text. No error comes from the nesting budget: a token weighs
as much as the template in it is long, and the budget is eight units for each character.

* `weight`, `Template.fuel` — what tokens and the segments of a template take of the budget;
* `Ready` — the tokens that are left belong to one embedded text, and the budget is enough;
* `Blaming` — every function of the expression parser blames an embedded text, by induction on the
  fuel;
* `parse_errors_within` — what is read is where its offset says, and errors point into the source.
-/

namespace ProviderMigration
namespace Hcl

open Text (byteLength)
open Template (Segment)

/-! ## The nesting budget -/

namespace Template

/-- The fuel that reading the expressions of a template takes. -/
def fuel : List Segment → Nat
  | [] => 0
  | segment :: segments =>
    1 + max (segment.embedded?.elim 0 fun found => 8 * found.2.length + 6) (fuel segments)

theorem fuel_pushLiteral_le (front : List Char) (segments : List Segment) :
    fuel (pushLiteral front segments) ≤ 1 + fuel segments := by
  unfold pushLiteral
  split
  · exact Nat.le_add_left _ 1
  · simp only [fuel, Segment.embedded?, Option.elim_none, Nat.zero_max]
    exact Nat.le_refl _

theorem length_interpolation_le {offset place : Nat} {inside expr : List Char}
    (h : (interpolation offset inside).embedded? = some (place, expr)) :
    expr.length ≤ inside.length := by
  obtain ⟨-, rfl⟩ := Prod.mk.inj (Option.some.inj h)
  have hinside := congrArg List.length (stripMarkers_append inside)
  simp only [List.length_append] at hinside
  exact hinside ▸ Nat.le_trans (Nat.le_add_right _ _) (Nat.le_add_left _ _)

theorem length_directive_le {offset place : Nat} {inside expr : List Char}
    (h : (directive offset inside).embedded? = some (place, expr)) :
    expr.length ≤ inside.length := by
  simp only [directive] at h
  split at h
  · rename_i before found after hcontrolling
    obtain ⟨-, rfl⟩ := Prod.mk.inj (Option.some.inj h)
    have hinside := congrArg List.length (stripMarkers_append inside)
    have hmiddle : (stripMarkers inside).2.1 = before ++ (found ++ after) :=
      (controlling?_eq_append hcontrolling).1
    rw [hmiddle] at hinside
    simp only [List.length_append] at hinside
    omega
  · cases h

/-- A character of the raw text pays for eight units. -/
theorem fuel_split_le (escapes : Bool) (offset : Nat) (raw : List Char) :
    fuel (split escapes offset raw) ≤ 8 * raw.length := by
  have hsplits := splits escapes offset raw
  generalize split escapes offset raw = segments at hsplits ⊢
  induction hsplits with
  | nil => exact Nat.zero_le _
  | @doubled _ c _ segments _ _ ih =>
      have hpush := fuel_pushLiteral_le [c, '\x7b'] segments
      simp only [List.length_cons]
      omega
  | unclosed | invalidEscape =>
      simp only [fuel, Segment.embedded?, Option.elim_none, List.length_cons]
      omega
  | @sequence offset c inside after segments _ _ _ ih =>
      have hexpr {place : Nat} {expr : List Char}
          (hplace : (if c = '%' then directive offset inside
            else interpolation offset inside).embedded? = some (place, expr)) :
          expr.length ≤ inside.length := by
        split at hplace
        · exact length_directive_le hplace
        · exact length_interpolation_le hplace
      rw [fuel]
      generalize (if c = '%' then directive offset inside
        else interpolation offset inside) = segment at hexpr ⊢
      cases hplace : segment.embedded? with
      | none =>
          simp only [Option.elim_none, List.length_cons, List.length_append]
          omega
      | some found =>
          have hinside := hexpr hplace
          simp only [Option.elim_some, List.length_cons, List.length_append]
          omega
  | @escape _ d cs rest segments _ hdecode _ ih =>
      have hpush := fuel_pushLiteral_le [d] segments
      have hrest := decodeEscape?_length hdecode
      simp only [List.length_cons]
      omega
  | @plain _ c _ segments _ _ _ _ ih =>
      have hpush := fuel_pushLiteral_le [c] segments
      simp only [List.length_cons]
      omega

end Template

/-- The raw text of the template that a token holds. -/
def Token.raw : Token → List Char
  | .quoted raw => raw
  | .heredoc text => text.content
  | _ => []

/-- A token weighs as much as its template is long. -/
def Located.weight (t : Located) : Nat :=
  max 1 t.token.raw.length

def weight : List Located → Nat
  | [] => 0
  | t :: ts => t.weight + weight ts

theorem Located.weight_pos (t : Located) : 0 < t.weight :=
  Nat.lt_of_lt_of_le Nat.zero_lt_one (Nat.le_max_left _ _)

theorem weight_le_of_suffix {tokens tokens' : List Located} (h : tokens' <:+ tokens) :
    weight tokens' ≤ weight tokens := by
  obtain ⟨front, rfl⟩ := h
  induction front with
  | nil => exact Nat.le_refl _
  | cons t front ih => exact Nat.le_trans ih (Nat.le_add_left _ _)

theorem weight_le_of_mem {tokens : List Located} {t : Located} (h : t ∈ tokens) :
    t.weight ≤ weight tokens := by
  obtain ⟨front, back, rfl⟩ := List.append_of_mem h
  refine Nat.le_trans ?_ (weight_le_of_suffix (List.suffix_append front _))
  rw [weight]
  exact Nat.le_add_right _ _

theorem fuel_segments_le (t : Located) : Template.fuel t.segments ≤ 8 * t.weight := by
  have hraw : Template.fuel t.segments ≤ 8 * t.token.raw.length := by
    unfold Located.segments
    split
    · rename_i raw htoken
      rw [htoken]
      exact Template.fuel_split_le ..
    · rename_i text htoken
      rw [htoken]
      exact Template.fuel_split_le ..
    · exact Nat.zero_le _
  exact Nat.le_trans hraw (Nat.mul_le_mul_left 8 (Nat.le_max_right _ _))

theorem ReadAt.weight_le {offset : Nat} {cs before : List Char} {l : Lexeme} {t : Located}
    (h : ReadAt offset cs before l t) : t.weight ≤ l.chars.length := by
  refine Nat.max_le.2 ⟨List.length_pos_iff.2 h.readFrom.chars_ne_nil, ?_⟩
  have hspelt := h.spelt
  unfold Lexeme.Spelt at hspelt
  rw [h.token]
  unfold Token.raw
  split
  · rename_i raw htoken
    rw [htoken] at hspelt
    rw [hspelt.1]
    simp only [List.length_cons, List.length_append]
    omega
  · rename_i text htoken
    rw [htoken] at hspelt
    obtain ⟨opener, marker, hchars, -⟩ := hspelt
    rw [hchars]
    simp only [List.length_append]
    omega
  · exact Nat.zero_le _

/-- The tokens of a text weigh no more than the text is long. -/
theorem weight_le_length {offset : Nat} {cs : List Char} {tokens : List Located}
    (h : tokenizeAt offset cs = .ok tokens) : weight tokens ≤ cs.length := by
  rw [tokenizeAt_ok_iff] at h
  induction h with
  | nil => exact Nat.le_refl 0
  | separator _ _ ih => exact Nat.le_succ_of_le ih
  | @lexeme offset c cs lexeme _ _ hread _ hlater =>
      have hchars := (Lexeme.read_readFrom hread).eq_append
      have hfirst : ReadAt offset (c :: cs) [] lexeme
          ⟨lexeme.token, offset, offset + byteLength lexeme.chars⟩ :=
        ⟨hchars.symm, rfl, rfl, c, cs, hchars, hread⟩
      have hlength := congrArg List.length hchars
      have hweight := hfirst.weight_le
      rw [weight]
      rw [List.length_append] at hlength
      omega

/-! ## Single tokens -/

/-- One of the texts that are read with `whole` is at fault for the error. -/
def Blames (base : Nat) (whole : List Char) (e : SyntaxError) : Prop :=
  ∃ offset text, Embedded base whole offset text ∧ FaultIn offset text e

namespace Parser

section
variable {base : Nat} {whole : List Char} {r : Region} {tokens tokens' : List Located}
  {c after : Cursor} {t : Located} {levels levels' fuel : Nat}

/-- The tokens are the last ones of a text that is read with `whole` and ends with the region. The
fuel is enough for them and for so many more levels of the grammar. -/
structure Ready (base : Nat) (whole : List Char) (r : Region) (tokens : List Located)
    (levels fuel : Nat) : Prop where
  text : ∃ offset text all, Embedded base whole offset text ∧ tokenizeAt offset text = .ok all ∧
    tokens <:+ all ∧ r.limit = offset + byteLength text
  budget : 8 * weight tokens + levels ≤ fuel

/-- The segments belong to the template in a token of such a text, and the fuel is enough for them. -/
structure TemplateReady (base : Nat) (whole : List Char) (segments : List Segment) (fuel : Nat) :
    Prop where
  embedded : ∀ segment ∈ segments, ∀ place expr, segment.embedded? = some (place, expr) →
    Embedded base whole place expr
  malformed : ∀ e, .malformed e ∈ segments → Blames base whole e
  budget : Template.fuel segments ≤ fuel

namespace Ready

theorem inside (h : Ready base whole r tokens levels fuel) :
    Ready base whole r.inside tokens levels fuel :=
  ⟨h.text, h.budget⟩

theorem suffix (h : Ready base whole r tokens levels fuel) (hsuffix : tokens' <:+ tokens) :
    Ready base whole r tokens' levels fuel := by
  obtain ⟨offset, text, all, hembedded, hall, htokens, hlimit⟩ := h.text
  have hweight := weight_le_of_suffix hsuffix
  refine ⟨⟨offset, text, all, hembedded, hall, hsuffix.trans htokens, hlimit⟩, ?_⟩
  have hbudget := h.budget
  omega

/-- A call that reads no token before goes down one level. -/
theorem down (h : Ready base whole r tokens (levels + 1) (fuel + 1)) :
    Ready base whole r tokens levels fuel :=
  ⟨h.text, Nat.le_of_succ_le_succ h.budget⟩

/-- A token that was read pays for any level. -/
theorem tail {ts : List Located} (h : Ready base whole r (t :: ts) levels (fuel + 1))
    (hlevels : levels' ≤ 7) : Ready base whole r ts levels' fuel := by
  refine ⟨(h.suffix (List.suffix_cons t ts)).text, ?_⟩
  have hbudget := h.budget
  have hpos := t.weight_pos
  rw [weight] at hbudget
  omega

theorem behind (h : Ready base whole r tokens levels (fuel + 1)) (hbehind : Behind tokens c)
    (hlevels : levels' ≤ 7) : Ready base whole r c.tokens levels' fuel := by
  obtain ⟨front, t, rfl, -⟩ := hbehind
  exact (h.suffix (List.suffix_append front _)).tail hlevels

/-! ### Errors -/

theorem atEnd {α : Type} {cause : SyntaxError.Cause} (h : Ready base whole r tokens levels fuel)
    (hstage : cause.stage = .grammar) :
    FailsAs (.error (r.atEnd cause) : Except SyntaxError α) (Blames base whole) := by
  obtain ⟨offset, text, all, hembedded, hall, htokens, hlimit⟩ := h.text
  refine .error ⟨offset, text, hembedded, .ending ?_ hstage⟩
  rw [Region.atEnd, hlimit]

theorem atToken {α : Type} {cause : SyntaxError.Cause} (h : Ready base whole r tokens levels fuel)
    (ht : t ∈ tokens) (hstage : cause.stage = .grammar) :
    FailsAs (.error ⟨cause, t.span⟩ : Except SyntaxError α) (Blames base whole) := by
  obtain ⟨offset, text, all, hembedded, hall, htokens, hlimit⟩ := h.text
  exact .error ⟨offset, text, hembedded, .token hall (htokens.subset ht) rfl hstage⟩

/-- A token that was read pays for the template in it. -/
theorem segments (h : Ready base whole r tokens levels (fuel + 1)) (hlevels : 0 < levels)
    (ht : t ∈ tokens) : TemplateReady base whole t.segments fuel := by
  obtain ⟨offset, text, all, hembedded, hall, htokens, hlimit⟩ := h.text
  refine ⟨?_, ?_, ?_⟩
  · intro segment hsegment place expr hplace
    exact .inside hembedded hall (htokens.subset ht) hsegment hplace
  · intro e hsegment
    exact ⟨offset, text, hembedded, .segment hall (htokens.subset ht) hsegment⟩
  · have hsegments := fuel_segments_le t
    have hweight := weight_le_of_mem ht
    have hbudget := h.budget
    omega

theorem mem_of_settle {ts : List Located} (h : (c.settle r).tokens = t :: ts) : t ∈ c.tokens :=
  (keeps_settle r c).suffix.subset (h ▸ List.mem_cons_self)

theorem mem_of_next (h : c.next r = .ok (t, after)) : t ∈ c.tokens := by
  obtain ⟨ts, htokens, -⟩ := Cursor.next_ok_iff.1 h
  exact mem_of_settle htokens

theorem next (h : Ready base whole r c.tokens levels fuel) :
    FailsAs (c.next r) (Blames base whole) := by
  simp only [Cursor.next]
  split
  · exact h.atEnd rfl
  · exact .ok _

/-- A function that looks at the next token has no other token to blame. -/
theorem bindNext {α : Type} {k : Located × Cursor → Except SyntaxError α}
    (h : Ready base whole r c.tokens levels fuel)
    (hk : ∀ t ∈ c.tokens, ∀ c₁, FailsAs (k (t, c₁)) (Blames base whole)) :
    FailsAs (c.next r >>= k) (Blames base whole) := by
  refine .bind h.next ?_
  rintro ⟨t, c₁⟩ hnext
  exact hk t (mem_of_next hnext) c₁

theorem expect (h : Ready base whole r c.tokens levels fuel) (s : Symbol) :
    FailsAs (c.expect r s) (Blames base whole) := by
  refine h.bindNext fun found hfound c₁ => ?_
  dsimp only
  split
  · exact .ok _
  · exact h.atToken hfound rfl

theorem expectKeyword (h : Ready base whole r c.tokens levels fuel) (keyword : String) :
    FailsAs (c.expectKeyword r keyword) (Blames base whole) := by
  refine h.bindNext fun found hfound c₁ => ?_
  dsimp only
  split
  · exact .ok _
  · exact h.atToken hfound rfl

theorem expectIdent (h : Ready base whole r c.tokens levels fuel) :
    FailsAs (c.expectIdent r) (Blames base whole) := by
  refine h.bindNext fun found hfound c₁ => ?_
  dsimp only
  split
  · exact .ok _
  · exact h.atToken hfound rfl

theorem expectKeySeparator (h : Ready base whole r c.tokens levels fuel) :
    FailsAs (Parser.expectKeySeparator r c) (Blames base whole) := by
  refine h.bindNext fun found hfound c₁ => ?_
  dsimp only
  split
  · exact .ok _
  · exact h.atToken hfound rfl

theorem loopVariables (h : Ready base whole r c.tokens levels fuel) :
    FailsAs (Parser.loopVariables r c) (Blames base whole) := by
  refine .bind h.expectIdent ?_
  rintro ⟨first, c₁⟩ hfirst
  dsimp only
  split
  · rename_i c₂ hcomma
    have hsuffix := (keeps_eat? hcomma).suffix.trans (keeps_expectIdent hfirst).suffix
    refine .bind (h.suffix hsuffix).expectIdent ?_
    rintro ⟨second, c₃⟩ _
    exact .ok _
  · exact .ok _

theorem pointSteps (h : Ready base whole r tokens levels fuel) (ht : t ∈ tokens) :
    FailsAs (Parser.pointSteps t) (Blames base whole) := by
  unfold Parser.pointSteps
  split
  · exact .ok _
  · exact .ok _
  · split
    · exact .ok _
    · exact h.atToken ht rfl
  · exact h.atToken ht rfl

end Ready

end

/-! ## Expressions -/

/-- What the functions of the expression parser blame, with some fuel. The numbers are the levels of
the grammar that a call can go down before it reads a token. -/
structure Blaming (base : Nat) (whole : List Char) (fuel : Nat) : Prop where
  expression : ∀ {r c}, Ready base whole r c.tokens 5 fuel →
    FailsAs (expression fuel r c) (Blames base whole)
  binary : ∀ {r c}, Ready base whole r c.tokens 4 fuel → ∀ floor,
    FailsAs (binary fuel r floor c) (Blames base whole)
  operators : ∀ {r c}, Ready base whole r c.tokens 1 fuel → ∀ floor lhs,
    FailsAs (operators fuel r floor lhs c) (Blames base whole)
  unary : ∀ {r c}, Ready base whole r c.tokens 3 fuel → FailsAs (unary fuel r c) (Blames base whole)
  traversal : ∀ {r c}, Ready base whole r c.tokens 2 fuel →
    FailsAs (traversal fuel r c) (Blames base whole)
  steps : ∀ {r c}, Ready base whole r c.tokens 1 fuel → FailsAs (steps fuel r c) (Blames base whole)
  primary : ∀ {r c}, Ready base whole r c.tokens 1 fuel →
    FailsAs (primary fuel r c) (Blames base whole)
  arguments : ∀ {r c}, Ready base whole r c.tokens 6 fuel →
    FailsAs (arguments fuel r c) (Blames base whole)
  tupleItems : ∀ {r c}, Ready base whole r c.tokens 6 fuel → ∀ first,
    FailsAs (tupleItems fuel r first c) (Blames base whole)
  objectItems : ∀ {r c}, Ready base whole r c.tokens 6 fuel → ∀ first,
    FailsAs (objectItems fuel r first c) (Blames base whole)
  comprehension : ∀ {r c}, Ready base whole r c.tokens 6 fuel → ∀ asObject,
    FailsAs (comprehension fuel r asObject c) (Blames base whole)
  template : ∀ {segments}, TemplateReady base whole segments fuel → ∀ r,
    FailsAs (template fuel r segments) (Blames base whole)
  embedded : ∀ {offset text}, Embedded base whole offset text → 8 * text.length + 6 ≤ fuel →
    FailsAs (embedded fuel offset text) (Blames base whole)

namespace Blaming

variable {base : Nat} {whole : List Char} {fuel : Nat} {r : Region} {c : Cursor}

/-- Without fuel no call is ready. -/
theorem zero (base : Nat) (whole : List Char) : Blaming base whole 0 where
  expression h := absurd h.budget (by omega)
  binary h := absurd h.budget (by omega)
  operators h := absurd h.budget (by omega)
  unary h := absurd h.budget (by omega)
  traversal h := absurd h.budget (by omega)
  steps h := absurd h.budget (by omega)
  primary h := absurd h.budget (by omega)
  arguments h := absurd h.budget (by omega)
  tupleItems h := absurd h.budget (by omega)
  objectItems h := absurd h.budget (by omega)
  comprehension h := absurd h.budget (by omega)
  template {segments} h r := by
    cases segments with
    | nil =>
        rw [template_nil]
        exact .ok _
    | cons segment segments =>
        have hbudget := h.budget
        rw [Template.fuel] at hbudget
        omega
  embedded _ h := absurd h (by omega)

/-! ### Operators -/

theorem expression_succ (k : Blaming base whole fuel)
    (h : Ready base whole r c.tokens 5 (fuel + 1)) :
    FailsAs (Parser.expression (fuel + 1) r c) (Blames base whole) := by
  rw [Parser.expression]
  refine .bind (k.binary h.down 0) ?_
  rintro ⟨condition, c₁⟩ hcondition
  dsimp only
  split
  · exact .ok _
  · rename_i c₂ hquestion
    -- The condition has been read, and pays for both branches.
    have h₂ := (behind_eat? hquestion).mono ((stopsBehind fuel).binary hcondition).suffix
    have hready := h.behind h₂ (by decide : 5 ≤ 7)
    refine .bind (k.expression hready) ?_
    rintro ⟨whenTrue, c₃⟩ htrue
    have hsuffix := ((stopsBehind fuel).expression htrue).suffix
    refine .bind ((hready.suffix hsuffix).expect .colon) ?_
    rintro ⟨span, c₄⟩ hcolon
    have hlater := hready.suffix ((keeps_expect hcolon).suffix.trans hsuffix)
    refine .bind (k.expression hlater) ?_
    rintro ⟨whenFalse, c₅⟩ _
    exact .ok _

theorem binary_succ (k : Blaming base whole fuel)
    (h : Ready base whole r c.tokens 4 (fuel + 1)) (floor : Nat) :
    FailsAs (Parser.binary (fuel + 1) r floor c) (Blames base whole) := by
  rw [Parser.binary]
  refine .bind (k.unary h.down) ?_
  rintro ⟨lhs, c₁⟩ hlhs
  exact k.operators (h.behind ((stopsBehind fuel).unary hlhs) (by decide)) floor lhs

theorem operators_succ (k : Blaming base whole fuel)
    (h : Ready base whole r c.tokens 1 (fuel + 1)) (floor : Nat) (lhs : Expr) :
    FailsAs (Parser.operators (fuel + 1) r floor lhs c) (Blames base whole) := by
  rw [Parser.operators]
  split
  · exact .ok _
  · rename_i op c₁ hop
    split
    · exact .ok _
    · -- The operator pays for its right-hand side, and both for what comes behind.
      have h₁ := behind_nextIf? hop fun _ _ => isTrivia_of_binaryOp?
      refine .bind (k.binary (h.behind h₁ (by decide)) op.precedence) ?_
      rintro ⟨rhs, c₂⟩ hrhs
      have h₂ := ((stopsBehind fuel).binary hrhs).mono h₁.suffix
      exact k.operators (h.behind h₂ (by decide)) floor _

theorem unary_succ (k : Blaming base whole fuel)
    (h : Ready base whole r c.tokens 3 (fuel + 1)) :
    FailsAs (Parser.unary (fuel + 1) r c) (Blames base whole) := by
  rw [Parser.unary]
  split
  · exact k.traversal h.down
  · rename_i op c₁ hop
    have h₁ := behind_nextIf? hop fun _ _ => isTrivia_of_unaryOp?
    refine .bind (k.unary (h.behind h₁ (by decide))) ?_
    rintro ⟨operand, c₂⟩ _
    exact .ok _

/-! ### Values and steps -/

theorem traversal_succ (k : Blaming base whole fuel)
    (h : Ready base whole r c.tokens 2 (fuel + 1)) :
    FailsAs (Parser.traversal (fuel + 1) r c) (Blames base whole) := by
  rw [Parser.traversal]
  refine .bind (k.primary h.down) ?_
  rintro ⟨root, c₁⟩ hroot
  have h₁ := (stopsBehind fuel).primary hroot
  refine .bind (k.steps (h.behind h₁ (by decide))) ?_
  rintro ⟨ss, c₂⟩ _
  exact .ok _

theorem steps_succ (k : Blaming base whole fuel)
    (h : Ready base whole r c.tokens 1 (fuel + 1)) :
    FailsAs (Parser.steps (fuel + 1) r c) (Blames base whole) := by
  rw [Parser.steps]
  split
  · rename_i c₁ hdot
    have h₁ := h.behind (behind_eat? hdot) (by decide : 1 ≤ 7)
    refine .bind h₁.next ?_
    rintro ⟨found, c₂⟩ hnext
    refine .bind (h₁.pointSteps (Ready.mem_of_next hnext)) fun first _ => ?_
    refine .bind (k.steps (h₁.suffix (keeps_next hnext).suffix)) ?_
    rintro ⟨rest, c₃⟩ _
    exact .ok _
  · split
    · exact .ok _
    · rename_i c₁ hopen
      have hopen' := behind_eat? hopen
      split
      · rename_i c₂ hsplat
        have h₂ := h.behind ((behind_fullSplat? hsplat).mono hopen'.suffix) (by decide : 1 ≤ 7)
        refine .bind (k.steps h₂) ?_
        rintro ⟨rest, c₃⟩ _
        exact .ok _
      · -- What is between the brackets is read as an expression of its own.
        have h₁ := (h.behind hopen' (by decide : 5 ≤ 7)).inside
        refine .bind (k.expression h₁) ?_
        rintro ⟨index, c₂⟩ hindex
        have hsuffix := ((stopsBehind fuel).expression hindex).suffix
        refine .bind ((h₁.suffix hsuffix).expect .rightBracket) ?_
        rintro ⟨span, c₃⟩ hclose
        have h₃ := (behind_expect hclose).mono (hsuffix.trans hopen'.suffix)
        refine .bind (k.steps (h.behind h₃ (by decide))) ?_
        rintro ⟨rest, c₄⟩ _
        exact .ok _

theorem primary_succ (k : Blaming base whole fuel)
    (h : Ready base whole r c.tokens 1 (fuel + 1)) :
    FailsAs (Parser.primary (fuel + 1) r c) (Blames base whole) := by
  rw [Parser.primary]
  refine .bind h.next ?_
  rintro ⟨found, c₁⟩ hnext
  have hmem := Ready.mem_of_next hnext
  have hsegments := h.segments Nat.zero_lt_one hmem
  unfold Located.segments at hsegments
  -- The token that begins the value pays for what is read behind it.
  have hready (htrivia : found.token.isTrivia = false) {levels : Nat} (hlevels : levels ≤ 7) :
      Ready base whole r c₁.tokens levels fuel :=
    h.behind (behind_next hnext htrivia) hlevels
  dsimp only
  split
  · exact .ok _
  · rename_i raw htoken
    rw [htoken] at hsegments
    refine .bind (k.template hsegments r) fun parts _ => ?_
    exact .ok _
  · rename_i text htoken
    rw [htoken] at hsegments
    refine .bind (k.template hsegments r) fun parts _ => ?_
    exact .ok _
  · rename_i name htoken
    have h₁ : Ready base whole r c₁.tokens 6 fuel := hready (by rw [htoken]; rfl) (by decide)
    split
    · exact .ok _
    split
    · exact .ok _
    split
    · exact .ok _
    split
    · refine .bind (h₁.expect .leftParen) ?_
      rintro ⟨span, c₂⟩ hopen
      have h₂ := (h₁.suffix (keeps_expect hopen).suffix).inside
      refine .bind (k.arguments h₂) ?_
      rintro ⟨args, expand, c₃⟩ _
      exact .ok _
    · exact .ok _
  · rename_i htoken
    have h₁ : Ready base whole r c₁.tokens 6 fuel := hready (by rw [htoken]; rfl) (by decide)
    split
    · refine .bind (k.comprehension h₁.inside false) ?_
      rintro ⟨loop, c₂⟩ _
      exact .ok _
    · refine .bind (k.tupleItems h₁.inside true) ?_
      rintro ⟨items, c₂⟩ _
      exact .ok _
  · rename_i htoken
    have h₁ : Ready base whole r c₁.tokens 6 fuel := hready (by rw [htoken]; rfl) (by decide)
    split
    · refine .bind (k.comprehension h₁.inside true) ?_
      rintro ⟨loop, c₂⟩ _
      exact .ok _
    · refine .bind (k.objectItems h₁.inside true) ?_
      rintro ⟨items, c₂⟩ _
      exact .ok _
  · rename_i htoken
    have h₁ : Ready base whole r c₁.tokens 5 fuel := hready (by rw [htoken]; rfl) (by decide)
    refine .bind (k.expression h₁.inside) ?_
    rintro ⟨inner, c₂⟩ hinner
    have hsuffix := ((stopsBehind fuel).expression hinner).suffix
    refine .bind ((h₁.inside.suffix hsuffix).expect .rightParen) ?_
    rintro ⟨span, c₃⟩ _
    exact .ok _
  · exact h.atToken hmem rfl

/-! ### Between brackets -/

theorem arguments_succ (k : Blaming base whole fuel)
    (h : Ready base whole r c.tokens 6 (fuel + 1)) :
    FailsAs (Parser.arguments (fuel + 1) r c) (Blames base whole) := by
  rw [Parser.arguments]
  split
  · exact .ok _
  · refine .bind (k.expression h.down) ?_
    rintro ⟨arg, c₁⟩ harg
    have h₁ := (stopsBehind fuel).expression harg
    dsimp only
    split
    · rename_i c₂ hdots
      have hsuffix := (keeps_eat? hdots).suffix.trans h₁.suffix
      refine .bind ((h.suffix hsuffix).expect .rightParen) ?_
      rintro ⟨span, c₃⟩ _
      exact .ok _
    · split
      · rename_i c₂ hcomma
        have h₂ := (behind_eat? hcomma).mono h₁.suffix
        refine .bind (k.arguments (h.behind h₂ (by decide))) ?_
        rintro ⟨rest, expand, c₃⟩ _
        exact .ok _
      · refine .bind ((h.suffix h₁.suffix).expect .rightParen) ?_
        rintro ⟨span, c₂⟩ _
        exact .ok _

theorem tupleItems_succ (k : Blaming base whole fuel)
    (h : Ready base whole r c.tokens 6 (fuel + 1)) (first : Bool) :
    FailsAs (Parser.tupleItems (fuel + 1) r first c) (Blames base whole) := by
  rw [Parser.tupleItems]
  have h₀ := h.suffix (keeps_elementDecor (c := c) rfl).suffix
  dsimp only
  split
  · exact .ok _
  · refine .bind (k.expression h₀.down) ?_
    rintro ⟨value, c₁⟩ hvalue
    have h₁ := (stopsBehind fuel).expression hvalue
    dsimp only
    split
    · rename_i c₂ hcomma
      have h₂ := h₀.behind ((behind_eat? hcomma).mono h₁.suffix) (by decide : 6 ≤ 7)
      have hnote := h₂.suffix (keeps_sameLineComment (c := c₂) rfl).suffix
      refine .bind (k.tupleItems hnote false) ?_
      rintro ⟨rest, c₃⟩ _
      exact .ok _
    · have hnote := (keeps_elementDecor (c := c₁.sameLineComment.2) rfl).suffix.trans
        (keeps_sameLineComment (c := c₁) rfl).suffix
      have h₂ := h₀.suffix (hnote.trans h₁.suffix)
      refine .bind (Ready.expect (c := Cursor.addStray _ _) h₂ .rightBracket) ?_
      rintro ⟨span, c₂⟩ _
      exact .ok _

theorem entryKey_blames (k : Blaming base whole fuel) (h : Ready base whole r c.tokens 5 fuel) :
    FailsAs (entryKey fuel r c) (Blames base whole) := by
  unfold entryKey
  split
  · exact h.expectIdent.map
  · exact (k.expression h).map

theorem objectItems_succ (k : Blaming base whole fuel)
    (h : Ready base whole r c.tokens 6 (fuel + 1)) (first : Bool) :
    FailsAs (Parser.objectItems (fuel + 1) r first c) (Blames base whole) := by
  rw [Parser.objectItems_succ]
  have h₀ := h.suffix (keeps_elementDecor (c := c) rfl).suffix
  dsimp only
  split
  · exact .ok _
  · refine .bind (entryKey_blames k h₀.down) ?_
    rintro ⟨key, c₁⟩ hkey
    have hkey' := ((keeping fuel).keeps_entryKey hkey).suffix
    refine .bind (h₀.suffix hkey').expectKeySeparator fun c₂ hseparator => ?_
    have hentry := (keeps_expectKeySeparator hseparator).suffix.trans hkey'
    refine .bind (k.expression (h₀.suffix hentry).down) ?_
    rintro ⟨value, c₃⟩ hvalue
    have h₃ := ((stopsBehind fuel).expression hvalue).mono hentry
    -- The comma may be missing; the key pays for the next entry.
    have hnote := (h₀.behind h₃ (by decide : 6 ≤ 7)).suffix
      ((keeps_sameLineComment rfl).suffix.trans (keeps_optional r .comma c₃).suffix)
    refine .bind (k.objectItems hnote false) ?_
    rintro ⟨rest, c₄⟩ _
    exact .ok _

theorem loopKey_blames (k : Blaming base whole fuel) (h : Ready base whole r c.tokens 5 fuel)
    (asObject : Bool) : FailsAs (loopKey fuel r asObject c) (Blames base whole) := by
  unfold loopKey
  split
  · refine .bind (k.expression h) ?_
    rintro ⟨key, c₁⟩ hkey
    have hsuffix := ((stopsBehind fuel).expression hkey).suffix
    refine .bind ((h.suffix hsuffix).expect .fatArrow) ?_
    rintro ⟨span, c₂⟩ _
    exact .ok _
  · exact .ok _

theorem loopFilter_blames (k : Blaming base whole fuel) (h : Ready base whole r c.tokens 5 fuel) :
    FailsAs (loopFilter fuel r c) (Blames base whole) := by
  unfold loopFilter
  split
  · rename_i c₁ hword
    refine .bind (k.expression (h.suffix (keeps_nextIf? hword fun _ _ => isTrivia_of_accepted rfl).suffix)) ?_
    rintro ⟨condition, c₂⟩ _
    exact .ok _
  · exact .ok _

theorem comprehension_succ (k : Blaming base whole fuel)
    (h : Ready base whole r c.tokens 6 (fuel + 1)) (asObject : Bool) :
    FailsAs (Parser.comprehension (fuel + 1) r asObject c) (Blames base whole) := by
  rw [Parser.comprehension_succ]
  -- Its parts are read one after the other, each from what the one before has left.
  have hready := h.down
  refine .bind (hready.expectKeyword "for") fun c₁ hfor => ?_
  have h₁ := (keeps_expectKeyword hfor).suffix
  refine .bind (hready.suffix h₁).loopVariables ?_
  rintro ⟨keyVar, valueVar, c₂⟩ hvariables
  have h₂ := (keeps_loopVariables hvariables).suffix.trans h₁
  refine .bind ((hready.suffix h₂).expectKeyword "in") fun c₃ hin => ?_
  have h₃ := (keeps_expectKeyword hin).suffix.trans h₂
  refine .bind (k.expression (hready.suffix h₃)) ?_
  rintro ⟨collection, c₄⟩ hcollection
  have h₄ := ((keeping fuel).expression hcollection).suffix.trans h₃
  refine .bind ((hready.suffix h₄).expect .colon) ?_
  rintro ⟨span, c₅⟩ hcolon
  have h₅ := (keeps_expect hcolon).suffix.trans h₄
  refine .bind (loopKey_blames k (hready.suffix h₅) asObject) ?_
  rintro ⟨key, c₆⟩ hkey
  have h₆ := (Keeping.keeps_loopKey (keeping fuel) hkey).suffix.trans h₅
  refine .bind (k.expression (hready.suffix h₆)) ?_
  rintro ⟨value, c₇⟩ hvalue
  have h₇ := ((keeping fuel).expression hvalue).suffix.trans h₆
  have hdots : (loopDots r asObject c₇).2.tokens <:+ c.tokens :=
    (Keeping.keeps_loopDots rfl).suffix.trans h₇
  refine .bind (loopFilter_blames k (hready.suffix hdots)) ?_
  rintro ⟨condition, c₈⟩ hcondition
  have h₈ := (Keeping.keeps_loopFilter (keeping fuel) hcondition).suffix.trans hdots
  refine .bind ((hready.suffix h₈).expect _) ?_
  rintro ⟨span', c₉⟩ _
  exact .ok _

/-! ### Templates -/

theorem segmentPart_blames (k : Blaming base whole fuel) {segment : Segment}
    {segments : List Segment} (h : TemplateReady base whole (segment :: segments) (fuel + 1)) :
    FailsAs (segmentPart fuel segment) (Blames base whole) := by
  have hbudget := h.budget
  rw [Template.fuel] at hbudget
  have hembedded (place : Nat) (expr : List Char) (hplace : segment.embedded? = some (place, expr)) :
      FailsAs (Parser.embedded fuel place expr) (Blames base whole) := by
    refine k.embedded (h.embedded segment List.mem_cons_self place expr hplace) ?_
    rw [hplace] at hbudget
    simp only [Option.elim_some] at hbudget
    omega
  cases segment with
  | literal text => exact .ok _
  | interpolation stripLeft stripRight place expr => exact (hembedded place expr rfl).map
  | directive head place expr tail => exact (hembedded place expr rfl).map
  | verbatim text => exact .ok _
  | malformed error => exact .error (h.malformed error List.mem_cons_self)

theorem template_succ (k : Blaming base whole fuel) {segments : List Segment}
    (h : TemplateReady base whole segments (fuel + 1)) (r : Region) :
    FailsAs (Parser.template (fuel + 1) r segments) (Blames base whole) := by
  cases segments with
  | nil =>
      rw [template_nil]
      exact .ok _
  | cons segment segments =>
      rw [template_cons]
      refine .bind (segmentPart_blames k h) fun part _ => ?_
      have hrest : TemplateReady base whole segments fuel := by
        have hbudget := h.budget
        rw [Template.fuel] at hbudget
        exact ⟨fun other hother => h.embedded other (List.mem_cons_of_mem _ hother),
          fun e he => h.malformed e (List.mem_cons_of_mem _ he), by omega⟩
      refine .bind (k.template hrest r) fun parts _ => ?_
      exact .ok _

theorem mem_of_peek? {t : Located} (h : c.peek? r = some t) : t ∈ c.tokens :=
  (keeps_settle r c).suffix.subset (List.mem_of_head? h)

theorem embedded_succ (k : Blaming base whole fuel) {offset : Nat} {text : List Char}
    (h : Embedded base whole offset text) (hfuel : 8 * text.length + 6 ≤ fuel + 1) :
    FailsAs (Parser.embedded (fuel + 1) offset text) (Blames base whole) := by
  rw [Parser.embedded]
  refine .bind (fun e he => ⟨offset, text, h, .lexical he⟩) fun tokens htokens => ?_
  have hweight := weight_le_length htokens
  have hready : Ready base whole ⟨true, offset + byteLength text⟩ tokens 5 fuel :=
    ⟨⟨offset, text, tokens, h, htokens, List.suffix_rfl, rfl⟩, by omega⟩
  refine .bind (k.expression (c := .ofTokens tokens) hready) ?_
  rintro ⟨e, c⟩ he
  have hlater := hready.suffix ((stopsBehind fuel).expression he).suffix
  dsimp only
  split
  · rename_i extra hextra
    exact hlater.atToken (mem_of_peek? hextra) rfl
  · exact .ok _

theorem succ (k : Blaming base whole fuel) : Blaming base whole (fuel + 1) where
  expression := k.expression_succ
  binary := k.binary_succ
  operators := k.operators_succ
  unary := k.unary_succ
  traversal := k.traversal_succ
  steps := k.steps_succ
  primary := k.primary_succ
  arguments := k.arguments_succ
  tupleItems := k.tupleItems_succ
  objectItems := k.objectItems_succ
  comprehension := k.comprehension_succ
  template := k.template_succ
  embedded := k.embedded_succ

end Blaming

theorem blaming (base : Nat) (whole : List Char) (fuel : Nat) : Blaming base whole fuel := by
  induction fuel with
  | zero => exact .zero base whole
  | succ fuel ih => exact ih.succ

/-- A template that is read alone: a segment is malformed, or one of the expressions is at fault. -/
theorem template_blames {segments : List Segment} {fuel : Nat}
    (hfuel : Template.fuel segments ≤ fuel) (r : Region) :
    FailsAs (template fuel r segments) fun e => .malformed e ∈ segments ∨
      ∃ segment ∈ segments, ∃ place expr, segment.embedded? = some (place, expr) ∧
        Blames place expr e := by
  intro e he
  induction segments generalizing fuel with
  | nil =>
      rw [template_nil] at he
      cases he
  | cons segment segments ih =>
      rw [Template.fuel] at hfuel
      obtain ⟨fuel, rfl⟩ := Nat.exists_eq_add_one.2 (Nat.lt_of_lt_of_le (by omega : 0 < _) hfuel)
      rw [template_cons] at he
      -- The budget of the segments is enough for the expression that is embedded in this one.
      have hembedded (place : Nat) (expr : List Char)
          (hplace : segment.embedded? = some (place, expr)) :
          FailsAs (Parser.embedded fuel place expr) (Blames place expr) := by
        refine (blaming place expr fuel).embedded .whole ?_
        rw [hplace] at hfuel
        simp only [Option.elim_some] at hfuel
        omega
      rcases bind_eq_error.1 he with he | ⟨part, -, he⟩
      · cases segment with
        | literal text => cases he
        | verbatim text => cases he
        | interpolation stripLeft stripRight place expr =>
            exact .inr ⟨_, List.mem_cons_self, place, expr, rfl,
              hembedded place expr rfl e (map_eq_error.1 he)⟩
        | directive head place expr tail =>
            exact .inr ⟨_, List.mem_cons_self, place, expr, rfl,
              hembedded place expr rfl e (map_eq_error.1 he)⟩
        | malformed error =>
            obtain rfl := Except.error.inj he
            exact .inl List.mem_cons_self
      · rcases bind_eq_error.1 he with he | ⟨parts, -, he⟩
        · rcases ih (by omega) he with hmem | ⟨other, hother, hblames⟩
          · exact .inl (List.mem_cons_of_mem _ hmem)
          · exact .inr ⟨other, List.mem_cons_of_mem _ hother, hblames⟩
        · cases he

/-! ## Bodies -/

section
variable {base : Nat} {whole : List Char} {fuel : Nat} {r : Region} {c : Cursor}

theorem labels_blames {tokens : List Located}
    (h : Ready base whole r tokens 1 (fuel + 1)) (type : String) :
    FailsAs (labels fuel r type tokens) (Blames base whole) := by
  induction tokens with
  | nil => exact h.atEnd rfl
  | cons t ts ih =>
      have hrest := ih (h.suffix (List.suffix_cons t ts))
      have hsegments := h.segments Nat.zero_lt_one List.mem_cons_self
      unfold Located.segments at hsegments
      rw [labels]
      split
      · rename_i raw htoken
        rw [htoken] at hsegments
        refine .bind ((blaming base whole fuel).template hsegments r) fun parts _ => ?_
        dsimp only
        split
        · exact h.atToken List.mem_cons_self rfl
        · refine .bind hrest ?_
          rintro ⟨rest, ts'⟩ _
          exact .ok _
      · refine .bind hrest ?_
        rintro ⟨rest, ts'⟩ _
        exact .ok _
      · exact .ok _
      · exact h.atToken List.mem_cons_self rfl

theorem checkItemEnd_blames {levels : Nat} (h : Ready base whole r c.tokens levels fuel)
    (inBlock : Bool) : FailsAs (checkItemEnd inBlock c) (Blames base whole) := by
  unfold checkItemEnd
  split
  · exact .ok _
  · rename_i t ts htokens
    split
    · exact .ok _
    · exact h.atToken (htokens ▸ List.mem_cons_self) rfl

/-- What the functions for bodies blame, with some fuel. -/
structure BlamingItems (base : Nat) (whole : List Char) (fuel : Nat) : Prop where
  body : ∀ {r c}, Ready base whole r c.tokens 1 fuel → ∀ inBlock first gap,
    FailsAs (body fuel r inBlock first gap c) (Blames base whole)
  item : ∀ {r c}, Ready base whole r c.tokens 1 fuel → ∀ name span,
    FailsAs (item fuel r name span c) (Blames base whole)

namespace BlamingItems

theorem zero (base : Nat) (whole : List Char) : BlamingItems base whole 0 where
  body h := absurd h.budget (by omega)
  item h := absurd h.budget (by omega)

theorem body_succ (k : BlamingItems base whole fuel)
    (h : Ready base whole r c.tokens 1 (fuel + 1)) (inBlock first : Bool) (gap : Gap) :
    FailsAs (Parser.body (fuel + 1) r inBlock first gap c) (Blames base whole) := by
  rw [Parser.body]
  split
  · split
    · exact h.atEnd rfl
    · exact .ok _
  · rename_i t ts htokens
    rw [htokens] at h
    have hrest : Ready base whole r ts 1 fuel := h.tail (by decide)
    dsimp only
    split
    · exact k.body hrest inBlock first _
    · exact k.body hrest inBlock first _
    · exact k.body hrest inBlock first _
    · refine .bind (k.item hrest _ _) ?_
      rintro ⟨it, c₁⟩ hitem
      have hsuffix := (keeps_sameLineComment (c := c₁) rfl).suffix.trans ((keepingItems fuel).item hitem).2.suffix
      refine .bind (checkItemEnd_blames (hrest.suffix hsuffix) inBlock) fun _ _ => ?_
      refine .bind (k.body (c := ⟨_, [], _⟩) (hrest.suffix hsuffix) inBlock false {}) ?_
      rintro ⟨rest, c₂⟩ _
      exact .ok _
    · split
      · exact .ok _
      · exact h.atToken List.mem_cons_self rfl

theorem item_succ (k : BlamingItems base whole fuel)
    (h : Ready base whole r c.tokens 1 (fuel + 1)) (name : String) (span : Span) :
    FailsAs (Parser.item (fuel + 1) r name span c) (Blames base whole) := by
  rw [Parser.item]
  split
  · rename_i c₁ hequals
    have h₁ := h.behind (behind_eat? hequals) (by decide : 5 ≤ 7)
    refine .bind ((blaming base whole fuel).expression h₁) ?_
    rintro ⟨value, c₂⟩ _
    exact .ok _
  · refine .bind (labels_blames h name) ?_
    rintro ⟨ls, ts⟩ hlabels
    have hheader := (labels_comment hlabels).2
    refine .bind (Ready.expect (h.suffix hheader) .leftBrace) ?_
    rintro ⟨start, c₁⟩ hopen
    have h₁ := h.behind ((behind_expect hopen).mono hheader) (by decide : 1 ≤ 7)
    refine .bind (k.body h₁ true true {}) ?_
    rintro ⟨content, c₂⟩ hcontent
    have h₂ := h₁.suffix ((keepingItems fuel).body hcontent).suffix
    refine .bind (h₂.expect .rightBrace) ?_
    rintro ⟨stop, c₃⟩ _
    exact .ok _

end BlamingItems

theorem blamingItems (base : Nat) (whole : List Char) (fuel : Nat) :
    BlamingItems base whole fuel := by
  induction fuel with
  | zero => exact .zero base whole
  | succ fuel ih => exact ⟨ih.body_succ, ih.item_succ⟩

end

end Parser

/-! ## Sources -/

theorem parseBody_blames (source : String) :
    FailsAs (parseBody source) (Blames 0 source.toList) := by
  refine .bind (fun e he => ⟨0, source.toList, .whole, .lexical he⟩) fun tokens htokens => ?_
  have hweight := weight_le_length htokens
  have hready : Parser.Ready 0 source.toList ⟨false, byteLength source.toList⟩ tokens 1
      (Parser.fuelFor source.toList.length) := by
    refine ⟨⟨0, source.toList, tokens, .whole, htokens, List.suffix_rfl, ?_⟩, ?_⟩
    · rw [Nat.zero_add]
    · rw [Parser.fuelFor]
      omega
  refine .bind ((Parser.blamingItems ..).body (c := .ofTokens tokens) hready false true {}) ?_
  rintro ⟨content, c⟩ _
  exact .ok _

theorem parseExpr_blames (source : String) :
    FailsAs (parseExpr source) (Blames 0 source.toList) := by
  refine (Parser.blaming ..).embedded .whole ?_
  rw [Parser.fuelFor]
  omega

/-- What is read as an expression of its own is in the source where its span says, and an error
points into the source, or into the embedded text that is at fault for it. -/
theorem parse_errors_within (source : String) :
    (∀ offset text, Embedded 0 source.toList offset text →
      Span.slice? ⟨offset, offset + byteLength text⟩ source = some (String.ofList text)) ∧
    ∀ e, parseBody source = .error e ∨ parseExpr source = .error e →
      e.span.start ≤ e.span.stop ∧ e.span.stop ≤ byteLength source.toList ∧
      e.cause ≠ .exhausted ∧
      ∃ offset text, Embedded 0 source.toList offset text ∧ FaultIn offset text e ∧
        offset ≤ e.span.start ∧ e.span.stop ≤ offset + byteLength text := by
  have hwhole := StandsAt.whole source
  refine ⟨fun offset text h => (h.standsAt hwhole).slice?_eq, ?_⟩
  intro e he
  have hblames : Blames 0 source.toList e := by
    rcases he with he | he
    · exact parseBody_blames source e he
    · exact parseExpr_blames source e he
  obtain ⟨offset, text, hembedded, hfault⟩ := hblames
  obtain ⟨hstart, hordered, hstop⟩ := hfault.within
  have hlimit := (hembedded.standsAt hwhole).stop_le
  exact ⟨hordered, Nat.le_trans hstop hlimit, hfault.cause_ne_exhausted, offset, text, hembedded,
    hfault, hstart, hstop⟩

/-- A directive in a string in an interpolation in a heredoc, behind characters of two and three
bytes. -/
theorem parse_errors_within_nested :
    let source := "x = <<E\nü $\x7b \"€%\x7b if a b \x7d\" \x7d\nE\n"
    ∃ e, parseBody source = .error e ∧ Span.slice? e.span source = some "b" ∧
      e.span.stop ≤ byteLength source.toList ∧
      ∃ offset text, Embedded 0 source.toList offset text ∧ FaultIn offset text e ∧
        Span.slice? ⟨offset, offset + byteLength text⟩ source = some (String.ofList text) := by
  intro source
  have hparse : (parseBody source).map (fun _ => ()) =
      .error ⟨.unexpectedAfterExpression (.ident "b"), ⟨26, 27⟩⟩ := by
    decide +kernel
  have he := map_eq_error.1 hparse
  obtain ⟨hslices, herrors⟩ := parse_errors_within source
  obtain ⟨-, hstop, -, offset, text, hembedded, hfault, -⟩ := herrors _ (.inl he)
  exact ⟨_, he, by decide +kernel, hstop, offset, text, hembedded, hfault,
    hslices offset text hembedded⟩

end Hcl
end ProviderMigration
