import Mathlib.Data.List.Chain
import ProviderMigration.Proofs.Hcl.Parser.Comment
import ProviderMigration.Proofs.Hcl.Shape
import ProviderMigration.Proofs.Hcl.Template.Segment

/-!
# What is read has the shape that prints as it is

The levels of the parser make the shape. An operand is no binary expression and no conditional
(`unary`), and the loop over operators goes on only with an operator that binds no tighter than what
it has on its left: it has read all that do (`BindsNoTighter`). The segments of a template have no
empty literal and no two in a row, since text is pushed into the literal before it.

* `ReadsShaped` — what each parser function reads with some fuel, by induction on the fuel;
* `parse_wellShaped` — every value of a body that was read, every expression that was read alone, and
  what renaming makes of them.
-/

namespace ProviderMigration
namespace Hcl

/-! ## Segments -/

theorem literalsApart_nil : LiteralsApart [] :=
  ⟨nofun, .nil⟩

theorem literalsApart_cons {a : Option String} {literals : List (Option String)} :
    LiteralsApart (a :: literals) ↔
      a ≠ some "" ∧ (∀ b ∈ literals.head?, a = none ∨ b = none) ∧ LiteralsApart literals := by
  constructor
  · rintro ⟨hnonempty, hapart⟩
    obtain ⟨hhead, htail⟩ := List.isChain_cons.1 hapart
    exact ⟨fun ha => hnonempty "" (by simp [ha]) rfl, hhead,
      fun text htext => hnonempty text (List.mem_cons_of_mem _ htext), htail⟩
  · rintro ⟨ha, hhead, hnonempty, htail⟩
    refine ⟨fun text htext => ?_, List.isChain_cons.2 ⟨hhead, htail⟩⟩
    rcases List.mem_cons.1 htext with rfl | htext
    · exact fun hempty => ha (congrArg some hempty)
    · exact hnonempty text htext

namespace Template

def Segment.literal? : Segment → Option String
  | .literal text => some (String.ofList text)
  | _ => none

theorem literalsApart_pushLiteral {front : List Char} (hfront : front ≠ [])
    {segments : List Segment} (h : LiteralsApart (segments.map Segment.literal?)) :
    LiteralsApart ((pushLiteral front segments).map Segment.literal?) := by
  have hempty (text : List Char) : some (String.ofList (front ++ text)) ≠ some "" := by
    simp [hfront]
  unfold pushLiteral
  split
  · rename_i text segments
    obtain ⟨-, hhead, htail⟩ := literalsApart_cons.1 h
    exact literalsApart_cons.2 ⟨hempty text, by simpa [Segment.literal?] using hhead, htail⟩
  · rename_i hother
    refine literalsApart_cons.2 ⟨by simpa [Segment.literal?] using hempty [], ?_, h⟩
    cases segments with
    | nil => simp
    | cons segment segments =>
        cases segment with
        | literal text => exact absurd rfl (hother text segments)
        | _ => simp [Segment.literal?]

/-- A segment that is no literal may stand before anything. -/
theorem literalsApart_sequence {segment : Segment} (hnone : segment.literal? = none)
    {segments : List Segment} (h : LiteralsApart (segments.map Segment.literal?)) :
    LiteralsApart ((segment :: segments).map Segment.literal?) := by
  rw [List.map_cons, hnone]
  exact literalsApart_cons.2 ⟨nofun, fun _ _ => .inl rfl, h⟩

theorem literal?_directive (offset : Nat) (inside : List Char) :
    (directive offset inside).literal? = none := by
  unfold directive
  dsimp only
  split <;> rfl

theorem literalsApart_split (escapes : Bool) (offset : Nat) (raw : List Char) :
    LiteralsApart ((split escapes offset raw).map Segment.literal?) := by
  have hsplits := splits escapes offset raw
  generalize split escapes offset raw = segments at hsplits ⊢
  induction hsplits with
  | nil => exact literalsApart_nil
  | doubled _ _ ih => exact literalsApart_pushLiteral (by simp) ih
  | unclosed | invalidEscape => exact literalsApart_sequence rfl literalsApart_nil
  | sequence _ _ _ ih =>
      refine literalsApart_sequence ?_ ih
      split
      · exact literal?_directive _ _
      · rfl
  | escape _ _ _ ih => exact literalsApart_pushLiteral (by simp) ih
  | plain _ _ _ _ ih => exact literalsApart_pushLiteral (by simp) ih

end Template

/-! ## Expressions -/

namespace Parser

open Template (Segment)

/-- A binary operator that comes next binds no tighter than `strength`. -/
def BindsNoTighter (r : Region) (c : Cursor) (strength : Nat) : Prop :=
  ∀ op after, c.nextIf? r binaryOp? = some (op, after) → op.precedence ≤ strength

/-- The parts of a template that was cut into the segments. -/
structure PartsShaped (segments : List Segment) (parts : List TemplatePart) : Prop where
  literals : parts.map TemplatePart.literal? = segments.map Segment.literal?
  exprs : ∀ e ∈ parts.filterMap TemplatePart.expr?, e.WellShaped

/-- What the functions of the expression parser read, with some fuel. What is read above a floor
binds tighter than the floor, and the operator after it does not. -/
structure ReadsShaped (fuel : Nat) : Prop where
  expression : ∀ {r c e after}, expression fuel r c = .ok (e, after) → e.WellShaped
  binary : ∀ {r floor c e after}, floor < maxStrength → binary fuel r floor c = .ok (e, after) →
    e.WellShaped ∧ floor < e.strength ∧ BindsNoTighter r after floor
  operators : ∀ {r floor lhs c e after}, lhs.WellShaped → floor < lhs.strength →
    BindsNoTighter r c lhs.strength → operators fuel r floor lhs c = .ok (e, after) →
    e.WellShaped ∧ floor < e.strength ∧ BindsNoTighter r after floor
  unary : ∀ {r c e after}, unary fuel r c = .ok (e, after) →
    e.WellShaped ∧ e.strength = maxStrength
  traversal : ∀ {r c e after}, traversal fuel r c = .ok (e, after) →
    e.WellShaped ∧ e.strength = maxStrength
  steps : ∀ {r c ss after}, steps fuel r c = .ok (ss, after) →
    ∀ e ∈ ss.filterMap Step.index?, e.WellShaped
  primary : ∀ {r c e after}, primary fuel r c = .ok (e, after) → e.WellShaped ∧ e.IsPrimary
  arguments : ∀ {r c args expand after}, arguments fuel r c = .ok (args, expand, after) →
    ∀ e ∈ args, e.WellShaped
  tupleItems : ∀ {r first c items after}, tupleItems fuel r first c = .ok (items, after) →
    ∀ item ∈ items, item.value.WellShaped
  objectItems : ∀ {r first c items after}, objectItems fuel r first c = .ok (items, after) →
    ∀ item ∈ items, ∀ e ∈ item.exprs, e.WellShaped
  comprehension : ∀ {r asObject c loop after},
    comprehension fuel r asObject c = .ok (loop, after) → ∀ e ∈ loop.exprs, e.WellShaped
  template : ∀ {r segments parts}, template fuel r segments = .ok parts →
    PartsShaped segments parts
  embedded : ∀ {offset text e}, embedded fuel offset text = .ok e → e.WellShaped

theorem partsShaped_nil : PartsShaped [] [] :=
  ⟨rfl, by simp⟩

namespace ReadsShaped

theorem zero : ReadsShaped 0 where
  expression h := by simp [Parser.expression] at h
  binary _ h := by simp [Parser.binary] at h
  operators _ _ _ h := by simp [Parser.operators] at h
  unary h := by simp [Parser.unary] at h
  traversal h := by simp [Parser.traversal] at h
  steps h := by simp [Parser.steps] at h
  primary h := by simp [Parser.primary] at h
  arguments h := by simp [Parser.arguments] at h
  tupleItems h := by simp [Parser.tupleItems] at h
  objectItems h := by simp [Parser.objectItems] at h
  comprehension h := by simp [Parser.comprehension] at h
  template {r segments parts} h := by
    cases segments with
    | nil =>
        obtain rfl := Except.ok.inj ((template_nil 0 r).symm.trans h)
        exact partsShaped_nil
    | cons => simp [Parser.template] at h
  embedded h := by simp [Parser.embedded] at h

variable {fuel : Nat} {r : Region} {c after : Cursor} {e : Expr}

/-! ### Operators -/

theorem expression_succ (k : ReadsShaped fuel)
    (h : Parser.expression (fuel + 1) r c = .ok (e, after)) : e.WellShaped := by
  cases expression_ok_iff.1 h with
  | plain hbinary => exact (k.binary (by decide) hbinary).1
  | conditional hcondition _ htrue _ hfalse =>
      obtain ⟨hshaped, hstrength, -⟩ := k.binary (by decide) hcondition
      refine .of_children hstrength ?_
      simpa [Expr.children] using ⟨hshaped, k.expression htrue, k.expression hfalse⟩

theorem binary_succ (k : ReadsShaped fuel) {floor : Nat} (hfloor : floor < maxStrength)
    (h : Parser.binary (fuel + 1) r floor c = .ok (e, after)) :
    e.WellShaped ∧ floor < e.strength ∧ BindsNoTighter r after floor := by
  obtain ⟨lhs, c₁, hlhs, h⟩ := binary_ok_iff.1 h
  obtain ⟨hshaped, hstrength⟩ := k.unary hlhs
  rw [← hstrength] at hfloor
  refine k.operators hshaped hfloor ?_ h
  rw [hstrength]
  exact fun op _ _ => Nat.le_of_lt op.precedence_lt_maxStrength

/-- The loop makes what it has read so far the left operand of the next operator. That operator
binds no tighter than it, and the right operand is read above the operator. -/
theorem operators_succ (k : ReadsShaped fuel) {floor : Nat} {lhs : Expr} (hlhs : lhs.WellShaped)
    (hfloor : floor < lhs.strength) (hnext : BindsNoTighter r c lhs.strength)
    (h : Parser.operators (fuel + 1) r floor lhs c = .ok (e, after)) :
    e.WellShaped ∧ floor < e.strength ∧ BindsNoTighter r after floor := by
  cases operators_ok_iff.1 h with
  | done hnone =>
      refine ⟨hlhs, hfloor, fun op after hop => ?_⟩
      rw [hnone] at hop
      cases hop
  | looser hop hle =>
      refine ⟨hlhs, hfloor, fun op' after hop' => ?_⟩
      obtain ⟨rfl, -⟩ := Prod.mk.inj (Option.some.inj (hop.symm.trans hop'))
      exact hle
  | @goesOn op rhs _ _ _ _ hop hlt hrhs hrest =>
      obtain ⟨hright, hstrength, hnext'⟩ := k.binary op.precedence_lt_maxStrength hrhs
      have hshaped : (Expr.binary lhs op rhs).WellShaped := by
        refine .of_children ⟨hnext op _ hop, hstrength⟩ ?_
        simpa [Expr.children] using ⟨hlhs, hright⟩
      exact k.operators hshaped hlt hnext' hrest

theorem unary_succ (k : ReadsShaped fuel)
    (h : Parser.unary (fuel + 1) r c = .ok (e, after)) :
    e.WellShaped ∧ e.strength = maxStrength := by
  cases unary_ok_iff.1 h with
  | plain _ htraversal => exact k.traversal htraversal
  | operator _ hoperand =>
      obtain ⟨hshaped, hstrength⟩ := k.unary hoperand
      exact ⟨.of_children hstrength (by simpa [Expr.children] using hshaped), rfl⟩

/-! ### Values and steps -/

theorem traversal_succ (k : ReadsShaped fuel)
    (h : Parser.traversal (fuel + 1) r c = .ok (e, after)) :
    e.WellShaped ∧ e.strength = maxStrength := by
  obtain ⟨root, c₁, ss, hroot, hsteps, rfl⟩ := traversal_ok_iff.1 h
  obtain ⟨hshaped, hprimary⟩ := k.primary hroot
  cases ss with
  | nil => exact ⟨hshaped, hprimary.strength_eq⟩
  | cons step ss =>
      refine ⟨.of_children ⟨hprimary, by simp⟩ ?_, rfl⟩
      exact List.forall_mem_cons.2 ⟨hshaped, k.steps hsteps⟩

/-- The steps after a point hold no expressions. -/
theorem pointSteps_index? {found : Located} {ss : List Step} (h : pointSteps found = .ok ss) :
    ss.filterMap Step.index? = [] := by
  unfold pointSteps at h
  split at h
  · obtain rfl := Except.ok.inj h
    rfl
  · obtain rfl := Except.ok.inj h
    rfl
  · split at h
    · rename_i hindexes
      obtain rfl := Except.ok.inj h
      obtain ⟨indexes, rfl⟩ := exists_of_legacySteps? hindexes
      simp [Step.index?]
    · cases h
  · cases h

theorem steps_succ (k : ReadsShaped fuel) {ss : List Step}
    (h : Parser.steps (fuel + 1) r c = .ok (ss, after)) :
    ∀ e ∈ ss.filterMap Step.index?, e.WellShaped := by
  cases steps_ok_iff.1 h with
  | done => exact List.forall_mem_nil _
  | point _ _ hfirst hrest =>
      rw [List.filterMap_append, pointSteps_index? hfirst]
      exact k.steps hrest
  | splat _ _ _ hrest =>
      have hshaped := k.steps hrest
      exact hshaped
  | index _ _ _ hindex _ hrest =>
      exact List.forall_mem_cons.2 ⟨k.expression hindex, k.steps hrest⟩

theorem primary_succ (k : ReadsShaped fuel)
    (h : Parser.primary (fuel + 1) r c = .ok (e, after)) : e.WellShaped ∧ e.IsPrimary := by
  obtain ⟨found, c₁, -, h⟩ := primary_ok_iff.1 h
  cases h with
  | number | bool | null | var => exact ⟨.of_children trivial (List.forall_mem_nil _), rfl⟩
  | quoted _ hparts | heredoc _ hparts =>
      obtain ⟨hliterals, hexprs⟩ := k.template hparts
      exact ⟨.of_children (by rw [Expr.HasShape, hliterals]; exact Template.literalsApart_split ..)
        hexprs, rfl⟩
  | call _ _ _ _ hargs => exact ⟨.of_children trivial (k.arguments hargs), rfl⟩
  | tupleFor _ _ hloop | objectFor _ _ hloop =>
      exact ⟨.of_children trivial (k.comprehension hloop), rfl⟩
  | tuple _ _ hitems =>
      exact ⟨.of_children trivial (List.forall_mem_map.2 (k.tupleItems hitems)), rfl⟩
  | object _ _ hitems =>
      refine ⟨.of_children trivial fun part hpart => ?_, rfl⟩
      obtain ⟨item, hitem, hpart⟩ := List.mem_flatMap.1 hpart
      exact k.objectItems hitems item hitem part hpart
  | paren _ hinner =>
      exact ⟨.of_children trivial (List.forall_mem_singleton.2 (k.expression hinner)), rfl⟩

/-! ### Between brackets -/

theorem arguments_succ (k : ReadsShaped fuel) {args : List Expr} {expand : Bool}
    (h : Parser.arguments (fuel + 1) r c = .ok (args, expand, after)) :
    ∀ e ∈ args, e.WellShaped := by
  cases arguments_ok_iff.1 h with
  | done => exact List.forall_mem_nil _
  | spread _ harg | last _ harg => exact List.forall_mem_singleton.2 (k.expression harg)
  | cons _ harg _ _ hrest =>
      exact List.forall_mem_cons.2 ⟨k.expression harg, k.arguments hrest⟩

theorem tupleItems_succ (k : ReadsShaped fuel) {first : Bool} {items : List TupleItem}
    (h : Parser.tupleItems (fuel + 1) r first c = .ok (items, after)) :
    ∀ item ∈ items, item.value.WellShaped := by
  cases tupleItems_ok_iff.1 h with
  | done => exact List.forall_mem_nil _
  | cons _ _ hvalue _ _ hrest =>
      exact List.forall_mem_cons.2 ⟨k.expression hvalue, k.tupleItems hrest⟩
  | last _ _ hvalue => exact List.forall_mem_singleton.2 (k.expression hvalue)

theorem entryKey_shaped (k : ReadsShaped fuel) {key : ObjectKey}
    (h : entryKey fuel r c = .ok (key, after)) {value : Expr} (hvalue : value.WellShaped)
    (decor : Decor) : ∀ e ∈ (ObjectItem.mk key value decor).exprs, e.WellShaped := by
  cases entryKey_ok_iff.1 h with
  | name => exact List.forall_mem_singleton.2 hvalue
  | expr _ hkey =>
      exact List.forall_mem_cons.2 ⟨k.expression hkey, List.forall_mem_singleton.2 hvalue⟩

theorem objectItems_succ (k : ReadsShaped fuel) {first : Bool} {items : List ObjectItem}
    (h : Parser.objectItems (fuel + 1) r first c = .ok (items, after)) :
    ∀ item ∈ items, ∀ e ∈ item.exprs, e.WellShaped := by
  cases objectItems_ok_iff.1 h with
  | done => exact List.forall_mem_nil _
  | cons _ _ hkey _ hvalue _ hrest =>
      exact List.forall_mem_cons.2
        ⟨k.entryKey_shaped hkey (k.expression hvalue) _, k.objectItems hrest⟩

theorem loopKey_shaped (k : ReadsShaped fuel) {asObject : Bool} {key : Option Expr}
    (h : loopKey fuel r asObject c = .ok (key, after)) : ∀ e ∈ key.toList, e.WellShaped := by
  cases loopKey_ok_iff.1 h with
  | none => exact List.forall_mem_nil _
  | some _ hkey => exact List.forall_mem_singleton.2 (k.expression hkey)

theorem loopFilter_shaped (k : ReadsShaped fuel) {condition : Option Expr}
    (h : loopFilter fuel r c = .ok (condition, after)) :
    ∀ e ∈ condition.toList, e.WellShaped := by
  cases loopFilter_ok_iff.1 h with
  | none => exact List.forall_mem_nil _
  | some _ hcondition => exact List.forall_mem_singleton.2 (k.expression hcondition)

theorem comprehension_succ (k : ReadsShaped fuel) {asObject : Bool} {loop : Comprehension}
    (h : Parser.comprehension (fuel + 1) r asObject c = .ok (loop, after)) :
    ∀ e ∈ loop.exprs, e.WellShaped := by
  cases comprehension_ok_iff.1 h with
  | parts _ _ _ hcollection _ hkey hvalue _ hcondition =>
      have hfront := List.forall_mem_cons.2 ⟨k.expression hcollection, k.loopKey_shaped hkey⟩
      have hback := List.forall_mem_cons.2 ⟨k.expression hvalue, k.loopFilter_shaped hcondition⟩
      exact List.forall_mem_append.2 ⟨hfront, hback⟩

/-! ### Templates -/

theorem segmentPart_shaped (k : ReadsShaped fuel) {segment : Segment} {part : TemplatePart}
    (h : segmentPart fuel segment = .ok part) :
    part.literal? = segment.literal? ∧ ∀ e ∈ part.expr?, e.WellShaped := by
  cases segment with
  | interpolation stripLeft stripRight offset text =>
      obtain ⟨e, he, rfl⟩ := map_eq_ok.1 h
      exact ⟨rfl, by simpa [TemplatePart.expr?] using k.embedded he⟩
  | directive head offset text tail =>
      obtain ⟨e, he, rfl⟩ := map_eq_ok.1 h
      exact ⟨rfl, by simpa [TemplatePart.expr?] using k.embedded he⟩
  | literal | verbatim =>
      obtain rfl := Except.ok.inj h
      exact ⟨rfl, by rintro _ ⟨⟩⟩
  | malformed => cases h

theorem template_succ (k : ReadsShaped fuel) {segments : List Segment} {parts : List TemplatePart}
    (h : Parser.template (fuel + 1) r segments = .ok parts) : PartsShaped segments parts := by
  cases segments with
  | nil =>
      obtain rfl := Except.ok.inj ((template_nil _ r).symm.trans h)
      exact partsShaped_nil
  | cons segment segments =>
      obtain ⟨part, rest, hpart, hrest, rfl⟩ := template_cons_ok_iff.1 h
      obtain ⟨hliteral, hexpr⟩ := k.segmentPart_shaped hpart
      obtain ⟨hliterals, hexprs⟩ := k.template hrest
      refine ⟨by rw [List.map_cons, hliteral, hliterals, List.map_cons], fun e he => ?_⟩
      obtain ⟨part', hpart', hfound⟩ := List.mem_filterMap.1 he
      rcases List.mem_cons.1 hpart' with rfl | hpart'
      · exact hexpr e hfound
      · exact hexprs e (List.mem_filterMap.2 ⟨part', hpart', hfound⟩)

theorem embedded_succ (k : ReadsShaped fuel) {offset : Nat} {text : List Char}
    (h : Parser.embedded (fuel + 1) offset text = .ok e) : e.WellShaped := by
  obtain ⟨tokens, c, -, hexpr, -⟩ := embedded_ok_iff.1 h
  exact k.expression hexpr

theorem succ (k : ReadsShaped fuel) : ReadsShaped (fuel + 1) where
  expression := k.expression_succ
  binary := k.binary_succ
  operators := k.operators_succ
  unary := k.unary_succ
  traversal := k.traversal_succ
  steps := k.steps_succ
  primary := k.primary_succ
  arguments := k.arguments_succ
  tupleItems := k.tupleItems_succ
  objectItems := k.objectItems_succ
  comprehension := k.comprehension_succ
  template := k.template_succ
  embedded := k.embedded_succ

end ReadsShaped

theorem readsShaped (fuel : Nat) : ReadsShaped fuel := by
  induction fuel with
  | zero => exact .zero
  | succ fuel ih => exact ih.succ

/-! ## Bodies -/

theorem values_withDecor (d : Decor) (it : Item) : (it.withDecor d).values = it.values := by
  cases it with
  | attr => rfl
  | block b => rw [Item.withDecor, Item.values, Item.values, Block.values_eq, Block.values_eq]

/-- What the functions for bodies read, with some fuel. -/
structure ReadsShapedItems (fuel : Nat) : Prop where
  body : ∀ {r inBlock first gap c b after}, body fuel r inBlock first gap c = .ok (b, after) →
    b.WellShaped
  item : ∀ {r name span c it after}, item fuel r name span c = .ok (it, after) →
    ∀ e ∈ it.values, e.WellShaped

namespace ReadsShapedItems

variable {fuel : Nat} {r : Region} {c after : Cursor}

theorem zero : ReadsShapedItems 0 where
  body h := by simp [Parser.body] at h
  item h := by simp [Parser.item] at h

theorem body_succ (k : ReadsShapedItems fuel) {inBlock first : Bool} {gap : Gap} {b : Body}
    (h : Parser.body (fuel + 1) r inBlock first gap c = .ok (b, after)) : b.WellShaped := by
  cases body_ok_iff.1 h with
  | ended | closed => simp [Body.WellShaped, Body.values, itemValues]
  | newline _ _ hrest | comment _ _ hrest => exact k.body hrest
  | item _ _ hitem _ _ hrest =>
      have hshaped := k.body hrest
      rw [Body.WellShaped, Body.values_eq] at hshaped ⊢
      rw [itemValues, values_withDecor]
      exact List.forall_mem_append.2 ⟨k.item hitem, hshaped⟩

theorem item_succ (k : ReadsShapedItems fuel) {name : String} {span : Span} {it : Item}
    (h : Parser.item (fuel + 1) r name span c = .ok (it, after)) :
    ∀ e ∈ it.values, e.WellShaped := by
  cases item_ok_iff.1 h with
  | attr _ hvalue => exact List.forall_mem_singleton.2 ((readsShaped fuel).expression hvalue)
  | block _ _ _ hcontent => exact k.body hcontent

end ReadsShapedItems

theorem readsShapedItems (fuel : Nat) : ReadsShapedItems fuel := by
  induction fuel with
  | zero => exact .zero
  | succ fuel ih => exact ⟨ih.body_succ, ih.item_succ⟩

end Parser

/-! ## Whole texts -/

theorem wellShaped_parseBody {source : String} {b : Body} (h : parseBody source = .ok b) :
    b.WellShaped := by
  obtain ⟨tokens, after, htokens, hbody⟩ := parseBody_ok_iff.1 h
  exact (Parser.readsShapedItems _).body hbody

theorem wellShaped_parseExpr {source : String} {e : Expr} (h : parseExpr source = .ok e) :
    e.WellShaped :=
  (Parser.readsShaped _).embedded h

/-- Whatever is read has the shape in which it prints as it is, and renaming a reference keeps
it. -/
theorem parse_wellShaped (source : String) (old new : List String) :
    (∀ b, parseBody source = .ok b → b.WellShaped) ∧
      (∀ e, parseExpr source = .ok e → e.WellShaped) ∧
      (∀ b : Body, b.WellShaped → (b.renameReference old new).value.WellShaped) ∧
      ∀ e : Expr, e.WellShaped → (e.renameReference old new).value.WellShaped :=
  ⟨fun _ => wellShaped_parseBody, fun _ => wellShaped_parseExpr,
    fun _ h => h.renameReference old new, fun _ h => h.renameReference old new⟩

/-- Operators that associate to the left, a call in a template, and a reference that is renamed. -/
theorem parse_wellShaped_difference :
    let source := "a.b - 1 - c * \"n$\x7bf(a.b) ? 2 : 3\x7d\""
    (∃ b, parseBody ("x = " ++ source) = .ok b ∧ b.WellShaped ∧
      (b.renameReference ["a", "b"] ["d"]).value.WellShaped) ∧
    ∃ e, parseExpr source = .ok e ∧ e.WellShaped ∧
      (e.renameReference ["a", "b"] ["d"]).value.WellShaped := by
  intro source
  have hparseBody : (parseBody ("x = " ++ source)).toOption.isSome = true := by decide +kernel
  have hparseExpr : (parseExpr source).toOption.isSome = true := by decide +kernel
  have hbody := eq_ok_of_isSome hparseBody
  have hexpr := eq_ok_of_isSome hparseExpr
  obtain ⟨bodyShaped, -, renamedBody, -⟩ :=
    parse_wellShaped ("x = " ++ source) ["a", "b"] ["d"]
  obtain ⟨-, exprShaped, -, renamedExpr⟩ := parse_wellShaped source ["a", "b"] ["d"]
  exact ⟨⟨_, hbody, bodyShaped _ hbody, renamedBody _ (bodyShaped _ hbody)⟩,
    ⟨_, hexpr, exprShaped _ hexpr, renamedExpr _ (exprShaped _ hexpr)⟩⟩

end Hcl
end ProviderMigration
