import ProviderMigration.Proofs.Hcl.Keys

/-!
# Edits and unique names

No two attributes of a body may have one name. All edits but one see to that: an attribute that is
made of several blocks is not kept from taking a name that is there already. Without such an edit
the names stay unique however many edits follow one another.

* `Edit` — the edits of a body, and `Edit.run`, several of them;
* `Edit.Collides` — blocks that take the name of an attribute;
* `nodup_keys_apply_iff` — one edit;
* `nodup_keys_run_iff` — a sequence of edits.
-/

namespace ProviderMigration
namespace Hcl

/-- An edit of a body. One that may not apply changes nothing. -/
inductive Edit where
  | rename (old new : String)
  | erase (key : String)
  | eraseAll (keys : List String)
  | ensure (key : String) (value : Expr)
  | set (key : String) (value : Expr)
  | blockToAttribute (name : String)
  | blocksToAttribute (name key : String)
  | attributeToBlock (name : String)

namespace Edit

/-- What the edit makes of a body. -/
def apply (b : Body) : Edit → Body
  | .rename old new => (b.renameAttribute? old new).getD b
  | .erase key => b.eraseAttribute key
  | .eraseAll keys => (b.eraseAttributes keys).value
  | .ensure key value => (b.ensureAttribute? key value).getD b
  | .set key value => b.setAttribute key value
  | .blockToAttribute name => (b.blockToAttribute? name).getD b
  | .blocksToAttribute name key => (b.blocksToAttribute? name key).getD b
  | .attributeToBlock name => (b.attributeToBlock? name).getD b

/-- The edits, one after the other. -/
def run (edits : List Edit) (b : Body) : Body :=
  edits.foldl apply b

/-- The edit turns blocks into an attribute of a name that is taken. -/
def Collides (b : Body) : Edit → Prop
  | .blocksToAttribute name key => b.blocksOf name ≠ [] ∧ key ∈ b.keys
  | _ => False

variable {b : Body} {e : Edit} {edits : List Edit}

/-! ## One edit -/

theorem nodup_of_perm_cons {keys after : List String} {key : String} (hkeys : keys.Nodup)
    (hnew : key ∉ keys) (h : after.Perm (key :: keys)) : after.Nodup :=
  h.nodup_iff.2 (List.nodup_cons.2 ⟨hnew, hkeys⟩)

theorem keys_blocksToAttribute (b : Body) (name key : String) :
    (b.blocksOf name = [] ∧ apply b (.blocksToAttribute name key) = b) ∨
      (b.blocksOf name ≠ [] ∧
        (apply b (.blocksToAttribute name key)).keys.Perm (key :: b.keys)) := by
  rw [apply, Body.blocksToAttribute?, Ne, Body.blocksOf_eq_nil_iff, Bool.not_eq_false]
  cases hany : b.items.any (Item.isBlockOf name) with
  | false => exact .inl ⟨rfl, rfl⟩
  | true => exact .inr ⟨rfl, Body.keys_replaceByAttribute (fun _ => rfl) hany key _ _⟩

theorem keys_attributeToBlock (b : Body) (name : String) :
    (apply b (.attributeToBlock name)).keys = b.keys ∨
      (apply b (.attributeToBlock name)).keys = b.keys.erase name := by
  rw [apply]
  cases hedit : b.attributeToBlock? name with
  | none => exact .inl rfl
  | some after =>
      obtain ⟨a, -, hedit⟩ := Option.bind_eq_some_iff.1 hedit
      obtain ⟨items, -, hedit⟩ := Option.bind_eq_some_iff.1 hedit
      obtain ⟨body, -, hedit⟩ := Option.bind_eq_some_iff.1 hedit
      obtain rfl := Option.some.inj hedit
      exact .inr (Body.keys_modifyFirst_attribute name _ b.items b.trailing)

/-- An edit keeps the names unique, unless it turns blocks into an attribute of a name that is
taken. -/
theorem nodup_keys_apply_iff (h : b.keys.Nodup) :
    (e.apply b).keys.Nodup ↔ ¬ e.Collides b := by
  cases e with
  | blocksToAttribute name key =>
      rcases keys_blocksToAttribute b name key with ⟨hnone, hsame⟩ | ⟨hsome, hperm⟩
      · rw [hsame]
        exact iff_of_true h fun hcollides => hcollides.1 hnone
      · rw [hperm.nodup_iff, List.nodup_cons]
        exact ⟨fun hnodup hcollides => hnodup.1 hcollides.2,
          fun hfree => ⟨fun htaken => hfree ⟨hsome, htaken⟩, h⟩⟩
  -- None of the other edits collides, so each must keep the names unique.
  | rename old new =>
      refine iff_of_true ?_ id
      rw [apply]
      cases hedit : b.renameAttribute? old new with
      | none => exact h
      | some after =>
          obtain ⟨hnew, -, hperm, -⟩ := Body.renameAttribute?_eq_some hedit
          have hfree : new ∉ b.keys.erase old := fun hmem => hnew (List.mem_of_mem_erase hmem)
          exact nodup_of_perm_cons (h.erase old) hfree hperm
  | erase key =>
      refine iff_of_true ?_ id
      rw [apply, Body.keys_eraseAttribute]
      exact h.erase key
  | eraseAll keys =>
      refine iff_of_true ?_ id
      rw [apply, Body.keys_eraseAttributes]
      exact h.diff
  | ensure key value =>
      refine iff_of_true ?_ id
      rcases Body.ensureAttribute?_getD b key value with ⟨-, hsame⟩ | ⟨hnew, hperm, -⟩
      · rw [apply, hsame]
        exact h
      · exact nodup_of_perm_cons h hnew hperm
  | set key value =>
      refine iff_of_true ?_ id
      rcases Body.keys_setAttribute b key value with ⟨-, hsame⟩ | ⟨hnew, hperm⟩
      · rw [apply, hsame]
        exact h
      · exact nodup_of_perm_cons h hnew hperm
  | blockToAttribute name =>
      refine iff_of_true ?_ id
      rcases Body.blockToAttribute?_getD b name with ⟨-, hsame⟩ | ⟨hnew, hperm⟩
      · rw [apply, hsame]
        exact h
      · exact nodup_of_perm_cons h hnew hperm
  | attributeToBlock name =>
      refine iff_of_true ?_ id
      rcases keys_attributeToBlock b name with hsame | herase
      · rw [hsame]
        exact h
      · rw [herase]
        exact h.erase name

/-! ## Sequences of edits -/

theorem run_append (before after : List Edit) (b : Body) :
    run (before ++ after) b = run after (run before b) :=
  List.foldl_append

/-- Without a collision the names are unique in the end. -/
theorem nodup_keys_run (h : b.keys.Nodup)
    (hfree : ∀ before e after, edits = before ++ e :: after → ¬ e.Collides (run before b)) :
    (run edits b).keys.Nodup := by
  induction edits generalizing b with
  | nil => exact h
  | cons e edits ih =>
      refine ih ((nodup_keys_apply_iff h).2 (hfree [] e edits rfl)) ?_
      intro before d after hsplit
      exact hfree (e :: before) d after (by rw [hsplit]; rfl)

/-- The names are unique all along a sequence of edits if and only if no edit turns blocks into an
attribute of a name that is taken. -/
theorem nodup_keys_run_iff (h : b.keys.Nodup) (edits : List Edit) :
    (∀ before after, edits = before ++ after → (run before b).keys.Nodup) ↔
      ∀ before e after, edits = before ++ e :: after → ¬ e.Collides (run before b) := by
  constructor
  · intro hunique before e after hsplit
    have hbefore := hunique before (e :: after) hsplit
    have hafter := hunique (before ++ [e]) after (by simpa using hsplit)
    rw [run_append] at hafter
    exact (nodup_keys_apply_iff hbefore).1 hafter
  · intro hfree before after hsplit
    refine nodup_keys_run h fun front e back hfront => hfree front e (back ++ after) ?_
    rw [hsplit, hfront, List.append_assoc]
    rfl

namespace Sample

/-- A body with an attribute and a block. -/
def body (key type : String) : Body :=
  ⟨[.attr { key := key, value := .tuple [] }, .block (Block.ofType type)], []⟩

end Sample

/-- Blocks that take a free name, and what the edits after that find. -/
theorem nodup_keys_run_iff_kind :
    (Sample.body "kind" "item").keys.Nodup ∧
      (run [.blocksToAttribute "item" "items", .rename "kind" "items", .attributeToBlock "items"]
        (Sample.body "kind" "item")).keys.Nodup := by
  have h : (Sample.body "kind" "item").keys.Nodup := by decide
  refine ⟨h, (nodup_keys_run_iff h _).2 ?_ _ [] (List.append_nil _).symm⟩
  intro before e after hsplit
  rcases before with _ | ⟨_, _ | ⟨_, _ | ⟨_, before⟩⟩⟩ <;> injections <;> subst_vars
  · exact fun hcollides => absurd hcollides.2 (by decide)
  · exact id
  · exact id
  · simp at *

/-- Blocks take the name of an attribute. -/
theorem blocksToAttribute_collides :
    (Sample.body "items" "item").keys.Nodup ∧
      ¬ (run [.blocksToAttribute "item" "items"] (Sample.body "items" "item")).keys.Nodup := by
  decide

end Edit

end Hcl
end ProviderMigration
