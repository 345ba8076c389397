import ProviderMigration.Hcl.Body
import ProviderMigration.Proofs.Data.List

/-!
# Laws of bodies and blocks

The attributes and blocks among the items of a body, reading a body after a change of one attribute,
and what the type and the name of a resource block depend on.
-/

namespace ProviderMigration
namespace Hcl

/-! ## Items -/

theorem mem_filterMap_attribute? {items : List Item} {a : Attribute} :
    a ∈ items.filterMap Item.attribute? ↔ .attr a ∈ items := by
  refine List.mem_filterMap.trans ⟨?_, fun h => ⟨_, h, rfl⟩⟩
  rintro ⟨item, hitem, ha⟩
  cases item with
  | attr c => exact Option.some.inj ha ▸ hitem
  | block c => cases ha

theorem mem_filterMap_block? {items : List Item} {c : Block} :
    c ∈ items.filterMap Item.block? ↔ .block c ∈ items := by
  refine List.mem_filterMap.trans ⟨?_, fun h => ⟨_, h, rfl⟩⟩
  rintro ⟨item, hitem, hc⟩
  cases item with
  | attr a => cases hc
  | block d => exact Option.some.inj hc ▸ hitem

theorem Body.mem_attributes {b : Body} {a : Attribute} :
    a ∈ b.attributes ↔ .attr a ∈ b.items :=
  mem_filterMap_attribute?

theorem Body.mem_blocks {b : Body} {c : Block} : c ∈ b.blocks ↔ .block c ∈ b.items :=
  mem_filterMap_block?

/-! ## Attributes -/

namespace Body

variable {key other : String}

theorem get?_eq_none_iff {b : Body} : b.get? key = none ↔ b.has key = false := by
  simp [get?, has]

theorem insertionIndex_le (items : List Item) : insertionIndex items ≤ items.length := by
  rw [insertionIndex]
  split
  · omega
  · cases hfirst : items.findIdx? Item.isBlock with
    | none => simp
    | some i => exact Nat.le_of_lt (List.findIdx?_eq_some_iff_findIdx_eq.1 hfirst).1

/-- An attribute that was not there is read where it was inserted. -/
theorem get?_insertAttribute_self (b : Body) (a : Attribute) (hnone : b.has a.key = false) :
    (b.insertAttribute a).get? a.key = some a.value := by
  rcases exists_insertIdx (.attr a) b.items (insertionIndex_le b.items) with
    ⟨before, after, hsplit, hinsert⟩
  -- No attribute in front of the place has that name, so the search comes to the new one.
  have hbefore : (before.filterMap Item.attribute?).find? (·.key == a.key) = none := by
    rw [List.find?_eq_none]
    intro c hc
    have hall : b.attributes.find? (·.key == a.key) = none := by simpa [has, attribute?] using hnone
    rw [attributes, hsplit, List.filterMap_append] at hall
    exact List.find?_eq_none.1 hall c (by simp [hc])
  rw [get?, attribute?, attributes, insertAttribute, hinsert, List.filterMap_append,
    List.find?_append, hbefore]
  simp [Item.attribute?]

/-- A change of the first attribute of a name that keeps its name is not seen under others. -/
theorem get?_modifyAttribute_of_ne (b : Body) {f : Attribute → Attribute}
    (hname : ∀ a, (f a).key = a.key) (hne : other ≠ key) :
    (b.modifyAttribute key f).get? other = b.get? other := by
  rcases b with ⟨items, trailing⟩
  rw [get?, attribute?, attributes, modifyAttribute, get?, attribute?, attributes]
  congr 1
  -- The search for `other` and the search for `key` go over the same items.
  induction items with
  | nil => rfl
  | cons item items ih =>
      cases item with
      | block c => simpa [modifyFirst, Item.isAttribute, Item.attribute?] using ih
      | attr a =>
          by_cases hkey : a.key = key
          · have hother : ¬ a.key = other := fun h => hne (h.symm.trans hkey)
            simp [modifyFirst, Item.isAttribute, Item.attribute?, hkey, hname, hne.symm]
          · by_cases hother : a.key = other
            · simp [modifyFirst, Item.isAttribute, Item.attribute?, hother, hne]
            · simpa [modifyFirst, Item.isAttribute, Item.attribute?, hkey, hother] using ih

end Body

/-! ## Blocks -/

/-- The body itself, or that of a block in it, at any depth. -/
inductive Within (b : Body) : Body → Prop where
  | whole : Within b b
  | block {inner : Body} {c : Block} (h : Within b inner) (hc : .block c ∈ inner.items) :
      Within b c.body

namespace Block

@[simp] theorem resourceType?_withBody (b : Block) (body : Body) :
    (b.withBody body).resourceType? = b.resourceType? := rfl

@[simp] theorem resourceName?_withBody (b : Block) (body : Body) :
    (b.withBody body).resourceName? = b.resourceName? := rfl

@[simp] theorem withBody_body (b : Block) : b.withBody b.body = b := by
  cases b
  rfl

/-- A label is set to the text that it has. -/
theorem setLabel_of_label? {b : Block} {index : Nat} {text : String}
    (h : b.label? index = some text) : b.setLabel index text = b := by
  have hlabels : b.labels.modify index (Label.withText text) = b.labels := by
    apply List.ext_getElem?
    intro i
    rw [List.getElem?_modify]
    split
    · rename_i hindex
      subst hindex
      obtain ⟨label, hlabel, htext⟩ := Option.map_eq_some_iff.1 h
      rw [hlabel]
      cases label <;> simp_all [Label.withText, Label.text]
    · simp
  cases b
  simp_all [setLabel]

theorem resourceType?_setLabel (b : Block) (text : String) :
    (b.setLabel 0 text).resourceType? = none ∨ (b.setLabel 0 text).resourceType? = some text := by
  rw [resourceType?]
  split
  · rw [label?, setLabel, List.getElem?_modify_eq]
    cases b.labels[0]? with
    | none => exact .inl rfl
    | some label => cases label <;> exact .inr rfl
  · exact .inl rfl

theorem resourceType?_setLabel_of_some {b : Block} {type : String}
    (h : b.resourceType? = some type) (text : String) :
    (b.setLabel 0 text).resourceType? = some text := by
  rcases resourceType?_setLabel b text with hnone | hsome
  · rw [resourceType?] at h hnone
    split at h
    · rename_i hresource
      obtain ⟨label, hlabel, -⟩ := Option.map_eq_some_iff.1 h
      have hresource' : (b.setLabel 0 text).isResource = true := hresource
      rw [if_pos hresource', label?, setLabel, List.getElem?_modify_eq, hlabel] at hnone
      simp at hnone
    · simp at h
  · exact hsome

theorem resourceName?_setLabel (b : Block) (text : String) :
    (b.setLabel 0 text).resourceName? = b.resourceName? := by
  have hlabel : (b.setLabel 0 text).label? 1 = b.label? 1 := by
    simp [label?, setLabel]
  have hresource : (b.setLabel 0 text).isResource = b.isResource := rfl
  rw [resourceName?, hlabel, hresource, resourceName?]

/-- The type and the labels of a block say which resource it is. -/
theorem resource_congr {b c : Block} (htype : c.type = b.type) (hlabels : c.labels = b.labels) :
    c.resourceType? = b.resourceType? ∧ c.resourceName? = b.resourceName? := by
  cases b
  cases c
  obtain rfl := htype
  obtain rfl := hlabels
  exact ⟨rfl, rfl⟩

/-- A block with two labels is a resource of the type and the name that they give. -/
theorem resource_of_labels {b : Block} {type name : String} (hresource : b.isResource = true)
    (hlabels : b.labels.map (·.text) = [type, name]) :
    b.resourceType? = some type ∧ b.resourceName? = some name := by
  have hlabel : ∀ i, b.label? i = [type, name][i]? := by
    intro i
    rw [label?, ← hlabels, List.getElem?_map]
  simp [resourceType?, resourceName?, hresource, hlabel]

end Block

/-! ## Resources of a type -/

/-- The resource blocks of a type, in order. -/
def resourcesOf (type : String) (blocks : List Block) : List Block :=
  blocks.filter (·.resourceType? == some type)

end Hcl
end ProviderMigration
