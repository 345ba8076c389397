import Mathlib.Data.List.MinMax
import Mathlib.Order.Bounds.Basic
import Mathlib.Order.Nat
import ProviderMigration.Hcl.Printer.Body

/-!
# Runs of aligned attributes

The values of neighbouring attributes are aligned in runs: as many attributes of one line each as
stand together, where a blank line opens a new run. All keys of a run have the width of its widest
one, whatever stands before and behind the run.

* `Joined` — attributes that stand together, `Run` — as many of them as possible;
* `exists_run`, `Run.ext_of_holds` — every attribute of one line is in one run;
* `Run.alignmentWidths_eq` — the widths of the keys before a run, in it and behind it.
-/

namespace ProviderMigration
namespace Hcl
namespace Printer

variable {depth : Nat} {items : List Item}

/-! ## Items that stand alone -/

/-- A block, or an attribute whose value is printed on several lines. -/
def StandsAlone (depth : Nat) : Item → Prop
  | .block _ => True
  | .attr a => '\n' ∈ (a.value.render depth).toList

instance : (item : Item) → Decidable (StandsAlone depth item)
  | .block _ => .isTrue trivial
  | .attr a => inferInstanceAs (Decidable ('\n' ∈ (a.value.render depth).toList))

theorem isMultiline_iff {text : String} : Text.isMultiline text = true ↔ '\n' ∈ text.toList :=
  List.contains_iff_mem

theorem shape_of_standsAlone {item : Item} (h : StandsAlone depth item) :
    shape depth item = .alone := by
  cases item with
  | attr a => rw [shape, if_pos (isMultiline_iff.2 h)]
  | block b => rfl

theorem shape_of_not_standsAlone {item : Item} (h : ¬ StandsAlone depth item) :
    ∃ a, item = .attr a ∧ shape depth item = .inline a.key.length a.decor.blankBefore := by
  cases item with
  | attr a => exact ⟨a, rfl, by rw [shape, if_neg fun hlines => h (isMultiline_iff.1 hlines)]⟩
  | block b => exact absurd trivial h

theorem attr_of_shape_inline {item : Item} {width : Nat} {separated : Bool}
    (h : shape depth item = .inline width separated) :
    ∃ a, item = .attr a ∧ ¬ StandsAlone depth (.attr a) ∧ a.decor.blankBefore = separated := by
  have halone : ¬ StandsAlone depth item := fun halone => by
    rw [shape_of_standsAlone halone] at h
    cases h
  obtain ⟨a, rfl, hshape⟩ := shape_of_not_standsAlone halone
  rw [hshape] at h
  exact ⟨a, rfl, halone, (Shape.inline.inj h).2⟩

/-! ## Runs -/

/-- Attributes of one line each, none of which but the first is behind a blank line. -/
structure Joined (depth : Nat) (attributes : List Attribute) : Prop where
  oneLine : ∀ a ∈ attributes, ¬ StandsAlone depth (.attr a)
  unparted : ∀ a ∈ attributes.tail, a.decor.blankBefore = false

/-- A run among items: neighbouring attributes that are joined, and that are not joined with any
more neighbours. -/
@[ext]
structure Run (depth : Nat) (items : List Item) where
  front : List Item
  attributes : List Attribute
  back : List Item
  items_eq : items = front ++ attributes.map .attr ++ back
  ne_nil : attributes ≠ []
  joined : Joined depth attributes
  maximal : ∀ before after : List Attribute, before.map .attr <:+ front → after.map .attr <+: back →
    Joined depth (before ++ attributes ++ after) → before = [] ∧ after = []

namespace Run

/-- The run has the item of that index. -/
def Holds (r : Run depth items) (i : Nat) : Prop :=
  r.front.length ≤ i ∧ i < r.front.length + r.attributes.length

/-- The width of the widest key. -/
def width (r : Run depth items) : Nat :=
  (r.attributes.map fun a => a.key.length).foldr max 0

end Run

/-- Joined attributes that have attributes in common are joined altogether. -/
theorem Joined.union {front middle back : List Attribute} (hne : middle ≠ [])
    (hfront : Joined depth (front ++ middle)) (hback : Joined depth (middle ++ back)) :
    Joined depth (front ++ middle ++ back) := by
  refine ⟨fun a ha => ?_, fun a ha => ?_⟩
  · rcases List.mem_append.1 ha with ha | ha
    · exact hfront.oneLine a ha
    · exact hback.oneLine a (List.mem_append_right middle ha)
  · rw [List.tail_append_of_ne_nil (by simp [hne])] at ha
    rcases List.mem_append.1 ha with ha | ha
    · exact hfront.unparted a ha
    · refine hback.unparted a ?_
      rw [List.tail_append_of_ne_nil hne]
      exact List.mem_append_right _ ha

/-- Joined attributes are in a run. -/
theorem exists_run_of_joined (front back : List Item) {attributes : List Attribute}
    (hitems : items = front ++ attributes.map .attr ++ back) (hne : attributes ≠ [])
    (hjoined : Joined depth attributes) :
    ∃ r : Run depth items, r.front.length ≤ front.length ∧
      front.length + attributes.length ≤ r.front.length + r.attributes.length := by
  by_cases hmaximal : ∀ before after : List Attribute, before.map .attr <:+ front →
      after.map .attr <+: back → Joined depth (before ++ attributes ++ after) →
      before = [] ∧ after = []
  · exact ⟨⟨front, attributes, back, hitems, hne, hjoined, hmaximal⟩, le_refl _, le_refl _⟩
  · -- They are joined with more neighbours: these are in a run, and there are fewer items left.
    push Not at hmaximal
    obtain ⟨before, after, ⟨front', rfl⟩, ⟨back', rfl⟩, hmore, hgrows⟩ := hmaximal
    have hitems' : items = front' ++ (before ++ attributes ++ after).map .attr ++ back' := by
      simp only [hitems, List.map_append, List.append_assoc]
    have hshrinks : front'.length + back'.length <
        (front' ++ before.map Item.attr).length + (after.map Item.attr ++ back').length := by
      have hsome : 0 < before.length + after.length := by
        rcases before with _ | ⟨first, before⟩
        · have hafter := List.length_pos_iff.2 (hgrows rfl)
          omega
        · simp only [List.length_cons]
          omega
      simp only [List.length_append, List.length_map]
      omega
    obtain ⟨r, hstart, hstop⟩ := exists_run_of_joined front' back' hitems' (by simp [hne]) hmore
    refine ⟨r, ?_, ?_⟩
    · simp only [List.length_append]
      omega
    · simp only [List.length_append, List.length_map] at hstop ⊢
      omega
termination_by front.length + back.length

theorem split_of_getElem? {i : Nat} {item : Item} (h : items[i]? = some item) :
    items = items.take i ++ item :: items.drop (i + 1) ∧ (items.take i).length = i := by
  obtain ⟨hi, hget⟩ := List.getElem?_eq_some_iff.1 h
  refine ⟨?_, List.length_take_of_le (Nat.le_of_lt hi)⟩
  rw [← hget, ← List.drop_eq_getElem_cons hi, List.take_append_drop]

/-- Every attribute of one line is in a run. -/
theorem exists_run {i : Nat} {item : Item} (hitem : items[i]? = some item)
    (halone : ¬ StandsAlone depth item) : ∃ r : Run depth items, r.Holds i := by
  obtain ⟨a, rfl, -⟩ := shape_of_not_standsAlone halone
  obtain ⟨hsplit, hlength⟩ := split_of_getElem? hitem
  have hitems : items = items.take i ++ [a].map .attr ++ items.drop (i + 1) := by
    rwa [List.map_singleton, List.append_assoc, List.singleton_append]
  have hjoined : Joined depth [a] := ⟨by simpa using halone, by simp⟩
  obtain ⟨r, hstart, hstop⟩ :=
    exists_run_of_joined (items.take i) (items.drop (i + 1)) hitems (by simp) hjoined
  rw [hlength] at hstart hstop
  exact ⟨r, hstart, hstop⟩

/-! ## One run for each attribute -/

/-- Attributes in front of others are cut at an item that stands among them. -/
theorem exists_split_of_map_append {attributes : List Attribute} {back front rest : List Item}
    (h : attributes.map Item.attr ++ back = front ++ rest)
    (hlength : front.length < attributes.length) :
    ∃ before behind : List Attribute, attributes = before ++ behind ∧
      front = before.map .attr ∧ rest = behind.map .attr ++ back := by
  rcases List.append_eq_append_iff.1 h with ⟨between, rfl, -⟩ | ⟨behind, hmap, rfl⟩
  · simp only [List.length_append, List.length_map] at hlength
    omega
  · obtain ⟨before, behind, rfl, rfl, rfl⟩ := List.map_eq_append_iff.1 hmap
    exact ⟨before, behind, rfl, rfl, rfl⟩

namespace Run

/-- Of two runs that have an item in common, the one that starts first is the other one. -/
theorem eq_of_front_le {r r' : Run depth items} (hfirst : r.front.length ≤ r'.front.length)
    (hcommon : r'.front.length < r.front.length + r.attributes.length) : r = r' := by
  have hitems : r.front ++ (r.attributes.map .attr ++ r.back) =
      r'.front ++ (r'.attributes.map .attr ++ r'.back) := by
    rw [← List.append_assoc, ← List.append_assoc, ← r.items_eq, ← r'.items_eq]
  -- The items between the two starts are attributes of the first run, `before`.
  obtain ⟨between, hfront', hrest⟩ : ∃ between, r'.front = r.front ++ between ∧
      r.attributes.map .attr ++ r.back = between ++ (r'.attributes.map .attr ++ r'.back) := by
    rcases List.append_eq_append_iff.1 hitems with h | ⟨between, hfront, hrest⟩
    · exact h
    · obtain rfl : between = [] := by
        rw [hfront, List.length_append] at hfirst
        exact List.eq_nil_of_length_eq_zero (by omega)
      exact ⟨[], by simpa using hfront.symm, by simpa using hrest.symm⟩
  have hlength : between.length < r.attributes.length := by
    rw [hfront', List.length_append] at hcommon
    omega
  obtain ⟨before, shared, hattributes, rfl, hshared⟩ := exists_split_of_map_append hrest hlength
  have hne : shared ≠ [] := by
    rintro rfl
    simp [hattributes] at hlength
  have hbefore : before.map .attr <:+ r'.front := ⟨r.front, hfront'.symm⟩
  rcases List.append_eq_append_iff.1 hshared with ⟨between, hmap, hback⟩ | ⟨between, hmap, hback⟩
  · -- The second run stops first: the first one has `before` in front of it and `behind` behind it.
    obtain ⟨own, behind, rfl, hown, rfl⟩ := List.map_eq_append_iff.1 hmap
    obtain rfl := (List.map_inj_right fun _ _ => Item.attr.inj).1 hown
    have hjoined : Joined depth (before ++ r'.attributes ++ behind) := by
      rw [List.append_assoc, ← hattributes]
      exact r.joined
    obtain ⟨rfl, rfl⟩ := r'.maximal before behind hbefore ⟨r.back, hback.symm⟩ hjoined
    exact Run.ext (by simp [hfront']) (by simp [hattributes]) (by simp [hback])
  · -- The first run stops first: both together are joined.
    obtain ⟨own, behind, hattributes', hown, rfl⟩ := List.map_eq_append_iff.1 hmap
    obtain rfl := (List.map_inj_right fun _ _ => Item.attr.inj).1 hown
    have hjoined : Joined depth (before ++ own ++ behind) :=
      Joined.union hne (hattributes ▸ r.joined) (hattributes' ▸ r'.joined)
    obtain ⟨-, rfl⟩ := r.maximal [] behind (List.nil_suffix) ⟨r'.back, hback.symm⟩
      (by simpa [hattributes] using hjoined)
    obtain ⟨rfl, -⟩ := r'.maximal before [] hbefore List.nil_prefix
      (by simpa [hattributes'] using hjoined)
    exact Run.ext (by simp [hfront']) (by simp [hattributes, hattributes']) (by simp [hback])

/-- No item is in two runs. -/
theorem ext_of_holds {r r' : Run depth items} {i : Nat} (h : r.Holds i) (h' : r'.Holds i) :
    r = r' := by
  rcases Nat.le_total r.front.length r'.front.length with hle | hle
  · exact eq_of_front_le hle (Nat.lt_of_le_of_lt h'.1 h.2)
  · exact (eq_of_front_le hle (Nat.lt_of_le_of_lt h.1 h'.2)).symm

end Run

/-! ## Where runs meet -/

/-- A run in front of these shapes goes on with them. -/
def GoesOn (shapes : List Shape) : Prop :=
  ∃ width, shapes.head? = some (.inline width false)

/-- No run goes on from the shapes in front to those behind. -/
def Parted (front back : List Shape) : Prop :=
  ∀ width separated, front.getLast? = some (.inline width separated) → ¬ GoesOn back

theorem runWidth_of_not_goesOn {shapes : List Shape} (h : ¬ GoesOn shapes) :
    runWidth shapes = 0 := by
  cases shapes with
  | nil => rfl
  | cons first shapes =>
      cases first with
      | alone => rfl
      | inline width separated =>
          cases separated with
          | false => exact absurd ⟨width, rfl⟩ h
          | true => rfl

theorem runWidth_append {back : List Shape} (h : ¬ GoesOn back) (front : List Shape) :
    runWidth (front ++ back) = runWidth front := by
  induction front with
  | nil => exact runWidth_of_not_goesOn h
  | cons first front ih =>
      cases first with
      | alone => rfl
      | inline width separated =>
          cases separated with
          | false => rw [List.cons_append, runWidth, runWidth, ih]
          | true => rfl

theorem alignRuns_of_not_goesOn {shapes : List Shape} (h : ¬ GoesOn shapes)
    (current : Option Nat) : alignRuns current shapes = alignRuns none shapes := by
  cases shapes with
  | nil => rfl
  | cons first shapes =>
      cases first with
      | alone => rfl
      | inline width separated =>
          cases separated with
          | false => exact absurd ⟨width, rfl⟩ h
          | true => cases current <;> rfl

theorem alignRuns_append_of_not_goesOn {back : List Shape} (h : ¬ GoesOn back)
    (current : Option Nat) (front : List Shape) :
    alignRuns current (front ++ back) = alignRuns current front ++ alignRuns none back := by
  induction front generalizing current with
  | nil => exact alignRuns_of_not_goesOn h current
  | cons first front ih =>
      cases first with
      | alone => rw [List.cons_append, alignRuns, alignRuns, ih, List.cons_append]
      | inline width separated =>
          simp only [List.cons_append, alignRuns, runWidth_append h, ih]

theorem not_goesOn_alone (shapes : List Shape) : ¬ GoesOn (.alone :: shapes) := by
  rintro ⟨width, h⟩
  cases h

/-- Where no run goes on, the shapes in front and those behind are aligned on their own. -/
theorem alignRuns_append {front back : List Shape} (h : Parted front back) :
    alignRuns none (front ++ back) = alignRuns none front ++ alignRuns none back := by
  rcases List.eq_nil_or_concat front with rfl | ⟨front, last, rfl⟩
  · rfl
  · rw [List.concat_eq_append] at h ⊢
    cases last with
    | alone =>
        -- The runs are parted by the last shape, which is in none.
        rw [List.append_assoc, List.singleton_append,
          alignRuns_append_of_not_goesOn (not_goesOn_alone back),
          alignRuns_append_of_not_goesOn (not_goesOn_alone []), List.append_assoc]
        rfl
    | inline width separated =>
        exact alignRuns_append_of_not_goesOn (h width separated (by simp)) none _

theorem exists_attribute_of_goesOn {items : List Item}
    (h : GoesOn (items.map (shape depth))) :
    ∃ a rest, items = .attr a :: rest ∧ ¬ StandsAlone depth (.attr a) ∧
      a.decor.blankBefore = false := by
  obtain ⟨width, h⟩ := h
  cases items with
  | nil => cases h
  | cons item rest =>
      obtain ⟨a, rfl, halone, hblank⟩ := attr_of_shape_inline (Option.some.inj h)
      exact ⟨a, rest, rfl, halone, hblank⟩

theorem exists_attribute_of_getLast? {items : List Item} {width : Nat} {separated : Bool}
    (h : (items.map (shape depth)).getLast? = some (.inline width separated)) :
    ∃ front a, items = front ++ [.attr a] ∧ ¬ StandsAlone depth (.attr a) := by
  rw [List.getLast?_map, Option.map_eq_some_iff] at h
  obtain ⟨last, hlast, hshape⟩ := h
  obtain ⟨a, rfl, halone, -⟩ := attr_of_shape_inline hshape
  obtain ⟨front, hitems⟩ := List.getLast?_eq_some_iff.1 hlast
  exact ⟨front, a, hitems, halone⟩

theorem Joined.cons {a first : Attribute} {others : List Attribute}
    (halone : ¬ StandsAlone depth (.attr a)) (h : Joined depth (first :: others))
    (hfirst : first.decor.blankBefore = false) : Joined depth (a :: first :: others) where
  oneLine := List.forall_mem_cons.2 ⟨halone, h.oneLine⟩
  unparted := List.forall_mem_cons.2 ⟨hfirst, h.unparted⟩

theorem Joined.concat {attributes : List Attribute} {a : Attribute} (h : Joined depth attributes)
    (halone : ¬ StandsAlone depth (.attr a)) (hblank : a.decor.blankBefore = false) :
    Joined depth (attributes ++ [a]) := by
  refine ⟨List.forall_mem_append.2 ⟨h.oneLine, by simpa using halone⟩, ?_⟩
  cases attributes with
  | nil => simp
  | cons first others =>
      exact List.forall_mem_append.2 ⟨h.unparted, by simpa using hblank⟩

namespace Run

variable (r : Run depth items)

/-- No run goes on from the items in front of a run to the run. -/
theorem parted_front :
    Parted (r.front.map (shape depth)) ((r.attributes.map Item.attr ++ r.back).map (shape depth)) := by
  intro width separated hlast hgoes
  obtain ⟨front, a, hfront, halone⟩ := exists_attribute_of_getLast? hlast
  obtain ⟨first, others, hattributes⟩ := List.exists_cons_of_ne_nil r.ne_nil
  obtain ⟨b, rest, hitems, -, hblank⟩ := exists_attribute_of_goesOn hgoes
  obtain rfl : first = b := by
    rw [hattributes, List.map_cons, List.cons_append] at hitems
    exact Item.attr.inj (List.cons.inj hitems).1
  have hjoined : Joined depth ([a] ++ r.attributes ++ []) := by
    rw [List.append_nil, List.singleton_append, hattributes]
    exact Joined.cons halone (hattributes ▸ r.joined) hblank
  exact List.cons_ne_nil a [] (r.maximal [a] [] ⟨front, hfront.symm⟩ List.nil_prefix hjoined).1

/-- No run goes on from a run to the items behind it. -/
theorem parted_back :
    Parted ((r.attributes.map .attr).map (shape depth)) (r.back.map (shape depth)) := by
  intro width separated _ hgoes
  obtain ⟨b, rest, hback, halone, hblank⟩ := exists_attribute_of_goesOn hgoes
  have hjoined : Joined depth ([] ++ r.attributes ++ [b]) := r.joined.concat halone hblank
  exact List.cons_ne_nil b [] (r.maximal [] [b] List.nil_suffix ⟨rest, hback.symm⟩ hjoined).2

end Run

/-! ## The widths -/

theorem alignRuns_length (current : Option Nat) (shapes : List Shape) :
    (alignRuns current shapes).length = shapes.length := by
  induction shapes generalizing current with
  | nil => rfl
  | cons first shapes ih =>
      cases first with
      | alone => rw [alignRuns, List.length_cons, List.length_cons, ih]
      | inline width separated => simp only [alignRuns, List.length_cons, ih]

theorem alignmentWidths_length (items : List Item) (depth : Nat) :
    (alignmentWidths items depth).length = items.length := by
  rw [alignmentWidths, alignRuns_length, List.length_map]

theorem alignRuns_alone {shapes : List Shape} {i : Nat} (h : shapes[i]? = some .alone)
    (current : Option Nat) : (alignRuns current shapes)[i]? = some 0 := by
  induction shapes generalizing i current with
  | nil => simp at h
  | cons first shapes ih =>
      cases i with
      | zero =>
          obtain rfl : first = .alone := by simpa using h
          rfl
      | succ i =>
          rw [List.getElem?_cons_succ] at h
          cases first with
          | alone => exact ih h none
          | inline width separated => exact ih h _

/-- The key of an item that stands alone is not padded. -/
theorem alignmentWidths_of_standsAlone {i : Nat} {item : Item} (hitem : items[i]? = some item)
    (halone : StandsAlone depth item) : (alignmentWidths items depth)[i]? = some 0 :=
  alignRuns_alone (by simp [hitem, shape_of_standsAlone halone]) none

/-- In a run that goes on, every key has the same width. -/
theorem alignRuns_replicate (run : Nat) {widths : List Nat} :
    alignRuns (some run) (widths.map (Shape.inline · false)) =
      List.replicate widths.length run := by
  induction widths with
  | nil => rfl
  | cons width widths ih =>
      rw [List.map_cons, alignRuns, ih, List.length_cons, List.replicate_succ]

theorem runWidth_inline (widths : List Nat) :
    runWidth (widths.map (Shape.inline · false)) = widths.foldr max 0 := by
  induction widths with
  | nil => rfl
  | cons width widths ih => rw [List.map_cons, runWidth, ih, List.foldr_cons]

theorem isGreatest_foldr_max {widths : List Nat} (hne : widths ≠ []) :
    IsGreatest {width | width ∈ widths} (widths.foldr max 0) := by
  have hmaximum := List.maximum_eq_coe_iff.1 (List.foldr_max_of_ne_nil hne).symm
  exact ⟨hmaximum.1, hmaximum.2⟩

namespace Run

variable (r : Run depth items)

theorem shape_of_mem {a : Attribute} (ha : a ∈ r.attributes) :
    shape depth (.attr a) = .inline a.key.length a.decor.blankBefore := by
  obtain ⟨b, hb, hshape⟩ := shape_of_not_standsAlone (r.joined.oneLine a ha)
  obtain rfl := Item.attr.inj hb
  exact hshape

/-- The width of a run is that of its widest key. -/
theorem isGreatest_width : IsGreatest {n | ∃ a ∈ r.attributes, a.key.length = n} r.width := by
  have hne : (r.attributes.map fun a => a.key.length) ≠ [] := by simpa using r.ne_nil
  have h := isGreatest_foldr_max hne
  simpa only [width, List.mem_map] using h

/-- On its own, a run is aligned to its width. -/
theorem alignRuns_attributes :
    alignRuns none ((r.attributes.map .attr).map (shape depth)) =
      List.replicate r.attributes.length r.width := by
  obtain ⟨first, others, hattributes⟩ := List.exists_cons_of_ne_nil r.ne_nil
  -- The first attribute may be behind a blank line, the others are not.
  have hfirst := r.shape_of_mem (a := first) (by simp [hattributes])
  have hothers : (others.map .attr).map (shape depth) =
      (others.map fun a => a.key.length).map (Shape.inline · false) := by
    rw [List.map_map, List.map_map]
    refine List.map_congr_left fun a ha => ?_
    rw [Function.comp_apply, r.shape_of_mem (by simp [hattributes, ha]),
      r.joined.unparted a (by simp [hattributes, ha]), Function.comp_apply]
  rw [width, hattributes, List.map_cons, List.map_cons, hfirst, hothers, List.map_cons,
    List.foldr_cons, List.length_cons, List.replicate_succ]
  simp only [alignRuns, runWidth_inline, alignRuns_replicate, List.length_map]

/-- Every key of a run has the width of the widest one. The items in front of the run and those
behind it have the widths that they have without it. -/
theorem alignmentWidths_eq :
    alignmentWidths items depth = alignmentWidths r.front depth ++
      List.replicate r.attributes.length r.width ++ alignmentWidths r.back depth := by
  have hitems : items.map (shape depth) = r.front.map (shape depth) ++
      (r.attributes.map Item.attr ++ r.back).map (shape depth) := by
    rw [← List.map_append, ← List.append_assoc, ← r.items_eq]
  calc
    alignmentWidths items depth
      = alignRuns none (r.front.map (shape depth) ++
          (r.attributes.map Item.attr ++ r.back).map (shape depth)) := by
        rw [alignmentWidths, hitems]
    _ = alignmentWidths r.front depth ++
          alignRuns none ((r.attributes.map Item.attr ++ r.back).map (shape depth)) :=
        alignRuns_append r.parted_front
    _ = alignmentWidths r.front depth ++
          (alignRuns none ((r.attributes.map .attr).map (shape depth)) ++
            alignmentWidths r.back depth) := by
        rw [List.map_append, alignRuns_append r.parted_back, alignmentWidths, alignmentWidths]
    _ = alignmentWidths r.front depth ++ List.replicate r.attributes.length r.width ++
          alignmentWidths r.back depth := by
        rw [r.alignRuns_attributes, List.append_assoc]

theorem mem_of_holds {i : Nat} {a : Attribute} (h : r.Holds i) (ha : items[i]? = some (.attr a)) :
    a ∈ r.attributes := by
  obtain ⟨hstart, hstop⟩ := h
  have hwithin : i - r.front.length < (r.attributes.map Item.attr).length := by
    rw [List.length_map]
    omega
  rw [r.items_eq, List.append_assoc, List.getElem?_append_right hstart,
    List.getElem?_append_left hwithin] at ha
  obtain ⟨b, hb, hba⟩ := List.mem_map.1 (List.mem_of_getElem? ha)
  exact Item.attr.inj hba ▸ hb

theorem alignmentWidths_getElem? {i : Nat} (h : r.Holds i) :
    (alignmentWidths items depth)[i]? = some r.width := by
  obtain ⟨hstart, hstop⟩ := h
  have hwithin : i - r.front.length < r.attributes.length := by omega
  rw [r.alignmentWidths_eq, List.append_assoc, List.getElem?_append_right
    (by rwa [alignmentWidths_length]), alignmentWidths_length, List.getElem?_append_left
    (by rwa [List.length_replicate]), List.getElem?_replicate_of_lt hwithin]

end Run

end Printer
end Hcl
end ProviderMigration
