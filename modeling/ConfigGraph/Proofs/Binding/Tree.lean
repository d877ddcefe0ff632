import ConfigGraph.Binding.Shape
import ConfigGraph.Proofs.Entries
import ConfigGraph.Proofs.Reference.Tag
import ConfigGraph.Proofs.Value.Parts
import ConfigGraph.Reference.Scan

/-!
# Trees of bound values

Which shapes can be written and read back (`Shape.Regular`), which values of them (`Bound.Fits`), and
the tree that is written of a value (`Bound.tree`). The names of such a tree ascend and can stand in
keys (`Bound.Fits.tree_ordered`, `Bound.Fits.tree_plain`).
-/

namespace ConfigGraph

open Number (IntType)

/-- The shape without the options around it. -/
def Shape.content : Shape → Shape
  | .option item => item.content
  | shape => shape

/-- A field with a name that can stand in a key and in a tag, and the tag of that name. -/
structure Field.Plain (f : Field Shape) : Prop where
  name : Key.IsName f.name
  verbatim : Key.Verbatim f.name
  tag : f.tag = ['$', '{'] ++ f.name ++ ['}']

/-- Shapes of integers, truth values, characters and texts, and of options, lists, mappings and records
of these. A mapping is not of lists, as its names would not end before a bracket. -/
inductive Shape.Regular : Shape → Prop where
  | int (type : IntType) : Regular (.int type)
  | bool : Regular .bool
  | char : Regular .char
  | text : Regular .text
  | option {item : Shape} (h : Regular item) : Regular (.option item)
  | list {item : Shape} (h : Regular item) : Regular (.list item)
  | mapping {item : Shape} (h : Regular item) (hl : ∀ inner, item.content ≠ .list inner) :
      Regular (.mapping item)
  | record {name : Text} {fields : List (Field Shape)} (hd : (fields.map Field.name).Nodup)
      (hp : ∀ f ∈ fields, f.Plain) (h : ∀ f ∈ fields, Regular f.shape) :
      Regular (.record name fields)

namespace Bound

def isNone : Bound → Bool
  | none => true
  | _ => false

theorem isNone_iff {x : Bound} : x.isNone = true ↔ x = none := by
  cases x <;> simp [isNone]

mutual

/-- The tree that is written of a value, with its texts escaped. Fields and entries without a value are
left out; what is read inexactly has no leaves here. -/
def tree : Bound → Value
  | int n => .ofInt n
  | bool b => .bool b
  | char c => .text [c]
  | text s => .text (Reference.escape s)
  | some content => content.tree
  | list items => .seq (treeItems items)
  | mapping entries => .map (treeEntries entries)
  | record fields => .ofEntries (treeEntries fields)
  | float .. | duration _ | none | report _ => .map []

def treeItems : List Bound → List Value
  | [] => []
  | x :: rest => x.tree :: treeItems rest

def treeEntries : List (Text × Bound) → List (Text × Value)
  | [] => []
  | (n, x) :: rest => if x.isNone then treeEntries rest else (n, x.tree) :: treeEntries rest

end

/-- Something is written of the value. -/
def HasLeaf (x : Bound) : Prop :=
  ∃ p t, x.tree.HasLeaf p t

/-- A value of a shape. No list and no mapping in it is empty, and there is a leaf in each item, each
content of an option and each entry. -/
inductive Fits : Bound → Shape → Prop where
  | int {type : IntType} {n : Int} (h : type.holds n = true) : Fits (.int n) (.int type)
  | bool (b : Bool) : Fits (.bool b) .bool
  | char (c : Char) : Fits (.char c) .char
  | text (s : Text) : Fits (.text s) .text
  | none (item : Shape) : Fits .none (.option item)
  | some {x : Bound} {item : Shape} (h : Fits x item) (hl : x.HasLeaf) :
      Fits (.some x) (.option item)
  | list {xs : List Bound} {item : Shape} (hne : xs ≠ []) (h : ∀ x ∈ xs, Fits x item)
      (hl : ∀ x ∈ xs, x.HasLeaf) : Fits (.list xs) (.list item)
  | mapping {es : List (Text × Bound)} {item : Shape} (hne : es ≠ []) (hs : Entries.Sorted es)
      (hn : ∀ e ∈ es, Key.IsName e.1) (h : ∀ e ∈ es, Fits e.2 item)
      (hl : ∀ e ∈ es, e.2.HasLeaf) : Fits (.mapping es) (.mapping item)
  | record {xs : List (Text × Bound)} {name : Text} {fields : List (Field Shape)}
      (hn : xs.map (·.1) = fields.map Field.name)
      (h : ∀ e ∈ fields.zip xs, Fits e.2.2 e.1.shape) : Fits (.record xs) (.record name fields)

/-! ## Parts of the tree -/

theorem treeItems_eq (xs : List Bound) : treeItems xs = xs.map tree := by
  induction xs with
  | nil => rfl
  | cons x xs ih => rw [treeItems, ih]; rfl

theorem treeEntries_eq (es : List (Text × Bound)) :
    treeEntries es = (es.filter fun e => !e.2.isNone).map fun e => (e.1, e.2.tree) := by
  induction es with
  | nil => rfl
  | cons e es ih =>
    obtain ⟨n, x⟩ := e
    rw [treeEntries, ih]
    cases hx : x.isNone <;> simp [hx]

theorem mem_treeEntries {es : List (Text × Bound)} {n : Text} {v : Value} :
    (n, v) ∈ treeEntries es ↔ ∃ x, (n, x) ∈ es ∧ x.isNone = false ∧ x.tree = v := by
  simp only [treeEntries_eq, List.mem_map, List.mem_filter, Prod.mk.injEq, Prod.exists,
    Bool.not_eq_true']
  constructor
  · rintro ⟨m, x, ⟨hm, hx⟩, rfl, hv⟩
    exact ⟨x, hm, hx, hv⟩
  · rintro ⟨x, hm, hx, hv⟩
    exact ⟨n, x, ⟨hm, hx⟩, rfl, hv⟩

theorem HasLeaf.isNone {x : Bound} (h : x.HasLeaf) : x.isNone = false := by
  cases x with
  | none =>
    obtain ⟨p, t, h⟩ := h
    obtain ⟨n, v, q, he, -, -⟩ := Value.hasLeaf_map_iff.1 h
    exact absurd he List.not_mem_nil
  | _ => rfl

theorem name_eq_of_mem_zip {fields : List (Field Shape)} {xs : List (Text × Bound)}
    (hn : xs.map (·.1) = fields.map Field.name) {e : Field Shape × Text × Bound}
    (he : e ∈ fields.zip xs) : e.1.name = e.2.1 := by
  induction fields generalizing xs with
  | nil => exact absurd he List.not_mem_nil
  | cons f fields ih =>
    cases xs with
    | nil => exact absurd he List.not_mem_nil
    | cons x xs =>
      obtain ⟨hx, hn⟩ := List.cons.inj hn
      rcases List.mem_cons.1 he with rfl | he
      · exact hx.symm
      · exact ih hn he

/-- The fields of a record are those of its shape. -/
theorem exists_field {fields : List (Field Shape)} {xs : List (Text × Bound)}
    (hn : xs.map (·.1) = fields.map Field.name) {e : Text × Bound} (he : e ∈ xs) :
    ∃ f ∈ fields, (f, e) ∈ fields.zip xs ∧ f.name = e.1 := by
  have hlen : xs.length = fields.length := by simpa using congrArg List.length hn
  obtain ⟨i, hi, rfl⟩ := List.getElem_of_mem he
  have hz : (fields[i], xs[i]) ∈ fields.zip xs := by
    have hlt : i < (fields.zip xs).length := by rw [List.length_zip]; omega
    rw [← List.getElem_zip (h := hlt)]
    exact List.getElem_mem hlt
  exact ⟨fields[i], List.getElem_mem _, hz, name_eq_of_mem_zip hn hz⟩

theorem nodup_treeEntries {es : List (Text × Bound)} (hd : (es.map (·.1)).Nodup) :
    ((treeEntries es).map (·.1)).Nodup := by
  rw [treeEntries_eq, List.map_map]
  exact hd.sublist (List.filter_sublist.map _)

theorem mem_tree_record {es : List (Text × Bound)} (hd : (es.map (·.1)).Nodup) {n : Text}
    {v : Value} :
    (n, v) ∈ Entries.ofList (treeEntries es) ↔ ∃ x, (n, x) ∈ es ∧ x.isNone = false ∧ x.tree = v := by
  rw [Entries.mem_ofList (nodup_treeEntries hd), mem_treeEntries]

section

variable {x : Bound} {shape : Shape}

/-- In each map of the tree the names ascend and can stand in keys. -/
theorem Fits.tree_each (hx : x.Fits shape) (hT : shape.Regular) :
    Value.Each (fun es => Entries.Sorted es ∧ ∀ e ∈ es, Key.IsName e.1) (fun _ => True) x.tree := by
  induction hx with
  | int | bool | char | text => exact Value.each_scalar (by first | exact Value.scalar?_ofInt _ | rfl)
  | none =>
    exact Value.each_map_iff.2
      ⟨⟨List.Pairwise.nil, fun e he => absurd he List.not_mem_nil⟩, fun e he => absurd he List.not_mem_nil⟩
  | some _ _ ih =>
    cases hT with
    | option hT => exact ih hT
  | list _ _ _ ih =>
    cases hT with
    | list hT =>
      rw [tree, treeItems_eq, Value.each_seq_iff]
      refine ⟨trivial, fun v hv => ?_⟩
      obtain ⟨x, hx, rfl⟩ := List.mem_map.1 hv
      exact ih x hx hT
  | mapping _ hs hn _ _ ih =>
    cases hT with
    | mapping hT =>
      refine Value.each_map_iff.2 ⟨⟨?_, fun e he => ?_⟩, fun e he => ?_⟩
      · rw [treeEntries_eq]
        exact List.pairwise_map.2 (hs.filter _)
      · obtain ⟨x, hx, -⟩ := mem_treeEntries.1 he
        exact hn _ hx
      · obtain ⟨x, hx, -, hv⟩ := mem_treeEntries.1 he
        exact hv ▸ ih _ hx hT
  | @record xs _ fields hn _ ih =>
    cases hT with
    | record hd hp hT =>
      have hmem : ∀ e ∈ Entries.ofList (treeEntries xs), ∃ x, (e.1, x) ∈ xs ∧ x.tree = e.2 := by
        intro e he
        obtain ⟨x, hx, -, hv⟩ := (mem_tree_record (hn ▸ hd)).1 he
        exact ⟨x, hx, hv⟩
      refine Value.each_map_iff.2 ⟨⟨Entries.sorted_ofList _, fun e he => ?_⟩, fun e he => ?_⟩
      · obtain ⟨x, hx, -⟩ := hmem e he
        obtain ⟨f, hf, -, hname⟩ := exists_field hn hx
        exact hname ▸ (hp f hf).name
      · obtain ⟨x, hx, hv⟩ := hmem e he
        obtain ⟨f, hf, hz, -⟩ := exists_field hn hx
        exact hv ▸ ih _ hz (hT f hf)

/-- Where there is no list inside the options, the tree is no sequence. -/
theorem Fits.tree_ne_seq (hx : x.Fits shape) (hl : ∀ inner, shape.content ≠ .list inner) :
    ∀ vs, x.tree ≠ .seq vs := by
  induction hx with
  | @int _ n =>
    intro vs h
    have hs := Value.scalar?_ofInt n
    rw [show Value.ofInt n = .seq vs from h] at hs
    cases hs
  | some _ _ ih => exact ih hl
  | list => exact absurd rfl (hl _)
  | _ => exact fun vs h => by cases h

theorem Fits.tree_ordered (hx : x.Fits shape) (hT : shape.Regular) : x.tree.Ordered :=
  (hx.tree_each hT).mono (fun _ => And.left) fun _ => id

theorem Fits.tree_plain (hx : x.Fits shape) (hT : shape.Regular) : x.tree.Plain :=
  (hx.tree_each hT).mono (fun _ => And.right) fun _ => id

end

end Bound

end ConfigGraph
