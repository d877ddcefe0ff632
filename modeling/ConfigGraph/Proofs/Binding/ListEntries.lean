import ConfigGraph.Proofs.Binding.CommaList

/-!
# Mappings of lists

Below a key only a dot ends a name. So a list in a mapping is not met under its name `n`: each of its
items is an entry of its own, under the name `n[0]`, `n[1]` and so on (`Reads.mem_entries_ofLists`).
Such an entry has no elements, and its list is made of the pieces of its text between commas. A mapping
of lists of texts is therefore not read as it was set (`bind_set_ofLists_ne`), but item by item
(`bind_set_ofLists`).
-/

namespace ConfigGraph

/-- The key of an element determines the name in front of its number. -/
theorem Key.element_inj {m n : Text} {i j : Nat} (hm : '[' ∉ m) (hn : '[' ∉ n)
    (h : element m i = element n j) : m = n ∧ i = j := by
  have hname : m = n := by
    simp only [element, List.append_assoc, List.cons_append] at h
    exact (Text.append_cons_inj hm hn h).1
  subst hname
  exact ⟨rfl, (element_append_inj (congrArg (· ++ []) h)).1⟩

/-- An element of an entry is an entry whose name ends with the number. -/
theorem Key.join_element (k : Text) {n : Text} (hn : n ≠ []) (i : Nat) :
    join k (element n i) = element (join k n) i := by
  by_cases hk : k = []
  · rw [hk]
    rfl
  · rw [join_eq hk (element_ne_nil n i), join_eq hk hn]
    simp only [element, List.append_assoc, List.cons_append]

theorem Key.IsName.dot_not_mem_element {n : Text} (h : IsName n) (i : Nat) : '.' ∉ element n i := by
  have hd : '.' ∉ Nat.toDigits 10 i := Number.not_mem_digits (by decide)
  simp [element, h.2.1, hd]

/-- The tree of a mapping of lists of texts. -/
def Value.ofLists (m : List (Text × List Text)) : Value :=
  .map (m.map fun e => (e.1, .seq (e.2.map .text)))

/-- The list that is read from a text. -/
def Bound.ofPieces (t : Text) : Bound :=
  .list ((Cursor.commaPieces (Reference.unescape t)).map .text)

/-- For each item of each list, an entry of its own with the list that is read from the text. -/
def Bound.itemwise (m : List (Text × List Text)) : List (Text × Bound) :=
  m.flatMap fun e => e.2.zipIdx.map fun item => (Key.element e.1 item.2, .ofPieces item.1)

/-- Names that can stand in keys, in order, with lists of texts without references. -/
structure PlainLists (m : List (Text × List Text)) : Prop where
  sorted : Entries.Sorted m
  names : ∀ e ∈ m, Key.IsName e.1
  noReference : ∀ e ∈ m, ∀ t ∈ e.2, Reference.find? t = .ok none

section

variable {m : List (Text × List Text)} {n t : Text} {x : Bound}

/-! ## The tree and its items -/

theorem hasLeaf_ofLists_iff {p : List Segment} : (Value.ofLists m).HasLeaf p t ↔
    ∃ e ∈ m, ∃ i, e.2[i]? = some t ∧ p = [.name e.1, .index i] := by
  rw [Value.ofLists, Value.hasLeaf_map_iff]
  constructor
  · rintro ⟨n, v, q, he, hl, rfl⟩
    obtain ⟨e, hm, heq⟩ := List.mem_map.1 he
    cases heq
    obtain ⟨i, v, r, hi, hl, rfl⟩ := Value.hasLeaf_seq_iff.1 hl
    rw [List.getElem?_map, Option.map_eq_some_iff] at hi
    obtain ⟨u, hu, rfl⟩ := hi
    obtain ⟨rfl, rfl⟩ := (Value.hasLeaf_scalar_iff rfl).1 hl
    exact ⟨e, hm, i, hu, rfl⟩
  · rintro ⟨e, hm, i, hi, rfl⟩
    have hitem : (e.2.map Value.text)[i]? = some (.text t) := by rw [List.getElem?_map, hi]; rfl
    exact ⟨e.1, _, _, List.mem_map.2 ⟨e, hm, rfl⟩, .item hitem (.scalar rfl), rfl⟩

theorem mem_itemwise : (n, x) ∈ Bound.itemwise m ↔
    ∃ e ∈ m, ∃ i t, e.2[i]? = some t ∧ n = Key.element e.1 i ∧ x = .ofPieces t := by
  simp only [Bound.itemwise, List.mem_flatMap, List.mem_map, Prod.mk.injEq, Prod.exists,
    List.mem_zipIdx_iff_getElem?]
  constructor
  · rintro ⟨n, ts, hm, t, i, hi, rfl, rfl⟩
    exact ⟨n, ts, hm, i, t, hi, rfl, rfl⟩
  · rintro ⟨n, ts, hm, i, t, hi, rfl, rfl⟩
    exact ⟨n, ts, hm, t, i, hi, rfl, rfl⟩

theorem PlainLists.each (h : PlainLists m) :
    (Value.ofLists m).Each (fun es => Entries.Sorted es ∧ ∀ e ∈ es, Key.IsName e.1) fun _ => True := by
  refine Value.each_map_iff.2 ⟨⟨List.pairwise_map.2 h.sorted, fun e he => ?_⟩, fun e he => ?_⟩
  · obtain ⟨f, hf, rfl⟩ := List.mem_map.1 he
    exact h.names f hf
  · obtain ⟨f, -, rfl⟩ := List.mem_map.1 he
    refine Value.each_seq_iff.2 ⟨trivial, fun v hv => ?_⟩
    obtain ⟨t, -, rfl⟩ := List.mem_map.1 hv
    exact Value.each_scalar rfl

theorem PlainLists.ordered (h : PlainLists m) : (Value.ofLists m).Ordered :=
  h.each.mono (fun _ => And.left) fun _ => id

theorem PlainLists.plain (h : PlainLists m) : (Value.ofLists m).Plain :=
  h.each.mono (fun _ => And.right) fun _ => id

/-- No two items have the same name. -/
theorem PlainLists.nodup_itemwise (h : PlainLists m) : ((Bound.itemwise m).map (·.1)).Nodup := by
  have hname : ∀ e ∈ m, '[' ∉ e.1 := fun e he => (h.names e he).2.2
  refine List.pairwise_map.2 (List.pairwise_flatMap.2 ⟨fun e he => ?_, ?_⟩)
  · exact List.pairwise_map.2 ((pairwise_zipIdx e.2).imp fun hab heq =>
      hab (Key.element_inj (hname e he) (hname e he) heq).2)
  · refine List.Pairwise.imp_of_mem (fun {e f} he hf hef a ha b hb heq => ?_) h.sorted
    obtain ⟨p, -, rfl⟩ := List.mem_map.1 ha
    obtain ⟨q, -, rfl⟩ := List.mem_map.1 hb
    rw [(Key.element_inj (hname e he) (hname f hf) heq).1, Text.before_irrefl] at hef
    cases hef

end

namespace Cursor

variable {c : Cursor} {m : List (Text × List Text)} {n : Text}

theorem entry_element (c : Cursor) (hn : n ≠ []) (i : Nat) :
    c.entry (Key.element n i) = (c.entry n).element i := by
  have hpath : c.path ++ '.' :: Key.element n i = Key.element (c.path ++ '.' :: n) i := by
    simp only [Key.element, List.append_assoc, List.cons_append]
  simp only [entry, element, child, Key.join_element c.key hn, hpath]

/-- The names below the key of a mapping of lists are those of the items. -/
theorem Reads.mem_entries_ofLists (h : c.Reads (.ofLists m)) (hm : PlainLists m) :
    n ∈ c.entries ↔ ∃ e ∈ m, ∃ i t, e.2[i]? = some t ∧ n = Key.element e.1 i := by
  have hk := h.unmarked.ne_nil
  -- behind the dot, the key of an item is its name, in which there is no other dot
  have hkey : ∀ e ∈ m, ∀ i, Path.key c.key [.name e.1, .index i] =
      c.key ++ '.' :: Key.element e.1 i := by
    intro e he i
    rw [Path.key, Path.key, Path.key, ← Key.join_element c.key (hm.names e he).1,
      Key.join_eq hk (Key.element_ne_nil e.1 i)]
  have hname : ∀ e ∈ m, ∀ i, (Key.element e.1 i).takeWhile (· != '.') = Key.element e.1 i :=
    fun e he i => List.takeWhile_eq_self_iff.2 fun _ hc =>
      bne_iff_ne.2 (ne_of_mem_of_not_mem hc ((hm.names e he).dot_not_mem_element i))
  rw [h.mem_entries_iff]
  constructor
  · rintro ⟨p, t, rest, hl, hq, rfl⟩
    obtain ⟨e, he, i, hi, rfl⟩ := hasLeaf_ofLists_iff.1 hl
    rw [hkey e he i, List.append_cancel_left_eq, List.cons.injEq] at hq
    rw [← hq.2, hname e he i]
    exact ⟨e, he, i, t, hi, rfl⟩
  · rintro ⟨e, he, i, t, hi, rfl⟩
    exact ⟨_, t, _, hasLeaf_ofLists_iff.2 ⟨e, he, i, hi, rfl⟩, hkey e he i, hname e he i⟩

/-- The entry of an item is at its text. -/
theorem Reads.entry_ofLists (h : c.Reads (.ofLists m)) (hm : PlainLists m)
    {e : Text × List Text} (he : e ∈ m) {i : Nat} {t : Text} (hi : e.2[i]? = some t) :
    (c.entry (Key.element e.1 i)).Reads (.text t) := by
  obtain ⟨hs, hn⟩ := (Value.each_map_iff.1 hm.each).1
  have hlist : (c.entry e.1).Reads (.seq (e.2.map .text)) :=
    Reads.entry h hs hn (List.mem_map.2 ⟨e, he, rfl⟩)
  rw [c.entry_element (hm.names e he).1]
  refine hlist.element ?_
  rw [List.getElem?_map, hi]
  rfl

/-- A mapping of lists of texts is read item by item. -/
theorem Reads.bind_ofLists (h : c.Reads (.ofLists m)) (hm : PlainLists m)
    (hne : ∃ e ∈ m, e.2 ≠ []) :
    c.bind (.mapping (.list .text)) = .ok (.mapping (Entries.ofList (Bound.itemwise m))) := by
  have hsorted := Entries.sorted_ofList (Bound.itemwise m)
  have hmem : ∀ {n x}, (n, x) ∈ Entries.ofList (Bound.itemwise m) ↔
      ∃ e ∈ m, ∃ i t, e.2[i]? = some t ∧ n = Key.element e.1 i ∧ x = .ofPieces t :=
    fun {n x} => (Entries.mem_ofList hm.nodup_itemwise).trans mem_itemwise
  have hnames : ∀ n, n ∈ c.entries ↔ ∃ x, (n, x) ∈ Entries.ofList (Bound.itemwise m) := by
    intro n
    rw [h.mem_entries_ofLists hm]
    constructor
    · rintro ⟨e, he, i, t, hi, hn⟩
      exact ⟨_, hmem.2 ⟨e, he, i, t, hi, hn, rfl⟩⟩
    · rintro ⟨x, hx⟩
      obtain ⟨e, he, i, t, hi, hn, -⟩ := hmem.1 hx
      exact ⟨e, he, i, t, hi, hn⟩
  have hitems : Entries.ofList (Bound.itemwise m) ≠ [] := by
    obtain ⟨e, he, hne⟩ := hne
    obtain ⟨t, ts, hts⟩ := List.exists_cons_of_ne_nil hne
    exact List.ne_nil_of_mem (hmem.2 ⟨e, he, 0, t, by rw [hts]; rfl, rfl, rfl⟩)
  refine Cursor.bind_mapping hsorted hitems hnames fun n x hx => ?_
  obtain ⟨e, he, i, t, hi, rfl, rfl⟩ := hmem.1 hx
  exact (h.entry_ofLists hm he hi).bind_list_text rfl
    (hm.noReference e he t (List.mem_of_getElem? hi))

end Cursor

/-- Where a mapping of lists of texts was set and nothing else is, a mapping of lists is read with an
entry for each item: its name is that of the list with the number of the item, and its list is made of
the pieces of the text between commas. -/
theorem Store.bind_set_ofLists {s : Store} {key : Text} {m : List (Text × List Text)}
    (hk : Key.Referable key) (hu : Key.Unmarked key) (hm : PlainLists m) (hne : ∃ e ∈ m, e.2 ≠ [])
    (hfree : ∀ q, Key.Covers key q → s.leaf? q = none) :
    (s.set key (.ofLists m)).bind (.key key) (.mapping (.list .text)) =
      .ok (.mapping (Entries.ofList (Bound.itemwise m))) := by
  have hreads := Cursor.reads_set hu hm.ordered hm.plain hfree (Shape.mapping (.list .text)).rootName
  rw [bind_key _ hk, hreads.bind_ofLists hm hne]

/-- A list of two texts, and one of a text without pieces. -/
def routes : List (Text × List Text) :=
  [(['a'], [['x', ',', ' ', 'y'], ['$', ',', ',']]), (['b'], [[',']])]

theorem Store.bind_set_ofLists_routes :
    Key.Referable ['k'] ∧ Key.Unmarked ['k'] ∧ PlainLists routes ∧
      (∀ q, Key.Covers ['k'] q → (empty.put ['k', '1'] ['v']).leaf? q = none) ∧
      ((empty.put ['k', '1'] ['v']).set ['k'] (.ofLists routes)).bind (.key ['k'])
          (.mapping (.list .text)) =
        .ok (.mapping [(['a', '[', '0', ']'], .list [.text ['x'], .text ['y']]),
          (['a', '[', '1', ']'], .list [.text ['$']]), (['b', '[', '0', ']'], .list [])]) := by
  have hk : Key.Verbatim ['k'] := by simp [Key.Verbatim, Text.isBlank]
  have hm : PlainLists routes := by
    refine ⟨?_, ?_, ?_⟩
    · simp [Entries.Sorted, routes, Text.before]
    · simp [routes, Key.IsName]
    · simp [routes, Reference.find?, Reference.opening?]
  have hfree : ∀ q, Key.Covers ['k'] q → (empty.put ['k', '1'] ['v']).leaf? q = none := by
    intro q hq
    have hne : q ≠ ['k', '1'] := by
      rintro rfl
      simp [Key.Covers, Key.below_iff, Key.IsMark] at hq
    exact leaf?_empty_put (List.cons_ne_nil _ _) hne _
  refine ⟨hk.referable, hk.unmarked, hm, hfree, ?_⟩
  rw [bind_set_ofLists hk.referable hk.unmarked hm ⟨_, List.mem_cons_self, by simp⟩ hfree]
  rfl

/-- A mapping of lists is not read as it was set: the entry of the only item has another name. -/
theorem Store.bind_set_ofLists_ne :
    Key.Verbatim ['k'] ∧ Key.IsName ['a'] ∧ '$' ∉ ['a'] ∧ ¬ ['$', '{'] <:+: ['x'] ∧
      (∀ q, Key.Covers ['k'] q → empty.leaf? q = none) ∧
      (empty.set ['k'] (.ofLists [(['a'], [['x']])])).bind (.key ['k']) (.mapping (.list .text)) =
        .ok (.mapping [(['a', '[', '0', ']'], .list [.text ['x']])]) ∧
      (empty.set ['k'] (.ofLists [(['a'], [['x']])])).bind (.key ['k']) (.mapping (.list .text)) ≠
        .ok (.mapping [(['a'], .list [.text ['x']])]) := by
  have hk : Key.Verbatim ['k'] := by simp [Key.Verbatim, Text.isBlank]
  have hm : PlainLists [(['a'], [['x']])] := by
    refine ⟨List.pairwise_singleton _ _, ?_, ?_⟩
    · simp [Key.IsName]
    · simp [Reference.find?, Reference.opening?]
  have hfree : ∀ q, Key.Covers ['k'] q → empty.leaf? q = none := fun _ _ => rfl
  have hbind : (empty.set ['k'] (.ofLists [(['a'], [['x']])])).bind (.key ['k'])
      (.mapping (.list .text)) = .ok (.mapping [(['a', '[', '0', ']'], .list [.text ['x']])]) := by
    have hreads := Cursor.reads_set hk.unmarked hm.ordered hm.plain hfree
      (Shape.mapping (.list .text)).rootName
    rw [bind_key _ hk.referable,
      hreads.bind_ofLists hm ⟨_, List.mem_cons_self, List.cons_ne_nil _ _⟩]
    rfl
  have hinfix : ¬ ['$', '{'] <:+: ['x'] := fun h => absurd h.length_le (by decide)
  refine ⟨hk, by simp [Key.IsName], by decide, hinfix, hfree, hbind, ?_⟩
  rw [hbind]
  exact fun h => by cases h

end ConfigGraph
