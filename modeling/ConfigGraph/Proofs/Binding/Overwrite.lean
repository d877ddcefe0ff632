import ConfigGraph.Proofs.Binding.Elements
import ConfigGraph.Proofs.Store.Edit
import Mathlib.Data.List.Basic

/-!
# Sequences over what was there

Setting a sequence removes the leaf at its key and writes its items. An item that is a scalar
replaces what was at its element (`holds_item_set`), and what was at the elements behind the last
one stays (`leaf?_set_beyond`). A list is read up to the first element that is absent, so a list of
texts is read with the elements that an earlier one left behind it (`bind_set_ofTexts`).
-/

namespace ConfigGraph

open Key (Covers)

/-- The tree of a list of texts. -/
def Value.ofTexts (xs : List Text) : Value :=
  .seq (xs.map .text)

theorem Value.each_ofTexts {maps : List (Text × Value) → Prop} (xs : List Text) :
    Value.Each maps (fun _ => True) (ofTexts xs) := by
  refine Value.each_seq_iff.2 ⟨trivial, fun v hv => ?_⟩
  obtain ⟨t, -, rfl⟩ := List.mem_map.1 hv
  exact Value.each_scalar rfl

namespace Store

variable {s : Store} {key q : Text} {vs : List Value} {v : Value} {i : Nat}

/-- What was stored at and below an element behind the end of a sequence stays. -/
theorem leaf?_set_beyond (hk : Key.Unmarked key) (hw : (Value.seq vs).Ordered)
    (hp : (Value.seq vs).Plain) (hi : vs.length ≤ i) (hq : Covers (Key.element key i) q) :
    (s.set key (.seq vs)).leaf? q = s.leaf? q := by
  have hnot := Patch.ofValue_seq_not_touches hi hq
  have hcontributes : ∀ t, ¬ (Patch.ofValue key (.seq vs)).contributes q t :=
    fun t h => hnot (.inl ⟨q, t, h, .inl rfl⟩)
  refine Option.ext fun t => ?_
  rw [Store.set, hk.normalize, write_effect hw hp s key q t, iff_false_intro (hcontributes t),
    false_or, iff_true_intro hnot, true_and]

/-- At the element of an item that is a scalar there is that scalar, whatever was there before. -/
theorem holds_item_set (hk : Key.Unmarked key) (hw : (Value.seq vs).Ordered)
    (hp : (Value.seq vs).Plain) (hi : vs[i]? = some v) {t : Text} (hv : v.scalar? = some t) :
    (s.set key (.seq vs)).Holds (Key.element key i) v := by
  have hleaf : (Patch.ofValue key (.seq vs)).contributes (Key.element key i) t :=
    ⟨Key.element_ne_nil key i, _, .item hi (.scalar hv), rfl⟩
  intro q u hq
  have hc : Covers (Key.element key i) q := hq.covers (Key.element_ne_nil key i)
  rw [Store.set, hk.normalize, write_effect hw hp s key q u]
  constructor
  · rintro (⟨-, p, hl, rfl⟩ | ⟨hnot, -⟩)
    · obtain ⟨j, w, r, hj, hr, rfl⟩ := Value.hasLeaf_seq_iff.1 hl
      have hji : j = i := Classical.byContradiction fun hne =>
        (Key.apart_element key hne).not_covers (Path.covers_key (Key.element_ne_nil key j) r) hc
      subst hji
      cases hj.symm.trans hi
      exact ⟨r, hr, rfl⟩
    · exact absurd (.inl ⟨_, t, hleaf, hc.imp_right .inl⟩) hnot
  · rintro ⟨r, hr, rfl⟩
    exact .inl ⟨hc.ne_nil (Key.element_ne_nil key i), _, .item hi hr, rfl⟩

/-- Where the items are scalars, the elements are those of the sequence and those that were there
behind its end. -/
theorem has_element_set (hk : Key.Unmarked key) (hw : (Value.seq vs).Ordered)
    (hp : (Value.seq vs).Plain) (hv : ∀ v ∈ vs, ∃ t, v.scalar? = some t) :
    (s.set key (.seq vs)).has (Key.element key i) = true ↔
      i < vs.length ∨ s.has (Key.element key i) = true := by
  have hki : Key.Unmarked (Key.element key i) := hk.covers (.inr (Key.below_element key i))
  rcases Nat.lt_or_ge i vs.length with hi | hi
  · obtain ⟨t, ht⟩ := hv _ (List.getElem_mem hi)
    have hleaf := (holds_item_set (s := s) hk hw hp (List.getElem?_eq_getElem hi) ht).leaf?_key
      (.scalar ht)
    exact iff_of_true ((Cursor.has_iff_of_unmarked hki).2 ⟨_, mem_keys_iff.2 ⟨t, hleaf⟩, .refl _⟩)
      (.inl hi)
  · simp only [Cursor.has_iff_of_unmarked hki, mem_keys_iff, Nat.not_lt.2 hi, false_or]
    refine exists_congr fun q => and_congr_left fun hq => ?_
    rw [leaf?_set_beyond hk hw hp hi hq]

end Store

namespace Cursor

variable {c : Cursor}

/-- A list is read from its elements up to the first that is absent. When the first ones are read as
some values, the list starts with these. -/
theorem bind_list_append (hk : Key.Unmarked c.key) (hl : c.lookup = true) {n d : Nat} (hn : 0 < n)
    (hp : ∀ i < n + d, c.store.has (Key.element c.key i) = true)
    (ha : c.store.has (Key.element c.key (n + d)) = false) {item : Shape} {ys : List Bound}
    (hys : ((List.range n).mapM fun i => (c.element i).bind item) = .ok ys) :
    c.bind (.list item) =
      (fun rest => .list (ys ++ rest)) <$> (List.range d).mapM fun j =>
        (c.element (n + j)).bind item := by
  have hfirst : c.store.has (Key.element c.key 0) = true := hp 0 (Nat.add_pos_left hn d)
  have hcheck : ∀ i, (c.element i).checkDefault item = .ok () :=
    fun i => checkDefault_of_none rfl item
  rw [Cursor.bind]
  simp only [hl, hfirst, Bool.and_self, if_true, pure_bind, elements_eq hk hp ha, List.mapM_map,
    Function.comp_def, hcheck, ok_bind, List.range_add, List.mapM_append, hys]
  cases (List.range d).mapM fun j => (c.element (n + j)).bind item <;> rfl

end Cursor

namespace Store

section

variable {key : Text} (hk : Key.Unmarked key) {xs : List Text}

include hk

/-- The elements after a list of texts was set. -/
theorem has_element_set_ofTexts (s : Store) (xs : List Text) {i : Nat} :
    (s.set key (.ofTexts xs)).has (Key.element key i) = true ↔
      i < xs.length ∨ s.has (Key.element key i) = true := by
  rw [Value.ofTexts, has_element_set hk (Value.each_ofTexts xs) (Value.each_ofTexts xs),
    List.length_map]
  intro v hv
  obtain ⟨t, -, rfl⟩ := List.mem_map.1 hv
  exact ⟨t, rfl⟩

/-- The texts are read as they were set, whatever was there before. -/
theorem bind_elements_ofTexts (s : Store) (hx : ∀ x ∈ xs, ¬ ['$', '{'] <:+: x) (root : Text) :
    ((List.range xs.length).mapM fun i =>
      ((Cursor.ofTag (s.set key (.ofTexts xs)) ⟨key, none⟩ root).element i).bind .text) =
      .ok (xs.map .text) := by
  refine mapM_eq_ok (List.ext_getElem (by simp) fun i hi _ => ?_)
  have hi : i < xs.length := by simpa using hi
  have hitem : (xs.map Value.text)[i]? = some (.text xs[i]) := by
    rw [List.getElem?_map, List.getElem?_eq_getElem hi]
    rfl
  have hreads : ((Cursor.ofTag (s.set key (.ofTexts xs)) ⟨key, none⟩ root).element i).Reads
      (.text xs[i]) := by
    rw [Cursor.ofTag_key hk]
    exact ⟨rfl, rfl, hk.covers (.inr (Key.below_element key i)),
      holds_item_set hk (Value.each_ofTexts xs) (Value.each_ofTexts xs) hitem rfl⟩
  have hescape : Reference.escape xs[i] = xs[i] :=
    Reference.escape_of_noOpener (hx _ (List.getElem_mem hi))
  simp only [List.getElem_map, List.getElem_range, Cursor.bind,
    hreads.require (congrArg some hescape.symm)]
  rfl

end

/-- After a list of texts without references was set, a list of texts is read as that one and what
is read from the elements behind it that were there before, up to the first that was not. -/
theorem exists_bind_set_ofTexts (s : Store) {key : Text} (hk : Key.Referable key)
    (hu : Key.Unmarked key) {xs : List Text} (hne : xs ≠ [])
    (hx : ∀ x ∈ xs, ¬ ['$', '{'] <:+: x) :
    ∃ d, (∀ j < d, s.has (Key.element key (xs.length + j)) = true) ∧
      s.has (Key.element key (xs.length + d)) = false ∧
      (s.set key (.ofTexts xs)).bind (.key key) (.list .text) =
        (fun rest => .list (xs.map .text ++ rest)) <$> (List.range d).mapM fun j =>
          (s.set key (.ofTexts xs)).bindAs (Key.element Shape.text.rootName (xs.length + j))
            (.key (Key.element key (xs.length + j))) .text := by
  have hhas := fun i => has_element_set_ofTexts hu s xs (i := i)
  obtain ⟨n, -, hpresent, habsent⟩ := exists_end (s.set key (.ofTexts xs)) key
  -- the elements end behind the list
  have hle : xs.length ≤ n := Nat.le_of_not_lt fun hlt =>
    Bool.eq_false_iff.1 habsent ((hhas n).2 (.inl hlt))
  obtain ⟨d, rfl⟩ := Nat.exists_eq_add_of_le hle
  refine ⟨d, fun j hj => ?_, ?_, ?_⟩
  · exact ((hhas _).1 (hpresent _ (Nat.add_lt_add_left hj _))).resolve_left (by omega)
  · exact Bool.eq_false_iff.2 fun h => Bool.eq_false_iff.1 habsent ((hhas _).2 (.inr h))
  · have htexts := bind_elements_ofTexts hu s hx Shape.text.rootName
    simp only [bind_key _ hk, Cursor.bindAs_element _ _ hk hu, Cursor.ofTag_key hu] at htexts ⊢
    exact Cursor.bind_list_append hu rfl (List.length_pos_iff.2 hne) hpresent habsent htexts

/-- After a list of texts without references was set over whatever was there, a list of texts is
read as that one, followed by what is read from the elements behind it that were there before, up to
the first that was not. What is stored at these elements is what was. So the list is read as it was
set exactly when the element behind it was absent. -/
theorem bind_set_ofTexts (s : Store) {key : Text} (hk : Key.Referable key)
    (hu : Key.Unmarked key) {xs : List Text} (hne : xs ≠ [])
    (hx : ∀ x ∈ xs, ¬ ['$', '{'] <:+: x) :
    (∃ d, (∀ j < d, s.has (Key.element key (xs.length + j)) = true) ∧
      s.has (Key.element key (xs.length + d)) = false ∧
      (s.set key (.ofTexts xs)).bind (.key key) (.list .text) =
        (fun rest => .list (xs.map .text ++ rest)) <$> (List.range d).mapM fun j =>
          (s.set key (.ofTexts xs)).bindAs (Key.element Shape.text.rootName (xs.length + j))
            (.key (Key.element key (xs.length + j))) .text) ∧
    (∀ i, xs.length ≤ i → ∀ q, Covers (Key.element key i) q →
      (s.set key (.ofTexts xs)).leaf? q = s.leaf? q) ∧
    ((s.set key (.ofTexts xs)).bind (.key key) (.list .text) = .ok (.list (xs.map .text)) ↔
      s.has (Key.element key xs.length) = false) := by
  obtain ⟨d, hpresent, habsent, hbind⟩ := exists_bind_set_ofTexts s hk hu hne hx
  have hlength : (xs.map Value.text).length = xs.length := List.length_map _
  refine ⟨⟨d, hpresent, habsent, hbind⟩, fun i hi q hq => ?_, ?_⟩
  · exact leaf?_set_beyond hu (Value.each_ofTexts xs) (Value.each_ofTexts xs) (hlength ▸ hi) hq
  · rw [hbind]
    constructor
    · intro h
      cases hrest : (List.range d).mapM fun j =>
          (s.set key (.ofTexts xs)).bindAs (Key.element Shape.text.rootName (xs.length + j))
            (.key (Key.element key (xs.length + j))) .text with
      | error e => rw [hrest] at h; cases h
      | ok rest =>
        rw [hrest] at h
        have hnil : rest = [] := List.append_right_eq_self.1 (Bound.list.inj (Except.ok.inj h))
        have hd : d = 0 := by simpa [hnil] using (length_of_mapM hrest).symm
        rwa [hd] at habsent
    · intro h
      have hd : d = 0 := Nat.eq_zero_of_not_pos fun hpos =>
        Bool.eq_false_iff.1 h (hpresent 0 hpos)
      rw [hd]
      exact congrArg (fun l => Except.ok (Bound.list l)) (List.append_nil _)

/-- Over a longer list: the text at the element behind the end is read with the new one. -/
theorem bind_set_ofTexts_ne :
    Reachable (empty.set ['k'] (.ofTexts [['a'], ['b']])) ∧ Key.Verbatim ['k'] ∧
      ¬ ['$', '{'] <:+: ['x'] ∧
      ((empty.set ['k'] (.ofTexts [['a'], ['b']])).set ['k'] (.ofTexts [['x']])).bind (.key ['k'])
        (.list .text) = .ok (.list [.text ['x'], .text ['b']]) ∧
      ((empty.set ['k'] (.ofTexts [['a'], ['b']])).set ['k'] (.ofTexts [['x']])).bind (.key ['k'])
        (.list .text) ≠ .ok (.list [.text ['x']]) := by
  have hk : Key.Verbatim ['k'] := by simp [Key.Verbatim, Text.isBlank]
  have hread : ∀ path, (Cursor.ofTag ((empty.set ['k'] (.ofTexts [['a'], ['b']])).set ['k']
      (.ofTexts [['x']])) ⟨['k'], none⟩ path).bind (.list .text) =
        .ok (.list [.text ['x'], .text ['b']]) := fun path => by cbv
  refine ⟨⟨[.set ['k'] (.ofTexts [['a'], ['b']])], rfl⟩, hk,
    fun h => absurd h.length_le (by decide), ?_, ?_⟩
  · rw [bind_key _ hk.referable, hread]
  · rw [bind_key _ hk.referable, hread]
    exact fun h => by cases h

/-- Over entries and other elements of the key: the list is read as it was set. -/
theorem bind_set_ofTexts_apart :
    Key.Referable ['k'] ∧ Key.Unmarked ['k'] ∧ [['x']] ≠ ([] : List Text) ∧
      (∀ x ∈ [['x']], ¬ ['$', '{'] <:+: x) ∧
      (((empty.put ['k', '.', 'a'] ['v']).put ['k', '[', '2', ']'] ['w']).set ['k']
        (.ofTexts [['x']])).bind (.key ['k']) (.list .text) = .ok (.list [.text ['x']]) := by
  have hk : Key.Verbatim ['k'] := by simp [Key.Verbatim, Text.isBlank]
  have hx : ∀ x ∈ [['x']], ¬ ['$', '{'] <:+: x :=
    List.forall_mem_singleton.2 fun h => absurd h.length_le (by decide)
  refine ⟨hk.referable, hk.unmarked, List.cons_ne_nil _ _, hx, ?_⟩
  exact (bind_set_ofTexts _ hk.referable hk.unmarked (List.cons_ne_nil _ _) hx).2.2.2 (by decide)

end Store

end ConfigGraph
