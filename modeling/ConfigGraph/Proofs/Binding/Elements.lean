import ConfigGraph.Proofs.Binding.RoundTrip

/-!
# Lists element by element

A list with a first element is read element by element, up to the first that is absent
(`Cursor.readElements`). No number bounds this loop. It ends because an element that is present has a
leaf that is no leaf of a later one, so that fewer leaves are left behind it
(`Store.length_leavesFrom_lt`). It reads the elements before the first that is absent, which are no more
than the leaves (`readElements_run`), and the walk over as many elements as there are leaves, which
`Cursor.bind` makes, is this loop (`bind_list_eq_readElements`).
-/

namespace ConfigGraph

open Key (Covers)

/-- The key without the mark of the root, as it is looked up when something stands behind it. -/
def Key.stem (k : Text) : Text :=
  match k with
  | '$' :: '.' :: rest => rest
  | _ => k

theorem Key.normalize_element (k : Text) (i : Nat) :
    Key.normalize (Key.element k i) = Key.element (Key.stem k) i := by
  unfold stem
  split
  · rfl
  · rename_i hmark
    unfold normalize
    split
    · rename_i hroot
      obtain _ | ⟨a, k⟩ := k <;> simp [element] at hroot
    · rename_i rest hroot
      obtain _ | ⟨a, _ | ⟨b, k⟩⟩ := k <;> simp [element] at hroot
      exact absurd (by rw [hroot.1, hroot.2.1]) (hmark k)
    · rfl

namespace Cursor

variable {c : Cursor} {i : Nat}

theorem isPresent_element_iff :
    (c.element i).isPresent = true ↔
      ∃ q ∈ c.store.keys, Covers (Key.element (Key.stem c.key) i) q := by
  have hpresent : (c.element i).isPresent = c.store.has (Key.element c.key i) := rfl
  rw [hpresent, Store.has_iff, Key.normalize_element]
  simp only [Key.Scope, Key.element_ne_nil, false_or]

/-- Reads the elements from a number on, up to the first that is absent. -/
def readElements (c : Cursor) (item : Shape) (i : Nat) : Except ConfigError (List Bound) :=
  if h : (c.element i).isPresent = true then do
    let x ← (c.element i).read item
    let xs ← readElements c item (i + 1)
    return x :: xs
  else .ok []
termination_by (c.store.leavesFrom (Key.stem c.key) i).length
decreasing_by exact Store.length_leavesFrom_lt (isPresent_element_iff.1 h)

/-- The elements that are present from a number on end somewhere, after no more than the leaves that
are left. What is read is what these are read as, one after the other, or the first error. -/
theorem readElements_run (c : Cursor) (item : Shape) (i : Nat) :
    ∃ n ≤ (c.store.leavesFrom (Key.stem c.key) i).length,
      (∀ j < n, (c.element (i + j)).isPresent = true) ∧
      (c.element (i + n)).isPresent = false ∧
      c.readElements item i = (List.range n).mapM fun j => (c.element (i + j)).read item := by
  fun_induction readElements c item i with
  | case1 i h ih =>
    obtain ⟨n, hn, hp, ha, hread⟩ := ih
    have hnext : ∀ j, i + 1 + j = i + (j + 1) := fun j => by omega
    have hlt := Store.length_leavesFrom_lt (isPresent_element_iff.1 h)
    refine ⟨n + 1, Nat.lt_of_le_of_lt hn hlt, fun j hj => ?_, ?_, ?_⟩
    · cases j with
      | zero => exact h
      | succ j => exact hnext j ▸ hp j (Nat.lt_of_succ_lt_succ hj)
    · exact hnext n ▸ ha
    · rw [hread, List.range_succ_eq_map, List.mapM_cons, List.mapM_map]
      simp only [hnext]
      rfl
  | case2 i h =>
    exact ⟨0, Nat.zero_le _, fun j hj => absurd hj (Nat.not_lt_zero j), Bool.eq_false_iff.2 h, rfl⟩

/-- Where there is a first element, a list is read element by element. The walk that is bounded by the
number of leaves leaves no element out. -/
theorem bind_list_eq_readElements
    (hfirst : (c.lookup && c.store.has (Key.element c.key 0)) = true) (item : Shape) :
    c.bind (.list item) = .list <$> c.readElements item 0 := by
  obtain ⟨n, hn, hp, ha, hread⟩ := c.readElements_run item 0
  simp only [Nat.zero_add] at hp ha hread
  have hsize : n ≤ c.store.size := Nat.le_trans hn (Store.length_leavesFrom_le ..)
  rw [Cursor.bind, hread]
  simp only [hfirst, if_true, pure_bind, elements_eq_of_le hsize hp ha, List.mapM_map]
  rfl

/-- The element of a key is where its own key stands. -/
theorem bindAs_element (s : Store) (root : Text) {key : Text} (hk : Key.Referable key)
    (hu : Key.Unmarked key) (i : Nat) (shape : Shape) :
    s.bindAs (Key.element root i) (.key (Key.element key i)) shape =
      ((ofTag s ⟨key, none⟩ root).element i).bind shape := by
  rw [Store.bindAs_key _ _ (hk.element i), ofTag_key hu,
    ofTag_key (hu.covers (.inr (Key.below_element key i)))]
  rfl

/-- An element of a key is present when a leaf is stored at it or below it. -/
theorem isPresent_element_key (s : Store) {key : Text} (hu : Key.Unmarked key) (path : Text) (i : Nat) :
    ((ofTag s ⟨key, none⟩ path).element i).isPresent = true ↔
      ∃ q, Covers (Key.element key i) q ∧ (s.leaf? q).isSome = true := by
  have hkey : Key.Unmarked (Key.element key i) := hu.covers (.inr (Key.below_element key i))
  rw [ofTag_key hu]
  show s.has (Key.element key i) = true ↔ _
  simp only [has_iff_of_unmarked hkey, Store.mem_keys_iff, Option.isSome_iff_exists, and_comm]

end Cursor

namespace Store

/-- The elements of a key end somewhere, after no more than the leaves. -/
theorem exists_end (s : Store) (key : Text) : ∃ n ≤ s.size,
    (∀ i < n, s.has (Key.element key i) = true) ∧ s.has (Key.element key n) = false := by
  obtain ⟨n, hn, hp, ha, -⟩ := (Cursor.mk s key none true []).readElements_run .text 0
  simp only [Nat.zero_add] at hp ha
  exact ⟨n, Nat.le_trans hn (length_leavesFrom_le ..), hp, ha⟩

/-- Where a leaf is stored at or below the first element of a key, a list is read element by element,
up to the first at and below which none is. These elements are no more than the leaves, and the list is
what is bound at each, in order, or the first error. -/
theorem bind_list_elements {s : Store} {key : Text} (hk : Key.Referable key) (hu : Key.Unmarked key)
    (hfirst : ∃ q, Covers (Key.element key 0) q ∧ (s.leaf? q).isSome = true) (item : Shape) :
    ∃ n, 0 < n ∧ n ≤ s.size ∧
      (∀ i < n, ∃ q, Covers (Key.element key i) q ∧ (s.leaf? q).isSome = true) ∧
      (∀ q, Covers (Key.element key n) q → s.leaf? q = none) ∧
      (Cursor.ofTag s ⟨key, none⟩ item.rootName).readElements item 0 =
        ((List.range n).mapM fun i =>
          s.bindAs (Key.element item.rootName i) (.key (Key.element key i)) item) ∧
      s.bind (.key key) (.list item) =
        .list <$> (Cursor.ofTag s ⟨key, none⟩ item.rootName).readElements item 0 := by
  have hleaf := Cursor.isPresent_element_key s hu item.rootName
  obtain ⟨n, hn, hpresent, habsent, hrun⟩ :=
    (Cursor.ofTag s ⟨key, none⟩ item.rootName).readElements_run item 0
  simp only [Nat.zero_add, Cursor.read_element, ← Cursor.bindAs_element s _ hk hu]
    at hpresent habsent hrun
  refine ⟨n, ?_, ?_, fun i hi => (hleaf i).1 (hpresent i hi), fun q hq => ?_, hrun, ?_⟩
  · refine Nat.pos_of_ne_zero fun h => ?_
    rw [h, (hleaf 0).2 hfirst] at habsent
    cases habsent
  · rw [Cursor.ofTag_key hu] at hn
    exact Nat.le_trans hn (length_leavesFrom_le ..)
  · refine Option.not_isSome_iff_eq_none.1 fun hq' => ?_
    rw [(hleaf n).2 ⟨q, hq, hq'⟩] at habsent
    cases habsent
  · have hfirst := (hleaf 0).2 hfirst
    rw [bind_key _ hk]
    simp only [Cursor.ofTag_key hu] at hfirst ⊢
    refine Cursor.bind_list_eq_readElements ?_ item
    exact hfirst

/-- A gap ends the list. The element with the number 10 is not below that with the number 1. -/
theorem bind_list_elements_gap :
    Key.Referable ['k'] ∧ Key.Unmarked ['k'] ∧
      (∃ q, Covers (Key.element ['k'] 0) q ∧ (((empty.put ['k', '[', '0', ']'] ['a']).put
        ['k', '[', '1', '0', ']'] ['b']).leaf? q).isSome = true) ∧
      ((empty.put ['k', '[', '0', ']'] ['a']).put ['k', '[', '1', '0', ']'] ['b']).bind (.key ['k'])
        (.list .text) = .ok (.list [.text ['a']]) := by
  have hk : Key.Verbatim ['k'] := by simp [Key.Verbatim, Text.isBlank]
  have hfirst : ∃ q, Covers (Key.element ['k'] 0) q ∧ (((empty.put ['k', '[', '0', ']'] ['a']).put
      ['k', '[', '1', '0', ']'] ['b']).leaf? q).isSome = true :=
    ⟨_, .refl _, by decide⟩
  obtain ⟨n, hn, -, hpresent, -, hrun, hbind⟩ :=
    bind_list_elements hk.referable hk.unmarked hfirst .text
  have hone : n ≤ 1 := Nat.le_of_not_lt fun hlt => by
    obtain ⟨q, hq, hleaf⟩ := hpresent 1 hlt
    have h0 : q ≠ ['k', '[', '0', ']'] := fun h => absurd (h ▸ hq) (by decide)
    have h10 : q ≠ ['k', '[', '1', '0', ']'] := fun h => absurd (h ▸ hq) (by decide)
    rw [leaf?_put _ (List.cons_ne_nil _ _), if_neg h10,
      leaf?_empty_put (List.cons_ne_nil _ _) h0, ite_self] at hleaf
    cases hleaf
  obtain rfl : n = 1 := Nat.le_antisymm hone hn
  have htext : ∀ root, ((empty.put ['k', '[', '0', ']'] ['a']).put ['k', '[', '1', '0', ']']
      ['b']).bindAs root (.key (Key.element ['k'] 0)) .text = .ok (.text ['a']) := by
    intro root
    rw [bindAs_key _ _ (hk.referable.element 0)]
    cbv
  refine ⟨hk.referable, hk.unmarked, hfirst, ?_⟩
  rw [hbind, hrun, List.range_one, List.mapM_cons, htext]
  rfl

end Store

end ConfigGraph
