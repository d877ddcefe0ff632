import ConfigGraph.Binding.Cursor
import ConfigGraph.Proofs.Reference.Escape
import ConfigGraph.Proofs.Reference.Tag
import ConfigGraph.Proofs.Store.Existence
import ConfigGraph.Proofs.Store.Holds

/-!
# Cursors at trees

A cursor that stands where the store holds a tree (`Cursor.Reads`) sees the scalar of the tree
(`Reads.require`), and its elements and entries are those of the tree (`Reads.elements`,
`Reads.mem_entries`) and stand at the parts of it.
-/

namespace ConfigGraph

open Key (Covers Scope)

@[simp]
theorem ok_bind {α β ε : Type} (a : α) (f : α → Except ε β) : (Except.ok a >>= f) = f a := rfl

/-- A key that no mark of the root stands in front of. -/
def Key.Unmarked (k : Text) : Prop :=
  ∃ c rest, k = c :: rest ∧ c ≠ '$'

namespace Key.Unmarked

variable {k : Text}

theorem ne_nil (h : Unmarked k) : k ≠ [] := by
  obtain ⟨c, rest, rfl, -⟩ := h
  exact List.cons_ne_nil _ _

theorem normalize (h : Unmarked k) : Key.normalize k = k := by
  obtain ⟨c, rest, rfl, hc⟩ := h
  unfold Key.normalize
  split
  · rename_i h; cases h; exact absurd rfl hc
  · rename_i h; cases h; exact absurd rfl hc
  · rfl

theorem covers {q : Text} (h : Unmarked k) (hq : Covers k q) : Unmarked q := by
  obtain ⟨c, rest, rfl, hc⟩ := h
  obtain ⟨tail, rfl, -⟩ := hq.exists_append
  exact ⟨c, rest ++ tail, rfl, hc⟩

end Key.Unmarked

theorem Key.Verbatim.unmarked {k : Text} (h : Verbatim k) : Unmarked k := by
  obtain ⟨c, rest, rfl⟩ := List.exists_cons_of_ne_nil h.1
  exact ⟨c, rest, rfl, fun e => (h.2 c List.mem_cons_self).1 (e ▸ List.mem_cons_self)⟩

namespace Cursor

/-- The cursor looks up a key where the store holds a tree, and has no default. -/
structure Reads (c : Cursor) (v : Value) : Prop where
  lookup : c.lookup = true
  default : c.default? = none
  unmarked : Key.Unmarked c.key
  holds : c.store.Holds c.key v

variable {c : Cursor} {v : Value} {es : List (Text × Value)} {vs : List Value} {n : Text} {i : Nat}

theorem checkDefault_of_none (h : c.default? = none) (shape : Shape) :
    c.checkDefault shape = .ok () := by
  simp only [checkDefault, h, Option.any_none, Bool.and_false, Bool.false_eq_true, if_false]

/-- The position of a key that no mark of the root stands in front of. -/
theorem ofTag_key {key : Text} (hk : Key.Unmarked key) (s : Store) (path : Text) :
    ofTag s ⟨key, none⟩ path = ⟨s, key, none, true, path⟩ := by
  simp [ofTag, hk.normalize, hk.ne_nil]

/-- After a tree was set at a key at and below which nothing was, the key is at the tree. -/
theorem reads_set {s : Store} {key : Text} (hk : Key.Unmarked key) (hw : v.Ordered) (hp : v.Plain)
    (hfree : ∀ q, Covers key q → s.leaf? q = none) (path : Text) :
    (ofTag (s.set key v) ⟨key, none⟩ path).Reads v := by
  rw [ofTag_key hk]
  refine ⟨rfl, rfl, hk, ?_⟩
  show (s.set key v).Holds key v
  rw [Store.set, hk.normalize]
  exact Store.holds_write hw hp s (fun h => absurd h hk.ne_nil) fun q hq =>
    hfree q (hq.covers hk.ne_nil)

/-! ## Presence -/

theorem has_iff_of_unmarked {s : Store} {k : Text} (hk : Key.Unmarked k) :
    s.has k = true ↔ ∃ q ∈ s.keys, Covers k q := by
  simp only [Store.has_iff, hk.normalize, Scope, hk.ne_nil, false_or]

theorem Reads.has (h : c.Reads v) (hl : ∃ p t, v.HasLeaf p t) : c.store.has c.key = true := by
  obtain ⟨p, t, hl⟩ := hl
  exact (has_iff_of_unmarked h.unmarked).2
    ⟨_, Store.mem_keys_iff.2 ⟨t, h.holds.leaf?_key hl⟩, Path.covers_key h.unmarked.ne_nil p⟩

theorem Reads.isPresent (h : c.Reads v) (hl : ∃ p t, v.HasLeaf p t) : c.isPresent = true := by
  rw [Cursor.isPresent, h.lookup, h.has hl]
  rfl

/-! ## Scalars -/

/-- A scalar without references is read as it stands, but that its escapes are removed. -/
theorem Reads.require_of_none (h : c.Reads v) {t : Text} (hs : v.scalar? = some t)
    (ht : Reference.find? t = .ok none) : c.require = .ok (Reference.unescape t) := by
  have hget : c.store.get? c.key = some t := by
    rw [Store.get?, h.unmarked.normalize]
    exact h.holds.leaf?_key (.scalar hs)
  have hvalue : c.value = .ok (some (Reference.unescape t)) := by
    rw [value, h.lookup, if_pos rfl]
    exact Reference.tagValue_of_none h.unmarked.ne_nil List.not_mem_nil hget ht _
  rw [Cursor.require, hvalue]
  rfl

theorem Reads.require (h : c.Reads v) {s : Text} (hs : v.scalar? = some (Reference.escape s)) :
    c.require = .ok s := by
  rw [h.require_of_none hs (Reference.find?_escape s), Reference.unescape_escape]

theorem Reads.convert (h : c.Reads v) {α : Type} {s : Text} {a : α} {read? : Text → Option α}
    (hs : v.scalar? = some (Reference.escape s)) (hr : read? s = some a) (target : String) :
    c.convert target read? = .ok a := by
  rw [Cursor.convert, h.require hs, ok_bind]
  simp only [hr]
  rfl

/-! ## Elements -/

theorem unmarked_element (hk : Key.Unmarked c.key) (i : Nat) : Key.Unmarked (Key.element c.key i) :=
  hk.covers (.inr (Key.below_element _ i))

theorem Reads.element (h : c.Reads (.seq vs)) (hi : vs[i]? = some v) : (c.element i).Reads v where
  lookup := rfl
  default := rfl
  unmarked := unmarked_element h.unmarked i
  holds := h.holds.item hi

theorem Reads.not_isPresent_element (h : c.Reads (.seq vs)) (hi : vs.length ≤ i) :
    (c.element i).isPresent = false := by
  refine Bool.eq_false_iff.2 fun hp => ?_
  obtain ⟨q, hq, hc⟩ := (has_iff_of_unmarked (unmarked_element h.unmarked i)).1 hp
  obtain ⟨t, ht⟩ := Store.mem_keys_iff.1 hq
  obtain ⟨j, hj, hcj⟩ := h.holds.exists_item (Key.scope_of_element hc) ht
  exact (Key.apart_element c.key (by omega : j ≠ i)).not_covers hcj hc

/-- Elements that are present up to a number of leaves, and not at it, are the elements of the cursor. -/
theorem elements_eq_of_le {n : Nat} (hsize : n ≤ c.store.size)
    (hp : ∀ i < n, (c.element i).isPresent = true) (ha : (c.element n).isPresent = false) :
    c.elements = (List.range n).map c.element := by
  obtain ⟨m, hm⟩ := Nat.exists_eq_add_of_le hsize
  have hpresent : ∀ e ∈ (List.range n).map c.element, e.isPresent = true := by
    intro e he
    obtain ⟨i, hi, rfl⟩ := List.mem_map.1 he
    exact hp i (List.mem_range.1 hi)
  rw [Cursor.elements, hm, List.range_add, List.map_append, List.takeWhile_append_of_pos hpresent]
  cases m with
  | zero => simp
  | succ m => simp [List.range_succ_eq_map, ha]

/-- Elements that are present up to a number, and not at it, are the elements of the cursor. -/
theorem elements_eq (hk : Key.Unmarked c.key) {n : Nat} (hp : ∀ i < n, (c.element i).isPresent = true)
    (ha : (c.element n).isPresent = false) : c.elements = (List.range n).map c.element := by
  -- the walk could go on to the number of leaves, which that of the elements does not exceed
  have hsize : n ≤ c.store.size := by
    refine Store.le_size_of_elements (k := c.key) fun i hi => ?_
    exact (has_iff_of_unmarked (unmarked_element hk i)).1 (hp i hi)
  exact elements_eq_of_le hsize hp ha

/-- The elements are those of the sequence; the walk over them ends with it. -/
theorem Reads.elements (h : c.Reads (.seq vs)) (hl : ∀ v ∈ vs, ∃ p t, v.HasLeaf p t) :
    c.elements = (List.range vs.length).map c.element :=
  elements_eq h.unmarked
    (fun _ hi => (h.element (List.getElem?_eq_getElem hi)).isPresent (hl _ (List.getElem_mem hi)))
    (h.not_isPresent_element (Nat.le_refl _))

/-! ## Entries -/

theorem Reads.entry (h : c.Reads (.map es)) (hs : Entries.Sorted es) (hn : ∀ e ∈ es, Key.IsName e.1)
    (he : (n, v) ∈ es) : (c.entry n).Reads v where
  lookup := rfl
  default := rfl
  unmarked := h.unmarked.covers (.inr (Key.below_join h.unmarked.ne_nil (hn _ he).1))
  holds := h.holds.entry hs hn he

theorem Reads.not_has_entry (h : c.Reads (.map es)) (hn : ∀ e ∈ es, Key.IsName e.1)
    (hname : Key.IsName n) (hne : ∀ e ∈ es, e.1 ≠ n) : c.store.has (Key.join c.key n) = false := by
  have hb := Key.below_join h.unmarked.ne_nil hname.1
  refine Bool.eq_false_iff.2 fun hp => ?_
  obtain ⟨q, hq, hc⟩ := (has_iff_of_unmarked (h.unmarked.covers (.inr hb))).1 hp
  obtain ⟨t, ht⟩ := Store.mem_keys_iff.1 hq
  obtain ⟨e, he, hce⟩ := h.holds.exists_entry hn (Key.scope_of_join hname.1 hc) ht
  exact (Key.apart_join c.key (hn e he) hname (hne e he)).not_covers hce hc

/-- In the key of a leaf of an entry, the name of the entry ends at a dot or with the key, unless the
entry is a sequence. -/
theorem exists_rest {k : Text} (hk : k ≠ []) (hn : Key.IsName n) (hp : v.Plain)
    (hv : ∀ vs, v ≠ .seq vs) {p : List Segment} {t : Text} (hl : v.HasLeaf p t) :
    ∃ rest, Path.key (Key.join k n) p = k ++ '.' :: rest ∧ rest.takeWhile (· != '.') = n := by
  have hdot : ∀ c ∈ n, (c != '.') = true := fun c hc => by
    simpa using fun e : c = '.' => hn.2.1 (e ▸ hc)
  cases hl with
  | scalar => exact ⟨n, Key.join_eq hk hn.1, List.takeWhile_eq_self_iff.2 hdot⟩
  | @entry es m t w p he _ =>
    have hm := ((Value.plain_map_iff.1 hp).1 _ he).1
    have hkn := Key.join_ne_nil k hn.1
    obtain ⟨tail, hq, -⟩ := (Path.covers_key (Key.join_ne_nil (Key.join k n) hm) p).exists_append
    refine ⟨n ++ '.' :: (m ++ tail), ?_, ?_⟩
    · rw [Path.key, hq, Key.join_eq hkn hm, Key.join_eq hk hn.1]
      simp only [List.append_assoc, List.cons_append]
    · rw [List.takeWhile_append_of_pos hdot, List.takeWhile_cons_of_neg (by simp), List.append_nil]
  | item => exact absurd rfl (hv _)

/-- The names below the key are what stands behind it up to a dot, in the keys of the leaves. -/
theorem Reads.mem_entries_iff (h : c.Reads v) : n ∈ c.entries ↔ ∃ p t rest, v.HasLeaf p t ∧
    Path.key c.key p = c.key ++ '.' :: rest ∧ rest.takeWhile (· != '.') = n := by
  rw [Cursor.entries, Store.mem_group_iff, h.unmarked.normalize]
  simp only [h.unmarked.ne_nil, if_false, Store.mem_keys_iff]
  constructor
  · rintro ⟨rest, hname, t, ht⟩
    obtain ⟨p, hl, hq⟩ := (h.holds _ t (.inr (.inr ⟨rest, .inl rfl⟩))).1 ht
    exact ⟨p, t, rest, hl, hq, hname⟩
  · rintro ⟨p, t, rest, hl, hq, hname⟩
    exact ⟨rest, hname, t, hq ▸ h.holds.leaf?_key hl⟩

/-- The names below the key are those of the map. -/
theorem Reads.mem_entries (h : c.Reads (.map es)) (hp : (Value.map es).Plain)
    (hv : ∀ e ∈ es, ∀ vs, e.2 ≠ .seq vs) (hl : ∀ e ∈ es, ∃ p t, e.2.HasLeaf p t) :
    n ∈ c.entries ↔ ∃ v, (n, v) ∈ es := by
  obtain ⟨hn, hp⟩ := Value.plain_map_iff.1 hp
  have hk := h.unmarked.ne_nil
  rw [h.mem_entries_iff]
  constructor
  · rintro ⟨p, t, rest, hl, hq, rfl⟩
    obtain ⟨m, v, r, he, hlv, rfl⟩ := Value.hasLeaf_map_iff.1 hl
    obtain ⟨rest', hq', hname⟩ := exists_rest hk (hn _ he) (hp _ he) (hv _ he) hlv
    rw [Path.key, hq', List.append_cancel_left_eq, List.cons.injEq] at hq
    rw [← hq.2, hname]
    exact ⟨v, he⟩
  · rintro ⟨v, he⟩
    obtain ⟨p, t, hl⟩ := hl _ he
    obtain ⟨rest, hq, hname⟩ := exists_rest hk (hn _ he) (hp _ he) (hv _ he) hl
    exact ⟨_, t, rest, .entry he hl, hq, hname⟩

end Cursor

end ConfigGraph
