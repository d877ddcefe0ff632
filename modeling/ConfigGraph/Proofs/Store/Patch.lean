import ConfigGraph.Proofs.Store.Path
import ConfigGraph.Proofs.Store.Write

/-!
# What a write changes

A patch says which leaves a write brings (`contributes`) and which keys it clears (`nodes`). A write
has the effect of a patch (`Patch.Effect`) when afterwards exactly the contributed leaves are there,
and of the leaves before those that the patch does not touch. Writing a tree has the effect of the
patch of its leaves and nodes (`write_effect`), by induction on the tree: what different children of a
map or a sequence write is apart, so their patches add up (`Patch.Effect.foldl`).
-/

namespace ConfigGraph

/-- What a write brings to a store. -/
structure Patch where
  /-- A leaf is written under the key with the text. -/
  contributes : Text → Text → Prop
  /-- There is a map or a sequence at the key. -/
  nodes : Text → Prop

namespace Patch

/-- The patch concerns a key: it contributes the key, something above it or something below it, or
has a map or a sequence at it. -/
def Touches (p : Patch) (q : Text) : Prop :=
  (∃ k t, p.contributes k t ∧ (q = k ∨ Key.Below k q ∨ Key.Below q k)) ∨ p.nodes q

/-- Afterwards the contributed leaves are there, and those before that are not touched. -/
def Effect (p : Patch) (s s' : Store) : Prop :=
  ∀ q t, s'.leaf? q = some t ↔ p.contributes q t ∨ ¬ p.Touches q ∧ s.leaf? q = some t

/-- The patches of some writes together. -/
def union {α : Type} (l : List α) (p : α → Patch) : Patch where
  contributes q t := ∃ a ∈ l, (p a).contributes q t
  nodes q := ∃ a ∈ l, (p a).nodes q

theorem touches_union {α : Type} {l : List α} {p : α → Patch} {q : Text} :
    (union l p).Touches q ↔ ∃ a ∈ l, (p a).Touches q := by
  constructor
  · rintro (⟨k, t, ⟨a, ha, hk⟩, hq⟩ | ⟨a, ha, hq⟩)
    · exact ⟨a, ha, .inl ⟨k, t, hk, hq⟩⟩
    · exact ⟨a, ha, .inr hq⟩
  · rintro ⟨a, ha, ⟨k, t, hk, hq⟩ | hq⟩
    · exact .inl ⟨k, t, ⟨a, ha, hk⟩, hq⟩
    · exact .inr ⟨a, ha, hq⟩

theorem Effect.congr {p p' : Patch} {s s' : Store} (h : p.Effect s s')
    (hc : ∀ q t, p'.contributes q t ↔ p.contributes q t) (hn : ∀ q, p'.nodes q ↔ p.nodes q) :
    p'.Effect s s' := by
  intro q t
  rw [h q t]
  simp only [Touches, hc, hn]

/-- Writes after each other, none of which touches what one before it contributes, have the effect of
their patches together. -/
theorem Effect.foldl {α : Type} {f : Store → α → Store} {p : α → Patch} {l : List α}
    (hf : ∀ a ∈ l, ∀ s, (p a).Effect s (f s a))
    (hd : l.Pairwise fun a b => ∀ q t, (p a).contributes q t → ¬ (p b).Touches q) (s : Store) :
    (union l p).Effect s (l.foldl f s) := by
  induction l generalizing s with
  | nil => intro q t; simp [union, Touches]
  | cons a l ih =>
    obtain ⟨ha, hl⟩ := List.pairwise_cons.1 hd
    intro q t
    rw [List.foldl_cons, ih (fun b hb => hf b (List.mem_cons_of_mem _ hb)) hl (f s a) q t,
      hf a List.mem_cons_self s q t, touches_union, touches_union]
    simp only [union, List.mem_cons, exists_eq_or_imp, not_or, not_exists, not_and]
    constructor
    · rintro (h | ⟨h, h' | ⟨h', hs⟩⟩)
      · exact .inl (.inr h)
      · exact .inl (.inl h')
      · exact .inr ⟨⟨h', h⟩, hs⟩
    · rintro ((h | h) | ⟨⟨h', h⟩, hs⟩)
      · exact .inr ⟨fun b hb => ha b hb q t h, .inl h⟩
      · exact .inl h
      · exact .inr ⟨h, .inr ⟨h', hs⟩⟩

/-- One leaf. -/
def leaf (k text : Text) : Patch where
  contributes q t := q = k ∧ t = text
  nodes _ := False

theorem effect_put (s : Store) {k : Text} (hk : k ≠ []) (text : Text) :
    (leaf k text).Effect s (s.put k text) := by
  intro q t
  have ht : (leaf k text).Touches q ↔ q = k ∨ Key.related k q = true := by
    simp [Touches, leaf]
  rw [Store.leaf?_put s hk, ht]
  by_cases hq : q = k
  · simp only [hq, if_true, Option.some.injEq, leaf, true_and, true_or, not_true_eq_false,
      false_and, or_false, eq_comm]
  · by_cases hr : Key.related k q = true
    · simp [hq, hr, leaf]
    · simp [hq, hr, leaf]

/-- A write that starts with erasing a key touches that key, too. -/
theorem Effect.of_erase {p : Patch} {s s' : Store} {k : Text} (h : p.Effect (s.erase k) s') :
    Effect ⟨p.contributes, fun q => k = q ∨ p.nodes q⟩ s s' := by
  intro q t
  have ht : Touches ⟨p.contributes, fun q => k = q ∨ p.nodes q⟩ q ↔ q = k ∨ p.Touches q := by
    simp only [Touches]
    rw [or_left_comm, eq_comm]
  rw [h q t, Store.leaf?_erase, ht, not_or]
  by_cases hq : q = k
  · simp [hq]
  · simp [hq]

/-- The patch of a tree under a key. The root key holds no text. -/
def ofValue (key : Text) (v : Value) : Patch where
  contributes q t := q ≠ [] ∧ ∃ p, v.HasLeaf p t ∧ Path.key key p = q
  nodes q := ∃ p, v.HasNode p ∧ Path.key key p = q

/-- What is reached through the items of a sequence, by the keys of the items. -/
theorem exists_item_iff {R : Value → List Segment → Prop} {vs : List Value} {k q : Text} :
    (∃ p, (∃ i v r, vs[i]? = some v ∧ R v r ∧ p = .index i :: r) ∧ Path.key k p = q) ↔
      ∃ e ∈ vs.zipIdx, ∃ r, R e.1 r ∧ Path.key (Key.element k e.2) r = q := by
  constructor
  · rintro ⟨_, ⟨i, v, r, hi, hr, rfl⟩, hq⟩
    exact ⟨(v, i), List.mem_zipIdx_iff_getElem?.2 hi, r, hr, hq⟩
  · rintro ⟨⟨v, i⟩, he, r, hr, hq⟩
    exact ⟨_, ⟨i, v, r, List.mem_zipIdx_iff_getElem?.1 he, hr, rfl⟩, hq⟩

/-- What is reached through the entries of a map, by the keys of the entries. -/
theorem exists_entry_iff {R : Value → List Segment → Prop} {es : List (Text × Value)} {k q : Text} :
    (∃ p, (∃ n v r, (n, v) ∈ es ∧ R v r ∧ p = .name n :: r) ∧ Path.key k p = q) ↔
      ∃ e ∈ es, ∃ r, R e.2 r ∧ Path.key (Key.join k e.1) r = q := by
  constructor
  · rintro ⟨_, ⟨n, v, r, he, hr, rfl⟩, hq⟩
    exact ⟨(n, v), he, r, hr, hq⟩
  · rintro ⟨⟨n, v⟩, he, r, hr, hq⟩
    exact ⟨_, ⟨n, v, r, he, hr, rfl⟩, hq⟩

/-- What a tree contributes under a key, and its nodes, lie at the key or below it. -/
theorem ofValue_not_touches {k q : Text} (v : Value) (hk : k ≠ []) (h : Key.Apart k q) :
    ¬ (ofValue k v).Touches q := by
  rintro (⟨_, t, ⟨-, p, -, rfl⟩, hq⟩ | ⟨p, -, rfl⟩)
  · exact (h.mono (Path.covers_key hk p) (.refl q)).unrelated hq
  · exact h.1 (Path.covers_key hk p)

/-- A sequence does not touch the elements behind its end. -/
theorem ofValue_seq_not_touches {k q : Text} {vs : List Value} {i : Nat} (hi : vs.length ≤ i)
    (hq : Key.Covers (Key.element k i) q) : ¬ (ofValue k (.seq vs)).Touches q := by
  have hapart : ∀ {j : Nat} {v : Value} (r : List Segment), vs[j]? = some v →
      Key.Apart (Path.key (Key.element k j) r) q := by
    intro j v r hj
    have hlt : j < vs.length := (List.getElem?_eq_some_iff.1 hj).1
    exact (Key.apart_element k (by omega : j ≠ i)).mono
      (Path.covers_key (Key.element_ne_nil k j) r) hq
  rintro (⟨_, t, ⟨-, p, hl, rfl⟩, hr⟩ | ⟨p, hn, rfl⟩)
  · obtain ⟨j, v, r, hj, -, rfl⟩ := Value.hasLeaf_seq_iff.1 hl
    exact (hapart r hj).unrelated hr
  · rcases Value.hasNode_seq_iff.1 hn with rfl | ⟨j, v, r, hj, -, rfl⟩
    · exact Key.not_covers_element k i hq
    · exact (hapart r hj).1 (.refl _)

/-- Trees under keys that are apart do not touch each other's leaves. -/
theorem ofValue_apart {k k' : Text} (v w : Value) (hk : k ≠ []) (hk' : k' ≠ [])
    (h : Key.Apart k k') (q t : Text) (hq : (ofValue k v).contributes q t) :
    ¬ (ofValue k' w).Touches q := by
  obtain ⟨-, p, -, rfl⟩ := hq
  exact ofValue_not_touches w hk' (h.symm.mono (.refl _) (Path.covers_key hk p))

end Patch

namespace Store

open Patch in
/-- Putting a text has the effect of the scalar that it stands for. Under the root key neither does
anything. -/
theorem effect_put_scalar {v : Value} {text : Text} (h : v.scalar? = some text) (s : Store)
    (key : Text) : (Patch.ofValue key v).Effect s (s.put key text) := by
  by_cases hk : key = []
  · subst hk
    have hc : ∀ q t, ¬ (ofValue [] v).contributes q t := by
      rintro q t ⟨hq, p, hl, rfl⟩
      obtain ⟨rfl, -⟩ := (Value.hasLeaf_scalar_iff h).1 hl
      exact hq rfl
    have ht : ∀ q, ¬ (ofValue [] v).Touches q := by
      rintro q (⟨k, t, hk, -⟩ | ⟨p, hn, -⟩)
      · exact hc k t hk
      · exact Value.not_hasNode_scalar h p hn
    intro q t
    rw [put_nil, iff_false_intro (hc q t), iff_false_intro (ht q), false_or, not_false_iff, true_and]
  · refine (effect_put s hk text).congr (fun q t => ?_) fun q => ?_
    · simp only [ofValue, Value.hasLeaf_scalar_iff h, leaf]
      constructor
      · rintro ⟨-, p, ⟨rfl, rfl⟩, rfl⟩
        exact ⟨rfl, rfl⟩
      · rintro ⟨rfl, rfl⟩
        exact ⟨hk, [], ⟨rfl, rfl⟩, rfl⟩
    · simp [ofValue, Value.not_hasNode_scalar h, leaf]

open Patch in
/-- Writing a tree whose names can stand in keys has the effect of its leaves and nodes. -/
theorem write_effect {v : Value} (hw : v.Ordered) (hp : v.Plain) (s : Store) (key : Text) :
    (Patch.ofValue key v).Effect s (s.write key v) := by
  induction v using Value.induct generalizing s key with
  | scalar v text h =>
    rw [write_scalar h]
    exact effect_put_scalar h s key
  | seq vs ih =>
    have hw := Value.ordered_seq_iff.1 hw
    have hp := Value.plain_seq_iff.1 hp
    have hd := pairwise_zipIdx vs
    rw [write_seq]
    refine (Effect.foldl (p := fun e => ofValue (Key.element key e.2) e.1) (fun e he t => ?_)
      (hd.imp fun {a b} hab => ?_) _).of_erase.congr (fun q t => ?_) fun q => ?_
    · have hv := List.mem_of_getElem? (List.mem_zipIdx_iff_getElem?.1 he)
      exact ih e.1 hv (hw _ hv) (hp _ hv) t _
    · exact ofValue_apart a.1 b.1 (Key.element_ne_nil _ _) (Key.element_ne_nil _ _)
        (Key.apart_element key hab)
    · simp only [ofValue, union, Value.hasLeaf_seq_iff, exists_item_iff (R := fun v r => v.HasLeaf r t)]
      constructor
      · rintro ⟨hq, e, he, h⟩
        exact ⟨e, he, hq, h⟩
      · rintro ⟨e, he, hq, h⟩
        exact ⟨hq, e, he, h⟩
    · simp only [ofValue, union, Value.hasNode_seq_iff, or_and_right, exists_or, exists_eq_left,
        exists_item_iff (R := fun v r => v.HasNode r), Path.key]
  | map es ih =>
    obtain ⟨hs, hw⟩ := Value.ordered_map_iff.1 hw
    obtain ⟨hn, hp⟩ := Value.plain_map_iff.1 hp
    have hd : es.Pairwise fun a b => a.1 ≠ b.1 := hs.imp fun {a b} hb e => by
      rw [e, Text.before_irrefl] at hb
      cases hb
    have hd : es.Pairwise fun a b => Key.Apart (Key.join key a.1) (Key.join key b.1) :=
      List.Pairwise.imp_of_mem (fun ha hb hab => Key.apart_join key (hn _ ha) (hn _ hb) hab) hd
    rw [write_map]
    refine (Effect.foldl (p := fun e => ofValue (Key.join key e.1) e.2) (fun e he t => ?_)
      (List.Pairwise.imp_of_mem (fun {a b} ha hb hab => ?_) hd) _).of_erase.congr
      (fun q t => ?_) fun q => ?_
    · exact ih e he (hw e he) (hp e he) t _
    · exact ofValue_apart a.2 b.2 (Key.join_ne_nil key (hn a ha).1) (Key.join_ne_nil key (hn b hb).1)
        hab
    · simp only [ofValue, union, Value.hasLeaf_map_iff,
        exists_entry_iff (R := fun v r => v.HasLeaf r t)]
      constructor
      · rintro ⟨hq, e, he, h⟩
        exact ⟨e, he, hq, h⟩
      · rintro ⟨e, he, hq, h⟩
        exact ⟨hq, e, he, h⟩
    · simp only [ofValue, union, Value.hasNode_map_iff, or_and_right, exists_or, exists_eq_left,
        exists_entry_iff (R := fun v r => v.HasNode r), Path.key]

end Store

end ConfigGraph
