import ConfigGraph.Proofs.Store.Edit
import ConfigGraph.Proofs.Store.Existence
import ConfigGraph.Proofs.Store.Path
import ConfigGraph.Store.Read

/-!
# Reading the keys that a store lists

Every key of a store has been spelled by an edit (`mem_keys_runAll`): a name in a tree is joined as it
stands, and the root mark is taken off once, from the key that the tree is set under. A reader takes
the mark off, too, so a listed key can be read with the mark in front, and as it stands when it is
spelled without one (`listed_gives`). All that a tree spells under a key without the mark is without
it (`Value.Spells.normalize`), so what is at stake are the names at the root: after edits that spell
no key with the mark, all listed keys can be read as they stand (`gives_of_unmarked`).
-/

namespace ConfigGraph

namespace Key

/-- The keys that are spelled without the root mark. -/
theorem normalize_eq_self_iff {k : Text} :
    normalize k = k ↔ k ≠ ['$'] ∧ ∀ rest, k ≠ '$' :: '.' :: rest := by
  unfold normalize
  split
  · simp
  · rename_i rest
    refine ⟨fun h => absurd (congrArg List.length h) ?_, fun h => absurd rfl (h.2 rest)⟩
    simp only [List.length_cons]
    omega
  · rename_i hroot hmark
    exact ⟨fun _ => ⟨hroot, hmark⟩, fun _ => rfl⟩

/-- A key that is spelled without the root mark covers such keys only. -/
theorem normalize_of_covers {k q : Text} (hk : normalize k = k) (hne : k ≠ []) (h : Covers k q) :
    normalize q = q := by
  obtain ⟨rest, rfl, hrest⟩ := h.exists_append
  rw [normalize_eq_self_iff] at hk ⊢
  match k, hne with
  | [c], _ =>
    have hc : c ≠ '$' := by simpa using hk.1
    exact ⟨fun e => hc (List.cons.inj e).1, fun _ e => hc (List.cons.inj e).1⟩
  | c :: d :: k, _ =>
    refine ⟨fun e => by simp at e, fun tail e => hk.2 k ?_⟩
    simp only [List.cons_append, List.cons.injEq] at e
    rw [e.1, e.2.1]

end Key

namespace Value

/-- A tree under a key has a text that is stored under `q`. -/
def Spells (v : Value) (key q : Text) : Prop :=
  q ≠ [] ∧ ∃ p t, v.HasLeaf p t ∧ Path.key key p = q

/-- What a tree spells under a key without the root mark is without it. -/
theorem Spells.normalize {v : Value} {key q : Text} (h : v.Spells key q)
    (hk : Key.normalize key = key) (hne : key ≠ []) : Key.normalize q = q := by
  obtain ⟨-, p, t, -, rfl⟩ := h
  exact Key.normalize_of_covers hk hne (Path.covers_key hne p)

theorem Spells.item {vs : List Value} {v : Value} {i : Nat} {key q : Text}
    (hi : (v, i) ∈ vs.zipIdx) (h : v.Spells (Key.element key i) q) : (seq vs).Spells key q := by
  obtain ⟨hq, p, t, hp, rfl⟩ := h
  exact ⟨hq, _, t, .item (List.mem_zipIdx_iff_getElem?.1 hi) hp, rfl⟩

theorem Spells.entry {es : List (Text × Value)} {n key q : Text} {v : Value} (he : (n, v) ∈ es)
    (h : v.Spells (Key.join key n) q) : (map es).Spells key q := by
  obtain ⟨hq, p, t, hp, rfl⟩ := h
  exact ⟨hq, _, t, .entry he hp, rfl⟩

end Value

namespace Edit

mutual

/-- An edit stores a text under `q`, when it does not fail. -/
def Spells : Edit → Text → Prop
  | set key v, q => v.Spells (Key.normalize key) q
  | setSerial key v, q => ∃ tree, v.toValue = .ok tree ∧ tree.Spells (Key.normalize key) q
  | merge edits, q => SpellsAny edits q
  | read formats ext bytes, q => ∃ tree, formats.decode ext bytes = .ok tree ∧ tree.Spells [] q
  | load files formats path, q => ∃ bytes tree, files.lookup path = .content bytes ∧
      formats.decode (FileTree.extension path) bytes = .ok tree ∧ tree.Spells [] q

/-- One of some edits stores a text under `q`, when it does not fail. -/
def SpellsAny : List Edit → Text → Prop
  | [], _ => False
  | e :: rest, q => Spells e q ∨ SpellsAny rest q

end

/-- An edit spells no key with the root mark. -/
def Unmarked (e : Edit) : Prop :=
  ∀ q, e.Spells q → Key.normalize q = q

/-- Any tree is spelled without the mark below a key that is. -/
theorem unmarked_set {key : Text} (hk : Key.normalize (Key.normalize key) = Key.normalize key)
    (hne : Key.normalize key ≠ []) (v : Value) : (set key v).Unmarked :=
  fun _ h => Value.Spells.normalize h hk hne

theorem unmarked_setSerial {key : Text}
    (hk : Key.normalize (Key.normalize key) = Key.normalize key) (hne : Key.normalize key ≠ [])
    (v : Serial) : (setSerial key v).Unmarked :=
  fun _ ⟨_, _, h⟩ => Value.Spells.normalize h hk hne

theorem spellsAny_iff {edits : List Edit} {q : Text} :
    SpellsAny edits q ↔ ∃ e ∈ edits, e.Spells q := by
  induction edits with
  | nil => simp [SpellsAny]
  | cons e rest ih => simp [SpellsAny, ih]

end Edit

namespace Store

/-- The keys of a store that a tree has been written to. -/
theorem mem_keys_write {v : Value} {s : Store} {key q : Text} (h : q ∈ (s.write key v).keys) :
    q ∈ s.keys ∨ v.Spells key q := by
  induction v using Value.induct generalizing s key with
  | scalar v t hv =>
    rw [write_scalar hv] at h
    by_cases hk : key = []
    · subst hk
      exact .inl h
    · rcases mem_keys_put hk h with rfl | ⟨h, -⟩
      · exact .inr ⟨hk, [], t, .scalar hv, rfl⟩
      · exact .inl h
  | seq vs ih =>
    rw [write_seq] at h
    refine List.foldlRecOn
      (motive := fun t : Store => q ∈ t.keys → q ∈ s.keys ∨ (Value.seq vs).Spells key q)
      _ _ (fun h => .inl (mem_keys_erase h)) (fun t ht e he h => ?_) h
    rcases ih e.1 ((List.mem_zipIdx' he).2 ▸ List.getElem_mem _) h with h | h
    · exact ht h
    · exact .inr (.item he h)
  | map es ih =>
    rw [write_map] at h
    refine List.foldlRecOn
      (motive := fun t : Store => q ∈ t.keys → q ∈ s.keys ∨ (Value.map es).Spells key q)
      _ _ (fun h => .inl (mem_keys_erase h)) (fun t ht e he h => ?_) h
    rcases ih e he h with h | h
    · exact ht h
    · exact .inr (.entry he h)

/-- Merging stores keys as the other store lists them. -/
theorem mem_keys_merge {s other : Store} {q : Text} (h : q ∈ (s.merge other).keys) :
    q ∈ s.keys ∨ q ∈ other.keys := by
  refine List.foldlRecOn (motive := fun t : Store => q ∈ t.keys → q ∈ s.keys ∨ q ∈ other.keys)
    other.entries _ .inl (fun t ht e he h => ?_) h
  by_cases hk : e.1 = []
  · obtain ⟨key, text⟩ := e
    subst hk
    exact ht h
  · rcases mem_keys_put hk h with rfl | ⟨h, -⟩
    · exact .inr (List.mem_map_of_mem he)
    · exact ht h

theorem mem_keys_read {s t : Store} {formats : Registry} {ext : Text} {bytes : List UInt8}
    (ht : s.read formats ext bytes = .ok t) {q : Text} (h : q ∈ t.keys) :
    q ∈ s.keys ∨ ∃ tree, formats.decode ext bytes = .ok tree ∧ tree.Spells [] q := by
  unfold Store.read at ht
  cases hd : formats.decode ext bytes with
  | error e => rw [hd] at ht; cases ht
  | ok tree =>
    rw [hd] at ht
    cases ht
    exact (mem_keys_write h).imp_right fun h => ⟨tree, rfl, h⟩

/-- What holds of what a failing operation leaves and of what it gives. -/
theorem mem_keys_kept {ε : Type} {s : Store} {r : Except ε Store} {q : Text} {P : Prop}
    (h : q ∈ (Edit.kept s r).keys) (hr : ∀ t, r = .ok t → q ∈ t.keys → q ∈ s.keys ∨ P) :
    q ∈ s.keys ∨ P := by
  cases r with
  | error e => exact .inl h
  | ok t => exact hr t rfl h

end Store

namespace Edit

open Store

mutual

/-- The keys after an edit: those from before, and those that the edit spells. -/
theorem mem_keys_run {s : Store} {q : Text} : ∀ e : Edit,
    q ∈ (run s e).keys → q ∈ s.keys ∨ e.Spells q
  | set key v, h => mem_keys_write h
  | setSerial key v, h => by
    refine mem_keys_kept h fun t ht h => ?_
    unfold Store.setSerial at ht
    cases hv : v.toValue with
    | error e => rw [hv] at ht; cases ht
    | ok tree =>
      rw [hv] at ht
      cases ht
      exact (mem_keys_write h).imp_right fun h => ⟨tree, hv, h⟩
  | merge edits, h => by
    rcases mem_keys_merge h with h | h
    · exact .inl h
    · exact .inr ((mem_keys_runAll edits h).resolve_left List.not_mem_nil)
  | read formats ext bytes, h => mem_keys_kept h fun t ht h => mem_keys_read ht h
  | load files formats path, h => by
    refine mem_keys_kept h fun t ht h => ?_
    unfold Store.load at ht
    split at ht
    · cases ht
    · cases ht
    · rename_i bytes hb
      exact (mem_keys_read ht h).imp_right fun ⟨tree, hd, h⟩ => ⟨bytes, tree, hb, hd, h⟩

theorem mem_keys_runAll {s : Store} {q : Text} : ∀ edits : List Edit,
    q ∈ (runAll s edits).keys → q ∈ s.keys ∨ SpellsAny edits q
  | [], h => .inl h
  | e :: rest, h => by
    rcases mem_keys_runAll rest h with h | h
    · exact (mem_keys_run e h).imp_right .inl
    · exact .inr (.inr h)

end

end Edit

namespace Store

/-- Every way of reading a key gives this text. -/
structure Gives (s : Store) (key text : Text) : Prop where
  get : s.get? key = some text
  has : s.has key = true
  toValue : s.toValue key = some (.text text)

theorem gives_of_leaf {s : Store} {key text : Text} (h : s.leaf? (Key.normalize key) = some text) :
    s.Gives key text where
  get := h
  has := has_iff.2 ⟨_, mem_keys_iff.2 ⟨text, h⟩, .inr (.refl _)⟩
  toValue := by simp only [Store.toValue, h]

/-- After edits that spell no key with the root mark, every listed key reads what is stored under it. -/
theorem gives_of_unmarked {edits : List Edit} (hedits : ∀ e ∈ edits, e.Unmarked) {k : Text}
    (hk : k ∈ (Edit.runAll empty edits).keys) :
    ∃ text, (Edit.runAll empty edits).leaf? k = some text ∧
      (Edit.runAll empty edits).Gives k text := by
  have hspelled := (Edit.mem_keys_runAll edits hk).resolve_left List.not_mem_nil
  obtain ⟨e, he, hspells⟩ := Edit.spellsAny_iff.1 hspelled
  obtain ⟨text, ht⟩ := mem_keys_iff.1 hk
  exact ⟨text, ht, gives_of_leaf ((hedits e he k hspells).symm ▸ ht)⟩

/-- Whatever edits are made to the empty store: a key that it lists has been spelled by one of them,
and the text stored under it is read with the root mark in front of the key. The key as it is listed
reads that text when it is spelled without the mark; so all listed keys do when the edits spell keys
without it. -/
theorem listed_gives (edits : List Edit) {k : Text} (hk : k ∈ (Edit.runAll empty edits).keys) :
    ∃ text, (Edit.runAll empty edits).leaf? k = some text ∧
      (Edit.runAll empty edits).Gives ('$' :: '.' :: k) text ∧
      (Key.normalize k = k → (Edit.runAll empty edits).Gives k text) ∧
      ∃ e ∈ edits, e.Spells k := by
  obtain ⟨text, ht⟩ := mem_keys_iff.1 hk
  refine ⟨text, ht, gives_of_leaf ht, fun hn => gives_of_leaf (hn.symm ▸ ht), ?_⟩
  exact Edit.spellsAny_iff.1 ((Edit.mem_keys_runAll edits hk).resolve_left List.not_mem_nil)

/-- A store that lists the name of an entry at the root. -/
theorem listed_gives_entry :
    ['a'] ∈ (Edit.runAll empty [.set ['$'] (.map [(['a'], .text ['x'])])]).keys ∧
    ∃ text, (Edit.runAll empty [.set ['$'] (.map [(['a'], .text ['x'])])]).leaf? ['a'] = some text ∧
      (Edit.runAll empty [.set ['$'] (.map [(['a'], .text ['x'])])]).Gives ['a'] text := by
  have hk : ['a'] ∈ (Edit.runAll empty [.set ['$'] (.map [(['a'], .text ['x'])])]).keys := by decide
  obtain ⟨text, hl, -, hg, -⟩ := listed_gives _ hk
  exact ⟨hk, text, hl, hg rfl⟩

/-- A name at the root that is spelled with the mark is listed with it, and then read without it. -/
theorem listed_gives_ne : ∃ s : Store, s.Reachable ∧ ['$', '.', 'a'] ∈ s.keys ∧
    s.leaf? ['$', '.', 'a'] = some ['x'] ∧ s.get? ['$', '.', 'a'] = none ∧
    s.has ['$', '.', 'a'] = false ∧ (s.toValue ['$', '.', 'a']).isNone :=
  ⟨_, ⟨[.set [] (.map [(['$', '.', 'a'], .text ['x'])])], rfl⟩, by decide, by decide, by decide,
    by decide, by decide⟩

end Store

end ConfigGraph
