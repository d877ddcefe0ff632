import ConfigGraph.Proofs.Store.Write

/-!
# What a write does, whatever is stored

Putting and erasing do at each key what does not depend on the store: they keep what is there, or there
is always the same afterwards (`Confined`). So does every write, by induction on the tree, and it only
concerns what is in the scope of its key, and what is above it, which it removes (`confined_write`).
Hence a second write of the same tree changes nothing, however the names in it collide (`set_set`),
and writes under keys that are apart can change places (`Confined.comm`).
-/

namespace ConfigGraph

open Key (Below Covers Scope Apart)

namespace Store

/-- A change keeps what is stored under `q`, whatever the store. -/
def KeepsAt (change : Store → Store) (q : Text) : Prop :=
  ∀ s, (change s).leaf? q = s.leaf? q

/-- After a change `x` is stored under `q`, whatever the store. -/
def FixesAt (change : Store → Store) (q : Text) (x : Option Text) : Prop :=
  ∀ s, (change s).leaf? q = x

/-- A change concerns a key. What it does at each key does not depend on the store, and outside of the
scope of that key it can only remove leaves above it. -/
def Confined (key : Text) (change : Store → Store) : Prop :=
  ∀ q, KeepsAt change q ∨
    ∃ x, FixesAt change q x ∧ (Scope key q ∨ Below q key ∧ x = none)

section

variable {k k' : Text} {f g : Store → Store}

theorem Confined.mono (h : Confined k' f) (hk : Scope k k') : Confined k f := by
  intro q
  rcases h q with hkeep | ⟨x, hx, hq | ⟨hq, rfl⟩⟩
  · exact .inl hkeep
  · exact .inr ⟨x, hx, .inl (hk.trans hq)⟩
  · exact .inr ⟨none, hx, (hk.of_below hq).imp_right fun hq => ⟨hq, rfl⟩⟩

theorem Confined.comp (hf : Confined k f) (hg : Confined k g) : Confined k fun s => g (f s) := by
  intro q
  rcases hg q with hkeep | ⟨x, hx, hq⟩
  · rcases hf q with hkeep' | ⟨x, hx, hq⟩
    · exact .inl fun s => (hkeep _).trans (hkeep' s)
    · exact .inr ⟨x, fun s => (hkeep _).trans (hx s), hq⟩
  · exact .inr ⟨x, fun s => hx _, hq⟩

theorem Confined.foldl {α : Type} {f : Store → α → Store} {l : List α}
    (hf : ∀ a ∈ l, Confined k fun s => f s a) (hg : Confined k g) :
    Confined k fun s => l.foldl f (g s) := by
  induction l generalizing g with
  | nil => exact hg
  | cons a l ih =>
    exact ih (fun b hb => hf b (List.mem_cons_of_mem _ hb)) (hg.comp (hf a List.mem_cons_self))

theorem confined_put (k text : Text) : Confined k fun s => s.put k text := by
  intro q
  by_cases hk : k = []
  · subst hk
    exact .inl fun s => rfl
  by_cases hq : q = k
  · exact .inr ⟨some text, fun s => by rw [leaf?_put s hk, if_pos hq], .inl (.inr (.inl hq))⟩
  by_cases hr : Key.related k q = true
  · refine .inr ⟨none, fun s => by rw [leaf?_put s hk, if_neg hq, if_pos hr], ?_⟩
    exact (Key.related_iff.1 hr).imp (fun h => .inr (.inr h)) fun h => ⟨h, rfl⟩
  · exact .inl fun s => by rw [leaf?_put s hk, if_neg hq, if_neg hr]

theorem confined_erase (k : Text) : Confined k fun s => s.erase k := by
  intro q
  by_cases hq : q = k
  · exact .inr ⟨none, fun s => by rw [leaf?_erase, if_pos hq], .inl (.inr (.inl hq))⟩
  · exact .inl fun s => by rw [leaf?_erase, if_neg hq]

/-- Writing a tree concerns the key that it is written under, whatever names there are in the tree. -/
theorem confined_write (v : Value) (key : Text) : Confined key fun s => s.write key v := by
  induction v using Value.induct generalizing key with
  | scalar v t h =>
    simp only [write_scalar h]
    exact confined_put key t
  | seq vs ih =>
    simp only [write_seq]
    refine Confined.foldl (fun e he => ?_) (confined_erase key)
    exact (ih e.1 ((List.mem_zipIdx' he).2 ▸ List.getElem_mem _) _).mono (Key.scope_element key e.2)
  | map es ih =>
    simp only [write_map]
    refine Confined.foldl (fun e he => ?_) (confined_erase key)
    exact (ih e he _).mono (Key.scope_join key e.1)

/-- What does not depend on the store is done when it has been done once. -/
theorem Confined.idem (h : Confined k f) (s : Store) : f (f s) = f s := by
  refine ext_leaf? fun q => ?_
  rcases h q with hkeep | ⟨x, hx, -⟩
  · exact hkeep (f s)
  · rw [hx, hx]

/-- Changes that concern keys that are apart can change places: where both of them do something there
is nothing afterwards. -/
theorem Confined.comm (hf : Confined k f) (hg : Confined k' g) (hk : k ≠ []) (hk' : k' ≠ [])
    (h : Apart k k') (s : Store) : g (f s) = f (g s) := by
  refine ext_leaf? fun q => ?_
  rcases hf q with hkeep | ⟨x, hx, hq⟩
  · rcases hg q with hkeep' | ⟨y, hy, -⟩
    · rw [hkeep, hkeep', hkeep, hkeep']
    · rw [hkeep, hy, hy]
  rcases hg q with hkeep' | ⟨y, hy, hq'⟩
  · rw [hkeep', hx, hx]
  rw [hx, hy]
  rcases hq with hq | ⟨hq, rfl⟩
  · rcases hq' with hq' | ⟨hq', -⟩
    · exact absurd (hq'.covers hk') (h.not_covers (hq.covers hk))
    · exact absurd ((hq.covers hk).trans (.inr hq')) h.1
  · rcases hq' with hq' | ⟨-, rfl⟩
    · exact absurd ((hq'.covers hk').trans (.inr hq)) h.2
    · rfl

end

/-- Setting a tree a second time changes nothing, whatever is stored, under any key and with any names
in the tree. -/
theorem set_set (s : Store) (key : Text) (v : Value) : (s.set key v).set key v = s.set key v :=
  (confined_write v (Key.normalize key)).idem s

/-- Of an entry without a name and one below it the second one stays. -/
example : ((empty.set ['k'] (.map [([], .text ['x']), (['a'], .null)])).keys) = [['k', '.', 'a']] := by
  decide

end Store

end ConfigGraph
