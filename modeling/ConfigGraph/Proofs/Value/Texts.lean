import ConfigGraph.Proofs.Value.Parts

/-!
# Texts for scalars

A store keeps of a scalar only its text, so of a tree it keeps the tree of its texts (`texts`), which
has the same leaves (`hasLeaf_texts_iff`).
-/

namespace ConfigGraph.Value

mutual

/-- The tree with each scalar replaced by its text. -/
def texts : Value → Value
  | .map es => .map (textsEntries es)
  | .seq vs => .seq (textsItems vs)
  | v => .text (v.scalar?.getD [])

def textsEntries : List (Text × Value) → List (Text × Value)
  | [] => []
  | (n, v) :: rest => (n, v.texts) :: textsEntries rest

def textsItems : List Value → List Value
  | [] => []
  | v :: rest => v.texts :: textsItems rest

end

theorem texts_scalar {v : Value} {t : Text} (h : v.scalar? = some t) : v.texts = .text t := by
  cases v <;> simp only [scalar?, Option.some.injEq, reduceCtorEq] at h <;> subst h <;> rfl

theorem texts_map (es : List (Text × Value)) :
    (Value.map es).texts = .map (es.map fun e => (e.1, e.2.texts)) := by
  have h : textsEntries es = es.map fun e => (e.1, e.2.texts) := by
    induction es with
    | nil => rfl
    | cons e es ih => rw [textsEntries, ih]; rfl
  rw [texts, h]

theorem texts_seq (vs : List Value) : (Value.seq vs).texts = .seq (vs.map texts) := by
  have h : textsItems vs = vs.map texts := by
    induction vs with
    | nil => rfl
    | cons v vs ih => rw [textsItems, ih]; rfl
  rw [texts, h]

theorem hasLeaf_texts_iff {v : Value} {p : List Segment} {t : Text} :
    HasLeaf v.texts p t ↔ HasLeaf v p t := by
  induction v using induct generalizing p with
  | scalar v s h =>
    rw [texts_scalar h, hasLeaf_scalar_iff h, hasLeaf_scalar_iff (s := s) rfl]
  | seq vs ih =>
    rw [texts_seq, hasLeaf_seq_iff, hasLeaf_seq_iff]
    constructor
    · rintro ⟨i, w, q, hi, h, rfl⟩
      rw [List.getElem?_map, Option.map_eq_some_iff] at hi
      obtain ⟨v, hv, rfl⟩ := hi
      exact ⟨i, v, q, hv, (ih v (List.mem_of_getElem? hv)).1 h, rfl⟩
    · rintro ⟨i, v, q, hi, h, rfl⟩
      exact ⟨i, v.texts, q, by rw [List.getElem?_map, hi]; rfl,
        (ih v (List.mem_of_getElem? hi)).2 h, rfl⟩
  | map es ih =>
    rw [texts_map, hasLeaf_map_iff, hasLeaf_map_iff]
    constructor
    · rintro ⟨n, w, q, he, h, rfl⟩
      obtain ⟨e, hm, heq⟩ := List.mem_map.1 he
      cases heq
      exact ⟨e.1, e.2, q, hm, (ih e hm).1 h, rfl⟩
    · rintro ⟨n, v, q, he, h, rfl⟩
      exact ⟨n, v.texts, q, List.mem_map.2 ⟨(n, v), he, rfl⟩, (ih (n, v) he).2 h, rfl⟩

/-- What depends on the names of a map and the length of a sequence carries over to the texts. -/
theorem Each.texts {maps : List (Text × Value) → Prop} {seqs : List Value → Prop} {v : Value}
    (hmaps : ∀ es, maps es → maps (es.map fun e => (e.1, e.2.texts)))
    (hseqs : ∀ vs, seqs vs → seqs (vs.map Value.texts)) (h : Each maps seqs v) :
    Each maps seqs v.texts := by
  induction v using Value.induct with
  | scalar v t hv => rw [texts_scalar hv]; exact each_scalar (t := t) rfl
  | seq vs ih =>
    obtain ⟨hs, hv⟩ := each_seq_iff.1 h
    rw [texts_seq, each_seq_iff]
    refine ⟨hseqs _ hs, fun w hw => ?_⟩
    obtain ⟨v, hm, rfl⟩ := List.mem_map.1 hw
    exact ih v hm (hv v hm)
  | map es ih =>
    obtain ⟨hs, hv⟩ := each_map_iff.1 h
    rw [texts_map, each_map_iff]
    refine ⟨hmaps _ hs, fun f hf => ?_⟩
    obtain ⟨e, hm, rfl⟩ := List.mem_map.1 hf
    exact ih e hm (hv e hm)

theorem Ordered.texts {v : Value} (h : v.Ordered) : v.texts.Ordered :=
  Each.texts (fun _ hs => List.pairwise_map.2 hs) (fun _ h => h) h

theorem Plain.texts {v : Value} (h : v.Plain) : v.texts.Plain := by
  refine Each.texts (fun es hn f hf => ?_) (fun _ h => h) h
  obtain ⟨e, he, rfl⟩ := List.mem_map.1 hf
  exact hn e he

end ConfigGraph.Value
