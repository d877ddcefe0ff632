import ConfigGraph.Proofs.Store.Below
import ConfigGraph.Store.Path

/-!
# The parts of a tree

A tree is a scalar, a map or a sequence (`induct`). Its leaves are the scalars in it with the paths
that lead there (`HasLeaf`), its nodes the maps and sequences (`HasNode`). What holds for each map and
each sequence of a tree (`Each`) holds for its parts: the names are in order (`Ordered`) and no
sequence is longer than a machine word counts (`WellFormed`), every name can stand in a key (`Plain`),
nothing is empty (`Full`).
-/

namespace ConfigGraph.Value

open Number (IntType)

mutual

/-- Induction on trees: scalars, sequences of trees and maps of trees. -/
@[elab_as_elim]
theorem induct {P : Value → Prop} (scalar : ∀ v t, scalar? v = some t → P v)
    (seq : ∀ vs, (∀ v ∈ vs, P v) → P (.seq vs)) (map : ∀ es, (∀ e ∈ es, P e.2) → P (.map es)) :
    ∀ v : Value, P v
  | .null => scalar _ _ rfl
  | .bool _ => scalar _ _ rfl
  | .int _ => scalar _ _ rfl
  | .float _ => scalar _ _ rfl
  | .text _ => scalar _ _ rfl
  | .seq vs => seq vs (inductItems scalar seq map vs)
  | .map es => map es (inductEntries scalar seq map es)

theorem inductItems {P : Value → Prop} (scalar : ∀ v t, scalar? v = some t → P v)
    (seq : ∀ vs, (∀ v ∈ vs, P v) → P (.seq vs)) (map : ∀ es, (∀ e ∈ es, P e.2) → P (.map es)) :
    ∀ (vs : List Value), ∀ v ∈ vs, P v
  | [], _, h => absurd h List.not_mem_nil
  | w :: rest, v, h => (List.mem_cons.1 h).elim (fun e => e ▸ induct scalar seq map w)
    (inductItems scalar seq map rest v)

theorem inductEntries {P : Value → Prop} (scalar : ∀ v t, scalar? v = some t → P v)
    (seq : ∀ vs, (∀ v ∈ vs, P v) → P (.seq vs)) (map : ∀ es, (∀ e ∈ es, P e.2) → P (.map es)) :
    ∀ (es : List (Text × Value)), ∀ e ∈ es, P e.2
  | [], _, h => absurd h List.not_mem_nil
  | (_, w) :: rest, e, h => (List.mem_cons.1 h).elim (fun he => he ▸ induct scalar seq map w)
    (inductEntries scalar seq map rest e)

end

theorem scalar?_eq_none_iff {v : Value} : v.scalar? = none ↔ v.isComposite = true := by
  cases v <;> simp [scalar?, isComposite]

theorem scalar?_ofInt (n : Int) : (ofInt n).scalar? = some (Number.writeInt n) := by
  unfold ofInt
  split <;> rfl

/-! ## Leaves and nodes -/

/-- A path leads to a scalar with this text. -/
inductive HasLeaf : Value → List Segment → Text → Prop where
  | scalar {v : Value} {t : Text} (h : v.scalar? = some t) : HasLeaf v [] t
  | entry {es : List (Text × Value)} {n t : Text} {v : Value} {p : List Segment}
      (he : (n, v) ∈ es) (h : HasLeaf v p t) : HasLeaf (.map es) (.name n :: p) t
  | item {vs : List Value} {i : Nat} {t : Text} {v : Value} {p : List Segment}
      (hi : vs[i]? = some v) (h : HasLeaf v p t) : HasLeaf (.seq vs) (.index i :: p) t

/-- A path leads to a map or a sequence. -/
inductive HasNode : Value → List Segment → Prop where
  | here {v : Value} (h : v.isComposite = true) : HasNode v []
  | entry {es : List (Text × Value)} {n : Text} {v : Value} {p : List Segment}
      (he : (n, v) ∈ es) (h : HasNode v p) : HasNode (.map es) (.name n :: p)
  | item {vs : List Value} {i : Nat} {v : Value} {p : List Segment}
      (hi : vs[i]? = some v) (h : HasNode v p) : HasNode (.seq vs) (.index i :: p)

theorem hasLeaf_scalar_iff {v : Value} {s : Text} (hv : v.scalar? = some s) {p : List Segment}
    {t : Text} : HasLeaf v p t ↔ p = [] ∧ t = s := by
  constructor
  · intro h
    cases h with
    | scalar h => rw [hv] at h; cases h; exact ⟨rfl, rfl⟩
    | entry => simp [scalar?] at hv
    | item => simp [scalar?] at hv
  · rintro ⟨rfl, rfl⟩
    exact .scalar hv

theorem hasLeaf_map_iff {es : List (Text × Value)} {p : List Segment} {t : Text} :
    HasLeaf (.map es) p t ↔ ∃ n v q, (n, v) ∈ es ∧ HasLeaf v q t ∧ p = .name n :: q := by
  constructor
  · intro h
    cases h with
    | scalar h => simp [scalar?] at h
    | entry he h => exact ⟨_, _, _, he, h, rfl⟩
  · rintro ⟨n, v, q, he, h, rfl⟩
    exact .entry he h

theorem hasLeaf_seq_iff {vs : List Value} {p : List Segment} {t : Text} :
    HasLeaf (.seq vs) p t ↔ ∃ i v q, vs[i]? = some v ∧ HasLeaf v q t ∧ p = .index i :: q := by
  constructor
  · intro h
    cases h with
    | scalar h => simp [scalar?] at h
    | item hi h => exact ⟨_, _, _, hi, h, rfl⟩
  · rintro ⟨i, v, q, hi, h, rfl⟩
    exact .item hi h

theorem HasLeaf.ne_nil {v : Value} {p : List Segment} {t : Text} (h : HasLeaf v p t)
    (hc : v.isComposite = true) : p ≠ [] := by
  cases h with
  | scalar hs =>
    rw [scalar?_eq_none_iff.2 hc] at hs
    cases hs
  | entry => exact List.cons_ne_nil _ _
  | item => exact List.cons_ne_nil _ _

theorem not_hasNode_scalar {v : Value} {s : Text} (hv : v.scalar? = some s) (p : List Segment) :
    ¬ HasNode v p := by
  intro h
  cases h with
  | here h =>
    rw [scalar?_eq_none_iff.2 h] at hv
    cases hv
  | entry => simp [scalar?] at hv
  | item => simp [scalar?] at hv

theorem hasNode_map_iff {es : List (Text × Value)} {p : List Segment} :
    HasNode (.map es) p ↔ p = [] ∨ ∃ n v q, (n, v) ∈ es ∧ HasNode v q ∧ p = .name n :: q := by
  constructor
  · intro h
    cases h with
    | here => exact .inl rfl
    | entry he h => exact .inr ⟨_, _, _, he, h, rfl⟩
  · rintro (rfl | ⟨n, v, q, he, h, rfl⟩)
    · exact .here rfl
    · exact .entry he h

theorem hasNode_seq_iff {vs : List Value} {p : List Segment} :
    HasNode (.seq vs) p ↔ p = [] ∨ ∃ i v q, vs[i]? = some v ∧ HasNode v q ∧ p = .index i :: q := by
  constructor
  · intro h
    cases h with
    | here => exact .inl rfl
    | item hi h => exact .inr ⟨_, _, _, hi, h, rfl⟩
  · rintro (rfl | ⟨i, v, q, hi, h, rfl⟩)
    · exact .here rfl
    · exact .item hi h

/-! ## Properties of every part -/

mutual

/-- Every map and every sequence in a tree has a property. -/
def Each (maps : List (Text × Value) → Prop) (seqs : List Value → Prop) : Value → Prop
  | .map es => maps es ∧ EachEntry maps seqs es
  | .seq vs => seqs vs ∧ EachItem maps seqs vs
  | _ => True

def EachEntry (maps : List (Text × Value) → Prop) (seqs : List Value → Prop) :
    List (Text × Value) → Prop
  | [] => True
  | (_, v) :: rest => Each maps seqs v ∧ EachEntry maps seqs rest

def EachItem (maps : List (Text × Value) → Prop) (seqs : List Value → Prop) : List Value → Prop
  | [] => True
  | v :: rest => Each maps seqs v ∧ EachItem maps seqs rest

end

section Each

variable {maps : List (Text × Value) → Prop} {seqs : List Value → Prop}

theorem each_map_iff {es : List (Text × Value)} :
    Each maps seqs (.map es) ↔ maps es ∧ ∀ e ∈ es, Each maps seqs e.2 := by
  have h : EachEntry maps seqs es ↔ ∀ e ∈ es, Each maps seqs e.2 := by
    induction es with
    | nil => simp [EachEntry]
    | cons e es ih => simp only [EachEntry, ih, List.mem_cons, forall_eq_or_imp]
  rw [Each, h]

theorem each_seq_iff {vs : List Value} :
    Each maps seqs (.seq vs) ↔ seqs vs ∧ ∀ v ∈ vs, Each maps seqs v := by
  have h : EachItem maps seqs vs ↔ ∀ v ∈ vs, Each maps seqs v := by
    induction vs with
    | nil => simp [EachItem]
    | cons v vs ih => simp only [EachItem, ih, List.mem_cons, forall_eq_or_imp]
  rw [Each, h]

theorem each_scalar {v : Value} {t : Text} (h : v.scalar? = some t) : Each maps seqs v := by
  cases v with
  | seq | map => cases h
  | _ => trivial

theorem Each.mono {maps' : List (Text × Value) → Prop} {seqs' : List Value → Prop}
    (hm : ∀ es, maps es → maps' es) (hs : ∀ vs, seqs vs → seqs' vs) {v : Value}
    (h : Each maps seqs v) : Each maps' seqs' v := by
  induction v using Value.induct with
  | scalar v t hv => exact each_scalar hv
  | seq vs ih =>
    obtain ⟨h, hv⟩ := each_seq_iff.1 h
    exact each_seq_iff.2 ⟨hs vs h, fun v hm => ih v hm (hv v hm)⟩
  | map es ih =>
    obtain ⟨h, hv⟩ := each_map_iff.1 h
    exact each_map_iff.2 ⟨hm es h, fun e he => ih e he (hv e he)⟩

end Each

/-- The names of each map ascend. -/
def Ordered : Value → Prop :=
  Each Entries.Sorted fun _ => True

/-- A tree as a program can hold it: the names of each map ascend, and a machine word numbers the
items of each sequence. -/
def WellFormed : Value → Prop :=
  Each Entries.Sorted fun vs => vs.length ≤ IntType.usize.greatest

/-- Every name can stand in a key. -/
def Plain : Value → Prop :=
  Each (fun es => ∀ e ∈ es, Key.IsName e.1) fun _ => True

/-- Every map and every sequence has something in it. -/
def Full : Value → Prop :=
  Each (· ≠ []) (· ≠ [])

section

variable {es : List (Text × Value)} {vs : List Value}

theorem ordered_map_iff :
    (map es).Ordered ↔ Entries.Sorted es ∧ ∀ e ∈ es, e.2.Ordered := each_map_iff

theorem ordered_seq_iff : (seq vs).Ordered ↔ ∀ v ∈ vs, v.Ordered :=
  each_seq_iff.trans ⟨And.right, fun h => ⟨trivial, h⟩⟩

theorem WellFormed.ordered {v : Value} (h : v.WellFormed) : v.Ordered :=
  h.mono (fun _ hs => hs) fun _ _ => trivial

theorem wellFormed_map_iff :
    (map es).WellFormed ↔ Entries.Sorted es ∧ ∀ e ∈ es, e.2.WellFormed := each_map_iff

theorem wellFormed_seq_iff :
    (seq vs).WellFormed ↔ vs.length ≤ IntType.usize.greatest ∧ ∀ v ∈ vs, v.WellFormed :=
  each_seq_iff

theorem plain_map_iff :
    (map es).Plain ↔ (∀ e ∈ es, Key.IsName e.1) ∧ ∀ e ∈ es, e.2.Plain := each_map_iff

theorem plain_seq_iff : (seq vs).Plain ↔ ∀ v ∈ vs, v.Plain :=
  each_seq_iff.trans ⟨And.right, fun h => ⟨trivial, h⟩⟩

theorem full_map_iff : (map es).Full ↔ es ≠ [] ∧ ∀ e ∈ es, e.2.Full := each_map_iff

theorem full_seq_iff : (seq vs).Full ↔ vs ≠ [] ∧ ∀ v ∈ vs, v.Full := each_seq_iff

end

/-- A tree in which nothing is empty has a leaf. -/
theorem Full.exists_leaf {v : Value} (h : v.Full) : ∃ p t, HasLeaf v p t := by
  induction v using Value.induct with
  | scalar v t hv => exact ⟨[], t, .scalar hv⟩
  | seq vs ih =>
    obtain ⟨hne, hv⟩ := full_seq_iff.1 h
    obtain ⟨v, vs, rfl⟩ := List.exists_cons_of_ne_nil hne
    obtain ⟨p, t, hl⟩ := ih v List.mem_cons_self (hv v List.mem_cons_self)
    exact ⟨.index 0 :: p, t, .item rfl hl⟩
  | map es ih =>
    obtain ⟨hne, hv⟩ := full_map_iff.1 h
    obtain ⟨e, es, rfl⟩ := List.exists_cons_of_ne_nil hne
    obtain ⟨p, t, hl⟩ := ih e List.mem_cons_self (hv e List.mem_cons_self)
    exact ⟨.name e.1 :: p, t, .entry List.mem_cons_self hl⟩

end ConfigGraph.Value
