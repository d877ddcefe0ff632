import ConfigGraph.Proofs.Store.Listed
import ConfigGraph.Proofs.Store.Unflatten
import ConfigGraph.Proofs.Value.LeafTexts
import Mathlib.Data.List.Basic

/-!
# How much of a store a tree holds

When keys and trees consist of names and numbers, so do all the keys that are stored
(`Canonical.ofList`), and what continues one of them after a mark does, too (`exists_path`). A path that
is read off such a key spells it, so that of the leaves at and below a key (`leavesAt`) no path ends on
another one (`pairwise_leavesAt`). The tree that is read has the leaves that survive when they are
inserted in the order of their keys, which are all of them exactly when no two of their paths clash
(`toValue_leafTexts`).
-/

namespace ConfigGraph

open Key (IsMark Below Covers Scope)

/-! ## Keys of names and numbers -/

namespace Path

open Number (digits)

theorem exists_of_append {block s x rest : Text} {c : Char} (hb : ∀ d ∈ block, ¬ IsMark d)
    (hc : IsMark c) (h : block ++ s = x ++ c :: rest) : ∃ x', s = x' ++ c :: rest := by
  rcases List.append_eq_append_iff.1 h with ⟨m, -, hs⟩ | ⟨m, rfl, hm⟩
  · exact ⟨m, hs⟩
  · cases m with
    | nil => exact ⟨[], hm.symm⟩
    | cons d m =>
      obtain ⟨rfl, -⟩ := List.cons.inj hm
      exact absurd hc (hb c (by simp))

/-- A segment adds a mark and then no other one. -/
theorem suffix_cons {seg : Segment} (h : Plain seg) : ∃ mark block, (∀ d ∈ block, ¬ IsMark d) ∧
    ∀ p, suffix (seg :: p) = mark :: (block ++ suffix p) := by
  cases seg with
  | name n => exact ⟨'.', n, fun d hd => Key.IsName.not_mark h hd, fun p => rfl⟩
  | index i =>
    refine ⟨'[', digits i ++ [']'], fun d hd => ?_, fun p => by simp [suffix]⟩
    rcases List.mem_append.1 hd with hd | hd
    · rintro (rfl | rfl)
      · exact Number.not_mem_digits (by decide) hd
      · exact Number.not_mem_digits (by decide) hd
    · rw [List.mem_singleton.1 hd]
      simp [IsMark]

theorem key_append (k : Text) (p p' : List Segment) : key k (p ++ p') = key (key k p) p' := by
  induction p generalizing k with
  | nil => rfl
  | cons seg p ih => cases seg <;> exact ih _

/-- What stands behind a mark is what the rest of the path adds. -/
theorem exists_suffix {p : List Segment} (hp : ∀ seg ∈ p, Plain seg) {x rest : Text} {c : Char}
    (hc : IsMark c) (h : suffix p = x ++ c :: rest) :
    ∃ p', (∀ seg ∈ p', Plain seg) ∧ suffix p' = c :: rest := by
  induction p generalizing x with
  | nil => simp [suffix] at h
  | cons seg p ih =>
    cases x with
    | nil => exact ⟨seg :: p, hp, h⟩
    | cons d x =>
      obtain ⟨mark, block, hb, hs⟩ := suffix_cons (hp seg List.mem_cons_self)
      rw [hs, List.cons_append] at h
      obtain ⟨x', hx⟩ := exists_of_append hb hc (List.cons.inj h).2
      exact ih (fun seg hs => hp seg (List.mem_cons_of_mem _ hs)) hx

/-- What is below a key that is not the root is at the end of a path from it. -/
theorem exists_path_of_below {p : List Segment} (hp : ∀ seg ∈ p, Plain seg) {k : Text} (hk : k ≠ [])
    (h : Below k (key [] p)) : ∃ p', (∀ seg ∈ p', Plain seg) ∧ key [] p = key k p' := by
  obtain ⟨c, rest, hc, hq⟩ := Key.below_iff.1 h
  have hend : ∀ p', (∀ seg ∈ p', Plain seg) → suffix p' = c :: rest →
      ∃ p', (∀ seg ∈ p', Plain seg) ∧ key [] p = key k p' :=
    fun p' hp' hs => ⟨p', hp', by rw [key_eq hp' hk, hs, hq]⟩
  cases p with
  | nil => simp [key] at hq
  | cons seg p =>
    rw [key_root hp (List.cons_ne_nil _ _)] at hq
    cases seg with
    | name n =>
      have hn : Key.IsName n := hp _ List.mem_cons_self
      obtain ⟨x', hx⟩ := exists_of_append (fun d hd => hn.not_mark hd) hc hq
      obtain ⟨p', hp', hs⟩ := exists_suffix (fun seg hs => hp seg (List.mem_cons_of_mem _ hs)) hc hx
      exact hend p' hp' hs
    | index i =>
      obtain ⟨p', hp', hs⟩ := exists_suffix hp hc hq
      exact hend p' hp' hs

/-- When what one path adds starts with what another one adds, their texts do, too. -/
theorem text_eq_append {p p' : List Segment} (hne : p ≠ []) {r : Text}
    (h : suffix p' = suffix p ++ r) : text p' = text p ++ r := by
  cases p with
  | nil => exact absurd rfl hne
  | cons seg p =>
    cases p' with
    | nil => cases seg <;> simp [suffix] at h
    | cons seg' p' =>
      cases seg <;> cases seg' <;> simp_all [suffix, text]

end Path

/-- A path of names and numbers leads from the root to a key. -/
def Key.Canonical (q : Text) : Prop :=
  ∃ p, (∀ seg ∈ p, Path.Plain seg) ∧ Path.key [] p = q

theorem Key.Canonical.exists_path {k q : Text} (hq : Canonical q) (h : Scope k q) :
    ∃ p, (∀ seg ∈ p, Path.Plain seg) ∧ q = Path.key k p := by
  obtain ⟨p, hp, rfl⟩ := hq
  by_cases hk : k = []
  · exact ⟨p, hp, by rw [hk]⟩
  · rcases h.covers hk with heq | hb
    · exact ⟨[], fun seg hs => absurd hs List.not_mem_nil, heq⟩
    · exact Path.exists_path_of_below hp hk hb

theorem Value.HasLeaf.plain {v : Value} {p : List Segment} {t : Text} (h : v.HasLeaf p t)
    (hv : v.Plain) : ∀ seg ∈ p, Path.Plain seg := by
  induction h with
  | scalar => exact fun seg hs => absurd hs List.not_mem_nil
  | entry he _ ih =>
    obtain ⟨hn, hes⟩ := Value.plain_map_iff.1 hv
    exact List.forall_mem_cons.2 ⟨hn _ he, ih (hes _ he)⟩
  | item hi _ ih =>
    exact List.forall_mem_cons.2 ⟨trivial, ih (Value.plain_seq_iff.1 hv _ (List.mem_of_getElem? hi))⟩

namespace Store

/-- All keys consist of names and numbers. -/
def Canonical (s : Store) : Prop :=
  ∀ q ∈ s.keys, Key.Canonical q

theorem Canonical.set {s : Store} (hs : s.Canonical) {key : Text}
    (hk : Key.Canonical (Key.normalize key)) {v : Value} (hv : v.Plain) : (s.set key v).Canonical := by
  intro q hq
  rcases mem_keys_write hq with hq | ⟨-, p, t, hl, rfl⟩
  · exact hs q hq
  · obtain ⟨p₀, hp₀, hk⟩ := hk
    refine ⟨p₀ ++ p, fun seg hseg => ?_, by rw [Path.key_append, hk]⟩
    exact (List.mem_append.1 hseg).elim (hp₀ seg) (hl.plain hv seg)

/-! ## Reading the leaves -/

/-- The path from a key to one in its scope, read off that one. -/
def pathFrom (s : Store) (key full : Text) : List Segment :=
  match below? key full with
  | some path => Path.split s.size path
  | none => []

/-- The leaves at a key and below it, in the order of their keys, with their paths from there. -/
def leavesAt (s : Store) (key : Text) : List (List Segment × Text) :=
  (s.entries.filter fun e => Scope key e.1).map fun e => (s.pathFrom key e.1, e.2)

theorem pathFrom_self (s : Store) {k : Text} (hk : k ≠ []) : s.pathFrom k k = [] := by
  have hnone : below? k k = none := by
    rw [← Option.not_isSome_iff_eq_none, Path.isSome_below?_iff]
    exact fun h => h.elim hk (Key.not_below_self k)
  rw [pathFrom, hnone]

theorem spell_pathFrom (s : Store) {k : Text} {p : List Segment} (hp : ∀ seg ∈ p, Path.Plain seg)
    (hne : Path.key k p ≠ []) : Path.spell (s.pathFrom k (Path.key k p)) = Path.suffix p := by
  by_cases h : p = []
  · subst h
    rw [Path.key] at hne ⊢
    rw [pathFrom_self s hne]
    rfl
  · rw [pathFrom, Path.below?_key hp k h]
    exact Path.spell_split hp h

/-- A key whose path starts with the path of another one is covered by that one. -/
theorem covers_of_prefix (s : Store) {k : Text} {p p' : List Segment}
    (hp : ∀ seg ∈ p, Path.Plain seg) (hp' : ∀ seg ∈ p', Path.Plain seg) (hne : Path.key k p ≠ [])
    (hne' : Path.key k p' ≠ []) (h : s.pathFrom k (Path.key k p) <+: s.pathFrom k (Path.key k p')) :
    Covers (Path.key k p) (Path.key k p') := by
  obtain ⟨r, hr⟩ := h
  have hs : Path.suffix p' = Path.suffix p ++ Path.spell r := by
    rw [← spell_pathFrom s hp hne, ← spell_pathFrom s hp' hne', ← hr, Path.spell_append]
  have hkey : Path.key k p' = Path.key k p ++ Path.spell r := by
    by_cases hk : k = []
    · subst hk
      have hp0 : p ≠ [] := by rintro rfl; exact hne rfl
      have hp0' : p' ≠ [] := by rintro rfl; exact hne' rfl
      rw [Path.key_root hp hp0, Path.key_root hp' hp0', Path.text_eq_append hp0 hs]
    · rw [Path.key_eq hp hk, Path.key_eq hp' hk, hs, List.append_assoc]
  rw [hkey]
  exact Key.covers_append (Path.isMark_of_spell r)

theorem not_prefix_pathFrom {s : Store} (hs : s.Canonical) (hl : s.Leafy) {key q q' : Text}
    (hq : q ∈ s.keys) (hq' : q' ∈ s.keys) (h : Scope key q) (h' : Scope key q') (hne : q ≠ q') :
    ¬ s.pathFrom key q <+: s.pathFrom key q' := by
  intro hprefix
  obtain ⟨p, hp, rfl⟩ := (hs q hq).exists_path h
  obtain ⟨p', hp', rfl⟩ := (hs q' hq').exists_path h'
  rcases covers_of_prefix s hp hp' (hl.ne_nil _ hq) (hl.ne_nil _ hq') hprefix with heq | hb
  · exact hne heq.symm
  · exact (leafy_iff.1 hl).2 _ hq _ hq' hb

/-- No path to a leaf ends on the path to another one. -/
theorem pairwise_leavesAt {s : Store} (hs : s.Canonical) (hl : s.Leafy) (key : Text) :
    (s.leavesAt key).Pairwise fun e f => ¬ e.1 <+: f.1 ∧ ¬ f.1 <+: e.1 := by
  refine List.pairwise_map.2 ((s.sorted.filter _).imp_of_mem fun {e f} he hf hef => ?_)
  obtain ⟨he, hke⟩ := List.mem_filter.1 he
  obtain ⟨hf, hkf⟩ := List.mem_filter.1 hf
  have hne : e.1 ≠ f.1 := fun heq => by
    rw [heq, Text.before_irrefl] at hef
    cases hef
  have hekey : e.1 ∈ s.keys := List.mem_map_of_mem he
  have hfkey : f.1 ∈ s.keys := List.mem_map_of_mem hf
  have hke := of_decide_eq_true hke
  have hkf := of_decide_eq_true hkf
  exact ⟨not_prefix_pathFrom hs hl hekey hfkey hke hkf hne,
    not_prefix_pathFrom hs hl hfkey hekey hkf hke hne.symm⟩

/-- At the key of a leaf there is nothing else. -/
theorem leavesAt_of_leaf {s : Store} (hl : s.Leafy) {key text : Text} (h : s.leaf? key = some text) :
    s.leavesAt key = [([], text)] := by
  have hkey : key ∈ s.keys := mem_keys_iff.2 ⟨text, h⟩
  have hne := hl.ne_nil key hkey
  have hfilter : s.entries.filter (fun e => Scope key e.1) = [(key, text)] := by
    refine Entries.ext_mem (Entries.sorted_filter s.sorted _) (List.pairwise_singleton _ _) fun e => ?_
    rw [List.mem_filter, decide_eq_true_eq, List.mem_singleton]
    constructor
    · rintro ⟨he, hs⟩
      rcases hs.covers hne with heq | hb
      · refine Prod.ext heq (Option.some.inj ?_)
        rw [← h, ← heq, mem_entries_iff.1 he]
      · exact absurd hb ((leafy_iff.1 hl).2 _ hkey _ (List.mem_map_of_mem he))
    · rintro rfl
      exact ⟨mem_entries_iff.2 h, .inr (.refl _)⟩
  rw [leavesAt, hfilter, List.map_singleton, pathFrom_self s hne]

theorem leavesAt_eq_leavesBelow {s : Store} {key : Text} (h : s.leaf? key = none) :
    s.leavesAt key = s.leavesBelow key := by
  rw [leavesAt, leavesBelow, ← List.filterMap_eq_map, List.filterMap_filter]
  refine List.filterMap_congr fun e he => ?_
  have hne : e.1 ≠ key := by
    rintro rfl
    rw [mem_entries_iff.1 he] at h
    cases h
  have hscope : Scope key e.1 ↔ (below? key e.1).isSome = true := by
    rw [Path.isSome_below?_iff, Scope, Covers, or_iff_right hne]
  simp only [hscope, pathFrom, Function.comp_apply]
  cases below? key e.1 <;> simp

/-- Where there is something, what is read is the leaves inserted in the order of their keys. -/
theorem toValue_eq_insertAll {s : Store} (hl : s.Leafy) {key : Text} (h : s.has key = true) :
    s.toValue key = some (Value.insertAll (s.leavesAt (Key.normalize key)) (.map [])) := by
  cases hleaf : s.leaf? (Key.normalize key) with
  | some text =>
    rw [leavesAt_of_leaf hl hleaf]
    simp only [toValue, hleaf]
    rfl
  | none =>
    obtain ⟨q, hq, hscope⟩ := has_iff.1 h
    obtain ⟨e, he, rfl⟩ := List.mem_map.1 hq
    have hmem : (s.pathFrom (Key.normalize key) e.1, e.2) ∈ s.leavesAt (Key.normalize key) :=
      List.mem_map_of_mem (List.mem_filter.2 ⟨he, decide_eq_true hscope⟩)
    rw [leavesAt_eq_leavesBelow hleaf] at hmem ⊢
    exact toValue_eq hleaf (List.ne_nil_of_mem hmem)

/-- No two of the leaves at a key and below it have paths that part at a name on the one and a number
on the other. -/
def Unmixed (s : Store) (key : Text) : Prop :=
  ∀ e ∈ s.leavesAt key, ∀ f ∈ s.leavesAt key, Path.clash e.1 f.1 = false

theorem Leafy.ofList (es : List (Text × Value)) : (ofList es).Leafy :=
  List.foldlRecOn es _ leafy_empty fun _ hs e _ => hs.set e.1 e.2

theorem Canonical.ofList {es : List (Text × Value)}
    (hes : ∀ e ∈ es, Key.Canonical (Key.normalize e.1) ∧ e.2.Plain) : (ofList es).Canonical :=
  List.foldlRecOn es _ (fun _ hq => absurd hq List.not_mem_nil)
    fun _ hs e he => hs.set (hes e he).1 (hes e he).2

/-- In a store made of keys and trees of names and numbers, a tree can be read wherever there is
something. The texts in it are those of the leaves there, under their paths, without each leaf that a
later one displaces. So the leaves are all in the tree, or as many, exactly when no two of their paths
clash. -/
theorem toValue_leafTexts {es : List (Text × Value)}
    (hes : ∀ e ∈ es, Key.Canonical (Key.normalize e.1) ∧ e.2.Plain) {key : Text}
    (hkey : (ofList es).has key = true) :
    ∃ v, (ofList es).toValue key = some v ∧
      v.leafTexts.Perm (Value.survivors ((ofList es).leavesAt (Key.normalize key))) ∧
      (v.leafTexts.Perm ((ofList es).leavesAt (Key.normalize key)) ↔
        (ofList es).Unmixed (Key.normalize key)) ∧
      (v.leafTexts.length = ((ofList es).leavesAt (Key.normalize key)).length ↔
        (ofList es).Unmixed (Key.normalize key)) := by
  have hl := Leafy.ofList es
  have hunmixed := Value.survivors_eq_self_iff_of_apart
    (pairwise_leavesAt (Canonical.ofList hes) hl (Key.normalize key))
  have hperm := Value.perm_survivors ((ofList es).leavesAt (Key.normalize key))
  -- as many survive as there are exactly when all of them survive
  have hlength : (Value.insertAll ((ofList es).leavesAt (Key.normalize key)) (.map [])).leafTexts.length =
      ((ofList es).leavesAt (Key.normalize key)).length ↔ (ofList es).Unmixed (Key.normalize key) := by
    rw [hperm.length_eq]
    exact ⟨fun h => hunmixed.1 ((Value.survivors_sublist _).eq_of_length h),
      fun h => congrArg List.length (hunmixed.2 h)⟩
  refine ⟨_, toValue_eq_insertAll hl hkey, hperm, ⟨fun h => hlength.1 h.length_eq, fun h => ?_⟩, hlength⟩
  have hall := hunmixed.2 h
  rwa [hall] at hperm

/-- A sequence and a scalar beside it, and an element whose number is too large. -/
def hosts : List (Text × Value) :=
  [(['h'], .map [(['l'], .seq [.text ['a'], .int 1]), (['o'], .null)]),
    (['$', '.', 'h', '.', 'n', '[', '9', ']'], .text ['x'])]

theorem toValue_leafTexts_hosts :
    (∀ e ∈ hosts, Key.Canonical (Key.normalize e.1) ∧ e.2.Plain) ∧ (ofList hosts).has ['h'] = true ∧
      ∃ v, (ofList hosts).toValue ['h'] = some v ∧ v.leafTexts.length = 4 := by
  have hes : ∀ e ∈ hosts, Key.Canonical (Key.normalize e.1) ∧ e.2.Plain := by
    refine List.forall_mem_cons.2 ⟨⟨⟨[.name ['h']], ?_, rfl⟩, ?_⟩,
      List.forall_mem_singleton.2 ⟨⟨[.name ['h'], .name ['n'], .index 9], ?_, by decide⟩, trivial⟩⟩
    · simp [Path.Plain, Key.IsName]
    · simp [Value.Plain, Value.Each, Value.EachEntry, Value.EachItem, Key.IsName, -Prod.forall]
    · simp [Path.Plain, Key.IsName]
  have hkey : (ofList hosts).has ['h'] = true := by decide
  have hleaves : (ofList hosts).leavesAt ['h'] =
      [([.name ['l'], .index 0], ['a']), ([.name ['l'], .index 1], ['1']),
        ([.name ['n'], .name ['[', '9', ']']], ['x']), ([.name ['o']], [])] := by
    decide +kernel
  have hunmixed : (ofList hosts).Unmixed ['h'] := by
    unfold Unmixed
    rw [hleaves]
    decide
  obtain ⟨v, hv, -, -, hlength⟩ := toValue_leafTexts hes hkey
  exact ⟨hes, hkey, v, hv, (hlength.2 hunmixed).trans (congrArg List.length hleaves)⟩

/-- An entry and an element under one key. -/
def mixed : List (Text × Value) :=
  [(['a', '.', 'b'], .text ['x']), (['a', '[', '0', ']'], .text ['y'])]

/-- The leaf under the name gives way to the one under the number. -/
theorem toValue_leafTexts_ne :
    (∀ e ∈ mixed, Key.Canonical (Key.normalize e.1) ∧ e.2.Plain) ∧ (ofList mixed).has ['a'] = true ∧
      ((ofList mixed).leavesAt ['a']).map (·.2) = [['x'], ['y']] ∧
      ∃ v, (ofList mixed).toValue ['a'] = some v ∧ v.leafTexts.map (·.2) = [['y']] := by
  have hes : ∀ e ∈ mixed, Key.Canonical (Key.normalize e.1) ∧ e.2.Plain := by
    refine List.forall_mem_cons.2 ⟨⟨⟨[.name ['a'], .name ['b']], ?_, rfl⟩, trivial⟩,
      List.forall_mem_singleton.2 ⟨⟨[.name ['a'], .index 0], ?_, by decide⟩, trivial⟩⟩
    · simp [Path.Plain, Key.IsName]
    · simp [Path.Plain, Key.IsName]
  have hkey : (ofList mixed).has ['a'] = true := by decide
  have hleaves : (ofList mixed).leavesAt ['a'] =
      [([.name ['b']], ['x']), ([.index 0], ['y'])] := by
    decide +kernel
  refine ⟨hes, hkey, congrArg (List.map (·.2)) hleaves, _,
    toValue_eq_insertAll (Leafy.ofList _) hkey, ?_⟩
  have hnormalize : Key.normalize ['a'] = ['a'] := rfl
  rw [hnormalize, hleaves]
  rfl

end Store

end ConfigGraph
