import ConfigGraph.Proofs.Store.Edit
import ConfigGraph.Proofs.Store.Patch

/-!
# Who touches a key last

Layers are put on a store one after the other (`Layer`): trees under keys, other stores, and sources,
each of which amounts to some writes (`Source.writes`). Each write has the effect of a patch
(`Write.effect`), so after a run of writes a key has a text exactly when some write contributes it and
no later one touches the key (`Write.leaf?_runAll`, by induction on the run).
-/

namespace ConfigGraph

open Patch (Effect)

/-- A change of a store that cannot fail. -/
inductive Write where
  | set (key : Text) (v : Value)
  | merge (other : Store)

namespace Write

def run (s : Store) : Write → Store
  | set key v => s.set key v
  | merge other => s.merge other

/-- The leaves that a write brings, and the keys of its maps and sequences. -/
def patch : Write → Patch
  | set key v => .ofValue (Key.normalize key) v
  | merge other => ⟨fun q t => (q, t) ∈ other.entries, fun _ => False⟩

/-- What is set is a tree whose names ascend and can stand in keys, and what is merged has come about
by edits. -/
def Proper : Write → Prop
  | set _ v => v.Ordered ∧ v.Plain
  | merge other => other.Reachable

/-- The store after some writes, one after the other. -/
def runAll (s : Store) (ws : List Write) : Store :=
  ws.foldl run s

end Write

/-- Something that is put on a store: a write, or a source with what it reads from. -/
inductive Layer where
  | write (w : Write)
  | source (around : Surroundings) (source : Source)

/-- The writes that loading a source amounts to. A variable that is read is a write of its own, and a
file is one if there is a tree in it. -/
def Source.writes (around : Surroundings) : Source → List Write
  | file path _ =>
    match around.files.lookup path with
    | .content bytes =>
      match around.formats.decode (FileTree.extension path) bytes with
      | .ok v => [.set ['$'] v]
      | .error _ => []
    | _ => []
  | environment which =>
    around.environment.filterMap fun (name, text) =>
      (which.key? name).map fun key => .set key (.text text)
  | value key v => [.set key v]

namespace Layer

def load (s : Store) : Layer → Except ConfigError Store
  | write w => .ok (w.run s)
  | source around src => (src.load around s).map (·.1)

def writes : Layer → List Write
  | write w => [w]
  | source around src => src.writes around

/-- The store with layers put on it, unless one of them fails. -/
def loadAll (s : Store) : List Layer → Except ConfigError Store
  | [] => .ok s
  | layer :: rest =>
    match layer.load s with
    | .error e => .error e
    | .ok s => loadAll s rest

end Layer

/-! ## One write -/

/-- The leaves of a store in which every key names a leaf do not get in each other's way. -/
theorem Store.merge_effect {t : Store} (ht : t.Leafy) (s : Store) :
    (Write.merge t).patch.Effect s (s.merge t) := by
  obtain ⟨hne, hbelow⟩ := Store.leafy_iff.1 ht
  have hkey : ∀ e ∈ t.entries, e.1 ∈ t.keys := fun e he => List.mem_map_of_mem he
  refine (Effect.foldl (p := fun e => Patch.leaf e.1 e.2) (fun e he s => ?_)
    (t.sorted.imp_of_mem fun {a b} ha hb hab => ?_) s).congr (fun q text => ?_) fun q => ?_
  · exact Patch.effect_put s (hne _ (hkey e he)) e.2
  · rintro q text ⟨rfl, -⟩ (⟨_, _, ⟨rfl, -⟩, h | h | h⟩ | h)
    · rw [h, Text.before_irrefl] at hab
      cases hab
    · exact hbelow _ (hkey b hb) _ (hkey a ha) h
    · exact hbelow _ (hkey a ha) _ (hkey b hb) h
    · exact h
  · simp only [Write.patch, Patch.union, Patch.leaf]
    constructor
    · exact fun h => ⟨(q, text), h, rfl, rfl⟩
    · rintro ⟨e, h, rfl, rfl⟩
      exact h
  · simp [Write.patch, Patch.union, Patch.leaf]

theorem Write.effect {w : Write} (hw : w.Proper) (s : Store) : w.patch.Effect s (w.run s) := by
  cases w with
  | set key v => exact Store.write_effect hw.1 hw.2 s _
  | merge other => exact Store.merge_effect hw.leafy s

/-! ## A run of writes -/

/-- After some writes a key has a text when a write has contributed it and no later one touches the
key, or when it had it before and none of them touches the key. -/
theorem Write.leaf?_runAll {ws : List Write} (hws : ∀ w ∈ ws, w.Proper) (s : Store) (q t : Text) :
    (runAll s ws).leaf? q = some t ↔
      (∃ before w after, ws = before ++ w :: after ∧ w.patch.contributes q t ∧
        ∀ later ∈ after, ¬ later.patch.Touches q) ∨
      (∀ w ∈ ws, ¬ w.patch.Touches q) ∧ s.leaf? q = some t := by
  induction ws generalizing s with
  | nil => simp [runAll]
  | cons w ws ih =>
    have hrun : runAll s (w :: ws) = runAll (w.run s) ws := rfl
    rw [hrun, ih (fun w hw => hws w (List.mem_cons_of_mem _ hw)),
      Write.effect (hws w List.mem_cons_self) s q t]
    constructor
    · rintro (⟨before, x, after, rfl, hx, hl⟩ | ⟨hn, hc | ⟨hnt, hs⟩⟩)
      · exact .inl ⟨w :: before, x, after, rfl, hx, hl⟩
      · exact .inl ⟨[], w, ws, rfl, hc, hn⟩
      · refine .inr ⟨fun x hx => ?_, hs⟩
        rcases List.mem_cons.1 hx with rfl | hx
        · exact hnt
        · exact hn x hx
    · rintro (⟨before, x, after, he, hx, hl⟩ | ⟨hn, hs⟩)
      · cases before with
        | nil =>
          obtain ⟨rfl, rfl⟩ := List.cons.inj he
          exact .inr ⟨hl, .inl hx⟩
        | cons y before =>
          obtain ⟨rfl, rfl⟩ := List.cons.inj he
          exact .inl ⟨before, x, after, rfl, hx, hl⟩
      · exact .inr ⟨fun x hx => hn x (List.mem_cons_of_mem _ hx),
          .inr ⟨hn w List.mem_cons_self, hs⟩⟩

/-! ## Layers -/

theorem Variables.load_eq (which : Variables) (environment : List (Text × Text)) (s : Store) :
    which.load environment s = Write.runAll s (environment.filterMap fun (name, text) =>
      (which.key? name).map fun key => .set key (.text text)) := by
  induction environment generalizing s with
  | nil => rfl
  | cons e rest ih =>
    obtain ⟨name, text⟩ := e
    rw [load, List.foldl_cons, ← load]
    cases hk : which.key? name with
    | none => simp only [List.filterMap_cons, hk, Option.map_none]; exact ih s
    | some key => simp only [List.filterMap_cons, hk, Option.map_some]; exact ih _

theorem Registry.decode_ne_fileNotFound {r : Registry} {ext : Text} {bytes : List UInt8}
    {path : Text} : r.decode ext bytes ≠ .error (.fileNotFound path) := by
  simp only [Registry.decode]
  split
  · simp
  · rename_i decoder _
    intro h
    cases hd : decoder bytes with
    | error e => rw [hd] at h; cases h
    | ok v => rw [hd] at h; cases h

/-- A source that loads does what its writes do. -/
theorem Source.load_eq {around : Surroundings} {source : Source} {s t : Store} {log : List Skipped}
    (h : source.load around s = .ok (t, log)) : t = Write.runAll s (source.writes around) := by
  cases source with
  | file path required =>
    simp only [Source.load, Store.load, Source.writes] at h ⊢
    cases hl : around.files.lookup path with
    | missing =>
      simp only [hl] at h
      split at h
      · cases h
      · cases h; rfl
    | unreadable => simp only [hl] at h; cases h
    | content bytes =>
      simp only [hl, Store.read] at h ⊢
      cases hd : around.formats.decode (FileTree.extension path) bytes with
      | error e =>
        -- Only the file tree reports a missing file, so an error of a decoder is never passed over.
        rw [hd] at h
        cases e with
        | fileNotFound p => exact absurd hd Registry.decode_ne_fileNotFound
        | _ => cases h
      | ok v =>
        rw [hd] at h
        cases h
        rfl
  | environment which => cases h; exact which.load_eq _ _
  | value key v => cases h; rfl

theorem Layer.load_eq {layer : Layer} {s t : Store} (h : layer.load s = .ok t) :
    t = Write.runAll s layer.writes := by
  cases layer with
  | write w => cases h; rfl
  | source around source =>
    simp only [Layer.load] at h
    cases hs : source.load around s with
    | error e => rw [hs] at h; cases h
    | ok r =>
      obtain ⟨t', log⟩ := r
      rw [hs] at h
      cases h
      exact Source.load_eq hs

theorem Layer.loadAll_eq {layers : List Layer} {s t : Store} (h : loadAll s layers = .ok t) :
    t = Write.runAll s (layers.flatMap writes) := by
  induction layers generalizing s with
  | nil => cases h; rfl
  | cons layer rest ih =>
    simp only [loadAll] at h
    cases hl : layer.load s with
    | error e => rw [hl] at h; cases h
    | ok s' =>
      rw [hl] at h
      rw [ih h, Layer.load_eq hl, List.flatMap_cons, Write.runAll, Write.runAll, Write.runAll,
        List.foldl_append]

/-- Building from sources is putting them on the empty store as layers. -/
theorem Source.build_eq (around : Surroundings) (sources : List Source) :
    (build around sources).2 = Layer.loadAll .empty (sources.map (.source around)) := by
  have h : ∀ s, (loadAll around s sources).2 = Layer.loadAll s (sources.map (.source around)) := by
    induction sources with
    | nil => exact fun s => rfl
    | cons source rest ih =>
      intro s
      simp only [loadAll, List.map_cons, Layer.loadAll, Layer.load]
      cases source.load around s with
      | error e => rfl
      | ok r => exact ih r.1
  exact h .empty

/-- The last one to touch a key wins. After layers have been put on the empty store, a key has a text
exactly when one of their writes contributes it and no later one touches the key. -/
theorem last_toucher_wins {layers : List Layer} {s : Store}
    (hl : Layer.loadAll .empty layers = .ok s)
    (hp : ∀ layer ∈ layers, ∀ w ∈ layer.writes, w.Proper) (q t : Text) :
    s.leaf? q = some t ↔
      ∃ before w after, layers.flatMap Layer.writes = before ++ w :: after ∧
        w.patch.contributes q t ∧ ∀ later ∈ after, ¬ later.patch.Touches q := by
  have hw : ∀ w ∈ layers.flatMap Layer.writes, w.Proper := by
    intro w hw
    obtain ⟨layer, hlayer, hw⟩ := List.mem_flatMap.1 hw
    exact hp layer hlayer w hw
  rw [Layer.loadAll_eq hl, Write.leaf?_runAll hw]
  simp

/-- A map under `a`, a source that sets one of its entries anew, and a text under `ab`. -/
def threeLayers : List Layer :=
  [.write (.set ['a'] (.map [(['b'], .int 1), (['c'], .seq [.null])])),
    .source ⟨.dir [], [], .empty⟩ (.value ['$', '.', 'a', '.', 'b'] (.bool true)),
    .write (.set ['a', 'b'] (.text ['x']))]

theorem last_toucher_wins_threeLayers :
    ∃ s, Layer.loadAll .empty threeLayers = .ok s ∧
      (∀ layer ∈ threeLayers, ∀ w ∈ layer.writes, w.Proper) ∧
      s.leaf? ['a', '.', 'b'] = some ['t', 'r', 'u', 'e'] := by
  have hl : Layer.loadAll .empty threeLayers =
      .ok (Write.runAll .empty (threeLayers.flatMap Layer.writes)) := rfl
  have hp : ∀ layer ∈ threeLayers, ∀ w ∈ layer.writes, w.Proper := by
    simp [threeLayers, Layer.writes, Source.writes, Write.Proper, Value.Ordered, Value.Plain,
      Value.Each, Value.EachEntry, Value.EachItem, Entries.Sorted, Text.before, Key.IsName,
      -Prod.forall]
  refine ⟨_, hl, hp, (last_toucher_wins hl hp _ _).2 ⟨[_], _, [_], rfl, ?_, ?_⟩⟩
  · exact ⟨by decide, [], .scalar rfl, rfl⟩
  · simp [Write.patch, Patch.Touches, Patch.ofValue, Key.below_iff,
      Value.hasLeaf_scalar_iff (v := .text ['x']) rfl, Value.not_hasNode_scalar (v := .text ['x']) rfl]
    rintro _ - rfl
    simp [Path.key, Key.normalize]

end ConfigGraph
