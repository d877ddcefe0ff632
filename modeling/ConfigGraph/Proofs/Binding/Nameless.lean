import ConfigGraph.Proofs.Binding.RoundTrip
import ConfigGraph.Proofs.Reference.Append

/-!
# Tags without a key

A tag `${:=d}` names no key: a cursor that it leads to (`Nameless`) does not look its key up, and the
key is that of the record around it. Scalars, lists and options are read from the default alone
(`Nameless.require_eq`, `Nameless.bind_list`, `Nameless.bind_option`), so that two stores differ in
nothing but the key of an error (`bind_nameless`). A mapping does not ask whether the key is looked up.
With an empty default it has the entries of the record around it (`Nameless.bind_mapping`), where there
should be none (`bind_nameless_ne`).
-/

namespace ConfigGraph

/-- The error without the key of what could not be read. -/
def ConfigError.unkeyed : ConfigError → ConfigError
  | propertyNotFound _ path => propertyNotFound [] path
  | compositeDefault _ path => compositeDefault [] path
  | coerce _ value target => coerce [] value target
  | e => e

/-- What is read is the same, or the errors are the same but for the key. -/
def Alike {α : Type} (r r' : Except ConfigError α) : Prop :=
  r.mapError ConfigError.unkeyed = r'.mapError ConfigError.unkeyed

namespace Alike

variable {α β : Type} {r r' : Except ConfigError α}

theorem map (f : α → β) (h : Alike r r') : Alike (f <$> r) (f <$> r') := by
  unfold Alike at h ⊢
  rw [mapError_map, mapError_map, h]

theorem eq_ok {a : α} (h : Alike r r') (hr : r' = .ok a) : r = .ok a := by
  subst hr
  cases r with
  | error e => cases h
  | ok b => cases h; rfl

end Alike

/-! ## Texts without references -/

namespace Reference

/-- There is no reference in the text. -/
def NoReference (s : Text) : Prop :=
  ∀ span, find? s ≠ .ok (some span)

/-- In a text without references none is found, or one is not closed. -/
theorem NoReference.first?_cases {s : Text} (h : NoReference s) :
    first? s = .ok none ∨ first? s = .error .unclosedReference := by
  unfold first?
  cases hfind : find? s with
  | error e =>
    refine .inr ?_
    unfold find? at hfind
    split at hfind
    · cases hfind
    · split at hfind
      · cases hfind
      · cases hfind
        rfl
  | ok span =>
    obtain _ | span := span
    · exact .inl rfl
    · exact absurd hfind (h span)

/-- What a text without references stands for does not depend on the store. -/
theorem NoReference.expand_eq {s : Text} (h : NoReference s) (store store' : Store)
    (chain chain' : List Text) : expand store chain s = expand store' chain' s := by
  rw [Reference.expand_eq store chain s, Reference.expand_eq store' chain' s]
  rcases h.first?_cases with hfirst | hfirst <;> rw [hfirst]

theorem NoReference.eq_unclosed {s : Text} (h : NoReference s) {store : Store} {chain : List Text}
    {e : ConfigError} (he : expand store chain s = .error e) : e = .unclosedReference := by
  rw [Reference.expand_eq] at he
  rcases h.first?_cases with hfirst | hfirst <;> rw [hfirst] at he <;> cases he
  rfl

theorem noReference_escape (s : Text) : NoReference (escape s) := by
  intro span hspan
  rw [find?_escape] at hspan
  cases hspan

/-- There is no reference without an opener. -/
theorem NoReference.of_noOpener {s : Text} (h : ¬ ['$', '{'] <:+: s) : NoReference s :=
  escape_of_noOpener h ▸ noReference_escape s

end Reference

/-! ## Tags and shapes -/

/-- The tag without a key that has a default. -/
def Tag.nameless (d : Text) : Text :=
  '$' :: '{' :: (':' :: '=' :: d ++ ['}'])

theorem Tag.parse_nameless {d : Text} {tag : Tag} (h : parse (nameless d) = .ok tag) :
    tag = ⟨[], some d⟩ := by
  have hinner : inner? (nameless d) = some (':' :: '=' :: d) := by
    rw [nameless, inner?, List.getLast?_concat, if_pos rfl, List.dropLast_concat]
  rw [parse, hinner] at h
  split at h
  · cases h
  · rename_i inner hinner'
    cases hinner'
    split at h
    · cases h
    · split at h
      · cases h
        rfl
      · cases h

/-- Scalars, lists, mappings and options of these. -/
inductive Shape.Direct : Shape → Prop where
  | int (type : Number.IntType) : Direct (.int type)
  | float (type : FloatType) : Direct (.float type)
  | bool : Direct .bool
  | char : Direct .char
  | text : Direct .text
  | path : Direct .path
  | duration : Direct .duration
  | list (item : Shape) : Direct (.list item)
  | mapping (item : Shape) : Direct (.mapping item)
  | option {item : Shape} (h : Direct item) : Direct (.option item)

/-- The value is a mapping, or an optional one. -/
def Shape.IsMapping (shape : Shape) : Prop :=
  ∃ item, shape.content = .mapping item

theorem Shape.isComposite_content (shape : Shape) : shape.content.isComposite = shape.isComposite := by
  fun_induction content shape with
  | case1 item ih => exact ih
  | case2 => rfl

theorem Shape.IsMapping.isComposite {shape : Shape} (h : shape.IsMapping) :
    shape.isComposite = true := by
  obtain ⟨item, h⟩ := h
  rw [← shape.isComposite_content, h]
  rfl

namespace Cursor

/-- The cursor does not look its key up, and has a default. -/
structure Nameless (c : Cursor) (d : Text) : Prop where
  lookup : c.lookup = false
  default : c.default? = some d

variable {c c' : Cursor} {d : Text}

theorem nameless_ofTag (store : Store) (d path : Text) :
    (ofTag store ⟨[], some d⟩ path).Nameless d := ⟨rfl, rfl⟩

theorem nameless_field (c : Cursor) (name d : Text) :
    (c.field name ⟨[], some d⟩).Nameless d := ⟨rfl, rfl⟩

/-! ## What is read without a key -/

/-- The text is that of the default. -/
theorem Nameless.require (h : c.Nameless d) : c.require = Reference.expand c.store [] d := by
  have hvalue : c.value = (Reference.expand c.store [] d).map some := by
    rw [value, h.lookup, h.default, Reference.tagValue_eq, if_neg fun hc => hc.ne_nil rfl]
    rfl
  rw [Cursor.require, hvalue]
  cases Reference.expand c.store [] d <;> rfl

theorem Nameless.require_eq (h : c.Nameless d) (h' : c'.Nameless d) (hd : Reference.NoReference d) :
    c.require = c'.require := by
  rw [h.require, h'.require, hd.expand_eq c.store c'.store]

theorem Nameless.convert_alike {α : Type} (h : c.Nameless d) (h' : c'.Nameless d)
    (hd : Reference.NoReference d) (target : String) (read? : Text → Option α) :
    Alike (c.convert target read?) (c'.convert target read?) := by
  rw [convert, convert, h.require_eq h' hd]
  cases c'.require with
  | error e => rfl
  | ok text =>
    simp only [ok_bind]
    cases read? text <;> rfl

/-- An empty default is an empty list. -/
theorem Nameless.bind_list (h : c.Nameless []) (item : Shape) :
    c.bind (.list item) = .ok (.list []) := by
  have hrequire : c.require = .ok [] := by
    rw [h.require, Reference.expand_eq]
    rfl
  rw [Cursor.bind]
  simp only [h.lookup, Bool.false_and, Bool.false_eq_true, if_false, hrequire]
  rfl

/-- There is a default, so that an option has a content. -/
theorem Nameless.bind_option (h : c.Nameless d) (item : Shape) :
    c.bind (.option item) = .some <$> c.bind item := by
  simp only [Cursor.bind, h.default, Option.isNone_some, Bool.and_false, Bool.false_eq_true,
    if_false]

/-- A mapping reads the entries below the key although the key is not looked up. -/
theorem Nameless.bind_mapping (h : c.Nameless d) (item : Shape) :
    c.bind (.mapping item) = do
      let entries ← c.entries.mapM fun name => (name, ·) <$> (c.entry name).read item
      return .mapping (Entries.ofList entries) := by
  simp only [bind_mapping_eq, h.default, Option.isNone_some, Bool.and_false, Bool.false_eq_true,
    if_false]

/-- Without entries below the key, an empty mapping is read. -/
theorem Nameless.bind_mapping_nil (h : c.Nameless d) (hentries : c.entries = []) (item : Shape) :
    c.bind (.mapping item) = .ok (.mapping []) := by
  rw [h.bind_mapping, hentries]
  rfl

/-- Without a key, what is read does not depend on the store, unless a mapping finds entries. -/
theorem Nameless.bind_alike {shape : Shape} (hshape : shape.Direct) (h : c.Nameless d)
    (h' : c'.Nameless d) (hd : Reference.NoReference d) (hempty : shape.isComposite = true → d = [])
    (hentries : shape.IsMapping → c.entries = [] ∧ c'.entries = []) :
    Alike (c.bind shape) (c'.bind shape) := by
  induction hshape with
  | int | float | bool | char | duration =>
    simp only [Cursor.bind]
    exact (h.convert_alike h' hd _ _).map _
  | text | path =>
    simp only [Cursor.bind, h.require_eq h' hd]
    rfl
  | list item =>
    obtain rfl := hempty rfl
    rw [h.bind_list, h'.bind_list]
    rfl
  | mapping item =>
    obtain ⟨hnil, hnil'⟩ := hentries ⟨item, rfl⟩
    rw [h.bind_mapping_nil hnil, h'.bind_mapping_nil hnil']
    rfl
  | option _ ih =>
    rw [h.bind_option, h'.bind_option]
    exact (ih hempty hentries).map _

theorem Nameless.read_alike {shape : Shape} (hshape : shape.Direct) (h : c.Nameless d)
    (h' : c'.Nameless d) (hd : Reference.NoReference d) (hpath : c.path = c'.path)
    (hentries : shape.IsMapping → d = [] → c.entries = [] ∧ c'.entries = []) :
    Alike (c.read shape) (c'.read shape) := by
  have hcheck : ∀ {c : Cursor}, c.Nameless d → c.checkDefault shape =
      if shape.isComposite = true ∧ d ≠ [] then .error (.compositeDefault c.key c.path)
      else .ok () := by
    intro c h
    simp [checkDefault, h.default]
  rw [read, read, hcheck h, hcheck h']
  by_cases hd' : shape.isComposite = true ∧ d ≠ []
  · rw [if_pos hd', if_pos hd', hpath]
    rfl
  · rw [if_neg hd', if_neg hd']
    have hempty : shape.isComposite = true → d = [] := by simpa using hd'
    exact h.bind_alike hshape h' hd hempty fun hm => hentries hm (hempty hm.isComposite)

end Cursor

/-- A tag without a key is refused, or leads to its default. -/
theorem Tag.alike_nameless {α : Type} {d : Text} {f f' : Tag → Except ConfigError α}
    (h : Alike (f ⟨[], some d⟩) (f' ⟨[], some d⟩)) :
    Alike (parse (nameless d) >>= f) (parse (nameless d) >>= f') := by
  cases hparse : parse (nameless d) with
  | error e => rfl
  | ok tag =>
    obtain rfl := parse_nameless hparse
    exact h

/-- What is read by a tag without a key and with a default without references does not depend on the
store, but for the keys in errors, at the root as well as in a field of a record. A mapping with an
empty default is excepted, where there are entries below the key of the record. -/
theorem Store.bind_nameless {d : Text} {shape : Shape} (hd : Reference.NoReference d)
    (hshape : shape.Direct) :
    (∀ s s' : Store, (shape.IsMapping → d = [] → s.group [] = [] ∧ s'.group [] = []) →
      Alike (s.bind (.tag (Tag.nameless d)) shape) (s'.bind (.tag (Tag.nameless d)) shape)) ∧
    ∀ (c c' : Cursor) (name : Text), c.path = c'.path →
      (shape.IsMapping → d = [] → c.entries = [] ∧ c'.entries = []) →
      Alike (c.bindField ⟨name, Tag.nameless d, shape⟩)
        (c'.bindField ⟨name, Tag.nameless d, shape⟩) := by
  constructor
  · intro s s' hentries
    exact Tag.alike_nameless ((Cursor.nameless_ofTag s d _).read_alike hshape
      (Cursor.nameless_ofTag s' d _) hd rfl hentries)
  · intro c c' name hpath hentries
    exact Tag.alike_nameless ((c.nameless_field name d).read_alike hshape
      (c'.nameless_field name d) hd (congrArg (· ++ '.' :: name) hpath) hentries)

theorem Store.bind_nameless_option :
    Reference.NoReference ['1'] ∧ (Shape.option .text).Direct ∧ ¬ (Shape.option .text).IsMapping ∧
      (empty.put ['a'] ['x']).bind (.tag (Tag.nameless ['1'])) (.option .text) =
        .ok (.some (.text ['1'])) := by
  have hd : Reference.NoReference ['1'] := fun span h => by cases h
  have hmapping : ¬ (Shape.option .text).IsMapping := by
    rintro ⟨item, h⟩
    cases h
  have hempty : ∀ path, (Cursor.ofTag empty ⟨[], some ['1']⟩ path).read (.option .text) =
      .ok (.some (.text ['1'])) := fun path => by
    simp only [Cursor.read, Cursor.bind, Cursor.ofTag, Option.isNone_some, Bool.and_false]
    cbv
  have halike := (bind_nameless hd (.option .text)).1 (empty.put ['a'] ['x']) empty
    fun h => absurd h hmapping
  refine ⟨hd, .option .text, hmapping, halike.eq_ok ?_⟩
  exact hempty _

/-- A mapping with an empty default is not empty: it has what is stored. -/
theorem Store.bind_nameless_ne :
    Reference.NoReference [] ∧ (Shape.mapping .text).Direct ∧
      (empty.put ['a'] ['x']).bind (.tag (Tag.nameless [])) (.mapping .text) =
        .ok (.mapping [(['a'], .text ['x'])]) ∧
      empty.bind (.tag (Tag.nameless [])) (.mapping .text) = .ok (.mapping []) ∧
      ¬ Alike ((empty.put ['a'] ['x']).bind (.tag (Tag.nameless [])) (.mapping .text))
        (empty.bind (.tag (Tag.nameless [])) (.mapping .text)) := by
  have hd : Reference.NoReference [] := fun span h => by cases h
  have hread : ∀ path, (Cursor.ofTag (empty.put ['a'] ['x']) ⟨[], some []⟩ path).read
      (.mapping .text) = .ok (.mapping [(['a'], .text ['x'])]) := fun path => by
    simp only [Cursor.read, Cursor.bind, Cursor.ofTag, Option.isNone_some, Bool.and_false]
    cbv
  have hfull : (empty.put ['a'] ['x']).bind (.tag (Tag.nameless [])) (.mapping .text) =
      .ok (.mapping [(['a'], .text ['x'])]) := hread _
  have hempty : empty.bind (.tag (Tag.nameless [])) (.mapping .text) = .ok (.mapping []) := rfl
  refine ⟨hd, .mapping _, hfull, hempty, fun h => ?_⟩
  cases hfull.symm.trans (h.eq_ok hempty)

end ConfigGraph
