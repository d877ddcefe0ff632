import ConfigGraph.Proofs.Binding.CommaList
import ConfigGraph.Proofs.Binding.Elements
import ConfigGraph.Proofs.Binding.Nameless
import ConfigGraph.Proofs.Binding.Under
import Mathlib.Data.List.Basic

/-!
# Binding in another place

Two cursors stand at one place when what is stored below a key for one of them is what is stored for
the other one at all (`Cursor.Beside`, `Cursor.Moved`). Their elements, entries and fields stand at one
place again, and so do the pieces of a text with commas in the stores that these are scattered over
(`Moved.scratch`). So by induction on the shape both read the same, but that the errors of the first
have the key in front (`Moved.bind`), and a record is read at a key as it is at the root of the store
below that key (`Store.bind_under`).
-/

namespace ConfigGraph

/-! ## Errors -/

/-- The error with its key put behind another key and a dot. -/
def ConfigError.under (p : Text) : ConfigError → ConfigError
  | propertyNotFound key path => propertyNotFound (p ++ '.' :: key) path
  | compositeDefault key path => compositeDefault (p ++ '.' :: key) path
  | coerce key value target => coerce (p ++ '.' :: key) value target
  | e => e

/-! ## Shapes -/

/-- Records by tags with keys and with defaults without references, and what is made of these. -/
inductive Shape.Portable : Shape → Prop where
  | int (type : Number.IntType) : Portable (.int type)
  | float (type : FloatType) : Portable (.float type)
  | bool : Portable .bool
  | char : Portable .char
  | text : Portable .text
  | path : Portable .path
  | duration : Portable .duration
  | option {item : Shape} (h : Portable item) : Portable (.option item)
  | list {item : Shape} (h : Portable item) : Portable (.list item)
  | mapping {item : Shape} (h : Portable item) : Portable (.mapping item)
  | record {name : Text} {fields : List (Field Shape)}
      (htag : ∀ f ∈ fields, ∃ tag, Tag.parse f.tag = .ok tag ∧ Key.Unmarked tag.key ∧
        ∀ d ∈ tag.default?, Reference.NoReference d)
      (h : ∀ f ∈ fields, Portable f.shape) : Portable (.record name fields)

namespace Cursor

/-- Two cursors have the same path, and the key of the first is that of the second behind `p`. What is
stored below `p` for the first is what is stored for the second, and it has no references. -/
structure Beside (p : Text) (c c' : Cursor) : Prop where
  base : Key.Unmarked p
  key : c.key = Key.join p c'.key
  key' : c'.key = [] ∨ Key.Unmarked c'.key
  path : c.path = c'.path
  store : c'.store = c.store.under p
  texts : ∀ q t, c'.store.leaf? q = some t → Reference.NoReference t

/-- Two cursors beside each other look up their keys, and have the same default without references. -/
structure Moved (p : Text) (c c' : Cursor) : Prop extends Beside p c c' where
  unmarked : Key.Unmarked c'.key
  lookup : c.lookup = true
  lookup' : c'.lookup = true
  default : c.default? = c'.default?
  noReference : ∀ d ∈ c'.default?, Reference.NoReference d

variable {p : Text} {c c' : Cursor}

/-! ## What is stored and what is read as a text -/

/-- Cursors beside each other that go on to a key, with a default without references. -/
theorem Beside.at_key (h : c.Beside p c') {key : Text} (hkey : Key.Unmarked key) (default? : Option Text)
    (hd : ∀ d ∈ default?, Reference.NoReference d) (path : Text) :
    Moved p ⟨c.store, Key.join p key, default?, true, path⟩ ⟨c'.store, key, default?, true, path⟩ :=
  ⟨⟨h.base, rfl, .inr hkey, rfl, h.store, h.texts⟩, hkey, rfl, rfl, rfl, hd⟩

namespace Moved

theorem key_eq (h : c.Moved p c') : c.key = p ++ '.' :: c'.key := by
  rw [h.key, Key.join_eq h.base.ne_nil h.unmarked.ne_nil]

theorem unmarked_key (h : c.Moved p c') : Key.Unmarked c.key :=
  h.key_eq ▸ h.base.append c'.key

theorem has (h : c.Moved p c') : c.store.has c.key = c'.store.has c'.key := by
  rw [h.store, h.key_eq, Store.has_under h.base h.unmarked]

theorem entries (h : c.Moved p c') : c.entries = c'.entries := by
  rw [Cursor.entries, Cursor.entries, h.store, h.key_eq, Store.group_under h.base h.unmarked]

theorem isPresent (h : c.Moved p c') : c.isPresent = c'.isPresent := by
  rw [Cursor.isPresent, Cursor.isPresent, h.lookup, h.lookup', h.has]

/-- Both have the same text, which has no references. -/
theorem content? (h : c.Moved p c') : Tag.content? c.store ⟨c.key, c.default?⟩ =
    Tag.content? c'.store ⟨c'.key, c'.default?⟩ := by
  rw [Tag.content?, Tag.content?, if_neg h.unmarked_key.ne_nil, if_neg h.unmarked.ne_nil, h.default,
    h.store, h.key_eq, Store.get?_under h.base h.unmarked]

theorem noReference_content (h : c.Moved p c') {t : Text}
    (ht : Tag.content? c'.store ⟨c'.key, c'.default?⟩ = some t) : Reference.NoReference t := by
  rcases Reference.content?_eq_some ht with ⟨-, hget⟩ | hd
  · rw [Store.get?, h.unmarked.normalize] at hget
    exact h.texts _ t hget
  · exact h.noReference t hd

theorem value (h : c.Moved p c') : c.value = c'.value.mapError (·.under p) := by
  have hcloses : ∀ tag : Tag, ¬ tag.Closes [] := fun tag hc => List.not_mem_nil hc.mem
  rw [Cursor.value, Cursor.value, h.lookup, h.lookup', if_pos rfl, if_pos rfl,
    Reference.tagValue_eq, Reference.tagValue_eq, if_neg (hcloses _), if_neg (hcloses _), h.content?]
  cases ht : Tag.content? c'.store ⟨c'.key, c'.default?⟩ with
  | none => rfl
  | some t =>
    have hno := h.noReference_content ht
    dsimp only
    rw [hno.expand_eq c.store c'.store _ (Reference.enter [] c'.key)]
    cases hexpand : Reference.expand c'.store (Reference.enter [] c'.key) t with
    | error e =>
      obtain rfl := hno.eq_unclosed hexpand
      rfl
    | ok v => rfl

theorem require (h : c.Moved p c') : c.require = c'.require.mapError (·.under p) := by
  rw [Cursor.require, Cursor.require, mapError_bind, h.value]
  cases c'.value with
  | error e => rfl
  | ok v =>
    cases v with
    | none =>
      rw [h.key_eq, h.path]
      rfl
    | some t => rfl

theorem checkDefault (h : c.Moved p c') (shape : Shape) :
    c.checkDefault shape = (c'.checkDefault shape).mapError (·.under p) := by
  rw [Cursor.checkDefault, Cursor.checkDefault, h.default, h.key_eq, h.path]
  split <;> rfl

/-- A value that is made of one text is read alike. -/
theorem bind_conversion (h : c.Moved p c') {shape : Shape} {conv : Conversion}
    (hshape : shape.conversion? = some conv) :
    c.bind shape = (c'.bind shape).mapError (·.under p) := by
  rw [Cursor.bind_conversion hshape, Cursor.bind_conversion hshape, mapError_bind, h.require]
  refine congrArg _ (funext fun t => ?_)
  rw [Conversion.apply, Conversion.apply, h.key_eq]
  cases conv.read? t <;> rfl

/-! ## Parts -/

theorem element (h : c.Moved p c') (i : Nat) : (c.element i).Moved p (c'.element i) := by
  have hkey : Key.element c.key i = Key.join p (Key.element c'.key i) := by
    rw [Key.join_eq h.base.ne_nil (Key.element_ne_nil _ i), h.key_eq, Key.element_dot]
  rw [Cursor.element, Cursor.element, child, child, hkey, h.path]
  exact h.toBeside.at_key (unmarked_element h.unmarked i) none (fun d hd => by cases hd) _

theorem entry (h : c.Moved p c') (name : Text) : (c.entry name).Moved p (c'.entry name) := by
  rw [Cursor.entry, Cursor.entry, child, child, h.key, Key.join_join, h.path]
  exact h.toBeside.at_key (h.unmarked.join name) none (fun d hd => by cases hd) _

/-- Pieces are scattered alike. -/
theorem scratch (h : c.Moved p c') (pieces : List Text) :
    (c.scratch pieces).Moved p (c'.scratch pieces) := by
  refine ⟨⟨h.base, h.key, h.key', h.path, ?_, fun q t ht => ?_⟩, h.unmarked, rfl, rfl, rfl,
    fun d hd => by cases hd⟩
  · refine Store.ext_leaf? fun q => Option.ext fun t => ?_
    rw [leaf?_scratch h.unmarked, Store.leaf?_under, leaf?_scratch h.unmarked_key, h.key_eq]
    simp only [Key.element_dot, List.append_cancel_left_eq, List.cons.injEq, true_and]
    refine ⟨fun ht => ⟨?_, ht⟩, And.right⟩
    obtain ⟨i, -, -, rfl, -⟩ := ht
    exact unmarked_element h.unmarked i
  · obtain ⟨i, piece, -, -, rfl⟩ := (leaf?_scratch h.unmarked).1 ht
    exact Reference.noReference_escape piece

end Moved

/-- Fields with the same tag stand at one place, also where the records stand at the root. -/
theorem Beside.field (h : c.Beside p c') {tag : Tag} (hkey : Key.Unmarked tag.key)
    (hd : ∀ d ∈ tag.default?, Reference.NoReference d) (name : Text) :
    (c.field name tag).Moved p (c'.field name tag) := by
  have hfield : ∀ c : Cursor, c.field name tag =
      ⟨c.store, Key.join c.key tag.key, tag.default?, true, c.path ++ '.' :: name⟩ := by
    intro c
    simp [Cursor.field, ofTag, hkey.normalize, hkey.ne_nil]
  have hjoin : Key.Unmarked (Key.join c'.key tag.key) := by
    rcases h.key' with hroot | hk
    · rw [hroot]
      exact hkey
    · exact hk.join tag.key
  rw [hfield, hfield, h.key, Key.join_join, h.path]
  exact h.at_key hjoin _ hd _

/-! ## What is read -/

section

variable {shape item : Shape}
  (ih : ∀ {c c' : Cursor}, c.Moved p c' → c.bind item = (c'.bind item).mapError (·.under p))

include ih

theorem Moved.read (h : c.Moved p c') : c.read item = (c'.read item).mapError (·.under p) := by
  rw [Cursor.read, Cursor.read, mapError_bind, h.checkDefault, ih h]

theorem Moved.readElements (h : c.Moved p c') (i : Nat) :
    c.readElements item i = (c'.readElements item i).mapError (·.under p) := by
  fun_induction Cursor.readElements c' item i with
  | case1 i hp ihr =>
    rw [Cursor.readElements, dif_pos ((h.element i).isPresent.trans hp), (h.element i).read ih, ihr]
    simp only [mapError_bind]
    rfl
  | case2 i hp =>
    rw [Cursor.readElements, dif_neg fun hp' => hp ((h.element i).isPresent.symm.trans hp')]
    rfl

theorem Moved.read_scattered (h : c.Moved p c') (pieces : List Text) :
    (c.scattered pieces).mapM (Cursor.read · item) =
      ((c'.scattered pieces).mapM (Cursor.read · item)).mapError (·.under p) := by
  rw [scattered_eq h.unmarked_key, scattered_eq h.unmarked, List.mapM_map, List.mapM_map,
    mapError_mapM]
  refine congrArg (fun f => List.mapM f _) (funext fun i => ?_)
  exact ((h.scratch pieces).element i).read ih

theorem Moved.bind_list (h : c.Moved p c') :
    c.bind (.list item) = (c'.bind (.list item)).mapError (·.under p) := by
  have hfirst : c.store.has (Key.element c.key 0) = c'.store.has (Key.element c'.key 0) :=
    (h.element 0).has
  cases hc : c'.store.has (Key.element c'.key 0) with
  | true =>
    rw [bind_list_eq_readElements (by rw [h.lookup, hfirst, hc]; rfl),
      bind_list_eq_readElements (by rw [h.lookup', hc]; rfl), mapError_map, h.readElements ih]
  | false =>
    rw [bind_list_pieces (hfirst.trans hc), bind_list_pieces hc, mapError_bind, h.require]
    simp only [mapError_map, h.read_scattered ih]

theorem Moved.bind_option (h : c.Moved p c') :
    c.bind (.option item) = (c'.bind (.option item)).mapError (·.under p) := by
  simp only [Cursor.bind, h.has, h.isPresent, h.default, ih h]
  generalize (if item.isComposite then _ else _ : Bool) = present
  split
  · rfl
  · rw [mapError_map]

theorem Moved.bind_mapping (h : c.Moved p c') :
    c.bind (.mapping item) = (c'.bind (.mapping item)).mapError (·.under p) := by
  rw [bind_mapping_eq, bind_mapping_eq, h.entries, h.default, h.key_eq, h.path]
  split
  · rfl
  · simp only [mapError_bind, mapError_mapM, mapError_map, (h.entry _).read ih]
    rfl

end

theorem Beside.bind_record (h : c.Beside p c') (name : Text) {fields : List (Field Shape)}
    (htag : ∀ f ∈ fields, ∃ tag, Tag.parse f.tag = .ok tag ∧ Key.Unmarked tag.key ∧
      ∀ d ∈ tag.default?, Reference.NoReference d)
    (ih : ∀ f ∈ fields, ∀ {c c' : Cursor}, c.Moved p c' →
      c.bind f.shape = (c'.bind f.shape).mapError (·.under p)) :
    c.bind (.record name fields) = (c'.bind (.record name fields)).mapError (·.under p) := by
  rw [Cursor.bind, Cursor.bind, bindFields_eq_mapM, bindFields_eq_mapM, mapError_map, mapError_mapM]
  refine congrArg _ (mapM_eq_of_map_eq (List.map_congr_left fun f hf => ?_))
  obtain ⟨tag, hparse, hkey, hd⟩ := htag f hf
  rw [mapError_map, bindField, bindField, hparse, ok_bind, ok_bind,
    (h.field hkey hd f.name).read (ih f hf)]

/-- Cursors that stand at one place read the same, but for the keys of errors. -/
theorem Moved.bind {shape : Shape} (hshape : shape.Portable) (h : c.Moved p c') :
    c.bind shape = (c'.bind shape).mapError (·.under p) := by
  induction hshape generalizing c c' with
  | int | float | bool | char | text | path | duration => exact h.bind_conversion rfl
  | option _ ih => exact h.bind_option ih
  | list _ ih => exact h.bind_list ih
  | mapping _ ih => exact h.bind_mapping ih
  | record htag _ ih => exact h.toBeside.bind_record _ htag ih

end Cursor

namespace Store

/-- At the root, a record is read without a key. -/
theorem bind_root (s : Store) (name : Text) (fields : List (Field Shape)) :
    s.bind .root (.record name fields) =
      (⟨s, [], none, false, name⟩ : Cursor).bind (.record name fields) := rfl

/-- A record is read at a key as at the root of the store below that key, and an error has the key in
front of its own. So nothing is read of the store but what is below that key. Field tags have keys
without the mark of the root, and neither their defaults nor what is stored there has references. -/
theorem bind_under {s : Store} {p : Text} (hk : Key.Referable p) (hu : Key.Unmarked p) {name : Text}
    {fields : List (Field Shape)} (hshape : (Shape.record name fields).Portable)
    (htexts : ∀ q t, (s.under p).leaf? q = some t → Reference.NoReference t) :
    s.bind (.key p) (.record name fields) =
      ((s.under p).bind .root (.record name fields)).mapError (·.under p) ∧
    ∀ s' : Store, (∀ q, Key.Unmarked q → s'.leaf? (p ++ '.' :: q) = s.leaf? (p ++ '.' :: q)) →
      s'.bind (.key p) (.record name fields) = s.bind (.key p) (.record name fields) := by
  have hbind : ∀ s : Store, (∀ q t, (s.under p).leaf? q = some t → Reference.NoReference t) →
      s.bind (.key p) (.record name fields) =
        ((s.under p).bind .root (.record name fields)).mapError (·.under p) := by
    intro s htexts
    have hbeside : (⟨s, p, none, true, name⟩ : Cursor).Beside p ⟨s.under p, [], none, false, name⟩ :=
      ⟨hu, (Key.join_nil p).symm, .inl rfl, rfl, rfl, htexts⟩
    cases hshape with
    | record htag h =>
      rw [bind_key _ hk, Cursor.ofTag_key hu, bind_root]
      exact hbeside.bind_record name htag fun f hf _ _ hmoved => hmoved.bind (h f hf)
  refine ⟨hbind s htexts, fun s' hs' => ?_⟩
  have hunder : s'.under p = s.under p := under_congr hs'
  rw [hbind s htexts, hbind s' (hunder ▸ htexts), hunder]

/-- The field of a record for a record in it, of a list of texts and a text. -/
def nestedFields : List (Field Shape) :=
  [⟨['n'], ['$', '{', 'n', '}'], .record ['N']
    [⟨['h'], ['$', '{', 'h', '}'], .list .text⟩, ⟨['m'], ['$', '{', 'm', '}'], .text⟩]⟩]

/-- A list from a text with commas, and a field that is missing. What is stored beside it is not
read. -/
theorem bind_under_nested :
    Key.Referable ['a'] ∧ Key.Unmarked ['a'] ∧ (Shape.record ['R'] nestedFields).Portable ∧
      (((empty.put ['a', '.', 'n', '.', 'h'] ['x', ',', 'y']).put ['b'] ['$', '{', 'c', '}']).bind
        (.key ['a']) (.record ['R'] nestedFields)) =
          .error (.propertyNotFound ['a', '.', 'n', '.', 'm'] ['R', '.', 'n', '.', 'm']) := by
  have hk : Key.Verbatim ['a'] := by simp [Key.Verbatim, Text.isBlank]
  have hplain : ∀ c, c ≠ '$' → Tag.parse ['$', '{', c, '}'] = .ok ⟨[c], none⟩ →
      ∃ tag, Tag.parse ['$', '{', c, '}'] = .ok tag ∧ Key.Unmarked tag.key ∧
        ∀ d ∈ tag.default?, Reference.NoReference d :=
    fun c hc h => ⟨_, h, ⟨c, [], rfl, hc⟩, fun d hd => by cases hd⟩
  have hshape : (Shape.record ['R'] nestedFields).Portable := by
    refine .record (List.forall_mem_singleton.2 (hplain 'n' (by decide) rfl))
      (List.forall_mem_singleton.2 (.record ?_ ?_))
    · exact List.forall_mem_cons.2 ⟨hplain 'h' (by decide) rfl,
        List.forall_mem_singleton.2 (hplain 'm' (by decide) rfl)⟩
    · exact List.forall_mem_cons.2 ⟨.list .text, List.forall_mem_singleton.2 .text⟩
  have hunder : ((empty.put ['a', '.', 'n', '.', 'h'] ['x', ',', 'y']).put ['b']
      ['$', '{', 'c', '}']).under ['a'] = empty.put ['n', '.', 'h'] ['x', ',', 'y'] := rfl
  have htexts : ∀ q t, (((empty.put ['a', '.', 'n', '.', 'h'] ['x', ',', 'y']).put ['b']
      ['$', '{', 'c', '}']).under ['a']).leaf? q = some t → Reference.NoReference t := by
    intro q t ht
    rw [hunder] at ht
    by_cases hq : q = ['n', '.', 'h']
    · rw [hq] at ht
      cases ht
      exact Reference.NoReference.of_noOpener (by decide)
    · rw [leaf?_empty_put (List.cons_ne_nil _ _) hq] at ht
      cases ht
  have hroot : (⟨empty.put ['n', '.', 'h'] ['x', ',', 'y'], [], none, false, ['R']⟩ : Cursor).bind
      (.record ['R'] nestedFields) =
        .error (.propertyNotFound ['n', '.', 'm'] ['R', '.', 'n', '.', 'm']) := by cbv
  refine ⟨hk.referable, hk.unmarked, hshape, ?_⟩
  rw [(bind_under hk.referable hk.unmarked hshape htexts).1, hunder, bind_root, hroot]
  rfl

end Store

end ConfigGraph
