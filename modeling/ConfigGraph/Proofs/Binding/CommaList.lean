import ConfigGraph.Proofs.Binding.RoundTrip
import ConfigGraph.Proofs.Reference.Transparent

/-!
# Texts read as lists

Where there is no first element, a list is read from the pieces of one text between commas. These are
scattered over a store of their own, which holds them as the elements of the key (`reads_scratch`) and
nothing else (`size_scratch`), and there each piece is read as it stands (`require_scratch`). So a list
of texts is the pieces (`bind_list_text`), and a list of other scalars what they are converted to, up
to the first that cannot be converted (`bind_commaList`).
-/

namespace ConfigGraph

open Key (Scope)

namespace Store

/-- Nothing but what is at and below the key comes into an empty store. -/
theorem scope_of_mem_write {v : Value} (hw : v.Ordered) (hp : v.Plain) {k q : Text}
    (h : q ∈ (empty.write k v).keys) : Scope k q := by
  obtain ⟨t, ht⟩ := mem_keys_iff.1 h
  rcases (write_effect hw hp empty k q t).1 ht with ⟨-, p, -, rfl⟩ | ⟨-, ht⟩
  · exact Path.scope_key k p
  · cases ht

/-- A store in which there is only a sequence of scalars has a leaf for each item. -/
theorem Holds.size_eq {s : Store} {k : Text} {vs : List Value} (h : s.Holds k (.seq vs))
    (hv : ∀ v ∈ vs, ∃ t, v.scalar? = some t) (hk : ∀ q ∈ s.keys, Scope k q) :
    s.size = vs.length := by
  refine Nat.le_antisymm ?_ (h.length_le_size fun v hm => ?_)
  · have hd : s.keys.Nodup :=
      s.sorted_keys.imp fun {a b} hab e => by rw [e, Text.before_irrefl] at hab; cases hab
    have hsub : s.keys ⊆ (List.range vs.length).map (Key.element k) := by
      intro q hq
      obtain ⟨t, ht⟩ := mem_keys_iff.1 hq
      obtain ⟨p, hp, rfl⟩ := (h q t (hk q hq)).1 ht
      obtain ⟨i, v, r, hi, hl, rfl⟩ := Value.hasLeaf_seq_iff.1 hp
      obtain ⟨u, hu⟩ := hv v (List.mem_of_getElem? hi)
      obtain ⟨rfl, -⟩ := (Value.hasLeaf_scalar_iff hu).1 hl
      exact List.mem_map.2 ⟨i, List.mem_range.2 (List.getElem?_eq_some_iff.1 hi).1, rfl⟩
    have hle := hd.length_le_of_subset hsub
    rwa [keys, List.length_map, List.length_map, List.length_range] at hle
  · obtain ⟨t, ht⟩ := hv v hm
    exact ⟨[], t, .scalar ht⟩

end Store

/-! ## Conversions -/

/-- How a value is read from a text, and the name of its type for errors. -/
structure Conversion where
  target : String
  read? : Text → Option Bound

namespace Conversion

/-- What a text at a key is converted to. -/
def apply (conv : Conversion) (key text : Text) : Except ConfigError Bound :=
  match conv.read? text with
  | some x => .ok x
  | none => .error (.coerce key text conv.target)

/-- Texts are converted one by one: all of them, or the first that cannot be converted is an error, at
the key of its element. -/
theorem mapM_apply_cases (conv : Conversion) (key : Text) (pieces : List Text) (i : Nat) :
    (∃ xs, pieces.map conv.read? = xs.map some ∧
      ((pieces.zipIdx i).mapM fun e => conv.apply (Key.element key e.2) e.1) = .ok xs) ∨
    ∃ before piece rest, pieces = before ++ piece :: rest ∧
      (∀ p ∈ before, (conv.read? p).isSome = true) ∧ conv.read? piece = none ∧
      ((pieces.zipIdx i).mapM fun e => conv.apply (Key.element key e.2) e.1) =
        .error (.coerce (Key.element key (i + before.length)) piece conv.target) := by
  induction pieces generalizing i with
  | nil => exact .inl ⟨[], rfl, rfl⟩
  | cons piece pieces ih =>
    rw [List.zipIdx_cons, List.mapM_cons, apply]
    cases hread : conv.read? piece with
    | none =>
      exact .inr ⟨[], piece, pieces, rfl, fun p hp => absurd hp List.not_mem_nil, hread, rfl⟩
    | some x =>
      rcases ih (i + 1) with ⟨xs, hmap, hall⟩ | ⟨before, p, rest, rfl, hbefore, hp, hall⟩
      · exact .inl ⟨x :: xs, by rw [List.map_cons, hread, hmap, List.map_cons], by rw [hall]; rfl⟩
      · refine .inr ⟨piece :: before, p, rest, rfl, ?_, hp, ?_⟩
        · exact List.forall_mem_cons.2 ⟨by rw [hread]; rfl, hbefore⟩
        · rw [hall, List.length_cons, Nat.add_right_comm, Nat.add_assoc]
          rfl

end Conversion

/-- The conversion of a scalar. Numbers, truth values and durations are read without the white space
around them, characters and texts as they stand. -/
def Shape.conversion? : Shape → Option Conversion
  | .int type => some ⟨type.name, fun s => .int <$> type.read? (Text.trim s)⟩
  | .float type => some ⟨type.name, fun s => .float type <$> type.format.read? (Text.trim s)⟩
  | .bool => some ⟨"bool", fun s => .bool <$> readBool? s⟩
  | .char => some ⟨"char", fun s => .char <$> readChar? s⟩
  | .text => some ⟨"String", fun s => some (.text s)⟩
  | .path => some ⟨"PathBuf", fun s => some (.text s)⟩
  | .duration => some ⟨"core::time::Duration", fun s => .duration <$> Duration.read? s⟩
  | .option _ | .list _ | .mapping _ | .record .. | .probe _ => none

namespace Cursor

variable {c : Cursor} {v : Value} {s t : Text} {pieces : List Text} {conv : Conversion}

/-- A scalar is the text of its key, converted. -/
theorem bind_conversion {shape : Shape} (h : shape.conversion? = some conv) (c : Cursor) :
    c.bind shape = c.require >>= conv.apply c.key := by
  have hconvert : ∀ {α : Type} (f : α → Bound) (target : String) (read? : Text → Option α),
      f <$> c.convert target read? =
        c.require >>= Conversion.apply ⟨target, fun s => f <$> read? s⟩ c.key := by
    intro α f target read?
    rw [convert]
    cases c.require with
    | error e => rfl
    | ok text =>
      simp only [ok_bind, Conversion.apply]
      cases read? text <;> rfl
  have htext : ∀ target, Bound.text <$> c.require =
      c.require >>= Conversion.apply ⟨target, fun s => some (.text s)⟩ c.key := by
    intro target
    cases c.require <;> rfl
  cases shape with
  | int | float | bool | char | duration =>
    cases h
    rw [Cursor.bind, hconvert]
  | text | path =>
    cases h
    rw [Cursor.bind, htext]
  | option | list | mapping | record | probe => cases h

/-! ## Pieces in a store of their own -/

/-- The position of the same key in a store that only has the pieces, as the elements of the key. -/
def scratch (c : Cursor) (pieces : List Text) : Cursor :=
  { c.child c.key c.path with
    store := Store.empty.write c.key (Bound.list (pieces.map .text)).tree }

theorem tree_texts (pieces : List Text) : (Bound.list (pieces.map .text)).tree =
    .seq (pieces.map fun piece => .text (Reference.escape piece)) := by
  rw [Bound.tree, Bound.treeItems_eq, List.map_map]
  rfl

theorem each_texts {maps : List (Text × Value) → Prop} (pieces : List Text) :
    Value.Each maps (fun _ => True) (Bound.list (pieces.map .text)).tree := by
  rw [tree_texts]
  refine Value.each_seq_iff.2 ⟨trivial, fun v hv => ?_⟩
  obtain ⟨piece, -, rfl⟩ := List.mem_map.1 hv
  exact Value.each_scalar rfl

theorem reads_scratch (hk : Key.Unmarked c.key) (pieces : List Text) :
    (c.scratch pieces).Reads (Bound.list (pieces.map .text)).tree where
  lookup := rfl
  default := rfl
  unmarked := hk
  holds := Store.holds_write (each_texts pieces) (each_texts pieces) _ (fun h => absurd h hk.ne_nil)
    fun _ _ => rfl

theorem size_scratch (hk : Key.Unmarked c.key) (pieces : List Text) :
    (c.scratch pieces).store.size = pieces.length := by
  have hreads := (reads_scratch hk pieces).holds
  rw [tree_texts] at hreads
  rw [hreads.size_eq, List.length_map]
  · intro v hv
    obtain ⟨piece, -, rfl⟩ := List.mem_map.1 hv
    exact ⟨_, rfl⟩
  · exact fun q => Store.scope_of_mem_write (each_texts pieces) (each_texts pieces)

/-- The leaves of that store are the pieces, escaped, at the elements of the key. -/
theorem leaf?_scratch (hk : Key.Unmarked c.key) {q : Text} :
    (c.scratch pieces).store.leaf? q = some t ↔
      ∃ i piece, pieces[i]? = some piece ∧ q = Key.element c.key i ∧ t = Reference.escape piece := by
  have hreads := (reads_scratch hk pieces).holds
  rw [tree_texts] at hreads
  constructor
  · intro h
    have hscope : Scope c.key q := Store.scope_of_mem_write (each_texts pieces) (each_texts pieces)
      (Store.mem_keys_iff.2 ⟨t, h⟩)
    obtain ⟨r, hr, rfl⟩ := (hreads q t hscope).1 h
    obtain ⟨i, v, r, hi, hv, rfl⟩ := Value.hasLeaf_seq_iff.1 hr
    rw [List.getElem?_map] at hi
    obtain ⟨piece, hpiece, rfl⟩ := Option.map_eq_some_iff.1 hi
    obtain ⟨rfl, rfl⟩ := (Value.hasLeaf_scalar_iff rfl).1 hv
    exact ⟨i, piece, hpiece, rfl, rfl⟩
  · rintro ⟨i, piece, hi, rfl, rfl⟩
    have hitem : (pieces.map fun piece => Value.text (Reference.escape piece))[i]? =
        some (.text (Reference.escape piece)) := by
      rw [List.getElem?_map, hi]
      rfl
    exact hreads.leaf?_key (.item hitem (.scalar rfl))

theorem scattered_eq (hk : Key.Unmarked c.key) (pieces : List Text) :
    c.scattered pieces = (List.range pieces.length).map (c.scratch pieces).element := by
  have hkey : ∀ i, Key.normalize (Key.element c.key i) = Key.element c.key i :=
    fun i => (unmarked_element hk i).normalize
  have hstore : Store.ofList (pieces.zipIdx.map fun e =>
      (Key.element c.key e.2, Value.text (Reference.escape e.1))) = (c.scratch pieces).store := by
    rw [scratch, tree_texts, Store.write_seq, List.zipIdx_map]
    simp only [Store.ofList, List.foldl_map, Store.set, hkey]
    rfl
  rw [← size_scratch hk pieces, scattered, hstore]
  rfl

/-- In their store the pieces are read as they stand. -/
theorem require_scratch (hk : Key.Unmarked c.key) {i : Nat} {piece : Text}
    (hi : pieces[i]? = some piece) : ((c.scratch pieces).element i).require = .ok piece := by
  have hreads := reads_scratch hk pieces
  rw [tree_texts] at hreads
  have hitem : (pieces.map fun piece => Value.text (Reference.escape piece))[i]? =
      some (.text (Reference.escape piece)) := by
    rw [List.getElem?_map, hi]
    rfl
  exact (hreads.element hitem).require rfl

/-- Scattered pieces are read as what they are converted to, with the keys of the elements. -/
theorem read_scattered (hk : Key.Unmarked c.key) {item : Shape}
    (hitem : item.conversion? = some conv) (pieces : List Text) :
    (c.scattered pieces).mapM (·.read item) =
      pieces.zipIdx.mapM fun e => conv.apply (Key.element c.key e.2) e.1 := by
  refine mapM_eq_of_map_eq ?_
  rw [scattered_eq hk, List.map_map]
  refine List.ext_getElem (by simp) fun i hi _ => ?_
  have hi : i < pieces.length := by simpa using hi
  simp only [List.getElem_map, List.getElem_range, Function.comp_apply, List.getElem_zipIdx,
    read_element, bind_conversion hitem, require_scratch hk (List.getElem?_eq_getElem hi), ok_bind,
    Nat.zero_add]
  rfl

/-! ## Lists from one text -/

/-- Where no first element is looked up, a list is made of the pieces between commas. -/
theorem bind_list_of_not_first (hfirst : ¬ (c.lookup && c.store.has (Key.element c.key 0)) = true)
    (item : Shape) : c.bind (.list item) = c.require >>= fun text =>
      .list <$> (c.scattered (commaPieces text)).mapM (·.read item) := by
  rw [Cursor.bind]
  simp only [Bool.eq_false_iff.2 hfirst, Bool.false_eq_true, if_false]
  cases c.require <;> rfl

/-- Where there is no first element, a list is made of the pieces between commas. -/
theorem bind_list_pieces (hfirst : c.store.has (Key.element c.key 0) = false) (item : Shape) :
    c.bind (.list item) = c.require >>= fun text =>
      .list <$> (c.scattered (commaPieces text)).mapM (·.read item) :=
  bind_list_of_not_first (by rw [hfirst, Bool.and_false]; exact Bool.false_ne_true) item

/-- Where there is no first element, a list of texts is made of the pieces between commas. -/
theorem bind_list_text (hk : Key.Unmarked c.key)
    (hfirst : c.store.has (Key.element c.key 0) = false) (ht : c.require = .ok t) :
    c.bind (.list .text) = .ok (.list ((commaPieces t).map .text)) := by
  have hpieces : ((commaPieces t).zipIdx.mapM fun e => Conversion.apply
      ⟨"String", fun s => some (.text s)⟩ (Key.element c.key e.2) e.1) =
        .ok ((commaPieces t).map .text) := by
    refine mapM_eq_ok (List.ext_getElem (by simp) fun i hi _ => ?_)
    simp only [List.getElem_map, List.getElem_zipIdx]
    rfl
  rw [bind_list_pieces hfirst, ht, ok_bind, read_scattered hk rfl, hpieces]
  rfl

/-- Below a scalar there is nothing. -/
theorem Reads.not_has_element (h : c.Reads v) (hs : v.scalar? = some t) (i : Nat) :
    c.store.has (Key.element c.key i) = false := by
  refine Bool.eq_false_iff.2 fun hp => ?_
  obtain ⟨q, hq, hc⟩ := (has_iff_of_unmarked (unmarked_element h.unmarked i)).1 hp
  obtain ⟨u, hu⟩ := Store.mem_keys_iff.1 hq
  obtain ⟨p, hl, rfl⟩ := (h.holds q u (Key.scope_of_element hc)).1 hu
  obtain ⟨rfl, -⟩ := (Value.hasLeaf_scalar_iff hs).1 hl
  exact Key.not_covers_element c.key i hc

/-- At a text without references, a list of texts is read from its pieces between commas. -/
theorem Reads.bind_list_text (h : c.Reads v) (hs : v.scalar? = some t)
    (ht : Reference.find? t = .ok none) :
    c.bind (.list .text) = .ok (.list ((commaPieces (Reference.unescape t)).map .text)) :=
  Cursor.bind_list_text h.unmarked (h.not_has_element hs 0) (h.require_of_none hs ht)

/-- Where there is no first element, a list of scalars is made of what the pieces between commas are
converted to. The first piece that cannot be converted is an error, at the key of its element. -/
theorem bind_list_conversion (hk : Key.Unmarked c.key)
    (hfirst : c.store.has (Key.element c.key 0) = false) (ht : c.require = .ok t) {item : Shape}
    (hitem : item.conversion? = some conv) :
    (∃ xs, (commaPieces t).map conv.read? = xs.map some ∧
      c.bind (.list item) = .ok (.list xs)) ∨
    ∃ before piece rest, commaPieces t = before ++ piece :: rest ∧
      (∀ p ∈ before, (conv.read? p).isSome = true) ∧ conv.read? piece = none ∧
      c.bind (.list item) =
        .error (.coerce (Key.element c.key before.length) piece conv.target) := by
  rw [bind_list_pieces hfirst, ht, ok_bind, read_scattered hk hitem]
  rcases conv.mapM_apply_cases c.key (commaPieces t) 0 with
    ⟨xs, hmap, hall⟩ | ⟨before, piece, rest, hsplit, hbefore, hpiece, hall⟩
  · exact .inl ⟨xs, hmap, by rw [hall]; rfl⟩
  · refine .inr ⟨before, piece, rest, hsplit, hbefore, hpiece, ?_⟩
    rw [hall, Nat.zero_add]
    rfl

/-- The text of a key is what its stored text resolves to. -/
theorem require_of_resolve {store : Store} {key raw : Text} (hk : Key.Unmarked key)
    (hraw : store.get? key = some raw) (ht : Reference.resolve store raw = .ok t) (path : Text) :
    (ofTag store ⟨key, none⟩ path).require = .ok t := by
  have hexpand := Reference.expand_stored hk.ne_nil hraw ht
  have hcontent : Tag.content? store ⟨key, none⟩ = some raw := by
    rw [Tag.content?, if_neg hk.ne_nil, hraw, Option.some_or]
  have hvalue : Reference.tagValue store [] ⟨key, none⟩ = .ok (some t) :=
    Reference.tagValue_eq_some_iff.2 ⟨fun h => List.not_mem_nil h.mem, raw, hcontent, by
      rwa [Reference.enter, if_neg hk.ne_nil, List.nil_append]⟩
  rw [ofTag_key hk, Cursor.require, Cursor.value, if_pos rfl, hvalue]
  rfl

/-- What stands between the commas of a text, without the white space around it and without empty
pieces. -/
theorem commaPieces_eq (t : Text) : ∃ parts, parts ≠ [] ∧ Text.join [','] parts = t ∧
    (∀ part ∈ parts, ',' ∉ part) ∧
    commaPieces t = (parts.map Text.trim).filter (!·.isEmpty) :=
  ⟨List.splitOn ',' t, List.splitOn_ne_nil ',' t, List.intercalate_splitOn ',',
    fun _ => not_mem_of_mem_splitOn, rfl⟩

end Cursor

/-- Where a text is stored at a key and nothing at its first element, a list is read from the text
that the stored one resolves to. It is cut at the commas and at nothing else, and its pieces are not
resolved again: a list of texts is the pieces that are not blank, as they stand but for the white
space around them. A list of other scalars is what these are converted to, in order, or the error of
the first that cannot be converted, at the key of its element. -/
theorem Store.bind_commaList {s : Store} {key raw t : Text} (hk : Key.Referable key)
    (hu : Key.Unmarked key) (hfree : ∀ q, Key.Covers (Key.element key 0) q → s.leaf? q = none)
    (hraw : s.get? key = some raw) (ht : Reference.resolve s raw = .ok t) :
    (∃ parts, parts ≠ [] ∧ Text.join [','] parts = t ∧ (∀ part ∈ parts, ',' ∉ part) ∧
      Cursor.commaPieces t = (parts.map Text.trim).filter (!·.isEmpty)) ∧
    s.bind (.key key) (.list .text) = .ok (.list ((Cursor.commaPieces t).map .text)) ∧
    ∀ (item : Shape) (conv : Conversion), item.conversion? = some conv →
      (∃ xs, (Cursor.commaPieces t).map conv.read? = xs.map some ∧
        s.bind (.key key) (.list item) = .ok (.list xs)) ∨
      ∃ before piece rest, Cursor.commaPieces t = before ++ piece :: rest ∧
        (∀ p ∈ before, (conv.read? p).isSome = true) ∧ conv.read? piece = none ∧
        s.bind (.key key) (.list item) =
          .error (.coerce (Key.element key before.length) piece conv.target) := by
  have hrequire := fun path => Cursor.require_of_resolve hu hraw ht path
  have hfirst : s.has (Key.element key 0) = false := by
    refine Bool.eq_false_iff.2 fun h => ?_
    have helement : Key.Unmarked (Key.element key 0) := hu.covers (.inr (Key.below_element key 0))
    obtain ⟨q, hq, hc⟩ := (Cursor.has_iff_of_unmarked helement).1 h
    obtain ⟨u, hleaf⟩ := mem_keys_iff.1 hq
    rw [hfree q hc] at hleaf
    cases hleaf
  simp only [bind_key _ hk, Cursor.ofTag_key hu] at hrequire ⊢
  exact ⟨Cursor.commaPieces_eq t, Cursor.bind_list_text hu hfirst (hrequire _),
    fun item conv hitem => Cursor.bind_list_conversion hu hfirst (hrequire _) hitem⟩

/-- The text of one key, referred to by another. The opener that comes out of the escape is not read
as a reference again, and is not a number. -/
theorem Store.bind_commaList_mixed :
    ((empty.put ['h'] ['$', '$', '{', 'x']).put ['k'] ['7', ',', ' ', ',', '$', '{', 'h', '}']).bind
        (.key ['k']) (.list .text) = .ok (.list [.text ['7'], .text ['$', '{', 'x']]) ∧
      ((empty.put ['h'] ['$', '$', '{', 'x']).put ['k'] ['7', ',', ' ', ',', '$', '{', 'h', '}']).bind
        (.key ['k']) (.list (.int .u8)) =
          .error (.coerce ['k', '[', '1', ']'] ['$', '{', 'x'] "u8") := by
  have hk : Key.Verbatim ['k'] := by simp [Key.Verbatim, Text.isBlank]
  have hfree : ∀ q, Key.Covers (Key.element ['k'] 0) q → ((empty.put ['h'] ['$', '$', '{', 'x']).put
      ['k'] ['7', ',', ' ', ',', '$', '{', 'h', '}']).leaf? q = none := by
    intro q hq
    have hk : q ≠ ['k'] := fun h => Key.not_covers_element ['k'] 0 (h ▸ hq)
    have hh : q ≠ ['h'] := fun h => absurd (h ▸ hq) (by decide)
    rw [leaf?_put _ (List.cons_ne_nil _ _), if_neg hk,
      leaf?_empty_put (List.cons_ne_nil _ _) hh, ite_self]
  have hraw : ((empty.put ['h'] ['$', '$', '{', 'x']).put ['k'] ['7', ',', ' ', ',', '$', '{', 'h',
      '}']).get? ['k'] = some ['7', ',', ' ', ',', '$', '{', 'h', '}'] := by rfl
  have ht : Reference.resolve ((empty.put ['h'] ['$', '$', '{', 'x']).put ['k'] ['7', ',', ' ', ',',
      '$', '{', 'h', '}']) ['7', ',', ' ', ',', '$', '{', 'h', '}'] =
        .ok ['7', ',', ' ', ',', '$', '{', 'x'] := by cbv
  obtain ⟨-, htexts, hall⟩ := bind_commaList hk.referable hk.unmarked hfree hraw ht
  have hpieces : Cursor.commaPieces ['7', ',', ' ', ',', '$', '{', 'x'] =
      [['7'], ['$', '{', 'x']] := by decide
  have hseven : Number.IntType.read? .u8 (Text.trim ['7']) = some 7 := by decide
  have hopener : Number.IntType.read? .u8 (Text.trim ['$', '{', 'x']) = none := by decide
  rw [hpieces] at htexts hall
  refine ⟨htexts, ?_⟩
  rcases hall (.int .u8) _ rfl with
    ⟨xs, hmap, -⟩ | ⟨before, piece, rest, hsplit, hbefore, hnone, hbind⟩
  · obtain _ | ⟨x, _ | ⟨y, xs⟩⟩ := xs <;> simp [hopener] at hmap
  · obtain _ | ⟨p, _ | ⟨p', before⟩⟩ := before
    · cases hsplit
      simp [hseven] at hnone
    · cases hsplit
      exact hbind
    · simp at hsplit

end ConfigGraph
