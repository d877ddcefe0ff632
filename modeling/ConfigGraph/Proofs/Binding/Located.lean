import ConfigGraph.Proofs.Binding.CommaList
import ConfigGraph.Proofs.Binding.Elements
import ConfigGraph.Proofs.Reference.Faults

/-!
# Where binding fails

A value is read part by part (`Shape.Descends`), and each step to a part goes on with the key and with
the path (`Place.step`), as the cursors do. So an error that names a key and a path names those of a part
(`Locates`). The pieces of a text are read in a store of their own; nothing is stored below the key of
such a text (`Store.not_has_element`), so that what is missing in that store is missing in the first
one as well (`Cursor.Within`, `Store.bind_error_located`).
-/

namespace ConfigGraph

open Key (Covers Scope)

/-! ## Parts of a value -/

/-- From a value to one of its parts. A field has the tag that it is read by. -/
inductive PathStep where
  | field (name : Text) (tag : Tag)
  | element (i : Nat)
  | entry (name : Text)

namespace PathStep

/-- The key of the part of a value that is read at a key. A tag without a name adds nothing. -/
def key (k : Text) : PathStep → Text
  | field _ tag => Key.join k (Key.normalize tag.key)
  | element i => Key.element k i
  | entry name => Key.join k name

/-- How a step stands in a path. -/
def text : PathStep → Text
  | field name _ => '.' :: name
  | element i => Key.element [] i
  | entry name => '.' :: name

/-- Whether the part is named; a tag may leave the name out. -/
def isNamed : PathStep → Bool
  | field _ tag => !(Key.normalize tag.key).isEmpty
  | element _ | entry _ => true

end PathStep

/-- The part of a value of a shape that some steps lead to. The content of an optional value is no step
away from it. -/
inductive Shape.Descends : Shape → List PathStep → Shape → Prop where
  | here (shape : Shape) : Descends shape [] shape
  | option {item part : Shape} {steps : List PathStep} (h : Descends item steps part) :
      Descends (.option item) steps part
  | element {item part : Shape} {steps : List PathStep} (i : Nat) (h : Descends item steps part) :
      Descends (.list item) (.element i :: steps) part
  | entry {item part : Shape} {steps : List PathStep} (name : Text) (h : Descends item steps part) :
      Descends (.mapping item) (.entry name :: steps) part
  | field {name : Text} {fields : List (Field Shape)} {f : Field Shape} {tag : Tag} {part : Shape}
      {steps : List PathStep} (hf : f ∈ fields) (htag : Tag.parse f.tag = .ok tag)
      (h : Descends f.shape steps part) :
      Descends (.record name fields) (.field f.name tag :: steps) part

/-- What holds of scalars and probes, and of a value if it holds of its parts, holds of every shape. -/
theorem Shape.induct {P : Shape → Prop}
    (scalar : ∀ shape conv, shape.conversion? = some conv → P shape)
    (option : ∀ item, P item → P (.option item)) (list : ∀ item, P item → P (.list item))
    (mapping : ∀ item, P item → P (.mapping item))
    (record : ∀ name fields, (∀ f ∈ fields, P f.shape) → P (.record name fields))
    (probe : ∀ composite, P (.probe composite)) (shape : Shape) : P shape := by
  refine @Shape.rec P (fun fields => ∀ f ∈ fields, P f.shape) (fun f => P f.shape)
    (fun type => scalar (.int type) _ rfl) (fun type => scalar (.float type) _ rfl)
    (scalar .bool _ rfl) (scalar .char _ rfl) (scalar .text _ rfl) (scalar .path _ rfl)
    (scalar .duration _ rfl) option list mapping record probe ?nil ?cons ?field shape
  case nil => exact fun f hf => absurd hf List.not_mem_nil
  case cons => exact fun f fields hf hfields => List.forall_mem_cons.2 ⟨hf, hfields⟩
  case field => exact fun name tag shape h => h

/-- What is missing where a value is not found: the entries of a mapping, and the text of a scalar or a
list, if this is looked up at all. -/
def Shape.Missing (store : Store) (key : Text) (isNamed : Bool) : Shape → Prop
  | .mapping _ => store.group key = []
  | .option _ | .record .. | .probe _ => False
  | _ => isNamed = true → store.get? key = none

/-- Where a value is read: its key, its path, and whether it is named. -/
structure Place where
  key : Text
  path : Text
  isNamed : Bool

/-- The place of a part. -/
def Place.step (p : Place) (s : PathStep) : Place :=
  ⟨s.key p.key, p.path ++ s.text, s.isNamed⟩

theorem Place.foldl_step (p : Place) (steps : List PathStep) :
    steps.foldl step p = ⟨steps.foldl PathStep.key p.key, p.path ++ steps.flatMap PathStep.text,
      (steps.getLast?.map PathStep.isNamed).getD p.isNamed⟩ := by
  induction steps generalizing p with
  | nil =>
    rw [List.flatMap_nil, List.append_nil]
    rfl
  | cons s steps ih =>
    rw [List.foldl_cons, ih, List.flatMap_cons, ← List.append_assoc, List.getLast?_cons]
    cases steps.getLast? <;> rfl

/-- What an error says of a part and of its place: it is not found, or it has parts but also a default.
Other errors name no path. -/
inductive Blames (store : Store) (place : Place) (part : Shape) : ConfigError → Prop where
  | missing (h : part.Missing store place.key place.isNamed) :
      Blames store place part (.propertyNotFound place.key place.path)
  | composite (h : part.isComposite = true) :
      Blames store place part (.compositeDefault place.key place.path)
  | other {e : ConfigError} (h : ∀ key path, e ≠ .propertyNotFound key path)
      (h' : ∀ key path, e ≠ .compositeDefault key path) : Blames store place part e

/-- An error is about a part of a value that is read at a place. -/
def Locates (store : Store) (place : Place) (shape : Shape) (e : ConfigError) : Prop :=
  ∃ steps part, shape.Descends steps part ∧ Blames store (steps.foldl Place.step place) part e

section

variable {store : Store} {place : Place} {shape item : Shape} {e : ConfigError}

theorem Blames.locates (h : Blames store place shape e) : Locates store place shape e :=
  ⟨[], shape, .here shape, h⟩

theorem Locates.option (h : Locates store place item e) : Locates store place (.option item) e := by
  obtain ⟨steps, part, hd, hb⟩ := h
  exact ⟨steps, part, hd.option, hb⟩

theorem Locates.element {i : Nat} (h : Locates store (place.step (.element i)) item e) :
    Locates store place (.list item) e := by
  obtain ⟨steps, part, hd, hb⟩ := h
  exact ⟨.element i :: steps, part, hd.element i, hb⟩

theorem Locates.entry {name : Text} (h : Locates store (place.step (.entry name)) item e) :
    Locates store place (.mapping item) e := by
  obtain ⟨steps, part, hd, hb⟩ := h
  exact ⟨.entry name :: steps, part, hd.entry name, hb⟩

theorem Locates.field {name : Text} {fields : List (Field Shape)} {f : Field Shape} {tag : Tag}
    (hf : f ∈ fields) (htag : Tag.parse f.tag = .ok tag)
    (h : Locates store (place.step (.field f.name tag)) f.shape e) :
    Locates store place (.record name fields) e := by
  obtain ⟨steps, part, hd, hb⟩ := h
  exact ⟨.field f.name tag :: steps, part, .field hf htag hd, hb⟩

end

/-! ## Where nothing is stored -/

theorem Key.element_eq_append (k : Text) (i : Nat) : element k i = k ++ element [] i :=
  List.append_assoc ..

theorem Key.normalize_append {k : Text} (h : normalize k ≠ []) (s : Text) :
    normalize (k ++ s) = normalize k ++ s := by
  have hdollar : ∀ {b : Char} (t : Text), b ≠ '.' → normalize ('$' :: b :: t) = '$' :: b :: t := by
    intro b t hb
    unfold normalize
    split
    · rename_i ht
      cases ht
    · rename_i ht
      cases ht
      exact absurd rfl hb
    · rfl
  obtain _ | ⟨a, k⟩ := k
  · exact absurd rfl h
  by_cases ha : a = '$'
  · subst ha
    obtain _ | ⟨b, k⟩ := k
    · exact absurd rfl h
    by_cases hb : b = '.'
    · rw [hb]
      rfl
    · rw [List.cons_append, List.cons_append, hdollar _ hb, hdollar _ hb]
      rfl
  · have hk : Unmarked (a :: k) := ⟨a, k, rfl, ha⟩
    have hks : Unmarked (a :: k ++ s) := ⟨a, k ++ s, rfl, ha⟩
    rw [hk.normalize, hks.normalize]

theorem Key.scope_normalize_append {k rest : Text} (h : ∀ c ∈ rest.head?, IsMark c) :
    Scope (normalize k) (normalize (k ++ rest)) := by
  by_cases hk : normalize k = []
  · exact .inl hk
  · rw [normalize_append hk]
    exact .inr (covers_append h)

/-- The key of a part stands below that of the whole, or it is the same. -/
theorem PathStep.scope_key (k : Text) (s : PathStep) :
    Scope (Key.normalize k) (Key.normalize (s.key k)) := by
  have hjoin : ∀ n, Scope (Key.normalize k) (Key.normalize (Key.join k n)) := by
    intro n
    by_cases hk : k = []
    · exact .inl (by rw [hk]; rfl)
    by_cases hn : n = []
    · rw [hn, Key.join_nil]
      exact .inr (.refl _)
    · rw [Key.join_eq hk hn]
      exact Key.scope_normalize_append fun c hc => .inl (Option.some.inj hc).symm
  cases s with
  | field name tag => exact hjoin _
  | element i =>
    rw [PathStep.key, Key.element_eq_append]
    exact Key.scope_normalize_append fun c hc => .inr (Option.some.inj hc).symm
  | entry name => exact hjoin _

namespace Store

variable {s : Store} {k : Text}

theorem has_step (h : s.has k = false) (step : PathStep) : s.has (step.key k) = false := by
  refine Bool.eq_false_iff.2 fun hp => ?_
  obtain ⟨q, hq, hscope⟩ := has_iff.1 hp
  exact Bool.eq_false_iff.1 h (has_iff.2 ⟨q, hq, (step.scope_key k).trans hscope⟩)

theorem get?_eq_none_of_not_has (h : s.has k = false) : s.get? k = none := by
  refine Option.eq_none_iff_forall_ne_some.2 fun t ht => ?_
  exact Bool.eq_false_iff.1 h (has_iff.2 ⟨_, mem_keys_iff.2 ⟨t, ht⟩, .inr (.refl _)⟩)

theorem group_eq_nil_of_not_has (h : s.has k = false) : s.group k = [] := by
  refine List.eq_nil_iff_forall_not_mem.2 fun n hn => ?_
  obtain ⟨rest, -, hq⟩ := mem_group_iff.1 hn
  refine Bool.eq_false_iff.1 h (has_iff.2 ⟨_, hq, ?_⟩)
  by_cases hk : Key.normalize k = []
  · exact .inl hk
  · rw [if_neg hk]
    exact .inr (.inr ⟨rest, .inl rfl⟩)

/-- Where a text is stored there are no elements. -/
theorem not_has_element (hs : s.Leafy) {t : Text} (ht : s.get? k = some t) (i : Nat) :
    s.has (Key.element k i) = false := by
  have hk : Key.normalize k ∈ s.keys := mem_keys_iff.2 ⟨t, ht⟩
  have hne := hs.ne_nil _ hk
  refine Bool.eq_false_iff.2 fun hp => ?_
  obtain ⟨q, hq, hscope⟩ := has_iff.1 hp
  rw [Key.element_eq_append, Key.normalize_append hne, ← Key.element_eq_append] at hscope
  have hcovers := hscope.covers (Key.element_ne_nil (Key.normalize k) i)
  refine (leafy_iff.1 hs).2 _ hk _ hq ?_
  rcases hcovers with rfl | hbelow
  · exact Key.below_element _ i
  · exact (Key.below_element _ i).trans hbelow

end Store

namespace Cursor

variable {c : Cursor} {S : Store} {e : ConfigError} {shape item : Shape}

/-- The place of a cursor. -/
def place (c : Cursor) : Place :=
  ⟨c.key, c.path, c.lookup⟩

theorem place_field (c : Cursor) (name : Text) (tag : Tag) :
    (c.field name tag).place = c.place.step (.field name tag) := by
  have hkey : (c.field name tag).key = Key.join c.key (Key.normalize tag.key) := by
    by_cases hk : Key.normalize tag.key = []
    · simp [field, ofTag, hk, Key.join_nil]
    · simp [field, ofTag, hk]
  rw [place, hkey]
  rfl

theorem place_element (c : Cursor) (i : Nat) : (c.element i).place = c.place.step (.element i) :=
  congrArg (Place.mk _ · _) (Key.element_eq_append c.path i)

theorem place_entry (c : Cursor) (name : Text) : (c.entry name).place = c.place.step (.entry name) := rfl

/-- The cursor stands in a store, or in one of its own at a key where that store has nothing. -/
def Within (c : Cursor) (S : Store) : Prop :=
  c.store = S ∨ S.has c.key = false

theorem Within.step (h : c.Within S) {d : Cursor} {s : PathStep} (hstore : d.store = c.store)
    (hplace : d.place = c.place.step s) : d.Within S := by
  refine h.imp hstore.trans fun h => ?_
  rw [show d.key = s.key c.key from congrArg Place.key hplace]
  exact Store.has_step h s

theorem Within.get? (h : c.Within S) (hget : c.store.get? c.key = none) : S.get? c.key = none :=
  h.elim (fun h => h ▸ hget) Store.get?_eq_none_of_not_has

theorem Within.group (h : c.Within S) (hgroup : c.entries = []) : S.group c.key = [] :=
  h.elim (fun h => h ▸ hgroup) Store.group_eq_nil_of_not_has

/-! ## Scalars -/

theorem blames_of_parse {tag : Text} (h : Tag.parse tag = .error e) : Blames S c.place shape e := by
  rcases Reference.parse_eq_error h with rfl | rfl <;>
  exact .other (fun _ _ h => by cases h) fun _ _ h => by cases h

/-- No reference is reported as a property. -/
theorem blames_of_value (h : c.value = .error e) : Blames S c.place shape e := by
  obtain ⟨c', -, hfault⟩ := Reference.Call.exists_fault (c := .reference [] _) h
  cases hfault with
  | unclosed | cycle | notFound =>
    exact .other (fun _ _ h => by cases h) fun _ _ h => by cases h

theorem get?_of_value (hS : S.Leafy) (hc : c.Within S) (h : c.value = .ok none)
    (hlookup : c.lookup = true) : S.get? c.key = none := by
  have hcontent := (Reference.tagValue_eq_none_iff.1 h).2
  simp only [hlookup, if_true, Tag.content?] at hcontent
  split at hcontent
  · rename_i hkey
    rw [hkey]
    exact Reference.get?_eq_none_of_nil hS
  · exact hc.get? (Option.or_eq_none_iff.1 hcontent).1

/-- A scalar or a list that has no text is not found. -/
theorem blames_of_require (hS : S.Leafy) (hc : c.Within S)
    (hshape : ∀ key isNamed, (isNamed = true → S.get? key = none) → shape.Missing S key isNamed)
    (h : c.require = .error e) : Blames S c.place shape e := by
  rw [require] at h
  cases hvalue : c.value with
  | error e' =>
    rw [hvalue] at h
    cases h
    exact blames_of_value hvalue
  | ok text =>
    rw [hvalue] at h
    obtain _ | text := text <;> cases h
    exact .missing (hshape _ _ (get?_of_value hS hc hvalue))

theorem locates_conversion (hS : S.Leafy) {conv : Conversion} (hconv : shape.conversion? = some conv)
    (hc : c.Within S) (h : c.bind shape = .error e) : Locates S c.place shape e := by
  rw [bind_conversion hconv] at h
  cases hr : c.require with
  | error e' =>
    rw [hr] at h
    cases h
    refine (blames_of_require hS hc (fun key isNamed hget => ?_) hr).locates
    cases shape with
    | int | float | bool | char | text | path | duration => exact hget
    | option | list | mapping | record | probe => cases hconv
  | ok t =>
    rw [hr, ok_bind, Conversion.apply] at h
    split at h <;> cases h
    exact (Blames.other (fun _ _ h => by cases h) fun _ _ h => by cases h).locates

/-! ## Parts -/

theorem blames_checkDefault (h : c.checkDefault shape = .error e) : Blames S c.place shape e := by
  unfold checkDefault at h
  split at h
  · rename_i hcheck
    cases h
    exact .composite (Bool.and_eq_true_iff.1 hcheck).1
  · cases h

/-- The places of the pieces of a text are those of elements, and they have no defaults. -/
theorem exists_of_mem_scattered {pieces : List Text} {d : Cursor} (h : d ∈ c.scattered pieces) :
    pieces ≠ [] ∧ ∃ i, d.place = (c.element i).place ∧ d.default? = none := by
  obtain ⟨i, hi, rfl⟩ := List.mem_map.1 h
  refine ⟨?_, i, rfl, rfl⟩
  rintro rfl
  exact absurd (List.mem_range.1 hi) (Nat.not_lt_zero i)

/-- A default of a list is empty, so that pieces come from a stored text. -/
theorem get?_of_pieces {text : Text} (hcheck : c.checkDefault (.list item) = .ok ())
    (ht : c.require = .ok text) (hp : commaPieces text ≠ []) :
    ∃ raw, c.store.get? c.key = some raw := by
  have hdefault : ∀ d, c.default? = some d → d = [] := by
    intro d hd
    simpa [checkDefault, Shape.isComposite, hd] using hcheck
  have hvalue : c.value = .ok (some text) := by
    rw [require] at ht
    cases hvalue : c.value with
    | error e => rw [hvalue] at ht; cases ht
    | ok t =>
      rw [hvalue] at ht
      obtain _ | t := t <;> cases ht
      rfl
  obtain ⟨-, raw, hraw, hexpand⟩ := Reference.tagValue_eq_some_iff.1 hvalue
  rcases Reference.content?_eq_some hraw with ⟨hkey, hget⟩ | hd
  · by_cases hlookup : c.lookup = true
    · exact ⟨raw, by simpa only [hlookup, if_true] using hget⟩
    · exact absurd (if_neg hlookup) hkey
  · obtain rfl := hdefault raw hd
    rw [Reference.expand_eq] at hexpand
    cases hexpand
    exact absurd (by rfl) hp

/-- An optional value is absent, or it is read as its content. -/
theorem bind_option_cases (c : Cursor) (item : Shape) :
    c.bind (.option item) = .ok .none ∨ c.bind (.option item) = .some <$> c.bind item := by
  simp only [Cursor.bind]
  generalize (if item.isComposite then _ else _ : Bool) = present
  split
  · exact .inl rfl
  · exact .inr rfl

section

variable
  (ih : ∀ {c : Cursor}, c.Within S → c.checkDefault item = .ok () → c.bind item = .error e →
    Locates S c.place item e)

include ih

theorem locates_read (hc : c.Within S) (h : c.read item = .error e) : Locates S c.place item e := by
  rw [read] at h
  cases hcheck : c.checkDefault item with
  | error e' =>
    rw [hcheck] at h
    cases h
    exact (blames_checkDefault hcheck).locates
  | ok =>
    rw [hcheck] at h
    exact ih hc hcheck h

theorem locates_list (hS : S.Leafy) (hc : c.Within S) (hcheck : c.checkDefault (.list item) = .ok ())
    (h : c.bind (.list item) = .error e) : Locates S c.place (.list item) e := by
  have hread : ∀ {d : Cursor} {i : Nat}, d.Within S → d.place = (c.element i).place →
      d.read item = .error e → Locates S c.place (.list item) e := by
    intro d i hd hplace hr
    have := locates_read ih hd hr
    rw [hplace, place_element] at this
    exact this.element
  by_cases hfirst : (c.lookup && c.store.has (Key.element c.key 0)) = true
  · obtain ⟨n, -, -, -, hrun⟩ := c.readElements_run item 0
    rw [bind_list_eq_readElements hfirst, hrun] at h
    obtain ⟨i, -, hr⟩ := mapM_eq_error (map_eq_error h)
    exact hread (hc.step (d := c.element _) rfl (c.place_element _)) rfl hr
  · rw [bind_list_of_not_first hfirst] at h
    cases ht : c.require with
    | error e' =>
      rw [ht] at h
      cases h
      have hmissing : ∀ key isNamed, (isNamed = true → S.get? key = none) →
          (Shape.list item).Missing S key isNamed := fun _ _ hget => hget
      exact (blames_of_require hS hc hmissing ht).locates
    | ok text =>
      rw [ht, ok_bind] at h
      obtain ⟨d, hd, hr⟩ := mapM_eq_error (map_eq_error h)
      obtain ⟨hp, i, hplace, -⟩ := exists_of_mem_scattered hd
      have habsent : S.has (Key.element c.key i) = false := by
        rcases hc with rfl | hc
        · obtain ⟨raw, hraw⟩ := get?_of_pieces hcheck ht hp
          exact Store.not_has_element hS hraw i
        · exact Store.has_step hc (.element i)
      refine hread (.inr ?_) hplace hr
      rw [show d.key = Key.element c.key i from congrArg Place.key hplace]
      exact habsent

theorem locates_mapping (hc : c.Within S) (h : c.bind (.mapping item) = .error e) :
    Locates S c.place (.mapping item) e := by
  rw [bind_mapping_eq] at h
  split at h
  · rename_i hempty
    cases h
    have hnil : c.entries = [] := List.isEmpty_iff.1 (Bool.and_eq_true_iff.1 hempty).1
    have hmissing : Shape.Missing S c.key c.lookup (.mapping item) := hc.group hnil
    exact (Blames.missing hmissing).locates
  · cases hentries : c.entries.mapM fun name => (name, ·) <$> (c.entry name).read item with
    | ok entries =>
      rw [hentries] at h
      cases h
    | error e' =>
      rw [hentries] at h
      cases h
      obtain ⟨name, -, hr⟩ := mapM_eq_error hentries
      have hd : (c.entry name).Within S := hc.step rfl (c.place_entry name)
      exact (locates_read ih hd (map_eq_error hr)).entry

end

theorem locates_record {name : Text} {fields : List (Field Shape)}
    (ih : ∀ f ∈ fields, ∀ {c : Cursor}, c.Within S → c.checkDefault f.shape = .ok () →
      c.bind f.shape = .error e → Locates S c.place f.shape e)
    (hc : c.Within S) (h : c.bind (.record name fields) = .error e) :
    Locates S c.place (.record name fields) e := by
  rw [Cursor.bind, bindFields_eq_mapM] at h
  obtain ⟨f, hf, hr⟩ := mapM_eq_error (map_eq_error h)
  have hr := map_eq_error hr
  rw [bindField] at hr
  cases htag : Tag.parse f.tag with
  | error e' =>
    rw [htag] at hr
    cases hr
    exact (blames_of_parse htag).locates
  | ok tag =>
    rw [htag, ok_bind] at hr
    have hplace := c.place_field f.name tag
    have hd : (c.field f.name tag).Within S := hc.step rfl hplace
    have := locates_read (ih f hf) hd hr
    rw [hplace] at this
    exact this.field hf htag

/-- The error with which the value at a cursor cannot be read is about a part of this value. -/
theorem locates_bind (hS : S.Leafy) (shape : Shape) {c : Cursor} (hc : c.Within S)
    (hcheck : c.checkDefault shape = .ok ()) (h : c.bind shape = .error e) :
    Locates S c.place shape e := by
  induction shape using Shape.induct generalizing c with
  | scalar shape conv hconv => exact locates_conversion hS hconv hc h
  | option item ih =>
    rcases c.bind_option_cases item with hnone | hsome
    · rw [hnone] at h
      cases h
    · exact (ih hc hcheck (map_eq_error (hsome ▸ h))).option
  | list item ih => exact locates_list ih hS hc hcheck h
  | mapping item ih => exact locates_mapping ih hc h
  | record name fields ih => exact locates_record ih hc h
  | probe composite =>
    rw [Cursor.bind] at h
    cases h

end Cursor

/-- The errors of binding locate what is missing or refused. From the value there are steps to one of its
parts. The path of the error is the name of the value followed by these steps, and its key is the key
that binding starts at, continued by the keys, numbers and names of the same steps. A default is refused
where this part has parts itself. Where it is not found, no text is stored for the key, unless its tag
has no name, or nothing is below the key of a mapping; and this holds in the store that was bound, also
of the pieces of a text. -/
theorem Store.bind_error_located {store : Store} (hs : store.Reachable) (start : Start)
    (shape : Shape) :
    (∀ key path, store.bind start shape = .error (.propertyNotFound key path) →
      ∃ tag steps part, Tag.parse start.text = .ok tag ∧ shape.Descends steps part ∧
        path = shape.rootName ++ steps.flatMap PathStep.text ∧
        key = steps.foldl PathStep.key (Key.normalize tag.key) ∧
        part.Missing store key
          ((steps.getLast?.map PathStep.isNamed).getD !(Key.normalize tag.key).isEmpty)) ∧
    ∀ key path, store.bind start shape = .error (.compositeDefault key path) →
      ∃ tag steps part, Tag.parse start.text = .ok tag ∧ shape.Descends steps part ∧
        path = shape.rootName ++ steps.flatMap PathStep.text ∧
        key = steps.foldl PathStep.key (Key.normalize tag.key) ∧ part.isComposite = true := by
  have hlocates : ∀ e, store.bind start shape = .error e →
      (∃ tag, Tag.parse start.text = .ok tag ∧
        Locates store (Cursor.ofTag store tag shape.rootName).place shape e) ∨
      e = .unclosedReference ∨ e = .invalidTag start.text := by
    intro e h
    rw [bind, bindAs] at h
    cases htag : Tag.parse start.text with
    | error e' =>
      rw [htag] at h
      cases h
      exact .inr (Reference.parse_eq_error htag)
    | ok tag =>
      rw [htag, ok_bind] at h
      exact .inl ⟨tag, rfl, Cursor.locates_read (Cursor.locates_bind hs.leafy shape) (.inl rfl) h⟩
  refine ⟨fun key path h => ?_, fun key path h => ?_⟩
  · rcases hlocates _ h with ⟨tag, htag, steps, part, hd, hb⟩ | h | h
    · rw [Place.foldl_step] at hb
      cases hb with
      | missing hmissing => exact ⟨tag, steps, part, htag, hd, rfl, rfl, hmissing⟩
      | other hnot _ => exact absurd rfl (hnot key path)
    · cases h
    · cases h
  · rcases hlocates _ h with ⟨tag, htag, steps, part, hd, hb⟩ | h | h
    · rw [Place.foldl_step] at hb
      cases hb with
      | composite hcomposite => exact ⟨tag, steps, part, htag, hd, rfl, rfl, hcomposite⟩
      | other _ hnot => exact absurd rfl (hnot key path)
    · cases h
    · cases h

/-- Some texts of an entry. -/
def Store.incomplete : Store :=
  empty.put ['e', '.', 'q'] ['x']

theorem Store.bind_error_located_entry :
    incomplete.Reachable ∧
      incomplete.bind .root (.mapping (.record ['R'] [⟨['m'], ['$', '{', 'z', '}'], .text⟩])) =
        .error (.propertyNotFound ['e', '.', 'z'] ['R', '.', 'e', '.', 'm']) ∧
      ∃ tag steps part, Tag.parse ['$', '{', '}'] = .ok tag ∧
        (Shape.mapping (.record ['R'] [⟨['m'], ['$', '{', 'z', '}'], .text⟩])).Descends steps part ∧
        ['R', '.', 'e', '.', 'm'] = ['R'] ++ steps.flatMap PathStep.text ∧
        ['e', '.', 'z'] = steps.foldl PathStep.key (Key.normalize tag.key) ∧
        part.Missing incomplete ['e', '.', 'z']
          ((steps.getLast?.map PathStep.isNamed).getD !(Key.normalize tag.key).isEmpty) := by
  have hs : incomplete.Reachable := ⟨[.set ['e', '.', 'q'] (.text ['x'])], rfl⟩
  have h : incomplete.bind .root (.mapping (.record ['R'] [⟨['m'], ['$', '{', 'z', '}'], .text⟩])) =
      .error (.propertyNotFound ['e', '.', 'z'] ['R', '.', 'e', '.', 'm']) := by
    have hroot : (⟨incomplete, [], none, false, ['R']⟩ : Cursor).read
        (.mapping (.record ['R'] [⟨['m'], ['$', '{', 'z', '}'], .text⟩])) =
          .error (.propertyNotFound ['e', '.', 'z'] ['R', '.', 'e', '.', 'm']) := by
      simp only [Cursor.read, Cursor.bind, Option.isNone_none, Bool.and_true]
      cbv
    exact hroot
  exact ⟨hs, h, (bind_error_located hs _ _).1 _ _ h⟩

end ConfigGraph
