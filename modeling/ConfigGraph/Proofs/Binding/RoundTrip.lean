import ConfigGraph.Binding.Bind
import ConfigGraph.Proofs.Binding.Reads
import ConfigGraph.Proofs.Binding.Tree

/-!
# Binding undoes writing

A cursor at the tree of a value of a regular shape reads that value (`Cursor.Reads.bind`), by induction
on the value: scalars through their texts, the parts of a list, a mapping or a record through the
elements and entries of the cursor. So a value whose tree was set where nothing was is bound as it was
(`Store.bind_set`).
-/

namespace ConfigGraph

open Number (IntType)

/-! ## Scalars -/

theorem trim_writeInt (n : Int) : Text.trim (Number.writeInt n) = Number.writeInt n := by
  refine Text.trim_eq_self fun c hc => ?_
  rcases Number.isDigit_of_mem_writeInt hc with rfl | hd
  · decide
  · exact Text.isBlank_of_isDigit hd

theorem escape_writeInt (n : Int) : Reference.escape (Number.writeInt n) = Number.writeInt n :=
  Reference.escape_eq_self fun hm => by
    rcases Number.isDigit_of_mem_writeInt hm with h | h <;> revert h <;> decide

theorem readBool?_boolText (b : Bool) : readBool? (Value.boolText b) = some b := by
  cases b <;> decide

theorem mapM_eq_ok {α β ε : Type} {f : α → Except ε β} {l : List α} {ys : List β}
    (h : l.map f = ys.map .ok) : l.mapM f = .ok ys := by
  induction l generalizing ys with
  | nil =>
    rw [List.map_eq_nil_iff.1 h.symm]
    rfl
  | cons a l ih =>
    cases ys with
    | nil => cases h
    | cons y ys =>
      obtain ⟨ha, hl⟩ := List.cons.inj h
      rw [List.mapM_cons, ha, ih hl]
      rfl

theorem length_of_mapM {α β ε : Type} {f : α → Except ε β} {l : List α} {ys : List β}
    (h : l.mapM f = .ok ys) : ys.length = l.length := by
  induction l generalizing ys with
  | nil => cases h; rfl
  | cons a l ih =>
    rw [List.mapM_cons] at h
    cases ha : f a with
    | error e => rw [ha] at h; cases h
    | ok y =>
      cases hl : l.mapM f with
      | error e => rw [ha, hl] at h; cases h
      | ok zs =>
        rw [ha, hl] at h
        cases h
        exact congrArg (· + 1) (ih hl)

theorem mapM_eq_error {α β ε : Type} {f : α → Except ε β} {l : List α} {e : ε}
    (h : l.mapM f = .error e) : ∃ a ∈ l, f a = .error e := by
  induction l with
  | nil => cases h
  | cons a l ih =>
    rw [List.mapM_cons] at h
    cases ha : f a with
    | error e' =>
      rw [ha] at h
      cases h
      exact ⟨a, List.mem_cons_self, ha⟩
    | ok y =>
      cases hl : l.mapM f with
      | error e' =>
        rw [ha, hl] at h
        cases h
        obtain ⟨b, hb, hf⟩ := ih hl
        exact ⟨b, List.mem_cons_of_mem a hb, hf⟩
      | ok ys =>
        rw [ha, hl] at h
        cases h

theorem map_eq_error {α β ε : Type} {f : α → β} {r : Except ε α} {e : ε}
    (h : f <$> r = .error e) : r = .error e := by
  cases r with
  | error e' => cases h; rfl
  | ok a => cases h

theorem mapM_eq_of_map_eq {α β γ ε : Type} {f : α → Except ε γ} {g : β → Except ε γ} {l : List α}
    {l' : List β} (h : l.map f = l'.map g) : l.mapM f = l'.mapM g := by
  have hf : (l.map f).mapM id = l.mapM f := List.mapM_map
  have hg : (l'.map g).mapM id = l'.mapM g := List.mapM_map
  rw [← hf, h, hg]

theorem mapError_map {α β ε ε' : Type} (f : α → β) (g : ε → ε') (r : Except ε α) :
    (f <$> r).mapError g = f <$> r.mapError g := by
  cases r <;> rfl

theorem mapError_bind {α β ε ε' : Type} (r : Except ε α) (f : α → Except ε β) (g : ε → ε') :
    (r >>= f).mapError g = r.mapError g >>= fun a => (f a).mapError g := by
  cases r <;> rfl

theorem mapError_mapM {α β ε ε' : Type} (l : List α) (f : α → Except ε β) (g : ε → ε') :
    (l.mapM f).mapError g = l.mapM fun a => (f a).mapError g := by
  induction l with
  | nil => rfl
  | cons a l ih =>
    simp only [List.mapM_cons, mapError_bind, ih]
    rfl

namespace Cursor

variable {c : Cursor}

/-- Reads a value as `bind` does, after its default was checked. -/
def read (c : Cursor) (shape : Shape) : Except ConfigError Bound := do
  c.checkDefault shape
  c.bind shape

/-- An element has no default. -/
theorem read_element (c : Cursor) (i : Nat) (shape : Shape) :
    (c.element i).read shape = (c.element i).bind shape := by
  have hcheck : (c.element i).checkDefault shape = .ok () := checkDefault_of_none rfl shape
  rw [read, hcheck]
  rfl

/-- Reads a field of a record. -/
def bindField (c : Cursor) (f : Field Shape) : Except ConfigError Bound := do
  (c.field f.name (← Tag.parse f.tag)).read f.shape

/-- The fields of a record are read one after the other. -/
theorem bindFields_eq_mapM (c : Cursor) (fields : List (Field Shape)) :
    c.bindFields fields = fields.mapM fun f => (f.name, ·) <$> c.bindField f := by
  induction fields with
  | nil => rfl
  | cons f fields ih =>
    obtain ⟨name, tag, shape⟩ := f
    rw [bindFields, List.mapM_cons, ih, bindField]
    cases Tag.parse tag with
    | error e => rfl
    | ok tag =>
      simp only [ok_bind, read]
      cases (c.field name tag).checkDefault shape with
      | error e => rfl
      | ok => cases (c.field name tag).bind shape <;> rfl

/-- The entries of a mapping are read one after the other. -/
theorem bind_mapping_eq (c : Cursor) (item : Shape) : c.bind (.mapping item) =
    if c.entries.isEmpty && c.default?.isNone then .error (.propertyNotFound c.key c.path)
    else do
      let entries ← c.entries.mapM fun name => (name, ·) <$> (c.entry name).read item
      return .mapping (Entries.ofList entries) := by
  have hread : ∀ name, (do
      (c.entry name).checkDefault item
      return (name, ← (c.entry name).bind item)) = (name, ·) <$> (c.entry name).read item := by
    intro name
    rw [read]
    cases (c.entry name).checkDefault item with
    | error e => rfl
    | ok => cases (c.entry name).bind item <;> rfl
  rw [Cursor.bind]
  simp only [hread]
  rfl

/-- A field that is read by the tag of its name is the entry of that name. -/
theorem field_eq_entry {f : Field Shape} (hf : f.Plain) :
    c.field f.name ⟨f.name, none⟩ = c.entry f.name := by
  simp only [field, ofTag, entry, child, hf.verbatim.unmarked.normalize,
    List.isEmpty_eq_false_iff.2 hf.verbatim.1, Bool.not_false, if_true]

theorem bindFields_eq {fields : List (Field Shape)} {xs : List (Text × Bound)}
    (hp : ∀ f ∈ fields, f.Plain) (hn : xs.map (·.1) = fields.map Field.name)
    (h : ∀ e ∈ fields.zip xs, (c.entry e.1.name).bind e.1.shape = .ok e.2.2) :
    c.bindFields fields = .ok xs := by
  induction fields generalizing xs with
  | nil =>
    rw [List.map_eq_nil_iff.1 hn]
    rfl
  | cons f fields ih =>
    cases xs with
    | nil => cases hn
    | cons x xs =>
      obtain ⟨hx, hn⟩ := List.cons.inj hn
      have hf := hp f List.mem_cons_self
      have hrest := ih (fun g hg => hp g (List.mem_cons_of_mem _ hg)) hn
        fun e he => h e (List.mem_cons_of_mem _ he)
      have hparse : Tag.parse f.tag = .ok ⟨f.name, none⟩ := hf.tag ▸ hf.verbatim.referable.parse_key
      have hcheck : (c.entry f.name).checkDefault f.shape = .ok () := checkDefault_of_none rfl _
      have hbind := h (f, x) List.mem_cons_self
      rw [← field_eq_entry hf] at hcheck hbind
      obtain ⟨name, tag, shape⟩ := f
      obtain ⟨n, y⟩ := x
      cases hx
      rw [bindFields, hparse]
      simp only [ok_bind, hcheck, hbind, hrest]
      rfl

/-- The elements of a list of values are read one by one. -/
theorem Reads.bind_elements {xs : List Bound} {item : Shape} (h : c.Reads (Bound.list xs).tree)
    (hl : ∀ x ∈ xs, x.HasLeaf) (ih : ∀ x ∈ xs, ∀ c : Cursor, c.Reads x.tree → c.bind item = .ok x) :
    (c.elements.mapM fun e => do e.checkDefault item; e.bind item) = .ok xs := by
  rw [Bound.tree, Bound.treeItems_eq] at h
  have hl' : ∀ v ∈ xs.map Bound.tree, ∃ p t, v.HasLeaf p t := by
    intro v hv
    obtain ⟨x, hx, rfl⟩ := List.mem_map.1 hv
    exact hl x hx
  refine mapM_eq_ok ?_
  rw [h.elements hl', List.map_map, List.length_map]
  refine List.ext_getElem (by simp) fun i hi _ => ?_
  have hi : i < xs.length := by simpa using hi
  have hreads : (c.element i).Reads xs[i].tree :=
    h.element (by rw [List.getElem?_map, List.getElem?_eq_getElem hi]; rfl)
  have hcheck : (c.element i).checkDefault item = .ok () := checkDefault_of_none rfl _
  simp only [List.getElem_map, List.getElem_range, Function.comp_apply, hcheck, ok_bind,
    ih _ (List.getElem_mem hi) _ hreads]

/-- The names below the key of a mapping are its names. -/
theorem Reads.mem_entries_mapping {es : List (Text × Bound)} (h : c.Reads (Bound.mapping es).tree)
    (hp : (Bound.mapping es).tree.Plain) (hl : ∀ e ∈ es, e.2.HasLeaf)
    (hseq : ∀ e ∈ es, ∀ vs, e.2.tree ≠ .seq vs) (n : Text) :
    n ∈ c.entries ↔ ∃ x, (n, x) ∈ es := by
  have hvalue : ∀ e ∈ Bound.treeEntries es, ∃ x, (e.1, x) ∈ es ∧ x.tree = e.2 := by
    intro e he
    obtain ⟨x, hx, -, hv⟩ := Bound.mem_treeEntries.1 he
    exact ⟨x, hx, hv⟩
  rw [Bound.tree] at h hp
  rw [h.mem_entries hp]
  · constructor
    · rintro ⟨v, hv⟩
      exact (hvalue _ hv).imp fun _ => And.left
    · rintro ⟨x, hx⟩
      exact ⟨x.tree, Bound.mem_treeEntries.2 ⟨x, hx, (hl _ hx).isNone, rfl⟩⟩
  · intro e he
    obtain ⟨x, hx, hv⟩ := hvalue e he
    exact hv ▸ hseq _ hx
  · intro e he
    obtain ⟨x, hx, hv⟩ := hvalue e he
    exact hv ▸ hl _ hx

/-- A mapping is made of its entries, which are read one by one, in any order. -/
theorem bind_mapping {es : List (Text × Bound)} {item : Shape} (hs : Entries.Sorted es)
    (hne : es ≠ []) (hnames : ∀ n, n ∈ c.entries ↔ ∃ x, (n, x) ∈ es)
    (h : ∀ n x, (n, x) ∈ es → (c.entry n).bind item = .ok x) :
    c.bind (.mapping item) = .ok (.mapping es) := by
  have hentries : (c.entries.mapM fun name => do
      (c.entry name).checkDefault item
      return (name, ← (c.entry name).bind item)) =
        .ok (c.entries.map fun n => (n, (Entries.find? es n).getD .none)) := by
    refine mapM_eq_ok ?_
    rw [List.map_map]
    refine List.map_congr_left fun n hn => ?_
    obtain ⟨x, hx⟩ := (hnames n).1 hn
    have hcheck : (c.entry n).checkDefault item = .ok () := checkDefault_of_none rfl _
    have hfind : Entries.find? es n = some x := (Entries.find?_eq_some_iff hs).2 hx
    simp only [Function.comp_apply, hcheck, ok_bind, h n x hx, hfind, Option.getD_some]
    rfl
  have hsome : c.entries.isEmpty = false := by
    obtain ⟨e, es, rfl⟩ := List.exists_cons_of_ne_nil hne
    exact List.isEmpty_eq_false_iff.2
      (List.ne_nil_of_mem ((hnames e.1).2 ⟨e.2, List.mem_cons_self⟩))
  have hes : Entries.ofList (c.entries.map fun n => (n, (Entries.find? es n).getD .none)) = es :=
    Entries.ofList_find? hs (Store.nodup_group _ _) hnames .none
  rw [Cursor.bind]
  simp only [hsome, Bool.false_and, Bool.false_eq_true, if_false, hentries, ok_bind, hes]
  rfl

theorem Reads.bind_mapping {es : List (Text × Bound)} {item : Shape}
    (h : c.Reads (Bound.mapping es).tree) (ho : (Bound.mapping es).tree.Ordered)
    (hp : (Bound.mapping es).tree.Plain) (hs : Entries.Sorted es) (hne : es ≠ [])
    (hl : ∀ e ∈ es, e.2.HasLeaf) (hseq : ∀ e ∈ es, ∀ vs, e.2.tree ≠ .seq vs)
    (ih : ∀ e ∈ es, ∀ c : Cursor, c.Reads e.2.tree → c.bind item = .ok e.2) :
    c.bind (.mapping item) = .ok (.mapping es) := by
  refine Cursor.bind_mapping hs hne (h.mem_entries_mapping hp hl hseq) fun n x hx => ?_
  have hm : (n, x.tree) ∈ Bound.treeEntries es :=
    Bound.mem_treeEntries.2 ⟨x, hx, (hl _ hx).isNone, rfl⟩
  have hreads : (c.entry n).Reads x.tree :=
    h.entry (Value.ordered_map_iff.1 ho).1 (Value.plain_map_iff.1 hp).1 hm
  exact ih _ hx _ hreads

/-- Where nothing is stored, an option is read as nothing. -/
theorem bind_absent (hd : c.default? = none) (hc : c.store.has c.key = false) (item : Shape) :
    c.bind (.option item) = .ok .none := by
  simp only [Cursor.bind, isPresent, hc, Bool.and_false, ite_self, Bool.not_false, hd,
    Option.isNone_none, Bool.and_self, if_true]

/-- The fields of a record are read one by one. -/
theorem Reads.bind_fields {xs : List (Text × Bound)} {fields : List (Field Shape)}
    (h : c.Reads (Bound.record xs).tree) (hp : (Bound.record xs).tree.Plain)
    (hd : (fields.map Field.name).Nodup) (hplain : ∀ f ∈ fields, f.Plain)
    (hn : xs.map (·.1) = fields.map Field.name) (hfits : ∀ e ∈ fields.zip xs, e.2.2.Fits e.1.shape)
    (ih : ∀ e ∈ fields.zip xs, ∀ c : Cursor, e.2.2.isNone = false → c.Reads e.2.2.tree →
      c.bind e.1.shape = .ok e.2.2) : c.bindFields fields = .ok xs := by
  have hnames := (Value.plain_map_iff.1 hp).1
  have hd : (xs.map (·.1)).Nodup := hn ▸ hd
  refine bindFields_eq hplain hn fun e he => ?_
  obtain ⟨f, n, y⟩ := e
  have hname : f.name = n := Bound.name_eq_of_mem_zip hn he
  subst hname
  have hf : f ∈ fields := (List.of_mem_zip he).1
  have hy : (f.name, y) ∈ xs := (List.of_mem_zip he).2
  cases hyn : y.isNone with
  | false =>
    have hm := (Bound.mem_tree_record hd).2 ⟨y, hy, hyn, rfl⟩
    exact ih _ he _ hyn (h.entry (Entries.sorted_ofList _) hnames hm)
  | true =>
    obtain rfl := Bound.isNone_iff.1 hyn
    have hother : ∀ e ∈ Entries.ofList (Bound.treeEntries xs), e.1 ≠ f.name := by
      rintro ⟨m, v⟩ hm rfl
      obtain ⟨z, hz, hzn, -⟩ := (Bound.mem_tree_record hd).1 hm
      rw [Entries.eq_of_nodup hd hz hy] at hzn
      cases hzn
    have habsent := h.not_has_entry hnames (hplain f hf).name hother
    have hfit : Bound.none.Fits f.shape := hfits _ he
    show (c.entry f.name).bind f.shape = .ok .none
    cases hshape : f.shape with
    | option item => exact bind_absent rfl habsent item
    | _ => rw [hshape] at hfit; cases hfit

/-- A cursor at the tree of a value reads the value. -/
theorem Reads.bind {x : Bound} {shape : Shape} (hx : x.Fits shape) (hT : shape.Regular)
    (hv : x.isNone = false) (h : c.Reads x.tree) : c.bind shape = .ok x := by
  induction hx generalizing c with
  | @int type n hn =>
    have hs : (Bound.int n).tree.scalar? = some (Reference.escape (Number.writeInt n)) := by
      rw [escape_writeInt]
      exact Value.scalar?_ofInt n
    have hr : type.read? (Text.trim (Number.writeInt n)) = some n := by
      rw [trim_writeInt]
      exact type.read?_writeInt hn
    rw [Cursor.bind, h.convert hs hr]
    rfl
  | bool b =>
    have hs : (Bound.bool b).tree.scalar? = some (Reference.escape (Value.boolText b)) := by
      cases b <;> rfl
    rw [Cursor.bind, h.convert hs (readBool?_boolText b)]
    rfl
  | char a =>
    have hs : (Bound.char a).tree.scalar? = some (Reference.escape [a]) := by
      rw [Reference.escape_singleton]
      rfl
    rw [Cursor.bind, h.convert hs (show readChar? [a] = some a from rfl)]
    rfl
  | text s =>
    rw [Cursor.bind, h.require rfl]
    rfl
  | none => cases hv
  | @some x item _ hl ih =>
    cases hT with
    | option hT =>
      have hreads : c.Reads x.tree := h
      simp only [Cursor.bind, hreads.has hl, hreads.isPresent hl, ite_self, Bool.not_true,
        Bool.false_and, Bool.false_eq_true, if_false, ih hT hl.isNone hreads]
      rfl
  | @list xs item hne _ hl ih =>
    cases hT with
    | list hT =>
      -- with a first element, the elements are read and not a text with commas
      have hfirst : c.store.has (Key.element c.key 0) = true := by
        obtain ⟨x, xs, rfl⟩ := List.exists_cons_of_ne_nil hne
        have hreads : (c.element 0).Reads x.tree := h.element rfl
        exact hreads.has (hl x List.mem_cons_self)
      have helements := h.bind_elements hl fun x hx c hc => ih x hx hT (hl x hx).isNone hc
      simp only [Cursor.bind, h.lookup, hfirst, Bool.and_self, if_true, pure_bind, helements]
      rfl
  | @mapping es item hne hs hn hfits hl ih =>
    have ho := (Bound.Fits.mapping hne hs hn hfits hl).tree_ordered hT
    have hp := (Bound.Fits.mapping hne hs hn hfits hl).tree_plain hT
    cases hT with
    | mapping hT hlist =>
      exact h.bind_mapping ho hp hs hne hl (fun e he => (hfits e he).tree_ne_seq hlist)
        fun e he c hc => ih e he hT (hl e he).isNone hc
  | @record xs name fields hn hfits ih =>
    have hp := (Bound.Fits.record hn hfits).tree_plain hT
    cases hT with
    | record hd hplain hT =>
      have hfields := h.bind_fields hp hd hplain hn hfits fun e he c hv hc =>
        ih e he (hT _ (List.of_mem_zip he).1) hv hc
      rw [Cursor.bind, hfields]
      rfl

end Cursor

/-! ## Values in a store -/

/-- At a key, a value is read where the key stands. -/
theorem Store.bindAs_key (s : Store) (root : Text) {key : Text} (hk : Key.Referable key)
    (shape : Shape) : s.bindAs root (.key key) shape = (Cursor.ofTag s ⟨key, none⟩ root).bind shape := by
  have hcheck : (Cursor.ofTag s ⟨key, none⟩ root).checkDefault shape = .ok () :=
    Cursor.checkDefault_of_none rfl _
  rw [Store.bindAs, Start.text, hk.parse_key]
  simp only [ok_bind, hcheck]

theorem Store.bind_key (s : Store) {key : Text} (hk : Key.Referable key) (shape : Shape) :
    s.bind (.key key) shape = (Cursor.ofTag s ⟨key, none⟩ shape.rootName).bind shape :=
  s.bindAs_key shape.rootName hk shape

/-- A value is bound as it was when its tree was set, at a key at and below which nothing was stored. -/
theorem Store.bind_set {s : Store} {key : Text} {shape : Shape} {x : Bound} (hT : shape.Regular)
    (hx : x.Fits shape) (hv : x ≠ .none) (hk : Key.Verbatim key)
    (hfree : ∀ q, Key.Covers key q → s.leaf? q = none) :
    (s.set key x.tree).bind (.key key) shape = .ok x := by
  have hkey : Key.normalize key = key := hk.unmarked.normalize
  have hholds : (s.set key x.tree).Holds key x.tree := by
    rw [Store.set, hkey]
    exact holds_write (hx.tree_ordered hT) (hx.tree_plain hT) s (fun h => absurd h hk.1)
      fun q hq => hfree q (hq.covers hk.1)
  have hreads : (Cursor.ofTag (s.set key x.tree) ⟨key, none⟩ shape.rootName).Reads x.tree := by
    refine ⟨?_, rfl, ?_, ?_⟩
    · simp [Cursor.ofTag, hkey, hk.1]
    · show Key.Unmarked (Key.normalize key)
      rw [hkey]
      exact hk.unmarked
    · show (s.set key x.tree).Holds (Key.normalize key) x.tree
      rw [hkey]
      exact hholds
  have hnone : x.isNone = false := Bool.eq_false_iff.2 fun h => hv (Bound.isNone_iff.1 h)
  rw [Store.bind, Store.bindAs, Start.text, hk.referable.parse_key]
  simp only [ok_bind, Cursor.checkDefault_of_none hreads.default, hreads.bind hx hT hnone]

/-- A record of a list of texts, an optional number and a mapping. -/
def appShape : Shape :=
  .record ['A'] [⟨['h'], ['$', '{', 'h', '}'], .list .text⟩,
    ⟨['p'], ['$', '{', 'p', '}'], .option (.int .u16)⟩,
    ⟨['t'], ['$', '{', 't', '}'], .mapping .bool⟩]

/-- Texts with an opener and without anything, no number, and one entry. -/
def app : Bound :=
  .record [(['h'], .list [.text ['$', '{'], .text []]), (['p'], .none),
    (['t'], .mapping [(['x', '$'], .bool true)])]

theorem Store.bind_set_app :
    (∀ q, Key.Covers ['a'] q → (empty.put ['a', '1'] ['v']).leaf? q = none) ∧
      ((empty.put ['a', '1'] ['v']).set ['a'] app.tree).bind (.key ['a']) appShape = .ok app := by
  have hname : ∀ c ∈ ['a', 'h', 'p', 't'], Key.IsName [c] ∧ Key.Verbatim [c] := by
    simp only [List.forall_mem_cons, List.not_mem_nil, false_implies, implies_true, and_true]
    simp [Key.IsName, Key.Verbatim, Text.isBlank]
  have hplain : ∀ c ∈ ['a', 'h', 'p', 't'], ∀ shape,
      Field.Plain ⟨[c], ['$', '{', c, '}'], shape⟩ :=
    fun c hc shape => ⟨(hname c hc).1, (hname c hc).2, rfl⟩
  have hT : appShape.Regular := by
    refine .record (by simp) (by simp [hplain]) ?_
    simp only [List.forall_mem_cons, List.not_mem_nil, false_implies, implies_true, and_true]
    exact ⟨.list .text, .option (.int .u16), .mapping .bool fun inner h => by cases h⟩
  have hleaf : ∀ {x : Bound} {t : Text}, x.tree.scalar? = some t → x.HasLeaf :=
    fun h => ⟨[], _, .scalar h⟩
  have hlist : Bound.Fits (.list [.text ['$', '{'], .text []]) (.list .text) :=
    .list (List.cons_ne_nil _ _)
      (List.forall_mem_cons.2 ⟨.text _, List.forall_mem_singleton.2 (.text _)⟩)
      (List.forall_mem_cons.2 ⟨hleaf rfl, List.forall_mem_singleton.2 (hleaf rfl)⟩)
  have hmapping : Bound.Fits (.mapping [(['x', '$'], .bool true)]) (.mapping .bool) :=
    .mapping (List.cons_ne_nil _ _) (List.pairwise_singleton _ _) (by simp [Key.IsName])
      (List.forall_mem_singleton.2 (.bool true)) (List.forall_mem_singleton.2 (hleaf rfl))
  have hx : app.Fits appShape := by
    refine .record rfl ?_
    simp only [List.zip_cons_cons, List.zip_nil_right, List.forall_mem_cons, List.not_mem_nil,
      false_implies, implies_true, and_true]
    exact ⟨hlist, .none _, hmapping⟩
  have hfree : ∀ q, Key.Covers ['a'] q → (empty.put ['a', '1'] ['v']).leaf? q = none := by
    intro q hq
    have hne : q ≠ ['a', '1'] := by
      rintro rfl
      simp [Key.Covers, Key.below_iff, Key.IsMark] at hq
    exact leaf?_empty_put (List.cons_ne_nil _ _) hne _
  exact ⟨hfree, bind_set hT hx (fun h => by cases h) (hname _ (by simp)).2 hfree⟩

end ConfigGraph
