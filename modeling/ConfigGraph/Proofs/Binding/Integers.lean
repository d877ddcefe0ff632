import ConfigGraph.Proofs.Binding.CommaList
import ConfigGraph.Proofs.Format.Integers
import ConfigGraph.Proofs.Store.Patch

/-!
# Integers are kept exactly

A whole number of 64 bits, with or without a sign, becomes the same tree on every way into a store, and
the text that is stored for it is its numeral. Each integer type reads this numeral as the number, or
refuses it (`Cursor.bind_writeInt`), so that no digit is lost between the source of a number and the
type that it is bound to (`Store.bind_set_integer`).
-/

namespace ConfigGraph

open Number (IntType writeInt)

/-- What is stored at the key of a cursor, without references in it, is what the cursor reads; a
default does not count then. -/
theorem Cursor.require_of_get? {c : Cursor} {raw : Text} (hl : c.lookup = true) (hk : c.key ≠ [])
    (hraw : c.store.get? c.key = some raw) (hn : Reference.find? raw = .ok none) :
    c.require = .ok (Reference.unescape raw) := by
  have hvalue : c.value = .ok (some (Reference.unescape raw)) := by
    rw [Cursor.value, hl, if_pos rfl]
    exact Reference.tagValue_of_none hk List.not_mem_nil hraw hn _
  rw [Cursor.require, hvalue]
  rfl

/-- Where the numeral of a number is stored, an integer type that has the number reads it, and any
other one refuses the numeral. -/
theorem Cursor.bind_writeInt {c : Cursor} {n : Int} (hl : c.lookup = true) (hk : c.key ≠ [])
    (hraw : c.store.get? c.key = some (writeInt n)) (type : IntType) :
    c.bind (.int type) = if type.holds n then .ok (.int n)
      else .error (.coerce c.key (writeInt n) type.name) := by
  have hescape := escape_writeInt n
  have hrequire : c.require = .ok (writeInt n) := by
    rw [require_of_get? hl hk hraw (hescape ▸ Reference.find?_escape _)]
    exact congrArg _ ((congrArg _ hescape.symm).trans (Reference.unescape_escape _))
  have hread : Bound.int <$> type.read? (Text.trim (writeInt n)) =
      if type.holds n then some (.int n) else none := by
    rw [trim_writeInt, type.read?_writeInt_eq]
    cases type.holds n <;> rfl
  rw [bind_conversion rfl, hrequire, ok_bind, Conversion.apply]
  simp only [hread]
  cases type.holds n <;> rfl

/-- A leaf of a tree that was set is what is stored under its key, whatever was stored before. -/
theorem Store.get?_set {v : Value} {p : List Segment} {t : Text} (s : Store) (key : Text)
    (hw : v.Ordered) (hp : v.Plain) (hl : v.HasLeaf p t)
    (hk : Key.Unmarked (Path.key (Key.normalize key) p)) :
    (s.set key v).get? (Path.key (Key.normalize key) p) = some t := by
  rw [Store.get?, hk.normalize, Store.set]
  exact (write_effect hw hp s _ _ t).2 (.inl ⟨hk.ne_nil, p, hl, rfl⟩)

namespace Store

/-- A whole number of 64 bits enters a store as the same tree, whether it is converted, serialized or
read from a JSON text; its leaf is its numeral, wherever it stands in a tree. Bound to an integer type
it is the number where the type has it, and else an error with the numeral. -/
theorem bind_set_integer {n : Int} (hlow : -(Nat.pow 2 63 : Nat) ≤ n)
    (hhigh : n < (Nat.pow 2 64 : Nat)) :
    (Serial.int n).toValue = .ok (.ofInt n) ∧
    (∀ depth rest, Json.EndsNumeral rest →
      ∃ j, Json.value? depth (writeInt n ++ rest) = some (j, rest) ∧ Value.ofJson j = .ofInt n) ∧
    (Value.ofInt n).HasLeaf [] (writeInt n) ∧
    ∀ (s : Store) (key : Text) {v : Value} {p : List Segment}, v.Ordered → v.Plain →
      v.HasLeaf p (writeInt n) → Key.Unmarked (Path.key (Key.normalize key) p) →
      (s.set key v).get? (Path.key (Key.normalize key) p) = some (writeInt n) ∧
      ∀ start tag, Tag.parse start.text = .ok tag →
        Key.normalize tag.key = Path.key (Key.normalize key) p →
        ∀ type, (s.set key v).bind start (.int type) = if type.holds n then .ok (.int n)
          else .error (.coerce (Path.key (Key.normalize key) p) (writeInt n) type.name) := by
  have hleast : IntType.i64.least = -9223372036854775808 := by decide
  have hgreatest : IntType.u64.greatest = 18446744073709551615 := by decide
  have hlow : IntType.i64.least ≤ n := hlow
  have hhigh : n ≤ IntType.u64.greatest := Int.le_sub_one_of_lt hhigh
  refine ⟨?_, fun depth rest hrest =>
      ⟨.integer n, Json.value?_writeInt hlow hhigh hrest depth, rfl⟩,
    .scalar (Value.scalar?_ofInt n), fun s key v p hw hp hl hk => ?_⟩
  · have hfits : (IntType.i64.holds n || IntType.u64.holds n) = true := by
      have hmiddle : IntType.u64.least = 0 := by decide
      have hupper : IntType.i64.greatest = 9223372036854775807 := by decide
      simp only [IntType.holds, Bool.or_eq_true, Bool.and_eq_true, decide_eq_true_eq]
      omega
    rw [Serial.toValue, Serial.toJson, if_pos hfits]
    rfl
  · have hget := get?_set s key hw hp hl hk
    refine ⟨hget, fun start tag htag hkey type => ?_⟩
    have hcursor : Cursor.ofTag (s.set key v) tag type.name.toList =
        ⟨s.set key v, Path.key (Key.normalize key) p, tag.default?, true, type.name.toList⟩ := by
      simp [Cursor.ofTag, hkey, hk.ne_nil]
    rw [bind, bindAs, htag]
    simp only [ok_bind, Cursor.checkDefault, Shape.isComposite, Bool.false_and, Bool.false_eq_true,
      if_false]
    rw [show Shape.rootName (.int type) = type.name.toList from rfl, hcursor]
    exact Cursor.bind_writeInt rfl hk.ne_nil hget type

/-- The least number of 64 bits with a sign and the greatest one without, and a number in a list. -/
theorem bind_set_integer_bounds :
    ((empty.set ['k'] (.ofInt (-9223372036854775808))).bind (.key ['k']) (.int .i64) =
        .ok (.int (-9223372036854775808)) ∧
      (empty.set ['k'] (.ofInt (-9223372036854775808))).bind (.key ['k']) (.int .u128) =
        .error (.coerce ['k'] "-9223372036854775808".toList "u128")) ∧
    ((empty.set ['k'] (.seq [.ofInt 18446744073709551615])).bind
        (.tag "$\x7b $.k[0] := 1\x7d".toList) (.int .usize) = .ok (.int 18446744073709551615) ∧
      (empty.set ['k'] (.seq [.ofInt 18446744073709551615])).bind
          (.tag "$\x7b $.k[0] := 1\x7d".toList) (.int .i64) =
        .error (.coerce "k[0]".toList "18446744073709551615".toList "i64")) := by
  have hlow := (bind_set_integer (n := -9223372036854775808) (by decide) (by decide)).2.2.2 empty ['k']
    (v := .ofInt (-9223372036854775808)) (p := []) (Value.each_scalar rfl) (Value.each_scalar rfl)
    (.scalar rfl) ⟨'k', [], rfl, by decide⟩
  have hhigh := (bind_set_integer (n := 18446744073709551615) (by decide) (by decide)).2.2.2 empty ['k']
    (v := .seq [.ofInt 18446744073709551615]) (p := [.index 0])
    (Value.each_seq_iff.2 ⟨trivial, fun v hv => by
      rw [List.mem_singleton.1 hv]
      exact Value.each_scalar rfl⟩)
    (Value.each_seq_iff.2 ⟨trivial, fun v hv => by
      rw [List.mem_singleton.1 hv]
      exact Value.each_scalar rfl⟩)
    (.item rfl (.scalar rfl)) ⟨'k', _, rfl, by decide⟩
  exact ⟨⟨hlow.2 (.key ['k']) ⟨['k'], none⟩ rfl rfl .i64, hlow.2 (.key ['k']) ⟨['k'], none⟩ rfl rfl .u128⟩,
    hhigh.2 (.tag _) ⟨"$.k[0]".toList, some " 1".toList⟩ rfl rfl .usize,
    hhigh.2 (.tag _) ⟨"$.k[0]".toList, some " 1".toList⟩ rfl rfl .i64⟩

end Store

end ConfigGraph
