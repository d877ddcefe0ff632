import ConfigGraph.Proofs.Binding.CommaList
import ConfigGraph.Proofs.Number.Literal

/-!
# Texts of durations

A duration is written as whole seconds (`IsSeconds`) or as components, each a number and a unit
(`Component.Valid`). The scan over the components takes one of them in each round (`round?`), which
leaves a shorter text (`length_round?`), and accepts exactly the texts that consist of them
(`total?_eq_some_iff`). All other texts are refused (`Cursor.bind_duration`).
-/

namespace ConfigGraph

namespace Duration

open Number (Binary IntType IsDecimal binary64 ofDigits readNat? readNat?_eq_some_iff)

/-- Digits of whole seconds, fewer than `2 ^ 64`, with an optional plus sign. -/
def IsSeconds (s : Text) (n : Nat) : Prop :=
  ∃ ds, (s = ds ∨ s = '+' :: ds) ∧ ds ≠ [] ∧ (∀ c ∈ ds, Text.isDigit c = true) ∧ ofDigits ds = n ∧
    n < Nat.pow 2 64

/-- The units that there are. -/
def units : List Text :=
  [['n', 's'], ['u', 's'], ['µ', 's'], ['m', 's'], ['s'], ['m'], ['h'], ['d']]

/-- A number with a unit. -/
structure Component where
  number : Text
  unit : Text
  deriving DecidableEq

namespace Component

/-- The number is made of digits and at most one point, and the unit is one that there is. -/
structure Valid (c : Component) : Prop where
  number : IsDecimal c.number
  unit : c.unit ∈ units

/-- The text of some components. -/
def text (cs : List Component) : Text :=
  cs.flatMap fun c => c.number ++ c.unit

/-- The nanoseconds of a component as they are computed. -/
def measure (c : Component) : Binary :=
  binary64.mul ((binary64.read? c.number).getD .nan) (binary64.ofNat ((unit? c.unit).getD 0))

/-- The nanoseconds of some components as they are added up. -/
def total (before : Binary) (cs : List Component) : Binary :=
  cs.foldl (fun sum c => binary64.add sum c.measure) before

end Component

/-- One round of the scan: the first component of a text and what follows it. -/
def round? (s : Text) : Option (Component × Text) :=
  let number := s.takeWhile inNumber
  let after := s.dropWhile inNumber
  let unit := after.takeWhile (!inNumber ·)
  if (binary64.read? number).isSome && (unit? unit).isSome then
    some (⟨number, unit⟩, after.dropWhile (!inNumber ·))
  else none

section

variable {s t rest : Text} {c : Component} {cs : List Component} {before x : Binary} {n d : Nat}

/-! ## The scan -/

theorem isSome_unit?_iff {u : Text} : (unit? u).isSome = true ↔ u ∈ units := by
  unfold unit?
  split <;> simp_all [units]

instance (c : Component) : Decidable c.Valid :=
  decidable_of_iff (IsDecimal c.number ∧ (unit? c.unit).isSome = true)
    ⟨fun h => ⟨h.1, isSome_unit?_iff.1 h.2⟩, fun h => ⟨h.number, isSome_unit?_iff.2 h.unit⟩⟩

theorem inNumber_iff {ch : Char} : inNumber ch = true ↔ Text.isDigit ch = true ∨ ch = '.' := by
  simp [inNumber]

theorem isSome_read?_iff (hs : ∀ ch ∈ s, inNumber ch = true) :
    (binary64.read? s).isSome = true ↔ IsDecimal s := by
  have hchars : ∀ ch ∈ s, Text.isDigit ch = true ∨ ch = '.' :=
    fun ch hc => inNumber_iff.1 (hs ch hc)
  constructor
  · intro h
    by_contra hn
    rw [binary64.read?_eq_none hchars hn] at h
    cases h
  · intro h
    rw [binary64.read?_of_isDecimal h]
    rfl

/-- No unit has a character of a number in it, and none is empty. -/
theorem not_inNumber_of_mem_units {u : Text} (hu : u ∈ units) :
    u ≠ [] ∧ ∀ ch ∈ u, inNumber ch = false ∧ ch ≠ '+' := by
  have h : ∀ u ∈ units, u ≠ [] ∧ (u.all fun ch => !inNumber ch && ch != '+') = true := by decide
  simpa using h u hu

/-- A component is taken off where a number and a unit are met that are as long as they can be. -/
theorem round?_eq_some_iff : round? s = some (c, rest) ↔
    c.Valid ∧ s = c.number ++ (c.unit ++ rest) ∧
      ∀ ch, rest.head? = some ch → inNumber ch = true := by
  constructor
  · intro h
    simp only [round?] at h
    split at h
    · rename_i hparts
      rw [Bool.and_eq_true] at hparts
      cases h
      refine ⟨⟨(isSome_read?_iff fun ch hc => List.mem_takeWhile_imp hc).1 hparts.1,
        isSome_unit?_iff.1 hparts.2⟩, ?_, fun ch hc => ?_⟩
      · rw [List.takeWhile_append_dropWhile, List.takeWhile_append_dropWhile]
      · have hlast := List.head?_dropWhile_not (fun ch => !inNumber ch) (s.dropWhile inNumber)
        rw [hc] at hlast
        simpa using hlast
    · cases h
  · rintro ⟨hv, rfl, hrest⟩
    obtain ⟨hne, hunit⟩ := not_inNumber_of_mem_units hv.unit
    have hnumber : ∀ ch ∈ c.number, inNumber ch = true :=
      fun ch hc => inNumber_iff.2 (hv.number.chars ch hc)
    have hspan := takeWhile_append_eq (r := c.unit ++ rest) hnumber fun ch hc => by
      rw [List.head?_append, List.head?_eq_some_head hne] at hc
      exact (hunit ch (Option.some.inj hc ▸ List.head_mem hne)).1
    have hspan' := takeWhile_append_eq (p := fun ch => !inNumber ch) (r := rest)
      (fun ch hc => by rw [(hunit ch hc).1]; rfl) fun ch hc => by rw [hrest ch hc]; rfl
    simp only [round?, hspan.1, hspan.2, hspan'.1, hspan'.2, (isSome_read?_iff hnumber).2 hv.number,
      isSome_unit?_iff.2 hv.unit, Bool.and_self, if_true]

/-- Components begin with a character of a number. -/
theorem Component.inNumber_of_head?_text (hcs : ∀ c ∈ cs, c.Valid) {ch : Char}
    (hc : (text cs).head? = some ch) : inNumber ch = true := by
  cases cs with
  | nil => cases hc
  | cons c cs =>
    have hv := hcs c List.mem_cons_self
    obtain ⟨d, hd, -⟩ := hv.number.digit
    have hne := List.ne_nil_of_mem hd
    rw [text, List.flatMap_cons, List.append_assoc, List.head?_append,
      List.head?_eq_some_head hne] at hc
    exact inNumber_iff.2 (hv.number.chars ch (Option.some.inj hc ▸ List.head_mem hne))

/-- The first of some components is taken off. -/
theorem round?_text (hcs : ∀ x ∈ c :: cs, x.Valid) :
    round? (Component.text (c :: cs)) = some (c, Component.text cs) := by
  obtain ⟨hv, hcs⟩ := List.forall_mem_cons.1 hcs
  exact round?_eq_some_iff.2 ⟨hv, List.append_assoc c.number c.unit (Component.text cs),
    fun _ => Component.inNumber_of_head?_text hcs⟩

/-- A round leaves a shorter text. -/
theorem length_round? (h : round? s = some (c, rest)) : rest.length < s.length := by
  obtain ⟨hv, rfl, -⟩ := round?_eq_some_iff.1 h
  have := List.length_pos_iff.2 (not_inNumber_of_mem_units hv.unit).1
  simp only [List.length_append]
  omega

/-- The scan adds up what is taken off in its rounds. -/
theorem total?_eq (before : Binary) (s : Text) : total? before s =
    if s = [] then some before
    else (round? s).bind fun r => total? (binary64.add before r.1.measure) r.2 := by
  rw [total?]
  by_cases hs : s = []
  · rw [if_pos hs, if_pos (List.isEmpty_iff.2 hs)]
  rw [if_neg hs, if_neg (mt List.isEmpty_iff.1 hs)]
  by_cases hn : s.takeWhile inNumber = []
  · have hread : binary64.read? [] = none := by decide
    simp [round?, hn, hread]
  rw [dif_neg (mt List.isEmpty_iff.1 hn)]
  cases hread : binary64.read? (s.takeWhile inNumber) with
  | none => simp [round?, hread]
  | some y =>
    cases hscale : unit? ((s.dropWhile inNumber).takeWhile (!inNumber ·)) with
    | none => simp [round?, hread, hscale]
    | some scale => simp [round?, Component.measure, hread, hscale]

/-- The scan accepts the texts that consist of components, and those only. -/
theorem total?_eq_some_iff : total? before s = some x ↔
    ∃ cs, (∀ c ∈ cs, c.Valid) ∧ Component.text cs = s ∧ x = Component.total before cs := by
  constructor
  · intro h
    induction hn : s.length using Nat.strongRecOn generalizing s before with
    | ind n ih =>
      rw [total?_eq] at h
      split at h
      · rename_i hs
        exact ⟨[], by simp, hs.symm, (Option.some.inj h).symm⟩
      · obtain ⟨⟨c, rest⟩, hround, htotal⟩ := Option.bind_eq_some_iff.1 h
        obtain ⟨hv, hs, -⟩ := round?_eq_some_iff.1 hround
        obtain ⟨cs, hcs, rfl, hx⟩ := ih rest.length (hn ▸ length_round? hround) htotal rfl
        refine ⟨c :: cs, List.forall_mem_cons.2 ⟨hv, hcs⟩, ?_, hx⟩
        rw [hs, ← List.append_assoc]
        rfl
  · rintro ⟨cs, hcs, rfl, rfl⟩
    induction cs generalizing before with
    | nil => exact (total?_eq _ _).trans (if_pos rfl)
    | cons c cs ih =>
      have hround := round?_text hcs
      have hne : Component.text (c :: cs) ≠ [] := by
        intro h
        rw [h] at hround
        cases length_round? hround
      rw [total?_eq, if_neg hne, hround, Option.bind_some]
      exact ih fun x hx => hcs x (List.mem_cons_of_mem c hx)

/-! ## Seconds -/

theorem read?_u64_eq_some_iff {z : Int} :
    IntType.u64.read? s = some z ↔ ∃ n, IsSeconds s n ∧ z = n := by
  have hholds : ∀ n : Nat, IntType.u64.holds n = true ↔ n < Nat.pow 2 64 := by
    intro n
    have hleast : IntType.u64.least = 0 := by decide
    have hgreatest : IntType.u64.greatest = (Nat.pow 2 64 : Nat) - 1 := rfl
    simp only [IntType.holds, Bool.and_eq_true, decide_eq_true_eq]
    omega
  have hdigits : ∀ ds : Text, ((readNat? ds).map Int.ofNat).filter IntType.u64.holds = some z ↔
      ∃ n, (ds ≠ [] ∧ (∀ ch ∈ ds, Text.isDigit ch = true) ∧ ofDigits ds = n ∧ n < Nat.pow 2 64) ∧
        z = n := by
    intro ds
    simp only [Option.filter_eq_some_iff, Option.map_eq_some_iff, readNat?_eq_some_iff]
    constructor
    · rintro ⟨⟨n, ⟨hne, hall, hn⟩, rfl⟩, hz⟩
      exact ⟨n, ⟨hne, hall, hn, (hholds n).1 hz⟩, rfl⟩
    · rintro ⟨n, ⟨hne, hall, hn, hlt⟩, rfl⟩
      exact ⟨⟨n, ⟨hne, hall, hn⟩, rfl⟩, (hholds n).2 hlt⟩
  -- a text of digits has no sign in front
  have hsign : ∀ ch tail, Text.isDigit ch = false →
      ¬ ∀ d ∈ (ch :: tail : Text), Text.isDigit d = true := by
    intro ch tail hch hall
    rw [hall ch List.mem_cons_self] at hch
    cases hch
  unfold IntType.read?
  split
  · rename_i tail
    rw [hdigits]
    constructor
    · rintro ⟨n, hn, hz⟩
      exact ⟨n, ⟨tail, .inr rfl, hn⟩, hz⟩
    · rintro ⟨n, ⟨ds, rfl | hs, hn⟩, hz⟩
      · exact absurd hn.2.1 (hsign _ _ rfl)
      · cases hs
        exact ⟨n, hn, hz⟩
  · constructor
    · intro h
      cases h
    · rintro ⟨n, ⟨ds, rfl | hs, hn⟩, -⟩
      · exact absurd hn.2.1 (hsign _ _ rfl)
      · cases hs
  · rename_i hplus hminus
    rw [hdigits]
    constructor
    · rintro ⟨n, hn, hz⟩
      exact ⟨n, ⟨s, .inl rfl, hn⟩, hz⟩
    · rintro ⟨n, ⟨ds, rfl | rfl, hn⟩, hz⟩
      · exact ⟨n, hn, hz⟩
      · exact absurd rfl (hplus ds)

/-! ## Whole texts -/

/-- Some components, one at least. -/
def IsSum (s : Text) (cs : List Component) : Prop :=
  cs ≠ [] ∧ (∀ c ∈ cs, c.Valid) ∧ Component.text cs = s

instance (s : Text) (cs : List Component) : Decidable (IsSum s cs) :=
  inferInstanceAs (Decidable (_ ∧ _))

/-- Whole seconds are read exactly, however many they are. -/
theorem read?_of_isSeconds (h : IsSeconds (Text.trim s) n) : read? s = some (n * 1000000000) := by
  have hread := read?_u64_eq_some_iff.2 ⟨n, h, rfl⟩
  simp only [read?, hread, Int.toNat_natCast]

/-- Components have a unit among them. -/
theorem IsSum.exists_mem (h : IsSum s cs) : ∃ ch ∈ s, inNumber ch = false ∧ ch ≠ '+' := by
  obtain ⟨hne, hcs, rfl⟩ := h
  obtain ⟨c, hc⟩ := List.exists_mem_of_ne_nil cs hne
  obtain ⟨hunit, hchars⟩ := not_inNumber_of_mem_units (hcs c hc).unit
  obtain ⟨ch, hch⟩ := List.exists_mem_of_ne_nil c.unit hunit
  exact ⟨ch, List.mem_flatMap.2 ⟨c, hc, List.mem_append_right _ hch⟩, hchars ch hch⟩

/-- Components are no whole seconds. -/
theorem IsSum.not_isSeconds (h : IsSum s cs) : ¬ IsSeconds s n := by
  obtain ⟨ch, hmem, hnumber, hplus⟩ := h.exists_mem
  rintro ⟨ds, hs, -, hdigits, -⟩
  have hdigit : ch ∈ ds := by
    rcases hs with rfl | rfl
    · exact hmem
    · exact (List.mem_cons.1 hmem).resolve_left hplus
  rw [inNumber_iff.2 (.inl (hdigits ch hdigit))] at hnumber
  cases hnumber

theorem read?_of_not_isSeconds (h : ∀ n, ¬ IsSeconds (Text.trim s) n) : read? s =
    if Text.trim s = [] then none
    else (total? (binary64.ofNat 0) (Text.trim s)).map
      (·.clampToNat IntType.u64.greatest.toNat) := by
  have hread : IntType.u64.read? (Text.trim s) = none := by
    cases hread : IntType.u64.read? (Text.trim s) with
    | none => rfl
    | some z =>
      obtain ⟨n, hn, -⟩ := read?_u64_eq_some_iff.1 hread
      exact absurd hn (h n)
  simp only [read?, hread, List.isEmpty_iff]

/-- Components are read as their sum. -/
theorem read?_of_isSum (h : IsSum (Text.trim s) cs) : read? s =
    some ((Component.total (binary64.ofNat 0) cs).clampToNat IntType.u64.greatest.toNat) := by
  have htotal : total? (binary64.ofNat 0) (Text.trim s) =
      some (Component.total (binary64.ofNat 0) cs) :=
    total?_eq_some_iff.2 ⟨cs, h.2.1, h.2.2, rfl⟩
  obtain ⟨ch, hmem, -⟩ := h.exists_mem
  rw [read?_of_not_isSeconds fun n => h.not_isSeconds, if_neg (List.ne_nil_of_mem hmem), htotal,
    Option.map_some]

/-- No other text is read. -/
theorem read?_eq_none (hseconds : ∀ n, ¬ IsSeconds (Text.trim s) n)
    (hsum : ∀ cs, ¬ IsSum (Text.trim s) cs) : read? s = none := by
  rw [read?_of_not_isSeconds hseconds]
  split
  · rfl
  · rename_i hne
    cases htotal : total? (binary64.ofNat 0) (Text.trim s) with
    | none => rfl
    | some x =>
      obtain ⟨cs, hcs, htext, -⟩ := total?_eq_some_iff.1 htotal
      refine absurd ⟨?_, hcs, htext⟩ (hsum cs)
      rintro rfl
      exact hne htext.symm

end

end Duration

/-- A duration is what the text of the property is read as. -/
theorem Cursor.bind_duration_eq {c : Cursor} {t : Text} (ht : c.require = .ok t) :
    c.bind .duration = (Duration.read? t).elim
      (.error (.coerce c.key t "core::time::Duration")) fun d => .ok (.duration d) := by
  simp only [bind, convert, ht, ok_bind]
  cases Duration.read? t <;> rfl

/-- The text that a duration is read from is cut into numbers and units in rounds, each of which leaves
less of it, so there is no endless reading. The text is accepted exactly if it is, but for the white
space around it, whole seconds or a sum of components, where a number is as many digits and points as
there are and a unit is what stands up to the next of them. Whole seconds are read exactly. On any
other text the error has this text. -/
theorem Cursor.bind_duration {c : Cursor} {t : Text} (ht : c.require = .ok t) :
    ((∀ before s, Duration.total? before s = if s = [] then some before
        else (Duration.round? s).bind fun r =>
          Duration.total? (Number.binary64.add before r.1.measure) r.2) ∧
      WellFounded fun rest s => ∃ x, Duration.round? s = some (x, rest)) ∧
    ((∃ b, c.bind .duration = .ok b) ↔
      (∃ n, Duration.IsSeconds (Text.trim t) n) ∨ ∃ cs, Duration.IsSum (Text.trim t) cs) ∧
    (∀ n, Duration.IsSeconds (Text.trim t) n →
      c.bind .duration = .ok (.duration (n * 1000000000))) ∧
    ((¬ ∃ b, c.bind .duration = .ok b) →
      c.bind .duration = .error (.coerce c.key t "core::time::Duration")) := by
  have hends : WellFounded fun rest s => ∃ x, Duration.round? s = some (x, rest) :=
    Subrelation.wf (fun ⟨_, h⟩ => Duration.length_round? h) (measure List.length).wf
  refine ⟨⟨Duration.total?_eq, hends⟩, ?_, fun n hn => ?_, fun hnone => ?_⟩
  · rw [bind_duration_eq ht]
    constructor
    · rintro ⟨b, hb⟩
      by_contra hnone
      rw [not_or, not_exists, not_exists] at hnone
      rw [Duration.read?_eq_none hnone.1 hnone.2] at hb
      cases hb
    · rintro (⟨n, hn⟩ | ⟨cs, hcs⟩)
      · exact ⟨_, by rw [Duration.read?_of_isSeconds hn]; rfl⟩
      · exact ⟨_, by rw [Duration.read?_of_isSum hcs]; rfl⟩
  · rw [bind_duration_eq ht, Duration.read?_of_isSeconds hn]
    rfl
  · rw [bind_duration_eq ht] at hnone ⊢
    cases hread : Duration.read? t with
    | none => rfl
    | some d => exact absurd ⟨_, by rw [hread]; rfl⟩ hnone

/-- Seconds with a sign, a sum with a number that begins with its point, and one with a blank in it. -/
theorem Cursor.bind_duration_texts :
    (ofTag (Store.empty.put ['k'] " +90 ".toList) ⟨['k'], none⟩ []).bind .duration =
        .ok (.duration 90000000000) ∧
      (∃ b, (ofTag (Store.empty.put ['k'] "1h.5m".toList) ⟨['k'], none⟩ []).bind .duration = .ok b) ∧
      (ofTag (Store.empty.put ['k'] "1h 5m".toList) ⟨['k'], none⟩ []).bind .duration =
        .error (.coerce ['k'] "1h 5m".toList "core::time::Duration") := by
  have hk : Key.Unmarked ['k'] := ⟨'k', [], rfl, by decide⟩
  have hseconds : (ofTag (Store.empty.put ['k'] " +90 ".toList) ⟨['k'], none⟩ []).require =
      .ok " +90 ".toList := require_of_resolve hk rfl (by cbv) []
  have hsum : (ofTag (Store.empty.put ['k'] "1h.5m".toList) ⟨['k'], none⟩ []).require =
      .ok "1h.5m".toList := require_of_resolve hk rfl (by cbv) []
  have hblank : (ofTag (Store.empty.put ['k'] "1h 5m".toList) ⟨['k'], none⟩ []).require =
      .ok "1h 5m".toList := require_of_resolve hk rfl (by cbv) []
  have hdigits : (['9', '0'].all Text.isDigit) = true := by decide
  refine ⟨(bind_duration hseconds).2.2.1 90
      ⟨['9', '0'], .inr (by decide), List.cons_ne_nil _ _, List.all_eq_true.1 hdigits, by decide⟩,
    (bind_duration hsum).2.1.2 (.inr ⟨[⟨['1'], ['h']⟩, ⟨['.', '5'], ['m']⟩], by decide⟩),
    (bind_duration hblank).2.2.2 ?_⟩
  have hnumeral : Number.IntType.u64.read? (Text.trim "1h 5m".toList) = none := by decide
  have hround : Duration.round? (Text.trim "1h 5m".toList) = none := by decide
  rw [(bind_duration hblank).2.1]
  rintro (⟨n, hn⟩ | ⟨_ | ⟨x, cs⟩, hne, hcs, htext⟩)
  · rw [Duration.read?_u64_eq_some_iff.2 ⟨n, hn, rfl⟩] at hnumeral
    cases hnumeral
  · exact hne rfl
  · rw [← htext, Duration.round?_text hcs] at hround
    cases hround

end ConfigGraph
