import ConfigGraph.Proofs.Reference.Tag
import ConfigGraph.Proofs.Reference.Yields
import Mathlib.Data.List.Basic

/-!
# References stand for their contents

A text that is one tag is expanded as its content, inside of the expansion of its key
(`expand_tag`). For a stored key this makes no difference: the reference resolves as the stored text
does (`resolve_stored`), because a text that is needed for itself does not resolve at all. A default
can come to the key that it stands in for, whose expansion it is a part of; this is the only case in
which it does not resolve as on its own (`resolve_default`).
-/

namespace ConfigGraph.Reference

variable {store : Store} {chain : List Text} {k r d s t v : Text} {tag : Tag}

/-- A text that is one tag is its own first reference. -/
theorem first?_of_parse (h : Tag.parse s = .ok tag) : first? s = .ok (some ([], tag, [])) := by
  have hparse := h
  unfold Tag.parse at h
  split at h
  · cases h
  · rename_i inner hinner
    split at h
    · cases h
    · rename_i span hspan
      split at h
      · rename_i hwhole
        subst hwhole
        have hlen := Tag.length_inner hinner
        have hlast : s.length - 1 + 1 = s.length := by omega
        have hslice : slice s 0 (s.length - 1) = s := by
          rw [slice, hlast, List.take_length, List.drop_zero]
        simp only [first?, hspan, hslice, hparse, hlast, List.take_zero, List.drop_length]
      · cases h

/-- A tag is expanded as its content, while its key is being expanded. -/
theorem expand_tag (hs : Tag.parse s = .ok tag) (hc : ¬ tag.Closes chain)
    (ht : tag.content? store = some t) :
    expand store chain s = expand store (enter chain tag.key) t := by
  rw [expand_reference (first?_of_parse hs), tagValue_eq, if_neg hc, ht]
  dsimp only
  cases expand store (enter chain tag.key) t <;> rfl

theorem resolve_tag (hs : Tag.parse s = .ok tag) (hkey : tag.key ≠ [])
    (ht : tag.content? store = some t) : resolve store s = expand store [tag.key] t := by
  rw [resolve, expand_tag hs (fun h => List.not_mem_nil h.mem) ht, enter, if_neg hkey,
    List.nil_append]

theorem resolve_eq_ok_iff : resolve store s = .ok v ↔ (∃ n, Yields store s v n) ∧
    ∀ tag, Reaches store s tag → tag.key ≠ [] → ¬ Returns store tag := by
  simp only [resolve, expand_eq_ok_iff_yields, List.not_mem_nil, not_false_eq_true, true_and]

/-- Inside of the expansion of a key a text is expanded as on its own, unless this comes to the
key. -/
theorem expand_singleton_eq_ok_iff (hk : k ≠ []) :
    expand store [k] s = .ok v ↔ resolve store s = .ok v ∧ ¬ ReachesKey store s k := by
  rw [resolve_eq_ok_iff, expand_eq_ok_iff_yields, and_assoc]
  refine and_congr_right fun _ => ⟨fun h => ⟨fun tag hr hkey => (h tag hr hkey).2, ?_⟩, ?_⟩
  · rintro ⟨tag, hr, rfl⟩
    exact (h tag hr hk).1 (List.mem_singleton_self _)
  · rintro ⟨hreturns, hreaches⟩ tag hr hkey
    exact ⟨fun hmem => hreaches ⟨tag, hr, List.mem_singleton.1 hmem⟩, hreturns tag hr hkey⟩

/-! ## Stored texts -/

/-- A stored text that resolves is expanded to the same inside of the expansion of its key, to which
it does not come back. -/
theorem expand_stored (hk : k ≠ []) (hr : store.get? k = some r) (hv : resolve store r = .ok v) :
    expand store [k] r = .ok v := by
  obtain ⟨⟨n, hn⟩, -⟩ := resolve_eq_ok_iff.1 hv
  exact (expand_singleton_eq_ok_iff hk).2 ⟨hv, hn.not_reachesKey hk hr⟩

/-- A reference to a stored text resolves exactly if the stored text does, and to the same. Which
keys are being expanded does not change what a text is expanded to, and no cycle is reported at a
key whose stored text resolves on its own. -/
theorem resolve_stored (hk : Key.Referable k) (hr : store.get? k = some r) :
    (∀ v, resolve store (['$', '{'] ++ k ++ ['}']) = .ok v ↔ resolve store r = .ok v) ∧
    (∀ chain s v, expand store chain s = .ok v → resolve store s = .ok v) ∧
    ∀ s cycle, resolve store s = .error (.referenceCycle (cycle ++ [k])) →
      ∀ v, resolve store r ≠ .ok v := by
  have hcontent : ∀ {tag : Tag}, tag.key = k → tag.content? store = some r := by
    rintro tag rfl
    rw [Tag.content?, if_neg hk.ne_nil, hr, Option.some_or]
  -- a stored text that stands for something does not come back to its own key
  have hfree : ∀ v, resolve store r = .ok v → ¬ ReachesKey store r k := fun v h => by
    obtain ⟨⟨n, hn⟩, -⟩ := resolve_eq_ok_iff.1 h
    exact hn.not_reachesKey hk.ne_nil hr
  refine ⟨fun v => ?_, fun chain s v h => ?_, fun s cycle h v hv => ?_⟩
  · rw [resolve_tag hk.parse_key hk.ne_nil (hcontent rfl), expand_singleton_eq_ok_iff hk.ne_nil]
    exact and_iff_left_of_imp (hfree v)
  · obtain ⟨hyields, hreaches⟩ := expand_eq_ok_iff_yields.1 h
    exact resolve_eq_ok_iff.2 ⟨hyields, fun tag htag hkey => (hreaches tag htag hkey).2⟩
  · obtain ⟨between, tag, -, -, hcycle, hmem | ⟨tag', hsame, -, t, ht, hback⟩⟩ := expand_eq_cycle h
    · cases hmem
    · have hlast : tag.key = k := (List.singleton_inj.1 (List.append_inj' hcycle rfl).2).symm
      have hkey : tag'.key = k := hsame.trans hlast
      rw [hcontent hkey] at ht
      cases ht
      exact hfree v hv (hkey ▸ hback)

/-- A text, and a reference to it. -/
def greeting : Store :=
  (Store.empty.put ['a'] ['h', 'i']).put ['b'] ['$', '{', 'a', '}', '!']

theorem resolve_stored_greeting :
    Key.Referable ['b'] ∧ greeting.get? ['b'] = some ['$', '{', 'a', '}', '!'] ∧
      resolve greeting ['$', '{', 'b', '}'] = .ok ['h', 'i', '!'] := by
  have hk : Key.Referable ['b'] := Key.Verbatim.referable (by simp [Key.Verbatim, Text.isBlank])
  have hr : greeting.get? ['b'] = some ['$', '{', 'a', '}', '!'] := rfl
  exact ⟨hk, hr, ((resolve_stored hk hr).1 _).2 (by cbv)⟩

/-! ## Defaults -/

/-- A default resolves as on its own, unless this comes to the key that it stands in for. Then a
cycle is reported, from this key back to it. -/
theorem resolve_default (hk : Key.Referable k) (hnone : store.get? k = none)
    (hd : find? (['$', '{'] ++ k ++ [':', '='] ++ d ++ ['}']) =
      .ok (some (0, (['$', '{'] ++ k ++ [':', '='] ++ d ++ ['}']).length - 1))) :
    (∀ v, resolve store (['$', '{'] ++ k ++ [':', '='] ++ d ++ ['}']) = .ok v ↔
      resolve store d = .ok v ∧ ¬ ReachesKey store d k) ∧
    ∀ v, resolve store d = .ok v → ReachesKey store d k → ∃ between,
      resolve store (['$', '{'] ++ k ++ [':', '='] ++ d ++ ['}']) =
        .error (.referenceCycle (k :: between ++ [k])) := by
  have hcontent : Tag.content? store ⟨k, some d⟩ = some d := by
    rw [Tag.content?, if_neg hk.ne_nil, hnone, Option.none_or]
  have hinside := resolve_tag (hk.parse_default hd) hk.ne_nil hcontent
  rw [hinside]
  refine ⟨fun v => expand_singleton_eq_ok_iff hk.ne_nil, fun v hv hback => ?_⟩
  obtain ⟨⟨n, hn⟩, hreturns⟩ := resolve_eq_ok_iff.1 hv
  rcases hn.expand_cases [k] with hok | ⟨cycle, hcycle⟩
  · exact absurd hback ((expand_singleton_eq_ok_iff hk.ne_nil).1 hok).2
  · obtain ⟨between, tag, -, hkey, rfl, hmem | ⟨tag', hsame, hreaches, hback'⟩⟩ :=
      expand_eq_cycle hcycle
    · exact ⟨between, by rw [hcycle, List.mem_singleton.1 hmem]; rfl⟩
    · exact absurd hback' (hreturns tag' hreaches (hsame ▸ hkey))

/-- A text that falls back on a number where `a` is absent. -/
def fallback : Store :=
  Store.empty.put ['b'] ['$', '{', 'a', ':', '=', '1', '}']

/-- A default that resolves on its own can be reported as a cycle, although nothing is stored for
the key that it stands in for. -/
theorem resolve_ne_default :
    Key.Referable ['a'] ∧ fallback.get? ['a'] = none ∧
      find? ['$', '{', 'a', ':', '=', '$', '{', 'b', '}', '}'] = .ok (some (0, 9)) ∧
      resolve fallback ['$', '{', 'b', '}'] = .ok ['1'] ∧
      resolve fallback ['$', '{', 'a', ':', '=', '$', '{', 'b', '}', '}'] =
        .error (.referenceCycle [['a'], ['b'], ['a']]) ∧
      ¬ ∀ v, resolve fallback ['$', '{', 'a', ':', '=', '$', '{', 'b', '}', '}'] = .ok v ↔
        resolve fallback ['$', '{', 'b', '}'] = .ok v := by
  have ha : Key.Referable ['a'] := Key.Verbatim.referable (by simp [Key.Verbatim, Text.isBlank])
  have hd : resolve fallback ['$', '{', 'b', '}'] = .ok ['1'] := by cbv
  have hcycle : resolve fallback ['$', '{', 'a', ':', '=', '$', '{', 'b', '}', '}'] =
      .error (.referenceCycle [['a'], ['b'], ['a']]) := by cbv
  exact ⟨ha, rfl, rfl, hd, hcycle, fun h => by cases hcycle.symm.trans ((h _).2 hd)⟩

theorem resolve_default_fallback :
    Key.Referable ['a'] ∧ Key.Referable ['c'] ∧
      fallback.get? ['a'] = none ∧ fallback.get? ['c'] = none ∧
      find? ['$', '{', 'a', ':', '=', '$', '{', 'b', '}', '}'] = .ok (some (0, 9)) ∧
      find? ['$', '{', 'c', ':', '=', '$', '{', 'b', '}', '}'] = .ok (some (0, 9)) ∧
      (∃ between, resolve fallback ['$', '{', 'a', ':', '=', '$', '{', 'b', '}', '}'] =
        .error (.referenceCycle (['a'] :: between ++ [['a']]))) ∧
      resolve fallback ['$', '{', 'c', ':', '=', '$', '{', 'b', '}', '}'] = .ok ['1'] := by
  have ha : Key.Referable ['a'] := Key.Verbatim.referable (by simp [Key.Verbatim, Text.isBlank])
  have hc : Key.Referable ['c'] := Key.Verbatim.referable (by simp [Key.Verbatim, Text.isBlank])
  have hb : first? ['$', '{', 'b', '}'] = .ok (some ([], ⟨['b'], none⟩, [])) := rfl
  have hinner : first? ['$', '{', 'a', ':', '=', '1', '}'] =
      .ok (some ([], ⟨['a'], some ['1']⟩, [])) := rfl
  have hback : ReachesKey fallback ['$', '{', 'b', '}'] ['a'] :=
    ⟨_, .inside hb rfl (.here hinner), rfl⟩
  have hc' : expand fallback [['c']] ['$', '{', 'b', '}'] = .ok ['1'] := by cbv
  have hd := (expand_singleton_eq_ok_iff (List.cons_ne_nil _ _)).1 hc'
  exact ⟨ha, hc, rfl, rfl, rfl, rfl, (resolve_default ha rfl rfl).2 _ hd.1 hback,
    ((resolve_default hc rfl rfl).1 _).2 hd⟩

end ConfigGraph.Reference
