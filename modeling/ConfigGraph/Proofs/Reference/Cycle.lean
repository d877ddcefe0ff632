import ConfigGraph.Proofs.Reference.Termination
import ConfigGraph.Proofs.Reference.Yields

/-!
# Reported cycles

A cycle is reported where a call that is in progress comes to a key that is being expanded
(`exists_closing`). The references through which the expansions in progress were entered are a route
from the text to that call (`Active.route`), along references that are written in the text or in what
the reference before them stands for (`Route`). So the keys of a reported cycle are those of a route
that comes to one of its keys again (`resolve_cycle`).
-/

namespace ConfigGraph.Reference

/-- A way from a text to a reference, over those before it. The first is in the text, and each other
is in the text that the one before it stands for: its stored text, or else its default. -/
inductive Route (store : Store) (s : Text) : List Tag → Tag → Prop where
  | start {tag : Tag} (h : tag ∈ mentions s) : Route store s [] tag
  | step {tags : List Tag} {tag tag' : Tag} {t : Text} (hr : Route store s tags tag)
      (ht : tag.content? store = some t) (h : tag' ∈ mentions t) : Route store s (tags ++ [tag]) tag'

variable {store : Store} {s t : Text} {keys : List Text} {c c' : Call}

/-- A call has the references in sight that its caller has in sight, or those in the content of the
key that its caller enters. -/
theorem Calls.inSight_cases (h : Calls store c c') :
    (c.entered = [] ∧ c'.inSight ⊆ c.inSight) ∨
    ∃ tag ∈ c.inSight, c.entered = [tag.key] ∧
      ∃ t, tag.content? store = some t ∧ c'.inSight = mentions t := by
  cases h with
  | reference hs =>
    refine .inl ⟨rfl, ?_⟩
    rw [Call.inSight.eq_1, mentions_of_first? hs]
    exact List.subset_append_left _ _
  | rest hs =>
    refine .inl ⟨rfl, ?_⟩
    rw [Call.inSight.eq_1, Call.inSight.eq_1, mentions_of_first? hs]
    exact List.subset_append_right _ _
  | @content chain tag t hc ht =>
    by_cases hkey : tag.key = []
    · -- the empty key is not looked up, so the content is the default and stands in the tag
      have hd : tag.default? = some t := by rwa [Tag.content?, if_pos hkey] at ht
      refine .inl ⟨if_pos hkey, fun x hx => List.mem_cons_of_mem _ ?_⟩
      rw [hd]
      exact hx
    · exact .inr ⟨tag, List.mem_cons_self, if_neg hkey, t, ht, rfl⟩

/-- The expansions in progress were entered through references that are a route to each reference in
sight. -/
theorem Active.route (h : Active store s keys c) :
    ∃ tags, tags.map Tag.key = keys ∧ ∀ tag ∈ c.inSight, Route store s tags tag := by
  induction h with
  | start => exact ⟨[], rfl, fun tag => .start⟩
  | call _ hcalls ih =>
    obtain ⟨tags, rfl, hroute⟩ := ih
    rcases hcalls.inSight_cases with ⟨hentered, hsub⟩ | ⟨tag, htag, hentered, t, ht, hsight⟩
    · exact ⟨tags, by rw [hentered, List.append_nil], fun tag htag => hroute tag (hsub htag)⟩
    · refine ⟨tags ++ [tag], by rw [hentered, List.map_append]; rfl, fun tag' htag' => ?_⟩
      rw [hsight] at htag'
      exact .step (hroute tag htag) ht htag'

/-- No expansion in progress was entered through the empty key. -/
theorem Active.ne_nil (h : Active store s keys c) : ∀ k ∈ keys, k ≠ [] := by
  intro k hk
  have hmem := List.mem_dedup.1 (h.subset hk)
  exact of_decide_eq_true (List.mem_filter.1 hmem).2

/-- Where the expansion of a text fails at a cycle, it has come to a key that is being expanded. -/
theorem exists_closing {cycle : List Text} (hactive : Active store s keys (.text keys t))
    (h : expand store keys t = .error (.referenceCycle cycle)) :
    ∃ keys tag, Active store s keys (.reference keys tag) ∧ tag.Closes keys ∧
      cycle = keys ++ [tag.key] := by
  induction keys, t using expand_induct store with | step chain t ih => ?_
  cases hs : first? t with
  | error e =>
    rw [expand_eq, hs] at h
    cases h
    exact absurd hs (first?_ne_cycle t cycle)
  | ok first =>
    obtain _ | ⟨before, tag, rest⟩ := first
    · rw [expand_eq, hs] at h
      cases h
    · obtain ⟨ihcontent, ihrest⟩ := ih before tag rest hs
      have hreference : Active store s chain (.reference chain tag) := by
        simpa only [Call.entered, List.append_nil] using hactive.call (.reference hs)
      have hrest : Active store s chain (.text chain rest) := by
        simpa only [Call.entered, List.append_nil] using hactive.call (.rest hs)
      rcases (expand_eq_cycle_iff hs).1 h with h | ⟨value, -, h⟩
      · rcases tagValue_eq_cycle_iff.1 h with ⟨hc, rfl⟩ | ⟨hc, content, ht, h⟩
        · exact ⟨chain, tag, hreference, hc, rfl⟩
        · have hcontent := hreference.call (.content hc ht)
          rw [Call.entered, ← enter_eq_append] at hcontent
          exact ihcontent content hc ht hcontent h
      · exact ihrest hrest h

/-- A reported cycle is one. Before its last key it has at least one, and these are different from
each other and not empty; the last is one of them. They are the keys of references of which the first
is in the text, and each other in the text that the one before it stands for. -/
theorem resolve_cycle {cycle : List Text}
    (h : resolve store s = .error (.referenceCycle cycle)) :
    2 ≤ cycle.length ∧ cycle.dropLast.Nodup ∧ (∀ k ∈ cycle.dropLast, k ≠ []) ∧
      (∃ k ∈ cycle.dropLast, cycle.getLast? = some k) ∧
      ∃ tags tag, Route store s tags tag ∧ cycle = (tags ++ [tag]).map Tag.key := by
  obtain ⟨keys, tag, hactive, hclose, rfl⟩ := exists_closing .start h
  obtain ⟨tags, hkeys, hroute⟩ := hactive.route
  have hlength : 0 < keys.length := List.length_pos_of_mem hclose.mem
  rw [List.dropLast_concat, List.getLast?_concat, List.length_append, List.length_singleton]
  refine ⟨by omega, hactive.nodup, hactive.ne_nil, ⟨_, hclose.mem, rfl⟩, tags, tag, ?_, ?_⟩
  · exact hroute tag List.mem_cons_self
  · rw [List.map_append, hkeys]
    rfl

/-- Two texts that refer to each other, one of them inside of a default without a key. -/
def circular : Store :=
  (Store.empty.put ['a'] ['$', '{', 'b', '}']).put ['b']
    ['$', '{', ':', '=', '$', '{', 'a', '}', '}']

theorem resolve_cycle_circular :
    resolve circular ['$', '{', 'c', ':', '=', '$', '{', 'a', '}', '}'] =
        .error (.referenceCycle [['c'], ['a'], ['b'], ['a']]) ∧
      [['c'], ['a'], ['b']].Nodup ∧
      ∃ tags tag, Route circular ['$', '{', 'c', ':', '=', '$', '{', 'a', '}', '}'] tags tag ∧
        [['c'], ['a'], ['b'], ['a']] = (tags ++ [tag]).map Tag.key := by
  have h : resolve circular ['$', '{', 'c', ':', '=', '$', '{', 'a', '}', '}'] =
      .error (.referenceCycle [['c'], ['a'], ['b'], ['a']]) := by cbv
  obtain ⟨-, hnodup, -, -, hroute⟩ := resolve_cycle h
  exact ⟨h, hnodup, hroute⟩

end ConfigGraph.Reference
