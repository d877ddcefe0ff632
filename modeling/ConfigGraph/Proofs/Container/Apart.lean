import ConfigGraph.Proofs.Container.Enlarged
import ConfigGraph.Proofs.Container.Singletons

/-!
# Beans made apart

A bean that is not registered is made by the same functions as one that is, but for no owner. Each act
that it does by itself (`Act.IsOwn`) has a counterpart for the definition with a number
(`Act.ownedBy`), which changes an assembly in the same way, so histories stay parallel (`Parallel`)
while a bean is built, completed and linked in two places that face each other (`Facing`). What is
left of a parallel history when acts of the assembling come between (`Alongside`) is the work that is
done for the bean.
-/

namespace ConfigGraph

open Wiring

/-! ## Acts of a bean -/

/-- What is done for a bean by itself when it is made apart: work is noted, lookups are marked, its
parts begin and end, and its instance takes a number. -/
inductive Act.IsOwn : Act → Prop where
  | silent {a : Act} (ha : a.IsSilent) : IsOwn a
  | mark (m : Mark) : IsOwn (.mark none m)
  | number (taken : Nat) : IsOwn (.number taken)

/-- The same act for a bean that is registered with a number. -/
def Act.ownedBy (n : Nat) : Act → Act
  | mark none m => mark (some n) m
  | a => a

/-- The mark that an act is for a bean that is not registered. -/
def Act.apartMark? : Act → Option Mark
  | mark none m => some m
  | _ => none

/-- Whether an act is of a bean itself: something happens, a part begins or ends, or an instance
takes a number. -/
def Act.isWork : Act → Bool
  | note _ | mark .. | number _ => true
  | _ => false

theorem Act.IsSilent.ownedBy {a : Act} (ha : a.IsSilent) (n : Nat) : a.ownedBy n = a := by
  cases ha <;> rfl

theorem Act.isWork_ownedBy (a : Act) (n : Nat) : (a.ownedBy n).isWork = a.isWork := by
  unfold Act.ownedBy
  split <;> rfl

theorem Act.noted?_ownedBy (a : Act) (n : Nat) : (a.ownedBy n).noted? = a.noted? := by
  unfold Act.ownedBy
  split <;> rfl

theorem Act.markOf?_ownedBy {a : Act} {n : Nat} (ha : a.markOf? n = none) :
    (a.ownedBy n).markOf? n = a.apartMark? := by
  unfold Act.ownedBy
  split
  · exact if_pos rfl
  · rename_i hne
    unfold Act.apartMark?
    split
    · exact absurd rfl (hne _)
    · exact ha

theorem Act.noted?_of_isWork {a : Act} (ha : a.isWork = false) : a.noted? = none := by
  cases a with
  | note e => cases ha
  | _ => rfl

theorem Act.markOf?_of_isWork {a : Act} (n : Nat) (ha : a.isWork = false) : a.markOf? n = none := by
  cases a with
  | mark owner m => cases ha
  | _ => rfl

/-- What is read off an act only when it is of a bean itself. -/
theorem filterMap_isWork {α : Type} {f : Act → Option α} (hf : ∀ a, a.isWork = false → f a = none)
    (l : List Act) : (l.filter Act.isWork).filterMap f = l.filterMap f := by
  rw [List.filterMap_filter]
  refine List.filterMap_congr fun a _ => ?_
  split
  · rfl
  · rename_i ha
    exact (hf a (Bool.not_eq_true _ ▸ ha)).symm

theorem Act.IsOwn.markOf? {a : Act} (ha : a.IsOwn) (n : Nat) : a.markOf? n = none := by
  cases ha with
  | silent ha => cases ha <;> rfl
  | mark m => rfl
  | number taken => rfl

namespace Assembly

theorem act_ownedBy (s : Assembly) (a : Act) (n : Nat) : s.act (a.ownedBy n) = s.act a := by
  unfold Act.ownedBy
  split <;> rfl

theorem after_ownedBy (s : Assembly) (l : List Act) (n : Nat) :
    s.after (l.map (Act.ownedBy n)) = s.after l := by
  induction l generalizing s with
  | nil => rfl
  | cons a l ih => rw [List.map_cons, after_cons, after_cons, act_ownedBy, ih]

/-- What a bean does by itself leaves the progress of the definitions and the chain as they are. -/
theorem after_own {l : List Act} (hl : ∀ a ∈ l, a.IsOwn) (s : Assembly) :
    (s.after l).slots = s.slots ∧ (s.after l).chain = s.chain := by
  induction l generalizing s with
  | nil => exact ⟨rfl, rfl⟩
  | cons a l ih =>
    obtain ⟨ha, hl⟩ := List.forall_mem_cons.1 hl
    obtain ⟨hslots, hchain⟩ := ih hl (s.act a)
    have hact : (s.act a).slots = s.slots ∧ (s.act a).chain = s.chain := by
      cases ha with
      | silent ha => rw [ha.act_eq]; exact ⟨rfl, rfl⟩
      | _ => exact ⟨rfl, rfl⟩
    exact ⟨hslots.trans hact.1, hchain.trans hact.2⟩

theorem made_after {s t : Assembly} (h : t.made = s.made) (l : List Act) :
    (t.after l).made = (s.after l).made := by
  induction l generalizing s t with
  | nil => exact h
  | cons a l ih => exact ih (made_act h a)

theorem instance?_congr {s t : Assembly} (h : t.slots = s.slots) (i : Nat) :
    t.instance? i = s.instance? i := by
  rw [instance?, h, instance?]

end Assembly

/-! ## The same acts apart and registered -/

/-- After two histories the same is done for a bean, by itself in the first, and for the definition
with a number in the second. -/
def Parallel (n : Nat) (h₀ k₀ h k : List Act) : Prop :=
  ∃ l, h = h₀ ++ l ∧ k = k₀ ++ l.map (Act.ownedBy n) ∧ ∀ a ∈ l, a.IsOwn

/-- After two histories the same comes about for a bean, by itself in the first, and for the definition
with a number in the second, where acts of the assembling may stand between. -/
def Alongside (n : Nat) (h₀ k₀ h k : List Act) : Prop :=
  ∃ l m, h = h₀ ++ l ∧ k = k₀ ++ m ∧ progress n l = [] ∧
    m.filter Act.isWork = (l.filter Act.isWork).map (Act.ownedBy n)

variable {n : Nat} {h₀ k₀ h₁ k₁ h k : List Act} {a : Act}

theorem Parallel.refl (n : Nat) (h k : List Act) : Parallel n h k h k :=
  ⟨[], (List.append_nil h).symm, (List.append_nil k).symm, fun _ ha => absurd ha List.not_mem_nil⟩

theorem Parallel.snoc (hR : Parallel n h₀ k₀ h k) (ha : a.IsOwn) :
    Parallel n h₀ k₀ (h ++ [a]) (k ++ [a.ownedBy n]) := by
  obtain ⟨l, rfl, rfl, hl⟩ := hR
  refine ⟨l ++ [a], List.append_assoc .., ?_, fun c hc => ?_⟩
  · rw [List.map_append, ← List.append_assoc]
    rfl
  · rcases List.mem_append.1 hc with hc | hc
    · exact hl c hc
    · exact List.mem_singleton.1 hc ▸ ha

/-- The progress of definitions and the chain stay as they are on both sides. -/
theorem Parallel.after (hR : Parallel n h₀ k₀ h k) (s₀ t₀ : Assembly) :
    ((s₀.after h).slots = (s₀.after h₀).slots ∧ (s₀.after h).chain = (s₀.after h₀).chain) ∧
      (t₀.after k).slots = (t₀.after k₀).slots ∧ (t₀.after k).chain = (t₀.after k₀).chain := by
  obtain ⟨l, rfl, rfl, hl⟩ := hR
  rw [Assembly.after_append, Assembly.after_append, Assembly.after_ownedBy]
  exact ⟨Assembly.after_own hl _, Assembly.after_own hl _⟩

theorem Parallel.alongside (hR : Parallel n h₀ k₀ h k) : Alongside n h₀ k₀ h k := by
  obtain ⟨l, rfl, rfl, hl⟩ := hR
  refine ⟨l, _, rfl, rfl, ?_, ?_⟩
  · exact List.filterMap_eq_nil_iff.2 fun a ha => (hl a ha).markOf? n
  · rw [List.filter_map]
    exact congrArg _ (List.filter_congr fun a _ => a.isWork_ownedBy n)

theorem Alongside.refl (n : Nat) (h k : List Act) : Alongside n h k h k :=
  (Parallel.refl n h k).alongside

theorem Alongside.exists_append (hR : Alongside n h₀ k₀ h k) : ∃ m, k = k₀ ++ m := by
  obtain ⟨l, m, -, hk, -⟩ := hR
  exact ⟨m, hk⟩

theorem Alongside.trans (hR : Alongside n h₀ k₀ h₁ k₁) (hR' : Alongside n h₁ k₁ h k) :
    Alongside n h₀ k₀ h k := by
  obtain ⟨l, m, rfl, rfl, hmarks, hwork⟩ := hR
  obtain ⟨l', m', rfl, rfl, hmarks', hwork'⟩ := hR'
  refine ⟨l ++ l', m ++ m', List.append_assoc .., List.append_assoc .., ?_, ?_⟩
  · rw [progress_append, hmarks, hmarks']
    rfl
  · rw [List.filter_append, hwork, hwork', List.filter_append, List.map_append]

/-- An act of the assembling. -/
theorem Alongside.snoc_right (hR : Alongside n h₀ k₀ h k) (ha : a.isWork = false) :
    Alongside n h₀ k₀ h (k ++ [a]) := by
  obtain ⟨l, m, rfl, rfl, hmarks, hwork⟩ := hR
  refine ⟨l, m ++ [a], rfl, List.append_assoc .., hmarks, ?_⟩
  rw [List.filter_append, hwork, List.filter_cons_of_neg (by simp [ha])]
  exact List.append_nil _

/-- The bean made apart joins or leaves the chain. -/
theorem Alongside.snoc_left (hR : Alongside n h₀ k₀ h k) (ha : a.isWork = false) :
    Alongside n h₀ k₀ (h ++ [a]) k := by
  obtain ⟨l, m, rfl, rfl, hmarks, hwork⟩ := hR
  refine ⟨l ++ [a], m, List.append_assoc .., rfl, ?_, ?_⟩
  · rw [progress_append, hmarks, progress, List.filterMap_cons, a.markOf?_of_isWork n ha]
    rfl
  · rw [hwork, List.filter_append, List.filter_cons_of_neg (by simp [ha]), List.filter_nil,
      List.append_nil]

/-! ## Building and linking apart -/

/-- The place where a bean is made apart and that where it is wired or linked as a definition: the
same beans are at work, and the other definitions have the same instances. -/
structure Facing (s₀ t₀ : Assembly) (count : Nat) (h₀ k₀ : List Act) : Prop where
  trace : (t₀.after k₀).trace = (s₀.after h₀).trace
  ready : ∀ i < count, ∃ inst, (s₀.after h₀).instance? i = some inst ∧
    (t₀.after k₀).instance? i = some inst

variable {s₀ t₀ : Assembly} {count : Nat} {ctx ctx' : Context} {more : List Definition}

theorem Parallel.trace (hf : Facing s₀ t₀ count h₀ k₀) (h k : List Act)
    (hR : Parallel n h₀ k₀ h k) : (t₀.after k).trace = (s₀.after h).trace := by
  obtain ⟨⟨-, hs⟩, -, ht⟩ := hR.after s₀ t₀
  rw [Assembly.trace, ht, Assembly.trace, hs]
  exact hf.trace

theorem Parallel.abreast (hf : Facing s₀ t₀ ctx.definitions.length h₀ k₀)
    (hw : ctx.Widens ctx' more) (n depth depth' : Nat) :
    Abreast s₀ t₀ (Parallel n h₀ k₀) ctx ctx' more (wire ctx depth) (wire ctx' depth') where
  widens := hw
  silent h k a ha hR := by
    have hsnoc := hR.snoc (.silent ha)
    rwa [ha.ownedBy n] at hsnoc
  inner i hi := by
    refine alike_wire ctx ctx' hi ?_ (fun h k hR => ?_) _ _
    · rw [hw.definitions, List.length_append]
      exact Nat.lt_add_right _ hi
    · obtain ⟨⟨hs, -⟩, ht, -⟩ := hR.after s₀ t₀
      rw [Assembly.instance?_congr hs, Assembly.instance?_congr ht]
      exact hf.ready i hi

theorem Parallel.marked : Marked (Parallel n h₀ k₀) none (some n) :=
  fun _ _ m hR => hR.snoc (.mark m)

theorem Parallel.madeAlike (hmade : (t₀.after k₀).made = (s₀.after h₀).made) :
    MadeAlike s₀ t₀ (Parallel n h₀ k₀) where
  made h k hR := by
    obtain ⟨l, rfl, rfl, -⟩ := hR
    rw [Assembly.after_append, Assembly.after_append, Assembly.after_ownedBy]
    exact Assembly.made_after hmade l
  number h k taken hR := hR.snoc (.number taken)

/-- A bean is built apart as it is when it is wired. -/
theorem Parallel.build (hf : Facing s₀ t₀ ctx.definitions.length h₀ k₀)
    (hmade : (t₀.after k₀).made = (s₀.after h₀).made) (hw : ctx.Widens ctx' more) {d : Definition}
    (hq : ∀ q, d.bean.Asks q → ctx.Same ctx' more q) (n depth depth' : Nat) :
    AlikeAt s₀ t₀ (Parallel n h₀ k₀) h₀ k₀ (build ctx (wire ctx depth) none d)
      (build ctx' (wire ctx' depth') (some n) d) :=
  (Parallel.abreast hf hw n depth depth').build (Parallel.trace hf) Parallel.marked
    (Parallel.madeAlike hmade) hq _ _ (.refl ..)

theorem Parallel.initialized (s₀ t₀ : Assembly) (n : Nat) (h k : List Act) (b : Bean)
    (inst : Instance) : AlikeAt s₀ t₀ (Parallel n h k) h k (initialized none b inst)
      (initialized (some n) b inst) :=
  Abreast.initialized Parallel.marked (fun _ _ _ he hR => hR.snoc (.silent (.note he))) b inst _ _
    (.refl ..)

/-- The link callbacks of a bean run apart as they do when it is linked. -/
theorem Parallel.runLinks (hf : Facing s₀ t₀ ctx.definitions.length h₀ k₀)
    (hw : ctx.Widens ctx' more) {links : List Callback}
    (hq : ∀ c ∈ links, ∀ q, c.action.Asks q → ctx.Same ctx' more q) (handle : Handle)
    (n depth depth' : Nat) :
    AlikeAt s₀ t₀ (Parallel n h₀ k₀) h₀ k₀ (runLinks ctx (wire ctx depth) none handle links)
      (runLinks ctx' (wire ctx' depth') (some n) handle links) :=
  (Parallel.abreast hf hw n depth depth').runLinks (Parallel.trace hf) Parallel.marked hq handle _ _
    (.refl ..)

end ConfigGraph
