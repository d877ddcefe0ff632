import ConfigGraph.Container.Wiring
import ConfigGraph.Proofs.Container.Assembly

/-!
# Courses of acts

What comes of a course of wiring, in terms of its parts. A course is looked at after the acts that
have led to where it starts (`Wiring.Meets`), so that what is said of its end can refer to all that
was done before. The assembly at the end of a course is that after its acts (`Wiring.run_snd`).
-/

namespace ConfigGraph

namespace Wiring

variable {α β : Type}

theorem run_snd (x : Wiring α) (s : Assembly) : (x.run s).2 = s.after (x.acts s) := by
  induction x generalizing s with
  | done a => rfl
  | fail e => rfl
  | doing a next ih => exact ih (s.act a)
  | look next ih => exact ih s s

theorem run_bind (x : Wiring α) (f : α → Wiring β) (s : Assembly) :
    (x >>= f).run s = match x.run s with
      | (.ok a, t) => (f a).run t
      | (.error e, t) => (.error e, t) := by
  induction x generalizing s with
  | done a => rfl
  | fail e => rfl
  | doing a next ih => exact ih (s.act a)
  | look next ih => exact ih s s

theorem run_bind_ok {x : Wiring α} {f : α → Wiring β} {s t : Assembly} {b : β}
    (h : (x >>= f).run s = (.ok b, t)) :
    ∃ a s', x.run s = (.ok a, s') ∧ (f a).run s' = (.ok b, t) := by
  rw [run_bind] at h
  cases hx : x.run s with
  | mk r s' =>
    rw [hx] at h
    cases r with
    | error e => cases h
    | ok a => exact ⟨a, s', rfl, h⟩

theorem acts_bind (x : Wiring α) (f : α → Wiring β) (s : Assembly) :
    (x >>= f).acts s = x.acts s ++ match x.run s with
      | (.ok a, t) => (f a).acts t
      | (.error _, _) => [] := by
  induction x generalizing s with
  | done a => rfl
  | fail e => rfl
  | doing a next ih => exact congrArg (a :: ·) (ih (s.act a))
  | look next ih => exact ih s s

theorem run_map (f : α → β) (x : Wiring α) (s : Assembly) :
    (f <$> x).run s = ((x.run s).1.map f, (x.run s).2) := by
  show (x >>= fun a => pure (f a)).run s = _
  rw [run_bind]
  generalize x.run s = r
  obtain ⟨e | a, t⟩ := r <;> rfl

theorem bind_assoc {γ : Type} (x : Wiring α) (f : α → Wiring β) (g : β → Wiring γ) :
    x >>= f >>= g = x >>= fun a => f a >>= g := by
  induction x with
  | done a => rfl
  | fail e => rfl
  | doing a next ih => exact congrArg (doing a) ih
  | look next ih => exact congrArg look (funext ih)

theorem run_attempt (x : Wiring α) (s : Assembly) :
    x.attempt.run s = (.ok (x.run s).1, (x.run s).2) := by
  induction x generalizing s with
  | done a => rfl
  | fail e => rfl
  | doing a next ih => exact ih (s.act a)
  | look next ih => exact ih s s

theorem acts_attempt (x : Wiring α) (s : Assembly) : x.attempt.acts s = x.acts s := by
  induction x generalizing s with
  | done a => rfl
  | fail e => rfl
  | doing a next ih => exact congrArg (a :: ·) (ih (s.act a))
  | look next ih => exact ih s s

/-- A course that starts after the acts `h`, in an assembly that was `s₀` before them, ends so: of
what comes of it and of all acts up to its end. -/
def Meets (s₀ : Assembly) (h : List Act) (x : Wiring α)
    (post : Except ContainerError α → List Act → Prop) : Prop :=
  post (x.run (s₀.after h)).1 (h ++ x.acts (s₀.after h))

variable {s₀ : Assembly} {h : List Act} {x : Wiring α}
  {post : Except ContainerError α → List Act → Prop}

theorem Meets.mono {post' : Except ContainerError α → List Act → Prop} (hx : x.Meets s₀ h post)
    (himp : ∀ r h', post r h' → post' r h') : x.Meets s₀ h post' :=
  himp _ _ hx

theorem Meets.of_forall (hpost : ∀ r h', post r h') : x.Meets s₀ h post :=
  hpost _ _

theorem Meets.and {post' : Except ContainerError α → List Act → Prop} (hx : x.Meets s₀ h post)
    (hx' : x.Meets s₀ h post') : x.Meets s₀ h fun r h' => post r h' ∧ post' r h' :=
  ⟨hx, hx'⟩

/-- What holds at the end of a course holds of what comes of it and of its acts. -/
theorem Meets.of_end (hx : x.Meets s₀ h post) {r : Except ContainerError α} {h' : List Act}
    (hend : x.Meets s₀ h fun r' h'' => r' = r ∧ h'' = h') : post r h' := by
  obtain ⟨rfl, rfl⟩ := hend
  exact hx

/-- The acts up to the end of a course have a name. -/
theorem Meets.exists_end {r : Except ContainerError α} {P : List Act → Prop}
    (hx : x.Meets s₀ h fun r' h' => r' = r ∧ P h') :
    ∃ k, (x.Meets s₀ h fun r' h' => r' = r ∧ h' = k) ∧ P k :=
  ⟨_, ⟨hx.1, rfl⟩, hx.2⟩

theorem Meets.run_eq (hx : x.Meets s₀ h post) :
    ∃ r h', x.run (s₀.after h) = (r, s₀.after h') ∧ post r h' := by
  refine ⟨_, _, Prod.ext rfl ?_, hx⟩
  rw [run_snd, Assembly.after_append]

@[simp]
theorem meets_pure (a : α) : (pure a : Wiring α).Meets s₀ h post ↔ post (.ok a) h := by
  show post (.ok a) (h ++ []) ↔ _
  rw [List.append_nil]

@[simp]
theorem meets_fail (e : ContainerError) :
    (fail e : Wiring α).Meets s₀ h post ↔ post (.error e) h := by
  show post (.error e) (h ++ []) ↔ _
  rw [List.append_nil]

@[simp]
theorem meets_once {post : Except ContainerError Unit → List Act → Prop} (a : Act) :
    (once a).Meets s₀ h post ↔ post (.ok ()) (h ++ [a]) := Iff.rfl

@[simp]
theorem meets_current {post : Except ContainerError Assembly → List Act → Prop} :
    current.Meets s₀ h post ↔ post (.ok (s₀.after h)) h := by
  show post (.ok (s₀.after h)) (h ++ []) ↔ _
  rw [List.append_nil]

@[simp]
theorem meets_ofExcept (r : Except ContainerError α) :
    (ofExcept r).Meets s₀ h post ↔ post r h := by
  cases r with
  | ok a => exact meets_pure a
  | error e => exact meets_fail e

@[simp]
theorem meets_bind {f : α → Wiring β} {post : Except ContainerError β → List Act → Prop} :
    (x >>= f).Meets s₀ h post ↔ x.Meets s₀ h fun r h' => match r with
      | .ok a => (f a).Meets s₀ h' post
      | .error e => post (.error e) h' := by
  have hend : (x.run (s₀.after h)).2 = s₀.after (h ++ x.acts (s₀.after h)) := by
    rw [run_snd, Assembly.after_append]
  unfold Meets
  rw [run_bind, acts_bind]
  generalize x.run (s₀.after h) = r at hend
  obtain ⟨r | a, t⟩ := r
  · simp only [List.append_nil]
  · obtain rfl : t = _ := hend
    simp only [← List.append_assoc]

@[simp]
theorem meets_map {f : α → β} {post : Except ContainerError β → List Act → Prop} :
    (f <$> x).Meets s₀ h post ↔ x.Meets s₀ h fun r h' => post (r.map f) h' := by
  show (x >>= fun a => pure (f a)).Meets s₀ h post ↔ _
  rw [meets_bind]
  unfold Meets
  cases (x.run (s₀.after h)).1 with
  | ok a => exact meets_pure (f a)
  | error e => rfl

@[simp]
theorem meets_attempt {post : Except ContainerError (Except ContainerError α) → List Act → Prop} :
    x.attempt.Meets s₀ h post ↔ x.Meets s₀ h fun r h' => post (.ok r) h' := by
  unfold Meets
  rw [run_attempt, acts_attempt]

@[simp]
theorem meets_within (f : Frame) :
    (within f x).Meets s₀ h post ↔ x.Meets s₀ (h ++ [.push f]) fun r h' => post r (h' ++ [.pop]) := by
  simp only [within, meets_bind, meets_once, meets_attempt, meets_ofExcept]

/-! ## Values -/

/-- What a course gives, wherever it runs, has a property. -/
def Returns (good : α → Prop) (x : Wiring α) : Prop :=
  ∀ s a, (x.run s).1 = .ok a → good a

theorem Returns.meets {good : α → Prop} (hx : x.Returns good) :
    x.Meets s₀ h fun r _ => ∀ a, r = .ok a → good a :=
  hx _

theorem returns_pure {good : α → Prop} {a : α} (ha : good a) : (pure a : Wiring α).Returns good := by
  intro s b hb
  cases hb
  exact ha

theorem returns_fail (good : α → Prop) (e : ContainerError) : (fail e : Wiring α).Returns good := by
  intro s a ha
  cases ha

theorem Returns.bind {known : α → Prop} {good : β → Prop} {f : α → Wiring β} (hx : x.Returns known)
    (hf : ∀ a, known a → (f a).Returns good) : (x >>= f).Returns good := by
  intro s a ha
  rw [run_bind] at ha
  have hvalue := hx s
  generalize x.run s = ran at ha hvalue
  obtain ⟨e | v, t⟩ := ran
  · cases ha
  · exact hf v (hvalue v rfl) t a ha

/-- Whatever comes before, the last course gives the value. -/
theorem returns_bind {good : β → Prop} (x : Wiring α) {f : α → Wiring β}
    (hf : ∀ a, (f a).Returns good) : (x >>= f).Returns good :=
  have hx : x.Returns fun _ => True := fun _ _ _ => trivial
  hx.bind fun a _ => hf a

theorem Returns.attempt {good : α → Prop} (hx : x.Returns good) :
    x.attempt.Returns fun r => ∀ a, r = .ok a → good a := by
  intro s r hr a ha
  rw [run_attempt] at hr
  cases hr
  exact hx s a ha

theorem Returns.part {good : α → Prop} (hx : x.Returns good) (owner : Option Nat) (p : Part) :
    (part owner p x).Returns good :=
  returns_bind _ fun _ => hx.bind fun _ ha => returns_bind _ fun _ => returns_pure ha

/-- Parts that keep a property of what they are given keep it one after the other. -/
theorem returns_inTurn {good : α → Prop} {f : α → β → Wiring α} {bs : List β}
    (hf : ∀ b ∈ bs, ∀ a, good a → (f a b).Returns good) (owner : Option Nat) (kind : Nat → Part)
    (k : Nat) {a : α} (ha : good a) : (inTurn owner kind f k a bs).Returns good := by
  induction bs generalizing k a with
  | nil => exact returns_pure ha
  | cons b rest ih =>
    obtain ⟨hb, hrest⟩ := List.forall_mem_cons.1 hf
    exact ((hb a ha).part owner (kind k)).bind fun a ha => ih hrest (k + 1) ha

end Wiring

end ConfigGraph
