import ConfigGraph.Text.Basic

/-!
# Entries by name

Association lists that are kept in the order of their names. What each operation does to the entry
of a name is said in terms of `find?`.
-/

namespace ConfigGraph

/-- Named entries. -/
abbrev Entries (α : Type) := List (Text × α)

namespace Entries

variable {α : Type}

/-- The names stand in strictly ascending order. -/
def Sorted (es : Entries α) : Prop :=
  es.Pairwise fun a b => Text.before a.1 b.1 = true

/-- The entry of a name. -/
def find? (es : Entries α) (name : Text) : Option α :=
  match es with
  | [] => none
  | (n, a) :: rest => if n = name then some a else find? rest name

/-- Adds an entry at its place, in the stead of the one of the same name. -/
def put (name : Text) (a : α) : Entries α → Entries α
  | [] => [(name, a)]
  | (n, b) :: rest =>
    if n = name then (name, a) :: rest
    else if Text.before name n then (name, a) :: (n, b) :: rest
    else (n, b) :: put name a rest

/-- Replaces the entry of a name by a function of what is there. -/
def alter (name : Text) (f : Option α → α) (es : Entries α) : Entries α :=
  put name (f (find? es name)) es

/-- Entries in order; of equal names the last one stays. -/
def ofList (es : List (Text × α)) : Entries α :=
  es.foldl (fun acc (n, a) => put n a acc) []

/-! ## What the operations do -/

@[simp]
theorem find?_nil (name : Text) : find? ([] : Entries α) name = none := rfl

theorem find?_put (es : Entries α) (name q : Text) (a : α) :
    find? (put name a es) q = if q = name then some a else find? es q := by
  induction es with
  | nil => simp only [put, find?, eq_comm]
  | cons e rest ih =>
    obtain ⟨n, b⟩ := e
    simp only [put]
    split
    · rename_i h; subst h
      simp only [find?]
      by_cases hq : n = q <;> simp [hq, eq_comm]
      intro h; exact absurd h.symm hq
    · rename_i hn
      split
      · simp only [find?, eq_comm (a := q)]
      · simp only [find?, ih]
        by_cases hq : q = name
        · subst hq; simp [hn]
        · simp [hq]

theorem mem_put {es : Entries α} {name : Text} {a : α} {e : Text × α}
    (h : e ∈ put name a es) : e = (name, a) ∨ e ∈ es := by
  induction es with
  | nil => simpa [put] using h
  | cons f rest ih =>
    obtain ⟨n, b⟩ := f
    simp only [put] at h
    split at h
    · rcases List.mem_cons.1 h with h | h
      · exact .inl h
      · exact .inr (List.mem_cons_of_mem _ h)
    · split at h
      · rcases List.mem_cons.1 h with h | h
        · exact .inl h
        · exact .inr h
      · rcases List.mem_cons.1 h with h | h
        · exact .inr (h ▸ List.mem_cons_self)
        · exact (ih h).imp_right (List.mem_cons_of_mem _)

theorem sorted_put {es : Entries α} (h : Sorted es) (name : Text) (a : α) :
    Sorted (put name a es) := by
  induction es with
  | nil => exact List.pairwise_singleton _ _
  | cons f rest ih =>
    obtain ⟨n, b⟩ := f
    have hr := (List.pairwise_cons.1 h).2
    have hn := (List.pairwise_cons.1 h).1
    simp only [put]
    split
    · rename_i heq; subst heq
      exact List.pairwise_cons.2 ⟨hn, hr⟩
    · rename_i hne
      split
      · rename_i hb
        refine List.pairwise_cons.2 ⟨fun e he => ?_, h⟩
        rcases List.mem_cons.1 he with rfl | he
        · exact hb
        · exact Text.before_trans hb (hn e he)
      · rename_i hb
        refine List.pairwise_cons.2 ⟨fun e he => ?_, ih hr⟩
        rcases mem_put he with rfl | he
        · exact (Text.before_total hne).resolve_right hb
        · exact hn e he

theorem sorted_filter {es : Entries α} (h : Sorted es) (p : Text × α → Bool) :
    Sorted (es.filter p) :=
  List.Pairwise.filter p h

end Entries

end ConfigGraph
