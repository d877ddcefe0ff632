import ConfigGraph.Proofs.Reference.Expansion
import Mathlib.Data.List.Basic

/-!
# Expanding a text piece by piece

The first reference of a text is also that of the text with something behind it
(`first?_append_of_some`), and behind a text without references it is that of what is put there
(`first?_append_of_none`). So a text is expanded piece by piece (`expand_append`), and two texts
together are resolved to what they are resolved to apart, the errors included (`resolve_append`).
-/

namespace ConfigGraph.Reference

variable {store : Store} {chain : List Text} {s t before rest : Text} {tag : Tag}

theorem expand_append_of_none (hs : s.getLast? ≠ some '$') (h : first? s = .ok none) :
    expand store chain (s ++ t) = (expand store chain t).map (unescape s ++ ·) := by
  rw [expand_eq store chain (s ++ t), expand_eq store chain t, first?_append_of_none hs h]
  cases first? t with
  | error e => rfl
  | ok first =>
    obtain _ | ⟨before, tag, rest⟩ := first
    · exact congrArg Except.ok (unescape_append hs)
    · simp only [Except.map, Option.map_some, Prod.map, id_eq]
      cases tagValue store chain tag with
      | error e => rfl
      | ok value =>
        cases value with
        | none => rfl
        | some value =>
          cases expand store chain rest with
          | error e => rfl
          | ok tail => simp only [unescape_append hs, List.append_assoc]

/-- Expanding a text fails at its first reference, or goes on behind it, whatever is put behind the
text. -/
theorem expand_append_of_some (store : Store) (chain : List Text)
    (h : first? s = .ok (some (before, tag, rest))) :
    (∃ e, ∀ t, expand store chain (s ++ t) = .error e) ∨
    ∃ value, ∀ t, expand store chain (s ++ t) =
      (expand store chain (rest ++ t)).map (unescape before ++ value ++ ·) := by
  have hexpand := fun t => expand_eq store chain (s ++ t)
  simp only [first?_append_of_some h] at hexpand
  cases hvalue : tagValue store chain tag with
  | error e => exact .inl ⟨e, fun t => by rw [hexpand, hvalue]⟩
  | ok value =>
    cases value with
    | none => exact .inl ⟨_, fun t => by rw [hexpand, hvalue]⟩
    | some value => exact .inr ⟨value, fun t => by rw [hexpand, hvalue]⟩

/-- A text is expanded piece by piece, unless a reference in the first piece is not closed there. The
pieces must not be cut behind a dollar sign. -/
theorem expand_append (hs : s.getLast? ≠ some '$')
    (hu : expand store chain s ≠ .error .unclosedReference) :
    expand store chain (s ++ t) = (do
      let x ← expand store chain s
      let y ← expand store chain t
      return x ++ y) := by
  induction chain, s using expand_induct store with | step chain s ih => ?_
  cases hfirst : first? s with
  | error e =>
    have hexpand : expand store chain s = .error e := by rw [expand_eq, hfirst]
    have he : e ≠ .unclosedReference := fun he => hu (he ▸ hexpand)
    rw [expand_eq store chain (s ++ t), first?_append_of_error hfirst he, hexpand]
    rfl
  | ok first =>
    obtain _ | ⟨before, tag, rest⟩ := first
    · rw [expand_append_of_none hs hfirst, expand_eq store chain s, hfirst]
      cases expand store chain t <;> rfl
    · rcases expand_append_of_some store chain hfirst with ⟨e, herror⟩ | ⟨value, hgoes⟩
      · have hexpand := herror []
        rw [List.append_nil] at hexpand
        rw [herror, hexpand]
        rfl
      · have hexpand := hgoes []
        rw [List.append_nil, List.append_nil] at hexpand
        have hsuffix : rest <:+ s := by
          obtain ⟨a, b, -, -, -, rfl⟩ := first?_eq_some_iff.1 hfirst
          exact List.drop_suffix _ s
        -- a reference that is not closed behind this one is not closed in the whole text
        have hrest : expand store chain rest ≠ .error .unclosedReference :=
          fun h => hu (by rw [hexpand, h]; rfl)
        have ihrest := (ih before tag rest hfirst).2 (getLast?_ne_of_suffix hsuffix hs) hrest
        rw [hgoes, hexpand, ihrest]
        cases expand store chain rest with
        | error e => rfl
        | ok x =>
          cases expand store chain t with
          | error e => rfl
          | ok y => exact congrArg Except.ok (List.append_assoc _ x y).symm

/-- Two texts resolve together to what they resolve to apart: the first of their errors, or else the
one result behind the other. The first must not end with a dollar sign, nor fail at a reference that is
not closed. -/
theorem resolve_append (hs : s.getLast? ≠ some '$')
    (hu : resolve store s ≠ .error .unclosedReference) :
    resolve store (s ++ t) = (do
      let x ← resolve store s
      let y ← resolve store t
      return x ++ y) :=
  expand_append hs hu

/-- A host with a port. -/
def address : Store :=
  (Store.empty.put ['h'] ['l', 'o']).put ['p'] ['8', '0']

theorem resolve_append_address :
    ['$', '{', 'h', '}', ':'].getLast? ≠ some '$' ∧
      resolve address ['$', '{', 'h', '}', ':'] = .ok ['l', 'o', ':'] ∧
      resolve address ['$', '{', 'h', '}', ':', '$', '{', 'p', '}', '$', '$', '{'] =
        .ok ['l', 'o', ':', '8', '0', '$', '{'] ∧
      resolve address ['$', '{', 'h', '}', ':', '$', '{', 'q', '}'] =
        .error (.referenceNotFound ['q']) := by
  have hhost : resolve address ['$', '{', 'h', '}', ':'] = .ok ['l', 'o', ':'] := by cbv
  have hport : resolve address ['$', '{', 'p', '}', '$', '$', '{'] = .ok ['8', '0', '$', '{'] := by
    cbv
  have hnone : resolve address ['$', '{', 'q', '}'] = .error (.referenceNotFound ['q']) := by cbv
  have hclosed : resolve address ['$', '{', 'h', '}', ':'] ≠ .error .unclosedReference := by
    rw [hhost]
    exact fun h => by cases h
  have happend := fun t => resolve_append (t := t) (by decide) hclosed
  simp only [hhost] at happend
  refine ⟨by decide, hhost, (happend ['$', '{', 'p', '}', '$', '$', '{']).trans ?_,
    (happend ['$', '{', 'q', '}']).trans ?_⟩
  · rw [hport]
    rfl
  · rw [hnone]
    rfl

end ConfigGraph.Reference
