import ConfigGraph.Format.Registry
import ConfigGraph.Proofs.Entries
import ConfigGraph.Proofs.Value.Parts
import ConfigGraph.Value.Serial

/-!
# Trees that come from outside

A parsed tree may hold anything, but in the configuration data that is made of it the names of each
map ascend (`ordered_ofJson`, `ordered_ofToml`). So what the decoders give (`Registry.ordered_decode`)
and what is made of a serialized value (`Serial.ordered_toValue`) is a tree as a store takes it.
-/

namespace ConfigGraph

namespace Value

variable {es : List (Text × Value)}

theorem ordered_ofEntries (h : ∀ e ∈ es, e.2.Ordered) : (ofEntries es).Ordered :=
  ordered_map_iff.2 ⟨Entries.sorted_ofList es, fun e he => h e (Entries.mem_of_mem_ofList he)⟩

mutual

theorem ordered_ofJson (j : Json) : (ofJson j).Ordered := by
  cases j with
  | integer n => exact each_scalar (scalar?_ofInt n)
  | array items => exact ordered_seq_iff.2 (ordered_ofJsonItems items)
  | object members => exact ordered_ofEntries (ordered_ofJsonMembers members)
  | _ => exact each_scalar rfl

theorem ordered_ofJsonItems (items : List Json) : ∀ v ∈ ofJsonItems items, v.Ordered := by
  cases items with
  | nil => exact fun v hv => absurd hv List.not_mem_nil
  | cons j rest =>
    exact List.forall_mem_cons.2 ⟨ordered_ofJson j, ordered_ofJsonItems rest⟩

theorem ordered_ofJsonMembers (members : List (Text × Json)) :
    ∀ e ∈ ofJsonMembers members, e.2.Ordered := by
  cases members with
  | nil => exact fun e he => absurd he List.not_mem_nil
  | cons m rest =>
    obtain ⟨name, j⟩ := m
    exact List.forall_mem_cons.2 ⟨ordered_ofJson j, ordered_ofJsonMembers rest⟩

end

mutual

theorem ordered_ofToml (t : Toml) : (ofToml t).Ordered := by
  cases t with
  | array items => exact ordered_seq_iff.2 (ordered_ofTomlItems items)
  | table entries => exact ordered_ofEntries (ordered_ofTomlEntries entries)
  | _ => exact each_scalar rfl

theorem ordered_ofTomlItems (items : List Toml) : ∀ v ∈ ofTomlItems items, v.Ordered := by
  cases items with
  | nil => exact fun v hv => absurd hv List.not_mem_nil
  | cons t rest =>
    exact List.forall_mem_cons.2 ⟨ordered_ofToml t, ordered_ofTomlItems rest⟩

theorem ordered_ofTomlEntries (entries : List (Text × Toml)) :
    ∀ e ∈ ofTomlEntries entries, e.2.Ordered := by
  cases entries with
  | nil => exact fun e he => absurd he List.not_mem_nil
  | cons e rest =>
    obtain ⟨name, t⟩ := e
    exact List.forall_mem_cons.2 ⟨ordered_ofToml t, ordered_ofTomlEntries rest⟩

end

end Value

theorem Serial.ordered_toValue {x : Serial} {v : Value} (h : x.toValue = .ok v) : v.Ordered := by
  unfold toValue at h
  cases hj : x.toJson with
  | error e =>
    rw [hj] at h
    cases h
  | ok j =>
    rw [hj] at h
    cases h
    exact Value.ordered_ofJson j

namespace Decoder

variable {bytes : List UInt8} {v : Value}

theorem ordered_toml (h : toml bytes = .ok v) : v.Ordered := by
  unfold toml at h
  split at h
  · cases h
  · rename_i s _
    cases ht : Toml.decode? s with
    | none =>
      rw [ht] at h
      cases h
    | some t =>
      rw [ht] at h
      cases h
      exact Value.ordered_ofToml t

theorem ordered_json (h : json bytes = .ok v) : v.Ordered := by
  unfold json at h
  cases hj : Text.ofUtf8? bytes >>= Json.decode? with
  | none =>
    rw [hj] at h
    cases h
  | some j =>
    rw [hj] at h
    cases h
    exact Value.ordered_ofJson j

end Decoder

namespace Registry

variable {ext : Text} {decoder : Decoder} {bytes : List UInt8} {v : Value}

theorem eq_of_mem_standard (h : (ext, decoder) ∈ standard.decoders) :
    decoder = .json ∨ decoder = .toml := by
  rcases Entries.mem_put h with he | he
  · exact .inl (Prod.mk.inj he).2
  · rcases Entries.mem_put he with he | he
    · exact .inr (Prod.mk.inj he).2
    · exact absurd he List.not_mem_nil

/-- In what the standard formats give the names of each map ascend. -/
theorem ordered_decode (h : standard.decode ext bytes = .ok v) : v.Ordered := by
  unfold decode at h
  dsimp only at h
  split at h
  · cases h
  · rename_i decoder hfind
    have hdecode : decoder bytes = .ok v := by
      cases hd : decoder bytes with
      | error e =>
        rw [hd] at h
        cases h
      | ok w =>
        rw [hd] at h
        cases h
        rfl
    rcases eq_of_mem_standard (Entries.mem_of_find? hfind) with rfl | rfl
    · exact Decoder.ordered_json hdecode
    · exact Decoder.ordered_toml hdecode

end Registry

end ConfigGraph
