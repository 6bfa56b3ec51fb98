import WorkloadTuning.Json.Reader
import WorkloadTuning.Proofs.Json.Fields

/-! Documents that were read. A key that repeats in the text keeps one place, so no object of such a
document holds a key twice. -/

namespace WorkloadTuning.Json

theorem hasDistinctKeys_empty : (object []).HasDistinctKeys :=
  ⟨List.nodup_nil, trivial⟩

theorem HasDistinctKeys.set {members : Members} {value : Json} (h : (object members).HasDistinctKeys)
    (hvalue : value.HasDistinctKeys) (key : String) :
    (object (Members.set key value members)).HasDistinctKeys := by
  obtain ⟨hkeys, hvalues⟩ := hasDistinctKeys_object.mp h
  refine hasDistinctKeys_object.mpr ⟨Members.keys_set_nodup hkeys key value, fun e he => ?_⟩
  rcases Members.mem_set he with rfl | he
  · exact hvalue
  · exact hvalues e he

/-- What is read within this depth of calls holds no key twice, if what was read before does not. -/
structure ReadsDistinct (fuel : Nat) : Prop where
  value : ∀ {cs json rest}, readValue fuel cs = some (json, rest) → json.HasDistinctKeys
  items : ∀ {cs items rest}, readItems fuel cs = some (items, rest) →
    ∀ item ∈ items, item.HasDistinctKeys
  members : ∀ {earlier members cs rest}, (object earlier).HasDistinctKeys →
    readMembers fuel earlier cs = some (members, rest) → (object members).HasDistinctKeys

section Step
variable {fuel : Nat} {cs rest : List Char}

theorem ReadsDistinct.value_succ (h : ReadsDistinct fuel) {json : Json}
    (hread : readValue (fuel + 1) cs = some (json, rest)) : json.HasDistinctKeys := by
  rw [readValue] at hread
  split at hread
  · obtain ⟨rfl, -⟩ := Prod.mk.inj (Option.some.inj hread)
    trivial
  · obtain ⟨rfl, -⟩ := Prod.mk.inj (Option.some.inj hread)
    trivial
  · obtain ⟨rfl, -⟩ := Prod.mk.inj (Option.some.inj hread)
    trivial
  · obtain ⟨read, -, heq⟩ := Option.map_eq_some_iff.mp hread
    obtain ⟨rfl, -⟩ := Prod.mk.inj heq
    trivial
  · split at hread
    · obtain ⟨rfl, -⟩ := Prod.mk.inj (Option.some.inj hread)
      trivial
    · obtain ⟨read, hitems, heq⟩ := Option.map_eq_some_iff.mp hread
      obtain ⟨rfl, -⟩ := Prod.mk.inj heq
      exact hasDistinctKeys_array.mpr (h.items hitems)
  · split at hread
    · obtain ⟨rfl, -⟩ := Prod.mk.inj (Option.some.inj hread)
      exact hasDistinctKeys_empty
    · obtain ⟨read, hmembers, heq⟩ := Option.map_eq_some_iff.mp hread
      obtain ⟨rfl, -⟩ := Prod.mk.inj heq
      exact h.members hasDistinctKeys_empty hmembers
  · obtain ⟨read, -, heq⟩ := Option.map_eq_some_iff.mp hread
    obtain ⟨rfl, -⟩ := Prod.mk.inj heq
    trivial

theorem ReadsDistinct.items_succ (h : ReadsDistinct fuel) {items : List Json}
    (hread : readItems (fuel + 1) cs = some (items, rest)) :
    ∀ item ∈ items, item.HasDistinctKeys := by
  rw [readItems] at hread
  obtain ⟨⟨first, later⟩, hfirst, hread⟩ := Option.bind_eq_some_iff.mp hread
  have hvalue := h.value hfirst
  dsimp only at hread
  split at hread
  · obtain ⟨rfl, -⟩ := Prod.mk.inj (Option.some.inj hread)
    simpa using hvalue
  · obtain ⟨⟨others, after⟩, hothers, hread⟩ := Option.bind_eq_some_iff.mp hread
    obtain ⟨rfl, -⟩ := Prod.mk.inj (Option.some.inj hread)
    exact List.forall_mem_cons.mpr ⟨hvalue, h.items hothers⟩
  · cases hread

theorem ReadsDistinct.members_succ (h : ReadsDistinct fuel) {earlier members : Members}
    (hearlier : (object earlier).HasDistinctKeys)
    (hread : readMembers (fuel + 1) earlier cs = some (members, rest)) :
    (object members).HasDistinctKeys := by
  rw [readMembers] at hread
  split at hread
  · obtain ⟨⟨key, afterKey⟩, -, hread⟩ := Option.bind_eq_some_iff.mp hread
    dsimp only at hread
    split at hread
    · obtain ⟨⟨value, afterValue⟩, hvalue, hread⟩ := Option.bind_eq_some_iff.mp hread
      have hset := hearlier.set (h.value hvalue) (String.ofList key)
      dsimp only at hread
      split at hread
      · obtain ⟨rfl, -⟩ := Prod.mk.inj (Option.some.inj hread)
        exact hset
      · exact h.members hset hread
      · cases hread
    · cases hread
  · cases hread

end Step

theorem readsDistinct (fuel : Nat) : ReadsDistinct fuel := by
  induction fuel with
  | zero =>
    exact ⟨fun h => by simp [readValue] at h, fun h => by simp [readItems] at h,
      fun _ h => by simp [readMembers] at h⟩
  | succ fuel ih => exact ⟨ih.value_succ, ih.items_succ, ih.members_succ⟩

/-- No object of a document that was read holds a key twice. -/
theorem hasDistinctKeys_of_parse? {text : String} {json : Json} (h : parse? text = some json) :
    json.HasDistinctKeys := by
  obtain ⟨⟨read, rest⟩, hread, h⟩ := Option.bind_eq_some_iff.mp h
  dsimp only at h
  split at h
  · obtain rfl := Option.some.inj h
    exact (readsDistinct _).value hread
  · cases h

end WorkloadTuning.Json
