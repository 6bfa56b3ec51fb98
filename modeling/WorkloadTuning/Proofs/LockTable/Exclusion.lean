import Mathlib.Data.List.Nodup
import WorkloadTuning.LockTable.Run
import WorkloadTuning.Proofs.Dict

/-! Runs of a lock table. In whatever order things happen, the requests for a key refer to the one
lock that is registered for it, so at most one of them holds it. Unless a request gives up waiting,
a key is registered just as long as there is a request for it. -/

namespace WorkloadTuning.LockTable

variable {s t : LockTable} {r p : LockRequest} {phase : LockPhase}

/-- What is true of a table at any time. -/
structure IsOrderly (s : LockTable) : Prop where
  serials : (s.requests.map LockRequest.serial).Nodup
  serial_lt : ∀ r ∈ s.requests, r.serial < s.fresh
  lock_lt : ∀ key lock, s.registry.get? key = some lock → lock < s.fresh
  /-- No two keys have one lock. -/
  keys : ∀ key other lock, s.registry.get? key = some lock → s.registry.get? other = some lock →
    key = other
  /-- No request refers to a lock that was taken off the registry. -/
  registered : ∀ r ∈ s.requests, s.registry.get? r.key = some r.lock
  exclusive : ∀ r ∈ s.requests, ∀ p ∈ s.requests, r.key = p.key → r.phase = .holding →
    p.phase = .holding → r = p

/-- Every key that is registered has a request. -/
def IsTidy (s : LockTable) : Prop :=
  ∀ key, (s.registry.get? key).isSome → key ∈ s.requests.map LockRequest.key

theorem isOrderly_empty : IsOrderly {} where
  serials := List.nodup_nil
  serial_lt := by simp
  lock_lt := fun key lock h => by cases h
  keys := fun key other lock h => by cases h
  registered := by simp
  exclusive := by simp

theorem isTidy_empty : IsTidy {} := fun key h => by cases h

namespace IsOrderly

theorem eq_of_serial (h : s.IsOrderly) (hr : r ∈ s.requests) (hp : p ∈ s.requests)
    (heq : r.serial = p.serial) : r = p :=
  List.inj_on_of_nodup_map h.serials hr hp heq

theorem lock_eq_iff (h : s.IsOrderly) (hr : r ∈ s.requests) (hp : p ∈ s.requests) :
    r.lock = p.lock ↔ r.key = p.key := by
  have hreg := h.registered r hr
  constructor
  · intro heq
    exact h.keys r.key p.key p.lock (heq ▸ hreg) (h.registered p hp)
  · intro heq
    exact Option.some.inj ((heq ▸ hreg).symm.trans (h.registered p hp))

end IsOrderly

/-! ### References -/

theorem countP_eq_one_iff {α : Type} [DecidableEq α] {l : List α} {a : α} {f : α → Bool}
    (hnodup : l.Nodup) (ha : a ∈ l) (hf : f a) : l.countP f = 1 ↔ ∀ b ∈ l, f b → b = a := by
  constructor
  · intro hcount b hb hfb
    rw [List.countP_eq_length_filter, List.length_eq_one_iff] at hcount
    obtain ⟨c, hc⟩ := hcount
    have hmem : ∀ x ∈ l, f x → x = c := fun x hx hfx =>
      List.mem_singleton.mp (hc ▸ List.mem_filter.mpr ⟨hx, hfx⟩)
    rw [hmem b hb hfb, hmem a ha hf]
  · intro h
    have hsame : l.countP f = l.count a := by
      refine List.countP_congr fun b hb => ?_
      rw [beq_iff_eq]
      exact ⟨h b hb, fun heq => heq ▸ hf⟩
    rw [hsame, List.count_eq_one_of_mem hnodup ha]

/-- The registry refers once to every lock that it knows. -/
theorem IsOrderly.countP_registry (h : s.IsOrderly) {key : String} {lock : Nat}
    (hreg : s.registry.get? key = some lock) :
    s.registry.entries.countP (fun e => e.2 == lock) = 1 := by
  have hnodup : s.registry.entries.Nodup := s.registry.keys_nodup.of_map
  refine (countP_eq_one_iff hnodup (Dict.mem_of_lookup hreg) (by simp)).mpr ?_
  rintro ⟨other, found⟩ hmem heq
  obtain rfl : found = lock := by simpa using heq
  have hother := Dict.lookup_of_mem s.registry.keys_nodup hmem
  rw [h.keys other key found hother hreg]

/-- The count of references tells whether other requests refer to the lock. -/
theorem IsOrderly.references_eq_two_iff (h : s.IsOrderly) (hr : r ∈ s.requests)
    (hphase : r.phase = .leaving) :
    s.references r.lock = 2 ↔ ∀ p ∈ s.requests, p.key = r.key → p = r := by
  have hone := countP_eq_one_iff (f := fun p => p.lock == r.lock) h.serials.of_map hr (by simp)
  have hsame : (∀ p ∈ s.requests, (p.lock == r.lock) = true → p = r) ↔
      ∀ p ∈ s.requests, p.key = r.key → p = r :=
    forall₂_congr fun p hp => by rw [beq_iff_eq, h.lock_eq_iff hp hr]
  have hpos : 0 < s.requests.countP fun p => p.lock == r.lock :=
    List.countP_pos_iff.mpr ⟨r, hr, by simp⟩
  rw [← hsame, ← hone, references, h.countP_registry (h.registered r hr)]
  constructor
  · omega
  · intro hcount
    have hqueue : (s.requests.countP fun p => p.lock == r.lock && p.phase != .leaving) = 0 := by
      refine List.countP_eq_zero.mpr fun p hp => ?_
      by_cases hlock : p.lock = r.lock
      · rw [hone.mp hcount p hp (by simpa using hlock)]
        simp [hphase]
      · simp [hlock]
    omega

/-! ### Steps -/

theorem map_setPhase {β : Type} (f : LockRequest → β) (hf : ∀ p phase, f { p with phase } = f p) :
    (s.setPhase r phase).requests.map f = s.requests.map f := by
  rw [setPhase, List.map_map]
  refine List.map_congr_left fun p _ => ?_
  rw [Function.comp]
  split
  · exact hf p phase
  · rfl

theorem IsOrderly.mem_setPhase (h : s.IsOrderly) (hr : r ∈ s.requests)
    (hp : p ∈ (s.setPhase r phase).requests) :
    p = { r with phase } ∨ p ∈ s.requests ∧ p.serial ≠ r.serial := by
  obtain ⟨q, hq, rfl⟩ := List.mem_map.mp hp
  split
  · next heq =>
    rw [h.eq_of_serial hq hr heq]
    exact .inl rfl
  · next hne => exact .inr ⟨hq, hne⟩

/-- A request may begin to hold a lock that nobody holds. -/
theorem IsOrderly.setPhase (h : s.IsOrderly) (hr : r ∈ s.requests)
    (hfree : phase = .holding → ∀ p ∈ s.requests, p.key = r.key → p.phase ≠ .holding) :
    (s.setPhase r phase).IsOrderly where
  serials := by
    rw [map_setPhase LockRequest.serial fun _ _ => rfl]
    exact h.serials
  serial_lt := by
    intro p hp
    rcases h.mem_setPhase hr hp with rfl | ⟨hp, -⟩
    · exact h.serial_lt r hr
    · exact h.serial_lt p hp
  lock_lt := h.lock_lt
  keys := h.keys
  registered := by
    intro p hp
    rcases h.mem_setPhase hr hp with rfl | ⟨hp, -⟩
    · exact h.registered r hr
    · exact h.registered p hp
  exclusive := by
    intro p hp q hq hkey hholds hother
    rcases h.mem_setPhase hr hp with rfl | ⟨hp, -⟩ <;>
      rcases h.mem_setPhase hr hq with rfl | ⟨hq, -⟩
    · rfl
    · exact absurd hother (hfree hholds q hq hkey.symm)
    · exact absurd hholds (hfree hother p hp hkey)
    · exact h.exclusive p hp q hq hkey hholds hother

theorem mem_remove : p ∈ (s.remove r).requests ↔ p ∈ s.requests ∧ p.serial ≠ r.serial := by
  rw [remove, List.mem_filter, bne_iff_ne]

theorem IsOrderly.remove (h : s.IsOrderly) : (s.remove r).IsOrderly where
  serials := h.serials.sublist (List.filter_sublist.map _)
  serial_lt := fun p hp => h.serial_lt p (mem_remove.mp hp).1
  lock_lt := h.lock_lt
  keys := h.keys
  registered := fun p hp => h.registered p (mem_remove.mp hp).1
  exclusive := fun p hp q hq => h.exclusive p (mem_remove.mp hp).1 q (mem_remove.mp hq).1

/-- A key without requests may be taken off the registry. -/
theorem IsOrderly.erase (h : s.IsOrderly) {key : String} (hkey : ∀ p ∈ s.requests, p.key ≠ key) :
    IsOrderly { s with registry := s.registry.erase key } := by
  have hkept : ∀ other lock, (s.registry.erase key).get? other = some lock →
      s.registry.get? other = some lock := by
    intro other lock hget
    rw [Dict.get?_erase] at hget
    split at hget
    · cases hget
    · exact hget
  exact
    { serials := h.serials
      serial_lt := h.serial_lt
      lock_lt := fun other lock hget => h.lock_lt other lock (hkept other lock hget)
      keys := fun other another lock hother hanother =>
        h.keys other another lock (hkept other lock hother) (hkept another lock hanother)
      registered := fun p hp => by
        rw [Dict.get?_erase, if_neg (hkey p hp)]
        exact h.registered p hp
      exclusive := h.exclusive }

theorem requests_leave : (s.leave r).requests = (s.remove r).requests := by
  rw [leave]
  split <;> rfl

theorem IsOrderly.leave (h : s.IsOrderly) (hr : r ∈ s.requests) (hphase : r.phase = .leaving) :
    (s.leave r).IsOrderly := by
  rw [LockTable.leave]
  split
  · next hcount =>
    refine h.remove.erase fun p hp hkey => ?_
    obtain ⟨hp, hne⟩ := mem_remove.mp hp
    exact hne (congrArg _ ((h.references_eq_two_iff hr hphase).mp hcount p hp hkey))
  · exact h.remove

theorem lockFor_of_get? {key : String} {lock : Nat} (h : s.registry.get? key = some lock) :
    s.lockFor key = lock := by
  rw [lockFor, h, Option.getD_some]

/-- A new request gets the lock that the key has, or one that no key has had. -/
theorem IsOrderly.request (h : s.IsOrderly) (owner key : String) :
    (s.request owner key).IsOrderly := by
  have hregistry : ∀ other, (s.request owner key).registry.get? other =
      if other = key then some (s.lockFor key) else s.registry.get? other :=
    fun other => Dict.get?_insert _ _ _ _
  have hcases : s.registry.get? key = some (s.lockFor key) ∨ s.lockFor key = s.fresh := by
    cases hget : s.registry.get? key with
    | none => exact .inr (by rw [lockFor, hget, Option.getD_none])
    | some lock => exact .inl (by rw [lockFor_of_get? hget])
  have hnew : ∀ p ∈ (s.request owner key).requests, p ∈ s.requests ∨
      p = { serial := s.fresh, owner, key, lock := s.lockFor key } := by
    intro p hp
    simpa using List.mem_append.mp hp
  have hother : ∀ other, other ≠ key → s.registry.get? other ≠ some (s.lockFor key) := by
    intro other hne hget
    rcases hcases with hold | hfresh
    · exact hne (h.keys other key _ hget hold)
    · exact Nat.lt_irrefl _ (hfresh ▸ h.lock_lt other _ hget)
  constructor
  case serials =>
    rw [LockTable.request, List.map_append, List.nodup_append]
    refine ⟨h.serials, List.nodup_singleton _, ?_⟩
    intro a ha b hb
    obtain ⟨p, hp, rfl⟩ := List.mem_map.mp ha
    rw [List.map_singleton, List.mem_singleton] at hb
    exact hb ▸ Nat.ne_of_lt (h.serial_lt p hp)
  case serial_lt =>
    intro p hp
    rcases hnew p hp with hp | rfl
    · exact Nat.lt_succ_of_lt (h.serial_lt p hp)
    · exact Nat.lt_succ_self _
  case lock_lt =>
    intro other lock hget
    rw [hregistry] at hget
    split at hget
    · obtain rfl := Option.some.inj hget
      rcases hcases with hold | hfresh
      · exact Nat.lt_succ_of_lt (h.lock_lt key _ hold)
      · exact hfresh ▸ Nat.lt_succ_self _
    · exact Nat.lt_succ_of_lt (h.lock_lt other lock hget)
  case keys =>
    intro other another lock hget hsame
    rw [hregistry] at hget hsame
    split at hget <;> split at hsame
    · next heq hsameKey => rw [heq, hsameKey]
    · next hne => exact absurd (hsame.trans hget.symm) (hother another hne)
    · next hne _ => exact absurd (hget.trans hsame.symm) (hother other hne)
    · exact h.keys other another lock hget hsame
  case registered =>
    intro p hp
    rw [hregistry]
    rcases hnew p hp with hp | rfl
    · split
      · next heq => rw [lockFor_of_get? (heq ▸ h.registered p hp)]
      · exact h.registered p hp
    · exact if_pos rfl
  case exclusive =>
    intro p hp q hq hkey hholds hholdsToo
    rcases hnew p hp with hp | rfl
    · rcases hnew q hq with hq | rfl
      · exact h.exclusive p hp q hq hkey hholds hholdsToo
      · cases hholdsToo
    · cases hholds

theorem IsOrderly.next (h : s.IsOrderly) {e : Event} (he : s.Enabled e) : (s.next e).IsOrderly := by
  cases e with
  | request owner key => exact h.request owner key
  | grant r =>
    obtain ⟨hr, -, hfree⟩ := he
    refine h.setPhase hr fun _ p hp hkey hholds => ?_
    have hnone : ∀ p ∈ s.requests, p.lock = r.lock → p.phase ≠ .holding := by
      simpa [isFree] using hfree
    exact hnone p hp ((h.lock_eq_iff hp hr).mpr hkey) hholds
  | cancel r => exact h.remove
  | unlock r => exact h.setPhase he.1 (by simp)
  | leave r => exact h.leave he.1 he.2

theorem IsTidy.setPhase (h : s.IsTidy) : (s.setPhase r phase).IsTidy := by
  intro key hkey
  rw [map_setPhase LockRequest.key fun _ _ => rfl]
  exact h key hkey

theorem IsTidy.next (h : s.IsTidy) (horder : s.IsOrderly) {e : Event} (he : s.Enabled e)
    (hcancel : ∀ r, e ≠ .cancel r) : (s.next e).IsTidy := by
  cases e with
  | request owner key =>
    intro other hother
    have hget : (s.request owner key).registry.get? other =
        if other = key then some (s.lockFor key) else s.registry.get? other :=
      Dict.get?_insert _ _ _ _
    rw [LockTable.next, hget] at hother
    rw [LockTable.next, LockTable.request, List.map_append, List.mem_append]
    split at hother
    · next heq => exact .inr (by simp [heq])
    · exact .inl (h other hother)
  | grant r => exact h.setPhase
  | unlock r => exact h.setPhase
  | cancel r => exact absurd rfl (hcancel r)
  | leave r =>
    obtain ⟨hr, hphase⟩ := he
    intro key hkey
    have hold : ∃ p ∈ s.requests, p.key = key ∧ p.serial ≠ r.serial := by
      by_cases hcount : s.references r.lock = 2
      · rw [LockTable.next, LockTable.leave, if_pos hcount, Dict.get?_erase] at hkey
        split at hkey
        · cases hkey
        · next hne =>
          obtain ⟨p, hp, rfl⟩ := List.mem_map.mp (h key hkey)
          refine ⟨p, hp, rfl, fun heq => hne ?_⟩
          rw [horder.eq_of_serial hp hr heq]
      · rw [LockTable.next, LockTable.leave, if_neg hcount] at hkey
        obtain ⟨p, hp, hpkey⟩ := List.mem_map.mp (h key hkey)
        by_cases hsame : p.serial = r.serial
        · -- the request that leaves is for this key; the count says that it is not alone
          obtain rfl := horder.eq_of_serial hp hr hsame
          rw [horder.references_eq_two_iff hp hphase] at hcount
          push Not at hcount
          obtain ⟨q, hq, hqkey, hne⟩ := hcount
          exact ⟨q, hq, hqkey.trans hpkey, fun heq => hne (horder.eq_of_serial hq hp heq)⟩
        · exact ⟨p, hp, hpkey, hsame⟩
    obtain ⟨p, hp, hpkey, hne⟩ := hold
    rw [LockTable.next, requests_leave]
    exact List.mem_map.mpr ⟨p, mem_remove.mpr ⟨hp, hne⟩, hpkey⟩

/-! ### Runs -/

theorem Run.isOrderly {events : List Event} (h : Run s events t) (horder : s.IsOrderly) :
    t.IsOrderly := by
  induction h with
  | refl => exact horder
  | step enabled _ ih => exact ih (horder.next enabled)

theorem Run.isTidy {events : List Event} (h : Run s events t) (horder : s.IsOrderly)
    (htidy : s.IsTidy) (hcancel : ∀ e ∈ events, ∀ r, e ≠ .cancel r) : t.IsTidy := by
  induction h with
  | refl => exact htidy
  | step enabled _ ih =>
    rw [List.forall_mem_cons] at hcancel
    exact ih (horder.next enabled) (htidy.next horder enabled hcancel.1) hcancel.2

theorem IsOrderly.countP_holding (h : s.IsOrderly) (key : String) :
    s.requests.countP (fun r => r.key == key && r.phase == .holding) ≤ 1 := by
  rcases Nat.eq_zero_or_pos
    (s.requests.countP fun r => r.key == key && r.phase == .holding) with hnone | hpos
  · omega
  · obtain ⟨r, hr, hholds⟩ := List.countP_pos_iff.mp hpos
    obtain ⟨hkey, hphase⟩ : r.key = key ∧ r.phase = .holding := by simpa using hholds
    refine Nat.le_of_eq ((countP_eq_one_iff (f := fun r => r.key == key && r.phase == .holding)
      h.serials.of_map hr hholds).mpr fun p hp hother => ?_)
    obtain ⟨hpkey, hpphase⟩ : p.key = key ∧ p.phase = .holding := by simpa using hother
    exact h.exclusive p hp r hr (hpkey.trans hkey.symm) hpphase hphase

/-- Locks exclude each other, also while one of their holders has unlocked and not yet left, and
without cancelled requests the registry holds just the keys that somebody has asked for. -/
theorem run_exclusive {events : List Event} (h : Run {} events t) :
    (∀ key, t.requests.countP (fun r => r.key == key && r.phase == .holding) ≤ 1) ∧
    (∀ r ∈ t.requests, t.registry.get? r.key = some r.lock) ∧
    ((∀ e ∈ events, ∀ r, e ≠ .cancel r) →
      ∀ key, (t.registry.get? key).isSome ↔ ∃ r ∈ t.requests, r.key = key) := by
  have horder := h.isOrderly isOrderly_empty
  refine ⟨horder.countP_holding, horder.registered, fun hcancel key => ⟨fun hkey => ?_, ?_⟩⟩
  · exact List.mem_map.mp (h.isTidy isOrderly_empty isTidy_empty hcancel key hkey)
  · rintro ⟨r, hr, rfl⟩
    rw [horder.registered r hr]
    rfl

/-- One owner unlocks while a second waits; a third asks before the first has left, and gets the
lock when the second has left as well. -/
def handOver : List Event :=
  let first : LockRequest := { serial := 0, owner := "a", key := "web", lock := 0 }
  let second : LockRequest := { serial := 1, owner := "b", key := "web", lock := 0 }
  let third : LockRequest := { serial := 2, owner := "c", key := "web", lock := 0 }
  [.request "a" "web", .grant first, .request "b" "web", .unlock { first with phase := .holding },
    .request "c" "web", .leave { first with phase := .leaving }, .grant second,
    .unlock { second with phase := .holding }, .leave { second with phase := .leaving },
    .grant third]

/-- The table after the events. -/
def handedOver : LockTable :=
  handOver.foldl next {}

theorem handOver_exclusive :
    Run {} handOver handedOver ∧ (∀ e ∈ handOver, ∀ r, e ≠ .cancel r) ∧
    handedOver.requests.countP (fun r => r.key == "web" && r.phase == .holding) = 1 ∧
    (∀ key, handedOver.requests.countP (fun r => r.key == key && r.phase == .holding) ≤ 1) ∧
    (∀ r ∈ handedOver.requests, handedOver.registry.get? r.key = some r.lock) ∧
    ∀ key, (handedOver.registry.get? key).isSome ↔ ∃ r ∈ handedOver.requests, r.key = key := by
  have hrun : Run {} handOver handedOver :=
    .step (by decide) <| .step (by decide) <| .step (by decide) <| .step (by decide) <|
      .step (by decide) <| .step (by decide) <| .step (by decide) <| .step (by decide) <|
      .step (by decide) <| .step (by decide) <| .refl _
  have hcancel : ∀ e ∈ handOver, ∀ r, e ≠ .cancel r := by
    simp [handOver]
  obtain ⟨hexclusive, hregistered, htidy⟩ := run_exclusive hrun
  exact ⟨hrun, hcancel, by decide, hexclusive, hregistered, htidy hcancel⟩

end WorkloadTuning.LockTable
