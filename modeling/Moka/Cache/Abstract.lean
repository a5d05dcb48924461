import Moka.Cache.Frame

/-!
# The cache refines a map of last writes

What the cache is for, stated without its machinery: a `get` returns the value last
written for the key, or nothing. The abstract model is the map from each key to the value
of its last write, with the inserts in flight: an `insert` writes its key when the map
stores the entry of its last closure call, a `remove` when `remove_entry` takes the key
out; every other step leaves the map alone. The cache may drop an entry at any step
(admission, eviction, expiry, invalidation, and the defects of `handle_upsert`), but it
never holds a value other than the last one written, so a `get` never returns a stale
value.

## Main results

- `insert_spec`: an insert binds the key to a new entry of the value, with both
  timestamps unset.
- **`getWithHash_after_insert`**: a `get` right after an `insert` returns the value
  inserted, whatever the clock, the TTL, the TTI, `valid_after` and the predicates.
- `step_refines`: each step keeps the cache's map within the abstract map, and its inserts
  in flight those of the abstract cache, stepped alike.
- **`get_returns_last_write`**: in every state a run from a new cache reaches, whatever a
  `get` returns is the value last written for its key.
-/

namespace Moka

variable {K V σ : Type} [DecidableEq K] (cfg : Config K V σ)

/-- The abstract cache: the value last written for each key, and the key and value of
each insert in flight, in the order the cache keeps them. -/
structure Writes (K V : Type) where
  map : K → Option V
  pending : List (K × V)

/-- The abstract cache after a step: an insert, or the closure call of an insert in flight
whose entry the map stores, writes the key; a remove unbinds it; nothing else changes the
map. -/
def lastWrite (w : Writes K V) : CacheAction K V → Writes K V
  | .insert k v => { w with map := Function.update w.map k (some v) }
  | .insertStart k v => { w with pending := w.pending ++ [(k, v)] }
  | .insertCall i true =>
    match w.pending[i]? with
    | some (k, v) => { w with map := Function.update w.map k (some v) }
    | none => w
  | .insertPick i => { w with pending := w.pending.eraseIdx i }
  | .remove k | .removeStart k => { w with map := Function.update w.map k none }
  | _ => w

/-- The abstract cache after a run from an empty one, as a map. -/
def lastWrites (as : List (CacheAction K V)) : K → Option V :=
  (as.foldl lastWrite ⟨fun _ => none, []⟩).map

omit [DecidableEq K] in
theorem map_eraseIdx {α β : Type} (f : α → β) :
    ∀ (l : List α) (i : Nat), (l.eraseIdx i).map f = (l.map f).eraseIdx i
  | [], _ => rfl
  | _ :: _, 0 => rfl
  | a :: l, i + 1 => congrArg (f a :: ·) (map_eraseIdx f l i)

omit [DecidableEq K] in
theorem map_set_of_getElem? {α β : Type} (f : α → β) {l : List α} {i : Nat} {a b : α}
    (h : l[i]? = some a) (hf : f b = f a) : (l.set i b).map f = l.map f := by
  ext j
  rw [List.getElem?_map, List.getElem?_map, List.getElem?_set]
  split_ifs with hij hlt
  · subst hij
    simp [h, hf]
  · subst hij
    simp [List.getElem?_eq_none (Nat.le_of_not_lt hlt)] at h
  · rfl

namespace Inner

/-- An insert binds the key to a new entry of the value whose timestamps are unset. -/
theorem insert_spec (s : Inner K V σ) (key : K) (value : V) :
    ∃ e s', s.insert cfg key value = some s' ∧ e.value = value ∧
      s'.cache = s.cache.insert key e ∧ s'.lastModified e = none ∧ s'.lastAccessed e = none := by
  unfold insert
  cases hl : s.cache.lookup key with
  | none =>
    refine ⟨⟨s.nextId, value, s.nextId⟩, _, rfl, rfl, rfl, ?_, ?_⟩ <;>
      simp [lastModified, lastAccessed, timestampOf, newEntry, setInfo]
  | some old =>
    refine ⟨⟨s.nextId, value, old.info⟩, _, rfl, rfl, rfl, ?_, ?_⟩ <;>
      simp [lastModified, lastAccessed, timestampOf, newEntryWith, setInfo, unsetQNodes, setQNodes]

/-- A `get` right after an `insert` returns the value inserted: the new entry's
timestamps are unset, so no expiry test and no predicate applies to it. -/
theorem getWithHash_after_insert (s : Inner K V σ) (key : K) (value : V) :
    ∃ s', s.insert cfg key value = some s' ∧
      ∀ hash now, (s'.getWithHash cfg key hash now).1 = some value := by
  obtain ⟨e, s', hins, hv, hc, hlm, hla⟩ := insert_spec cfg s key value
  refine ⟨s', hins, fun hash now => ?_⟩
  have hinv : isInvalidatedEntry cfg s' key e = false := by
    unfold isInvalidatedEntry
    split
    · split
      · simp [Invalidator.applyPredicates, hlm]
      · rfl
    · rfl
  simp [getWithHash, hc, AList.lookup_insert, hlm, hla, isExpiredEntryWo, isExpiredEntryAo,
    isExpiredEntry_none, hinv, hv]

/-- `remove_entry` unbinds the key and keeps every other binding. -/
theorem removeEntry_lookup (s : Inner K V σ) (key k : K) :
    (s.removeEntry key).2.cache.lookup k = if k = key then none else s.cache.lookup k := by
  unfold removeEntry
  cases hl : s.cache.lookup key with
  | none =>
    split_ifs with hk
    · subst hk
      exact hl
    · rfl
  | some e =>
    split_ifs with hk
    · subst hk
      simp [AList.lookup_erase]
    · simp [AList.lookup_erase_ne hk]

/-- A remove unbinds the key and keeps every other binding. -/
theorem remove_lookup (s : Inner K V σ) (key k : K) :
    (s.remove key).cache.lookup k = if k = key then none else s.cache.lookup k := by
  rw [← removeEntry_lookup]
  unfold remove
  split <;> rename_i heq <;> rw [heq]

omit [DecidableEq K] in
/-- A closure call returns an entry of the value inserted. -/
@[simp] theorem callClosure_value (key : K) (hash : Nat) (value : V) (st : Inner K V σ × InsertLocals K V)
    (c : Invocation V) : (callClosure key hash value st c).1.value = value := by
  cases c <;> rfl

end Inner

namespace Cache

omit [DecidableEq K] in
/-- A closure call of the insert at position `i` runs the abstract insert in flight there,
and keeps the inserts in flight, whatever locals it leaves and whether it stored. -/
theorem pending_insertCall {s : Cache K V σ} {p : List (K × V)} {i : Nat} {c : InsertCall K V}
    (hp : s.inserts.map (fun c => (c.key, c.value)) = p) (hc : s.inserts[i]? = some c) :
    p[i]? = some (c.key, c.value) ∧ ∀ l b,
      (s.inserts.set i { c with locals := l, stored := b }).map (fun c => (c.key, c.value)) = p :=
  ⟨by rw [← hp, List.getElem?_map, hc]; rfl,
    fun l b => (map_set_of_getElem? _ hc (b := { c with locals := l, stored := b }) rfl).trans hp⟩

/-- The refinement: every entry of the cache's map holds the value last written for its
key, and the inserts in flight are those of the abstract cache, with their keys and
values, in order. -/
structure Refines (s : Cache K V σ) (w : Writes K V) : Prop where
  lookup : ∀ k e, s.inner.cache.lookup k = some e → w.map k = some e.value
  pending : s.inserts.map (fun c => (c.key, c.value)) = w.pending

/-- A step that only removes keys from the map and leaves the inserts in flight keeps the
refinement. -/
theorem Refines.of_subMap {s s' : Cache K V σ} {w : Writes K V} (h : Refines s w)
    (hsub : ∀ k e, s'.inner.cache.lookup k = some e → s.inner.cache.lookup k = some e)
    (hins : s'.inserts = s.inserts) : Refines s' w :=
  ⟨fun k e he => h.lookup k e (hsub k e he), hins ▸ h.pending⟩

/-- A map that differs from the cache's only at `k`, where it holds nothing or an entry of
`v`, is within the abstract map with `k` written `v`. -/
theorem Refines.update {s : Cache K V σ} {w : Writes K V} (h : Refines s w) {k : K} {v : Option V}
    {c : AList (fun _ : K => ValueEntry V)}
    (hk : ∀ e, c.lookup k = some e → v = some e.value)
    (hother : ∀ k', k' ≠ k → c.lookup k' = s.inner.cache.lookup k') :
    ∀ k' e, c.lookup k' = some e → Function.update w.map k v k' = some e.value := by
  intro k' e he
  by_cases hk' : k' = k
  · subst hk'
    simpa using hk e he
  · rw [Function.update_noteq hk']
    exact h.lookup k' e ((hother k' hk').symm.trans he)

/-- Every step keeps the refinement, with the abstract cache stepped alike. -/
theorem step_refines {s s' : Cache K V σ} {w : Writes K V} (h : Refines s w)
    (a : CacheAction K V) (hs : step cfg s a = some s') : Refines s' (lastWrite w a) := by
  cases a with
  | insert k v =>
    obtain ⟨e, inner, hins, hv, hc, -, -⟩ := Inner.insert_spec cfg s.inner k v
    obtain ⟨inner', hins', rfl⟩ := step_insert cfg hs
    cases hins.symm.trans hins'
    refine ⟨h.update (fun e' he' => ?_) fun k' hk' => ?_, h.pending⟩
    · simp only [hc, AList.lookup_insert, Option.some.injEq] at he'
      rw [← he', hv]
    · rw [hc, AList.lookup_insert_ne hk']
  | insertStart k v =>
    cases hs
    exact ⟨h.lookup, by simp [lastWrite, h.pending]⟩
  | insertCall i commit =>
    obtain ⟨c, hc, -, rfl⟩ := step_insertCall cfg hs
    obtain ⟨infos, qNodes, nextId, hr⟩ := Inner.callClosure_frame c.key (cfg.hasher c.key) c.value
      s.inner c.locals (closureFor s.inner c.key)
    obtain ⟨hp, hpend⟩ := pending_insertCall h.pending hc
    cases commit with
    | false =>
      refine ⟨fun k e he => h.lookup k e ?_, hpend _ _⟩
      simpa [hr] using he
    | true =>
      simp only [lastWrite, hp]
      refine ⟨h.update (fun e he => ?_) fun k' hk' => ?_, hpend _ _⟩
      · simp only [if_true, AList.lookup_insert, Option.some.injEq] at he
        rw [← he, Inner.callClosure_value]
      · simp [AList.lookup_insert_ne hk', hr]
  | insertPick i =>
    obtain ⟨c, op, inner, -, -, hp, rfl⟩ := step_insertPick cfg hs
    obtain ⟨qNodes, rfl⟩ := Inner.pickWriteOp_frame hp
    exact ⟨h.lookup, by simp only [lastWrite, map_eraseIdx, h.pending]⟩
  | remove k =>
    cases hs
    refine ⟨h.update (fun e he => ?_) fun k' hk' => ?_, h.pending⟩
    · simp [Inner.remove_lookup] at he
    · simp [Inner.remove_lookup, hk']
  | removeStart k =>
    obtain ⟨o, inner, hr, rfl⟩ := step_removeStart cfg hs
    have hl := Inner.removeEntry_lookup s.inner k
    rw [hr] at hl
    refine ⟨h.update (fun e he => ?_) fun k' hk' => ?_, h.pending⟩
    · simp [hl] at he
    · simp [hl, hk']
  | send i =>
    obtain ⟨op, -, rfl⟩ := step_send cfg hs
    exact ⟨h.lookup, h.pending⟩
  | get k =>
    cases hs
    obtain ⟨ch, hg⟩ := Inner.getWithHash_frame cfg s.inner k (cfg.hasher k) s.now
    exact h.of_subMap (fun k' e he => by rwa [hg] at he) rfl
  | invalidateAll =>
    cases hs
    exact ⟨h.lookup, h.pending⟩
  | invalidateEntriesIf f =>
    cases hs
    refine h.of_subMap (fun k' e' he' => ?_) rfl
    unfold Inner.invalidateEntriesIf at he'
    split at he' <;> exact he'
  | sync =>
    obtain ⟨inner, task, pace, -, hsync, -, rfl⟩ := step_sync cfg hs
    cases task <;> exact h.of_subMap (Inner.sync_keeps cfg hsync).subMap rfl
  | syncStep =>
    rcases step_syncStep cfg hs with ⟨-, rfl⟩ | ⟨pc, inner, next, task, -, hc, -, rfl⟩
    · exact ⟨h.lookup, h.pending⟩
    · cases task <;> exact h.of_subMap (Inner.cycleStep_subMap cfg hc) rfl
  | scanApply =>
    obtain ⟨task, c, rest, -, -, -, rfl | rfl⟩ := step_scanApply cfg hs <;> exact ⟨h.lookup, h.pending⟩
  | scanInvalidate =>
    obtain ⟨task, c, rest, o, inner, -, -, hinv, rfl⟩ := step_scanInvalidate cfg hs
    exact h.of_subMap (Inner.removeKeyValueIf_keeps hinv).subMap rfl
  | taskExecute =>
    obtain ⟨task, -, -, rfl⟩ := step_taskExecute cfg hs
    exact ⟨h.lookup, h.pending⟩
  | taskStore =>
    obtain ⟨r, inv, -, -, rfl⟩ := step_taskStore cfg hs
    exact ⟨h.lookup, h.pending⟩
  | taskClear =>
    obtain ⟨inv, -, -, rfl⟩ := step_taskClear cfg hs
    exact ⟨h.lookup, h.pending⟩
  | tick d =>
    cases hs
    exact ⟨h.lookup, h.pending⟩

/-- A run keeps the refinement, with the abstract cache stepped along the same actions. -/
theorem run_refines :
    ∀ (as : List (CacheAction K V)) {s s' : Cache K V σ} {w : Writes K V},
    Refines s w → run cfg s as = some s' → Refines s' (as.foldl lastWrite w)
  | [], _, _, _, h, hrun => by cases hrun; exact h
  | a :: as, s, _, w, h, hrun => by
    simp only [run, Option.bind_eq_some] at hrun
    obtain ⟨s₁, h₁, hrest⟩ := hrun
    exact run_refines as (step_refines cfg h a h₁) hrest

/-- In every state a run from a new cache reaches, a `get` returns nothing or the value
last written for its key: the cache never serves a stale value. -/
theorem get_returns_last_write (sketch : σ) (as : List (CacheAction K V)) {s : Cache K V σ}
    (hrun : run cfg (init cfg sketch) as = some s) (key : K) (hash now : Nat) {value : V}
    (hget : (s.inner.getWithHash cfg key hash now).1 = some value) :
    lastWrites as key = some value := by
  have hinit : Refines (init cfg sketch) ⟨fun _ => none, []⟩ :=
    ⟨fun k e h => by simp [init, Inner.new] at h, rfl⟩
  have href := run_refines cfg as hinit hrun
  unfold Inner.getWithHash at hget
  split at hget
  · cases hget
  · rename_i e he
    split at hget
    · cases hget
    · cases hget
      exact href.lookup key e he

/-- Two keys written, synced, key 0 updated by an insert whose first closure call fails
its compare-and-swap, key 1 removed, and a sync. -/
def updateRemoveSync : List (CacheAction Nat Nat) :=
  [.insert 0 1, .insert 1 2, .sync, .insertStart 0 3, .insertCall 0 false, .insertCall 0 true,
    .insertPick 0, .send 0, .removeStart 1, .send 0, .sync]

/-- After `updateRemoveSync`, a `get` of key 0 returns the update's value, which is the
last one written. -/
theorem get_returns_last_write_after_update :
    let c := valueWeighedConfig
    let s := (run c (init c ()) updateRemoveSync).getD (init c ())
    (run c (init c ()) updateRemoveSync = some s ∧ (s.inner.getWithHash c 0 0 s.now).1 = some 3) ∧
      lastWrites updateRemoveSync 0 = some 3 :=
  have hrun := (Option.getD_of_ne_none (Option.isSome_iff_ne_none.1
    (show (run valueWeighedConfig (init valueWeighedConfig ()) updateRemoveSync).isSome = true by decide))
    (init valueWeighedConfig ())).symm
  have hget : (((run valueWeighedConfig (init valueWeighedConfig ()) updateRemoveSync).getD
      (init valueWeighedConfig ())).inner.getWithHash valueWeighedConfig 0 0
      ((run valueWeighedConfig (init valueWeighedConfig ()) updateRemoveSync).getD
        (init valueWeighedConfig ())).now).1 = some 3 := by decide
  ⟨⟨hrun, hget⟩, get_returns_last_write valueWeighedConfig () _ hrun 0 0 _ hget⟩

end Cache

end Moka
