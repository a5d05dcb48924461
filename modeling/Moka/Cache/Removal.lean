import Moka.Cache.Frame

/-!
# What may remove a key

The cycle removes keys from the map in two places: `handle_upsert` (the candidate and
its victims) and the sweepers of `evict`. The sweepers check what they remove against the
map itself, not against the node that led them to the key: a sweeper removes only if the
entry the key holds now is expired (base_cache.rs:1014–1021). This module proves that the
check does its job.

A sweep writes no timestamp and not `valid_after`. `stamps` is that part of the state,
and `RemovesOnly test` says that a pass kept it and the channels, only removed keys, and
removed each only from an entry that passes `test`.

## Main results

- `removeExpired_removesOnly`: the sweep loop removes a key only from an entry its expiry
  test finds expired.
- **`evict_removes_only_expired`**: a key leaves the map in `evict` only if the entry it
  held had expired at `now`, by its last write under the TTL or by its last read under
  the TTI.
-/

namespace Moka

namespace Inner

variable {K V σ : Type}

/-- What the expiry tests read of the state: `valid_after` and each cell's timestamps. -/
def stamps (s : Inner K V σ) : Nat × (Nat → Nat × Nat) :=
  (s.validAfter, fun i => ((s.infos i).lastAccessed, (s.infos i).lastModified))

section Stamps

variable {s s' : Inner K V σ}

theorem validAfter_of_stamps (h : stamps s' = stamps s) : s'.validAfter = s.validAfter :=
  congrArg Prod.fst h

theorem lastAccessed_of_stamps (h : stamps s' = stamps s) (e : ValueEntry V) :
    s'.lastAccessed e = s.lastAccessed e :=
  congrArg (fun st : Nat × (Nat → Nat × Nat) => timestampOf (st.2 e.info).1) h

theorem lastModified_of_stamps (h : stamps s' = stamps s) (e : ValueEntry V) :
    s'.lastModified e = s.lastModified e :=
  congrArg (fun st : Nat × (Nat → Nat × Nat) => timestampOf (st.2 e.info).2) h

end Stamps

/-! ## The functions the passes call keep the timestamps -/

/-- A write to a cell that keeps both of its timestamps keeps `stamps`. -/
theorem stamps_setInfo (s : Inner K V σ) (i : Nat) (f : EntryInfo → EntryInfo)
    (hf : ∀ x, (f x).lastAccessed = x.lastAccessed ∧ (f x).lastModified = x.lastModified) :
    stamps (s.setInfo i f) = stamps s := by
  simp only [stamps, setInfo, Prod.mk.injEq, true_and]
  funext j
  rcases eq_or_ne j i with rfl | hj
  · simp [hf]
  · simp [Function.update_noteq hj]

@[simp] theorem stamps_setIsAdmitted (s : Inner K V σ) (e : ValueEntry V) (b : Bool) :
    stamps (s.setIsAdmitted e b) = stamps s :=
  stamps_setInfo s _ _ fun _ => ⟨rfl, rfl⟩

@[simp] theorem stamps_setQNodes (s : Inner K V σ) (e : ValueEntry V) (f : DeqNodes → DeqNodes) :
    stamps (s.setQNodes e f) = stamps s := rfl

@[simp] theorem stamps_weightedSize (s : Inner K V σ) (w : Nat) :
    stamps { s with weightedSize := w } = stamps s := rfl

@[simp] theorem stamps_writeOrder (s : Inner K V σ) (d : Deque (KeyDate K)) :
    stamps { s with writeOrder := d } = stamps s := rfl

@[simp] theorem stamps_derefDropped (s : Inner K V σ) : stamps s.derefDropped = stamps s := rfl

@[simp] theorem stamps_setAoDeque (s : Inner K V σ) (r : CacheRegion) (d : Deque (KeyHashDate K)) :
    stamps (s.setAoDeque r d) = stamps s := by
  cases r <;> rfl

@[simp] theorem stamps_moveToBackAo (s : Inner K V σ) (e : ValueEntry V) :
    stamps (s.moveToBackAo e) = stamps s := by
  unfold moveToBackAo
  split <;> (try split) <;> simp

@[simp] theorem stamps_moveToBackAoInDeque (s : Inner K V σ) (r : CacheRegion) (e : ValueEntry V) :
    stamps (s.moveToBackAoInDeque r e) = stamps s := by
  unfold moveToBackAoInDeque
  split <;> (try split) <;> simp

@[simp] theorem stamps_moveToBackWo (s : Inner K V σ) (e : ValueEntry V) :
    stamps (s.moveToBackWo e) = stamps s := by
  unfold moveToBackWo
  split <;> (try split) <;> rfl

@[simp] theorem stamps_unlinkAo (s : Inner K V σ) (e : ValueEntry V) :
    stamps (s.unlinkAo e) = stamps s := by
  unfold unlinkAo
  split <;> (try split) <;> simp

@[simp] theorem stamps_unlinkAoFromDeque (s : Inner K V σ) (r : CacheRegion) (e : ValueEntry V) :
    stamps (s.unlinkAoFromDeque r e) = stamps s := by
  unfold unlinkAoFromDeque
  split <;> (try split) <;> simp

@[simp] theorem stamps_unlinkWo (s : Inner K V σ) (e : ValueEntry V) :
    stamps (s.unlinkWo e) = stamps s := by
  unfold unlinkWo
  split <;> (try split) <;> simp

variable (cfg : Config K V σ)

@[simp] theorem stamps_handleRemove (s : Inner K V σ) (key : K) (e : ValueEntry V) :
    stamps (handleRemove cfg s key e) = stamps s := by
  unfold handleRemove handleRemoveWith unsetQNodes
  split <;> simp

@[simp] theorem stamps_handleRemoveWithDeques (r : CacheRegion) (s : Inner K V σ) (key : K)
    (e : ValueEntry V) : stamps (handleRemoveWithDeques cfg r s key e) = stamps s := by
  unfold handleRemoveWithDeques handleRemoveWith unsetQNodes
  split <;> simp

/-! ## Passes that remove only what a test allows -/

variable [DecidableEq K]

/-- A pass that removes only what `test` allows: the map only lost keys, each from an
entry `test` holds of, and the channels and timestamps are as they were. -/
structure RemovesOnly (test : K → ValueEntry V → Prop) (s s' : Inner K V σ) : Prop where
  keeps : Keeps s s'
  stamps_eq : stamps s' = stamps s
  removed : ∀ k e, s.cache.lookup k = some e → s'.cache.lookup k = none → test k e

namespace RemovesOnly

variable {test test' : K → ValueEntry V → Prop} {s₁ s₂ s₃ : Inner K V σ}

theorem refl (s : Inner K V σ) : RemovesOnly test s s :=
  ⟨.refl s, rfl, fun _ _ h h' => nomatch h.symm.trans h'⟩

/-- A key the second pass removed was bound to the same entry before the first, since
the first only removes keys. -/
theorem trans (h₁ : RemovesOnly test s₁ s₂) (h₂ : RemovesOnly test s₂ s₃) :
    RemovesOnly test s₁ s₃ where
  keeps := h₁.keeps.trans h₂.keeps
  stamps_eq := h₂.stamps_eq.trans h₁.stamps_eq
  removed k e he hgone := by
    cases h : s₂.cache.lookup k with
    | none => exact h₁.removed k e he h
    | some e₂ =>
      obtain rfl : e₂ = e := Option.some.inj ((h₁.keeps.subMap k e₂ h).symm.trans he)
      exact h₂.removed k e₂ h hgone

theorem mono (h : RemovesOnly test s₁ s₂) (ht : ∀ k e, test k e → test' k e) :
    RemovesOnly test' s₁ s₂ :=
  ⟨h.keeps, h.stamps_eq, fun k e he hgone => ht k e (h.removed k e he hgone)⟩

/-- A step that touches neither the map, the channels nor the timestamps removes
nothing. -/
theorem of_frame (hv : view s₂ = view s₁) (hs : stamps s₂ = stamps s₁) : RemovesOnly test s₁ s₂ :=
  ⟨.of_view hv, hs, fun k e he hgone => by
    simp only [view, Prod.mk.injEq] at hv
    rw [hv.1, he] at hgone
    cases hgone⟩

/-- Erasing a key removes the entry it holds. -/
theorem erase {s : Inner K V σ} {key : K} {e : ValueEntry V} (hk : s.cache.lookup key = some e)
    (ht : test key e) : RemovesOnly test s { s with cache := s.cache.erase key } :=
  ⟨.erase s key, rfl, fun k e' he' hgone => by
    by_cases hkk : k = key
    · subst hkk
      obtain rfl : e' = e := Option.some.inj (he'.symm.trans hk)
      exact ht
    · dsimp only at hgone
      rw [AList.lookup_erase_ne hkk, he'] at hgone
      cases hgone⟩

end RemovesOnly

/-! ## The sweepers -/

section Sweep

variable {α : Type} (deq : Inner K V σ → Deque α) (setDeq : Inner K V σ → Deque α → Inner K V σ)
  (nodeKey : α → K) (nodeTs : Inner K V σ → DeqNode α → Option Nat)
  (entryTs : Inner K V σ → ValueEntry V → Option Nat) (isExpired : Option Nat → Bool)
  (remove : Inner K V σ → K → ValueEntry V → Inner K V σ)
  (moveUpdated : Inner K V σ → ValueEntry V → Inner K V σ)

/-- One iteration of the sweep removes a key only from an entry that its test finds
expired: the front node only leads it to the key, and it tests the entry the key holds.
The handlers it calls touch neither the map nor the timestamps. -/
theorem removeExpiredStep_removesOnly
    (hset : ∀ s d, view (setDeq s d) = view s ∧ stamps (setDeq s d) = stamps s)
    (hremove : ∀ s k e, view (remove s k e) = view s ∧ stamps (remove s k e) = stamps s)
    (hmove : ∀ s e, view (moveUpdated s e) = view s ∧ stamps (moveUpdated s e) = stamps s)
    {s s' : Inner K V σ}
    (h : removeExpiredStep deq setDeq nodeKey nodeTs entryTs isExpired remove moveUpdated s = some s') :
    RemovesOnly (fun _ e => isExpired (entryTs s e) = true) s s' := by
  unfold removeExpiredStep at h
  split at h
  · cases h
  · split at h
    · cases h
    · dsimp only at h
      split at h
      · rename_i entry hl
        split at h
        · cases h
          exact (RemovesOnly.erase hl ‹_›).trans (.of_frame (hremove _ _ _).1 (hremove _ _ _).2)
        · split at h
          · cases h
            exact .of_frame (hmove _ _).1 (hmove _ _).2
          · cases h
      · cases h
        exact .of_frame (hset _ _).1 (hset _ _).2

/-- The sweep loop removes a key only from an entry that its test finds expired, the
timestamp it reads being one of `stamps`, which the loop keeps. -/
theorem removeExpired_removesOnly (s₀ : Inner K V σ)
    (hts : ∀ s : Inner K V σ, stamps s = stamps s₀ → entryTs s = entryTs s₀)
    (hset : ∀ s d, view (setDeq s d) = view s ∧ stamps (setDeq s d) = stamps s)
    (hremove : ∀ s k e, view (remove s k e) = view s ∧ stamps (remove s k e) = stamps s)
    (hmove : ∀ s e, view (moveUpdated s e) = view s ∧ stamps (moveUpdated s e) = stamps s) :
    ∀ (n : Nat) (s : Inner K V σ), stamps s = stamps s₀ →
    RemovesOnly (fun _ e => isExpired (entryTs s₀ e) = true) s
      (removeExpired deq setDeq nodeKey nodeTs entryTs isExpired remove moveUpdated n s)
  | 0, s, _ => .refl s
  | n + 1, s, hs => by
    unfold removeExpired
    split
    · rename_i s' hstep
      have h₁ := removeExpiredStep_removesOnly deq setDeq nodeKey nodeTs entryTs isExpired remove
        moveUpdated hset hremove hmove hstep
      rw [hts s hs] at h₁
      exact h₁.trans (removeExpired_removesOnly s₀ hts hset hremove hmove n s' (h₁.stamps_eq.trans hs))
    · exact .refl s

end Sweep

/-- `remove_expired_ao` removes only entries idle past the TTI, or older than
`valid_after`, read at the state `s₀` whose timestamps it keeps. -/
theorem removeExpiredAo_removesOnly (r : CacheRegion) (batchSize now : Nat) (s₀ s : Inner K V σ)
    (hs : stamps s = stamps s₀) :
    RemovesOnly (fun _ e => isExpiredEntryAo cfg.timeToIdle s₀.validAfter (s₀.lastAccessed e) now = true)
      s (removeExpiredAo cfg r batchSize now s) := by
  unfold removeExpiredAo
  refine RemovesOnly.mono (removeExpired_removesOnly (fun s => s.aoDeque r) (fun s d => s.setAoDeque r d)
    KeyHashDate.key _ (fun s e => s.lastAccessed e) _ (handleRemoveWithDeques cfg r)
    (fun s e => (s.moveToBackAoInDeque r e).moveToBackWo e) s₀
    (fun _ h => funext (lastAccessed_of_stamps h)) (fun _ _ => ⟨by simp, by simp⟩)
    (fun _ _ _ => ⟨by simp, by simp⟩) (fun _ _ => ⟨by simp, by simp⟩) batchSize s hs) fun _ e h => ?_
  rwa [validAfter_of_stamps hs] at h

/-- `remove_expired_wo` removes only entries written past the TTL, or older than
`valid_after`, read at the state `s₀` whose timestamps it keeps. -/
theorem removeExpiredWo_removesOnly (batchSize now : Nat) (s₀ s : Inner K V σ)
    (hs : stamps s = stamps s₀) :
    RemovesOnly (fun _ e => isExpiredEntryWo cfg.timeToLive s₀.validAfter (s₀.lastModified e) now = true)
      s (removeExpiredWo cfg batchSize now s) := by
  unfold removeExpiredWo
  refine RemovesOnly.mono (removeExpired_removesOnly (fun s => s.writeOrder)
    (fun s d => { s with writeOrder := d }) KeyDate.key _ (fun s e => s.lastModified e) _
    (handleRemove cfg) (fun s e => (s.moveToBackAo e).moveToBackWo e) s₀
    (fun _ h => funext (lastModified_of_stamps h)) (fun _ _ => ⟨rfl, rfl⟩)
    (fun _ _ _ => ⟨by simp, by simp⟩) (fun _ _ => ⟨by simp, by simp⟩) batchSize s hs) fun _ e h => ?_
  rwa [validAfter_of_stamps hs] at h

/-- What `evict` may remove: an entry expired at `now` by the TTL or by the TTI. -/
theorem evict_removesOnly (s : Inner K V σ) (batchSize now : Nat) :
    RemovesOnly (fun _ e => isExpiredEntryWo cfg.timeToLive s.validAfter (s.lastModified e) now = true ∨
        isExpiredEntryAo cfg.timeToIdle s.validAfter (s.lastAccessed e) now = true)
      s (evict cfg s batchSize now) := by
  have hwo : RemovesOnly (fun _ e => isExpiredEntryWo cfg.timeToLive s.validAfter (s.lastModified e) now = true ∨
        isExpiredEntryAo cfg.timeToIdle s.validAfter (s.lastAccessed e) now = true) s
      (if cfg.isWriteOrderQueueEnabled then removeExpiredWo cfg batchSize now s else s) := by
    split
    · exact (removeExpiredWo_removesOnly cfg batchSize now s s rfl).mono fun _ _ => .inl
    · exact .refl s
  have hao : ∀ r s₁, stamps s₁ = stamps s → RemovesOnly (fun _ e =>
      isExpiredEntryWo cfg.timeToLive s.validAfter (s.lastModified e) now = true ∨
        isExpiredEntryAo cfg.timeToIdle s.validAfter (s.lastAccessed e) now = true) s₁
      (removeExpiredAo cfg r batchSize now s₁) :=
    fun r s₁ h => (removeExpiredAo_removesOnly cfg r batchSize now s s₁ h).mono fun _ _ => .inr
  unfold evict
  dsimp only
  generalize (if cfg.isWriteOrderQueueEnabled then removeExpiredWo cfg batchSize now s else s) = s₁ at hwo
  split
  · have h₂ := hao .window s₁ hwo.stamps_eq
    have h₃ := hao .mainProbation _ (h₂.stamps_eq.trans hwo.stamps_eq)
    have h₄ := hao .mainProtected _ (h₃.stamps_eq.trans (h₂.stamps_eq.trans hwo.stamps_eq))
    exact hwo.trans (h₂.trans (h₃.trans h₄))
  · exact hwo

/-- `evict` removes a key only if the entry it held had expired at `now`: written before
the TTL ran out, or last read before the TTI ran out, or stamped before `valid_after`. An
entry updated or read since its node was queued stays. -/
theorem evict_removes_only_expired (s : Inner K V σ) (batchSize now : Nat) {k : K}
    {e : ValueEntry V} (hk : s.cache.lookup k = some e)
    (hgone : (evict cfg s batchSize now).cache.lookup k = none) :
    isExpiredEntryWo cfg.timeToLive s.validAfter (s.lastModified e) now = true ∨
      isExpiredEntryAo cfg.timeToIdle s.validAfter (s.lastAccessed e) now = true :=
  (evict_removesOnly cfg s batchSize now).removed k e hk hgone

/-- A cache with a TTL of 5 ticks. -/
def ttlConfig : Config Nat Nat Unit := ⟨none, none, some 5, none, false, id, emptySketch⟩

/-- Key 0, admitted and written at tick 0, with its node in the write-order deque. -/
def writtenAtZero : Inner Nat Nat Unit :=
  { Inner.new ttlConfig () with
    cache := (∅ : AList (fun _ : Nat => ValueEntry Nat)).insert 0 ⟨0, 1, 0⟩
    infos := fun _ => ⟨true, 0, 0⟩
    qNodes := fun _ => ⟨none, some 0⟩
    nextId := 1
    writeOrder := ⟨[⟨0, .writeOrder, ⟨0, 0⟩⟩], none, by decide⟩ }

/-- At tick 10 the entry written at tick 0 has outlived its TTL, and `evict` removes it. -/
theorem evict_removes_entry_past_ttl :
    (writtenAtZero.cache.lookup 0 = some ⟨0, 1, 0⟩ ∧
      (evict ttlConfig writtenAtZero evictionBatchSize 10).cache.lookup 0 = none) ∧
    (isExpiredEntryWo ttlConfig.timeToLive writtenAtZero.validAfter
        (writtenAtZero.lastModified ⟨0, 1, 0⟩) 10 = true ∨
      isExpiredEntryAo ttlConfig.timeToIdle writtenAtZero.validAfter
        (writtenAtZero.lastAccessed ⟨0, 1, 0⟩) 10 = true) :=
  have hk : writtenAtZero.cache.lookup 0 = some ⟨0, 1, 0⟩ := by decide
  have hgone : (evict ttlConfig writtenAtZero evictionBatchSize 10).cache.lookup 0 = none := by
    decide
  ⟨⟨hk, hgone⟩, evict_removes_only_expired ttlConfig writtenAtZero evictionBatchSize 10 hk hgone⟩

end Inner

end Moka
