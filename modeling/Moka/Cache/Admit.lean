import Mathlib.Algebra.BigOperators.Group.List
import Moka.Cache.Inner

/-!
# Size-aware admission

`Inner::admit` (base_cache.rs:845–904) decides whether a candidate that does not fit may
take the place of entries at the LRU end of the probation deque. It walks the deque from
the front, collecting as victims the nodes whose key is still in the hash map and skipping
the others (at most five in a row), until the victims weigh as much as the candidate or
are more popular than it. The candidate is admitted when the victims weigh enough and are
strictly less popular.

The victims' weight and popularity are kept in `EntrySizeAndFrequency`
(base_cache.rs:377–398), a `u64` and a `u32` summed with `+`, which wraps in a release
build.

## Main results

- `admitLoop_visits_prefix`: the walk visits a prefix of the deque; the victims are the
  visited nodes whose key is in the map, the skipped nodes the others.
- **`admit_partitions_prefix`**: so the two lists split a prefix of the deque and
  repeat no node.
- **`admit_admitted_bounds`**: when admitted, the victims' weights summed over the natural
  numbers reach the candidate's, their frequencies sum below the candidate's, and if
  their weights sum below `2 ^ 64`, the victims without the last one weigh less than the
  candidate.
- **`admit_takes_victim_too_many`**: a weight that wraps `victims.weight` makes admission
  take a victim that is not needed.
-/

namespace Moka

/-- `EntrySizeAndFrequency` (base_cache.rs:377–381): a `u64` weight and a `u32`
frequency. -/
structure EntrySizeAndFrequency where
  weight : Nat
  freq : Nat
  deriving DecidableEq, Repr

/-- The result of `admit`, `AdmissionResult` (base_cache.rs:425–429). -/
inductive AdmissionResult (α : Type)
  | admitted (victimNodes skippedNodes : List α)
  | rejected (skippedNodes : List α)
  deriving DecidableEq, Repr

namespace EntrySizeAndFrequency

/-- `EntrySizeAndFrequency::new` (base_cache.rs:384–389). -/
def new (policyWeight : Nat) : EntrySizeAndFrequency := ⟨policyWeight, 0⟩

/-- `add_policy_weight` (base_cache.rs:391–393): `+=` on `u64`. -/
def addPolicyWeight (esf : EntrySizeAndFrequency) (weight : Nat) : EntrySizeAndFrequency :=
  { esf with weight := wrappingAdd esf.weight weight }

/-- `add_frequency` (base_cache.rs:395–397): `+=` on `u32`. -/
def addFrequency (esf : EntrySizeAndFrequency) (freq : Nat) : EntrySizeAndFrequency :=
  { esf with freq := (esf.freq + freq) % 2 ^ 32 }

end EntrySizeAndFrequency

/-- `MAX_CONSECUTIVE_RETRIES` (base_cache.rs:852). -/
def maxConsecutiveRetries : Nat := 5

section Admit

variable {K V σ : Type} [DecidableEq K] (cfg : Config K V σ)
  (cache : AList (fun _ : K => ValueEntry V)) (fs : σ)

/-- Whether a probation node's key is in the hash map. -/
def isPresent (n : DeqNode (KeyHashDate K)) : Bool := (cache.lookup n.element.key).isSome

/-- The weight of a victim: the weigher on its key and current map value. -/
def victimWeight (n : DeqNode (KeyHashDate K)) : Nat :=
  match cache.lookup n.element.key with
  | some e => cfg.weigh n.element.key e.value
  | none => 0

/-- The sketch frequency of a node's hash. -/
def victimFreq (n : DeqNode (KeyHashDate K)) : Nat := cfg.sketch.frequency fs n.element.hash

/-- The loop of `admit` (base_cache.rs:863–889) over the nodes from `next_victim` on,
with its locals `victims`, `victim_nodes`, `skipped_nodes` and `retries`. -/
def admitLoop (candidate : EntrySizeAndFrequency) :
    List (DeqNode (KeyHashDate K)) → EntrySizeAndFrequency → List (DeqNode (KeyHashDate K)) →
      List (DeqNode (KeyHashDate K)) → Nat →
      EntrySizeAndFrequency × List (DeqNode (KeyHashDate K)) × List (DeqNode (KeyHashDate K))
  | nodes, victims, victimNodes, skippedNodes, retries =>
    if victims.weight < candidate.weight then
      if candidate.freq < victims.freq then (victims, victimNodes, skippedNodes)
      else
        match nodes with
        | [] => (victims, victimNodes, skippedNodes)
        | victim :: rest =>
          match cache.lookup victim.element.key with
          | some vicEntry =>
            admitLoop candidate rest
              ((victims.addPolicyWeight (cfg.weigh victim.element.key vicEntry.value)).addFrequency
                (cfg.sketch.frequency fs victim.element.hash))
              (victimNodes ++ [victim]) skippedNodes 0
          | none =>
            if retries + 1 > maxConsecutiveRetries then
              (victims, victimNodes, skippedNodes ++ [victim])
            else admitLoop candidate rest victims victimNodes (skippedNodes ++ [victim]) (retries + 1)
    else (victims, victimNodes, skippedNodes)

/-- `Inner::admit` (base_cache.rs:845–904); `admit` is a Lean tactic, hence the longer name. -/
def admitCandidate (candidate : EntrySizeAndFrequency) (probation : Deque (KeyHashDate K)) :
    AdmissionResult (DeqNode (KeyHashDate K)) :=
  let (victims, victimNodes, skippedNodes) :=
    admitLoop cfg cache fs candidate probation.nodes ⟨0, 0⟩ [] [] 0
  if victims.weight ≥ candidate.weight ∧ candidate.freq > victims.freq then
    .admitted victimNodes skippedNodes
  else .rejected skippedNodes

/-! ## The walk -/

theorem admitLoop_stop (candidate : EntrySizeAndFrequency) (nodes) (victims : EntrySizeAndFrequency)
    (victimNodes skippedNodes) (retries : Nat) (h : ¬ (victims.weight < candidate.weight ∧
      candidate.freq ≥ victims.freq ∧ nodes ≠ [])) :
    admitLoop cfg cache fs candidate nodes victims victimNodes skippedNodes retries =
      (victims, victimNodes, skippedNodes) := by
  unfold admitLoop
  split
  · split
    · rfl
    · obtain _ | ⟨_, _⟩ := nodes
      · rfl
      · exact absurd ⟨‹_›, Nat.le_of_not_lt ‹_›, List.cons_ne_nil _ _⟩ h
  · rfl

/-- What one visit of `admitLoop` does: with a node ahead and the guard true, a present
node becomes a victim, an absent one is skipped. -/
theorem admitLoop_cons (candidate : EntrySizeAndFrequency) (victim) (rest)
    (victims : EntrySizeAndFrequency) (victimNodes skippedNodes) (retries : Nat)
    (hw : victims.weight < candidate.weight) (hf : candidate.freq ≥ victims.freq) :
    admitLoop cfg cache fs candidate (victim :: rest) victims victimNodes skippedNodes retries =
      match cache.lookup victim.element.key with
      | some vicEntry =>
        admitLoop cfg cache fs candidate rest
          ((victims.addPolicyWeight (cfg.weigh victim.element.key vicEntry.value)).addFrequency
            (cfg.sketch.frequency fs victim.element.hash))
          (victimNodes ++ [victim]) skippedNodes 0
      | none =>
        if retries + 1 > maxConsecutiveRetries then
          (victims, victimNodes, skippedNodes ++ [victim])
        else admitLoop cfg cache fs candidate rest victims victimNodes
          (skippedNodes ++ [victim]) (retries + 1) := by
  rw [admitLoop, if_pos hw, if_neg (Nat.not_lt.mpr hf)]

/-- The walk visits the first `n` nodes, for some `n`: it appends the present ones to the
victims and the absent ones to the skipped nodes. -/
theorem admitLoop_visits_prefix (candidate : EntrySizeAndFrequency) :
    ∀ (nodes : List (DeqNode (KeyHashDate K))) victims victimNodes skippedNodes retries,
    ∃ n, (admitLoop cfg cache fs candidate nodes victims victimNodes skippedNodes retries).2 =
      (victimNodes ++ (nodes.take n).filter (isPresent cache),
        skippedNodes ++ (nodes.take n).filter fun v => !isPresent cache v)
  | [], victims, victimNodes, skippedNodes, retries => ⟨0, by
      rw [admitLoop_stop cfg cache fs candidate _ _ _ _ _ (by simp)]; simp⟩
  | victim :: rest, victims, victimNodes, skippedNodes, retries => by
    by_cases hg : victims.weight < candidate.weight ∧ candidate.freq ≥ victims.freq
    · rw [admitLoop_cons cfg cache fs candidate _ _ _ _ _ _ hg.1 hg.2]
      cases hv : cache.lookup victim.element.key with
      | some vicEntry =>
        have hp : isPresent cache victim = true := by simp [isPresent, hv]
        obtain ⟨n, hn⟩ := admitLoop_visits_prefix candidate rest
          ((victims.addPolicyWeight (cfg.weigh victim.element.key vicEntry.value)).addFrequency
            (cfg.sketch.frequency fs victim.element.hash)) (victimNodes ++ [victim]) skippedNodes 0
        exact ⟨n + 1, by simp [hn, hp]⟩
      | none =>
        have hp : isPresent cache victim = false := by simp [isPresent, hv]
        dsimp only
        split
        · exact ⟨1, by simp [hp]⟩
        · obtain ⟨n, hn⟩ := admitLoop_visits_prefix candidate rest victims victimNodes
            (skippedNodes ++ [victim]) (retries + 1)
          exact ⟨n + 1, by simp [hn, hp]⟩
    · refine ⟨0, ?_⟩
      rw [admitLoop_stop cfg cache fs candidate _ _ _ _ _ (fun h => hg ⟨h.1, h.2.1⟩)]
      simp

/-! ## The accumulators -/

/-- The invariant of the walk: `victims` holds the victims' weight sum modulo `2 ^ 64`
and their frequency sum, and the victims before the last one weighed, modulo `2 ^ 64`,
less than the candidate. -/
structure AdmitInv (candidate victims : EntrySizeAndFrequency)
    (victimNodes : List (DeqNode (KeyHashDate K))) : Prop where
  weight_eq : victims.weight = (victimNodes.map (victimWeight cfg cache)).sum % 2 ^ 64
  freq_eq : victims.freq = (victimNodes.map (victimFreq cfg fs)).sum
  dropLast_lt : victimNodes ≠ [] →
    (victimNodes.dropLast.map (victimWeight cfg cache)).sum % 2 ^ 64 < candidate.weight

theorem admitInv_init (candidate : EntrySizeAndFrequency) :
    AdmitInv cfg cache fs candidate ⟨0, 0⟩ [] :=
  ⟨rfl, rfl, fun h => absurd rfl h⟩

/-- Taking a victim keeps the invariant, as long as the candidate's frequency leaves room
for one more sketch frequency in a `u32`. -/
theorem AdmitInv.take {candidate victims : EntrySizeAndFrequency} {victimNodes victim}
    {vicEntry : ValueEntry V} (inv : AdmitInv cfg cache fs candidate victims victimNodes)
    (hc : candidate.freq + 256 ≤ 2 ^ 32) (hw : victims.weight < candidate.weight)
    (hf : candidate.freq ≥ victims.freq) (hv : cache.lookup victim.element.key = some vicEntry) :
    AdmitInv cfg cache fs candidate
      ((victims.addPolicyWeight (cfg.weigh victim.element.key vicEntry.value)).addFrequency
        (cfg.sketch.frequency fs victim.element.hash)) (victimNodes ++ [victim]) := by
  have hlt := cfg.sketch.frequency_lt fs victim.element.hash
  refine ⟨?_, ?_, fun _ => ?_⟩
  · simp [EntrySizeAndFrequency.addFrequency, EntrySizeAndFrequency.addPolicyWeight,
      wrappingAdd, victimWeight, hv, inv.weight_eq]
  · simp only [EntrySizeAndFrequency.addFrequency, EntrySizeAndFrequency.addPolicyWeight,
      List.map_append, List.sum_append,
      List.map_singleton, List.sum_singleton, victimFreq, ← inv.freq_eq]
    exact Nat.mod_eq_of_lt (by omega)
  · rwa [List.dropLast_concat, ← inv.weight_eq]

/-- The walk keeps the invariant. -/
theorem AdmitInv.loop {candidate : EntrySizeAndFrequency} (hc : candidate.freq + 256 ≤ 2 ^ 32) :
    ∀ (nodes : List (DeqNode (KeyHashDate K))) {victims victimNodes} skippedNodes retries,
    AdmitInv cfg cache fs candidate victims victimNodes →
    let r := admitLoop cfg cache fs candidate nodes victims victimNodes skippedNodes retries
    AdmitInv cfg cache fs candidate r.1 r.2.1
  | [], _, _, _, _, inv => by
    rwa [admitLoop_stop cfg cache fs candidate _ _ _ _ _ (by simp)]
  | victim :: rest, victims, victimNodes, skippedNodes, retries, inv => by
    by_cases hg : victims.weight < candidate.weight ∧ candidate.freq ≥ victims.freq
    · rw [admitLoop_cons cfg cache fs candidate _ _ _ _ _ _ hg.1 hg.2]
      cases hv : cache.lookup victim.element.key with
      | some vicEntry => exact AdmitInv.loop hc rest _ _ (inv.take cfg cache fs hc hg.1 hg.2 hv)
      | none =>
        dsimp only
        split
        · exact inv
        · exact AdmitInv.loop hc rest _ _ inv
    · rwa [admitLoop_stop cfg cache fs candidate _ _ _ _ _ (fun h => hg ⟨h.1, h.2.1⟩)]

/-! ## What admission returns -/

/-- The victims an admission result names, none for a rejection. -/
def AdmissionResult.victimNodes {α : Type} : AdmissionResult α → List α
  | .admitted victimNodes _ => victimNodes
  | .rejected _ => []

/-- The skipped nodes an admission result names. -/
def AdmissionResult.skippedNodes {α : Type} : AdmissionResult α → List α
  | .admitted _ skippedNodes => skippedNodes
  | .rejected skippedNodes => skippedNodes

theorem admit_eq (candidate : EntrySizeAndFrequency) (probation : Deque (KeyHashDate K)) :
    admitCandidate cfg cache fs candidate probation =
      let r := admitLoop cfg cache fs candidate probation.nodes ⟨0, 0⟩ [] [] 0
      if r.1.weight ≥ candidate.weight ∧ candidate.freq > r.1.freq then .admitted r.2.1 r.2.2
      else .rejected r.2.2 := rfl

/-- Admission walks a prefix of the probation deque: the victims it returns are the
visited nodes whose key is in the map, the skipped nodes the visited ones whose key is
not, and no node is named twice. -/
theorem admit_partitions_prefix (candidate : EntrySizeAndFrequency)
    (probation : Deque (KeyHashDate K)) : ∃ n,
    (admitCandidate cfg cache fs candidate probation).skippedNodes =
      (probation.nodes.take n).filter (fun v => !isPresent cache v) ∧
    (∀ vs sk, admitCandidate cfg cache fs candidate probation = .admitted vs sk →
      vs = (probation.nodes.take n).filter (isPresent cache)) ∧
    (((admitCandidate cfg cache fs candidate probation).victimNodes ++
      (admitCandidate cfg cache fs candidate probation).skippedNodes).map DeqNode.id).Nodup := by
  obtain ⟨n, hn⟩ := admitLoop_visits_prefix cfg cache fs candidate probation.nodes ⟨0, 0⟩ [] [] 0
  have hnd : ((probation.nodes.take n).map DeqNode.id).Nodup :=
    probation.nodup.sublist ((List.take_sublist _ _).map _)
  refine ⟨n, ?_⟩
  rw [admit_eq]
  generalize admitLoop cfg cache fs candidate probation.nodes ⟨0, 0⟩ [] [] 0 = r at hn ⊢
  obtain ⟨_, _, _⟩ := r
  simp only [List.nil_append, Prod.mk.injEq] at hn
  obtain ⟨rfl, rfl⟩ := hn
  dsimp only
  split
  · refine ⟨rfl, fun vs sk h => ?_, ?_⟩
    · cases h
      rfl
    · exact ((List.filter_append_perm _ _).map _).nodup_iff.mpr hnd
  · exact ⟨rfl, fun _ _ h => (nomatch h), hnd.sublist ((List.filter_sublist _).map _)⟩

/-- When admission admits, the victims' weights, summed over the natural numbers, reach the
candidate's, and their frequencies sum below the candidate's; if the victims' weights sum
below `2 ^ 64`, no more victims are taken than needed. The candidate's frequency must leave
room in a `u32` for one sketch frequency, as every candidate `handle_upsert` builds does. -/
theorem admit_admitted_bounds (candidate : EntrySizeAndFrequency)
    (probation : Deque (KeyHashDate K)) (hc : candidate.freq + 256 ≤ 2 ^ 32)
    {vs sk : List (DeqNode (KeyHashDate K))}
    (h : admitCandidate cfg cache fs candidate probation = .admitted vs sk) :
    candidate.weight ≤ (vs.map (victimWeight cfg cache)).sum ∧
    (vs.map (victimFreq cfg fs)).sum < candidate.freq ∧
    (vs ≠ [] → (vs.map (victimWeight cfg cache)).sum < 2 ^ 64 →
      (vs.dropLast.map (victimWeight cfg cache)).sum < candidate.weight) := by
  have inv := AdmitInv.loop cfg cache fs hc probation.nodes [] 0 (admitInv_init cfg cache fs candidate)
  rw [admit_eq] at h
  dsimp only at h inv
  split at h
  · rename_i hadm
    cases h
    refine ⟨?_, inv.freq_eq ▸ hadm.2, fun hne hbound => ?_⟩
    · exact le_trans (inv.weight_eq ▸ hadm.1) (Nat.mod_le _ _)
    · have hsplit := congrArg (fun l => (l.map (victimWeight cfg cache)).sum)
        (List.dropLast_concat_getLast hne)
      simp only [List.map_append, List.sum_append, List.map_singleton, List.sum_singleton] at hsplit
      have hlt := inv.dropLast_lt hne
      rwa [Nat.mod_eq_of_lt (by omega)] at hlt
  · cases h

end Admit

/-! ## A weight that wraps -/

/-- A weigher that weighs a number by itself. -/
def valueWeigher : Weighter Nat Nat := ⟨fun _ v => v % 2 ^ 64, fun _ _ => Nat.mod_lt _ (by decide)⟩

/-- A sketch that has counted nothing. -/
def emptySketch : FrequencySketch Unit := ⟨fun s _ => s, fun _ _ => 0, fun _ _ => Nat.succ_pos _⟩

/-- A cache bounded at 10 that weighs values by themselves. -/
def valueWeighedConfig : Config Nat Nat Unit :=
  ⟨some 10, some valueWeigher, none, none, false, id, emptySketch⟩

/-- Three keys whose values weigh 1, 2 ^ 64 - 1 and 5. -/
def wrappingCache : AList (fun _ : Nat => ValueEntry Nat) :=
  (((∅ : AList (fun _ : Nat => ValueEntry Nat)).insert 2 ⟨2, 5, 2⟩).insert 1
    ⟨1, 2 ^ 64 - 1, 1⟩).insert 0 ⟨0, 1, 0⟩

/-- The three keys in probation, in key order. -/
def wrappingProbation : Deque (KeyHashDate Nat) :=
  ⟨[⟨0, .mainProbation, ⟨0, 0, 0⟩⟩, ⟨1, .mainProbation, ⟨1, 1, 1⟩⟩,
    ⟨2, .mainProbation, ⟨2, 2, 2⟩⟩], none, by decide⟩

/-- Admission at the wrapping input meets the bounds: the victims weigh `2 ^ 64 + 4` over
the natural numbers and are never seen, and the minimality does not apply since their
weights do not sum below `2 ^ 64`. -/
theorem admit_admitted_bounds_at_wrap :
    (1 + 256 ≤ 2 ^ 32 ∧ admitCandidate valueWeighedConfig wrappingCache () ⟨2, 1⟩ wrappingProbation =
      .admitted wrappingProbation.nodes []) ∧
    2 ≤ (wrappingProbation.nodes.map (victimWeight valueWeighedConfig wrappingCache)).sum ∧
    (wrappingProbation.nodes.map (victimFreq valueWeighedConfig ())).sum < 1 ∧
    (wrappingProbation.nodes ≠ [] →
      (wrappingProbation.nodes.map (victimWeight valueWeighedConfig wrappingCache)).sum < 2 ^ 64 →
      (wrappingProbation.nodes.dropLast.map (victimWeight valueWeighedConfig wrappingCache)).sum < 2) :=
  have h : admitCandidate valueWeighedConfig wrappingCache () ⟨2, 1⟩ wrappingProbation =
      .admitted wrappingProbation.nodes [] := by decide
  ⟨⟨by decide, h⟩, admit_admitted_bounds valueWeighedConfig wrappingCache () ⟨2, 1⟩ wrappingProbation
    (by decide) h⟩

/-- A candidate of weight 2 seen once takes all three probation entries: the second
victim's weight wraps the `u64` sum to 0, so the walk goes on to the third, although the
first two weigh `2 ^ 64` over the natural numbers. -/
theorem admit_takes_victim_too_many :
    admitCandidate valueWeighedConfig wrappingCache () ⟨2, 1⟩ wrappingProbation =
      .admitted wrappingProbation.nodes [] ∧
    2 ≤ (wrappingProbation.nodes.dropLast.map (victimWeight valueWeighedConfig wrappingCache)).sum := by
  decide

end Moka
