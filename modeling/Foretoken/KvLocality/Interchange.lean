import Foretoken.KvLocality.FlatHoldings
import Foretoken.KvLocality.Soundness
import Foretoken.KvLocality.TreeHoldings

/-!
The two indexes are interchangeable: both simulate the holdings, as long as the events are such
that a cache can report them, and a query reports the best match of the holdings.
-/

namespace Foretoken.KvLocality

open Holdings PositionalHash KvLocalityIndexes LateParent RadixTreeIndex RadixTree

/-! ### The abstract index -/

/-- An index on plain holdings. -/
noncomputable def holdingsMachine (ttl : ℕ) :
    Machine (KvEventSourceId → Holdings) IndexCall Unit where
  init _ := ∅
  step holdings call :=
    (match call with
      | .apply source event now =>
        fun x => if x = source then (holdings source).apply event now else holdings x
      | .clearSource source => fun x => if x = source then ∅ else holdings x
      | .clearEventSource id => fun x => if x.eventSourceId = id then ∅ else holdings x
      | .touchSource source now =>
        fun x => if x = source then (holdings source).touch now else holdings x
      | .query _ _ now => fun x => (holdings x).prune ttl now, ())

/-- The call is one that a cache can give rise to. -/
def AdmitsCall (S : Set KvStoredBlock) (holdings : KvEventSourceId → Holdings) : IndexCall → Prop
  | .apply source event now => (holdings source).Admits S now event
  | _ => True

/-- The facts of a source stand for holdings. -/
def Facts.Represents : Facts → Holdings → Prop
  | .positionalHash entries, F => PositionalHash.Represents entries F
  | .radixTree trees, F => TreesRepresent trees F

section Facts

variable {fa : Facts} {F : Holdings} {S : Set KvStoredBlock} {now : ℕ}

lemma Facts.represents_empty (im : KvLocalityIndexResolvedImplementation) :
    (Facts.empty im).Represents ∅ := by
  cases im with
  | positionalHash => exact represents_nil
  | radixTree =>
    intro p
    have hnone : part (∅ : Holdings) p.placement p.groupIdx = ∅ :=
      Set.eq_empty_of_forall_notMem fun f hf => hf.1
    rw [hnone]
    exact represents_default

lemma Facts.Represents.coherent (h : fa.Represents F) : fa.Coherent := by
  cases fa with
  | positionalHash => trivial
  | radixTree => exact fun p => (h p).coherent

lemma Facts.Represents.apply (hS : Genuine S) (hsound : F.Sound S) (h : fa.Represents F)
    {e : KvDeltaEvent} (hadm : F.Admits S now e) :
    (fa.apply e now).Represents (F.apply e now) := by
  cases fa with
  | positionalHash => exact Represents.applyEntries hS hsound h hadm
  | radixTree => exact TreesRepresent.apply hS hsound h hadm

lemma Facts.Represents.touch (h : fa.Represents F) :
    (fa.touch now).Represents (F.touch now) := by
  cases fa with
  | positionalHash => exact Represents.touchEntries h
  | radixTree => exact TreesRepresent.touch h

lemma Facts.Represents.prune (hS : Genuine S) (hsound : F.Sound S) (h : fa.Represents F)
    (ttl now : ℕ) : (fa.prune ttl now).Represents (F.prune ttl now) := by
  cases fa with
  | positionalHash => exact Represents.pruneEntries hS hsound h ttl
  | radixTree => exact TreesRepresent.prune hS hsound h ttl

end Facts

/-! ### Block sizes -/

/-- The partitions of a source that a query of one group can match. -/
def KvLocalityIndexes.partitions (index : KvLocalityIndexes) (source : KvEventSourceId)
    (query : KvPrefixQuery) : List KvPartition :=
  match index with
  | .positionalHash index => matchingPartitions (index.entries source) query
  | .radixTree index =>
    (((index.treesBySource.lookup source).getD ∅).toList.filter fun field =>
      field.1.groupIdx = query.groupIdx).flatMap fun field =>
        RadixTree.matchingPartitions field.2 query

lemma KvLocalityIndexes.blockSize_eq {index : KvLocalityIndexes} {source : KvEventSourceId}
    {query : KvPrefixQuery} : index.blockSize source query =
    match orderedSet ((index.partitions source query).map (·.hashBlockSize)) with
    | [size] => some size
    | _ => none := by
  cases index with
  | positionalHash index =>
    rw [blockSize, partitions, PositionalHashIndex.blockSize, PositionalHashIndex.entries]
    cases index.entriesBySource.lookup source with
    | none | some => rfl
  | radixTree index =>
    rw [blockSize, partitions, RadixTreeIndex.blockSize]
    cases index.treesBySource.lookup source with
    | none | some => rfl

/-! ### Both implementations refine it -/

/-- The index stands for the holdings of each source, and these are sound. -/
structure Refines (S : Set KvStoredBlock) (ttl : ℕ) (index : KvLocalityIndexes)
    (holdings : KvEventSourceId → Holdings) : Prop where
  ttl : index.ttl = ttl
  source : ∀ x, (index.facts x).Represents (holdings x) ∧ (holdings x).Sound S

section Refines

variable {S : Set KvStoredBlock} {ttl : ℕ} {index : KvLocalityIndexes}
  {holdings : KvEventSourceId → Holdings} {key : KeyedDigest}
  {im : KvLocalityIndexResolvedImplementation}

lemma Refines.coherent (h : Refines S ttl index holdings) : index.Coherent :=
  fun x => (h.source x).1.coherent

/-- **Every call that is admitted.** -/
lemma Refines.next (hS : Genuine S) (h : Refines S ttl index holdings) {call : IndexCall}
    (hadm : AdmitsCall S holdings call) :
    Refines S ttl ((indexMachine im ttl key).next index call)
      ((holdingsMachine ttl).next holdings call) := by
  refine ⟨ttl_next.trans h.ttl, fun x => ?_⟩
  rw [Machine.next, Machine.next, indexMachine, holdingsMachine]
  cases call with
  | apply source =>
    dsimp only
    rw [facts_apply]
    split_ifs
    · obtain ⟨hrep, hsound⟩ := h.source source
      exact ⟨hrep.apply hS hsound hadm, hsound.apply hS hadm⟩
    · exact h.source x
  | clearSource =>
    dsimp only
    rw [facts_clearSource]
    split_ifs
    · exact ⟨Facts.represents_empty _, sound_empty⟩
    · exact h.source x
  | clearEventSource =>
    dsimp only
    rw [facts_clearEventSource]
    split_ifs
    · exact ⟨Facts.represents_empty _, sound_empty⟩
    · exact h.source x
  | touchSource source now =>
    dsimp only
    rw [facts_touchSource]
    split_ifs
    · obtain ⟨hrep, hsound⟩ := h.source source
      exact ⟨hrep.touch, hsound.touch now⟩
    · exact h.source x
  | query source query now =>
    rw [facts_query source x h.coherent, h.ttl]
    obtain ⟨hrep, hsound⟩ := h.source x
    exact ⟨hrep.prune hS hsound ttl now, hsound.cut _⟩

/-- **Both implementations simulate the abstract index.** -/
theorem refines_run (hS : Genuine S) {calls : List IndexCall}
    (hcalls : (holdingsMachine ttl).Along (AdmitsCall S) (holdingsMachine ttl).init calls) :
    Refines S ttl ((indexMachine im ttl key).after calls)
      ((holdingsMachine ttl).after calls) := by
  refine Machine.simulates (fun _ _ _ h hadm => h.next hS hadm) ⟨?_, fun x => ?_⟩ hcalls
  · cases im with
    | positionalHash | radixTree => rfl
  · rw [indexMachine, facts_new]
    exact ⟨Facts.represents_empty im, sound_empty⟩

/-! ### What can be observed -/

lemma RadixTreeIndex.query_snd (index : RadixTreeIndex) (a : KvEventSourceId)
    (q : KvPrefixQuery) (key : KeyedDigest) (now : ℕ) :
    (index.query a q key now).2 =
      matching (((index.prune now).treesBySource.lookup a).getD ∅) q key := by
  rw [query]
  cases (index.prune now).treesBySource.lookup a with
  | none | some => rfl

/-- **The reply to a query** is the best match of each placement. -/
lemma Refines.reports (hS : Genuine S) (h : Refines S ttl index holdings) (a : KvEventSourceId)
    {q : KvPrefixQuery} (hsingle : q.matchAllGroups = false) (now : ℕ) :
    ((holdings a).prune ttl now).Reports q key (index.query a q key now).2 := by
  obtain ⟨hrep, hsound⟩ := h.source a
  have hprun := hrep.prune hS hsound ttl now
  cases index with
  | positionalHash index =>
    have hreply : (query (.positionalHash index) a q key now).2 =
        (index.query a q key now).2 := rfl
    obtain rfl : index.ttl = ttl := h.ttl
    rw [hreply, index.query_snd]
    exact hprun.mem_iff.reports hsingle
  | radixTree index =>
    have hreply : (query (.radixTree index) a q key now).2 =
        (index.query a q key now).2 := rfl
    obtain rfl : index.ttl = ttl := h.ttl
    rw [hreply, index.query_snd]
    refine TableRepresents.reports hS (hsound.cut _) (fun p => ?_) hsingle
    have htree := index.tree_prune a p now (h.coherent a p)
    rw [tree] at htree
    rw [htree]
    exact hprun p

/-- The matching partitions depend on the holdings only. -/
lemma Refines.mem_partitions (h : Refines S ttl index holdings) (a : KvEventSourceId)
    {qu : KvPrefixQuery} (hsingle : qu.matchAllGroups = false) {P : KvPartition} :
    P ∈ index.partitions a qu ↔
      qu.selects P = true ∧ ∃ q, ∃ b ∈ (holdings a).blocksAt q, b.partition = P := by
  have hrep := (h.source a).1
  cases index with
  | positionalHash => exact Lists.mem_matchingPartitions hrep.mem_iff
  | radixTree index =>
    have htable : TableRepresents ((index.treesBySource.lookup a).getD ∅)
        (holdings a) := hrep
    exact htable.mem_partitions hsingle

end Refines

namespace InOrder

/-- A prompt of three blocks of one token. -/
def prompt : Prompt := ⟨partition, none, [1, 2, 3]⟩

/-- The blocks of the prompt. -/
def chain : List KvStoredBlock := prompt.chain lastBytes

/-- The blocks of the prompt are stored, and the last one is removed. -/
def calls : List IndexCall :=
  [.apply source (.blockStored chain place.placement) 0,
    .apply source (.blockRemoved ((chain.drop 2).map (·.blockHash))
      place.placement place.groupIdx) 1]

lemma mem_promptBlocks {b : KvStoredBlock} :
    b ∈ promptBlocks lastBytes {prompt} ↔ b ∈ chain := by
  constructor
  · rintro ⟨_, rfl, hb⟩
    exact hb
  · exact fun hb => ⟨prompt, rfl, hb⟩

lemma unambiguous : Unambiguous (promptBlocks lastBytes {prompt}) := by
  have hlist : ∀ b ∈ chain, ∀ b' ∈ chain, b.blockHash = b'.blockHash → b = b' := by
    decide +kernel
  intro b hb b' hb'
  exact hlist b (mem_promptBlocks.mp hb) b' (mem_promptBlocks.mp hb')

lemma admitted :
    (holdingsMachine 300).Along (AdmitsCall (promptBlocks lastBytes {prompt}))
      (holdingsMachine 300).init calls := by
  refine ⟨?_, ?_, trivial⟩
  · exact admitsBlocks_hashChain (fun b hb => mem_promptBlocks.mpr hb) (.inl rfl)
  · have hnodup : ((chain.drop 2).map (·.blockHash)).Nodup := by
      decide +kernel
    exact hnodup

end InOrder

/-- **The two implementations are interchangeable.** After calls that store genuine blocks
below their parents, that remove no block twice at once, and that clear, touch and query at
any times, a query of one group gets the same matches from both, and the block size is the
same. -/
theorem indexes_interchangeable (ttl : ℕ) (key : KeyedDigest) (prompts : Set Prompt)
    (hfree : Unambiguous (promptBlocks key prompts)) (calls : List IndexCall)
    (hcalls : (holdingsMachine ttl).Along (AdmitsCall (promptBlocks key prompts))
      (holdingsMachine ttl).init calls)
    (source : KvEventSourceId) (query : KvPrefixQuery) (hsingle : query.matchAllGroups = false)
    (now : ℕ) :
    let P := indexMachine .positionalHash ttl key
    let R := indexMachine .radixTree ttl key
    P.reply (P.after calls) (.query source query now) =
        R.reply (R.after calls) (.query source query now) ∧
      (P.after calls).blockSize source query = (R.after calls).blockSize source query := by
  intro P R
  have hS := genuine_promptBlocks hfree
  have hP : Refines (promptBlocks key prompts) ttl (P.after calls) _ := refines_run hS hcalls
  have hR : Refines (promptBlocks key prompts) ttl (R.after calls) _ := refines_run hS hcalls
  refine ⟨(hP.reports hS source hsingle now).unique (hR.reports hS source hsingle now), ?_⟩
  rw [blockSize_eq, blockSize_eq]
  have hsizes : orderedSet (((P.after calls).partitions source query).map (·.hashBlockSize)) =
      orderedSet (((R.after calls).partitions source query).map (·.hashBlockSize)) := by
    refine orderedSet_congr fun n => ?_
    simp only [List.mem_map, hP.mem_partitions source hsingle, hR.mem_partitions source hsingle]
  rw [hsizes]

/-- The blocks of a prompt are stored together, and then the last one is removed. -/
theorem indexes_interchangeable_prompt :
    query.matchAllGroups = false ∧
    (indexMachine .positionalHash 300 lastBytes).reply
        ((indexMachine .positionalHash 300 lastBytes).after InOrder.calls)
        (.query source query 3) =
      (indexMachine .radixTree 300 lastBytes).reply
        ((indexMachine .radixTree 300 lastBytes).after InOrder.calls)
        (.query source query 3) := by
  refine ⟨rfl, ?_⟩
  exact (indexes_interchangeable 300 lastBytes {InOrder.prompt} InOrder.unambiguous
    InOrder.calls InOrder.admitted source query rfl 3).1

/-- **Lookups are exact.** After calls that a cache can give rise to, either implementation
reports, for each placement of a specified locality, the longest start of the prompt that the
holdings cover there. -/
theorem lookups_exact (implementation : KvLocalityIndexResolvedImplementation) (ttl : ℕ)
    (key : KeyedDigest) (prompts : Set Prompt) (hfree : Unambiguous (promptBlocks key prompts))
    (calls : List IndexCall) (hcalls : (holdingsMachine ttl).Along
      (AdmitsCall (promptBlocks key prompts)) (holdingsMachine ttl).init calls)
    (source : KvEventSourceId) (query : KvPrefixQuery) (hsingle : query.matchAllGroups = false)
    (now : ℕ) :
    let machine := indexMachine implementation ttl key
    let holdings := (holdingsMachine ttl).after calls
    ((holdings source).prune ttl now).Reports query key
      (machine.reply (machine.after calls) (.query source query now)) :=
  (refines_run (genuine_promptBlocks hfree) hcalls).reports (genuine_promptBlocks hfree) source
    hsingle now

theorem lookups_exact_prompt :
    let machine := indexMachine .radixTree 300 lastBytes
    let holdings := (holdingsMachine 300).after InOrder.calls
    ((holdings source).prune 300 3).Reports query lastBytes
      (machine.reply (machine.after InOrder.calls) (.query source query 3)) :=
  lookups_exact .radixTree 300 lastBytes {InOrder.prompt} InOrder.unambiguous InOrder.calls
    InOrder.admitted source query rfl 3

/-! ### The trees of a run -/

/-- **The representation of the radix index** after every run: the maps of a tree agree, paths
follow the parents, no block waits for a stored parent, and a stored path consists of whole hashes
and passes through stored paths. -/
theorem radix_trees_coherent (implementation : KvLocalityIndexResolvedImplementation) (ttl : ℕ)
    (key : KeyedDigest) (calls : List IndexCall) (source : KvEventSourceId) :
    match ((indexMachine implementation ttl key).after calls).facts source with
    | .positionalHash _ => True
    | .radixTree trees => ∀ place, RadixTree.Coherent (trees place) ∧
      ∀ path entry, (trees place).entriesByPath.lookup path = some entry →
        hashLength ∣ path.length ∧ ∀ cut, cut <+: path → cut ≠ [] → hashLength ∣ cut.length →
          ∃ entry, (trees place).entriesByPath.lookup cut = some entry := by
  have hcoh := @coherent_run implementation ttl key calls source
  split
  next => trivial
  next trees htrees =>
    rw [htrees] at hcoh
    refine fun place => ⟨hcoh place, fun path entry h => ?_⟩
    exact ⟨((hcoh place).length_path h).1, fun cut hcut => (hcoh place).boundary_stored h hcut⟩

end Foretoken.KvLocality
