import Foretoken.KvLocality.GroupTree
import Foretoken.KvLocality.PositionalHash
import Foretoken.Lib.Machine

/-!
The locality index (`kv-indexer/src/index/mod.rs`): one of the two implementations behind one
interface. Every method acts on the facts of each source on its own.
-/

namespace Foretoken.KvLocality

open PositionalHash

/-- The two indexes. -/
inductive KvLocalityIndexResolvedImplementation where
  | positionalHash
  | radixTree
  deriving DecidableEq, Repr

/-- One of the two indexes. -/
inductive KvLocalityIndexes where
  | positionalHash (index : PositionalHashIndex)
  | radixTree (index : RadixTreeIndex)

namespace KvLocalityIndexes

/-- An empty index. -/
def new (implementation : KvLocalityIndexResolvedImplementation) (ttl : ℕ) : KvLocalityIndexes :=
  match implementation with
  | .positionalHash => .positionalHash (.new ttl)
  | .radixTree => .radixTree (.new ttl)

/-- The block size for a query, if there is one. -/
def blockSize (index : KvLocalityIndexes) (source : KvEventSourceId) (query : KvPrefixQuery) :
    Option ℕ :=
  match index with
  | .positionalHash index => index.blockSize source query
  | .radixTree index => index.blockSize source query

/-- An event of a source. -/
def apply (index : KvLocalityIndexes) (source : KvEventSourceId) (event : KvDeltaEvent)
    (now : ℕ) : KvLocalityIndexes :=
  match index with
  | .positionalHash index => .positionalHash (index.apply source event now)
  | .radixTree index => .radixTree (index.apply source event now)

/-- A source is forgotten. -/
def clearSource (index : KvLocalityIndexes) (source : KvEventSourceId) : KvLocalityIndexes :=
  match index with
  | .positionalHash index => .positionalHash (index.clearSource source)
  | .radixTree index => .radixTree (index.clearSource source)

/-- All epochs of a source are forgotten. -/
def clearEventSource (index : KvLocalityIndexes) (id : String) : KvLocalityIndexes :=
  match index with
  | .positionalHash index => .positionalHash (index.clearEventSource id)
  | .radixTree index => .radixTree (index.clearEventSource id)

/-- A source is observed again. -/
def touchSource (index : KvLocalityIndexes) (source : KvEventSourceId) (now : ℕ) :
    KvLocalityIndexes :=
  match index with
  | .positionalHash index => .positionalHash (index.touchSource source now)
  | .radixTree index => .radixTree (index.touchSource source now)

/-- The matches of a query, after the expired blocks are dropped. -/
def query (index : KvLocalityIndexes) (source : KvEventSourceId) (query : KvPrefixQuery)
    (key : KeyedDigest) (now : ℕ) : KvLocalityIndexes × List KvPrefixMatch :=
  match index with
  | .positionalHash index =>
    ((index.query source query key now).map KvLocalityIndexes.positionalHash id)
  | .radixTree index => ((index.query source query key now).map KvLocalityIndexes.radixTree id)

end KvLocalityIndexes

/-! ### Calls -/

/-- A call of the index that changes it. -/
inductive IndexCall where
  | apply (source : KvEventSourceId) (event : KvDeltaEvent) (now : ℕ)
  | clearSource (source : KvEventSourceId)
  | clearEventSource (id : String)
  | touchSource (source : KvEventSourceId) (now : ℕ)
  | query (source : KvEventSourceId) (query : KvPrefixQuery) (now : ℕ)
  deriving DecidableEq

/-- The index of an implementation, under one namespace key. -/
def indexMachine (implementation : KvLocalityIndexResolvedImplementation) (ttl : ℕ)
    (key : KeyedDigest) : Machine KvLocalityIndexes IndexCall (List KvPrefixMatch) where
  init := .new implementation ttl
  step index call :=
    match call with
    | .apply source event now => (index.apply source event now, [])
    | .clearSource source => (index.clearSource source, [])
    | .clearEventSource id => (index.clearEventSource id, [])
    | .touchSource source now => (index.touchSource source now, [])
    | .query source query now => index.query source query key now

/-! ### The facts of a source -/

/-- What an index holds for one source. -/
inductive Facts where
  | positionalHash (entries : List Entry)
  | radixTree (trees : RadixTree.TreeKey → RadixTree.GroupTree)

namespace Facts

/-- No facts. -/
def empty : KvLocalityIndexResolvedImplementation → Facts
  | .positionalHash => .positionalHash []
  | .radixTree => .radixTree fun _ => default

/-- An event is applied. -/
def apply (facts : Facts) (event : KvDeltaEvent) (now : ℕ) : Facts :=
  match facts with
  | .positionalHash entries => .positionalHash (applyEntries entries event now)
  | .radixTree trees => .radixTree fun place => RadixTree.applyTree place (trees place) event now

/-- All facts are observed again. -/
def touch (facts : Facts) (now : ℕ) : Facts :=
  match facts with
  | .positionalHash entries => .positionalHash (touchEntries entries now)
  | .radixTree trees => .radixTree fun place => RadixTree.touchTree (trees place) now

/-- The expired facts are dropped. -/
def prune (facts : Facts) (ttl now : ℕ) : Facts :=
  match facts with
  | .positionalHash entries => .positionalHash (pruneEntries ttl now entries)
  | .radixTree trees => .radixTree fun place => RadixTree.pruneTree ttl now (trees place)

/-- The representation invariant of the index, for one source. -/
def Coherent : Facts → Prop
  | .positionalHash _ => True
  | .radixTree trees => ∀ place, RadixTree.Coherent (trees place)

variable {facts : Facts}

lemma coherent_empty (im : KvLocalityIndexResolvedImplementation) :
    (empty im).Coherent := by
  cases im with
  | positionalHash => trivial
  | radixTree => exact fun _ => RadixTree.coherent_default

lemma Coherent.apply (h : facts.Coherent) (e : KvDeltaEvent) (now : ℕ) :
    (facts.apply e now).Coherent := by
  cases facts with
  | positionalHash => trivial
  | radixTree => exact fun p => (h p).applyTree p e

lemma Coherent.touch (h : facts.Coherent) (now : ℕ) : (facts.touch now).Coherent := by
  cases facts with
  | positionalHash => trivial
  | radixTree => exact fun p => (h p).touchTree

lemma Coherent.prune (h : facts.Coherent) (ttl now : ℕ) : (facts.prune ttl now).Coherent := by
  cases facts with
  | positionalHash => trivial
  | radixTree => exact fun p => (h p).pruneTree ttl

lemma prune_empty (implementation : KvLocalityIndexResolvedImplementation) (ttl now : ℕ) :
    (empty implementation).prune ttl now = empty implementation := by
  cases implementation with
  | positionalHash | radixTree => rfl

end Facts

open Facts

namespace KvLocalityIndexes

/-- Which of the two it is. -/
def implementation : KvLocalityIndexes → KvLocalityIndexResolvedImplementation
  | .positionalHash _ => .positionalHash
  | .radixTree _ => .radixTree

/-- How long a fact lives. -/
def ttl : KvLocalityIndexes → ℕ
  | .positionalHash index => index.ttl
  | .radixTree index => index.ttl

/-- The facts of a source. -/
def facts (index : KvLocalityIndexes) (source : KvEventSourceId) : Facts :=
  match index with
  | .positionalHash index => .positionalHash (index.entries source)
  | .radixTree index => .radixTree fun place => index.tree source place

/-- The facts of every source are coherent. -/
def Coherent (index : KvLocalityIndexes) : Prop := ∀ source, (index.facts source).Coherent

variable (index : KvLocalityIndexes) (source x : KvEventSourceId)

lemma facts_new (implementation : KvLocalityIndexResolvedImplementation) (ttl : ℕ) :
    (new implementation ttl).facts x = empty implementation := by
  cases implementation with
  | positionalHash | radixTree => rfl

lemma facts_apply (e : KvDeltaEvent) (now : ℕ) :
    (index.apply source e now).facts x =
      if x = source then (index.facts source).apply e now else index.facts x := by
  cases index with
  | positionalHash index =>
    rw [apply, facts, index.entries_apply]
    split_ifs <;> rfl
  | radixTree index =>
    simp only [apply, facts, index.tree_apply]
    split_ifs <;> rfl

lemma facts_touchSource (now : ℕ) :
    (index.touchSource source now).facts x =
      if x = source then (index.facts source).touch now else index.facts x := by
  cases index with
  | positionalHash index =>
    rw [touchSource, facts, index.entries_touchSource]
    split_ifs <;> rfl
  | radixTree index =>
    simp only [touchSource, facts, index.tree_touchSource]
    split_ifs <;> rfl

lemma facts_clearSource :
    (index.clearSource source).facts x =
      if x = source then empty index.implementation else index.facts x := by
  cases index with
  | positionalHash index =>
    rw [clearSource, facts, index.entries_clearSource]
    split_ifs <;> rfl
  | radixTree index =>
    simp only [clearSource, facts, index.tree_clearSource]
    split_ifs <;> rfl

lemma facts_clearEventSource (id : String) :
    (index.clearEventSource id).facts x =
      if x.eventSourceId = id then empty index.implementation else index.facts x := by
  cases index with
  | positionalHash index =>
    rw [clearEventSource, facts, index.entries_clearEventSource]
    split_ifs <;> rfl
  | radixTree index =>
    simp only [clearEventSource, facts, index.tree_clearEventSource]
    split_ifs <;> rfl

lemma facts_query {index : KvLocalityIndexes} (h : index.Coherent) (q : KvPrefixQuery)
    (key : KeyedDigest) (now : ℕ) :
    (index.query source q key now).1.facts x = (index.facts x).prune index.ttl now := by
  cases index with
  | positionalHash index =>
    exact congrArg Facts.positionalHash (index.entries_prune x now)
  | radixTree index =>
    exact congrArg Facts.radixTree (funext fun p => index.tree_prune x p now (h x p))

/-! ### What every method keeps -/

section Kept

variable {index : KvLocalityIndexes}

lemma coherent_new (implementation : KvLocalityIndexResolvedImplementation) (ttl : ℕ) :
    (new implementation ttl).Coherent := by
  intro x
  rw [facts_new]
  exact coherent_empty implementation

section

variable (h : index.Coherent)
include h

lemma Coherent.apply (e : KvDeltaEvent) (now : ℕ) :
    (index.apply source e now).Coherent := by
  intro x
  rw [facts_apply]
  split_ifs
  · exact (h source).apply e now
  · exact h x

lemma Coherent.touchSource (now : ℕ) :
    (index.touchSource source now).Coherent := by
  intro x
  rw [facts_touchSource]
  split_ifs
  · exact (h source).touch now
  · exact h x

lemma Coherent.clearSource : (index.clearSource source).Coherent := by
  intro x
  rw [facts_clearSource]
  split_ifs
  · exact coherent_empty _
  · exact h x

lemma Coherent.clearEventSource (id : String) :
    (index.clearEventSource id).Coherent := by
  intro x
  rw [facts_clearEventSource]
  split_ifs
  · exact coherent_empty _
  · exact h x

lemma Coherent.query (q : KvPrefixQuery) (key : KeyedDigest) (now : ℕ) :
    (index.query source q key now).1.Coherent := by
  intro x
  rw [facts_query source x h]
  exact (h x).prune _ now

end

lemma implementation_new (implementation : KvLocalityIndexResolvedImplementation) (ttl : ℕ) :
    (new implementation ttl).implementation = implementation := by
  cases implementation with
  | positionalHash | radixTree => rfl

lemma implementation_apply (event : KvDeltaEvent) (now : ℕ) :
    (index.apply source event now).implementation = index.implementation := by
  cases index with
  | positionalHash | radixTree => rfl

lemma implementation_touchSource (now : ℕ) :
    (index.touchSource source now).implementation = index.implementation := by
  cases index with
  | positionalHash | radixTree => rfl

lemma implementation_clearSource :
    (index.clearSource source).implementation = index.implementation := by
  cases index with
  | positionalHash | radixTree => rfl

lemma implementation_clearEventSource (id : String) :
    (index.clearEventSource id).implementation = index.implementation := by
  cases index with
  | positionalHash | radixTree => rfl

lemma implementation_query (query : KvPrefixQuery) (key : KeyedDigest) (now : ℕ) :
    (index.query source query key now).1.implementation = index.implementation := by
  cases index with
  | positionalHash | radixTree => rfl

lemma ttl_apply (event : KvDeltaEvent) (now : ℕ) :
    (index.apply source event now).ttl = index.ttl := by
  cases index with
  | positionalHash index | radixTree index => exact index.ttl_apply source event now

lemma ttl_touchSource (now : ℕ) : (index.touchSource source now).ttl = index.ttl := by
  cases index with
  | positionalHash index | radixTree index => exact index.ttl_touchSource source now

lemma ttl_clearSource : (index.clearSource source).ttl = index.ttl := by
  cases index with
  | positionalHash | radixTree => rfl

lemma ttl_clearEventSource (id : String) : (index.clearEventSource id).ttl = index.ttl := by
  cases index with
  | positionalHash | radixTree => rfl

lemma ttl_query (query : KvPrefixQuery) (key : KeyedDigest) (now : ℕ) :
    (index.query source query key now).1.ttl = index.ttl := by
  cases index with
  | positionalHash | radixTree => rfl

end Kept

end KvLocalityIndexes

end Foretoken.KvLocality
