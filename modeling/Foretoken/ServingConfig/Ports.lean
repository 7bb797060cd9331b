import Foretoken.ServingConfig.Types

/-!
The ports of the P/D listeners (`internal/engines/vllm/transfer_validation.go`).

`resolvePDRuntime` tries the connector's native port, the port after each reserved one and port 1.
These suffice: a range that is free can be moved down until it starts at port 1 or after a reserved
port.
-/

namespace Foretoken.ServingConfig

open List Foretoken.Registry Foretoken.Router

/-- How cached blocks are transferred. -/
structure KVTransfer where
  connector : String
  protocol : String

/-- What is read of a Pool's template: of the runtime cache, whether there is one. -/
structure NormalizedPoolTemplate where
  role : ModelServerRole
  kvTransfer : Option KVTransfer
  runtimeCache : Bool

/-- The port beside the runtime's. -/
def cacheObservationPort (runtimePort : ℤ) : ℤ :=
  if runtimePort < 65535 then runtimePort + 1 else runtimePort - 1

/-- The ports the runtime takes. -/
def reservedPorts (template : NormalizedPoolTemplate) (runtimePort : ℤ) : List ℤ :=
  runtimePort :: if template.runtimeCache then [cacheObservationPort runtimePort] else []

/-- A connector, its native port and the number of its listeners. -/
def listeners (connector : String) (dp : ℤ) : Option (KvConnector × ℤ × ℤ) :=
  if connector = "mooncake" then some (.mooncake, 8998, 1)
  else if connector = "nixl" then some (.nixl, 5600, dp)
  else none

/-- The preferred port, the ports after the reserved ones and the first. -/
def candidatePorts (preferred : ℤ) (reserved : List ℤ) : List ℤ :=
  preferred :: (reserved.map (· + 1) ++ [1])

/-- The body of the loop over the candidates. -/
def fits (reserved : List ℤ) (count base : ℤ) : Bool :=
  ¬ (count < 1 ∨ base + count > 65536) ∧ ∀ port ∈ reserved, ¬ (port ≥ base ∧ port < base + count)

/-- The transfer settings of a prefill or decode pool. -/
def resolvePDRuntime (template : NormalizedPoolTemplate) (dp runtimePort : ℤ) :
    Except String (Option ModelGroupPDRuntimeConfig) :=
  if template.role ≠ .prefill ∧ template.role ≠ .decode then .ok none
  else
    match template.kvTransfer with
    | none => .error "P/D Pool requires compiled kvTransfer settings"
    | some intent =>
      if intent.protocol ≠ "tcp" ∧ intent.protocol ≠ "rdma" then
        .error "P/D Pool requires a resolved TCP or RDMA transport"
      else
        match listeners intent.connector dp with
        | none => .error ("unsupported P/D connector " ++ intent.connector.quote)
        | some (connector, preferred, count) =>
          let reserved := reservedPorts template runtimePort
          match (candidatePorts preferred reserved).find? (fits reserved count) with
          | some base => .ok (some ⟨"", connector, intent.protocol, base, 0⟩)
          | none => .error "no port range is available for the P/D connector listeners"

/-- The ports from the base on are ports, and none of them is reserved. -/
def Available (reserved : List ℤ) (n base : ℤ) : Prop :=
  ∀ port, base ≤ port → port < base + n → 1 ≤ port ∧ port ≤ 65535 ∧ port ∉ reserved

section Range

variable {reserved : List ℤ} {n base : ℤ} (hn : 1 ≤ n)
include hn

lemma available_iff : Available reserved n base ↔ 1 ≤ base ∧ fits reserved n base = true := by
  rw [fits, decide_eq_true_eq]
  constructor
  · intro h
    have hfirst := h base le_rfl (by omega)
    have hlast := h (base + n - 1) (by omega) (by omega)
    exact ⟨hfirst.1, by omega, fun port hport hin => (h port hin.1 hin.2).2.2 hport⟩
  · rintro ⟨hbase, hend, hfree⟩ port hle hlt
    exact ⟨by omega, by omega, fun hport => hfree port hport ⟨hle, hlt⟩⟩

/-- **A free range can be moved down** to a candidate. -/
lemma exists_candidate (h : Available reserved n base) :
    ∃ c ∈ reserved.map (· + 1) ++ [1], Available reserved n c := by
  have hbase := ((available_iff hn).mp h).1
  induction base, hbase using Int.leInduction with
  | base => exact ⟨1, by simp, h⟩
  | succ port hport ih =>
    by_cases hres : port ∈ reserved
    · exact ⟨port + 1, mem_append_left _ (mem_map_of_mem hres), h⟩
    · refine ih fun p hle hlt => ?_
      rcases hle.eq_or_lt with rfl | hless
      · have hnext := h (port + 1) le_rfl (by omega)
        exact ⟨hport, by omega, hres⟩
      · exact h p hless (by omega)

lemma available_of_find {preferred : ℤ} (hpref : 1 ≤ preferred) (hpos : ∀ port ∈ reserved, 1 ≤ port)
    (h : (candidatePorts preferred reserved).find? (fits reserved n) = some base) :
    Available reserved n base := by
  refine (available_iff hn).mpr ⟨?_, find?_some h⟩
  rcases mem_cons.mp (mem_of_find?_eq_some h) with rfl | hmem
  · exact hpref
  · rcases mem_append.mp hmem with hmem | hmem
    · obtain ⟨port, hport, rfl⟩ := mem_map.mp hmem
      have hle := hpos port hport
      omega
    · rw [mem_singleton.mp hmem]

end Range

lemma one_le_of_mem_reserved {template : NormalizedPoolTemplate} {runtimePort : ℤ}
    (hrun : 1 ≤ runtimePort) : ∀ port ∈ reservedPorts template runtimePort, 1 ≤ port := by
  rw [reservedPorts, forall_mem_cons, cacheObservationPort]
  refine ⟨hrun, fun port h => ?_⟩
  split_ifs at h <;> simp at h <;> omega

/-- **Port selection is complete.** -/
theorem port_selection_complete (template : NormalizedPoolTemplate) {intent : KVTransfer}
    {connector : KvConnector} {dp runtimePort native n : ℤ}
    (hrole : template.role = .prefill ∨ template.role = .decode)
    (hintent : template.kvTransfer = some intent)
    (hprotocol : intent.protocol = "tcp" ∨ intent.protocol = "rdma")
    (hconnector : (intent.connector = "mooncake" ∧ connector = .mooncake ∧ native = 8998 ∧ n = 1) ∨
      intent.connector = "nixl" ∧ connector = .nixl ∧ native = 5600 ∧ n = dp)
    (hport : 1 ≤ runtimePort ∧ runtimePort ≤ 65535) (hdp : 1 ≤ dp) :
    let free := Available (reservedPorts template runtimePort) n
    let resolved := resolvePDRuntime template dp runtimePort
    let returned := fun base : ℤ => some (⟨"", connector, intent.protocol, base, 0⟩ :
      ModelGroupPDRuntimeConfig)
    ((∃ base, free base) → ∃ base, free base ∧ resolved = .ok (returned base)) ∧
      (free native → resolved = .ok (returned native)) ∧
      ∀ e, resolved = .error e → ¬ ∃ base, free base := by
  intro free resolved returned
  have hn : 1 ≤ n := by omega
  have hlisteners : listeners intent.connector dp = some (connector, native, n) := by
    rcases hconnector with ⟨hname, rfl, rfl, rfl⟩ | ⟨hname, rfl, rfl, rfl⟩ <;>
      simp [listeners, hname]
  have hresolved := show resolved = _ by
    simp only [resolved, resolvePDRuntime, hintent, hlisteners]
    rw [if_neg (by rcases hrole with h | h <;> simp [h]),
      if_neg (by rcases hprotocol with h | h <;> simp [h])]
  cases hfind : (candidatePorts native (reservedPorts template runtimePort)).find?
      (fits (reservedPorts template runtimePort) n) with
  | none =>
    have hnone : ¬ ∃ base, free base := by
      rintro ⟨base, hbase⟩
      obtain ⟨c, hc, hfree⟩ := exists_candidate hn hbase
      exact find?_eq_none.mp hfind c (mem_cons_of_mem _ hc) ((available_iff hn).mp hfree).2
    exact ⟨(absurd · hnone), fun hfree => absurd ⟨_, hfree⟩ hnone, fun _ _ => hnone⟩
  | some base =>
    rw [hfind] at hresolved
    refine ⟨fun _ => ⟨base, ?_, hresolved⟩, fun hfree => ?_, fun e he => ?_⟩
    · exact available_of_find hn (by omega) (one_le_of_mem_reserved hport.1) hfind
    · rw [candidatePorts, find?_cons_of_pos ((available_iff hn).mp hfree).2] at hfind
      cases hfind
      exact hresolved
    · simp [hresolved] at he

/-- Four listeners of a decode Pool with a cache, whose native port is followed by the
model-server's ports. -/
theorem four_listeners_moved_up :
    ∃ base, Available [5601, 5602] 4 base ∧
      resolvePDRuntime ⟨.decode, some ⟨"nixl", "tcp"⟩, true⟩ 4 5601 =
        .ok (some ⟨"", .nixl, "tcp", base, 0⟩) := by
  refine (port_selection_complete ⟨.decode, some ⟨"nixl", "tcp"⟩, true⟩ (n := 4) (.inr rfl) rfl
    (.inl rfl) (.inr ⟨rfl, rfl, rfl, rfl⟩) (by decide) (by decide)).1 ⟨5603, fun port hle hlt => ?_⟩
  simp [reservedPorts, cacheObservationPort]
  omega

end Foretoken.ServingConfig
