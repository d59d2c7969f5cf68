import RealmFormal.Agent.Egress

/-!
# Listener ports

The worker listens on `tcpPort` and on eight DNS ports from `dnsBase` on, and
leaves port 53 to the resolvers of the application. `validate` compares the ports
in sixteen bits, the NixOS module compares the same numbers as integers. At the
top of the range the end of the DNS ports is 65536, which is zero in sixteen bits.
-/

namespace RealmFormal.Agent
open Go
set_option autoImplicit false

/-- The ports of `startDNS`, sums of type `int`. -/
def dnsPorts (base : UInt16) : List Nat := (List.range dnsSlots).map fun i => base.toNat + i

/-- The port assertion of the NixOS module, for the local ports of the egresses. -/
def adapterPorts (tcpPort dnsBase : Nat) (localPorts : List (Option Nat)) : Bool :=
  decide (dnsBase ≤ 65528) && !decide (tcpPort ≥ dnsBase ∧ tcpPort < dnsBase + 8) &&
    localPorts.all fun localPort =>
      localPort.all fun p => decide (p ≠ tcpPort) && !decide (p ≥ dnsBase ∧ p < dnsBase + 8)

/-- The listeners are apart from each other and from port 53. -/
structure PortsApart (tcpPort dnsBase : UInt16) : Prop where
  range : ∀ p ∈ dnsPorts dnsBase, 1 ≤ p ∧ p ≤ 65535
  tcp : tcpPort.toNat ∉ dnsPorts dnsBase
  reserved : tcpPort ≠ 53 ∧ 53 ∉ dnsPorts dnsBase
  module : adapterPorts tcpPort.toNat dnsBase.toNat [] = true

theorem mem_dnsPorts {base : UInt16} {p : Nat} :
    p ∈ dnsPorts base ↔ base.toNat ≤ p ∧ p < base.toNat + 8 := by
  simp only [dnsPorts, dnsSlots, List.mem_map, List.mem_range]
  constructor
  · rintro ⟨i, hi, rfl⟩
    omega
  · intro hp
    exact ⟨p - base.toNat, by omega, by omega⟩

theorem adapterPorts_iff {tcpPort dnsBase : Nat} :
    adapterPorts tcpPort dnsBase [] = true ↔
      dnsBase ≤ 65528 ∧ ¬ (dnsBase ≤ tcpPort ∧ tcpPort < dnsBase + 8) := by
  simp only [adapterPorts, List.all_nil, Bool.and_true, Bool.and_eq_true, Bool.not_eq_true',
    decide_eq_true_eq, decide_eq_false_iff_not, ge_iff_le]

/-- The comparisons of `validate` over the natural numbers. -/
theorem portsOverlap_iff (tcpPort dnsBase : UInt16) :
    portsOverlap tcpPort dnsBase = false ↔
      dnsBase.toNat ≤ 65528 ∧
        ¬ (dnsBase.toNat ≤ tcpPort.toNat ∧ tcpPort.toNat < (dnsBase.toNat + 8) % 65536) ∧
        tcpPort.toNat ≠ 53 ∧ ¬ (dnsBase.toNat ≤ 53 ∧ 53 ≤ (dnsBase.toNat + 7) % 65536) := by
  have hport : tcpPort = 53 ↔ tcpPort.toNat = 53 := UInt16.toNat_inj.symm
  simp only [portsOverlap, decide_eq_false_iff_not, gt_iff_lt, ge_iff_le, UInt16.lt_iff_toNat_lt,
    UInt16.le_iff_toNat_le, UInt16.toNat_add, hport, UInt16.reduceToNat]
  omega

theorem withDefaults_dnsBase (w : Workload) : w.withDefaults.dnsBase.toNat ≠ 0 := by
  intro h
  have hzero : w.withDefaults.dnsBase = 0 := UInt16.toNat_inj.mp h
  simp only [Workload.withDefaults, orDefault] at hzero
  split at hzero
  · cases hzero
  · contradiction

/-- The ports of an accepted workload are apart unless the DNS ports end at 65535 and the TCP
port is one of them. -/
theorem ports_apart_iff {parseURL : Bytes → Option Url} {w v : Workload}
    (hv : w.validate parseURL = .ok v) :
    PortsApart v.tcpPort v.dnsBase ↔ ¬ (v.dnsBase = 65528 ∧ v.tcpPort ≥ 65528) := by
  obtain ⟨hbase, hoverlap, htcp, hreserved⟩ :=
    (portsOverlap_iff _ _).mp (validate_accepted hv).ports
  have hnonzero : v.dnsBase.toNat ≠ 0 := by
    rw [validate_eq hv]
    exact withDefaults_dnsBase w
  have htop : v.dnsBase = 65528 ↔ v.dnsBase.toNat = 65528 := UInt16.toNat_inj.symm
  have hmax := v.tcpPort.toNat_lt
  rw [htop, ge_iff_le, UInt16.le_iff_toNat_le]
  constructor
  · intro h hcollide
    apply h.tcp
    rw [mem_dnsPorts]
    simp only [UInt16.reduceToNat] at hcollide
    omega
  · intro hapart
    have htcp' : ¬ (v.dnsBase.toNat ≤ v.tcpPort.toNat ∧ v.tcpPort.toNat < v.dnsBase.toNat + 8) := by
      simp only [UInt16.reduceToNat] at hapart
      omega
    constructor
    case range =>
      intro p hp
      rw [mem_dnsPorts] at hp
      omega
    case tcp =>
      rw [mem_dnsPorts]
      exact htcp'
    case reserved =>
      refine ⟨fun h => htcp (congrArg UInt16.toNat h), ?_⟩
      rw [mem_dnsPorts]
      omega
    case module => exact adapterPorts_iff.mpr ⟨hbase, htcp'⟩

/-- A workload whose TCP port is the third of its DNS ports. -/
def topPorts : Workload := { sampleEgress with tcpPort := 65530, dnsBase := 65528 }

theorem top_ports_collide :
    topPorts.validate sampleUpstream = .ok topPorts.withDefaults ∧
      topPorts.withDefaults.tcpPort.toNat ∈ dnsPorts topPorts.withDefaults.dnsBase ∧
      adapterPorts topPorts.withDefaults.tcpPort.toNat topPorts.withDefaults.dnsBase.toNat [] =
        false := by
  have hcheck : topPorts.check sampleUpstream = none := by decide +kernel
  refine ⟨?_, by decide, by decide⟩
  rw [Workload.validate, hcheck]

theorem ports_apart_iff_sampleEgress :
    PortsApart sampleEgress.withDefaults.tcpPort sampleEgress.withDefaults.dnsBase := by
  refine (ports_apart_iff sampleEgress_accepted).mpr ?_
  decide

end RealmFormal.Agent
